import Ddns.Gateway.ResolveSteps

/-!
# The authority signature of a response

A signed response carries the hash of what was signed. The registry path signs the records and lowers
their ttls afterwards, so in every run the hash is that of the records that are sent exactly if no
record of the registry has to be changed (`authoritySig_iff`).
-/

namespace Ddns.Gateway.Resolve

variable {rt : Runtime} {config : Config} {s : State} {i : Input} {p : ResolveResponse}

/-- A response with a signature carries the hash of its own name, network and records. -/
def Signed (rt : Runtime) (p : ResolveResponse) : Prop :=
  p.metadata.authoritySig.isSome → p.metadata.resultHash = some (computeResultHash rt p)

/-- A signed answer from the registry needs no clamp, or none of its records does. -/
def SignsWhatItSends (rt : Runtime) (config : Config) (s : State) (i : Input) : Prop :=
  ∀ now req records, i = .request now req → req.FromRegistry rt config records →
    config.privateKeyHex ≠ [] → 0 < (s.atRegistry config now).clamp →
    WithinClamp (s.atRegistry config now).clamp records

/-! ## What the clamp changes -/

theorem clampRecord_eq_iff {clamp : ℕ} {r : ResolveRecord} :
    clampRecord clamp r = r ↔ ∃ ttl, r.ttl = some ttl ∧ ttl ≤ clamp := by
  obtain ⟨type, value, _ | ttl⟩ := r
  · simp [clampRecord]
  · simp [clampRecord]

theorem map_clampRecord_eq {clamp : ℕ} {records : List ResolveRecord}
    (h : WithinClamp clamp records) : records.map (clampRecord clamp) = records := by
  conv_rhs => rw [← List.map_id records]
  exact List.map_congr_left fun r hr => clampRecord_eq_iff.2 (h r hr)

/-- Records that print alike up to order have the same ttl. -/
theorem ttl_eq_of_same {r r' : ResolveRecord}
    (h : Json.SameUpToOrder (r.json rt) (r'.json rt)) : r.ttl = r'.ttl := by
  have hlength {fields fields' : List (JsText × Json)}
      (h : Json.SameUpToOrder (.obj fields) (.obj fields')) : fields.length = fields'.length := by
    cases h with
    | obj keys same => simpa using keys.length_eq
  obtain ⟨type, value, ttl⟩ := r
  obtain ⟨type', value', ttl'⟩ := r'
  cases ttl with
  | none =>
    cases ttl' with
    | none => rfl
    | some q' => cases hlength h
  | some q =>
    cases ttl' with
    | none => cases hlength h
    | some q' =>
      cases h with
      | obj keys same =>
        have hnum := same (['t', 't', 'l'], .num (rt.numberText.text q)) (by simp)
          (['t', 't', 'l'], .num (rt.numberText.text q')) (by simp) rfl
        generalize hx : Json.num (rt.numberText.text q) = x at hnum
        generalize hy : Json.num (rt.numberText.text q') = y at hnum
        cases hnum <;> cases hx
        rw [rt.numberText.text_inj q q' (Json.num.inj hy).symm]

/-- Records and what the clamp makes of them have the same hash only where the clamp changes none. -/
theorem withinClamp_of_hash_eq (hblake3 : Function.Injective rt.blake3) {clamp : ℕ}
    {records : List ResolveRecord} {name : JsText} {network : Network} {m m' : Metadata}
    (h : computeResultHash rt ⟨name, network, records, m⟩ =
      computeResultHash rt ⟨name, network, records.map (clampRecord clamp), m'⟩) :
    WithinClamp clamp records := by
  have htext := (Core.computeResolveResultHash_eq_iff hblake3).1 h
  have hsame := (Core.value_same_iff.1 (JsonValue.same_of_print_eq htext)).records
  intro r hr
  cases hsame with
  | arr length same =>
    have hzip : (r.json rt, (clampRecord clamp r).json rt) ∈ (records.map (ResolveRecord.json rt)).zip
        ((records.map (clampRecord clamp)).map (ResolveRecord.json rt)) := by
      rw [List.map_map, List.zip_map']
      exact List.mem_map_of_mem (f := fun r => (r.json rt, (clampRecord clamp r).json rt)) hr
    have httl := ttl_eq_of_same (same _ hzip)
    refine clampRecord_eq_iff.1 ?_
    obtain ⟨type, value, ttl⟩ := r
    simp only [clampRecord] at httl ⊢
    rw [← httl]

/-! ## Signed payloads -/

theorem signed_attachAuthoritySig {name : JsText} {network : Network}
    {records : List ResolveRecord} {cache : Option CacheState} :
    Signed rt (attachAuthoritySig rt config ⟨name, network, records, { cache }⟩) := by
  unfold attachAuthoritySig
  split
  · exact fun h => nomatch h
  · exact fun _ => rfl

theorem signed_clampRecords_iff (hblake3 : Function.Injective rt.blake3) {clamp : ℕ} {name : JsText}
    {records : List ResolveRecord} :
    Signed rt (clampRecords clamp (attachAuthoritySig rt config ⟨name, .dns, records, {}⟩)) ↔
      (config.privateKeyHex ≠ [] → 0 < clamp → WithinClamp clamp records) := by
  unfold clampRecords
  by_cases hclamp : 0 < clamp
  swap
  · rw [if_neg hclamp]
    exact ⟨fun _ _ h => absurd h hclamp, fun _ => signed_attachAuthoritySig⟩
  rw [if_pos hclamp]
  by_cases hkey : config.privateKeyHex = []
  · rw [attachAuthoritySig, if_pos hkey]
    exact ⟨fun _ h => absurd hkey h, fun _ h => nomatch h⟩
  · rw [attachAuthoritySig, if_neg hkey]
    constructor
    · intro hsigned _ _
      exact withinClamp_of_hash_eq hblake3 (Option.some.inj (hsigned rfl))
    · intro hwithin _
      dsimp only
      rw [map_clampRecord_eq (hwithin hkey hclamp)]
      rfl

/-- What is sent carries the right hash exactly if the step meets the condition. -/
theorem signed_step_iff (hblake3 : Function.Injective rt.blake3) (hinv : Inv rt config s) :
    (∀ p, (step rt config s i).2 = some (.ok p) → Signed rt p) ↔ SignsWhatItSends rt config s i := by
  constructor
  · rintro h now req records rfl hreq
    exact (signed_clampRecords_iff hblake3).1 (h _ (step_ok_iff.2 (.registry now hreq)))
  · intro h p hsent
    cases step_ok_iff.1 hsent with
    | registry now hreq => exact (signed_clampRecords_iff hblake3).2 (h now _ _ rfl hreq)
    | @cached req hit now hreq hget hfresh =>
      obtain ⟨name, records, hpayload⟩ := hinv.cached _ _ hget
      rw [hpayload]
      exact @signed_attachAuthoritySig rt config _ _ _ (some .miss)
    | chain r rs hstage => exact signed_attachAuthoritySig
    | doh now answers hstage halone => exact signed_attachAuthoritySig
    | nodes now hstage hok =>
      obtain ⟨name, records, rfl, -⟩ := hinv.made _ (List.mem_of_getElem? hstage)
      exact signed_attachAuthoritySig

/-- **In every run, every signed response carries the hash of what is sent exactly if every step
meets the condition.** -/
theorem authoritySig_iff (rt : Runtime) (config : Config)
    (hblake3 : Function.Injective rt.blake3) (now : ℤ) (inputs : List Input) :
    (∀ e ∈ Runs.trace (step rt config) (.start now) inputs, ∀ p, e.out = some (.ok p) →
      Signed rt p) ↔
      Runs.Each (step rt config) (SignsWhatItSends rt config) (.start now) inputs := by
  calc (∀ e ∈ Runs.trace (step rt config) (.start now) inputs, ∀ p, e.out = some (.ok p) →
          Signed rt p)
      ↔ Runs.Each (step rt config)
          (fun s i => ∀ p, (step rt config s i).2 = some (.ok p) → Signed rt p) (.start now)
          inputs := Runs.forall_mem_trace_iff
    _ ↔ Runs.Each (step rt config) (SignsWhatItSends rt config) (.start now) inputs :=
        Runs.each_congr (J := Inv rt config) (fun _ i h => h.step i)
          (fun _ _ h => signed_step_iff hblake3 h) (inv_start rt config now) inputs

/-! ## A record that is clamped -/

/-- What is hashed for `exampleRequest`. -/
def exampleText (ttl : ℚ) : List UInt8 :=
  (Core.stableStringify compare (ResolveResponse.hashInput (exampleRuntimeWith id)
    ⟨['a', '.', 'd', 'n', 's'], .dns, [⟨Core.ownerText, .text ['x'], some ttl⟩], {}⟩).value).utf8

/-- It knows the digests of the texts for 3600 and for 300 seconds. -/
def exampleBlake3 : Equiv.Perm (List UInt8) :=
  (Equiv.swap (exampleText 3600)
    [75, 219, 16, 36, 72, 210, 100, 141, 230, 56, 127, 86, 16, 121, 76, 131, 207, 213, 105, 30, 129,
      119, 101, 118, 208, 24, 161, 60, 162, 86, 209, 192]).trans
    (Equiv.swap (exampleText 300)
      [242, 199, 50, 211, 186, 29, 98, 23, 96, 108, 107, 119, 30, 141, 30, 6, 192, 133, 106, 88, 76,
        76, 122, 248, 171, 255, 14, 60, 27, 15, 187, 101])

def exampleRuntime : Runtime := exampleRuntimeWith exampleBlake3

/-- A call of the RPC endpoint has failed when the request arrives. -/
def exampleRun (ttl : ℚ) : List Input := [.rpc true, .request 0 (exampleRequest ttl)]

theorem exampleRun_clamp :
    (((State.start 0).countRpc true).atRegistry exampleConfig 0).clamp = 300 := by
  decide +kernel

/-- A ttl of an hour is signed, and one of five minutes is sent. -/
theorem authoritySig_broken : ¬∀ rt config now inputs,
    ∀ e ∈ Runs.trace (step rt config) (.start now) inputs, ∀ p, e.out = some (.ok p) →
      Signed rt p := by
  intro h
  have hsent := step_ok_iff.2 (Sends.registry (s := (State.start 0).countRpc true) 0
    (exampleRequest_fromRegistry exampleBlake3 3600))
  have hsigned := h exampleRuntime exampleConfig 0 (exampleRun 3600) _
    (List.mem_cons_of_mem _ List.mem_cons_self) _ hsent
  obtain ⟨ttl, httl, hle⟩ := (signed_clampRecords_iff exampleBlake3.injective).1 hsigned
    (List.cons_ne_nil _ _) (by rw [exampleRun_clamp]; decide) _ List.mem_cons_self
  obtain rfl := Option.some.inj httl
  rw [exampleRun_clamp] at hle
  exact absurd hle (by decide)

/-- A ttl of five minutes is sent as it was signed. -/
theorem exampleRun_signed :
    ∃ p, (step exampleRuntime exampleConfig ((State.start 0).countRpc true)
      (.request 0 (exampleRequest 300))).2 = some (.ok p) ∧ Signed exampleRuntime p := by
  have hsent := step_ok_iff.2 (Sends.registry (s := (State.start 0).countRpc true) 0
    (exampleRequest_fromRegistry exampleBlake3 300))
  refine ⟨_, hsent, (authoritySig_iff exampleRuntime exampleConfig exampleBlake3.injective 0
    (exampleRun 300)).2 ⟨?_, ?_, trivial⟩ _ (List.mem_cons_of_mem _ List.mem_cons_self) _ hsent⟩
  · rintro now req records ⟨⟩
  · rintro now req records ⟨⟩ hreq - - r hr
    cases hreq.registry_eq
    obtain rfl := List.mem_singleton.1 hr
    have hclamp : ((step exampleRuntime exampleConfig (.start 0) (.rpc true)).1.atRegistry
      exampleConfig 0).clamp = 300 := exampleRun_clamp
    rw [hclamp]
    exact ⟨300, rfl, by decide⟩

end Ddns.Gateway.Resolve
