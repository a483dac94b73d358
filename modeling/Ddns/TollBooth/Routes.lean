import Ddns.TollBooth.Server

/-!
# Stored routes and points

`booth_law` says what the booth keeps of its submissions: every stored route is one that a quorum of
trusted witnesses signed, and every accepted submission earns one point, also one that has expired or
was accepted before.
-/

namespace Ddns.TollBooth

open Runs

/-- A step of the booth. -/
abbrev Step := Event Booth Input (Option Response)

variable {rt : Runtime} {config : Config}

/-! ## The law -/

/-- The witness is trusted and signed the route id. -/
structure Signed (rt : Runtime) (computedId : JsText) (trusted : List JsText)
    (witnesses : List WitnessAttestation) (key : JsText) : Prop where
  trusted : key ∈ trusted
  attested : ∃ att ∈ witnesses, att.witness = key ∧ att.routeId = computedId ∧
    ∃ pubkey, rt.base58Bytes key = some pubkey ∧
      rt.verify (rt.hexBytes computedId) (rt.base64Bytes att.sig) pubkey = some true

/-- A quorum of distinct trusted witnesses signed the id of the route. -/
structure Quorate (rt : Runtime) (config : Config) (computedId : JsText) (s : Submission) : Prop where
  routeId : routeId rt s.route = some computedId
  quorum : ∃ keys : List JsText, keys.Nodup ∧ config.quorum ≤ keys.length ∧
    ∀ key ∈ keys, Signed rt computedId s.trusted s.witnesses key

/-- The submission that a step accepts. -/
def Step.accepted (e : Step) : Option Pending :=
  match e.input with
  | .passLookedUp k (some true) => e.pre.pending[k]?
  | _ => none

/-- The accepted submissions of an owner, in the order of their acceptance. -/
def acceptedOf (owner : JsText) (es : List Step) : List Pending :=
  (es.filterMap Step.accepted).filter fun p => p.submission.route.owner = owner

def Booth.points (s : Booth) (owner : JsText) : ℕ := (s.credits.get owner).getD 0

/-- **Routes**: they are stored with a quorum and before they expire, and each of them earns a point
at most once. -/
structure RoutesLaw (rt : Runtime) (config : Config) (start : ℤ) (inputs : List Input) : Prop where
  quorate : ∀ computedId r,
    (exec (Booth.step rt config) (.start start) inputs).routes.get computedId = some r →
      Quorate rt config computedId r
  unexpired : ∀ computedId r,
    (exec (Booth.step rt config) (.start start) inputs).routes.get computedId = some r →
      JsNum.lt (.fin r.submittedAt) r.route.expiresAt
  once : ∀ owner, (exec (Booth.step rt config) (.start start) inputs).points owner ≤
    ((acceptedOf owner (trace (Booth.step rt config) (.start start) inputs)).map
      Pending.computedId).eraseDups.length

/-- **Accepted submissions**: they are stored with a quorum, and each of them earns a point. -/
structure BoothLaw (rt : Runtime) (config : Config) (start : ℤ) (inputs : List Input) : Prop where
  quorate : ∀ computedId r,
    (exec (Booth.step rt config) (.start start) inputs).routes.get computedId = some r →
      Quorate rt config computedId r
  stored : ∀ e ∈ trace (Booth.step rt config) (.start start) inputs, ∀ p, Step.accepted e = some p →
    e.out = some (.ok p.computedId) ∧ e.post.routes.get p.computedId = some p.submission
  points : ∀ owner, (exec (Booth.step rt config) (.start start) inputs).points owner =
    (acceptedOf owner (trace (Booth.step rt config) (.start start) inputs)).length

/-! ## The quorum -/

theorem signed_of_verifyWitness {computedId : JsText} {trusted : List JsText}
    {witnesses : List WitnessAttestation} {w : WitnessAttestation} (hw : w ∈ witnesses)
    (hid : w.routeId = computedId) (h : verifyWitness rt computedId w trusted = some true) :
    Signed rt computedId trusted witnesses w.witness := by
  unfold verifyWitness at h
  split at h
  · cases h
  · split at h
    · cases h
    · next htrusted =>
      obtain ⟨pubkey, hpubkey, hverify⟩ := Option.bind_eq_some_iff.1 h
      exact ⟨not_not.1 htrusted, w, hw, rfl, hid, pubkey, hpubkey, hverify⟩

/-- The witnesses that are collected are distinct, and each of them signed. -/
theorem collectWitnesses_signed {computedId : JsText} {trusted valid keys : List JsText}
    {witnesses : List WitnessAttestation} (all : List WitnessAttestation)
    (hsub : witnesses ⊆ all) (hnodup : valid.Nodup)
    (hvalid : ∀ key ∈ valid, Signed rt computedId trusted all key)
    (h : collectWitnesses rt computedId trusted valid witnesses = some keys) :
    keys.Nodup ∧ ∀ key ∈ keys, Signed rt computedId trusted all key := by
  induction witnesses generalizing valid with
  | nil =>
    cases h
    exact ⟨hnodup, hvalid⟩
  | cons w ws ih =>
    obtain ⟨hw, hws⟩ := List.cons_subset.1 hsub
    unfold collectWitnesses at h
    by_cases hid : w.routeId ≠ computedId
    · rw [if_pos hid] at h
      exact ih hws hnodup hvalid h
    · rw [if_neg hid] at h
      cases hverify : verifyWitness rt computedId w trusted with
      | none =>
        rw [hverify] at h
        cases h
      | some good =>
        rw [hverify] at h
        cases good with
        | false => exact ih hws hnodup hvalid h
        | true =>
          have hsigned : Signed rt computedId trusted all w.witness :=
            signed_of_verifyWitness (hw) (not_not.1 hid) hverify
          simp only at h
          split at h
          · exact ih hws hnodup hvalid h
          · next hnew =>
            refine ih hws ?_ (fun key hkey => ?_) h
            · exact List.nodup_append.2 ⟨hnodup, List.nodup_singleton _, fun a ha b hb hab => by
                rw [List.mem_singleton.1 hb] at hab
                exact hnew (hab ▸ ha)⟩
            · rcases List.mem_append.1 hkey with hold | hlast
              · exact hvalid key hold
              · rw [List.mem_singleton.1 hlast]
                exact hsigned

/-- A submission that passes its checks has a quorum. -/
theorem quorate_of_checkSubmission {route : Option RouteRecord} {witnesses : List WitnessAttestation}
    {trusted : List JsText} {computedId : JsText} {r : RouteRecord} (now : ℤ)
    (h : checkSubmission rt config route witnesses trusted = some (.ok (computedId, r))) :
    Quorate rt config computedId ⟨r, witnesses, trusted, now⟩ := by
  unfold checkSubmission at h
  cases hroute : isValidRoute route with
  | error e =>
    rw [hroute] at h
    cases h
  | ok r' =>
    rw [hroute] at h
    simp only [Option.bind_eq_bind, Option.bind_eq_some_iff] at h
    obtain ⟨computedId', hid, valid, hvalid, h⟩ := h
    split at h
    · cases h
    · next hquorum =>
      cases h
      obtain ⟨hnodup, hsigned⟩ := collectWitnesses_signed witnesses (List.Subset.refl _)
        List.nodup_nil (fun key hkey => by cases hkey) hvalid
      exact ⟨hid, valid, hnodup, not_lt.1 hquorum, hsigned⟩

/-! ## Steps -/

/-- A submission is accepted, or nothing is stored; what comes to await has a quorum. -/
theorem step_cases (rt : Runtime) (config : Config) (s : Booth) (i : Input) :
    (∃ k p, i = .passLookedUp k (some true) ∧ s.pending[k]? = some p ∧
      s.step rt config i =
        (Booth.store { s with pending := s.pending.eraseIdx k } p, some (.ok p.computedId))) ∨
    (Step.accepted (event (Booth.step rt config) s i) = none ∧
      (s.step rt config i).1.routes = s.routes ∧ (s.step rt config i).1.credits = s.credits ∧
      ∀ p ∈ (s.step rt config i).1.pending,
        p ∈ s.pending ∨ Quorate rt config p.computedId p.submission) := by
  cases i with
  | submit route witnesses trusted now =>
    right
    refine ⟨rfl, ?_⟩
    unfold Booth.step Booth.submit
    simp only
    split
    · exact ⟨rfl, rfl, fun p hp => .inl hp⟩
    · split
      · exact ⟨rfl, rfl, fun p hp => .inl hp⟩
      · exact ⟨rfl, rfl, fun p hp => .inl hp⟩
      · next computedId r hcheck =>
        refine ⟨rfl, rfl, fun p hp => ?_⟩
        rcases List.mem_append.1 hp with hold | hnew
        · exact .inl hold
        · rw [List.mem_singleton.1 hnew]
          exact .inr (quorate_of_checkSubmission now hcheck)
  | passLookedUp k hasPass =>
    have hstep : s.step rt config (.passLookedUp k hasPass) = s.passLookedUp k hasPass := rfl
    rw [hstep]
    unfold Booth.passLookedUp
    cases hk : s.pending[k]? with
    | none =>
      refine .inr ⟨?_, rfl, rfl, fun p hp => .inl hp⟩
      rcases hasPass with _ | _ | _
      · rfl
      · rfl
      · exact hk
    | some p =>
      rcases hasPass with _ | _ | _
      · exact .inr ⟨rfl, rfl, rfl, fun p hp => .inl (List.mem_of_mem_eraseIdx hp)⟩
      · exact .inr ⟨rfl, rfl, rfl, fun p hp => .inl (List.mem_of_mem_eraseIdx hp)⟩
      · exact .inl ⟨k, p, rfl, hk, rfl⟩

/-- What the booth holds has a quorum. -/
structure Sound (rt : Runtime) (config : Config) (s : Booth) : Prop where
  pending : ∀ p ∈ s.pending, Quorate rt config p.computedId p.submission
  routes : ∀ computedId r, s.routes.get computedId = some r → Quorate rt config computedId r

theorem sound_start (now : ℤ) : Sound rt config (.start now) :=
  ⟨fun _ hp => (by cases hp), fun _ _ hr => (by cases hr)⟩

theorem sound_step {s : Booth} {i : Input} (h : Sound rt config s) :
    Sound rt config (s.step rt config i).1 := by
  rcases step_cases rt config s i with ⟨k, p, rfl, hp, hstep⟩ | ⟨-, hroutes, -, hpending⟩
  · rw [hstep]
    refine ⟨fun q hq => h.pending q (List.mem_of_mem_eraseIdx hq), fun computedId r hr => ?_⟩
    simp only [Booth.store, FinMap.get_set] at hr
    split at hr
    · next hid =>
      cases hr
      rw [hid]
      exact h.pending p (List.mem_of_getElem? hp)
    · exact h.routes computedId r hr
  · refine ⟨fun p hp => (hpending p hp).elim (h.pending p) id, fun computedId r hr => ?_⟩
    rw [hroutes] at hr
    exact h.routes computedId r hr

/-! ## Points -/

theorem points_store (s : Booth) (p : Pending) (owner : JsText) : (s.store p).points owner =
    s.points owner + if p.submission.route.owner = owner then 1 else 0 := by
  unfold Booth.points Booth.store
  simp only [FinMap.get_set]
  by_cases howner : owner = p.submission.route.owner
  · simp [howner]
  · simp [howner, Ne.symm howner]

theorem acceptedOf_append (owner : JsText) (es : List Step) (e : Step) :
    (acceptedOf owner (es ++ [e])).length = (acceptedOf owner es).length +
      match e.accepted with
      | some p => if p.submission.route.owner = owner then 1 else 0
      | none => 0 := by
  unfold acceptedOf
  cases haccepted : e.accepted with
  | none => simp [haccepted]
  | some p =>
    by_cases howner : p.submission.route.owner = owner
    · simp [haccepted, howner]
    · simp [haccepted, howner]

/-- Every owner has a point for each of the accepted submissions so far. -/
def Paid (s : Booth) (es : List Step) : Prop :=
  ∀ owner, s.points owner = (acceptedOf owner es).length

theorem paid_step (s : Booth) (es : List Step) (i : Input) (h : Paid s es) :
    Paid (s.step rt config i).1 (es ++ [event (Booth.step rt config) s i]) := by
  intro owner
  rw [acceptedOf_append, ← h owner]
  rcases step_cases rt config s i with ⟨k, p, rfl, hp, hstep⟩ | ⟨hnone, -, hcredits, -⟩
  · have haccepted : Step.accepted (event (Booth.step rt config) s (.passLookedUp k (some true))) =
        some p := hp
    rw [hstep, haccepted, points_store]
    rfl
  · rw [hnone]
    unfold Booth.points
    rw [hcredits]
    rfl

/-- **What the booth keeps of its submissions**, in every run. -/
theorem booth_law (rt : Runtime) (config : Config) (start : ℤ) (inputs : List Input) :
    BoothLaw rt config start inputs := by
  have hsound (s : Booth) (i : Input) (h : Sound rt config s) : Sound rt config (s.step rt config i).1 :=
    sound_step h
  have hpaid (s : Booth) (es : List Step) (i : Input) (h : Paid s es) :
      Paid (s.step rt config i).1 (es ++ [event (Booth.step rt config) s i]) := paid_step s es i h
  refine ⟨(exec_induction hsound (sound_start start) inputs).routes, fun e he p haccepted => ?_,
    history_of_step hpaid (fun owner => rfl) inputs⟩
  obtain ⟨pre, i, post, -, rfl⟩ := mem_trace he
  rcases step_cases rt config (exec (Booth.step rt config) (.start start) pre) i with
    ⟨k, p', rfl, hp, hstep⟩ | ⟨hnone, -⟩
  · obtain rfl : p' = p := Option.some.inj (hp.symm.trans haccepted)
    rw [event_out, event_post, hstep]
    exact ⟨rfl, FinMap.get_set_self _ _ _⟩
  · rw [hnone] at haccepted
    cases haccepted

/-! ## Example -/

/-- Bytes stand in for their hash, and every signature is valid. -/
def exampleRuntime : Runtime where
  sha256Hex bytes := bytes.map fun b => Char.ofNat b.toNat
  hexBytes t := t.utf8
  base64Bytes t := t.utf8
  base58Bytes t := some t.utf8
  verify _ _ _ := some true
  numberText q := Nat.toDigits 10 q.num.natAbs

def exampleConfig : Config where
  quorum := 1
  attackModeEnabled := false
  attackWindowSecs := .fin 120
  attackThresholds := Attack.defaultThresholds
  reasonText _ := ""

def exampleRoute : RouteRecord where
  v := .fin 1
  name := ['a', '.', 'd', 'n', 's']
  dest := ['d']
  ttl := .fin 300
  issuedAt := .fin 1
  expiresAt := .fin 301
  owner := ['o']
  nonce := ['n']

def exampleId : JsText := (routeId exampleRuntime exampleRoute).getD []

def exampleSubmission : Input :=
  .submit (some exampleRoute) [⟨.fin 1, exampleId, ['w'], ['s'], .fin 1⟩] [['w']] 1

/-- A route is submitted twice. -/
def exampleTwice : List Input :=
  [exampleSubmission, .passLookedUp 0 (some true), exampleSubmission, .passLookedUp 0 (some true)]

/-- Its owner has two points. -/
theorem exampleTwice_not_routesLaw : ¬RoutesLaw exampleRuntime exampleConfig 0 exampleTwice := by
  intro h
  exact absurd (h.once ['o']) (by decide +kernel)

end Ddns.TollBooth
