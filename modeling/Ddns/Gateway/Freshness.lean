import Ddns.Gateway.Entries

/-!
# Freshness of the recursive resolver

An answer is handed out while its entry is fresh, or for `staleMaxS` seconds more to a call whose
refresh failed; a name is refreshed once at a time, and the cache keeps its size.

`freshnessLaw_iff` says when a run keeps this. The code reads a `staleMaxS` of zero as the default,
a call that joins a prefetch gets its entry without a look at the clock, the clock may pass the
expiry while a result waits for its turn, and `finally` deletes whatever refresh is registered under
the name.
-/

namespace Ddns.Gateway

open Runs

/-! ## The law -/

section Law

variable (rt : Runtime) (config : RecursiveConfig)

/-- The answer is fresh at the time `u` of the return, or the refresh failed and the call started in
the stale window. -/
def FreshOutput (u : ℚ) : Output → Prop
  | .returned start a => u < a.entry.fetchedAt + a.entry.ttlS ∨
      a.source = .stale ∧ start ≤ a.entry.fetchedAt + a.entry.ttlS + config.staleMaxS
  | .thrown => True

/-- Two refreshes that are in flight are of different names or types. -/
def SingleFlight (s : Adapter) : Prop :=
  ∀ (p q : ℕ) (r r' : Refresh), s.promises[p]? = some r → s.promises[q]? = some r' → r.awaiting → r'.awaiting →
    r.key rt = r'.key rt → p = q

/-- **Freshness** of the runs that start with an empty cache. -/
structure FreshnessLaw (inputs : List Input) : Prop where
  fresh : ∀ pre u post output, inputs = pre ++ .turn u :: post →
    (Adapter.step rt config (exec (Adapter.step rt config) .initial pre) (.turn u)).2 =
      some output → FreshOutput config u output
  single : ∀ pre post, inputs = pre ++ post →
    SingleFlight rt (exec (Adapter.step rt config) .initial pre)
  bounded : ∀ pre post, inputs = pre ++ post →
    ((exec (Adapter.step rt config) .initial pre).cache.entries.length : ℚ) ≤
      config.cacheMaxEntries

/-- The job hands an answer out in time: before its entry expires; else only the entry of a prefetch
whose refresh failed, to a call that started in the stale window, and an expired entry, not because
`staleMaxS` is zero. -/
def Timely (now : ℚ) : Job → Prop
  | .react (.deliver call) (some a) => now < a.entry.expiresAt ∨
      a.source = .stale ∧ call.start ≤ a.entry.expiresAt + config.staleMaxS
  | .react (.deliver call) none => config.staleMaxS = 0 → ∀ e, call.existing = some e →
      call.start ≤ e.staleUntil → now < e.expiresAt ∨ call.start ≤ e.expiresAt
  | _ => True

/-- The job does not delete the registration of a refresh that is in flight. -/
def KeepsRegistration (s : Adapter) : Job → Prop
  | .react (.forget k) _ => ∀ (p : ℕ) (r : Refresh), s.inFlight.get k = some p →
      s.promises[p]? = some r → r.awaiting = false
  | _ => True

/-- The job that runs next is timely. -/
def TimelyTurn (s : Adapter) : Input → Prop
  | .turn now => ∀ job ∈ s.jobs.head?, Timely config now job
  | .enqueue _ => True

/-- The job that runs next is timely and keeps the registrations. -/
def ProperTurn (s : Adapter) : Input → Prop
  | .turn now => ∀ job ∈ s.jobs.head?, Timely config now job ∧ KeepsRegistration s job
  | .enqueue _ => True

end Law

section Sound

variable {rt : Runtime} {config : RecursiveConfig} {s : Adapter}

/-! ## What is handed out -/

theorem staleFor_eq (config : RecursiveConfig) (h : config.staleMaxS ≠ 0) :
    staleFor config = config.staleMaxS := by
  rw [staleFor, orNumber, if_neg h, max_eq_right config.staleMaxS_nonneg]

/-- A hit is fresh. -/
theorem fresh_resolveRecursive (h : s.Sound rt config) {name qtype : JsText} {now : ℚ} {o : Output}
    (ho : (s.resolveRecursive rt config name qtype now).2 = some o) : FreshOutput config now o := by
  cases o with
  | returned start a =>
    obtain ⟨q, e, -, he, hfresh, rfl⟩ := resolveRecursive_returned ho
    rw [(h.cache _ e he).expiresAt] at hfresh
    exact .inl hfresh
  | thrown => trivial

/-- What a call gets after a failure is in time, exactly if the job is. -/
theorem fresh_delivered_none {call : Waiting} (hcall : Asked rt config call) (now : ℚ) :
    FreshOutput config now (delivered call none) ↔
      Timely config now (.react (.deliver call) none) := by
  unfold delivered Timely
  simp only
  cases hstale : call.existing.filter fun e => call.start ≤ e.staleUntil with
  | none =>
    refine iff_of_true trivial fun _ e he hle => ?_
    exact absurd (decide_eq_true hle) (Option.filter_eq_none_iff.1 hstale e he)
  | some e =>
    obtain ⟨he, hle⟩ := Option.filter_eq_some_iff.1 hstale
    have hwindow : call.start ≤ e.staleUntil := of_decide_eq_true hle
    have hexp := (hcall.stored e he).expiresAt
    have hout : FreshOutput config now (.returned call.start (staleAnswer call.qname call.start e)) ↔
        now < e.expiresAt ∨ call.start ≤ e.expiresAt + config.staleMaxS := by
      simp [FreshOutput, staleAnswer, hexp]
    rw [hout]
    constructor
    · intro h hzero e' he' _
      obtain rfl : e = e' := Option.some.inj (he.symm.trans he')
      rwa [hzero, add_zero] at h
    · intro h
      by_cases hzero : config.staleMaxS = 0
      · rw [hzero, add_zero]
        exact h hzero e he hwindow
      · right
        rw [(hcall.stored e he).staleUntil, staleFor_eq config hzero] at hwindow
        exact hwindow

/-- What a call gets from a promise is in time, exactly if the job is. -/
theorem fresh_delivered_some {call : Waiting} {a : Answer} (ha : Handed rt config a) (now : ℚ) :
    FreshOutput config now (delivered call (some a)) ↔
      Timely config now (.react (.deliver call) (some a)) := by
  simp only [delivered, FreshOutput, Timely, ha.stored.expiresAt]

/-- **What a job hands out** is fresh exactly if the job is timely. -/
theorem fresh_run (h : s.Sound rt config) {job : Job} (hjob : job.Sound rt config) (now : ℚ) :
    (∀ o, (s.run rt config now job).2 = some o → FreshOutput config now o) ↔
      Timely config now job := by
  cases job with
  | call name qtype => exact iff_of_true (fun o ho => fresh_resolveRecursive h ho) trivial
  | replied p replies persisted => exact iff_of_true (fun o ho => by cases ho) trivial
  | caught p outcome => exact iff_of_true (fun o ho => by cases ho) trivial
  | react reaction outcome =>
    cases reaction with
    | forget k => exact iff_of_true (fun o ho => by cases ho) trivial
    | deliver call =>
      have hone : (∀ o, (s.run rt config now (.react (.deliver call) outcome)).2 = some o →
          FreshOutput config now o) ↔ FreshOutput config now (delivered call outcome) :=
        ⟨fun hall => hall _ rfl, fun hd o ho => by cases ho; exact hd⟩
      rw [hone]
      cases outcome with
      | none => exact fresh_delivered_none hjob.1 now
      | some a => exact fresh_delivered_some (hjob.2 a rfl) now

theorem fresh_turn (h : s.Sound rt config) (now : ℚ) :
    (∀ o, (s.step rt config (.turn now)).2 = some o → FreshOutput config now o) ↔
      TimelyTurn config s (.turn now) := by
  unfold Adapter.step TimelyTurn
  cases hjobs : s.jobs with
  | nil => exact iff_of_true (fun o ho => by cases ho) (fun job hjob => by cases hjob)
  | cons job jobs =>
    have hjob : job.Sound rt config := h.jobs job (by rw [hjobs]; exact List.mem_cons_self)
    have hrest : Adapter.Sound rt config { s with jobs } :=
      { h with jobs := fun j hj => h.jobs j (by rw [hjobs]; exact List.mem_cons_of_mem job hj) }
    have hhead : (∀ j ∈ (job :: jobs).head?, Timely config now j) ↔ Timely config now job := by
      simp
    exact (fresh_run hrest hjob now).trans hhead.symm

/-! ## One refresh at a time -/

/-- A refresh that is in flight is registered under its name and type. -/
def Registered (rt : Runtime) (s : Adapter) : Prop :=
  ∀ (p : ℕ) (r : Refresh), s.promises[p]? = some r → r.awaiting → s.inFlight.get (r.key rt) = some p

theorem Registered.single (h : Registered rt s) : SingleFlight rt s := by
  intro p q r r' hp hq hr hr' hkey
  have hget := h p r hp hr
  rw [hkey, h q r' hq hr'] at hget
  exact (Option.some.inj hget).symm

/-- No refresh is new, and the registrations are the same. -/
structure Quieter (s s' : Adapter) : Prop where
  inFlight : s'.inFlight = s.inFlight
  promises : ∀ (p : ℕ) (r' : Refresh), s'.promises[p]? = some r' → ∃ r, s.promises[p]? = some r ∧
    (r'.awaiting → r.awaiting) ∧ r'.qname = r.qname ∧ r'.qtype = r.qtype

theorem Quieter.refl (s : Adapter) : Quieter s s :=
  ⟨rfl, fun _ r h => ⟨r, h, id, rfl, rfl⟩⟩

theorem Quieter.trans {t u : Adapter} (h : Quieter s t) (h' : Quieter t u) : Quieter s u := by
  refine ⟨h'.inFlight.trans h.inFlight, fun p r'' hr'' => ?_⟩
  obtain ⟨r', hr', hawait', hname', htype'⟩ := h'.promises p r'' hr''
  obtain ⟨r, hr, hawait, hname, htype⟩ := h.promises p r' hr'
  exact ⟨r, hr, hawait ∘ hawait', hname'.trans hname, htype'.trans htype⟩

/-- The queue and the cache do not matter. -/
theorem Quieter.of_eq {t : Adapter} (hpromises : t.promises = s.promises)
    (hinFlight : t.inFlight = s.inFlight) : Quieter s t :=
  ⟨hinFlight, fun _ r h => ⟨r, hpromises ▸ h, id, rfl, rfl⟩⟩

theorem Registered.quieter {t : Adapter} (h : Registered rt s) (hq : Quieter s t) :
    Registered rt t := by
  intro p r' hp hr'
  obtain ⟨r, hr, hawait, hname, htype⟩ := hq.promises p r' hp
  have hkey : r'.key rt = r.key rt := by rw [Refresh.key, Refresh.key, hname, htype]
  rw [hq.inFlight, hkey]
  exact h p r hr (hawait hr')

theorem quieter_updatePromise (s : Adapter) (p : ℕ) {f : Refresh → Refresh}
    (hf : ∀ r, ((f r).awaiting → r.awaiting) ∧ (f r).qname = r.qname ∧ (f r).qtype = r.qtype) :
    Quieter s (s.updatePromise p f) := by
  refine ⟨rfl, fun q r' hr' => ?_⟩
  rw [Adapter.updatePromise, List.getElem?_modify] at hr'
  obtain ⟨r, hr, rfl⟩ := Option.map_eq_some_iff.1 hr'
  refine ⟨r, hr, ?_⟩
  by_cases hq : p = q
  · rw [if_pos hq]
    exact hf r
  · rw [if_neg hq]
    exact ⟨id, rfl, rfl⟩

theorem quieter_settle (s : Adapter) (p : ℕ) (outcome : Settled) :
    Quieter s (s.settle p outcome) := by
  unfold Adapter.settle
  split
  · exact .refl s
  · have hupdated := quieter_updatePromise s p
      (f := fun r => { r with settled := some outcome, reactions := [] }) fun r => ⟨id, rfl, rfl⟩
    exact hupdated.trans (.of_eq rfl rfl)

theorem quieter_register (s : Adapter) (p : ℕ) (reaction : Reaction) :
    Quieter s (s.register p reaction) := by
  unfold Adapter.register
  split
  · exact .refl s
  · split
    · exact .of_eq rfl rfl
    · exact quieter_updatePromise s p fun r => ⟨id, rfl, rfl⟩

theorem quieter_conclude (s : Adapter) (p : ℕ) (r : Refresh) (outcome : Settled) :
    Quieter s (s.conclude p r outcome) := by
  have hupdated := quieter_updatePromise s p (f := fun r => { r with awaiting := false })
    fun r => ⟨fun h => absurd h Bool.false_ne_true, rfl, rfl⟩
  unfold Adapter.conclude
  simp only
  split
  · exact hupdated.trans (.of_eq rfl rfl)
  · exact hupdated.trans (quieter_settle _ p outcome)

theorem quieter_store (s : Adapter) (r : Refresh) (replies : List TimedReply) (persisted : Bool)
    (now : ℚ) : Quieter s (s.store rt config r replies persisted now).1 := by
  unfold Adapter.store
  simp only
  split
  · exact .refl s
  · exact .of_eq rfl rfl

theorem quieter_replied (s : Adapter) (p : ℕ) (replies : List TimedReply) (persisted : Bool)
    (now : ℚ) : Quieter s (s.replied rt config p replies persisted now) := by
  unfold Adapter.replied
  split
  · exact .refl s
  · split
    · exact (quieter_store s _ replies persisted now).trans (quieter_conclude _ p _ _)
    · exact .refl s

theorem quieter_caught (s : Adapter) (p : ℕ) (outcome : Settled) (now : ℚ) :
    Quieter s (s.caught p outcome now) := by
  unfold Adapter.caught
  split
  · exact .refl s
  · exact quieter_settle s p _

/-- A new refresh of a name that is not in flight is registered. -/
theorem Registered.start (h : Registered rt s) {qname : JsText} {qtype : Qtype}
    (hnone : s.inFlight.get (keyOf rt qname qtype) = none) (prefetched : Option CacheEntry) :
    Registered rt { (s.startRefresh qname qtype prefetched).1 with
      inFlight := s.inFlight.set (keyOf rt qname qtype) s.promises.length } := by
  intro p r hp hr
  simp only [Adapter.startRefresh] at hp ⊢
  rcases Nat.lt_or_ge p s.promises.length with hlt | hge
  · rw [List.getElem?_append_left hlt] at hp
    have hget := h p r hp hr
    have hne : r.key rt ≠ keyOf rt qname qtype := by
      intro hkey
      rw [hkey, hnone] at hget
      cases hget
    rw [FinMap.get_set_ne _ _ hne]
    exact hget
  · rw [List.getElem?_append_right hge, List.getElem?_singleton] at hp
    split at hp
    · next hzero =>
      cases hp
      have hp' : p = s.promises.length := by omega
      rw [hp']
      exact FinMap.get_set_self _ _ _
    · cases hp

theorem Registered.prefetch (h : Registered rt s) (qname : JsText) (qtype : Qtype) (e : CacheEntry)
    (now : ℚ) : Registered rt (s.prefetch rt config qname qtype e now) := by
  unfold Adapter.prefetch
  simp only
  split
  · next hcond => exact (h.start hcond.2 (some e)).quieter (quieter_register _ _ _)
  · exact h

theorem Registered.join (h : Registered rt s) (qtype : Qtype) (call : Waiting) :
    Registered rt (s.join rt qtype call) := by
  have hregistered : Registered rt { (s.shared rt call.qname qtype).1 with
      inFlight := (s.shared rt call.qname qtype).1.inFlight.set (keyOf rt call.qname qtype)
        (s.shared rt call.qname qtype).2 } := by
    unfold Adapter.shared
    cases hget : s.inFlight.get (keyOf rt call.qname qtype) with
    | none => exact h.start hget none
    | some p =>
      intro q r hq hr
      rw [FinMap.get_set]
      split
      · next hkey =>
        rw [← hget, ← hkey]
        exact h q r hq hr
      · exact h q r hq hr
  exact (hregistered.quieter (quieter_register _ _ _)).quieter (quieter_register _ _ _)

theorem Registered.resolveRecursive (h : Registered rt s) (name qtype : JsText) (now : ℚ) :
    Registered rt (s.resolveRecursive rt config name qtype now).1 := by
  unfold Adapter.resolveRecursive
  split
  · exact h
  · simp only
    split
    · exact h.prefetch _ _ _ now
    · exact h.join _ _

/-- A registration that is deleted is not of a refresh in flight. -/
theorem Registered.forget (h : Registered rt s) {k : JsText} (outcome : Settled)
    (hkeeps : KeepsRegistration s (.react (.forget k) outcome)) :
    Registered rt { s with inFlight := s.inFlight.erase k } := by
  intro p r hp hr
  have hget := h p r hp hr
  rw [FinMap.get_erase]
  split
  · next hkey =>
    rw [hkey] at hget
    have hdone := hkeeps p r hget hp
    rw [hdone] at hr
    cases hr
  · exact hget

theorem registered_step (h : Registered rt s) {i : Input} (hi : ProperTurn config s i) :
    Registered rt (s.step rt config i).1 := by
  cases i with
  | enqueue job =>
    unfold Adapter.step
    simp only
    split
    · exact h.quieter (.of_eq rfl rfl)
    · exact h
  | turn now =>
    unfold Adapter.step
    cases hjobs : s.jobs with
    | nil => exact h
    | cons job jobs =>
      have hrest : Registered rt { s with jobs } := h.quieter (.of_eq rfl rfl)
      have hkeeps : KeepsRegistration s job := (hi job (by rw [hjobs]; rfl)).2
      cases job with
      | call name qtype => exact hrest.resolveRecursive name qtype now
      | replied p replies persisted => exact hrest.quieter (quieter_replied _ p replies persisted now)
      | caught p outcome => exact hrest.quieter (quieter_caught _ p outcome now)
      | react reaction outcome =>
        cases reaction with
        | forget k => exact hrest.forget outcome hkeeps
        | deliver call => exact hrest

/-! ## The size of the cache -/

theorem cache_settle (s : Adapter) (p : ℕ) (outcome : Settled) :
    (s.settle p outcome).cache = s.cache := by
  unfold Adapter.settle
  split <;> rfl

theorem cache_register (s : Adapter) (p : ℕ) (reaction : Reaction) :
    (s.register p reaction).cache = s.cache := by
  unfold Adapter.register
  split
  · rfl
  · split <;> rfl

theorem cache_conclude (s : Adapter) (p : ℕ) (r : Refresh) (outcome : Settled) :
    (s.conclude p r outcome).cache = s.cache := by
  unfold Adapter.conclude
  simp only
  split
  · rfl
  · exact cache_settle _ p outcome

theorem cache_caught (s : Adapter) (p : ℕ) (outcome : Settled) (now : ℚ) :
    (s.caught p outcome now).cache = s.cache := by
  unfold Adapter.caught
  split
  · rfl
  · exact cache_settle s p _

theorem cache_resolveRecursive (s : Adapter) (name qtype : JsText) (now : ℚ) :
    (s.resolveRecursive rt config name qtype now).1.cache = s.cache := by
  unfold Adapter.resolveRecursive
  split
  · rfl
  · simp only
    split
    · unfold Adapter.prefetch
      simp only
      split
      · exact cache_register _ _ _
      · rfl
    · unfold Adapter.join Adapter.shared
      simp only
      rw [cache_register, cache_register]
      split <;> rfl

/-- The cache has its size. -/
def Bounded (config : RecursiveConfig) (s : Adapter) : Prop :=
  (s.cache.entries.length : ℚ) ≤ config.cacheMaxEntries

theorem Bounded.of_cache {t : Adapter} (h : Bounded config s) (hcache : t.cache = s.cache) :
    Bounded config t := by
  rw [Bounded, hcache]
  exact h

theorem Bounded.replied (h : Bounded config s) (p : ℕ) (replies : List TimedReply)
    (persisted : Bool) (now : ℚ) : Bounded config (s.replied rt config p replies persisted now) := by
  have hstore (r : Refresh) : Bounded config (s.store rt config r replies persisted now).1 := by
    unfold Adapter.store
    simp only
    split
    · exact h
    · unfold Bounded
      rw [← maxEntries_eq]
      exact length_evictIfNeeded _
  unfold Adapter.replied
  split
  · exact h
  · split
    · exact (hstore _).of_cache (cache_conclude _ p _ _)
    · exact h

theorem bounded_step (h : Bounded config s) (i : Input) : Bounded config (s.step rt config i).1 := by
  cases i with
  | enqueue job =>
    refine h.of_cache ?_
    unfold Adapter.step
    simp only
    split <;> rfl
  | turn now =>
    unfold Adapter.step
    cases hjobs : s.jobs with
    | nil => exact h
    | cons job jobs =>
      have hrest : Bounded config { s with jobs } := h
      cases job with
      | call name qtype => exact hrest.of_cache (cache_resolveRecursive _ name qtype now)
      | replied p replies persisted => exact hrest.replied p replies persisted now
      | caught p outcome => exact hrest.of_cache (cache_caught _ p outcome now)
      | react reaction outcome =>
        cases reaction with
        | forget k => exact hrest
        | deliver call => exact hrest

/-! ## Every run -/

/-- **When the resolver is fresh**: in a run whose jobs hand answers out in time and never delete the
registration of a refresh in flight. That they hand answers out in time is also necessary. -/
theorem freshnessLaw_iff (rt : Runtime) (config : RecursiveConfig) (inputs : List Input) :
    (Each (Adapter.step rt config) (ProperTurn config) .initial inputs →
      FreshnessLaw rt config inputs) ∧
    (FreshnessLaw rt config inputs →
      Each (Adapter.step rt config) (TimelyTurn config) .initial inputs) := by
  have hsound (pre : List Input) : (exec (Adapter.step rt config) .initial pre).Sound rt config :=
    sound_exec sound_initial pre
  have hinitial : Registered rt .initial := fun p r h => by cases h
  have hempty : Bounded config .initial := zero_le_one.trans config.one_le_cacheMaxEntries
  constructor
  · intro h
    constructor
    · rintro pre u post output hsplit ho
      have hturn := each_iff_initial.1 h pre (.turn u) post hsplit
      have htimely : TimelyTurn config _ (.turn u) := fun job hjob => (hturn job hjob).1
      exact (fresh_turn (hsound pre) u).2 htimely output ho
    · rintro pre post rfl
      have hpre := ((each_append _ pre post).1 h).1
      have hregistered : Always (Adapter.step rt config) (Registered rt) .initial pre :=
        .of_each (fun s i hs hi => registered_step hs hi) hinitial hpre
      exact hregistered.exec.single
    · intro pre post _
      have hbounded (s : Adapter) (i : Input) (hs : Bounded config s) :
          Bounded config (s.step rt config i).1 := bounded_step hs i
      exact exec_induction hbounded hempty pre
  · intro h
    refine each_iff_initial.2 fun pre i post hsplit => ?_
    cases i with
    | enqueue job => trivial
    | turn u =>
      exact (fresh_turn (hsound pre) u).1 fun o ho => h.fresh pre u post o hsplit ho

end Sound

/-! ## Examples -/

/-- Bytes stand in for their hash. -/
def exampleRuntime : Runtime where
  sha256Hex bytes := bytes.map fun b => Char.ofNat b.toNat
  toLowerCase t := t.map Char.toLower
  toUpperCase t := t.map Char.toUpper
  toASCII t := t
  localeCompare := compare

/-- One upstream, and no stale answers. -/
def exampleConfig : RecursiveConfig where
  quorumMin := 1
  overlapThreshold := 34 / 100
  ttlCapS := 300
  one_le_quorumMin := le_refl 1
  one_le_ttlCapS := by decide
  urls := [['u']]
  staleMaxS := 0
  prefetchFraction := 1 / 10
  cacheMaxEntries := 100
  staleMaxS_nonneg := le_refl 0
  one_le_cacheMaxEntries := by decide

def exampleName : JsText := ['a', '.', 'b']

def exampleAddress : JsText := ['1', '9', '2', '.', '0', '.', '2', '.', '1']

/-- One address, for a second. -/
def exampleJson : JsonAnswer := ⟨some 0, [⟨exampleName, .number 1, exampleAddress, some 1⟩]⟩

def exampleReplies : List TimedReply := [⟨.json exampleJson, 10⟩]

def exampleCall : Input := .enqueue (.call exampleName aText)

/-- The address is fetched at 0. At 5 it is asked for again, and the upstream fails. -/
def exampleOutage : List Input :=
  [exampleCall, .turn 0, .enqueue (.replied 0 exampleReplies true), .turn 0, .turn 0, .turn 0,
    exampleCall, .turn 5, .enqueue (.replied 1 [] true), .turn 5, .turn 5]

def exampleResult : UpstreamResult :=
  normalizeAndExtract exampleRuntime ['u'] 10 exampleName .a exampleJson

def exampleEntry : CacheEntry :=
  entryOf exampleConfig exampleName .a ⟨.noError, .high, exampleResult, [exampleResult], 1⟩ 0

/-- The address that expired at 1 is handed out at 5, although `staleMaxS` is zero. -/
theorem exampleOutage_not_freshnessLaw :
    ¬FreshnessLaw exampleRuntime exampleConfig (exampleOutage ++ [.turn 5]) := by
  intro h
  have hfresh := h.fresh exampleOutage 5 [] (.returned 5 (staleAnswer exampleName 5 exampleEntry)) rfl
    (by decide +kernel)
  rcases hfresh with hnow | ⟨-, hstart⟩
  · exact absurd hnow (by decide +kernel)
  · exact absurd hstart (by decide +kernel)

/-- A refresh fails while a second call is queued behind it, and a third one behind that. The second
call joins the failed refresh; when it leaves, it deletes the registration of the third one's. -/
def exampleLateJoin : List Input :=
  [exampleCall, .turn 0, .enqueue (.replied 0 [] true), exampleCall, .turn 0, exampleCall, .turn 0,
    .turn 0, .turn 0, .turn 0, .turn 0, .turn 0, exampleCall, .turn 0]

/-- Two refreshes of one name are in flight. -/
theorem exampleLateJoin_twice : ¬SingleFlight exampleRuntime
    (exec (Adapter.step exampleRuntime exampleConfig) .initial exampleLateJoin) := by
  intro h
  have hone := h 1 2 ⟨exampleName, .a, none, true, none,
      [.forget (keyOf exampleRuntime exampleName .a), .deliver ⟨exampleName, 0, none⟩]⟩
    ⟨exampleName, .a, none, true, none,
      [.forget (keyOf exampleRuntime exampleName .a), .deliver ⟨exampleName, 0, none⟩]⟩
    (by decide +kernel) (by decide +kernel) rfl rfl rfl
  exact absurd hone (by decide)

end Ddns.Gateway
