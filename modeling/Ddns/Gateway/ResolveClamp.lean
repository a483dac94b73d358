import Ddns.Gateway.ResolveSteps

/-!
# The clamp of the attack mode

While the policy has a clamp, records are to be sent with ttls within it, and what was in the cache
when the mode changed is to be gone when the clamp has passed. Only the registry path lowers the ttls
of records, and entries keep the expiry that they were stored with. In every run both laws hold
exactly if no other path has a record to lower and every change of the mode finds only entries that
expire in time (`clamp_iff`).
-/

namespace Ddns.Gateway.Resolve

open Core.Registry (EntryValue)

variable {rt : Runtime} {config : Config} {s : State} {i : Input} {p : ResolveResponse}

/-! ## The laws -/

/-- What is sent under a clamp has ttls within it. -/
def SentWithinClamp (e : Runs.Event State Input (Option Reply)) : Prop :=
  ∀ p, e.out = some (.ok p) → 0 < e.post.clamp → WithinClamp e.post.clamp p.records

/-- The changes of the mode after an entry was stored. -/
def State.changesAfter (s : State) (e : CacheEntry) : List ModeChange :=
  s.modeChanges.take (s.modeChanges.length - e.changesBefore)

/-- No entry is served for longer than the clamp after a change of the mode that found it. -/
def ServedInTime (s : State) : Prop :=
  ∀ key e, s.cache.get key = some e → ∀ c ∈ s.changesAfter e, 0 < ttlClampS c.mode →
    ∀ t p, (cacheGet s.cache key t).2 = some p → t ≤ c.time + 1000 * ttlClampS c.mode

/-! ## The conditions -/

/-- Apart from the registry path, nothing is sent that has to be clamped. -/
structure NothingToClamp (rt : Runtime) (config : Config) (s : State) (i : Input) : Prop where
  cached : ∀ now req hit, i = .request now req → req.FromCache rt config →
    s.cache.get (cacheKey rt req.name) = some hit → now ≤ hit.expiresAt →
    0 < (s.currentAttackPolicy config now).clamp →
    WithinClamp (s.currentAttackPolicy config now).clamp hit.payload.records
  chain : ∀ k network name r rs, i = .chainDone k (.ok (r :: rs)) →
    s.pending[k]? = some (.chain network name) → s.clamp = 0
  doh : ∀ k name now answers, i = .dohDone k now (.ok answers) →
    s.pending[k]? = some (.upstream name) → config.nodeAggregatorEnabled = false →
    0 < (s.atDoh config k now).clamp →
    ∀ r ∈ dohRecords answers, r.ttl ≤ (s.atDoh config k now).clamp
  nodes : ∀ k key ttl payload fetchedAt clamp now asked, i = .nodesDone k now (.ok asked) →
    s.pending[k]? = some (.nodes key ttl payload fetchedAt clamp) →
    (NodeQuorum.verifyWithNodes rt.localeCompare config.nodeQuorum
      (payload.records.map (ResolveRecord.toNode rt)) asked).ok = true →
    0 < s.clamp → WithinClamp s.clamp payload.records

/-- If the evaluation at `now` changes the mode to one with a clamp, the entries of these keys expire
in time. -/
def ExpireInTime (config : Config) (s : State) (now : ℤ) (keys : JsText → Prop) : Prop :=
  (s.currentAttackPolicy config now).guard.mode ≠ s.guard.mode →
    0 < (s.currentAttackPolicy config now).clamp → ∀ key e, keys key → s.cache.get key = some e →
    e.expiresAt ≤ now + 1000 * (s.currentAttackPolicy config now).clamp

/-- Every change of the mode finds only entries that expire in time, next to one that the step
replaces. -/
structure ChangesInTime (rt : Runtime) (config : Config) (s : State) (i : Input) : Prop where
  evaluate : ∀ now, i = .evaluate now → ExpireInTime config s now fun _ => True
  request : ∀ now req, i = .request now req → ExpireInTime config s now fun _ => True
  registry : ∀ now req records, i = .request now req → req.FromRegistry rt config records →
    ExpireInTime config (s.currentAttackPolicy config now).countReq now fun _ => True
  doh : ∀ k name now answers, i = .dohDone k now (.ok answers) →
    s.pending[k]? = some (.upstream name) → ExpireInTime config (s.resume k) now fun key =>
      config.nodeAggregatorEnabled = true ∨ key ≠ cacheKey rt name

/-! ## What is sent -/

theorem withinClamp_dohRecords {clamp : ℕ} {records : List DohRecord} :
    WithinClamp clamp (records.map DohRecord.toRecord) ↔ ∀ r ∈ records, r.ttl ≤ clamp := by
  unfold WithinClamp
  rw [List.forall_mem_map]
  refine forall₂_congr fun r _ => ?_
  constructor
  · rintro ⟨ttl, httl, hle⟩
    obtain rfl := Option.some.inj httl
    exact Nat.cast_le.1 hle
  · exact fun h => ⟨r.ttl, rfl, Nat.cast_le.2 h⟩

theorem withinClamp_clampRecords {clamp : ℕ} (hclamp : 0 < clamp) (payload : ResolveResponse) :
    WithinClamp clamp (clampRecords clamp payload).records := by
  rw [clampRecords, if_pos hclamp]
  intro r hr
  obtain ⟨r', -, rfl⟩ := List.mem_map.1 hr
  exact ⟨_, rfl, min_le_right _ _⟩

/-- Answers from a chain have no ttls. -/
theorem not_withinClamp_chain {clamp : ℕ} (r : JsText × EntryValue)
    (rs : List (JsText × EntryValue)) :
    ¬WithinClamp clamp ((r :: rs).map fun r => ⟨r.1, r.2, none⟩) := by
  intro h
  obtain ⟨ttl, httl, -⟩ := h ⟨r.1, r.2, none⟩ List.mem_cons_self
  cases httl

theorem clamp_registry {now : ℤ} {req : Request} {records : List ResolveRecord}
    (h : req.FromRegistry rt config records) :
    (step rt config s (.request now req)).1.clamp = (s.atRegistry config now).clamp := by
  rcases resolve_mode rt config (s.currentAttackPolicy config now) now req with
    ⟨_, -, heq⟩ | ⟨hnot, -, -⟩
  · exact congrArg State.clamp heq
  · exact absurd h (hnot records)

theorem clamp_cached {now : ℤ} {req : Request} (h : req.FromCache rt config) :
    (step rt config s (.request now req)).1.clamp = (s.currentAttackPolicy config now).clamp := by
  rcases resolve_mode rt config (s.currentAttackPolicy config now) now req with
    ⟨records, hreq, -⟩ | ⟨-, -, hmode⟩
  · cases h.source_eq.symm.trans hreq.source_eq
  · exact congrArg ttlClampS hmode

theorem clamp_doh {k : ℕ} {name : JsText} {now : ℤ} {answers : List DohAnswer}
    (h : s.pending[k]? = some (.upstream name)) :
    (step rt config s (.dohDone k now (.ok answers))).1.clamp = (s.atDoh config k now).clamp := by
  simp only [step, h, State.fromDoh]
  split <;> rfl

theorem clamp_nodes {k : ℕ} {key : JsText} {ttl fetchedAt now : ℤ} {payload : ResolveResponse}
    {clamp : ℕ} {asked : List NodeQuorum.Asked}
    (h : s.pending[k]? = some (.nodes key ttl payload fetchedAt clamp)) :
    (step rt config s (.nodesDone k now (.ok asked))).1.clamp = s.clamp := by
  simp only [step, h, State.fromNodes]
  split <;> rfl

theorem clamp_chain {k : ℕ} {network : Network} {name : JsText} {answer : ChainAnswer}
    (h : s.pending[k]? = some (.chain network name)) :
    (step rt config s (.chainDone k answer)).1.clamp = s.clamp := by
  simp only [step, h]
  rfl

/-- A step sends records within the clamp exactly if it has nothing to clamp. -/
theorem sentWithinClamp_iff : SentWithinClamp (Runs.event (step rt config) s i) ↔
    NothingToClamp rt config s i := by
  constructor
  · intro h
    constructor
    · rintro now req hit rfl hreq hget hfresh
      have hsent := h _ (step_ok_iff.2 (.cached hreq hget hfresh))
      rw [Runs.event_post, clamp_cached hreq] at hsent
      exact hsent
    · rintro k network name r rs rfl hstage
      have hsent := h _ (step_ok_iff.2 (.chain r rs hstage))
      rw [Runs.event_post, clamp_chain hstage, records_attachAuthoritySig] at hsent
      exact Nat.eq_zero_of_not_pos fun hpos => not_withinClamp_chain r rs (hsent hpos)
    · rintro k name now answers rfl hstage halone
      have hsent := h _ (step_ok_iff.2 (.doh now answers hstage halone))
      rwa [Runs.event_post, clamp_doh hstage, records_dohPayload, withinClamp_dohRecords] at hsent
    · rintro k key ttl payload fetchedAt clamp now asked rfl hstage hok
      have hsent := h _ (step_ok_iff.2 (.nodes now hstage hok))
      rwa [Runs.event_post, clamp_nodes hstage] at hsent
  · intro h p hsent
    cases step_ok_iff.1 hsent with
    | registry now hreq =>
      rw [Runs.event_post, clamp_registry hreq]
      exact fun hpos => withinClamp_clampRecords hpos _
    | cached hreq hget hfresh =>
      rw [Runs.event_post, clamp_cached hreq]
      exact h.cached _ _ _ rfl hreq hget hfresh
    | chain r rs hstage =>
      rw [Runs.event_post, clamp_chain hstage, h.chain _ _ _ _ _ rfl hstage]
      exact fun hpos => absurd hpos (Nat.lt_irrefl 0)
    | doh now answers hstage halone =>
      rw [Runs.event_post, clamp_doh hstage, records_dohPayload, withinClamp_dohRecords]
      exact h.doh _ _ _ _ rfl hstage halone
    | nodes now hstage hok =>
      rw [Runs.event_post, clamp_nodes hstage]
      exact h.nodes _ _ _ _ _ _ _ _ rfl hstage hok

/-! ## What is stored -/

/-- The entries of these keys expire in time after each change of the mode that found them. -/
def DueInTime (s : State) (keys : JsText → Prop) : Prop :=
  ∀ key e, keys key → s.cache.get key = some e → ∀ c ∈ s.changesAfter e, 0 < ttlClampS c.mode →
    e.expiresAt ≤ c.time + 1000 * ttlClampS c.mode

theorem served_le_iff {key : JsText} {e : CacheEntry} (hget : s.cache.get key = some e) {b : ℤ} :
    (∀ t p, (cacheGet s.cache key t).2 = some p → t ≤ b) ↔ e.expiresAt ≤ b := by
  constructor
  · intro h
    exact h _ e.payload (cacheGet_eq_some_iff.2 ⟨e, hget, le_rfl, rfl⟩)
  · intro h t p hserved
    obtain ⟨e', hget', hle, -⟩ := cacheGet_eq_some_iff.1 hserved
    obtain rfl := Option.some.inj (hget.symm.trans hget')
    exact hle.trans h

theorem servedInTime_iff : ServedInTime s ↔ DueInTime s fun _ => True := by
  constructor
  · intro h key e _ hget c hc hclamp
    exact (served_le_iff hget).1 (h key e hget c hc hclamp)
  · intro h key e hget c hc hclamp
    exact (served_le_iff hget).2 (h key e trivial hget c hc hclamp)

/-- Only the cache and the changes of the mode are read. -/
theorem dueInTime_congr {s' : State} {keys : JsText → Prop} (hcache : s'.cache = s.cache)
    (hchanges : s'.modeChanges = s.modeChanges) : DueInTime s' keys ↔ DueInTime s keys := by
  unfold DueInTime State.changesAfter
  rw [hcache, hchanges]

/-- An evaluation keeps the deadlines exactly if the entries expire in time after it. -/
theorem dueInTime_currentAttackPolicy
    (hcounted : ∀ key e, s.cache.get key = some e → e.changesBefore ≤ s.modeChanges.length)
    {now : ℤ} {keys : JsText → Prop} : DueInTime (s.currentAttackPolicy config now) keys ↔
      DueInTime s keys ∧ ExpireInTime config s now keys := by
  by_cases hmode : (s.currentAttackPolicy config now).guard.mode = s.guard.mode
  · have hchanges : (s.currentAttackPolicy config now).modeChanges = s.modeChanges := if_pos hmode
    have hsame : DueInTime (s.currentAttackPolicy config now) keys ↔ DueInTime s keys :=
      dueInTime_congr rfl hchanges
    rw [hsame]
    exact ⟨fun h => ⟨h, fun hne => absurd hmode hne⟩, And.left⟩
  -- the change comes first in what every entry has seen
  have hchanges : (s.currentAttackPolicy config now).modeChanges =
    ⟨now, (s.currentAttackPolicy config now).guard.mode⟩ :: s.modeChanges := if_neg hmode
  have hafter {key : JsText} {e : CacheEntry} (hget : s.cache.get key = some e) :
      (s.currentAttackPolicy config now).changesAfter e =
        ⟨now, (s.currentAttackPolicy config now).guard.mode⟩ :: s.changesAfter e := by
    unfold State.changesAfter
    rw [hchanges, List.length_cons, Nat.sub_add_comm (hcounted key e hget), List.take_succ_cons]
  constructor
  · intro h
    constructor
    · intro key e hkey hget c hc
      refine h key e hkey hget c ?_
      rw [hafter hget]
      exact List.mem_cons_of_mem _ hc
    · intro _ hclamp key e hkey hget
      refine h key e hkey hget ⟨now, _⟩ ?_ hclamp
      rw [hafter hget]
      exact List.mem_cons_self
  · rintro ⟨h, hexpire⟩ key e hkey hget c hc hclamp
    rw [cache_currentAttackPolicy] at hget
    rw [hafter hget] at hc
    rcases List.mem_cons.1 hc with rfl | hc
    · exact hexpire hmode hclamp key e hkey hget
    · exact h key e hkey hget c hc hclamp

/-- An entry that is stored after all changes has no deadline. -/
theorem dueInTime_set {s' : State} {key : JsText} {e : CacheEntry}
    (hcache : s'.cache = s.cache.set key e) (hchanges : s'.modeChanges = s.modeChanges)
    (he : e.changesBefore = s.modeChanges.length) :
    DueInTime s' (fun _ => True) ↔ DueInTime s (· ≠ key) := by
  unfold DueInTime State.changesAfter
  rw [hcache, hchanges]
  constructor
  · intro h key' e' hne hget
    refine h key' e' trivial ?_
    rw [FinMap.get_set, if_neg hne]
    exact hget
  · intro h key' e' _ hget
    rw [FinMap.get_set] at hget
    split at hget
    · obtain rfl := Option.some.inj hget
      rw [he, Nat.sub_self, List.take_zero]
      rintro c ⟨⟩
    · rename_i hne
      exact h key' e' hne hget

/-- An entry that is stale has no deadline to miss. -/
theorem expireInTime_of_erase {now : ℤ} {key : JsText} {hit : CacheEntry}
    (hget : s.cache.get key = some hit) (hstale : hit.expiresAt < now)
    (h : ExpireInTime config s now (· ≠ key)) : ExpireInTime config s now fun _ => True := by
  intro hmode hclamp key' e _ hget'
  by_cases hkey : key' = key
  · subst hkey
    obtain rfl := Option.some.inj (hget.symm.trans hget')
    have hpos : (0 : ℤ) ≤ 1000 * (s.currentAttackPolicy config now).clamp := by positivity
    linarith
  · exact h hmode hclamp key' e hkey hget'

theorem dueInTime_erase {s' : State} {key : JsText} (hcache : s'.cache = s.cache.erase key)
    (hchanges : s'.modeChanges = s.modeChanges) :
    DueInTime s' (fun _ => True) ↔ DueInTime s (· ≠ key) := by
  unfold DueInTime State.changesAfter
  rw [hcache, hchanges]
  constructor
  · intro h key' e' hne hget
    refine h key' e' trivial ?_
    rw [FinMap.get_erase, if_neg hne]
    exact hget
  · intro h key' e' _ hget
    rw [FinMap.get_erase] at hget
    split at hget
    · cases hget
    · rename_i hne
      exact h key' e' hne hget

theorem DueInTime.mono {keys keys' : JsText → Prop} (h : DueInTime s keys)
    (hsub : ∀ key, keys' key → keys key) : DueInTime s keys' :=
  fun key e hkey => h key e (hsub key hkey)

section Steps

variable (hinv : Inv rt config s) (hdue : DueInTime s fun _ => True)

include hinv hdue

theorem dueInTime_evaluate (now : ℤ) {keys : JsText → Prop} :
    DueInTime (s.currentAttackPolicy config now) keys ↔ ExpireInTime config s now keys := by
  rw [dueInTime_currentAttackPolicy hinv.counted]
  exact and_iff_right (hdue.mono fun _ _ => trivial)

/-- A request that is not answered from the registry. -/
theorem dueInTime_request {now : ℤ} {req : Request}
    (hchanges : (step rt config s (.request now req)).1.modeChanges =
      (s.currentAttackPolicy config now).modeChanges) :
    DueInTime (step rt config s (.request now req)).1 (fun _ => True) ↔
      ExpireInTime config s now fun _ => True := by
  have hcases := cache_step rt config s (.request now req)
  generalize hcache : (step rt config s (.request now req)).1.cache = cache at hcases
  cases hcases with
  | filled hfills => cases hfills
  | erased hi hget hstale =>
    cases hi
    rw [dueInTime_erase (s := s.currentAttackPolicy config now) hcache hchanges,
      dueInTime_evaluate hinv hdue]
    constructor
    · exact expireInTime_of_erase hget hstale
    · exact fun h hmode hclamp key e _ => h hmode hclamp key e trivial
  | kept hnone =>
    rw [dueInTime_congr (s := s.currentAttackPolicy config now) hcache hchanges]
    exact dueInTime_evaluate hinv hdue now

/-- A request that is answered from the registry. -/
theorem dueInTime_registry {now : ℤ} :
    DueInTime ((s.currentAttackPolicy config now).countReq.currentAttackPolicy config now)
        (fun _ => True) ↔
      ExpireInTime config s now (fun _ => True) ∧
        ExpireInTime config (s.currentAttackPolicy config now).countReq now fun _ => True := by
  have hcounted (key : JsText) (e : CacheEntry) (hget : s.cache.get key = some e) :
      e.changesBefore ≤ (s.currentAttackPolicy config now).modeChanges.length :=
    (hinv.counted key e hget).trans (suffix_currentAttackPolicy s now).length_le
  have hcount : DueInTime (s.currentAttackPolicy config now).countReq (fun _ => True) ↔
      DueInTime (s.currentAttackPolicy config now) fun _ => True := dueInTime_congr rfl rfl
  rw [dueInTime_currentAttackPolicy (s := (s.currentAttackPolicy config now).countReq) hcounted,
    hcount, dueInTime_evaluate hinv hdue]

/-- The answer of the upstream server. -/
theorem dueInTime_doh {k : ℕ} {name : JsText} {now : ℤ} {answers : List DohAnswer}
    (hstage : s.pending[k]? = some (.upstream name)) :
    DueInTime (step rt config s (.dohDone k now (.ok answers))).1 (fun _ => True) ↔
      ExpireInTime config (s.resume k) now fun key =>
        config.nodeAggregatorEnabled = true ∨ key ≠ cacheKey rt name := by
  have hevaluate {keys : JsText → Prop} : DueInTime (s.atDoh config k now) keys ↔
      ExpireInTime config (s.resume k) now keys :=
    (dueInTime_currentAttackPolicy (s := s.resume k) hinv.counted).trans
      (and_iff_right (hdue.mono fun _ _ => trivial))
  simp only [step, hstage, State.fromDoh]
  cases halone : config.nodeAggregatorEnabled with
  | false =>
    simp only [Bool.false_eq_true, if_false, false_or]
    rw [← hevaluate]
    exact dueInTime_set (s := s.atDoh config k now) rfl rfl rfl
  | true =>
    simp only [if_true, true_or]
    rw [← hevaluate]
    exact dueInTime_congr (s := s.atDoh config k now) rfl rfl

end Steps

/-- A step keeps the deadlines exactly if its changes of the mode find entries that expire in
time. -/
theorem servedInTime_step (hinv : Inv rt config s) (hserved : ServedInTime s) :
    ServedInTime (step rt config s i).1 ↔ ChangesInTime rt config s i := by
  have hdue := servedInTime_iff.1 hserved
  have hsame {s' : State} (hcache : s'.cache = s.cache) (hchanges : s'.modeChanges = s.modeChanges) :
      DueInTime s' fun _ => True := (dueInTime_congr hcache hchanges).2 hdue
  rw [servedInTime_iff]
  cases i with
  | rpc failed =>
    refine iff_of_true (hsame rfl rfl) ⟨?_, ?_, ?_, ?_⟩
    all_goals intros; contradiction
  | evaluate now =>
    refine (dueInTime_evaluate hinv hdue now).trans ⟨fun h => ⟨?_, ?_, ?_, ?_⟩, fun h => ?_⟩
    · rintro _ ⟨⟩
      exact h
    all_goals first | (intros; contradiction) | exact h.evaluate now rfl
  | request now req =>
    rcases resolve_mode rt config (s.currentAttackPolicy config now) now req with
      ⟨records, hreq, heq⟩ | ⟨hnot, hchanges, -⟩
    · have hpost : (step rt config s (.request now req)).1 =
        (s.currentAttackPolicy config now).countReq.currentAttackPolicy config now := heq
      rw [hpost, dueInTime_registry hinv hdue]
      constructor
      · rintro ⟨hfirst, hsecond⟩
        refine ⟨?_, ?_, ?_, ?_⟩
        · rintro _ ⟨⟩
        · rintro _ _ ⟨⟩
          exact hfirst
        · rintro _ _ _ ⟨⟩ -
          exact hsecond
        · rintro _ _ _ _ ⟨⟩
      · exact fun h => ⟨h.request now req rfl, h.registry now req records rfl hreq⟩
    · rw [dueInTime_request hinv hdue hchanges]
      constructor
      · intro hfirst
        refine ⟨?_, ?_, ?_, ?_⟩
        · rintro _ ⟨⟩
        · rintro _ _ ⟨⟩
          exact hfirst
        · rintro _ _ records ⟨⟩ hreq
          exact absurd hreq (hnot records)
        · rintro _ _ _ _ ⟨⟩
      · exact fun h => h.request now req rfl
  | chainDone k answer =>
    refine iff_of_true ?_ ⟨?_, ?_, ?_, ?_⟩
    · simp only [step]
      split <;> exact hsame rfl rfl
    all_goals intros; contradiction
  | dohDone k now answer =>
    have hother (hnone : ∀ name answers, answer = .ok answers →
        s.pending[k]? ≠ some (.upstream name)) :
        ChangesInTime rt config s (.dohDone k now answer) := by
      refine ⟨?_, ?_, ?_, ?_⟩
      · rintro _ ⟨⟩
      · rintro _ _ ⟨⟩
      · rintro _ _ _ ⟨⟩
      · rintro _ name _ answers ⟨⟩ hstage
        exact absurd hstage (hnone name answers rfl)
    by_cases hstage : ∃ name, s.pending[k]? = some (.upstream name)
    · obtain ⟨name, hstage⟩ := hstage
      cases answer with
      | error message =>
        refine iff_of_true ?_ (hother (by rintro _ _ ⟨⟩))
        simp only [step, hstage]
        exact hsame rfl rfl
      | ok answers =>
        rw [dueInTime_doh hinv hdue hstage]
        constructor
        · intro h
          refine ⟨?_, ?_, ?_, ?_⟩
          · rintro _ ⟨⟩
          · rintro _ _ ⟨⟩
          · rintro _ _ _ ⟨⟩
          · rintro _ name' _ _ ⟨⟩ hstage'
            cases hstage.symm.trans hstage'
            exact h
        · exact fun h => h.doh k name now answers rfl hstage
    · refine iff_of_true ?_ (hother fun name _ _ h => hstage ⟨name, h⟩)
      simp only [step]
      split
      · rename_i name h
        exact absurd ⟨name, h⟩ hstage
      · exact hdue
  | nodesDone k now answer =>
    refine iff_of_true ?_ ⟨?_, ?_, ?_, ?_⟩
    · have hcases := cache_step rt config s (.nodesDone k now answer)
      have hchanges : (step rt config s (.nodesDone k now answer)).1.modeChanges = s.modeChanges := by
        simp only [step]
        split
        · cases answer with
          | error message => rfl
          | ok asked =>
            simp only [State.fromNodes]
            split <;> rfl
        · rfl
      generalize hcache : (step rt config s (.nodesDone k now answer)).1.cache = cache at hcases
      cases hcases with
      | filled hfills =>
        have hbefore := (hinv.filled hfills).2.trans (congrArg List.length hchanges)
        rw [dueInTime_set hcache hchanges hbefore]
        exact hdue.mono fun _ _ => trivial
      | erased hi hget hstale => cases hi
      | kept hnone => exact hsame hcache hchanges
    all_goals intros; contradiction

/-- **In every run what is sent is within the clamp and what is stored is served in time, exactly if
every step meets the conditions.** -/
theorem clamp_iff (rt : Runtime) (config : Config) (now : ℤ) (inputs : List Input) :
    ((∀ e ∈ Runs.trace (step rt config) (.start now) inputs, SentWithinClamp e) ∧
      Runs.Always (step rt config) ServedInTime (.start now) inputs) ↔
    Runs.Each (step rt config) (NothingToClamp rt config) (.start now) inputs ∧
      Runs.Each (step rt config) (ChangesInTime rt config) (.start now) inputs := by
  refine and_congr ?_ ?_
  · rw [Runs.forall_mem_trace_iff]
    exact Runs.each_congr (J := fun _ => True) (fun _ _ _ => trivial)
      (fun _ _ _ => sentWithinClamp_iff) trivial inputs
  · exact Runs.always_iff_each (J := Inv rt config) (fun _ i h _ _ => h.step i)
      (fun _ _ hinv hserved => servedInTime_step hinv hserved) (inv_start rt config now)
      (fun _ _ h => nomatch h) inputs

/-! ## An answer with a long ttl -/

/-- A call of the RPC endpoint has failed, and a server answers an address for an hour. -/
def longTtlRun : List Input :=
  [.rpc true, .request 0 ⟨['a'], none, .notFound⟩,
    .dohDone 0 0 (.ok [⟨['A'], some ['1', '.', '1', '.', '1', '.', '1'], 3600⟩])]

theorem clamp_broken : ¬∀ rt config now inputs,
    (∀ e ∈ Runs.trace (step rt config) (.start now) inputs, SentWithinClamp e) ∧
      Runs.Always (step rt config) ServedInTime (.start now) inputs := by
  intro h
  have hevents := (h (exampleRuntimeWith id) exampleConfig 0 longTtlRun).1
  rw [Runs.forall_mem_trace_iff] at hevents
  obtain ⟨-, -, hdone, -⟩ := hevents
  have hdoh := (sentWithinClamp_iff.1 hdone).doh 0 ['a'] 0 _ rfl rfl rfl (by decide +kernel)
    ⟨['A'], ['1', '.', '1', '.', '1', '.', '1'], 3600⟩ (by decide +kernel)
  exact absurd hdoh (by decide +kernel)

end Ddns.Gateway.Resolve
