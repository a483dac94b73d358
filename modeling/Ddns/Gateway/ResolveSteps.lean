import Ddns.CacheRollup.Root
import Ddns.Gateway.Resolve

/-!
# Steps of the resolve handler

What a step of the handler sends (`step_ok_iff`) and what it does to the cache (`cache_step`). In
every run the payloads that are stored, or that wait to be, are those of upstream answers
(`Inv.step`).
-/

namespace Ddns.Gateway.Resolve

open Core.Registry (EntryValue)

/-! ## What is sent -/

variable {rt : Runtime} {config : Config} {s : State} {i : Input} {p : ResolveResponse}

/-- The request is answered from the registry, with these records. -/
structure Request.FromRegistry (rt : Runtime) (config : Config) (req : Request)
    (records : List ResolveRecord) : Prop where
  name_ne : req.name ≠ []
  source_eq : req.source rt config = .ok .registry
  registry_eq : req.registry = .found records

/-- The request looks for its name in the cache. -/
structure Request.FromCache (rt : Runtime) (config : Config) (req : Request) : Prop where
  name_ne : req.name ≠ []
  source_eq : req.source rt config = .ok .cacheOrUpstream

/-- The state that a request for the registry is answered in. -/
def State.atRegistry (config : Config) (s : State) (now : ℤ) : State :=
  (s.currentAttackPolicy config now).countReq.currentAttackPolicy config now

/-- The state in which the answer of the upstream server is handled. -/
def State.atDoh (config : Config) (s : State) (k : ℕ) (now : ℤ) : State :=
  (s.resume k).currentAttackPolicy config now

/-- The response as it is sent from the cache. -/
def ResolveResponse.asHit (payload : ResolveResponse) : ResolveResponse :=
  { payload with metadata := { payload.metadata with cache := some .hit } }

/-- The step sends this response. -/
inductive Sends (rt : Runtime) (config : Config) (s : State) : Input → ResolveResponse → Prop
  | registry {req : Request} {records : List ResolveRecord} (now : ℤ)
      (h : req.FromRegistry rt config records) :
      Sends rt config s (.request now req) (clampRecords (s.atRegistry config now).clamp
        (attachAuthoritySig rt config ⟨req.name, .dns, records, {}⟩))
  | cached {req : Request} {hit : CacheEntry} {now : ℤ} (h : req.FromCache rt config)
      (hget : s.cache.get (cacheKey rt req.name) = some hit)
      (hfresh : now ≤ hit.expiresAt) :
      Sends rt config s (.request now req) hit.payload.asHit
  | chain {k : ℕ} {network : Network} {name : JsText} (r : JsText × EntryValue)
      (rs : List (JsText × EntryValue)) (h : s.pending[k]? = some (.chain network name)) :
      Sends rt config s (.chainDone k (.ok (r :: rs))) (attachAuthoritySig rt config
        ⟨name, network, (r :: rs).map fun r => ⟨r.1, r.2, none⟩, {}⟩)
  | doh {k : ℕ} {name : JsText} (now : ℤ) (answers : List DohAnswer)
      (h : s.pending[k]? = some (.upstream name)) (halone : config.nodeAggregatorEnabled = false) :
      Sends rt config s (.dohDone k now (.ok answers))
        (dohPayload rt config name (dohRecords answers))
  | nodes {k : ℕ} {key : JsText} {ttl fetchedAt : ℤ} {payload : ResolveResponse} {clamp : ℕ}
      (now : ℤ) {asked : List NodeQuorum.Asked}
      (h : s.pending[k]? = some (.nodes key ttl payload fetchedAt clamp))
      (hok : (NodeQuorum.verifyWithNodes rt.localeCompare config.nodeQuorum
        (payload.records.map (ResolveRecord.toNode rt)) asked).ok = true) :
      Sends rt config s (.nodesDone k now (.ok asked)) payload

@[simp] theorem cache_currentAttackPolicy (now : ℤ) :
    (s.currentAttackPolicy config now).cache = s.cache := rfl

@[simp] theorem pending_currentAttackPolicy (now : ℤ) :
    (s.currentAttackPolicy config now).pending = s.pending := rfl

theorem cacheGet_eq_some_iff {cache : FinMap JsText CacheEntry} {key : JsText} {now : ℤ} :
    (cacheGet cache key now).2 = some p ↔
      ∃ hit, cache.get key = some hit ∧ now ≤ hit.expiresAt ∧ hit.payload = p := by
  unfold cacheGet
  cases cache.get key with
  | none => simp
  | some hit =>
    by_cases hstale : now > hit.expiresAt
    · simp [hstale, not_le.2 hstale]
    · simp [hstale, not_lt.1 hstale]

theorem fromCache_ok_iff {now : ℤ} {name : JsText} :
    (s.fromCache rt now name).2 = some (.ok p) ↔ ∃ hit, s.cache.get (cacheKey rt name) = some hit ∧
      now ≤ hit.expiresAt ∧ p = hit.payload.asHit := by
  unfold State.fromCache
  have hiff (payload : ResolveResponse) : (cacheGet s.cache (cacheKey rt name) now).2 = some payload ↔
      ∃ hit, s.cache.get (cacheKey rt name) = some hit ∧ now ≤ hit.expiresAt ∧
        hit.payload = payload := cacheGet_eq_some_iff
  rcases hget : cacheGet s.cache (cacheKey rt name) now with ⟨cache, _ | cached⟩
  · rw [hget] at hiff
    simp only [reduceCtorEq, false_iff, not_exists, not_and] at hiff ⊢
    exact fun hit hentry hfresh _ => hiff hit.payload hit hentry hfresh rfl
  · rw [hget] at hiff
    obtain ⟨hit, hentry, hfresh, rfl⟩ := (hiff cached).1 rfl
    simp only [Option.some.injEq, Except.ok.injEq]
    constructor
    · rintro rfl
      exact ⟨hit, hentry, hfresh, rfl⟩
    · rintro ⟨hit', hentry', -, rfl⟩
      rw [hentry] at hentry'
      rw [Option.some.inj hentry', ResolveResponse.asHit]

theorem resolve_ok_iff {now : ℤ} {req : Request} :
    (s.resolve rt config now req).2 = some (.ok p) ↔
      (∃ records, req.FromRegistry rt config records ∧
        p = clampRecords (s.countReq.currentAttackPolicy config now).clamp
          (attachAuthoritySig rt config ⟨req.name, .dns, records, {}⟩)) ∨
      (req.FromCache rt config ∧ ∃ hit, s.cache.get (cacheKey rt req.name) = some hit ∧
        now ≤ hit.expiresAt ∧ p = hit.payload.asHit) := by
  constructor
  · intro h
    unfold State.resolve at h
    split at h
    · cases h
    rename_i hname
    dsimp only at h
    split at h
    · cases h
    · rename_i hsource
      unfold State.fromRegistry at h
      split at h
      case h_5 records hfound =>
        cases h
        exact .inl ⟨records, ⟨hname, hsource, hfound⟩, rfl⟩
      all_goals cases h
    · cases h
    · rename_i hsource
      exact .inr ⟨⟨hname, hsource⟩, (fromCache_ok_iff (s := s.countReq)).1 h⟩
  · rintro (⟨records, hreq, rfl⟩ | ⟨hreq, hhit⟩)
    · simp only [State.resolve, hreq.name_ne, hreq.source_eq, State.fromRegistry, hreq.registry_eq,
        if_false]
    · simp only [State.resolve, hreq.name_ne, hreq.source_eq, if_false]
      exact fromCache_ok_iff.2 hhit

theorem chainReply_ok_iff {network : Network} {name : JsText} {answer : ChainAnswer} :
    chainReply rt config network name answer = .ok p ↔ ∃ r rs, answer = .ok (r :: rs) ∧
      p = attachAuthoritySig rt config
        ⟨name, network, (r :: rs).map fun r => ⟨r.1, r.2, none⟩, {}⟩ := by
  rcases answer with message | (_ | ⟨r, rs⟩)
  · simp [chainReply]
  · simp [chainReply]
  · simp only [chainReply, Except.ok.injEq]
    constructor
    · rintro rfl
      exact ⟨r, rs, rfl, rfl⟩
    · rintro ⟨r', rs', heq, rfl⟩
      cases heq
      rfl

theorem fromDoh_ok_iff {name : JsText} {now : ℤ} {answer : Except JsText (List DohAnswer)} :
    (s.fromDoh rt config name now answer).2 = some (.ok p) ↔
      ∃ answers, answer = .ok answers ∧ config.nodeAggregatorEnabled = false ∧
        p = dohPayload rt config name (dohRecords answers) := by
  cases answer with
  | error message => simp [State.fromDoh, State.upstreamFailed]
  | ok answers =>
    unfold State.fromDoh
    cases config.nodeAggregatorEnabled <;> simp [eq_comm]

theorem fromNodes_ok_iff {key : JsText} {ttl fetchedAt now : ℤ} {payload : ResolveResponse}
    {answer : Except JsText (List NodeQuorum.Asked)} :
    (s.fromNodes rt config key ttl payload fetchedAt now answer).2 = some (.ok p) ↔
      ∃ asked, answer = .ok asked ∧ (NodeQuorum.verifyWithNodes rt.localeCompare config.nodeQuorum
        (payload.records.map (ResolveRecord.toNode rt)) asked).ok = true ∧ p = payload := by
  cases answer with
  | error message => simp [State.fromNodes, State.upstreamFailed]
  | ok asked =>
    simp only [State.fromNodes, Except.ok.injEq, exists_eq_left']
    split
    · rename_i hok
      simp [hok, eq_comm]
    · rename_i hfailed
      simp [hfailed]

/-- **What is sent**, and when. -/
theorem step_ok_iff : (step rt config s i).2 = some (.ok p) ↔ Sends rt config s i p := by
  constructor
  · intro h
    cases i with
    | rpc failed => cases h
    | evaluate now => cases h
    | request now req =>
      rcases resolve_ok_iff.1 h with ⟨records, hreq, rfl⟩ | ⟨hreq, hit, hget, hfresh, rfl⟩
      · exact .registry now hreq
      · exact .cached hreq hget hfresh
    | chainDone k answer =>
      simp only [step] at h
      split at h
      · rename_i hstage
        obtain ⟨r, rs, rfl, rfl⟩ := chainReply_ok_iff.1 (Option.some.inj h)
        exact .chain r rs hstage
      · cases h
    | dohDone k now answer =>
      simp only [step] at h
      split at h
      · rename_i hstage
        obtain ⟨answers, rfl, halone, rfl⟩ := fromDoh_ok_iff.1 h
        exact .doh now answers hstage halone
      · cases h
    | nodesDone k now answer =>
      simp only [step] at h
      split at h
      · rename_i hstage
        obtain ⟨asked, rfl, hok, rfl⟩ := fromNodes_ok_iff.1 h
        exact .nodes now hstage hok
      · cases h
  · intro h
    cases h with
    | registry now hreq => exact resolve_ok_iff.2 (.inl ⟨_, hreq, rfl⟩)
    | cached hreq hget hfresh =>
      exact resolve_ok_iff.2 (.inr ⟨hreq, _, hget, hfresh, rfl⟩)
    | chain r rs hstage =>
      simp only [step, hstage]
      rfl
    | doh now answers hstage halone =>
      simp only [step, hstage]
      exact fromDoh_ok_iff.2 ⟨answers, rfl, halone, rfl⟩
    | nodes now hstage hok =>
      simp only [step, hstage]
      exact fromNodes_ok_iff.2 ⟨_, rfl, hok, rfl⟩

/-! ## What is stored -/

/-- The step stores this entry. -/
inductive Fills (rt : Runtime) (config : Config) (s : State) :
    Input → JsText → CacheEntry → Prop
  | doh {k : ℕ} {name : JsText} (now : ℤ) (answers : List DohAnswer)
      (h : s.pending[k]? = some (.upstream name)) (halone : config.nodeAggregatorEnabled = false) :
      Fills rt config s (.dohDone k now (.ok answers)) (cacheKey rt name) {
        expiresAt := now +
          effectiveTtl (s.atDoh config k now).clamp (dohTtl config (dohRecords answers)) * 1000
        payload := dohPayload rt config name (dohRecords answers)
        fetchedAt := now
        changesBefore := (s.atDoh config k now).modeChanges.length }
  | nodes {k : ℕ} {key : JsText} {ttl fetchedAt : ℤ} {payload : ResolveResponse} {clamp : ℕ}
      (now : ℤ) {asked : List NodeQuorum.Asked}
      (h : s.pending[k]? = some (.nodes key ttl payload fetchedAt clamp))
      (hok : (NodeQuorum.verifyWithNodes rt.localeCompare config.nodeQuorum
        (payload.records.map (ResolveRecord.toNode rt)) asked).ok = true) :
      Fills rt config s (.nodesDone k now (.ok asked)) key
        ⟨now + ttl * 1000, payload, fetchedAt, s.modeChanges.length⟩

/-- What becomes of the cache: an entry is stored, the stale one of a request is deleted, or nothing
changes. -/
inductive CacheStep (rt : Runtime) (config : Config) (s : State) (i : Input) :
    FinMap JsText CacheEntry → Prop
  | filled {key : JsText} {e : CacheEntry} (h : Fills rt config s i key e) :
      CacheStep rt config s i (s.cache.set key e)
  | erased {now : ℤ} {req : Request} {hit : CacheEntry} (hi : i = .request now req)
      (hget : s.cache.get (cacheKey rt req.name) = some hit) (hstale : hit.expiresAt < now) :
      CacheStep rt config s i (s.cache.erase (cacheKey rt req.name))
  | kept (h : ∀ key e, ¬Fills rt config s i key e) : CacheStep rt config s i s.cache

theorem cacheGet_fst (cache : FinMap JsText CacheEntry) (key : JsText) (now : ℤ) :
    (cacheGet cache key now).1 = cache ∨ ∃ hit, cache.get key = some hit ∧ hit.expiresAt < now ∧
      (cacheGet cache key now).1 = cache.erase key := by
  unfold cacheGet
  cases cache.get key with
  | none => exact .inl rfl
  | some hit =>
    by_cases hstale : now > hit.expiresAt
    · exact .inr ⟨hit, rfl, hstale, by simp [hstale]⟩
    · exact .inl (by simp [hstale])

theorem fromCache_fst (s : State) (now : ℤ) (name : JsText) :
    (s.fromCache rt now name).1.cache = (cacheGet s.cache (cacheKey rt name) now).1 := by
  unfold State.fromCache
  rcases cacheGet s.cache (cacheKey rt name) now with ⟨cache, _ | cached⟩ <;> rfl

theorem resolve_cache (s : State) (now : ℤ) (req : Request) :
    (s.resolve rt config now req).1.cache = s.cache ∨
      (s.resolve rt config now req).1.cache = (cacheGet s.cache (cacheKey rt req.name) now).1 := by
  unfold State.resolve
  split
  · exact .inl rfl
  · dsimp only
    split
    · exact .inl rfl
    · unfold State.fromRegistry
      split <;> exact .inl rfl
    · exact .inl rfl
    · exact .inr (fromCache_fst s.countReq now req.name)

/-- **What becomes of the cache** in a step. -/
theorem cache_step (rt : Runtime) (config : Config) (s : State) (i : Input) :
    CacheStep rt config s i (step rt config s i).1.cache := by
  cases i with
  | rpc failed => exact .kept (by rintro _ _ ⟨⟩)
  | evaluate now => exact .kept (by rintro _ _ ⟨⟩)
  | request now req =>
    have hkept : CacheStep rt config s (.request now req) s.cache := .kept (by rintro _ _ ⟨⟩)
    have hresolve :=
      @resolve_cache rt config (s.currentAttackPolicy config now) now req
    change CacheStep rt config s (.request now req)
      ((s.currentAttackPolicy config now).resolve rt config now req).1.cache
    rcases hresolve with h | h
    · rw [h]
      exact hkept
    · rw [h]
      rcases cacheGet_fst s.cache (cacheKey rt req.name) now with hsame | ⟨hit, hget, hstale, herase⟩
      · rw [cache_currentAttackPolicy, hsame]
        exact hkept
      · rw [cache_currentAttackPolicy, herase]
        exact .erased rfl hget hstale
  | chainDone k answer =>
    refine (?_ : (step rt config s (.chainDone k answer)).1.cache = s.cache) ▸
      .kept (by rintro _ _ ⟨⟩)
    simp only [step]
    split <;> rfl
  | dohDone k now answer =>
    simp only [step]
    split
    · rename_i name hstage
      cases answer with
      | error message => exact .kept (by rintro _ _ ⟨⟩)
      | ok answers =>
        simp only [State.fromDoh]
        cases halone : config.nodeAggregatorEnabled with
        | false => exact .filled (.doh now answers hstage halone)
        | true =>
          refine .kept ?_
          rintro _ _ (⟨_, _, _, h⟩ | _)
          rw [halone] at h
          cases h
    · rename_i hnone
      refine .kept ?_
      rintro _ _ (⟨_, _, h, _⟩ | _)
      exact hnone _ h
  | nodesDone k now answer =>
    simp only [step]
    split
    · rename_i hstage
      cases answer with
      | error message => exact .kept (by rintro _ _ ⟨⟩)
      | ok asked =>
        simp only [State.fromNodes]
        split
        · rename_i hok
          exact .filled (.nodes now hstage hok)
        · rename_i hfailed
          refine .kept ?_
          rintro _ _ (_ | ⟨_, h, hok⟩)
          rw [hstage] at h
          cases h
          exact hfailed hok
    · rename_i hnone
      refine .kept ?_
      rintro _ _ (_ | ⟨_, h, _⟩)
      exact hnone _ _ _ _ _ h

/-! ## The invariant -/

/-- What waits for the nodes is the payload of an upstream answer, with its ttl. -/
def Stage.Made (rt : Runtime) (config : Config) : Stage → Prop
  | .nodes _ ttl payload _ clamp => ∃ name records, payload = dohPayload rt config name records ∧
      ttl = effectiveTtl clamp (dohTtl config records)
  | _ => True

theorem pending_resolve (now : ℤ) (req : Request) :
    ∀ stage ∈ (s.resolve rt config now req).1.pending, stage ∈ s.pending ∨ stage.Made rt config := by
  unfold State.resolve
  split
  · exact fun _ h => .inl h
  · dsimp only
    split
    · exact fun _ h => .inl h
    · unfold State.fromRegistry
      split <;> exact fun _ h => .inl h
    · intro stage h
      rcases List.mem_append.1 h with h | h
      · exact .inl h
      · rw [List.mem_singleton.1 h]
        exact .inr trivial
    · unfold State.fromCache
      split
      · exact fun _ h => .inl h
      · intro stage h
        rcases List.mem_append.1 h with h | h
        · exact .inl h
        · rw [List.mem_singleton.1 h]
          exact .inr trivial

theorem pending_fromNodes {key : JsText} {ttl fetchedAt now : ℤ} {payload : ResolveResponse}
    (answer : Except JsText (List NodeQuorum.Asked)) :
    (s.fromNodes rt config key ttl payload fetchedAt now answer).1.pending = s.pending := by
  cases answer with
  | error message => rfl
  | ok asked =>
    unfold State.fromNodes
    dsimp only
    split <;> rfl

/-- A request that begins to wait is made so. -/
theorem pending_step (rt : Runtime) (config : Config) (s : State) (i : Input) :
    ∀ stage ∈ (step rt config s i).1.pending, stage ∈ s.pending ∨ stage.Made rt config := by
  have herase (k : ℕ) {stage : Stage} (h : stage ∈ s.pending.eraseIdx k) :
      stage ∈ s.pending ∨ stage.Made rt config := .inl (List.mem_of_mem_eraseIdx h)
  cases i with
  | rpc failed => exact fun _ h => .inl h
  | evaluate now => exact fun _ h => .inl h
  | request now req => exact pending_resolve (s := s.currentAttackPolicy config now) now req
  | chainDone k answer =>
    simp only [step]
    split
    · exact fun _ h => herase k h
    · exact fun _ h => .inl h
  | dohDone k now answer =>
    simp only [step]
    split
    · rename_i name hstage
      cases answer with
      | error message => exact fun _ h => herase k h
      | ok answers =>
        simp only [State.fromDoh]
        split
        · intro stage h
          rcases List.mem_append.1 h with h | h
          · exact herase k h
          · rw [List.mem_singleton.1 h]
            exact .inr ⟨name, dohRecords answers, rfl, rfl⟩
        · exact fun _ h => herase k h
    · exact fun _ h => .inl h
  | nodesDone k now answer =>
    simp only [step]
    split
    · rw [pending_fromNodes]
      exact fun _ h => herase k h
    · exact fun _ h => .inl h

theorem suffix_currentAttackPolicy (s : State) (now : ℤ) :
    s.modeChanges <:+ (s.currentAttackPolicy config now).modeChanges := by
  unfold State.currentAttackPolicy
  dsimp only
  split
  · exact List.suffix_rfl
  · exact List.suffix_cons _ _

theorem suffix_resolve (s : State) (now : ℤ) (req : Request) :
    s.modeChanges <:+ (s.resolve rt config now req).1.modeChanges := by
  unfold State.resolve
  split
  · exact List.suffix_rfl
  · dsimp only
    split
    · exact List.suffix_rfl
    · unfold State.fromRegistry
      split
      case h_5 => exact suffix_currentAttackPolicy s.countReq now
      all_goals exact List.suffix_rfl
    · exact List.suffix_rfl
    · unfold State.fromCache
      split <;> exact List.suffix_rfl

/-- Changes of the mode are only added. -/
theorem suffix_step (rt : Runtime) (config : Config) (s : State) (i : Input) :
    s.modeChanges <:+ (step rt config s i).1.modeChanges := by
  cases i with
  | rpc failed => exact List.suffix_rfl
  | evaluate now => exact suffix_currentAttackPolicy s now
  | request now req =>
    exact (suffix_currentAttackPolicy s now).trans (suffix_resolve _ now req)
  | chainDone k answer =>
    simp only [step]
    split <;> exact List.suffix_rfl
  | dohDone k now answer =>
    simp only [step]
    split
    · cases answer with
      | error message => exact List.suffix_rfl
      | ok answers =>
        simp only [State.fromDoh]
        split <;> exact suffix_currentAttackPolicy (s.resume k) now
    · exact List.suffix_rfl
  | nodesDone k now answer =>
    simp only [step]
    split
    · cases answer with
      | error message => exact List.suffix_rfl
      | ok asked =>
        simp only [State.fromNodes]
        split <;> exact List.suffix_rfl
    · exact List.suffix_rfl

/-- What is stored and what waits come from upstream answers, and no entry was stored after more
changes of the mode than there were. -/
structure Inv (rt : Runtime) (config : Config) (s : State) : Prop where
  made : ∀ stage ∈ s.pending, stage.Made rt config
  cached : ∀ key e, s.cache.get key = some e →
    ∃ name records, e.payload = dohPayload rt config name records
  counted : ∀ key e, s.cache.get key = some e → e.changesBefore ≤ s.modeChanges.length

theorem inv_start (rt : Runtime) (config : Config) (now : ℤ) : Inv rt config (.start now) where
  made := fun _ h => nomatch h
  cached := fun _ _ h => nomatch h
  counted := fun _ _ h => nomatch h

/-- An entry that is stored is that of an upstream answer; it was stored after all changes of the
mode so far. -/
theorem Inv.filled (hinv : Inv rt config s) {key : JsText} {e : CacheEntry}
    (h : Fills rt config s i key e) :
    (∃ name records, e.payload = dohPayload rt config name records) ∧
      e.changesBefore = (step rt config s i).1.modeChanges.length := by
  cases h with
  | @doh k name now answers hstage halone =>
    refine ⟨⟨name, dohRecords answers, rfl⟩, ?_⟩
    simp only [step, hstage, State.fromDoh, halone, State.cacheSet, State.atDoh]
    rfl
  | @nodes k key ttl fetchedAt payload clamp now asked hstage hok =>
    obtain ⟨name, records, rfl, -⟩ := hinv.made _ (List.mem_of_getElem? hstage)
    refine ⟨⟨name, records, rfl⟩, ?_⟩
    simp only [step, hstage, State.fromNodes, hok, if_true, State.cacheSet]
    rfl

/-- What is in the cache after a step was there before, or is stored in the step. -/
theorem get_step {key : JsText} {e : CacheEntry}
    (h : (step rt config s i).1.cache.get key = some e) :
    s.cache.get key = some e ∨ Fills rt config s i key e := by
  have hcases := cache_step rt config s i
  generalize (step rt config s i).1.cache = cache at h hcases
  cases hcases with
  | @filled key' e' hfills =>
    rw [FinMap.get_set] at h
    split at h
    · rename_i hkey
      obtain rfl := Option.some.inj h
      exact .inr (hkey ▸ hfills)
    · exact .inl h
  | erased hi hget hstale =>
    rw [FinMap.get_erase] at h
    split at h
    · cases h
    · exact .inl h
  | kept hnone => exact .inl h

theorem Inv.step (hinv : Inv rt config s) (i : Input) : Inv rt config (step rt config s i).1 where
  made := fun stage h => (pending_step rt config s i stage h).elim (hinv.made stage) id
  cached := fun key e h => (get_step h).elim (hinv.cached key e) fun hfills => (hinv.filled hfills).1
  counted := by
    intro key e h
    rcases get_step h with hbefore | hfills
    · exact (hinv.counted key e hbefore).trans (suffix_step rt config s i).length_le
    · exact ((hinv.filled hfills).2).le

/-! ## Guards and clamps -/

/-- The records keep their ttls under a clamp. -/
def WithinClamp (clamp : ℕ) (records : List ResolveRecord) : Prop :=
  ∀ r ∈ records, ∃ ttl, r.ttl = some ttl ∧ ttl ≤ clamp

@[simp] theorem records_attachAuthoritySig (payload : ResolveResponse) :
    (attachAuthoritySig rt config payload).records = payload.records := by
  unfold attachAuthoritySig
  split <;> rfl

@[simp] theorem records_dohPayload (name : JsText) (records : List DohRecord) :
    (dohPayload rt config name records).records = records.map DohRecord.toRecord :=
  records_attachAuthoritySig _

/-- A request is answered from the registry, after an evaluation of the mode, or leaves the mode as it
is. -/
theorem resolve_mode (rt : Runtime) (config : Config) (s : State) (now : ℤ) (req : Request) :
    (∃ records, req.FromRegistry rt config records ∧
      (s.resolve rt config now req).1 = s.countReq.currentAttackPolicy config now) ∨
    (∀ records, ¬req.FromRegistry rt config records) ∧
      (s.resolve rt config now req).1.modeChanges = s.modeChanges ∧
      (s.resolve rt config now req).1.guard.mode = s.guard.mode := by
  unfold State.resolve
  split
  · rename_i hname
    exact .inr ⟨fun _ h => h.name_ne hname, rfl, rfl⟩
  rename_i hname
  dsimp only
  split
  · rename_i hsource
    exact .inr ⟨fun _ h => (nomatch hsource.symm.trans h.source_eq), rfl, rfl⟩
  · rename_i hsource
    unfold State.fromRegistry
    split
    case h_5 records hfound => exact .inl ⟨records, ⟨hname, hsource, hfound⟩, rfl⟩
    all_goals
      rename_i hlookup
      exact .inr ⟨fun _ h => (nomatch hlookup.symm.trans h.registry_eq), rfl, rfl⟩
  · rename_i hsource
    exact .inr ⟨fun _ h => (nomatch hsource.symm.trans h.source_eq), rfl, rfl⟩
  · rename_i hsource
    refine .inr ⟨fun _ h => (nomatch hsource.symm.trans h.source_eq), ?_⟩
    unfold State.fromCache
    split <;> exact ⟨rfl, rfl⟩

/-! ## A gateway -/

def exampleRuntimeWith (blake3 : List UInt8 → List UInt8) : Runtime where
  toLowerCase := id
  localeCompare := compare
  numberText := CacheRollup.exampleNumberText
  blake3
  signAuthority := fun _ resultHash => resultHash

/-- The attack mode is on, with the thresholds of an empty environment. -/
def exampleConfig : Config where
  registryEnabled := true
  enableEns := true
  enableSns := true
  gatedSuffixes := []
  cacheTtlMaxS := 300
  privateKeyHex := ['0', '1']
  pubkeyHex := []
  nodeAggregatorEnabled := false
  nodeQuorum := 2
  attackModeEnabled := true
  attackWindowSecs := .fin 120
  attackThresholds := Attack.defaultThresholds
  reasonText := fun _ => ""

/-- A name of the registry, whose owner has this ttl. -/
def exampleRequest (ttl : ℚ) : Request where
  name := ['a', '.', 'd', 'n', 's']
  voucher := none
  registry := .found [⟨Core.ownerText, .text ['x'], some ttl⟩]

theorem exampleRequest_fromRegistry (blake3 : List UInt8 → List UInt8) (ttl : ℚ) :
    (exampleRequest ttl).FromRegistry (exampleRuntimeWith blake3) exampleConfig
      [⟨Core.ownerText, .text ['x'], some ttl⟩] where
  name_ne := List.cons_ne_nil _ _
  source_eq := rfl
  registry_eq := rfl

end Ddns.Gateway.Resolve
