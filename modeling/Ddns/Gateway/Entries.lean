import Ddns.Gateway.Recursive
import Ddns.Gateway.Upstream
import Mathlib.Tactic.Linarith

/-!
# What the gateway selects

`selected_of_selectBest` says once what `selectBest` chooses: one of the upstreams that it considered,
which all gave addresses; or, if none did, one that says that the name does not exist.
-/

namespace Ddns.Gateway

variable {config : SelectConfig} {results upstreams : List UpstreamResult} {u : UpstreamResult}
  {chosen : Chosen}

/-! ## Parts of the selection -/

theorem mem_of_fastest (h : fastest results = some u) : u ∈ results :=
  (List.perm_insertionSort _ results).subset (List.mem_of_head? h)

theorem strongestGroup_subset : strongestGroup results ⊆ results := by
  intro u hu
  unfold strongestGroup at hu
  cases hhead : ((byHash results).insertionSort fun a b => b.length ≤ a.length).head? with
  | none =>
    rw [hhead] at hu
    cases hu
  | some group =>
    rw [hhead] at hu
    have hgroup : group ∈ byHash results :=
      (List.perm_insertionSort _ _).subset (List.mem_of_head? hhead)
    obtain ⟨hash, -, rfl⟩ := List.mem_map.1 hgroup
    exact (List.mem_filter.1 hu).1

theorem mem_of_mem_pairs {α : Type*} {l : List α} {p : α × α} (h : p ∈ pairs l) :
    p.1 ∈ l ∧ p.2 ∈ l := by
  induction l with
  | nil => cases h
  | cons a as ih =>
    rcases List.mem_append.1 h with hp | hp
    · obtain ⟨b, hb, rfl⟩ := List.mem_map.1 hp
      exact ⟨List.mem_cons_self, List.mem_cons_of_mem a hb⟩
    · exact ⟨List.mem_cons_of_mem a (ih hp).1, List.mem_cons_of_mem a (ih hp).2⟩

theorem overlapCandidates_subset : overlapCandidates config results ⊆ results := by
  intro u hu
  obtain ⟨p, hp, hmem⟩ := List.mem_flatMap.1 hu
  obtain ⟨h₁, h₂⟩ := mem_of_mem_pairs (List.mem_filter.1 hp).1
  simp only [List.mem_cons, List.not_mem_nil, or_false] at hmem
  rcases hmem with rfl | rfl
  · exact h₁
  · exact h₂

theorem uniqueByUrl_subset : uniqueByUrl results ⊆ results := by
  intro u hu
  obtain ⟨url, -, hfind⟩ := List.mem_filterMap.1 hu
  exact List.mem_reverse.1 (List.mem_of_find?_eq_some hfind)

/-! ## The selection -/

/-- The cap on the TTL of a choice of addresses. -/
def cap (config : SelectConfig) : Confidence → ℚ
  | .high => config.ttlCapS
  | .medium => min config.ttlCapS 120
  | .low => min config.ttlCapS 30

/-- The upstream gives addresses. -/
def Successful (u : UpstreamResult) : Prop := u.status = .noError ∧ u.ips ≠ []

instance : DecidablePred Successful := fun u =>
  inferInstanceAs (Decidable (u.status = .noError ∧ u.ips ≠ []))

/-- What is selected of some upstreams. -/
inductive Selected (config : SelectConfig) (upstreams : List UpstreamResult) : Chosen → Prop where
  | addresses (confidence : Confidence) {u : UpstreamResult} {considered : List UpstreamResult}
    (hu : u ∈ considered) (hconsidered : ∀ v ∈ considered, v ∈ upstreams ∧ Successful v) :
    Selected config upstreams ⟨.noError, confidence, u, considered,
      max 1 (min (baseTtl u considered) (cap config confidence))⟩
  | nxDomain (confidence : Confidence) {u : UpstreamResult} {considered : List UpstreamResult}
    (hu : u ∈ upstreams) (hstatus : u.status = .nxDomain) (hnone : ∀ v ∈ upstreams, ¬Successful v) :
    Selected config upstreams ⟨.nxDomain, confidence, u, considered,
      max 1 (min (baseTtl u (considered.map orThirty)) 30)⟩

theorem selected_of_selectBest (h : selectBest config upstreams = some chosen) :
    Selected config upstreams chosen := by
  have hsuccessful (v : UpstreamResult)
      (hv : v ∈ upstreams.filter fun u => Successful u) :
      v ∈ upstreams ∧ Successful v := by
    obtain ⟨hmem, hsuccess⟩ := List.mem_filter.1 hv
    exact ⟨hmem, of_decide_eq_true hsuccess⟩
  unfold selectBest at h
  simp only at h
  split at h
  · split at h
    · obtain ⟨u, hu, rfl⟩ := Option.map_eq_some_iff.1 h
      refine .addresses .high (mem_of_fastest hu) fun v hv => ?_
      exact hsuccessful v (strongestGroup_subset hv)
    · split at h
      · obtain ⟨u, hu, rfl⟩ := Option.map_eq_some_iff.1 h
        refine .addresses .medium (mem_of_fastest hu) fun v hv => ?_
        exact hsuccessful v (overlapCandidates_subset (uniqueByUrl_subset hv))
      · obtain ⟨u, hu, rfl⟩ := Option.map_eq_some_iff.1 h
        refine .addresses .low List.mem_cons_self fun v hv => ?_
        rw [List.mem_singleton.1 hv]
        exact hsuccessful u (mem_of_fastest hu)
  · next hnil =>
    obtain ⟨u, hu, rfl⟩ := Option.map_eq_some_iff.1 h
    obtain ⟨hmem, hnx⟩ := List.mem_filter.1 (mem_of_fastest hu)
    refine .nxDomain _ hmem (of_decide_eq_true hnx) fun v hv hsuccess => ?_
    have hmemv : v ∈ upstreams.filter fun u => Successful u :=
      List.mem_filter.2 ⟨hv, decide_eq_true hsuccess⟩
    exact hnil (List.ne_nil_of_mem hmemv)

/-- The status of a choice is that of the chosen upstream. -/
theorem Selected.status_eq (h : Selected config upstreams chosen) :
    chosen.chosen.status = chosen.status := by
  cases h with
  | addresses confidence hu hconsidered => exact (hconsidered _ hu).2.1
  | nxDomain confidence hu hstatus hnone => exact hstatus

theorem Selected.one_le_ttlS (h : Selected config upstreams chosen) : 1 ≤ chosen.ttlS := by
  cases h with
  | addresses confidence hu hconsidered => exact le_max_left _ _
  | nxDomain confidence hu hstatus hnone => exact le_max_left _ _

/-- Nothing is selected if no upstream gives addresses or says that the name does not exist. -/
theorem selectBest_eq_none (hnone : ∀ v ∈ upstreams, ¬Successful v)
    (hnx : ∀ v ∈ upstreams, v.status ≠ .nxDomain) : selectBest config upstreams = none := by
  cases hbest : selectBest config upstreams with
  | none => rfl
  | some chosen =>
    cases selected_of_selectBest hbest with
    | addresses confidence hu hconsidered =>
      obtain ⟨hmem, hsuccess⟩ := hconsidered _ hu
      exact absurd hsuccess (hnone _ hmem)
    | nxDomain confidence hu hstatus => exact absurd hstatus (hnx _ hu)

end Ddns.Gateway

/-!
## Entries of the recursive resolver

Every entry that the adapter holds, in its cache, its promises or its queue, was made by `entryOf`
of what `selectBest` chose among the answers of the upstreams. `sound_step` says that every step
keeps this.
-/

namespace Ddns.Gateway

/-! ## What entries, answers and calls carry -/

section Sound

variable {rt : Runtime} {config : RecursiveConfig} {s : Adapter}

/-- The entry holds what was chosen among some answers of the upstreams. -/
def Stored (rt : Runtime) (config : RecursiveConfig) (e : CacheEntry) : Prop :=
  ∃ qname qtype replies chosen now, selectBest config.toSelectConfig
    (queryUpstreams rt config.urls qname qtype replies) = some chosen ∧
      e = entryOf config qname qtype chosen now

theorem Stored.expiresAt {e : CacheEntry} (h : Stored rt config e) :
    e.expiresAt = e.fetchedAt + e.ttlS := by
  obtain ⟨_, _, _, _, _, -, rfl⟩ := h
  rfl

theorem Stored.staleUntil {e : CacheEntry} (h : Stored rt config e) :
    e.staleUntil = e.expiresAt + staleFor config := by
  obtain ⟨_, _, _, _, _, -, rfl⟩ := h
  rfl

/-- An answer says for how long its entry is fresh. -/
structure Handed (rt : Runtime) (config : RecursiveConfig) (a : Answer) : Prop where
  stored : Stored rt config a.entry
  ttlS : a.ttlS = max 0 (a.entry.expiresAt - a.madeAt)

/-- A call that awaits has no fresh entry. -/
structure Asked (rt : Runtime) (config : RecursiveConfig) (call : Waiting) : Prop where
  stored : ∀ e, call.existing = some e → Stored rt config e
  expired : ∀ e, call.existing = some e → e.expiresAt ≤ call.start

def Reaction.Sound (rt : Runtime) (config : RecursiveConfig) : Reaction → Prop
  | .forget _ => True
  | .deliver call => Asked rt config call

theorem sound_forget (k : JsText) : (Reaction.forget k).Sound rt config := trivial

theorem sound_deliver {call : Waiting} (h : Asked rt config call) :
    (Reaction.deliver call).Sound rt config := h

def Job.Sound (rt : Runtime) (config : RecursiveConfig) : Job → Prop
  | .call _ _ => True
  | .replied _ _ _ => True
  | .caught _ outcome => ∀ a, outcome = some a → Handed rt config a
  | .react reaction outcome => reaction.Sound rt config ∧ ∀ a, outcome = some a → Handed rt config a

structure Refresh.Sound (rt : Runtime) (config : RecursiveConfig) (r : Refresh) : Prop where
  prefetched : ∀ e, r.prefetched = some e → Stored rt config e
  settled : ∀ a, r.settled = some (some a) → Handed rt config a
  reactions : ∀ reaction ∈ r.reactions, reaction.Sound rt config

structure Adapter.Sound (rt : Runtime) (config : RecursiveConfig) (s : Adapter) : Prop where
  cache : ∀ k e, s.cache.get k = some e → Stored rt config e
  promises : ∀ (p : ℕ) (r : Refresh), s.promises[p]? = some r → r.Sound rt config
  jobs : ∀ job ∈ s.jobs, job.Sound rt config

theorem sound_initial : Adapter.Sound rt config .initial :=
  ⟨fun _ _ h => (by cases h), fun _ _ h => (by cases h), fun _ h => (by cases h)⟩

theorem Adapter.Sound.enqueue (h : s.Sound rt config) {jobs : List Job}
    (hjobs : ∀ job ∈ jobs, job.Sound rt config) :
    Adapter.Sound rt config { s with jobs := s.jobs ++ jobs } := by
  refine { h with jobs := fun job hjob => ?_ }
  rcases List.mem_append.1 hjob with hold | hnew
  · exact h.jobs job hold
  · exact hjobs job hnew

theorem Adapter.Sound.withInFlight (h : s.Sound rt config) (inFlight : FinMap JsText ℕ) :
    Adapter.Sound rt config { s with inFlight } := { h with }

theorem Adapter.Sound.updatePromise (h : s.Sound rt config) (p : ℕ) {f : Refresh → Refresh}
    (hf : ∀ r, r.Sound rt config → (f r).Sound rt config) : (s.updatePromise p f).Sound rt config := by
  refine { h with promises := fun q r hr => ?_ }
  rw [Adapter.updatePromise, List.getElem?_modify] at hr
  obtain ⟨r', hr', rfl⟩ := Option.map_eq_some_iff.1 hr
  have hsound := h.promises q r' hr'
  by_cases hq : p = q
  · rw [if_pos hq]
    exact hf r' hsound
  · rw [if_neg hq]
    exact hsound

theorem Adapter.Sound.settle (h : s.Sound rt config) (p : ℕ) {outcome : Settled}
    (houtcome : ∀ a, outcome = some a → Handed rt config a) : (s.settle p outcome).Sound rt config := by
  unfold Adapter.settle
  cases hp : s.promises[p]? with
  | none => exact h
  | some r =>
    have hupdated := h.updatePromise p (f := fun r =>
        { r with settled := some outcome, reactions := [] }) fun r hr =>
      ⟨hr.prefetched, fun a ha => houtcome a (Option.some.inj ha), fun _ hmem => (by cases hmem)⟩
    refine hupdated.enqueue fun job hjob => ?_
    obtain ⟨reaction, hreaction, rfl⟩ := List.mem_map.1 hjob
    exact ⟨(h.promises p r hp).reactions reaction hreaction, houtcome⟩

theorem Adapter.Sound.register (h : s.Sound rt config) (p : ℕ) {reaction : Reaction}
    (hreaction : reaction.Sound rt config) : (s.register p reaction).Sound rt config := by
  unfold Adapter.register
  cases hp : s.promises[p]? with
  | none => exact h
  | some r =>
    simp only
    cases hs : r.settled with
    | none =>
      refine h.updatePromise p fun r hr => ⟨hr.prefetched, hr.settled, fun x hx => ?_⟩
      rcases List.mem_append.1 hx with hold | hnew
      · exact hr.reactions x hold
      · rw [List.mem_singleton.1 hnew]
        exact hreaction
    | some outcome =>
      refine h.enqueue fun job hjob => ?_
      rw [List.mem_singleton.1 hjob]
      refine ⟨hreaction, fun a ha => ?_⟩
      subst ha
      exact (h.promises p r hp).settled a hs

theorem Adapter.Sound.startRefresh (h : s.Sound rt config) (qname : JsText) (qtype : Qtype)
    (prefetched : Option CacheEntry) (hprefetched : ∀ e, prefetched = some e → Stored rt config e) :
    (s.startRefresh qname qtype prefetched).1.Sound rt config := by
  refine { h with promises := fun p r hr => ?_ }
  rcases List.mem_append.1 (List.mem_of_getElem? hr) with hold | hnew
  · obtain ⟨q, hq⟩ := List.getElem?_of_mem hold
    exact h.promises q r hq
  · rw [List.mem_singleton.1 hnew]
    exact ⟨hprefetched, fun _ ha => (by cases ha), fun _ hmem => (by cases hmem)⟩

theorem evictIfNeeded_eq (config : RecursiveConfig) (cache : FinMap JsText CacheEntry) :
    evictIfNeeded config cache = cache ∧ (cache.entries.length : ℚ) ≤ maxEntries config ∨
      ∃ items : List (JsText × CacheEntry), items.Perm cache.entries ∧
        evictIfNeeded config cache = ((items.take
          ⌈(items.length : ℚ) - maxEntries config⌉.toNat).map Prod.fst).foldl FinMap.erase cache := by
  unfold evictIfNeeded
  by_cases hsize : (cache.entries.length : ℚ) ≤ maxEntries config
  · exact .inl ⟨if_pos hsize, hsize⟩
  · refine .inr ⟨_, List.perm_insertionSort (fun a b => a.2.fetchedAt ≤ b.2.fetchedAt) _, ?_⟩
    rw [if_neg hsize, List.foldl_map]

/-- Eviction only deletes. -/
theorem get_evictIfNeeded {cache : FinMap JsText CacheEntry} {k : JsText} {e : CacheEntry}
    (h : (evictIfNeeded config cache).get k = some e) : cache.get k = some e := by
  rcases evictIfNeeded_eq config cache with ⟨heq, -⟩ | ⟨items, -, heq⟩
  · rwa [heq] at h
  · rw [heq] at h
    exact FinMap.get_foldl_erase h

/-- After an eviction the cache has its size. -/
theorem length_evictIfNeeded (cache : FinMap JsText CacheEntry) :
    ((evictIfNeeded config cache).entries.length : ℚ) ≤ maxEntries config := by
  have hmax : (0 : ℚ) ≤ maxEntries config := zero_le_one.trans (le_max_left _ _)
  rcases evictIfNeeded_eq config cache with ⟨heq, hsize⟩ | ⟨items, hp, heq⟩
  · rwa [heq]
  · rw [heq, FinMap.length_foldl_erase hp]
    have hceil := Int.le_ceil ((items.length : ℚ) - maxEntries config)
    have hnat : (⌈(items.length : ℚ) - maxEntries config⌉ : ℚ) ≤
        (⌈(items.length : ℚ) - maxEntries config⌉.toNat : ℚ) := by
      exact_mod_cast Int.self_le_toNat _
    rcases Nat.le_total items.length ⌈(items.length : ℚ) - maxEntries config⌉.toNat with hle | hle
    · rw [Nat.sub_eq_zero_of_le hle, Nat.cast_zero]
      exact hmax
    · rw [Nat.cast_sub hle]
      linarith

theorem maxEntries_eq (config : RecursiveConfig) : maxEntries config = config.cacheMaxEntries := by
  have hone := config.one_le_cacheMaxEntries
  have hne : config.cacheMaxEntries ≠ 0 := fun h => by rw [h] at hone; exact absurd hone (by decide)
  rw [maxEntries, orNumber, if_neg hne, max_eq_right hone]

/-- A new entry, handed out at once. -/
theorem handed_entryOf {qname : JsText} {qtype : Qtype} {replies : List TimedReply} {chosen : Chosen}
    (h : selectBest config.toSelectConfig (queryUpstreams rt config.urls qname qtype replies) =
      some chosen) (now : ℚ) :
    Handed rt config ⟨qname, entryOf config qname qtype chosen now, now, chosen.ttlS, .upstream⟩ := by
  refine ⟨⟨qname, qtype, replies, chosen, now, h, rfl⟩, ?_⟩
  have hone := (selected_of_selectBest h).one_le_ttlS
  have hleft : (entryOf config qname qtype chosen now).expiresAt - now = chosen.ttlS :=
    add_sub_cancel_left now chosen.ttlS
  rw [hleft, max_eq_right (zero_le_one.trans hone)]

theorem Adapter.Sound.store (h : s.Sound rt config) (r : Refresh) (replies : List TimedReply)
    (persisted : Bool) (now : ℚ) :
    (s.store rt config r replies persisted now).1.Sound rt config ∧
      ∀ a, (s.store rt config r replies persisted now).2 = some a → Handed rt config a := by
  unfold Adapter.store
  simp only
  cases hbest : selectBest config.toSelectConfig
      (queryUpstreams rt config.urls r.qname r.qtype replies) with
  | none => exact ⟨h, fun a ha => (by cases ha)⟩
  | some chosen =>
    have hentry := handed_entryOf hbest now
    refine ⟨{ h with cache := fun k e he => ?_ }, fun a ha => ?_⟩
    · have hset := get_evictIfNeeded he
      rw [FinMap.get_set] at hset
      split at hset
      · cases hset
        exact hentry.stored
      · exact h.cache k e hset
    · simp only at ha
      split at ha
      · cases ha
        exact hentry
      · cases ha

theorem Adapter.Sound.conclude (h : s.Sound rt config) (p : ℕ) (r : Refresh) {outcome : Settled}
    (houtcome : ∀ a, outcome = some a → Handed rt config a) :
    (s.conclude p r outcome).Sound rt config := by
  have hupdated := h.updatePromise p (f := fun r => { r with awaiting := false })
    fun r hr => ⟨hr.prefetched, hr.settled, hr.reactions⟩
  unfold Adapter.conclude
  cases r.prefetched with
  | none => exact hupdated.settle p houtcome
  | some e =>
    refine hupdated.enqueue fun job hjob => ?_
    rw [List.mem_singleton.1 hjob]
    exact houtcome

theorem Adapter.Sound.finishRefresh (h : s.Sound rt config) (p : ℕ) (r : Refresh)
    (replies : List TimedReply) (persisted : Bool) (now : ℚ) :
    (s.finishRefresh rt config p r replies persisted now).Sound rt config := by
  obtain ⟨hstored, houtcome⟩ := h.store r replies persisted now
  exact hstored.conclude p r houtcome

theorem handed_staleAnswer {e : CacheEntry} (h : Stored rt config e) (qname : JsText) (now : ℚ) :
    Handed rt config (staleAnswer qname now e) := ⟨h, rfl⟩

theorem Adapter.Sound.caught (h : s.Sound rt config) (p : ℕ) {outcome : Settled}
    (houtcome : ∀ a, outcome = some a → Handed rt config a) (now : ℚ) :
    (s.caught p outcome now).Sound rt config := by
  unfold Adapter.caught
  cases hp : s.promises[p]? with
  | none => exact h
  | some r =>
    refine h.settle p fun a ha => ?_
    cases outcome with
    | some b => exact houtcome a ha
    | none =>
      obtain ⟨e, he, rfl⟩ := Option.map_eq_some_iff.1 ha
      exact handed_staleAnswer ((h.promises p r hp).prefetched e he) r.qname now

theorem Adapter.Sound.prefetch (h : s.Sound rt config) (qname : JsText) (qtype : Qtype) {e : CacheEntry}
    (he : Stored rt config e) (now : ℚ) : (s.prefetch rt config qname qtype e now).Sound rt config := by
  unfold Adapter.prefetch
  simp only
  split
  · have hstart := h.startRefresh qname qtype (some e) fun e' he' => by
      cases he'
      exact he
    exact (hstart.withInFlight _).register _ (sound_forget _)
  · exact h

theorem Adapter.Sound.shared (h : s.Sound rt config) (qname : JsText) (qtype : Qtype) :
    (s.shared rt qname qtype).1.Sound rt config := by
  unfold Adapter.shared
  split
  · exact h
  · exact h.startRefresh qname qtype none fun e he => by cases he

theorem Adapter.Sound.join (h : s.Sound rt config) (qtype : Qtype) {call : Waiting}
    (hcall : Asked rt config call) : (s.join rt qtype call).Sound rt config :=
  (((h.shared call.qname qtype).withInFlight _).register _ (sound_forget _)).register _
    (sound_deliver hcall)

theorem Adapter.Sound.resolveRecursive (h : s.Sound rt config) (name qtype : JsText) (now : ℚ) :
    (s.resolveRecursive rt config name qtype now).1.Sound rt config := by
  unfold Adapter.resolveRecursive
  cases parseQtype rt qtype with
  | none => exact h
  | some q =>
    simp only
    cases hfresh : (s.cache.get (keyOf rt (normalizeNameForHash rt name) q)).filter
        fun e => now < e.expiresAt with
    | some e =>
      obtain ⟨he, -⟩ := Option.filter_eq_some_iff.1 hfresh
      exact h.prefetch _ q (h.cache _ e he) now
    | none =>
      refine h.join q ⟨fun e he => h.cache _ e he, fun e he => ?_⟩
      have hnot := Option.filter_eq_none_iff.1 hfresh e he
      exact not_lt.1 (by simpa using hnot)

theorem sound_step (h : s.Sound rt config) (i : Input) :
    (s.step rt config i).1.Sound rt config := by
  cases i with
  | enqueue job =>
    cases job with
    | caught p outcome => exact h
    | react reaction outcome => exact h
    | call name qtype =>
      refine h.enqueue fun j hj => ?_
      rw [List.mem_singleton.1 hj]
      trivial
    | replied p replies persisted =>
      refine h.enqueue fun j hj => ?_
      rw [List.mem_singleton.1 hj]
      trivial
  | turn now =>
    unfold Adapter.step
    cases hjobs : s.jobs with
    | nil => exact h
    | cons job jobs =>
      have hjob : job.Sound rt config := h.jobs job (by rw [hjobs]; exact List.mem_cons_self)
      have hrest : Adapter.Sound rt config { s with jobs } :=
        { h with jobs := fun j hj => h.jobs j (by rw [hjobs]; exact List.mem_cons_of_mem job hj) }
      cases job with
      | call name qtype => exact hrest.resolveRecursive name qtype now
      | replied p replies persisted =>
        simp only [Adapter.run, Adapter.replied]
        cases hp : s.promises[p]? with
        | none => exact hrest
        | some r =>
          simp only
          split
          · exact hrest.finishRefresh p r replies persisted now
          · exact hrest
      | caught p outcome => exact hrest.caught p hjob now
      | react reaction outcome =>
        cases reaction with
        | forget k => exact { hrest with }
        | deliver call => exact hrest

theorem sound_exec (h : s.Sound rt config) (inputs : List Input) :
    (Runs.exec (Adapter.step rt config) s inputs).Sound rt config := by
  have hstep (s : Adapter) (i : Input) (h : s.Sound rt config) :
      (s.step rt config i).1.Sound rt config := sound_step h i
  exact Runs.exec_induction hstep h inputs

/-! ## Start -/

/-- A file that adapters of a configuration wrote. -/
structure CacheFile (rt : Runtime) (config : RecursiveConfig) where
  cache : FinMap JsText CacheEntry
  stored : ∀ k e, cache.get k = some e → Stored rt config e

/-- There is no file. -/
def CacheFile.empty (rt : Runtime) (config : RecursiveConfig) : CacheFile rt config :=
  ⟨.empty, fun _ _ h => (by cases h)⟩

/-- `loadCache` reads such a file as it was written. -/
def CacheFile.load (file : CacheFile rt config) : Adapter := ⟨file.cache, .empty, [], []⟩

theorem sound_load (file : CacheFile rt config) : file.load.Sound rt config :=
  ⟨file.stored, fun _ _ h => (by cases h), fun _ h => (by cases h)⟩

/-! ## What a turn hands out -/

/-- The entry that the first job of the queue hands out at `now`, and the clock when that answer is
made. -/
inductive HandsOut (rt : Runtime) (s : Adapter) (now : ℚ) : CacheEntry → ℚ → Prop where
  | hit {name qtype : JsText} {q : Qtype} {e : CacheEntry}
    (hjob : s.jobs.head? = some (.call name qtype)) (hq : parseQtype rt qtype = some q)
    (he : s.cache.get (keyOf rt (normalizeNameForHash rt name) q) = some e)
    (hfresh : now < e.expiresAt) : HandsOut rt s now e now
  | settled {call : Waiting} {a : Answer}
    (hjob : s.jobs.head? = some (.react (.deliver call) (some a))) :
    HandsOut rt s now a.entry a.madeAt
  | stale {call : Waiting} {e : CacheEntry}
    (hjob : s.jobs.head? = some (.react (.deliver call) none)) (he : call.existing = some e)
    (hwindow : call.start ≤ e.staleUntil) : HandsOut rt s now e call.start

theorem resolveRecursive_hit {name qtype : JsText} {now : ℚ} {q : Qtype} {e : CacheEntry}
    (hq : parseQtype rt qtype = some q)
    (he : s.cache.get (keyOf rt (normalizeNameForHash rt name) q) = some e)
    (hfresh : now < e.expiresAt) : (s.resolveRecursive rt config name qtype now).2 =
      some (.returned now ⟨normalizeNameForHash rt name, e, now, e.expiresAt - now, .cache⟩) := by
  have hfilter : (some e).filter (fun e => now < e.expiresAt) = some e :=
    Option.filter_eq_some_iff.2 ⟨rfl, decide_eq_true hfresh⟩
  simp only [Adapter.resolveRecursive, hq, he, hfilter]

theorem resolveRecursive_returned {name qtype : JsText} {now start : ℚ} {a : Answer}
    (h : (s.resolveRecursive rt config name qtype now).2 = some (.returned start a)) :
    ∃ q e, parseQtype rt qtype = some q ∧
      s.cache.get (keyOf rt (normalizeNameForHash rt name) q) = some e ∧ now < e.expiresAt ∧
      a = ⟨normalizeNameForHash rt name, e, now, e.expiresAt - now, .cache⟩ := by
  unfold Adapter.resolveRecursive at h
  cases hq : parseQtype rt qtype with
  | none =>
    rw [hq] at h
    cases h
  | some q =>
    rw [hq] at h
    simp only at h
    cases hfresh : (s.cache.get (keyOf rt (normalizeNameForHash rt name) q)).filter
        fun e => now < e.expiresAt with
    | none =>
      rw [hfresh] at h
      cases h
    | some e =>
      rw [hfresh] at h
      cases h
      obtain ⟨he, hnow⟩ := Option.filter_eq_some_iff.1 hfresh
      exact ⟨q, e, rfl, he, of_decide_eq_true hnow, rfl⟩

/-- What is handed out after a failure. -/
theorem delivered_none_returned {call : Waiting} {start : ℚ} {a : Answer}
    (h : delivered call none = .returned start a) :
    ∃ e, call.existing = some e ∧ call.start ≤ e.staleUntil ∧
      a = staleAnswer call.qname call.start e := by
  unfold delivered at h
  cases hstale : call.existing.filter fun e => call.start ≤ e.staleUntil with
  | none =>
    rw [hstale] at h
    cases h
  | some e =>
    rw [hstale] at h
    cases h
    obtain ⟨he, hle⟩ := Option.filter_eq_some_iff.1 hstale
    exact ⟨e, he, of_decide_eq_true hle, rfl⟩

theorem delivered_none_stale {call : Waiting} {e : CacheEntry} (he : call.existing = some e)
    (hwindow : call.start ≤ e.staleUntil) :
    delivered call none = .returned call.start (staleAnswer call.qname call.start e) := by
  have hfilter : (some e).filter (fun e => call.start ≤ e.staleUntil) = some e :=
    Option.filter_eq_some_iff.2 ⟨rfl, decide_eq_true hwindow⟩
  simp only [delivered, he, hfilter]

/-- **What a turn returns** is an answer of an entry that it hands out. -/
theorem handsOut_of_returned (h : s.Sound rt config) {now start : ℚ} {a : Answer}
    (ho : (s.step rt config (.turn now)).2 = some (.returned start a)) :
    HandsOut rt s now a.entry a.madeAt ∧ Handed rt config a := by
  unfold Adapter.step at ho
  cases hjobs : s.jobs with
  | nil =>
    rw [hjobs] at ho
    cases ho
  | cons job jobs =>
    have hhead : s.jobs.head? = some job := by rw [hjobs]; rfl
    have hjob : job.Sound rt config := h.jobs job (by rw [hjobs]; exact List.mem_cons_self)
    rw [hjobs] at ho
    cases job with
    | call name qtype =>
      obtain ⟨q, e, hq, he, hfresh, rfl⟩ := resolveRecursive_returned ho
      have hleft : e.expiresAt - now = max 0 (e.expiresAt - now) :=
        (max_eq_right (sub_nonneg.2 hfresh.le)).symm
      exact ⟨.hit hhead hq he hfresh, h.cache _ e he, hleft⟩
    | replied p replies persisted => cases ho
    | caught p outcome => cases ho
    | react reaction outcome =>
      cases reaction with
      | forget k => cases ho
      | deliver call =>
        cases outcome with
        | some b =>
          cases ho
          exact ⟨.settled hhead, hjob.2 a rfl⟩
        | none =>
          obtain ⟨e, he, hwindow, rfl⟩ := delivered_none_returned (Option.some.inj ho)
          exact ⟨.stale hhead he hwindow, handed_staleAnswer (hjob.1.stored e he) _ _⟩

/-- Every entry that a turn hands out is returned. -/
theorem HandsOut.returned {now : ℚ} {e : CacheEntry} {madeAt : ℚ}
    (h : HandsOut rt s now e madeAt) (config : RecursiveConfig) : ∃ start a,
      (s.step rt config (.turn now)).2 = some (.returned start a) ∧ a.entry = e ∧
        a.madeAt = madeAt := by
  have hstep {job : Job} (hhead : s.jobs.head? = some job) : (s.step rt config (.turn now)).2 =
      (Adapter.run rt config { s with jobs := s.jobs.tail } now job).2 := by
    obtain ⟨jobs, hjobs⟩ := List.head?_eq_some_iff.1 hhead
    simp only [Adapter.step, hjobs, List.tail_cons]
  cases h with
  | hit hjob hq he hfresh =>
    rw [hstep hjob]
    exact ⟨now, _, resolveRecursive_hit hq he hfresh, rfl, rfl⟩
  | settled hjob =>
    rw [hstep hjob]
    exact ⟨_, _, rfl, rfl, rfl⟩
  | stale hjob he hwindow =>
    rw [hstep hjob]
    exact ⟨_, _, congrArg some (delivered_none_stale he hwindow), rfl, rfl⟩

theorem HandsOut.stored (h : s.Sound rt config) {now : ℚ} {e : CacheEntry} {madeAt : ℚ}
    (hout : HandsOut rt s now e madeAt) : Stored rt config e := by
  obtain ⟨start, a, ho, rfl, -⟩ := hout.returned config
  exact (handsOut_of_returned h ho).2.stored

end Sound

end Ddns.Gateway
