import Ddns.Gateway.ResolveSteps
import Mathlib.Tactic.Linarith

/-!
# The lifetime of a cached response

An upstream answer is to be served from the cache for as long as its smallest ttl, between half a
minute and `CACHE_TTL_MAX_S`. The lifetime is taken from the first record instead, and counts from the
time at which the nodes have confirmed the answer. In every run no entry is served for too long
exactly if each one that is stored fits (`lifetime_iff`).
-/

namespace Ddns.Gateway.Resolve

variable {rt : Runtime} {config : Config} {s : State} {i : Input}

/-! ## The law -/

/-- The smallest ttl of the records, a minute when there are none. -/
def smallestTtl (records : List ResolveRecord) : ℚ :=
  ((records.filterMap ResolveRecord.ttl).min?).getD 60

/-- The seconds for which an answer may be served. -/
def lifetime (config : Config) (records : List ResolveRecord) : ℚ :=
  max 30 (min config.cacheTtlMaxS (smallestTtl records))

/-- No entry is served after its lifetime, counted from the time its records were fetched. -/
def ServedWhileFresh (config : Config) (s : State) : Prop :=
  ∀ key e, s.cache.get key = some e → ∀ t p, (cacheGet s.cache key t).2 = some p →
    ((t - e.fetchedAt : ℤ) : ℚ) ≤ 1000 * lifetime config p.records

/-! ## The condition -/

/-- `records[0].ttl || 60`, a minute when there are no records. -/
def firstTtl : List ResolveRecord → ℚ
  | [] => 60
  | r :: _ => if r.ttl.getD 0 = 0 then 60 else r.ttl.getD 0

/-- Stored `delay` milliseconds after they were fetched, the records are fresh for these seconds. -/
def FreshFor (config : Config) (delay : ℤ) (records : List ResolveRecord) (seconds : ℚ) : Prop :=
  delay + 1000 * seconds ≤ 1000 * lifetime config records

/-- The records are fresh for as long as the clamp, or for half a minute and as long as the first ttl
or `CACHE_TTL_MAX_S`. -/
def Fits (config : Config) (clamp : ℕ) (delay : ℤ) (records : List ResolveRecord) : Prop :=
  0 < clamp ∧ FreshFor config delay records clamp ∨
  records = [] ∧ FreshFor config delay records 60 ∨
  records ≠ [] ∧ FreshFor config delay records 30 ∧
    (FreshFor config delay records config.cacheTtlMaxS ∨
      FreshFor config delay records (firstTtl records))

/-- What the step stores fits. -/
structure StoresFitting (rt : Runtime) (config : Config) (s : State) (i : Input) : Prop where
  doh : ∀ k name now answers, i = .dohDone k now (.ok answers) →
    s.pending[k]? = some (.upstream name) → config.nodeAggregatorEnabled = false →
    Fits config (s.atDoh config k now).clamp 0 ((dohRecords answers).map DohRecord.toRecord)
  nodes : ∀ k key ttl payload fetchedAt clamp now asked, i = .nodesDone k now (.ok asked) →
    s.pending[k]? = some (.nodes key ttl payload fetchedAt clamp) →
    (NodeQuorum.verifyWithNodes rt.localeCompare config.nodeQuorum
      (payload.records.map (ResolveRecord.toNode rt)) asked).ok = true →
    Fits config clamp (now - fetchedAt) payload.records

/-! ## Lifetimes -/

theorem freshFor_min_iff {delay : ℤ} {records : List ResolveRecord} {a b : ℚ} :
    FreshFor config delay records (min a b) ↔
      FreshFor config delay records a ∨ FreshFor config delay records b := by
  unfold FreshFor
  rcases le_total a b with h | h
  · rw [min_eq_left h]
    exact ⟨.inl, fun h' => h'.elim id fun h' => by linarith⟩
  · rw [min_eq_right h]
    exact ⟨.inr, fun h' => h'.elim (fun h' => by linarith) id⟩

theorem freshFor_max_iff {delay : ℤ} {records : List ResolveRecord} {a b : ℚ} :
    FreshFor config delay records (max a b) ↔
      FreshFor config delay records a ∧ FreshFor config delay records b := by
  unfold FreshFor
  rcases le_total a b with h | h
  · rw [max_eq_right h]
    exact ⟨fun h' => ⟨by linarith, h'⟩, And.right⟩
  · rw [max_eq_left h]
    exact ⟨fun h' => ⟨h', by linarith⟩, And.left⟩

theorem cast_dohTtl (config : Config) (r : DohRecord) (rs : List DohRecord) :
    (dohTtl config (r :: rs) : ℚ) =
      max 30 (min (config.cacheTtlMaxS : ℚ) (firstTtl ((r :: rs).map DohRecord.toRecord))) := by
  have hfirst : firstTtl ((r :: rs).map DohRecord.toRecord) =
      ((if r.ttl = 0 then 60 else r.ttl : ℤ) : ℚ) := by
    by_cases hzero : r.ttl = 0
    · simp [firstTtl, DohRecord.toRecord, hzero]
    · simp [firstTtl, DohRecord.toRecord, hzero]
  rw [hfirst, dohTtl]
  push_cast
  rfl

theorem freshFor_dohTtl_iff {delay : ℤ} {records : List DohRecord}
    {rs : List ResolveRecord} (hrs : rs = records.map DohRecord.toRecord) :
    FreshFor config delay rs (dohTtl config records) ↔
      rs = [] ∧ FreshFor config delay rs 60 ∨ rs ≠ [] ∧ FreshFor config delay rs 30 ∧
        (FreshFor config delay rs config.cacheTtlMaxS ∨ FreshFor config delay rs (firstTtl rs)) := by
  cases records with
  | nil =>
    subst hrs
    have hsixty : ((dohTtl config [] : ℤ) : ℚ) = 60 := by norm_num [dohTtl]
    simp [hsixty]
  | cons r records =>
    have hne : rs ≠ [] := by
      rw [hrs]
      exact List.cons_ne_nil _ _
    rw [cast_dohTtl, ← hrs, freshFor_max_iff, freshFor_min_iff]
    simp [hne]

/-- What the handler stores is fresh for its ttl exactly if it fits. -/
theorem freshFor_effectiveTtl_iff {clamp : ℕ} {delay : ℤ} {records : List DohRecord}
    {rs : List ResolveRecord} (hrs : rs = records.map DohRecord.toRecord) :
    FreshFor config delay rs (effectiveTtl clamp (dohTtl config records)) ↔
      Fits config clamp delay rs := by
  unfold Fits effectiveTtl
  split
  · rename_i hclamp
    rw [Int.cast_min, freshFor_min_iff, freshFor_dohTtl_iff hrs, or_comm, Int.cast_natCast]
    exact or_congr_left (and_iff_right hclamp).symm
  · rename_i hclamp
    rw [freshFor_dohTtl_iff hrs]
    exact (or_iff_right fun h => hclamp h.1).symm

/-- Without a clamp and a delay, records fit unless the first ttl and `CACHE_TTL_MAX_S` are greater
than the smallest ttl and half a minute. -/
theorem fits_now_iff {records : List ResolveRecord} (hne : records ≠ []) :
    Fits config 0 0 records ↔ (config.cacheTtlMaxS : ℚ) ≤ max 30 (smallestTtl records) ∨
      firstTtl records ≤ max 30 (smallestTtl records) := by
  have hfresh (seconds : ℚ) :
      FreshFor config 0 records seconds ↔ seconds ≤ lifetime config records := by
    unfold FreshFor
    constructor <;> intro h <;> push_cast at * <;> linarith
  simp only [Fits, hfresh, hne, ne_eq, not_false_eq_true, true_and, false_and, false_or,
    lt_irrefl]
  simp only [lifetime, le_max_iff, le_min_iff, le_refl, true_or, true_and]
  constructor
  · rintro ((h | h) | h | ⟨-, h⟩)
    · exact .inl (.inl h)
    · exact .inl (.inr h)
    · exact .inr (.inl h)
    · exact .inr (.inr h)
  · rintro ((h | h) | h | h)
    · exact .inl (.inl h)
    · exact .inl (.inr h)
    · exact .inr (.inl h)
    · rcases le_total (config.cacheTtlMaxS : ℚ) (smallestTtl records) with hle | hle
      · exact .inl (.inr hle)
      · exact .inr (.inr ⟨h.trans hle, h⟩)

/-! ## Steps -/

/-- The entry expires within its lifetime. -/
def CacheEntry.Fresh (config : Config) (e : CacheEntry) : Prop :=
  ((e.expiresAt - e.fetchedAt : ℤ) : ℚ) ≤ 1000 * lifetime config e.payload.records

theorem servedWhileFresh_iff :
    ServedWhileFresh config s ↔ ∀ key e, s.cache.get key = some e → e.Fresh config := by
  constructor
  · intro h key e hget
    exact h key e hget _ e.payload (cacheGet_eq_some_iff.2 ⟨e, hget, le_rfl, rfl⟩)
  · intro h key e hget t p hserved
    obtain ⟨e', hget', hle, rfl⟩ := cacheGet_eq_some_iff.1 hserved
    obtain rfl := Option.some.inj (hget.symm.trans hget')
    refine le_trans ?_ (h key e hget)
    exact_mod_cast sub_le_sub_right hle e.fetchedAt

theorem get_of_fills {key : JsText} {e : CacheEntry} (h : Fills rt config s i key e) :
    (step rt config s i).1.cache.get key = some e := by
  cases h with
  | doh now answers hstage halone =>
    simp only [step, hstage, State.fromDoh, halone, Bool.false_eq_true, if_false]
    exact FinMap.get_set_self _ _ _
  | nodes now hstage hok =>
    simp only [step, hstage, State.fromNodes, hok, if_true]
    exact FinMap.get_set_self _ _ _

/-- A step keeps the law exactly if what it stores is fresh until it expires. -/
theorem servedWhileFresh_step (h : ServedWhileFresh config s) :
    ServedWhileFresh config (step rt config s i).1 ↔
      ∀ key e, Fills rt config s i key e → e.Fresh config := by
  rw [servedWhileFresh_iff] at h ⊢
  constructor
  · exact fun hafter key e hfills => hafter key e (get_of_fills hfills)
  · exact fun hfills key e hget => (get_step hget).elim (h key e) (hfills key e)

theorem fresh_iff_freshFor {now ttl fetchedAt : ℤ} {payload : ResolveResponse} {n : ℕ} :
    (⟨now + ttl * 1000, payload, fetchedAt, n⟩ : CacheEntry).Fresh config ↔
      FreshFor config (now - fetchedAt) payload.records ttl := by
  unfold CacheEntry.Fresh FreshFor
  push_cast
  constructor <;> intro h <;> linarith

theorem fills_fresh_iff (hinv : Inv rt config s) :
    (∀ key e, Fills rt config s i key e → e.Fresh config) ↔ StoresFitting rt config s i := by
  constructor
  · intro h
    constructor
    · rintro k name now answers rfl hstage halone
      have hfresh := fresh_iff_freshFor.1 (h _ _ (.doh now answers hstage halone))
      rw [sub_self, records_dohPayload] at hfresh
      exact (freshFor_effectiveTtl_iff rfl).1 hfresh
    · rintro k key ttl payload fetchedAt clamp now asked rfl hstage hok
      obtain ⟨name, records, rfl, rfl⟩ := hinv.made _ (List.mem_of_getElem? hstage)
      have hfresh := fresh_iff_freshFor.1 (h _ _ (.nodes now hstage hok))
      exact (freshFor_effectiveTtl_iff (records_dohPayload name records)).1 hfresh
  · intro h key e hfills
    cases hfills with
    | @doh k name now answers hstage halone =>
      have hfits := (freshFor_effectiveTtl_iff rfl).2 (h.doh k name now answers rfl hstage halone)
      rw [fresh_iff_freshFor, sub_self, records_dohPayload]
      exact hfits
    | @nodes k key ttl fetchedAt payload clamp now asked hstage hok =>
      have hfits := h.nodes _ _ _ _ _ _ _ _ rfl hstage hok
      obtain ⟨name, records, rfl, rfl⟩ := hinv.made _ (List.mem_of_getElem? hstage)
      exact fresh_iff_freshFor.2
        ((freshFor_effectiveTtl_iff (records_dohPayload name records)).2 hfits)

/-- **In every run no entry is served after its lifetime exactly if every one that is stored
fits.** -/
theorem lifetime_iff (rt : Runtime) (config : Config) (now : ℤ) (inputs : List Input) :
    Runs.Always (step rt config) (ServedWhileFresh config) (.start now) inputs ↔
      Runs.Each (step rt config) (StoresFitting rt config) (.start now) inputs :=
  Runs.always_iff_each (J := Inv rt config) (fun _ i h _ _ => h.step i)
    (fun _ _ hinv hfresh => (servedWhileFresh_step hfresh).trans (fills_fresh_iff hinv))
    (inv_start rt config now) (fun _ _ h => nomatch h) inputs

/-! ## An alias with a longer ttl than its address -/

def aliasAnswers : List DohAnswer :=
  [⟨['C', 'N', 'A', 'M', 'E'], some ['b'], 300⟩, ⟨['A'], some ['1', '.', '1', '.', '1', '.', '1'], 60⟩]

/-- The address may be served for a minute, and is served for five. -/
theorem lifetime_broken : ¬∀ rt config now inputs,
    Runs.Always (step rt config) (ServedWhileFresh config) (.start now) inputs := by
  intro h
  obtain ⟨-, hbefore, hafter⟩ := h (exampleRuntimeWith id) exampleConfig 0
    [.request 0 ⟨['a'], none, .notFound⟩, .dohDone 0 0 (.ok aliasAnswers)]
  have hinv := (inv_start (exampleRuntimeWith id) exampleConfig 0).step
    (.request 0 ⟨['a'], none, .notFound⟩)
  have hfits := ((fills_fresh_iff hinv).1 ((servedWhileFresh_step hbefore).1 hafter)).doh 0 ['a'] 0
    aliasAnswers rfl rfl rfl
  rw [show (State.atDoh _ _ _ _).clamp = 0 by decide +kernel, fits_now_iff (by decide +kernel)] at hfits
  exact absurd hfits (by decide +kernel)

end Ddns.Gateway.Resolve
