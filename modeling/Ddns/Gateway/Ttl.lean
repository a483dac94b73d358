import Ddns.Gateway.Entries
import Ddns.Gateway.Freshness

/-!
# DNS over HTTPS at the gateway

`handleDohWireQuery` answers the first question of a query with what the recursive resolver returned
for it. The query is decoded, and the response is what is encoded; names that end in `.dns` take
another way and are not answered here.
-/

namespace Ddns.Gateway

/-- `isIP` gives 4 or 6 for an address and 0 for other texts. -/
structure DohRuntime extends Runtime where
  isIP : JsText → ℕ

structure Question where
  name : JsText
  type : JsonType

structure DohQuery where
  id : ℕ
  questions : List Question

/-- A record of the answer section; its class is IN. -/
structure WireAnswer where
  type : Qtype
  name : JsText
  ttl : ℚ
  data : JsText
  deriving DecidableEq

structure DohResponse where
  id : ℕ
  questions : List Question
  rcode : ℕ
  answers : List WireAnswer
  ttlS : ℚ

def normalizeDnsQtype (rt : Runtime) : JsonType → Option Qtype
  | .number n => if n = 1 then some .a else if n = 28 then some .aaaa else none
  | .text t => parseQtype rt t
  | .absent => none

/-- The kind of address that a type asks for. -/
def Qtype.ipKind : Qtype → ℕ
  | .a => 4
  | .aaaa => 6

/-- `Number(value || a || b)` of numbers. -/
def firstNumber (value a b : ℚ) : ℚ := if value = 0 then orNumber (some a) b else value

/-- A record of a result as it is answered. -/
def wireAnswer (qtype : Qtype) (ttlS : ℚ) (r : DnsRecord) : WireAnswer where
  type := qtype
  name := r.name
  ttl := max 1 (min (firstNumber r.ttl ttlS 60) (orNumber (some ttlS) 60))
  data := r.data

/-- The response code and the answers for a result of the recursive resolver. -/
def resolveDohAnswers (rt : DohRuntime) (qtype : Qtype) (out : RecursiveResolveResult) :
    ℕ × List WireAnswer :=
  if out.status = .nxDomain then (3, [])
  else
    let answers := (out.answers.filter fun r => r.type = qtype.text ∧
      rt.isIP r.data = qtype.ipKind).map (wireAnswer qtype out.ttlS)
    (if answers ≠ [] then 0 else 3, answers)

/-- The least TTL of the answers. -/
def responseTtl (answers : List WireAnswer) : ℚ :=
  match answers.map fun answer => max 1 (orNumber (some answer.ttl) 60) with
  | [] => 0
  | ttl :: ttls => max 1 (minOf ttl ttls)

/-- `out` is what became of the call of the recursive resolver for the first question. -/
def handleDohWireQuery (rt : DohRuntime) (query : DohQuery) (out : Output) : DohResponse :=
  let refused (rcode : ℕ) : DohResponse := ⟨query.id, query.questions, rcode, [], 0⟩
  match query.questions.head? with
  | none => refused 4
  | some question =>
    match normalizeDnsQtype rt.toRuntime question.type with
    | none => refused 4
    | some qtype =>
      if question.name = [] then refused 4
      else
        match out with
        | .thrown => refused 2
        | .returned _ a =>
          let (rcode, answers) := resolveDohAnswers rt qtype a.result
          ⟨query.id, query.questions, rcode, answers, responseTtl answers⟩

end Ddns.Gateway

/-!
## Times to live

What is answered should live no longer than the records it was read from: those of the chosen
upstream that were used, the CNAME records that were followed included. `ttlLaw_iff` says when it
does. The stored TTL is the least one among the address records of the upstreams that were
considered, where zero is read as sixty, and the caps; the CNAME records do not count. A stale answer
has the TTL zero, which is read as sixty as well.
-/

namespace Ddns.Gateway

open Runs

/-! ## Least numbers -/

theorem minOf_le_iff {q x : ℚ} {qs : List ℚ} : minOf q qs ≤ x ↔ ∃ r ∈ q :: qs, r ≤ x := by
  induction qs generalizing q with
  | nil => simp [minOf]
  | cons r rs ih =>
    rw [minOf, min_le_iff, ih]
    simp only [List.mem_cons, exists_eq_or_imp]

theorem le_minOf {q x : ℚ} {qs : List ℚ} (h : ∀ r ∈ q :: qs, x ≤ r) : x ≤ minOf q qs := by
  induction qs generalizing q with
  | nil => exact h q List.mem_cons_self
  | cons r rs ih =>
    rw [minOf]
    exact le_min (h q List.mem_cons_self) (ih fun s hs => h s (List.mem_cons_of_mem q hs))

theorem minTtl_le_iff {records : List DnsRecord} (hne : records ≠ []) (fallback : ℚ)
    (hone : ∀ r ∈ records, 1 ≤ r.ttl) {x : ℚ} :
    minTtl records fallback ≤ x ↔ ∃ r ∈ records, r.ttl ≤ x := by
  obtain ⟨r, rs, rfl⟩ := List.exists_cons_of_ne_nil hne
  have hleast : 1 ≤ minOf r.ttl (rs.map DnsRecord.ttl) := by
    apply le_minOf
    intro q hq
    rw [← List.map_cons] at hq
    obtain ⟨s, hs, rfl⟩ := List.mem_map.1 hq
    exact hone s hs
  have heq : minTtl (r :: rs) fallback = minOf r.ttl (rs.map DnsRecord.ttl) := max_eq_right hleast
  rw [heq, minOf_le_iff, ← List.map_cons]
  simp only [List.mem_map, exists_exists_and_eq_and]

/-! ## The chosen upstream -/

section Chosen

variable {rt : Runtime} {config : SelectConfig} {urls : List JsText} {qname : JsText}
  {qtype : Qtype} {replies : List TimedReply} {results : List UpstreamResult}
  {u : UpstreamResult} {chosen : Chosen}

theorem one_le_ttl {json : JsonAnswer} {r : DnsRecord} (h : r ∈ recordsOf rt json) : 1 ≤ r.ttl := by
  obtain ⟨a, -, rfl⟩ := List.mem_map.1 (List.mem_filter.1 h).1
  exact le_max_left _ _

theorem usableRecords_subset (records : List DnsRecord) :
    usableRecords rt qname qtype records ⊆ records := by
  unfold usableRecords
  simp only
  split
  · exact List.filter_subset_self _
  · exact List.filter_subset_self _

/-- What an upstream that succeeded says: its TTL is the least one of its addresses. -/
structure Answers (u : UpstreamResult) : Prop where
  nonempty : u.answers ≠ []
  one_le : ∀ r ∈ u.answers, 1 ≤ r.ttl
  ttlS_le_iff : ∀ x, u.ttlS ≤ x ↔ ∃ r ∈ u.answers, r.ttl ≤ x

theorem answers_of_successful (hu : u ∈ queryUpstreams rt urls qname qtype replies)
    (hstatus : u.status = .noError) (hips : u.ips ≠ []) : Answers u := by
  obtain ⟨⟨url, i⟩, -, rfl⟩ := List.mem_map.1 hu
  revert hstatus hips
  simp only [queryOneUpstream]
  split
  · next json _ =>
    unfold normalizeAndExtract
    simp only
    split
    · intro h
      cases h
    · split
      · intro h
        cases h
      · intro _ hips
        have hne : usableRecords rt qname qtype (recordsOf rt json) ≠ [] := by
          intro hnil
          rw [hnil] at hips
          exact hips rfl
        have hone (r : DnsRecord) (hr : r ∈ usableRecords rt qname qtype (recordsOf rt json)) :
            1 ≤ r.ttl := one_le_ttl (usableRecords_subset _ hr)
        exact ⟨hne, hone, fun x => minTtl_le_iff hne 60 hone⟩
  · intro h
    cases h
  · intro h
    cases h

/-- The caps on the TTL of a choice. -/
def caps (config : SelectConfig) : Confidence → List ℚ
  | .high => [config.ttlCapS]
  | .medium => [config.ttlCapS, 120]
  | .low => [config.ttlCapS, 30]

theorem cap_le_iff (confidence : Confidence) {x : ℚ} :
    cap config confidence ≤ x ↔ ∃ q ∈ caps config confidence, q ≤ x := by
  cases confidence <;> simp [cap, caps]

theorem one_le_cap (confidence : Confidence) : 1 ≤ cap config confidence := by
  have hcap := config.one_le_ttlCapS
  cases confidence <;> simp [cap, hcap]

theorem baseTtl_le_iff (hu : u ∈ results) {x : ℚ} :
    baseTtl u results ≤ x ↔ ∃ v ∈ results, v.ttlS ≤ x := by
  obtain ⟨v, vs, rfl⟩ := List.exists_cons_of_ne_nil (List.ne_nil_of_mem hu)
  have heq : baseTtl u (v :: vs) = minOf v.ttlS (vs.map UpstreamResult.ttlS) := rfl
  rw [heq, minOf_le_iff, ← List.map_cons]
  simp only [List.mem_map, exists_exists_and_eq_and]

/-- What a choice of addresses is made of. -/
structure Picked (config : SelectConfig) (chosen : Chosen) : Prop where
  mem : chosen.chosen ∈ chosen.considered
  answers : ∀ u ∈ chosen.considered, Answers u
  ttlS_le_iff : ∀ x, chosen.ttlS ≤ x ↔
    (∃ u ∈ chosen.considered, u.ttlS ≤ x) ∨ ∃ q ∈ caps config chosen.confidence, q ≤ x

theorem Answers.one_le_ttlS (h : Answers u) : 1 ≤ u.ttlS := by
  obtain ⟨r, hr, hle⟩ := (h.ttlS_le_iff u.ttlS).1 le_rfl
  exact (h.one_le r hr).trans hle

/-- No records of an upstream without the name are used. -/
theorem not_used_of_nxDomain (hu : u ∈ queryUpstreams rt urls qname qtype replies)
    (hstatus : u.status = .nxDomain) : u.cnames = [] ∧ u.answers = [] := by
  obtain ⟨⟨url, i⟩, -, rfl⟩ := List.mem_map.1 hu
  revert hstatus
  simp only [queryOneUpstream]
  split
  · unfold normalizeAndExtract
    simp only
    split
    · exact fun _ => ⟨rfl, rfl⟩
    · split
      · exact fun _ => ⟨rfl, rfl⟩
      · intro h
        cases h
  · intro h
    cases h
  · intro h
    cases h

theorem selectBest_cases
    (h : selectBest config (queryUpstreams rt urls qname qtype replies) = some chosen) :
    chosen.status = .noError ∧ Picked config chosen ∨
      chosen.status = .nxDomain ∧ chosen.chosen.cnames = [] ∧ chosen.chosen.answers = [] := by
  cases selected_of_selectBest h with
  | nxDomain confidence hu hstatus => exact .inr ⟨rfl, not_used_of_nxDomain hu hstatus⟩
  | @addresses confidence u considered hu hconsidered =>
    have hanswers (v : UpstreamResult) (hv : v ∈ considered) : Answers v := by
      obtain ⟨hmem, hnoError, hips⟩ := hconsidered v hv
      exact answers_of_successful hmem hnoError hips
    have hbase : 1 ≤ baseTtl u considered := by
      obtain ⟨v, hv, hle⟩ := (baseTtl_le_iff hu).1 (le_refl (baseTtl u considered))
      exact (hanswers v hv).one_le_ttlS.trans hle
    have httl : max 1 (min (baseTtl u considered) (cap config confidence)) =
        min (baseTtl u considered) (cap config confidence) :=
      max_eq_right (le_min hbase (one_le_cap confidence))
    refine .inl ⟨rfl, hu, hanswers, fun x => ?_⟩
    simp only
    rw [httl, min_le_iff, baseTtl_le_iff hu, cap_le_iff]

end Chosen

/-! ## The law -/

/-- The TTLs of the records of an upstream that are used, as its JSON has them. -/
def usedTtls (u : UpstreamResult) : List ℚ :=
  (u.cnames ++ u.answers).map fun r => r.jsonTtl.getD 60

def leastTtl (u : UpstreamResult) : Option ℚ :=
  match usedTtls u with
  | [] => none
  | ttl :: ttls => some (minOf ttl ttls)

/-- How long an entry may live at `u`, if its records had the least TTL `m`. -/
def allowed (e : CacheEntry) (m u : ℚ) : ℚ := max 1 (m - (u - e.fetchedAt))

/-- What is handed out at `u` lives no longer than the records that it was read from. -/
def TtlOutput (rt : DohRuntime) (u : ℚ) : Output → Prop
  | .returned start a => ∀ m, leastTtl a.entry.chosen.chosen = some m →
      a.ttlS ≤ allowed a.entry m u ∧ ∀ (query : DohQuery),
        ∀ r ∈ (handleDohWireQuery rt query (.returned start a)).answers, r.ttl ≤ allowed a.entry m u
  | .thrown => True

/-- **Times to live** in the runs that start from a file. -/
def TtlLaw (rt : DohRuntime) (config : RecursiveConfig) (file : CacheFile rt.toRuntime config)
    (inputs : List Input) : Prop :=
  ∀ pre u post output, inputs = pre ++ .turn u :: post →
    (Adapter.step rt.toRuntime config (exec (Adapter.step rt.toRuntime config) file.load pre)
      (.turn u)).2 = some output → TtlOutput rt u output

/-- The TTLs that the code reads: those of the addresses of the upstreams that were considered, and
the caps. -/
def limits (config : SelectConfig) (chosen : Chosen) : List ℚ :=
  (chosen.considered.flatMap UpstreamResult.answers).map DnsRecord.ttl ++
    caps config chosen.confidence

/-- An entry that is handed out at `u` and was read at `madeAt` is short: some TTL that the code
reads is short enough, and no address of an expired entry had sixty seconds or more left if it may
not. -/
structure Short (rt : DohRuntime) (config : SelectConfig) (e : CacheEntry) (madeAt u m : ℚ) :
    Prop where
  limit : ∃ q ∈ limits config e.chosen, q ≤ madeAt - e.fetchedAt + allowed e m u
  expired : e.expiresAt ≤ madeAt → ∀ (qtype : Qtype), ∀ r ∈ e.answers, r.type = qtype.text →
    rt.isIP r.data = qtype.ipKind → min r.ttl 60 ≤ allowed e m u

/-- The entries that the next job hands out are short. -/
def ShortTurn (rt : DohRuntime) (config : RecursiveConfig) (s : Adapter) : Input → Prop
  | .turn u => ∀ e madeAt, HandsOut rt.toRuntime s u e madeAt →
      ∀ m, leastTtl e.chosen.chosen = some m → Short rt config.toSelectConfig e madeAt u m
  | .enqueue _ => True

section Outputs

variable {rt : DohRuntime} {config : RecursiveConfig} {s : Adapter} {e : CacheEntry} {a : Answer}
  {m u x : ℚ}

theorem Picked.ttlS_le_iff_limits {config : SelectConfig} {chosen : Chosen}
    (h : Picked config chosen) : chosen.ttlS ≤ x ↔ ∃ q ∈ limits config chosen, q ≤ x := by
  have haddresses : (∃ u ∈ chosen.considered, u.ttlS ≤ x) ↔
      ∃ q ∈ (chosen.considered.flatMap UpstreamResult.answers).map DnsRecord.ttl, q ≤ x := by
    simp only [List.mem_map, List.mem_flatMap]
    constructor
    · rintro ⟨v, hv, hle⟩
      obtain ⟨r, hr, hrx⟩ := ((h.answers v hv).ttlS_le_iff x).1 hle
      exact ⟨r.ttl, ⟨r, ⟨v, hv, hr⟩, rfl⟩, hrx⟩
    · rintro ⟨-, ⟨r, ⟨v, hv, hr⟩, rfl⟩, hrx⟩
      exact ⟨v, hv, ((h.answers v hv).ttlS_le_iff x).2 ⟨r, hr, hrx⟩⟩
  rw [h.ttlS_le_iff, haddresses, limits]
  simp only [List.mem_append, or_and_right, exists_or]

theorem one_le_allowed (e : CacheEntry) (m u : ℚ) : 1 ≤ allowed e m u := le_max_left _ _

theorem leastTtl_eq_none {v : UpstreamResult} (hcnames : v.cnames = []) (hanswers : v.answers = []) :
    leastTtl v = none := by
  simp [leastTtl, usedTtls, hcnames, hanswers]

/-- An entry with records was picked. -/
theorem Stored.picked (h : Stored rt.toRuntime config e) (hm : leastTtl e.chosen.chosen = some m) :
    Picked config.toSelectConfig e.chosen := by
  obtain ⟨qname, qtype, replies, chosen, now, hbest, rfl⟩ := h
  rcases selectBest_cases hbest with ⟨-, hpicked⟩ | ⟨-, hcnames, hanswers⟩
  · exact hpicked
  · exact absurd (hm.symm.trans (leastTtl_eq_none hcnames hanswers)) (by simp)

theorem Stored.one_le_ttl (h : Stored rt.toRuntime config e) : ∀ r ∈ e.answers, 1 ≤ r.ttl := by
  obtain ⟨qname, qtype, replies, chosen, now, hbest, rfl⟩ := h
  intro r hr
  rcases selectBest_cases hbest with ⟨hstatus, hpicked⟩ | ⟨hstatus, -, -⟩
  · simp only [entryOf, hstatus, if_true] at hr
    exact (hpicked.answers _ hpicked.mem).one_le r hr
  · simp [entryOf, hstatus] at hr

/-- The TTL of a result is short exactly if some TTL that the code reads is. -/
theorem Handed.ttlS_le_iff (h : Handed rt.toRuntime config a)
    (hm : leastTtl a.entry.chosen.chosen = some m) : a.ttlS ≤ allowed a.entry m u ↔
      ∃ q ∈ limits config.toSelectConfig a.entry.chosen,
        q ≤ a.madeAt - a.entry.fetchedAt + allowed a.entry m u := by
  have hone := one_le_allowed a.entry m u
  have hexp := h.stored.expiresAt
  have httl : a.entry.ttlS = a.entry.chosen.ttlS := by
    obtain ⟨_, _, _, _, _, -, heq⟩ := h.stored
    rw [heq]
    rfl
  rw [← (h.stored.picked hm).ttlS_le_iff_limits, h.ttlS, max_le_iff]
  constructor
  · rintro ⟨-, hle⟩
    linarith
  · intro hle
    exact ⟨by linarith, by linarith⟩

theorem wireAnswer_ttl_of_pos {qtype : Qtype} {ttlS : ℚ} {r : DnsRecord} (hr : 1 ≤ r.ttl)
    (hpos : 0 < ttlS) : (wireAnswer qtype ttlS r).ttl = max 1 (min r.ttl ttlS) := by
  have hne : r.ttl ≠ 0 := fun h => by rw [h] at hr; exact absurd hr (by decide)
  simp only [wireAnswer, firstNumber, orNumber, if_neg hne, if_neg hpos.ne']

/-- A TTL of zero is read as sixty. -/
theorem wireAnswer_ttl_zero {qtype : Qtype} {r : DnsRecord} (hr : 1 ≤ r.ttl) :
    (wireAnswer qtype 0 r).ttl = max 1 (min r.ttl 60) := by
  have hne : r.ttl ≠ 0 := fun h => by rw [h] at hr; exact absurd hr (by decide)
  simp only [wireAnswer, firstNumber, orNumber, if_neg hne, if_pos]

theorem Stored.noError_of_mem (h : Stored rt.toRuntime config e) {r : DnsRecord}
    (hr : r ∈ e.answers) : e.sourceStatus = .noError := by
  obtain ⟨qname, qtype, replies, chosen, now, -, rfl⟩ := h
  by_contra hne
  have hnone : (entryOf config qname qtype chosen now).answers = [] := if_neg hne
  rw [hnone] at hr
  cases hr

theorem mem_resolveDohAnswers {qtype : Qtype} {out : RecursiveResolveResult} {w : WireAnswer}
    (h : w ∈ (resolveDohAnswers rt qtype out).2) : ∃ r ∈ out.answers, r.type = qtype.text ∧
      rt.isIP r.data = qtype.ipKind ∧ w = wireAnswer qtype out.ttlS r := by
  unfold resolveDohAnswers at h
  split at h
  · cases h
  · obtain ⟨r, hr, rfl⟩ := List.mem_map.1 h
    obtain ⟨hmem, hcond⟩ := List.mem_filter.1 hr
    obtain ⟨htype, hip⟩ := of_decide_eq_true hcond
    exact ⟨r, hmem, htype, hip, rfl⟩

/-- The records of a response are addresses of the result, of the type that was asked for. -/
theorem mem_handleDohWireQuery {query : DohQuery} {start : ℚ} {w : WireAnswer}
    (h : w ∈ (handleDohWireQuery rt query (.returned start a)).answers) :
    ∃ qtype : Qtype, ∃ r ∈ a.entry.answers, r.type = qtype.text ∧ rt.isIP r.data = qtype.ipKind ∧
      w = wireAnswer qtype a.ttlS r := by
  unfold handleDohWireQuery at h
  simp only at h
  split at h
  · cases h
  · split at h
    · cases h
    · split at h
      · cases h
      · exact ⟨_, mem_resolveDohAnswers h⟩

/-- A question for a type. -/
def askFor : Qtype → DohQuery
  | .a => ⟨0, [⟨['.'], .number 1⟩]⟩
  | .aaaa => ⟨0, [⟨['.'], .number 28⟩]⟩

theorem handleDohWireQuery_askFor (qtype : Qtype) (start : ℚ) :
    (handleDohWireQuery rt (askFor qtype) (.returned start a)).answers =
      (resolveDohAnswers rt qtype a.result).2 := by
  cases qtype <;> rfl

/-- Every such address is answered. -/
theorem wireAnswer_mem_of_noError {out : RecursiveResolveResult} (h : out.status = .noError)
    {qtype : Qtype} {r : DnsRecord} (hr : r ∈ out.answers) (htype : r.type = qtype.text)
    (hip : rt.isIP r.data = qtype.ipKind) :
    wireAnswer qtype out.ttlS r ∈ (resolveDohAnswers rt qtype out).2 := by
  have hstatus : out.status ≠ .nxDomain := by simp [h]
  unfold resolveDohAnswers
  rw [if_neg hstatus]
  apply List.mem_map_of_mem
  exact List.mem_filter.2 ⟨hr, decide_eq_true ⟨htype, hip⟩⟩

theorem wireAnswer_mem (h : Stored rt.toRuntime config a.entry) {qtype : Qtype} {r : DnsRecord}
    (hr : r ∈ a.entry.answers) (htype : r.type = qtype.text) (hip : rt.isIP r.data = qtype.ipKind) :
    wireAnswer qtype a.ttlS r ∈ (resolveDohAnswers rt qtype a.result).2 :=
  wireAnswer_mem_of_noError (h.noError_of_mem hr : a.result.status = .noError) hr htype hip

/-- **What is handed out lives no longer than its records**, exactly if its entry is short. -/
theorem ttlOutput_iff (h : Handed rt.toRuntime config a) (start : ℚ) :
    TtlOutput rt u (.returned start a) ↔ ∀ m, leastTtl a.entry.chosen.chosen = some m →
      Short rt config.toSelectConfig a.entry a.madeAt u m := by
  refine forall₂_congr fun m hm => ?_
  have hone := one_le_allowed a.entry m u
  constructor
  · rintro ⟨httl, hwire⟩
    refine ⟨(h.ttlS_le_iff hm).1 httl, fun hexpired qtype r hr htype hip => ?_⟩
    have hzero : a.ttlS = 0 := by rw [h.ttlS, max_eq_left (sub_nonpos.2 hexpired)]
    have hmem := wireAnswer_mem h.stored hr htype hip
    rw [← handleDohWireQuery_askFor qtype start] at hmem
    have hle := hwire _ _ hmem
    rw [hzero, wireAnswer_ttl_zero (h.stored.one_le_ttl r hr)] at hle
    exact (le_max_right _ _).trans hle
  · rintro ⟨hlimit, hshort⟩
    have httl := (h.ttlS_le_iff hm).2 hlimit
    refine ⟨httl, fun query w hw => ?_⟩
    obtain ⟨qtype, r, hr, htype, hip, rfl⟩ := mem_handleDohWireQuery hw
    have hr1 := h.stored.one_le_ttl r hr
    rcases le_or_gt a.entry.expiresAt a.madeAt with hexpired | hfresh
    · have hzero : a.ttlS = 0 := by rw [h.ttlS, max_eq_left (sub_nonpos.2 hexpired)]
      rw [hzero, wireAnswer_ttl_zero hr1]
      exact max_le hone (hshort hexpired qtype r hr htype hip)
    · have hpos : 0 < a.ttlS := by
        rw [h.ttlS]
        exact lt_max_of_lt_right (sub_pos.2 hfresh)
      rw [wireAnswer_ttl_of_pos hr1 hpos]
      exact max_le hone ((min_le_right _ _).trans httl)

/-- **When nothing lives too long**: in a run whose jobs hand out short entries only. -/
theorem ttlLaw_iff (rt : DohRuntime) (config : RecursiveConfig)
    (file : CacheFile rt.toRuntime config) (inputs : List Input) : TtlLaw rt config file inputs ↔
      Each (Adapter.step rt.toRuntime config) (ShortTurn rt config) file.load inputs := by
  have hsound (pre : List Input) :
      (exec (Adapter.step rt.toRuntime config) file.load pre).Sound rt.toRuntime config :=
    sound_exec (sound_load file) pre
  constructor
  · intro h
    refine each_iff_initial.2 fun pre i post hsplit => ?_
    cases i with
    | enqueue job => trivial
    | turn u =>
      intro e madeAt hout
      obtain ⟨start, a, ho, rfl, rfl⟩ := hout.returned config
      obtain ⟨-, hhanded⟩ := handsOut_of_returned (hsound pre) ho
      exact (ttlOutput_iff hhanded start).1 (h pre u post _ hsplit ho)
  · intro h pre u post output hsplit ho
    have hturn := each_iff_initial.1 h pre (.turn u) post hsplit
    cases output with
    | thrown => trivial
    | returned start a =>
      obtain ⟨hout, hhanded⟩ := handsOut_of_returned (hsound pre) ho
      exact (ttlOutput_iff hhanded start).2 (hturn _ _ hout)

end Outputs

/-! ## Example -/

def exampleDohRuntime : DohRuntime where
  toRuntime := exampleRuntime
  isIP _ := 4

/-- The upstream says that its address may not be kept. -/
def exampleZeroReplies : List TimedReply :=
  [⟨.json ⟨some 0, [⟨exampleName, .number 1, exampleAddress, some 0⟩]⟩, 10⟩]

def exampleZero : List Input :=
  [exampleCall, .turn 0, .enqueue (.replied 0 exampleZeroReplies true), .turn 0, .turn 0]

def exampleZeroResult : UpstreamResult :=
  queryOneUpstream exampleRuntime ['u'] exampleName .a
    (.json ⟨some 0, [⟨exampleName, .number 1, exampleAddress, some 0⟩]⟩) 10

def exampleZeroEntry : CacheEntry :=
  entryOf exampleConfig exampleName .a
    ⟨.noError, .high, exampleZeroResult, [exampleZeroResult], 60⟩ 0

/-- It is handed out for sixty seconds. -/
theorem exampleZero_not_ttlLaw :
    ¬TtlLaw exampleDohRuntime exampleConfig (.empty _ _) (exampleZero ++ [.turn 0]) := by
  intro h
  have hout := h exampleZero 0 [] (.returned 0 ⟨exampleName, exampleZeroEntry, 0, 60, .upstream⟩) rfl
    (by decide +kernel)
  obtain ⟨httl, -⟩ := hout 0 (by decide +kernel)
  exact absurd httl (by decide +kernel)

end Ddns.Gateway
