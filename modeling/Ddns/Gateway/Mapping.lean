import Ddns.Gateway.Ttl

/-!
# From upstream answers to responses

What the gateway answers a question with, next to what the upstreams said: the addresses should
belong to the question name, or to one that the response links it to, and the response code should be
that of the upstream. `mappingLaw_iff` says for which upstream answers it is so. A response has no
CNAME records, no addresses are answered as NXDOMAIN, and without addresses `selectBest` fails.
-/

namespace Ddns.Gateway

open Runs

/-! ## The law -/

def dnsSuffix : JsText := ['.', 'd', 'n', 's']

/-- A query that the recursive resolver is asked for. -/
structure IcannQuery (rt : DohRuntime) where
  query : DohQuery
  question : Question
  qtype : Qtype
  first : query.questions.head? = some question
  type_eq : normalizeDnsQtype rt.toRuntime question.type = some qtype
  name_ne : question.name ≠ []
  icann : ¬dnsSuffix <:+ normalizeNameForHash rt.toRuntime question.name

section Law

variable {rt : DohRuntime} (config : RecursiveConfig) (q : IcannQuery rt) (replies : List TimedReply)

/-- The name with which the resolver is called. -/
def IcannQuery.name : JsText := normalizeNameForHash rt.toRuntime q.question.name

/-- The name that the upstreams are asked for. -/
def IcannQuery.qname : JsText := normalizeNameForHash rt.toRuntime q.name

/-- The question name, as the names of records are written. -/
def IcannQuery.host : JsText := normalizeHost rt.toRuntime q.qname

def IcannQuery.upstreams : List UpstreamResult :=
  queryUpstreams rt.toRuntime config.urls q.qname q.qtype replies

def IcannQuery.response (out : Output) : DohResponse := handleDohWireQuery rt q.query out

/-- What the resolver returns for a query out of some replies, at once or later. -/
inductive Returns : Output → Prop where
  | failed (h : selectBest config.toSelectConfig (q.upstreams config replies) = none) :
    Returns .thrown
  | answered {chosen : Chosen} {fetchedAt start : ℚ} {a : Answer}
    (h : selectBest config.toSelectConfig (q.upstreams config replies) = some chosen)
    (he : a.entry = entryOf config q.qname q.qtype chosen fetchedAt) : Returns (.returned start a)

/-- The names that some records link a name to. -/
inductive Linked (rt : DohRuntime) (records : List WireAnswer) (name : JsText) : JsText → Prop where
  | itself : Linked rt records name name
  | cname {r : WireAnswer} (hr : r ∈ records) (htype : r.type.text = cnameText)
    (h : Linked rt records name r.name) :
    Linked rt records name (normalizeHost rt.toRuntime r.data)

/-- The upstreams that answer say that the name has no addresses. -/
structure NoData (upstreams : List UpstreamResult) : Prop where
  noError : ∃ u ∈ upstreams, u.status = .noError
  noNxDomain : ∀ u ∈ upstreams, u.status ≠ .nxDomain
  noAddresses : ∀ u ∈ upstreams, u.status = .noError → u.answers = []

/-- **The mapping** of the upstream answers to what is responded out of them. -/
structure MappingLaw : Prop where
  linked : ∀ out, Returns config q replies out → ∀ r ∈ (q.response out).answers,
    Linked rt (q.response out).answers q.host r.name
  nxDomain : ∀ out, Returns config q replies out → (q.response out).rcode = 3 →
    ∃ chosen, selectBest config.toSelectConfig (q.upstreams config replies) = some chosen ∧
      chosen.chosen.status = .nxDomain
  noData : NoData (q.upstreams config replies) → ∀ out, Returns config q replies out →
    (q.response out).rcode = 0 ∧ (q.response out).answers = []

/-- The record is an address of the kind that is asked for. -/
def IcannQuery.IsAddress (r : DnsRecord) : Prop := rt.isIP r.data = q.qtype.ipKind

/-- The upstream gives addresses, all of the question name itself. -/
structure Plain (u : UpstreamResult) : Prop where
  address : ∃ r ∈ u.answers, q.IsAddress r
  owned : ∀ r ∈ u.answers, q.IsAddress r → r.name = q.host

end Law

/-! ## Responses -/

section Responses

variable {rt : DohRuntime} {config : RecursiveConfig} {q : IcannQuery rt}
  {replies : List TimedReply} {chosen : Chosen} {a : Answer} {start fetchedAt : ℚ}

/-- The records of a response link a name to no other name. -/
theorem linked_iff {records : List WireAnswer} {name name' : JsText} :
    Linked rt records name name' ↔ name' = name := by
  constructor
  · intro h
    cases h with
    | itself => rfl
    | @cname r hr htype h =>
      cases hqtype : r.type with
      | a =>
        rw [hqtype] at htype
        exact absurd htype (by decide)
      | aaaa =>
        rw [hqtype] at htype
        exact absurd htype (by decide)
  · rintro rfl
    exact .itself

theorem response_thrown : (q.response .thrown).rcode = 2 ∧ (q.response .thrown).answers = [] := by
  simp [IcannQuery.response, handleDohWireQuery, q.first, q.type_eq, q.name_ne]

theorem response_returned : (q.response (.returned start a)).rcode =
      (resolveDohAnswers rt q.qtype a.result).1 ∧
    (q.response (.returned start a)).answers = (resolveDohAnswers rt q.qtype a.result).2 := by
  simp [IcannQuery.response, handleDohWireQuery, q.first, q.type_eq, q.name_ne]

/-! ## What the upstreams gave -/

theorem type_of_mem_usableRecords {rt : Runtime} {qname : JsText} {qtype : Qtype}
    {records : List DnsRecord} {r : DnsRecord} (h : r ∈ usableRecords rt qname qtype records) :
    r.type = qtype.text := by
  unfold usableRecords at h
  simp only at h
  split at h
  · exact (of_decide_eq_true (List.mem_filter.1 h).2).2
  · exact (of_decide_eq_true (List.mem_filter.1 h).2).1

/-- The addresses of an upstream are of the type that is asked for. -/
theorem type_of_mem_answers {u : UpstreamResult} (hu : u ∈ q.upstreams config replies)
    {r : DnsRecord} (hr : r ∈ u.answers) : r.type = q.qtype.text := by
  obtain ⟨⟨url, i⟩, -, rfl⟩ := List.mem_map.1 hu
  revert hr
  simp only [queryOneUpstream]
  split
  · unfold normalizeAndExtract
    simp only
    split
    · intro hr
      cases hr
    · split
      · intro hr
        cases hr
      · exact type_of_mem_usableRecords
  · intro hr
    cases hr
  · intro hr
    cases hr

theorem ips_eq_nil {u : UpstreamResult} (hu : u ∈ q.upstreams config replies)
    (hanswers : u.answers = []) : u.ips = [] := by
  obtain ⟨⟨url, i⟩, -, rfl⟩ := List.mem_map.1 hu
  revert hanswers
  simp only [queryOneUpstream]
  split
  · unfold normalizeAndExtract
    simp only
    split
    · exact fun _ => rfl
    · split
      · exact fun _ => rfl
      · intro hnil
        simp only at hnil ⊢
        rw [hnil]
        rfl
  · exact fun _ => rfl
  · exact fun _ => rfl

theorem NoData.selectBest_eq_none (h : NoData (q.upstreams config replies)) :
    selectBest config.toSelectConfig (q.upstreams config replies) = none := by
  apply Gateway.selectBest_eq_none
  · rintro u hu ⟨hnoError, hips⟩
    exact hips (ips_eq_nil hu (h.noAddresses u hu hnoError))
  · exact h.noNxDomain

/-- The records that are kept of a choice. -/
theorem entryOf_answers (hstatus : chosen.status = .noError) :
    (entryOf config q.qname q.qtype chosen fetchedAt).answers = chosen.chosen.answers := if_pos hstatus

theorem resolveDohAnswers_nxDomain {out : RecursiveResolveResult} (h : out.status = .nxDomain)
    (qtype : Qtype) : resolveDohAnswers rt qtype out = (3, []) := if_pos h

/-- The response code of addresses. -/
theorem resolveDohAnswers_rcode {out : RecursiveResolveResult} (h : out.status = .noError)
    (qtype : Qtype) : (resolveDohAnswers rt qtype out).1 = 3 ↔
      ∀ r ∈ out.answers, r.type = qtype.text → rt.isIP r.data ≠ qtype.ipKind := by
  have hne : out.status ≠ .nxDomain := by simp [h]
  unfold resolveDohAnswers
  rw [if_neg hne]
  simp only [ne_eq, List.map_eq_nil_iff, List.filter_eq_nil_iff, decide_eq_true_eq, not_and]
  split
  · next hsome => exact iff_of_false (by decide) hsome
  · next hnone => exact iff_of_true rfl (not_not.1 hnone)

/-- The answer that is handed out when the replies have come. -/
def firstAnswer (config : RecursiveConfig) (q : IcannQuery rt) (chosen : Chosen) (now : ℚ) : Answer :=
  ⟨q.qname, entryOf config q.qname q.qtype chosen now, now, chosen.ttlS, .upstream⟩

/-- A choice of addresses is answered as the addresses that it has. -/
theorem returned_of_noError (hstatus : chosen.status = .noError)
    (he : a.entry = entryOf config q.qname q.qtype chosen fetchedAt) :
    a.result.status = .noError ∧ a.result.answers = chosen.chosen.answers := by
  have hsource : a.entry.sourceStatus = .noError := by rw [he]; exact hstatus
  have hanswers : a.entry.answers = chosen.chosen.answers := by
    rw [he]
    exact entryOf_answers hstatus
  exact ⟨hsource, hanswers⟩

theorem returned_of_nxDomain (hstatus : chosen.status = .nxDomain)
    (he : a.entry = entryOf config q.qname q.qtype chosen fetchedAt) :
    a.result.status = .nxDomain := by
  have hsource : a.entry.sourceStatus = .nxDomain := by rw [he]; exact hstatus
  exact hsource

theorem chosen_mem (h : Selected config.toSelectConfig (q.upstreams config replies) chosen) :
    chosen.chosen ∈ q.upstreams config replies := by
  cases h with
  | addresses confidence hu hconsidered => exact (hconsidered _ hu).1
  | nxDomain confidence hu => exact hu

/-- What a law that holds says of an upstream that is chosen for its addresses. -/
theorem MappingLaw.plain (h : MappingLaw config q replies)
    (hbest : selectBest config.toSelectConfig (q.upstreams config replies) = some chosen)
    (hchosen : chosen.chosen.status = .noError) : Plain q chosen.chosen := by
  have hselected := selected_of_selectBest hbest
  have hreturns : Returns config q replies (.returned 0 (firstAnswer config q chosen 0)) :=
    .answered hbest rfl
  obtain ⟨hstatus, hanswers⟩ :=
    returned_of_noError (a := firstAnswer config q chosen 0) (hselected.status_eq.symm.trans hchosen) rfl
  constructor
  · by_contra hnone
    have hrcode : (q.response (.returned 0 (firstAnswer config q chosen 0))).rcode = 3 := by
      rw [response_returned.1, resolveDohAnswers_rcode hstatus, hanswers]
      exact fun r hr _ hip => hnone ⟨r, hr, hip⟩
    obtain ⟨chosen', hbest', hnx⟩ := h.nxDomain _ hreturns hrcode
    obtain rfl : chosen = chosen' := Option.some.inj (hbest.symm.trans hbest')
    rw [hchosen] at hnx
    cases hnx
  · intro r hr hip
    have hwire : wireAnswer q.qtype chosen.ttlS r ∈
        (q.response (.returned 0 (firstAnswer config q chosen 0))).answers := by
      rw [response_returned.2]
      have hr' : r ∈ (firstAnswer config q chosen 0).result.answers := by rwa [hanswers]
      exact wireAnswer_mem_of_noError hstatus hr' (type_of_mem_answers (chosen_mem hselected) hr) hip
    exact linked_iff.1 (h.linked _ hreturns _ hwire)

/-- **When responses are what the upstreams said**: unless these say that there are no addresses, if
the upstream that is chosen gives addresses of the question name itself. -/
theorem mappingLaw_iff (rt : DohRuntime) (config : RecursiveConfig) (q : IcannQuery rt)
    (replies : List TimedReply) : MappingLaw config q replies ↔
      ¬NoData (q.upstreams config replies) ∧
        ∀ chosen, selectBest config.toSelectConfig (q.upstreams config replies) = some chosen →
          chosen.chosen.status = .noError → Plain q chosen.chosen := by
  constructor
  · intro h
    refine ⟨fun hno => ?_, fun chosen hbest hchosen => h.plain hbest hchosen⟩
    have hzero := (h.noData hno _ (.failed hno.selectBest_eq_none)).1
    rw [response_thrown.1] at hzero
    cases hzero
  · rintro ⟨hdata, hplain⟩
    refine ⟨fun out hout r hr => ?_, fun out hout hrcode => ?_, fun hno => absurd hno hdata⟩
    · apply linked_iff.2
      cases hout with
      | failed hbest =>
        rw [response_thrown.2] at hr
        cases hr
      | @answered chosen fetchedAt start a hbest he =>
        rw [response_returned.2] at hr
        obtain ⟨r', hr', -, hip, rfl⟩ := mem_resolveDohAnswers hr
        have hselected := selected_of_selectBest hbest
        cases hstatus : chosen.status with
        | noError =>
          rw [(returned_of_noError hstatus he).2] at hr'
          exact (hplain chosen hbest (hselected.status_eq.trans hstatus)).owned r' hr' hip
        | nxDomain =>
          rw [resolveDohAnswers_nxDomain (returned_of_nxDomain hstatus he)] at hr
          cases hr
        | error => cases hselected <;> cases hstatus
    · cases hout with
      | failed hbest =>
        rw [response_thrown.1] at hrcode
        cases hrcode
      | @answered chosen fetchedAt start a hbest he =>
        refine ⟨chosen, hbest, ?_⟩
        have hselected := selected_of_selectBest hbest
        rw [hselected.status_eq]
        cases hstatus : chosen.status with
        | nxDomain => rfl
        | error => cases hselected <;> cases hstatus
        | noError =>
          obtain ⟨hnoError, hanswers⟩ := returned_of_noError hstatus he
          have hchosen := hselected.status_eq.trans hstatus
          obtain ⟨r, hr, hip⟩ := (hplain chosen hbest hchosen).address
          rw [response_returned.1, resolveDohAnswers_rcode hnoError, hanswers] at hrcode
          exact absurd hip (hrcode r hr (type_of_mem_answers (chosen_mem hselected) hr))

/-! ## Runs -/

/-- An answer that a run hands out for the name and the type of a query is returned out of the replies
that its entry was made of. -/
theorem returns_of_turn {s : Adapter} (h : s.Sound rt.toRuntime config) {now : ℚ}
    (ho : (s.step rt.toRuntime config (.turn now)).2 = some (.returned start a))
    (hname : a.entry.qname = q.qname) (htype : a.entry.qtype = q.qtype) :
    ∃ replies, Returns config q replies (.returned start a) := by
  obtain ⟨qname, qtype, replies, chosen, fetchedAt, hbest, he⟩ := (handsOut_of_returned h ho).2.stored
  obtain rfl : qname = q.qname := by rw [← hname, he]; rfl
  obtain rfl : qtype = q.qtype := by rw [← htype, he]; rfl
  exact ⟨replies, .answered hbest he⟩

/-- A query is asked, its replies come, and nothing else happens. -/
def IcannQuery.alone (q : IcannQuery rt) (replies : List TimedReply) (now : ℚ) : List Input :=
  [.enqueue (.call q.name q.qtype.text), .turn now, .enqueue (.replied 0 replies true), .turn now,
    .turn now]

/-- What an adapter without a cache then returns. -/
theorem returns_of_alone (hupper : rt.toUpperCase q.qtype.text = q.qtype.text) (now : ℚ) :
    ∃ out, ((exec (Adapter.step rt.toRuntime config) .initial (q.alone replies now)).step
      rt.toRuntime config (.turn now)).2 = some out ∧ Returns config q replies out := by
  have hparse : parseQtype rt.toRuntime q.qtype.text = some q.qtype := by
    unfold parseQtype
    rw [hupper]
    cases q.qtype <;> rfl
  have hrun (out : Output) (hout : out = (selectBest config.toSelectConfig (queryUpstreams
      rt.toRuntime config.urls (normalizeNameForHash rt.toRuntime q.name) q.qtype replies)).elim
      .thrown fun chosen => .returned now (firstAnswer config q chosen now)) :
      ((exec (Adapter.step rt.toRuntime config) .initial (q.alone replies now)).step
        rt.toRuntime config (.turn now)).2 = some out := by
    -- The call starts a refresh and awaits it; the end of the refresh queues the two reactions.
    rw [hout]
    cases hbest : selectBest config.toSelectConfig (queryUpstreams rt.toRuntime config.urls
        (normalizeNameForHash rt.toRuntime q.name) q.qtype replies) <;>
      simp [IcannQuery.alone, Adapter.step, Adapter.run, Job.external, Adapter.resolveRecursive,
        hparse, Adapter.initial, Adapter.join, Adapter.shared, Adapter.startRefresh,
        Adapter.register, Adapter.updatePromise, Adapter.replied, Adapter.finishRefresh,
        Adapter.store, hbest, Adapter.conclude, Adapter.settle, delivered, firstAnswer,
        IcannQuery.qname, entryOf]
  cases hbest : selectBest config.toSelectConfig (q.upstreams config replies) with
  | none =>
    refine ⟨.thrown, hrun _ ?_, .failed hbest⟩
    unfold IcannQuery.upstreams IcannQuery.qname at hbest
    rw [hbest, Option.elim_none]
  | some chosen =>
    refine ⟨.returned now (firstAnswer config q chosen now), hrun _ ?_, .answered hbest rfl⟩
    unfold IcannQuery.upstreams IcannQuery.qname at hbest
    rw [hbest, Option.elim_some]

end Responses

/-! ## Example -/

/-- The addresses of `a.b` are asked for. -/
def exampleIcannQuery : IcannQuery exampleDohRuntime where
  query := ⟨0, [⟨exampleName, .number 1⟩]⟩
  question := ⟨exampleName, .number 1⟩
  qtype := .a
  first := rfl
  type_eq := rfl
  name_ne := by decide
  icann := by decide +kernel

/-- The upstream says that there are none. -/
def exampleNoData : List TimedReply := [⟨.json ⟨some 0, []⟩, 10⟩]

/-- The response is a failure of the server. -/
theorem exampleNoData_not_mappingLaw :
    ¬MappingLaw exampleConfig exampleIcannQuery exampleNoData := by
  intro h
  have hno : NoData (exampleIcannQuery.upstreams exampleConfig exampleNoData) :=
    ⟨by decide +kernel, by decide +kernel, by decide +kernel⟩
  have hnone : selectBest exampleConfig.toSelectConfig
      (exampleIcannQuery.upstreams exampleConfig exampleNoData) = none := by decide +kernel
  have hzero := (h.noData hno .thrown (.failed hnone)).1
  exact absurd hzero (by decide +kernel)

end Ddns.Gateway
