import Ddns.Lib.JsonText
import Ddns.Lib.StableSort
import Mathlib.Data.List.Dedup

/-!
# The quorum of the nodes

With `NODE_AGGREGATOR_ENABLED` the gateway asks the nodes of a list for the records of a name, and
counts the answers whose records print as its own do. The records are sorted by a part of their text,
with `localeCompare` and a stable sort. An answer has the types that the source declares, with the
properties of a value in either order; a number is the text that prints it. A definition without a
docstring is the item of the source with the same words in its name.
-/

namespace Ddns.Gateway.NodeQuorum

/-! ## Records -/

inductive RecordValue where
  | text (t : JsText)
  /-- An object, in which `value` may come first. -/
  | object (key value : JsText) (valueFirst : Bool)
  deriving DecidableEq

structure ResolveRecord where
  type : JsText
  value : RecordValue
  ttl : Option { t : JsText // Json.isNumText t }
  deriving DecidableEq

def RecordValue.toJson : RecordValue → Json
  | .text t => .str t
  | .object key value false => .obj [(['k', 'e', 'y'], .str key), (['v', 'a', 'l', 'u', 'e'], .str value)]
  | .object key value true => .obj [(['v', 'a', 'l', 'u', 'e'], .str value), (['k', 'e', 'y'], .str key)]

/-- `String(value)` -/
def RecordValue.toText : RecordValue → JsText
  | .text t => t
  | .object _ _ _ => Json.objectText

/-- The object that is printed for a record; a property that is not there is not printed. -/
def ResolveRecord.toJson (r : ResolveRecord) : Json :=
  .obj ((['t', 'y', 'p', 'e'], .str r.type) :: (['v', 'a', 'l', 'u', 'e'], r.value.toJson) ::
    match r.ttl with
    | some ttl => [(['t', 't', 'l'], .num ttl.1)]
    | none => [])

def ResolveRecord.sortKey (r : ResolveRecord) : JsText := r.type ++ ':' :: r.value.toText

def sortRecords (localeCompare : JsText → JsText → Ordering) (records : List ResolveRecord) :
    List ResolveRecord :=
  records.insertionSort fun a b => (localeCompare a.sortKey b.sortKey).isLE

def normalizeRecords (localeCompare : JsText → JsText → Ordering) (records : List ResolveRecord) :
    JsText :=
  (Json.arr ((sortRecords localeCompare records).map ResolveRecord.toJson)).stringify

/-! ## The quorum -/

/-- What `verifyWithNodes` returns. -/
structure NodeResult where
  ok : Bool
  message : Option String
  quorum : Option ℤ
  matched : Option ℕ
  deriving DecidableEq

/-- An entry of the node list, with the records that it answers, if it does; an answer without
records has none. -/
abbrev Asked := JsText × Option (List ResolveRecord)

/-- The node answers records that print as the authoritative ones. -/
def matchesText (localeCompare : JsText → JsText → Ordering) (authoritative : List ResolveRecord)
    (e : Asked) : Bool :=
  match e.2 with
  | some records => normalizeRecords localeCompare records = normalizeRecords localeCompare authoritative
  | none => false

def verifyWithNodes (localeCompare : JsText → JsText → Ordering) (nodeQuorum : ℤ)
    (authoritative : List ResolveRecord) (asked : List Asked) : NodeResult :=
  if asked = [] then ⟨true, none, some 0, some 0⟩
  else
    let matched := asked.countP (matchesText localeCompare authoritative)
    let quorum := min nodeQuorum asked.length
    if (matched : ℤ) < quorum then
      ⟨false, some s!"quorum_failed:{matched}/{quorum}", none, none⟩
    else ⟨true, none, some quorum, some matched⟩

/-! ## The law -/

/-- What a record says: its type, its value and its ttl. -/
def ResolveRecord.content (r : ResolveRecord) :
    JsText × (JsText ⊕ JsText × JsText) × Option { t : JsText // Json.isNumText t } :=
  (r.type, (match r.value with
    | .text t => .inl t
    | .object key value _ => .inr (key, value)), r.ttl)

/-- The same records, in any order. -/
def SameRecords (records records' : List ResolveRecord) : Prop :=
  (records.map ResolveRecord.content).Perm (records'.map ResolveRecord.content)

instance (records records' : List ResolveRecord) : Decidable (SameRecords records records') :=
  inferInstanceAs (Decidable (List.Perm _ _))

/-- The node of an entry: the address that is fetched, without its last slash. -/
def normalizedBase (baseUrl : JsText) : JsText :=
  if baseUrl.getLast? = some '/' then baseUrl.dropLast else baseUrl

/-- The node answers the authoritative records. -/
def agrees (authoritative : List ResolveRecord) (e : Asked) : Bool :=
  e.2.any fun records => SameRecords records authoritative

/-- The nodes that answer the authoritative records, once for each entry of the list. -/
def agreeing (authoritative : List ResolveRecord) (asked : List Asked) : List JsText :=
  (asked.filter (agrees authoritative)).map fun e => normalizedBase e.1

/-- The answers are accepted exactly if enough distinct nodes answer the authoritative records. -/
def QuorumLaw (localeCompare : JsText → JsText → Ordering) (nodeQuorum : ℤ)
    (authoritative : List ResolveRecord) (asked : List Asked) : Prop :=
  (verifyWithNodes localeCompare nodeQuorum authoritative asked).ok = true ↔
    min nodeQuorum (asked.map fun e => normalizedBase e.1).dedup.length ≤
      (agreeing authoritative asked).dedup.length

/-- The records have texts as values, and those that tie in the sort are the same. -/
structure Comparable (localeCompare : JsText → JsText → Ordering)
    (authoritative : List ResolveRecord) : Prop where
  text : ∀ r ∈ authoritative, ∃ t, r.value = .text t
  tie : ∀ r ∈ authoritative, ∀ r' ∈ authoritative,
    localeCompare r.sortKey r'.sortKey = .eq → r = r'

section

variable {localeCompare : JsText → JsText → Ordering} {authoritative records : List ResolveRecord}
  {r r' : ResolveRecord}

/-! ## What is printed -/

theorem RecordValue.toJson_injective : Function.Injective RecordValue.toJson := by
  intro v w h
  rcases v with t | ⟨k, x, _ | _⟩ <;> rcases w with t' | ⟨k', x', _ | _⟩ <;>
    simp_all [RecordValue.toJson]

theorem toJson_injective : Function.Injective ResolveRecord.toJson := by
  rintro ⟨type, value, ttl⟩ ⟨type', value', ttl'⟩ h
  rw [ResolveRecord.toJson, ResolveRecord.toJson, Json.obj.injEq, List.cons.injEq,
    List.cons.injEq, Prod.mk.injEq, Prod.mk.injEq, Json.str.injEq] at h
  obtain ⟨⟨-, rfl⟩, ⟨-, hvalue⟩, hrest⟩ := h
  have hvalue' : value = value' := RecordValue.toJson_injective hvalue
  have httl : ttl = ttl' := by
    cases ttl <;> cases ttl' <;> simp_all [Subtype.ext_iff]
  rw [hvalue', httl]

theorem numeric_toJson (r : ResolveRecord) : r.toJson.numeric := by
  rcases r with ⟨type, value, ttl⟩
  rw [ResolveRecord.toJson, Json.numeric_obj]
  have hvalue : value.toJson.numeric := by
    rcases value with t | ⟨k, x, _ | _⟩ <;> rfl
  rcases ttl with _ | ⟨t, ht⟩
  · simp [hvalue, Json.numeric]
  · simp [hvalue, Json.numeric, ht]

/-- What is printed are the sorted records. -/
theorem normalizeRecords_eq_iff :
    normalizeRecords localeCompare records = normalizeRecords localeCompare authoritative ↔
      sortRecords localeCompare records = sortRecords localeCompare authoritative := by
  have hnumeric (l : List ResolveRecord) : (Json.arr (l.map ResolveRecord.toJson)).numeric := by
    rw [Json.numeric_arr]
    intro j hj
    obtain ⟨r, -, rfl⟩ := List.mem_map.1 hj
    exact numeric_toJson r
  constructor
  · intro h
    have hjson := Json.stringify_inj (hnumeric _) (hnumeric _) h
    rw [Json.arr.injEq] at hjson
    exact List.map_injective_iff.2 toJson_injective hjson
  · intro h
    rw [normalizeRecords, normalizeRecords, h]

theorem perm_of_normalizeRecords_eq
    (h : normalizeRecords localeCompare records = normalizeRecords localeCompare authoritative) :
    records.Perm authoritative := by
  have hsort := normalizeRecords_eq_iff.1 h
  have hrecords := List.perm_insertionSort
    (fun a b : ResolveRecord => (localeCompare a.sortKey b.sortKey).isLE) records
  have hauthoritative := List.perm_insertionSort
    (fun a b : ResolveRecord => (localeCompare a.sortKey b.sortKey).isLE) authoritative
  unfold sortRecords at hsort
  exact hrecords.symm.trans (hsort ▸ hauthoritative)

/-! ## Records that are told apart -/

/-- The other order of the properties of a value. -/
def RecordValue.flip : RecordValue → RecordValue
  | .text t => .text t
  | .object key value valueFirst => .object key value !valueFirst

/-- The record that a text value stands for. -/
def ofContent (c : JsText × (JsText ⊕ JsText × JsText) × Option { t : JsText // Json.isNumText t }) :
    ResolveRecord :=
  ⟨c.1, match c.2.1 with
    | .inl t => .text t
    | .inr p => .object p.1 p.2 false, c.2.2⟩

theorem ofContent_content {t : JsText} (h : r.value = .text t) : ofContent r.content = r := by
  rcases r with ⟨type, value, ttl⟩
  cases h
  rfl

/-- The same records are a rearrangement, where all values are texts. -/
theorem perm_of_sameRecords (h : SameRecords records authoritative)
    (htext : ∀ r ∈ authoritative, ∃ t, r.value = .text t) : records.Perm authoritative := by
  have hback {l : List ResolveRecord} (hl : ∀ r ∈ l, ∃ t, r.value = .text t) :
      (l.map ResolveRecord.content).map ofContent = l := by
    rw [List.map_map]
    exact (List.map_congr_left fun r hr => ofContent_content (hl r hr).choose_spec).trans
      (List.map_id l)
  have hrecords : ∀ r ∈ records, ∃ t, r.value = .text t := by
    intro r hr
    obtain ⟨r', hr', hcontent⟩ := List.mem_map.1 (h.subset (List.mem_map_of_mem hr))
    obtain ⟨t, ht⟩ := htext r' hr'
    rcases r with ⟨type, value | ⟨k, x, f⟩, ttl⟩
    · exact ⟨value, rfl⟩
    · rw [ResolveRecord.content, ht] at hcontent
      cases hcontent
  have hmap := h.map ofContent
  rw [hback hrecords, hback htext] at hmap
  exact hmap

/-- **Which records are told apart from their rearrangements only by what they say.** -/
theorem normalizeRecords_stable_iff [Std.TransCmp localeCompare] :
    (∀ records, SameRecords records authoritative →
      normalizeRecords localeCompare records = normalizeRecords localeCompare authoritative) ↔
    Comparable localeCompare authoritative := by
  let rel : ResolveRecord → ResolveRecord → Prop :=
    fun a b => (localeCompare a.sortKey b.sortKey).isLE
  have htotal : Std.Total rel := ⟨fun a b => by
    cases h : localeCompare a.sortKey b.sortKey with
    | lt => exact .inl (by simp [rel, h])
    | eq => exact .inl (by simp [rel, h])
    | gt => exact .inr (by simp [rel, Std.OrientedCmp.lt_of_gt h])⟩
  have htrans : IsTrans ResolveRecord rel := ⟨fun _ _ _ => Std.TransCmp.isLE_trans⟩
  have hsorts := StableSort.map_insertionSort_perm_iff (r := rel) (f := id) (l := authoritative)
  simp only [List.map_id, id] at hsorts
  constructor
  · intro h
    refine ⟨fun r hr => ?_, fun a ha b hb htie => ?_⟩
    · -- an object is printed differently with its properties in the other order
      rcases hvalue : r.value with t | ⟨k, x, f⟩
      · exact ⟨t, rfl⟩
      · have hperm := List.perm_cons_erase hr
        let flipped : ResolveRecord := { r with value := r.value.flip }
        have hcontent : flipped.content = r.content := by
          simp only [flipped, ResolveRecord.content, hvalue, RecordValue.flip]
        have hsame : SameRecords (flipped :: authoritative.erase r) authoritative := by
          refine List.Perm.trans ?_ (hperm.map ResolveRecord.content).symm
          rw [List.map_cons, List.map_cons, hcontent]
        have hflip := (perm_of_normalizeRecords_eq (h _ hsame)).trans hperm
        have hcount := hflip.count_eq r
        rw [List.count_cons, List.count_cons_self] at hcount
        have hne : flipped ≠ r := by
          intro heq
          have hflipped : flipped.value = r.value := congrArg ResolveRecord.value heq
          simp [flipped, hvalue, RecordValue.flip] at hflipped
        rw [if_neg (by simpa using hne)] at hcount
        omega
    · have hle : rel a b ∧ rel b a := by
        have htie' := Std.OrientedCmp.eq_comm.1 htie
        exact ⟨by simp [rel, htie], by simp [rel, htie']⟩
      refine hsorts.1 (fun l hl => ?_) a ha b hb hle.1 hle.2
      exact normalizeRecords_eq_iff.1 (h l (hl.map ResolveRecord.content))
  · rintro ⟨htext, htie⟩ l hl
    refine normalizeRecords_eq_iff.2 (hsorts.2 (fun a ha b hb hab hba => ?_) l
      (perm_of_sameRecords hl htext))
    exact htie a ha b hb (Std.OrientedCmp.isLE_antisymm hab hba)

/-! ## Counting nodes -/

theorem verifyWithNodes_ok (nodeQuorum : ℤ) (asked : List Asked) :
    (verifyWithNodes localeCompare nodeQuorum authoritative asked).ok = true ↔
      min nodeQuorum asked.length ≤ asked.countP (matchesText localeCompare authoritative) := by
  by_cases hnil : asked = []
  · rw [hnil]
    exact ⟨fun _ => min_le_right nodeQuorum _, fun _ => rfl⟩
  · rw [verifyWithNodes, if_neg hnil]
    by_cases hlt : (asked.countP (matchesText localeCompare authoritative) : ℤ) <
        min nodeQuorum asked.length
    · simp only [if_pos hlt]
      exact ⟨nofun, fun hle => absurd hle (not_le.2 hlt)⟩
    · simp only [if_neg hlt]
      exact ⟨fun _ => not_lt.1 hlt, fun _ => trivial⟩

/-- What prints alike is the same, and the other way round where records are told apart. -/
theorem matchesText_eq [Std.TransCmp localeCompare] (h : Comparable localeCompare authoritative)
    (e : Asked) : matchesText localeCompare authoritative e = agrees authoritative e := by
  rcases e with ⟨node, _ | records⟩
  · rfl
  · refine decide_eq_decide.2 ⟨fun heq => ?_, normalizeRecords_stable_iff.2 h records⟩
    exact (perm_of_normalizeRecords_eq heq).map ResolveRecord.content

theorem length_agreeing (asked : List Asked) :
    (agreeing authoritative asked).length = asked.countP (agrees authoritative) := by
  rw [agreeing, List.length_map, List.countP_eq_length_filter]

/-- Any of the entries may be those that agree. -/
theorem exists_asked (authoritative : List ResolveRecord) {nodes bases : List JsText}
    (h : bases.Sublist (nodes.map normalizedBase)) :
    ∃ asked : List Asked, asked.map Prod.fst = nodes ∧ agreeing authoritative asked = bases := by
  induction nodes generalizing bases with
  | nil => exact ⟨[], rfl, (List.sublist_nil.1 h).symm⟩
  | cons node nodes ih =>
    rw [List.map_cons] at h
    cases h with
    | cons _ h =>
      obtain ⟨asked, hnodes, hagreeing⟩ := ih h
      refine ⟨(node, none) :: asked, by rw [List.map_cons, hnodes], ?_⟩
      rw [agreeing, List.filter_cons_of_neg Bool.false_ne_true]
      exact hagreeing
    | cons_cons _ h =>
      obtain ⟨asked, hnodes, hagreeing⟩ := ih h
      refine ⟨(node, some authoritative) :: asked, by rw [List.map_cons, hnodes], ?_⟩
      have hself : agrees authoritative (node, some authoritative) = true :=
        decide_eq_true (List.Perm.refl _)
      rw [agreeing, List.filter_cons_of_pos hself, List.map_cons]
      exact congrArg (normalizedBase node :: ·) hagreeing

/-- A sublist grows to any length up to that of the list. -/
theorem exists_sublist_of_length {α : Type*} {s l : List α} (h : s.Sublist l) {k : ℕ}
    (hs : s.length ≤ k) (hl : k ≤ l.length) : ∃ t, s.Sublist t ∧ t.Sublist l ∧ t.length = k := by
  induction h generalizing k with
  | slnil => exact ⟨[], .slnil, .slnil, (Nat.le_zero.1 hl).symm⟩
  | @cons s l a h ih =>
    rcases Nat.lt_or_ge l.length k with hlt | hle
    · exact ⟨a :: l, h.cons a, List.Sublist.refl _, by rw [List.length_cons] at *; omega⟩
    · obtain ⟨t, hst, htl, hlen⟩ := ih hs hle
      exact ⟨t, hst, htl.cons a, hlen⟩
  | @cons_cons s l a h ih =>
    rw [List.length_cons] at hs hl
    obtain ⟨t, hst, htl, hlen⟩ := ih (k := k - 1) (by omega) (by omega)
    exact ⟨a :: t, hst.cons_cons a, htl.cons_cons a, by rw [List.length_cons]; omega⟩

theorem length_dedup_lt {bases : List JsText} (h : ¬bases.Nodup) :
    bases.dedup.length < bases.length := by
  have hsub := List.dedup_sublist bases
  refine lt_of_le_of_ne hsub.length_le fun hlen => h ?_
  exact List.dedup_eq_self.1 (hsub.eq_of_length hlen)

/-- Entries are counted as nodes, for every choice of those that agree, exactly if one agreeing node
is enough or no node is listed twice. -/
theorem counts_iff {bases : List JsText} {nodeQuorum : ℤ} (hne : bases ≠ [])
    (hpos : 0 < nodeQuorum) :
    (∀ s : List JsText, s.Sublist bases → (min nodeQuorum bases.length ≤ s.length ↔
      min nodeQuorum bases.dedup.length ≤ s.dedup.length)) ↔ nodeQuorum = 1 ∨ bases.Nodup := by
  have hlen : 0 < bases.length := List.length_pos_iff.2 hne
  have hdlen : 0 < bases.dedup.length :=
    List.length_pos_iff.2 fun hnil => hne ((List.dedup_eq_nil _).1 hnil)
  constructor
  · intro h
    by_contra hnot
    obtain ⟨hone, hdup⟩ := not_or.1 hnot
    have hlt := length_dedup_lt hdup
    -- one entry for each node is too few, unless the quorum is no larger
    have hdistinct := (h bases.dedup (List.dedup_sublist bases)).2 (by
      rw [List.dedup_idem]
      exact min_le_right _ _)
    have hquorum : nodeQuorum ≤ bases.dedup.length := by omega
    -- and then as many entries as the quorum are enough, with one node among them twice
    have htwice : ∃ a, [a, a].Sublist bases := by
      by_contra hno
      exact hdup (List.nodup_iff_sublist.2 fun a ha => hno ⟨a, ha⟩)
    obtain ⟨a, ha⟩ := htwice
    obtain ⟨t, hat, htb, htlen⟩ := exists_sublist_of_length ha (k := nodeQuorum.toNat)
      (by show 2 ≤ nodeQuorum.toNat; omega) (by omega)
    have htdup : ¬t.Nodup := fun hn => List.nodup_iff_sublist.1 hn a hat
    have htlt := length_dedup_lt htdup
    have hcount := (h t htb).1 (by omega)
    omega
  · rintro (rfl | hn) s hs
    · have hzero : s.length = 0 ↔ s.dedup.length = 0 := by
        rw [List.length_eq_zero_iff, List.length_eq_zero_iff, List.dedup_eq_nil]
      omega
    · rw [List.dedup_eq_self.2 hn, List.dedup_eq_self.2 (hn.sublist hs)]

/-- **The quorum counts distinct nodes with the authoritative records, whatever they answer**, exactly
if no node has to agree, or the records are told apart by what they say and no node is listed twice
where more than one is to agree. -/
theorem agreeing_nodes_iff [Std.TransCmp localeCompare] (nodeQuorum : ℤ) (nodes : List JsText) :
    (∀ asked : List Asked, asked.map Prod.fst = nodes →
      QuorumLaw localeCompare nodeQuorum authoritative asked) ↔
    nodeQuorum ≤ 0 ∨ nodes = [] ∨ ((nodeQuorum = 1 ∨ (nodes.map normalizedBase).Nodup) ∧
      Comparable localeCompare authoritative) := by
  have hbases {asked : List Asked} (h : asked.map Prod.fst = nodes) :
      (asked.map fun e => normalizedBase e.1) = nodes.map normalizedBase := by
    rw [← h, List.map_map]
    rfl
  have hlength {asked : List Asked} (h : asked.map Prod.fst = nodes) :
      asked.length = (nodes.map normalizedBase).length := by
    rw [← hbases h, List.length_map]
  have hcounts (hcomparable : Comparable localeCompare authoritative) {asked : List Asked}
      (h : asked.map Prod.fst = nodes) : QuorumLaw localeCompare nodeQuorum authoritative asked ↔
        (min nodeQuorum (nodes.map normalizedBase).length ≤ (agreeing authoritative asked).length ↔
          min nodeQuorum (nodes.map normalizedBase).dedup.length ≤
            (agreeing authoritative asked).dedup.length) := by
    unfold QuorumLaw
    rw [verifyWithNodes_ok, hbases h, length_agreeing, hlength h,
      List.countP_congr fun e _ => by rw [matchesText_eq hcomparable]]
  constructor
  · intro h
    by_cases hpos : 0 < nodeQuorum
    swap
    · exact .inl (not_lt.1 hpos)
    by_cases hnil : nodes = []
    · exact .inr (.inl hnil)
    have hne : nodes.map normalizedBase ≠ [] := fun hmap => hnil (List.map_eq_nil_iff.1 hmap)
    have hcomparable : Comparable localeCompare authoritative := by
      refine normalizeRecords_stable_iff.1 fun records hsame => ?_
      -- all nodes answer the same records
      let asked : List Asked := nodes.map fun node => (node, some records)
      have hnodes : asked.map Prod.fst = nodes := by
        rw [List.map_map]
        exact List.map_id nodes
      have hagreeing : agreeing authoritative asked = nodes.map normalizedBase := by
        have hall : asked.filter (agrees authoritative) = asked := by
          refine List.filter_eq_self.2 fun e he => ?_
          obtain ⟨node, -, rfl⟩ := List.mem_map.1 he
          exact decide_eq_true hsame
        rw [agreeing, hall, hbases hnodes]
      have hok := (h asked hnodes).2 (by
        rw [hagreeing, hbases hnodes]
        exact min_le_right _ _)
      rw [verifyWithNodes_ok, hlength hnodes] at hok
      have hlen : 0 < (nodes.map normalizedBase).length := List.length_pos_iff.2 hne
      have hsome : 0 < asked.countP (matchesText localeCompare authoritative) := by omega
      obtain ⟨e, he, hmatches⟩ := List.countP_pos_iff.1 hsome
      obtain ⟨node, -, rfl⟩ := List.mem_map.1 he
      exact of_decide_eq_true hmatches
    refine .inr (.inr ⟨(counts_iff hne hpos).1 fun s hs => ?_, hcomparable⟩)
    obtain ⟨asked, hnodes, rfl⟩ := exists_asked authoritative hs
    exact (hcounts hcomparable hnodes).1 (h asked hnodes)
  · rintro (hq | rfl | ⟨hdistinct, hcomparable⟩) asked hnodes
    · unfold QuorumLaw
      rw [verifyWithNodes_ok]
      exact ⟨fun _ => (min_le_left _ _).trans (hq.trans (Int.natCast_nonneg _)),
        fun _ => (min_le_left _ _).trans (hq.trans (Int.natCast_nonneg _))⟩
    · rw [List.map_eq_nil_iff.1 hnodes]
      exact ⟨fun _ => min_le_right _ _, fun _ => rfl⟩
    · rw [hcounts hcomparable hnodes]
      have hsub : (agreeing authoritative asked).Sublist (nodes.map normalizedBase) := by
        rw [← hbases hnodes]
        exact List.filter_sublist.map _
      by_cases hpos : 0 < nodeQuorum
      swap
      · omega
      by_cases hne : nodes.map normalizedBase = []
      · rw [hne] at hsub ⊢
        rw [List.sublist_nil.1 hsub]
        rfl
      · exact (counts_iff hne hpos).2 hdistinct _ hsub

end

/-! ## Two orders of one object -/

/-- A record whose value is an object. -/
def exampleObject (valueFirst : Bool) : ResolveRecord := ⟨['T'], .object ['k'] ['v'] valueFirst, none⟩

/-- A node answers the record with its properties in the other order. -/
theorem quorum_broken : ¬∀ localeCompare nodeQuorum authoritative asked,
    QuorumLaw localeCompare nodeQuorum authoritative asked := by
  intro h
  have hok := (h compare 1 [exampleObject false] [(['n'], some [exampleObject true])]).2 (by decide)
  exact absurd hok (by decide)

/-- With two nodes and records that are told apart, the quorum counts nodes. -/
theorem exampleNodes_quorum :
    QuorumLaw compare 2 [⟨['A'], .text ['1'], none⟩, ⟨['A'], .text ['2'], none⟩]
      [(['n'], some [⟨['A'], .text ['2'], none⟩, ⟨['A'], .text ['1'], none⟩]), (['m'], none)] := by
  refine (@agreeing_nodes_iff compare _ _ 2 [['n'], ['m']]).2 ?_ _ rfl
  refine .inr (.inr ⟨.inr (by decide), ?_, by decide⟩)
  intro r hr
  simp only [List.mem_cons, List.not_mem_nil, or_false] at hr
  rcases hr with rfl | rfl
  · exact ⟨_, rfl⟩
  · exact ⟨_, rfl⟩

end Ddns.Gateway.NodeQuorum
