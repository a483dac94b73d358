import Ddns.Core.Commitment
import Ddns.Lib.Grouping
import Ddns.Lib.StableSort

/-!
# The order of registry records

The canonical text of a record should not depend on the order of its entries, nor on that of the
capabilities in a list, and the root of a registry not on the order of its records. Entries are sorted
by a text that leaves out their `ttl` and does not show where a key ends; two entries with the same
text keep their order. `registryOrder_iff` says that nothing else is lost.
-/

namespace Ddns.Core.Registry

variable {rt : Runtime}

/-- The same entry, where the capabilities of a list may come in another order and repeat. -/
structure Variant (rt : Runtime) (e e' : RecordEntry) : Prop where
  type : e'.type = e.type
  ttl : e'.ttl = e.ttl
  value : e'.value = e.value ∨ rt.toUpperCase e.type = capsType ∧ ∃ v v', e.value = .text v ∧
    e'.value = .text v' ∧ ∀ cap, cap ∈ capsOf rt v' ↔ cap ∈ capsOf rt v

/-- The same record, where the entries come in another order. -/
def Rearranged (rt : Runtime) (record record' : RegistryRecord) : Prop :=
  ∃ mid entries, mid.Perm record.records ∧ List.Forall₂ (Variant rt) mid entries ∧
    record' = { record with records := entries }

/-- The canonical text does not depend on the order. -/
def OrderFree (rt : Runtime) (record : RegistryRecord) : Prop :=
  ∀ record', Rearranged rt record record' →
    canonicalizeRecord rt record' = canonicalizeRecord rt record

/-- Entries that are sorted by the same text print the same. -/
def Separated (rt : Runtime) (record : RegistryRecord) : Prop :=
  ∀ e ∈ record.records, ∀ e' ∈ record.records, ∀ n n', normalizeEntry rt e = .ok n →
    normalizeEntry rt e' = .ok n' → sortKey n = sortKey n' → n.toJson = n'.toJson

/-! ## Capabilities -/

/-- The order of the capabilities tells the allowed ones apart. -/
theorem allowedCaps_antisymm : ∀ a ∈ allowedCaps, ∀ b ∈ allowedCaps,
    (JsText.compareUnits a b).isLE → (JsText.compareUnits b a).isLE → a = b := by
  decide

/-- Lists of the same allowed capabilities have the same text. -/
theorem capsText_congr {caps caps' : List JsText} (hmem : ∀ cap, cap ∈ caps' ↔ cap ∈ caps)
    (hallowed : ∀ cap ∈ caps, cap ∈ allowedCaps) : capsText caps' = capsText caps := by
  have : Std.TransCmp JsText.compareUnits :=
    inferInstanceAs (Std.TransCmp (compareOn JsText.codeUnits))
  have : Std.Total fun a b : JsText => (JsText.compareUnits a b).isLE = true :=
    StableSort.total_key id
  have : IsTrans JsText fun a b => (JsText.compareUnits a b).isLE = true :=
    StableSort.isTrans_key id
  have hperm : caps'.eraseDups.Perm caps.eraseDups := by
    have hnodup := Grouping.nodup_eraseDups caps
    have hnodup' := Grouping.nodup_eraseDups caps'
    refine (List.perm_ext_iff_of_nodup hnodup' hnodup).2 fun cap => ?_
    rw [List.mem_eraseDups, List.mem_eraseDups, hmem]
  unfold capsText
  refine congrArg (JsText.join [',']) ?_
  refine StableSort.insertionSort_perm_iff.2 (fun a ha b hb => ?_) _ hperm
  exact allowedCaps_antisymm a (hallowed a (List.mem_eraseDups.1 ha)) b
    (hallowed b (List.mem_eraseDups.1 hb))

theorem normalizeEntry_caps {e : RecordEntry} {v : JsText} (htype : rt.toUpperCase e.type = capsType)
    (hv : e.value = .text v) : normalizeEntry rt e =
      match (capsOf rt v).find? (· ∉ allowedCaps) with
      | some cap => .error (.unsupportedCap cap)
      | none => .ok ⟨capsType, [], capsText (capsOf rt v), e.ttl⟩ := by
  unfold normalizeEntry
  simp only [htype, hv]
  rfl

/-- **An entry and its variants** are normalized to the same entry. -/
theorem normalizeEntry_variant {e e' : RecordEntry} (h : Variant rt e e') {n : Entry}
    (hn : normalizeEntry rt e = .ok n) : normalizeEntry rt e' = .ok n := by
  rcases h.value with hvalue | ⟨htype, v, v', hv, hv', hmem⟩
  · have heq : e' = e := by
      obtain ⟨type, value, ttl⟩ := e
      obtain ⟨type', value', ttl'⟩ := e'
      cases h.type
      cases h.ttl
      cases hvalue
      rfl
    rw [heq, hn]
  · rw [normalizeEntry_caps htype hv] at hn
    rw [normalizeEntry_caps (h.type ▸ htype) hv', h.ttl]
    cases hfind : (capsOf rt v).find? (· ∉ allowedCaps) with
    | some cap =>
      rw [hfind] at hn
      cases hn
    | none =>
      rw [hfind] at hn
      have hallowed : ∀ cap ∈ capsOf rt v, cap ∈ allowedCaps := by
        simpa using hfind
      have hfind' : (capsOf rt v').find? (· ∉ allowedCaps) = none := by
        simpa using fun cap hcap => hallowed cap ((hmem cap).1 hcap)
      rw [hfind', capsText_congr hmem hallowed]
      exact hn

/-! ## Entries -/

/-- The canonical text of a record whose entries are normalized. -/
theorem canonicalizeRecord_eq (record : RegistryRecord) {ns : List Entry}
    (howner : record.records.any fun e => rt.toUpperCase e.type = ownerType)
    (hns : record.records.mapM (normalizeEntry rt) = .ok ns) :
    canonicalizeRecord rt record = .ok (payload rt record (sortEntries rt ns)).stringify := by
  unfold canonicalizeRecord normalizeRecordEntries
  rw [if_neg (not_not.2 howner), hns]

theorem exists_of_accepted {record : RegistryRecord}
    (h : ∃ canonical, canonicalizeRecord rt record = .ok canonical) :
    (record.records.any fun e => rt.toUpperCase e.type = ownerType) = true ∧
      ∃ ns, record.records.mapM (normalizeEntry rt) = .ok ns := by
  obtain ⟨canonical, h⟩ := h
  unfold canonicalizeRecord normalizeRecordEntries at h
  split at h
  · cases h
  · next hnormalized =>
    split at hnormalized
    · cases hnormalized
    · next howner =>
      split at hnormalized
      · cases hnormalized
      · next ns hns => exact ⟨not_not.1 howner, ns, hns⟩

/-- Payloads that print the same have entries that print the same. -/
theorem map_toJson_of_payload {record : RegistryRecord} {ns ns' : List Entry}
    (h : payload rt record ns = payload rt record ns') :
    ns.map Entry.toJson = ns'.map Entry.toJson := by
  unfold payload at h
  have hfields := Json.obj.inj h
  simpa using hfields

theorem mapM_variants {mid entries : List RecordEntry} (h : List.Forall₂ (Variant rt) mid entries)
    {ns : List Entry} (hns : mid.mapM (normalizeEntry rt) = .ok ns) :
    entries.mapM (normalizeEntry rt) = .ok ns := by
  rw [Results.mapM_eq_ok_iff] at hns ⊢
  induction h generalizing ns with
  | nil => exact hns
  | cons hvariant _ ih =>
    rw [List.forall₂_cons_left_iff] at hns
    obtain ⟨n, ns', hn, hrest, rfl⟩ := hns
    exact .cons (normalizeEntry_variant hvariant hn) (ih hrest)

theorem map_type_variants {mid entries : List RecordEntry}
    (h : List.Forall₂ (Variant rt) mid entries) :
    entries.map RecordEntry.type = mid.map RecordEntry.type := by
  induction h with
  | nil => rfl
  | cons hvariant _ ih => rw [List.map_cons, List.map_cons, hvariant.type, ih]

/-- The rearrangements of an accepted record sort the same entries. -/
theorem rearranged_mapM {record record' : RegistryRecord} (h : Rearranged rt record record')
    {ns : List Entry} (hns : record.records.mapM (normalizeEntry rt) = .ok ns)
    (howner : record.records.any fun e => rt.toUpperCase e.type = ownerType) :
    ∃ ns', ns'.Perm ns ∧
      canonicalizeRecord rt record' = .ok (payload rt record (sortEntries rt ns')).stringify := by
  obtain ⟨mid, entries, hperm, hvariants, rfl⟩ := h
  obtain ⟨ns', hns', hperm'⟩ := Results.mapM_perm hperm hns
  refine ⟨ns', hperm', ?_⟩
  have howner' : (entries.any fun e => rt.toUpperCase e.type = ownerType) = true := by
    have htypes (l : List RecordEntry) : (l.any fun e => rt.toUpperCase e.type = ownerType) =
        (l.map RecordEntry.type).any fun type => rt.toUpperCase type = ownerType := by
      rw [List.any_map]
      rfl
    rw [htypes, map_type_variants hvariants, ← htypes, hperm.any_eq]
    exact howner
  exact canonicalizeRecord_eq _ howner' (mapM_variants hvariants hns')

variable [Std.TransCmp rt.localeCompare] [Std.LawfulEqCmp rt.localeCompare]

/-- **The canonical text** depends on the order exactly where entries with the same sorting text print
differently. -/
theorem orderFree_iff {record : RegistryRecord}
    (h : ∃ canonical, canonicalizeRecord rt record = .ok canonical) :
    OrderFree rt record ↔ Separated rt record := by
  obtain ⟨howner, ns, hns⟩ := exists_of_accepted h
  have hcanonical := canonicalizeRecord_eq record howner hns
  have hsorted : (∀ ns', ns'.Perm ns →
      (sortEntries rt ns').map Entry.toJson = (sortEntries rt ns).map Entry.toJson) ↔
        ∀ a ∈ ns, ∀ b ∈ ns, sortKey a = sortKey b → a.toJson = b.toJson :=
    StableSort.map_insertionSort_key_iff sortKey Entry.toJson ns
  have hseparated : Separated rt record ↔
      ∀ a ∈ ns, ∀ b ∈ ns, sortKey a = sortKey b → a.toJson = b.toJson := by
    constructor
    · intro hsep a ha b hb
      obtain ⟨e, he, hea⟩ := (Results.mem_mapM_iff hns).1 ha
      obtain ⟨e', he', heb⟩ := (Results.mem_mapM_iff hns).1 hb
      exact hsep e he e' he' a b hea heb
    · intro hall e he e' he' n n' hn hn'
      exact hall n ((Results.mem_mapM_iff hns).2 ⟨e, he, hn⟩) n'
        ((Results.mem_mapM_iff hns).2 ⟨e', he', hn'⟩)
  rw [hseparated, ← hsorted]
  constructor
  · intro hfree ns' hperm
    obtain ⟨entries, hentries, hmap⟩ := Results.exists_perm_of_mapM hns hperm
    have hrearranged : Rearranged rt record { record with records := entries } := by
      refine ⟨entries, entries, hentries, List.forall₂_same.2 fun e _ => ?_, rfl⟩
      exact ⟨rfl, rfl, .inl rfl⟩
    have hsame := hfree _ hrearranged
    have howner' : (entries.any fun e => rt.toUpperCase e.type = ownerType) = true := by
      rw [hentries.any_eq]
      exact howner
    rw [hcanonical, canonicalizeRecord_eq { record with records := entries } howner' hmap] at hsame
    have hpayload := Json.stringify_inj (numeric_payload _ _ _) (numeric_payload _ _ _)
      (Except.ok.inj hsame)
    exact map_toJson_of_payload hpayload
  · intro hmap record' hrearranged
    obtain ⟨ns', hperm, hcanonical'⟩ := rearranged_mapM hrearranged hns howner
    obtain ⟨mid, entries, -, -, rfl⟩ := hrearranged
    rw [hcanonical', hcanonical]
    unfold payload
    rw [hmap ns' hperm]

/-! ## The root -/

/-- Records with different names have one order. -/
theorem sortRecords_eq_of_perm {records records' : List RegistryRecord}
    (hperm : records'.Perm records)
    (hnames : (records.map fun r => normalizeRegistryName rt r.name).Nodup) :
    sortRecords rt records' = sortRecords rt records := by
  have hsame : (sortRecords rt records').map id = (sortRecords rt records).map id :=
    (StableSort.map_insertionSort_key_iff _ id records).2
      (fun a ha b hb hab => List.inj_on_of_nodup_map hnames ha hb hab) records' hperm
  rw [List.map_id, List.map_id] at hsame
  exact hsame

omit [Std.TransCmp rt.localeCompare] [Std.LawfulEqCmp rt.localeCompare] in
theorem buildMerkleRoot_error {records : List RegistryRecord} (h : ¬Accepted rt records) :
    (buildMerkleRoot rt records).toOption = none := by
  unfold buildMerkleRoot buildLeaves
  cases hleaves : records.mapM (leafOf rt) with
  | error e => rfl
  | ok ys =>
    refine absurd (fun record hrecord => ?_) h
    obtain ⟨leaf, hleaf⟩ := Results.mapM_ok_iff.1 ⟨ys, hleaves⟩ record hrecord
    unfold leafOf hashLeaf at hleaf
    cases hcanonical : canonicalizeRecord rt record with
    | error e =>
      rw [hcanonical] at hleaf
      cases hleaf
    | ok canonical => exact ⟨canonical, rfl⟩

theorem buildMerkleRoot_perm {records records' : List RegistryRecord} (hperm : records'.Perm records)
    (hnames : (records.map fun r => normalizeRegistryName rt r.name).Nodup) :
    (buildMerkleRoot rt records').toOption = (buildMerkleRoot rt records).toOption := by
  have haccepted : Accepted rt records' ↔ Accepted rt records :=
    forall_congr' fun r => imp_congr_left hperm.mem_iff
  by_cases h : Accepted rt records
  · have hnil : records' = [] ↔ records = [] := by
      rw [← List.length_eq_zero_iff, ← List.length_eq_zero_iff, hperm.length_eq]
    rw [buildMerkleRoot_eq h, buildMerkleRoot_eq (haccepted.2 h), sortRecords_eq_of_perm hperm hnames]
    simp only [hnil]
  · rw [buildMerkleRoot_error h, buildMerkleRoot_error (mt haccepted.1 h)]

/-- The same text with two times to live. -/
def exampleTexts : RegistryRecord where
  name := ['a', '.', 'd', 'n', 's']
  records := [⟨ownerType, .text ['k'], none⟩,
    ⟨textType, .pair ['k'] ['v'], some (.finite ⟨false, 6, 1, .inr (by decide)⟩)⟩,
    ⟨textType, .pair ['k'] ['v'], some (.finite ⟨false, 3, 2, .inr (by decide)⟩)⟩]
  version := .finite ⟨false, 1, 0, Double.one_shortest⟩
  updatedAt := ['2', '0', '2', '6']
  owner := none

end Ddns.Core.Registry
