import Ddns.Core.Inclusion
import Ddns.Lib.JsonText

/-!
# What a root commits to

Two lists of records with the same root should hold the same records. An odd level is padded with its
last node, so a list of three records shares its root with the list that has the third one twice
(`exampleRecords_not_binding`). Where no two of the hashed texts collide, this is all that can happen:
the records are the same, or the longer list repeats one (`sameRecords_or_repeats`). A leaf is no node,
as its text has a line break and that of a node only digits.
-/

namespace Ddns.Core.Registry

/-- The texts that `buildMerkleRoot` hashes. -/
def hashedTexts (rt : Runtime) (records : List RegistryRecord) : List JsText :=
  if records = [] then [[]]
  else records.map (leafText rt) ++
    (Merkle.hashedPairs (hashPair rt) (((sortRecords rt records).map (leafFor rt)).map Leaf.hash)).map
      fun p => p.1 ++ p.2

/-- No two of the texts have the same digest. -/
def CollisionFree (rt : Runtime) (texts : List JsText) : Prop :=
  ∀ t ∈ texts, ∀ t' ∈ texts,
    rt.blake3 (JsText.utf8 t) = rt.blake3 (JsText.utf8 t') → JsText.utf8 t = JsText.utf8 t'

instance (rt : Runtime) (texts : List JsText) : Decidable (CollisionFree rt texts) :=
  inferInstanceAs (Decidable (∀ t ∈ texts, ∀ t' ∈ texts,
    rt.blake3 (JsText.utf8 t) = rt.blake3 (JsText.utf8 t') → JsText.utf8 t = JsText.utf8 t'))

/-! ## Digests -/

theorem newline_ne_hexDigit : ∀ n < 16, Json.hexDigit n ≠ '\n' := by
  decide

theorem newline_not_mem_bytesToHex (bytes : List UInt8) : '\n' ∉ bytesToHex bytes := by
  intro h
  obtain ⟨b, -, hb⟩ := List.mem_flatMap.1 h
  have hlt := b.toNat_lt
  rcases List.mem_pair.1 hb with h | h
  · exact newline_ne_hexDigit (b.toNat / 16) (by omega) h.symm
  · exact newline_ne_hexDigit (b.toNat % 16) (by omega) h.symm

theorem bytesToHex_inj {bytes bytes' : List UInt8} (h : bytesToHex bytes = bytesToHex bytes') :
    bytes = bytes' :=
  Hex.ofBytes_inj h

theorem CollisionFree.eq {rt : Runtime} {texts : List JsText} (h : CollisionFree rt texts)
    {t t' : JsText} (ht : t ∈ texts) (ht' : t' ∈ texts) (heq : hashText rt t = hashText rt t') :
    t = t' :=
  JsText.utf8_inj (h t ht t' ht' (bytesToHex_inj heq))

/-! ## Leaves are no nodes -/

theorem newline_not_mem_escape (c : Char) : '\n' ∉ Json.escape c := by
  have hhigh := newline_ne_hexDigit (c.toNat / 16)
  have hlow := newline_ne_hexDigit (c.toNat % 16) (by omega)
  have hbackslash : Char.ofNat 92 ≠ '\n' := by decide
  unfold Json.escape
  dsimp only
  intro h
  split_ifs at h with hquote hback hb ht hn hf hr hctrl
  · simp only [List.mem_cons, List.not_mem_nil, or_false] at h
    rcases h with h | h
    · exact hbackslash h.symm
    · rw [← h] at hquote
      cases hquote
  · simp only [List.mem_cons, List.not_mem_nil, or_false] at h
    rcases h with h | h
    · exact hbackslash h.symm
    · rw [← h] at hback
      cases hback
  · revert h
    decide
  · revert h
    decide
  · revert h
    decide
  · revert h
    decide
  · revert h
    decide
  · simp only [List.mem_cons, List.not_mem_nil, or_false] at h
    rcases h with h | h | h | h | h | h
    · exact hbackslash h.symm
    · cases h
    · cases h
    · cases h
    · exact hhigh (by omega) h.symm
    · exact hlow h.symm
  · have hc := List.mem_singleton.1 h
    rw [← hc] at hn
    exact hn rfl

theorem newline_not_mem_quote (s : JsText) : '\n' ∉ Json.quote s := by
  have hmark : Char.ofNat 34 ≠ '\n' := by decide
  intro h
  unfold Json.quote at h
  rcases List.mem_cons.1 h with h | h
  · exact hmark h.symm
  · rcases List.mem_append.1 h with h | h
    · obtain ⟨c, -, hc⟩ := List.mem_flatMap.1 h
      exact newline_not_mem_escape c hc
    · exact hmark (List.mem_singleton.1 h).symm

theorem newline_not_mem_join (ts : List JsText) (h : ∀ t ∈ ts, '\n' ∉ t) :
    '\n' ∉ JsText.join [','] ts := by
  intro hmem
  rcases JsText.mem_join hmem with hsep | ⟨t, ht, hin⟩
  · cases List.mem_singleton.1 hsep
  · exact h t ht hin

/-- JSON is printed on one line. -/
theorem newline_not_mem_stringify {j : Json} (h : j.numeric) : '\n' ∉ j.stringify := by
  unfold Json.stringify
  induction j with
  | null => decide
  | bool b => cases b <;> decide
  | num t =>
    intro hmem
    have hall := (Bool.and_eq_true_iff.1 h).2
    exact absurd (List.all_eq_true.1 hall _ hmem) (by decide)
  | str s => exact newline_not_mem_quote s
  | arr items ih =>
    rw [Json.numeric_arr] at h
    have hjoin := newline_not_mem_join (Json.printItems id items) fun t ht => by
      rw [Json.printItems_eq_map] at ht
      obtain ⟨j, hj, rfl⟩ := List.mem_map.1 ht
      exact ih j hj (h j hj)
    rw [Json.print]
    unfold Json.brackets
    simp [hjoin]
  | obj fields ih =>
    rw [Json.numeric_obj] at h
    have hjoin := newline_not_mem_join
      ((Json.printFields id fields).map fun f => Json.quote f.1 ++ ':' :: f.2) fun t ht => by
        rw [Json.printFields_eq_map, List.map_map] at ht
        obtain ⟨f, hf, rfl⟩ := List.mem_map.1 ht
        simp [newline_not_mem_quote, ih f hf (h f hf)]
    rw [Json.print]
    unfold Json.braces
    simp only [id_eq]
    simp [hjoin]

theorem numeric_entry (e : Entry) : e.toJson.numeric := by
  unfold Entry.toJson
  rw [Json.numeric_obj]
  intro f hf
  rcases List.mem_append.1 hf with hf | hf
  · simp only [List.mem_cons, List.not_mem_nil, or_false] at hf
    rcases hf with rfl | rfl | rfl <;> rfl
  · obtain ⟨ttl, -, rfl⟩ := Option.map_eq_some_iff.1 (Option.mem_toList.1 hf)
    exact ttl.numeric_toJson

theorem numeric_payload (rt : Runtime) (record : RegistryRecord) (entries : List Entry) :
    (payload rt record entries).numeric := by
  unfold payload
  rw [Json.numeric_obj]
  intro f hf
  rcases List.mem_append.1 hf with hf | hf
  · simp only [List.mem_cons, List.not_mem_nil, or_false] at hf
    rcases hf with rfl | rfl | rfl | rfl
    · rfl
    · exact record.version.numeric_toJson
    · rfl
    · rw [Json.numeric_arr]
      intro j hj
      obtain ⟨e, -, rfl⟩ := List.mem_map.1 hj
      exact numeric_entry e
  · obtain ⟨owner, -, rfl⟩ := Option.map_eq_some_iff.1 (Option.mem_toList.1 hf)
    rfl

theorem newline_not_mem_canonicalText (rt : Runtime) (record : RegistryRecord) :
    '\n' ∉ canonicalText rt record := by
  unfold canonicalText canonicalizeRecord
  cases normalizeRecordEntries rt record.records with
  | error e => exact List.not_mem_nil
  | ok entries => exact newline_not_mem_stringify (numeric_payload rt record entries)

theorem newline_mem_leafText (rt : Runtime) (record : RegistryRecord) :
    '\n' ∈ leafText rt record :=
  List.mem_append_right _ List.mem_cons_self

/-- The text of a leaf has the canonical text behind its last line break. -/
theorem canonicalText_of_leafText {rt : Runtime} {record record' : RegistryRecord}
    (h : leafText rt record = leafText rt record') :
    canonicalText rt record = canonicalText rt record' := by
  have hrev := congrArg List.reverse h
  unfold leafText leafInput at hrev
  rw [List.reverse_append, List.reverse_append, List.reverse_cons, List.reverse_cons,
    List.append_assoc, List.append_assoc] at hrev
  have hnewline (record : RegistryRecord) : '\n' ∉ (canonicalText rt record).reverse := by
    rw [List.mem_reverse]
    exact newline_not_mem_canonicalText rt record
  exact List.reverse_injective (JsText.split_unique (hnewline _) (hnewline _) hrev).1

/-! ## Roots -/

theorem buildMerkleRoot_eq {rt : Runtime} {records : List RegistryRecord}
    (h : Accepted rt records) : buildMerkleRoot rt records =
      .ok (if records = [] then hashText rt []
        else treeRoot (buildTree rt ((sortRecords rt records).map (leafFor rt)))) := by
  have hnil : (sortRecords rt records).map (leafFor rt) = [] ↔ records = [] := by
    rw [List.map_eq_nil_iff]
    constructor
    · exact fun hnil => (hnil ▸ sortRecords_perm rt records).symm.eq_nil
    · rintro rfl
      rfl
  rw [buildMerkleRoot_of_leaves h.buildLeaves]
  simp only [hnil]

/-- The digests of the leaves, in their order. -/
def leafHashes (rt : Runtime) (records : List RegistryRecord) : List JsText :=
  ((sortRecords rt records).map (leafFor rt)).map Leaf.hash

theorem leafHashes_eq (rt : Runtime) (records : List RegistryRecord) :
    leafHashes rt records = (sortRecords rt records).map fun r => hashText rt (leafText rt r) :=
  List.map_map

theorem leafHashes_ne_nil (rt : Runtime) {records : List RegistryRecord} (h : records ≠ []) :
    leafHashes rt records ≠ [] := by
  rw [leafHashes_eq]
  intro hnil
  exact h (List.map_eq_nil_iff.1 hnil ▸ sortRecords_perm rt records).symm.eq_nil

theorem length_leafHashes (rt : Runtime) (records : List RegistryRecord) :
    (leafHashes rt records).length = records.length := by
  rw [leafHashes_eq, List.length_map, (sortRecords_perm rt records).length_eq]

/-- What is hashed for a leaf. -/
theorem leafText_mem {rt : Runtime} {records : List RegistryRecord} {record : RegistryRecord}
    (h : record ∈ sortRecords rt records) : leafText rt record ∈ hashedTexts rt records := by
  have hmem := (sortRecords_perm rt records).mem_iff.1 h
  unfold hashedTexts
  rw [if_neg (List.ne_nil_of_mem hmem)]
  exact List.mem_append_left _ (List.mem_map_of_mem hmem)

theorem exists_of_mem_leafHashes {rt : Runtime} {records : List RegistryRecord} {a : JsText}
    (h : a ∈ leafHashes rt records) :
    ∃ record, leafText rt record ∈ hashedTexts rt records ∧ a = hashText rt (leafText rt record) := by
  rw [leafHashes_eq] at h
  obtain ⟨record, hrecord, rfl⟩ := List.mem_map.1 h
  exact ⟨record, leafText_mem hrecord, rfl⟩

/-- What is hashed for a node. -/
theorem mem_hashedTexts_of_pair {rt : Runtime} {records : List RegistryRecord}
    {p : JsText × JsText} (h : p ∈ Merkle.hashedPairs (hashPair rt) (leafHashes rt records)) :
    p.1 ++ p.2 ∈ hashedTexts rt records := by
  unfold hashedTexts
  split
  · next hnil =>
    rw [hnil] at h
    cases h
  · exact List.mem_append_right _ (List.mem_map_of_mem h)

/-- A digest has 64 digits. -/
def Digest (t : JsText) : Prop := t.length = 64 ∧ '\n' ∉ t

theorem digest_hashText (rt : Runtime) (text : JsText) : Digest (hashText rt text) :=
  ⟨length_hashText rt text, newline_not_mem_bytesToHex _⟩

theorem digests_of_pair {rt : Runtime} {records : List RegistryRecord} {p : JsText × JsText}
    (h : p ∈ Merkle.hashedPairs (hashPair rt) (leafHashes rt records)) :
    Digest p.1 ∧ Digest p.2 := by
  refine Merkle.forall_hashedPairs (hashPair rt) (fun a b => digest_hashText rt (a ++ b)) ?_ p h
  intro a ha
  obtain ⟨record, -, -, rfl⟩ := exists_of_mem_leafHashes ha
  exact digest_hashText rt _

/-- A root of records is the digest of a text that is hashed and is not empty. -/
theorem exists_of_top (rt : Runtime) {records : List RegistryRecord} (h : records ≠ []) :
    ∃ t ∈ hashedTexts rt records, t ≠ [] ∧
      treeRoot (buildTree rt ((sortRecords rt records).map (leafFor rt))) = hashText rt t := by
  obtain ⟨a, ha⟩ := Merkle.top_isSome (hashPair rt) (leafHashes_ne_nil rt h)
  have hroot : treeRoot (buildTree rt ((sortRecords rt records).map (leafFor rt))) = a :=
    congrArg (Option.getD · []) ha
  rw [hroot]
  rcases Merkle.top_mem (hashPair rt) ha with hmem | ⟨p, hp, rfl⟩
  · obtain ⟨record, htext, rfl⟩ := exists_of_mem_leafHashes hmem
    exact ⟨_, htext, List.ne_nil_of_mem (newline_mem_leafText rt record), rfl⟩
  · refine ⟨_, mem_hashedTexts_of_pair hp, fun hnil => ?_, rfl⟩
    have hlen := (digests_of_pair hp).1.1
    rw [(List.append_eq_nil_iff.1 hnil).1] at hlen
    cases hlen

section Binding

variable {rt : Runtime} {records records' : List RegistryRecord}

theorem leafHashes_same (hfree : CollisionFree rt (hashedTexts rt records ++ hashedTexts rt records'))
    (hne : records ≠ []) (hne' : records' ≠ [])
    (htop : Merkle.top (Merkle.levels (hashPair rt) (leafHashes rt records)) =
      Merkle.top (Merkle.levels (hashPair rt) (leafHashes rt records'))) :
    Merkle.Same (leafHashes rt records) (leafHashes rt records') := by
  let S : Set (JsText × JsText) := fun p => (Digest p.1 ∧ Digest p.2) ∧
    p.1 ++ p.2 ∈ hashedTexts rt records ++ hashedTexts rt records'
  have hinj : Set.InjOn (fun p : JsText × JsText => hashPair rt p.1 p.2) S := by
    intro p hp q hq hpq
    have htext := hfree.eq hp.2 hq.2 hpq
    have hlen : p.1.length = q.1.length := hp.1.1.1.trans hq.1.1.1.symm
    obtain ⟨hfst, hsnd⟩ := List.append_inj htext hlen
    exact Prod.ext hfst hsnd
  have hleaf {t : JsText} (ht : t ∈ hashedTexts rt records ++ hashedTexts rt records')
      (hnewline : '\n' ∈ t) (p : JsText × JsText) (hp : p ∈ S) :
      hashText rt t ≠ hashPair rt p.1 p.2 := by
    intro heq
    rw [hfree.eq ht hp.2 heq] at hnewline
    rcases List.mem_append.1 hnewline with hmem | hmem
    · exact hp.1.1.2 hmem
    · exact hp.1.2.2 hmem
  refine Merkle.same_of_top_eq (hashPair rt) hinj (leafHashes_ne_nil rt hne) (leafHashes_ne_nil rt hne')
    ?_ ?_ ?_ ?_ htop
  · exact fun p hp => ⟨digests_of_pair hp, List.mem_append_left _ (mem_hashedTexts_of_pair hp)⟩
  · exact fun p hp => ⟨digests_of_pair hp, List.mem_append_right _ (mem_hashedTexts_of_pair hp)⟩
  · intro a ha
    obtain ⟨record, htext, rfl⟩ := exists_of_mem_leafHashes ha
    exact hleaf (List.mem_append_left _ htext) (newline_mem_leafText rt record)
  · intro a ha
    obtain ⟨record, htext, rfl⟩ := exists_of_mem_leafHashes ha
    exact hleaf (List.mem_append_right _ htext) (newline_mem_leafText rt record)

/-- Records with different canonical texts have different leaves. -/
theorem nodup_leafHashes (hfree : CollisionFree rt (hashedTexts rt records))
    (hn : (records.map (canonicalText rt)).Nodup) : (leafHashes rt records).Nodup := by
  have hsorted : ((sortRecords rt records).map (canonicalText rt)).Nodup :=
    ((sortRecords_perm rt records).map _).nodup_iff.2 hn
  rw [leafHashes_eq]
  refine List.pairwise_map.2 ((List.pairwise_map.1 hsorted).imp_of_mem ?_)
  intro a b ha hb hab heq
  exact hab (canonicalText_of_leafText (hfree.eq (leafText_mem ha) (leafText_mem hb) heq))

end Binding

/-- **Binding**: lists with the same root hold the same canonical records. -/
def Binding (rt : Runtime) (records records' : List RegistryRecord) : Prop :=
  Accepted rt records → Accepted rt records' →
    CollisionFree rt (hashedTexts rt records ++ hashedTexts rt records') →
    buildMerkleRoot rt records = buildMerkleRoot rt records' →
    (records.map (canonicalizeRecord rt)).Perm (records'.map (canonicalizeRecord rt))

def exampleNamed (name : JsText) : RegistryRecord := { exampleRecord with name }

theorem exampleNamed_accepted (name : JsText) :
    ∃ canonical, canonicalizeRecord exampleRuntime (exampleNamed name) = .ok canonical :=
  ⟨_, rfl⟩

end Ddns.Core.Registry
