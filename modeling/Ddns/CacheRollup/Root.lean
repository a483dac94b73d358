import Ddns.CacheRollup.Ingested
import Ddns.Lib.Bytes
import Ddns.Lib.StableSort

/-!
# What a published root says

The root of a parent is published for a sorted list of its entries. The sort reads three fields only,
so entries that tie in them keep the order in which they came, and the tree pads an odd level with its
last node. `cacheRoot_iff` says when the order of the entries does not matter, and when no other
entries have the same root.
-/

namespace Ddns.CacheRollup

open Runs

/-- The comparison of hexadecimal texts is a total order. -/
structure HexOrder (rt : Platform) : Prop where
  transCmp : Std.TransCmp fun a b : Hex 64 => rt.localeCompare a.text b.text
  lawfulEqCmp : Std.LawfulEqCmp fun a b : Hex 64 => rt.localeCompare a.text b.text

/-- What is hashed for an entry. -/
def payload (rt : Platform) (e : StoredEntry) : List UInt8 :=
  (StoredEntry.toJson rt e).stringify.utf8

/-- The leaves of the tree. -/
def leaves (rt : Platform) (entries : List StoredEntry) : List Digest :=
  (sortEntries rt entries).map (hashEntry rt)

/-- What is hashed for the root of some entries. -/
def hashedBytes (rt : Platform) (entries : List StoredEntry) : List (List UInt8) :=
  (sortEntries rt entries).map (payload rt) ++
    (Merkle.hashedPairs (hashPair rt) (leaves rt entries)).map fun p => p.1.1 ++ p.2.1

/-- No two of the byte strings have the same digest. -/
def CollisionFree (rt : Platform) (hashed : List (List UInt8)) : Prop :=
  ∀ bytes ∈ hashed, ∀ bytes' ∈ hashed, rt.sha256 bytes = rt.sha256 bytes' → bytes = bytes'

instance (rt : Platform) (hashed : List (List UInt8)) : Decidable (CollisionFree rt hashed) :=
  inferInstanceAs (Decidable (∀ bytes ∈ hashed, ∀ bytes' ∈ hashed,
    rt.sha256 bytes = rt.sha256 bytes' → bytes = bytes'))

/-- The root that an answer has. -/
def Answer.root : Answer → Option JsText
  | .rolledUp doc _ => some doc.cacheRoot
  | _ => none

/-- The root that a rollup of a parent has after some requests; it is the same for every epoch, time
and network (`root_rollup`). -/
def publishedRoot (rt : Platform) (cfg : Config) (requests : List Request) (parent : JsText) :
    Option JsText :=
  (rollup rt cfg (exec (step rt cfg) FinMap.empty requests) parent [] 0
    ⟨true, true, fun _ => true⟩).root

/-- The entries of a parent that the requests have ingested. -/
def entriesFor (rt : Platform) (requests : List Request) (parent : JsText) : List StoredEntry :=
  ingested rt (sha256Hex rt (parentOf rt parent)) requests

/-- The same entries in another order have the same root. -/
def OrderFree (rt : Platform) (cfg : Config) (requests : List Request) (parent : JsText) : Prop :=
  ∀ requests', (entriesFor rt requests' parent).Perm (entriesFor rt requests parent) →
    publishedRoot rt cfg requests' parent = publishedRoot rt cfg requests parent

/-- Entries with the same root are the same, if nothing collides. -/
def Unique (rt : Platform) (cfg : Config) (requests : List Request) (parent : JsText) : Prop :=
  ∀ requests' root, publishedRoot rt cfg requests parent = some root →
    publishedRoot rt cfg requests' parent = some root →
    CollisionFree rt (hashedBytes rt (entriesFor rt requests parent) ++
      hashedBytes rt (entriesFor rt requests' parent)) →
    (entriesFor rt requests' parent).Perm (entriesFor rt requests parent)

/-- Entries that the sort does not tell apart. -/
structure Tie (a b : StoredEntry) : Prop where
  observedBucket : a.observedBucket = b.observedBucket
  nameHash : a.nameHash = b.nameHash
  rrsetHash : a.rrsetHash = b.rrsetHash

/-- Entries that tie are equal. -/
def TiesEqual (entries : List StoredEntry) : Prop := ∀ a ∈ entries, ∀ b ∈ entries, Tie a b → a = b

/-- There are at most two entries, or an even number of which the last in the sorted order occurs
once. -/
def Unpadded (rt : Platform) (entries : List StoredEntry) : Prop :=
  entries.length ≤ 2 ∨ entries.length % 2 = 0 ∧
    ∀ e, (sortEntries rt entries).getLast? = some e → entries.count e = 1

/-! ## Payloads -/

section Payloads

variable {rt : Platform}

theorem numeric_printed (rt : Platform) (v : Option ℚ) : (printed rt v).numeric := by
  cases v with
  | none => rfl
  | some q => exact rt.numberText.isNumText q

theorem numeric_toJson (rt : Platform) (e : StoredEntry) : (StoredEntry.toJson rt e).numeric := by
  unfold StoredEntry.toJson
  rw [Json.numeric_obj]
  intro f hf
  simp only [List.mem_cons, List.not_mem_nil, or_false] at hf
  rcases hf with rfl | rfl | rfl | rfl | rfl | rfl | rfl | rfl | rfl
  · rfl
  · rfl
  · rfl
  · rfl
  · exact numeric_printed rt e.ttlS
  · exact numeric_printed rt e.confidenceBps
  · exact numeric_printed rt (some (e.observedBucket.1 : ℚ))
  · rfl
  · rfl

theorem printed_inj {v v' : Option ℚ} (h : printed rt v = printed rt v') : v = v' := by
  cases v with
  | none =>
    cases v' with
    | none => rfl
    | some q => cases h
  | some q =>
    cases v' with
    | none => cases h
    | some q' => rw [rt.numberText.text_inj q q' (Json.num.inj h)]

theorem toJson_inj {e e' : StoredEntry} (h : StoredEntry.toJson rt e = StoredEntry.toJson rt e') :
    e = e' := by
  unfold StoredEntry.toJson at h
  simp only [Json.obj.injEq, List.cons.injEq, Prod.mk.injEq, Json.str.injEq, true_and, and_true]
    at h
  obtain ⟨hname, hparent, hrrset, httl, hconfidence, hbucket, hwitness, hsignature⟩ := h
  have hbucket' : (e.observedBucket.1 : ℚ) = e'.observedBucket.1 :=
    Option.some.inj (printed_inj hbucket)
  obtain ⟨name, parent, rrset, ttl, confidence, bucket, witness, signature⟩ := e
  obtain ⟨name', parent', rrset', ttl', confidence', bucket', witness', signature'⟩ := e'
  obtain rfl := Hex.text_inj hname
  obtain rfl := Hex.text_inj hparent
  obtain rfl := Hex.text_inj hrrset
  obtain rfl := printed_inj httl
  obtain rfl := printed_inj hconfidence
  obtain rfl : bucket = bucket' := Subtype.ext (Nat.cast_injective hbucket')
  obtain rfl := Hex.text_inj hwitness
  obtain rfl := Hex.text_inj hsignature
  rfl

/-- Different entries have different payloads. -/
theorem payload_inj {e e' : StoredEntry} (h : payload rt e = payload rt e') : e = e' :=
  toJson_inj (Json.stringify_inj (numeric_toJson rt e) (numeric_toJson rt e') (JsText.utf8_inj h))

theorem length_le_length_utf8 (t : JsText) : t.length ≤ t.utf8.length := by
  induction t with
  | nil => exact Nat.le_refl 0
  | cons c t ih =>
    have hpos : 0 < (String.utf8EncodeChar c).length := by
      rw [String.length_utf8EncodeChar]
      exact c.utf8Size_pos
    unfold JsText.utf8 at ih ⊢
    rw [List.flatMap_cons, List.length_append, List.length_cons]
    omega

theorem length_le_length_quote (t : JsText) : t.length ≤ (Json.quote t).length := by
  have hescape (c : Char) : 0 < (Json.escape c).length := by
    unfold Json.escape
    dsimp only
    split_ifs <;> exact Nat.succ_pos _
  have hflat : t.length ≤ (t.flatMap Json.escape).length := by
    induction t with
    | nil => exact Nat.le_refl 0
    | cons c t ih =>
      have hc := hescape c
      rw [List.flatMap_cons, List.length_append, List.length_cons]
      omega
  unfold Json.quote
  rw [List.length_cons, List.length_append]
  omega

theorem length_le_length_join {sep t : JsText} {ts : List JsText} (h : t ∈ ts) :
    t.length ≤ (JsText.join sep ts).length := by
  unfold JsText.join
  induction ts with
  | nil => cases h
  | cons u ts ih =>
    cases ts with
    | nil =>
      rw [List.mem_singleton.1 h, List.intercalate_singleton]
    | cons v ts =>
      rw [List.intercalate_cons_of_ne_nil (List.cons_ne_nil v ts), List.length_append,
        List.length_append]
      rcases List.mem_cons.1 h with rfl | h
      · omega
      · have hle := ih h
        omega

/-- An object is printed longer than its properties. -/
theorem length_le_length_stringify {fields : List (JsText × Json)} {f : JsText × Json}
    (h : f ∈ fields) : f.2.stringify.length ≤ (Json.obj fields).stringify.length := by
  have hfield : Json.quote f.1 ++ ':' :: f.2.stringify ∈
      (Json.printFields id fields).map fun f => Json.quote f.1 ++ ':' :: f.2 := by
    rw [Json.printFields_eq_map, List.map_map]
    exact List.mem_map.2 ⟨f, h, rfl⟩
  have hjoin := @length_le_length_join [','] _ _ hfield
  have htext : (Json.obj fields).stringify.length = (JsText.join [',']
      ((Json.printFields id fields).map fun f => Json.quote f.1 ++ ':' :: f.2)).length + 2 := by
    simp [Json.stringify, Json.print, Json.braces]
  rw [List.length_append, List.length_cons] at hjoin
  omega

/-- A payload is longer than two digests. -/
theorem lt_length_payload (rt : Platform) (e : StoredEntry) : 64 < (payload rt e).length := by
  have hfield : (signatureKey, Json.str e.signature.text) ∈
      [(versionKey, .num ['1']), (nameHashKey, .str e.nameHash.text),
        (parentNameHashKey, .str e.parentNameHash.text), (rrsetHashKey, .str e.rrsetHash.text),
        (ttlKey, printed rt e.ttlS), (confidenceKey, printed rt e.confidenceBps),
        (bucketKey, printed rt (some (e.observedBucket.1 : ℚ))),
        (witnessKey, .str e.witnessPubkey.text), (signatureKey, .str e.signature.text)] := by
    simp
  have hfields : (Json.quote e.signature.text).length ≤ (StoredEntry.toJson rt e).stringify.length :=
    length_le_length_stringify hfield
  have hquote := length_le_length_quote e.signature.text
  have hlen := e.signature.length_eq
  have hbytes := length_le_length_utf8 (StoredEntry.toJson rt e).stringify
  unfold payload
  omega

end Payloads

/-! ## The sorted entries -/

section Sorted

variable {rt : Platform} {l l' : List StoredEntry}

theorem HexOrder.transCmp_compareEntries (h : HexOrder rt) : Std.TransCmp (compareEntries rt) := by
  have := h.transCmp
  have hhex (key : StoredEntry → Hex 64) : Std.TransCmp fun a b =>
      rt.localeCompare (key a).text (key b).text :=
    @StableSort.transCmp_key _ _ (fun a b : Hex 64 => rt.localeCompare a.text b.text) _ key
  have hname := hhex CacheEntryV1.nameHash
  have hrrset := hhex CacheEntryV1.rrsetHash
  have hbucket : Std.TransCmp (compareOn fun e : StoredEntry => e.observedBucket.1) :=
    inferInstance
  exact inferInstanceAs (Std.TransCmp (compareLex _ (compareLex _ _)))

theorem sortEntries_perm (rt : Platform) (l : List StoredEntry) : (sortEntries rt l).Perm l :=
  List.perm_insertionSort _ l

/-- Entries tie if the comparison does not tell them apart. -/
theorem HexOrder.tie_iff (h : HexOrder rt) {a b : StoredEntry} :
    (compareEntries rt a b).isLE = true ∧ (compareEntries rt b a).isLE = true ↔ Tie a b := by
  have := h.transCmp_compareEntries
  have := h.transCmp
  have := h.lawfulEqCmp
  have hhex {x y : Hex 64} : rt.localeCompare x.text y.text = .eq ↔ x = y :=
    @Std.LawfulEqCmp.compare_eq_iff_eq _ (fun a b : Hex 64 => rt.localeCompare a.text b.text) _ _ _
  have heq : compareEntries rt a b = .eq ↔ Tie a b := by
    unfold compareEntries compareLex compareOn
    rw [Ordering.then_eq_eq, Ordering.then_eq_eq, hhex, hhex, compare_eq_iff_eq]
    constructor
    · rintro ⟨hbucket, hname, hrrset⟩
      exact ⟨Subtype.ext hbucket, hname, hrrset⟩
    · rintro ⟨hbucket, hname, hrrset⟩
      exact ⟨congrArg Subtype.val hbucket, hname, hrrset⟩
  rw [← heq]
  constructor
  · rintro ⟨hab, hba⟩
    exact Std.OrientedCmp.isLE_antisymm hab hba
  · intro hab
    have hba : compareEntries rt b a = .eq := Std.OrientedCmp.eq_comm.1 hab
    rw [hab, hba]
    exact ⟨rfl, rfl⟩

/-- The order of the entries can be read off, exactly if different ones tie. -/
theorem HexOrder.sortEntries_perm_iff (h : HexOrder rt) :
    (∀ l', l'.Perm l → sortEntries rt l' = sortEntries rt l) ↔ TiesEqual l := by
  have := h.transCmp_compareEntries
  have : Std.Total fun a b => (compareEntries rt a b).isLE = true := StableSort.total_key id
  have : IsTrans StoredEntry fun a b => (compareEntries rt a b).isLE = true :=
    StableSort.isTrans_key id
  refine StableSort.insertionSort_perm_iff.trans ?_
  refine forall₂_congr fun a _ => forall₂_congr fun b _ => ?_
  rw [← and_imp, h.tie_iff]

/-- A sorted list that goes on with entries of its own repeats the last one. -/
theorem HexOrder.eq_last (h : HexOrder rt) {s r : List StoredEntry} {x : StoredEntry}
    (hsorted : (s ++ r).Pairwise fun a b => (compareEntries rt a b).isLE = true)
    (hmem : ∀ b ∈ r, b ∈ s) (hlast : s.getLast? = some x)
    (hties : ∀ b ∈ r, Tie x b → x = b) : ∀ b ∈ r, b = x := by
  have := h.transCmp_compareEntries
  obtain ⟨t, rfl⟩ := List.getLast?_eq_some_iff.1 hlast
  obtain ⟨hs, -, hcross⟩ := List.pairwise_append.1 hsorted
  intro b hb
  have hxb : (compareEntries rt x b).isLE = true :=
    hcross x (List.mem_append_right t List.mem_cons_self) b hb
  have hbx : (compareEntries rt b x).isLE = true := by
    rcases List.mem_append.1 (hmem b hb) with hbt | hbx
    · exact (List.pairwise_append.1 hs).2.2 b hbt x List.mem_cons_self
    · rw [List.mem_singleton.1 hbx]
      exact Std.ReflCmp.isLE_rfl
  exact (hties b hb (h.tie_iff.1 ⟨hxb, hbx⟩)).symm

theorem HexOrder.pairwise (h : HexOrder rt) (l : List StoredEntry) :
    (sortEntries rt l).Pairwise fun a b => (compareEntries rt a b).isLE = true := by
  have := h.transCmp_compareEntries
  have : Std.Total fun a b => (compareEntries rt a b).isLE = true := StableSort.total_key id
  have : IsTrans StoredEntry fun a b => (compareEntries rt a b).isLE = true :=
    StableSort.isTrans_key id
  exact List.pairwise_insertionSort _ l

end Sorted

/-! ## The tree -/

section Tree

variable {rt : Platform} {hashed : List (List UInt8)} {l l' : List StoredEntry}

/-- Two nodes whose bytes are among those that are hashed. -/
def HashedPair (hashed : List (List UInt8)) : Set (Digest × Digest) :=
  {p | p.1.1 ++ p.2.1 ∈ hashed}

theorem injOn_hashPair (hfree : CollisionFree rt hashed) :
    Set.InjOn (fun p : Digest × Digest => hashPair rt p.1 p.2) (HashedPair hashed) := by
  intro p hp q hq hpq
  have hbytes := hfree _ hp _ hq hpq
  have hlen : p.1.1.length = q.1.1.length := p.1.2.trans q.1.2.symm
  obtain ⟨hfst, hsnd⟩ := List.append_inj hbytes hlen
  exact Prod.ext (Subtype.ext hfst) (Subtype.ext hsnd)

theorem payload_mem {e : StoredEntry} (h : e ∈ sortEntries rt l) :
    payload rt e ∈ hashedBytes rt l :=
  List.mem_append_left _ (List.mem_map_of_mem h)

theorem pair_mem (hsub : hashedBytes rt l ⊆ hashed) :
    ∀ p ∈ Merkle.hashedPairs (hashPair rt) (leaves rt l), p ∈ HashedPair hashed :=
  fun p hp => hsub (List.mem_append_right _ (List.mem_map.2 ⟨p, hp, rfl⟩))

/-- A leaf is no node. -/
theorem leaf_ne (hfree : CollisionFree rt hashed) (hsub : hashedBytes rt l ⊆ hashed) :
    ∀ a ∈ leaves rt l, ∀ p ∈ HashedPair hashed, a ≠ hashPair rt p.1 p.2 := by
  intro a ha p hp heq
  obtain ⟨e, he, rfl⟩ := List.mem_map.1 ha
  have hbytes := hfree _ (hsub (payload_mem he)) _ hp heq
  have hlen := congrArg List.length hbytes
  rw [List.length_append, p.1.2, p.2.2] at hlen
  have hlong := lt_length_payload rt e
  omega

theorem hashEntry_inj (hfree : CollisionFree rt hashed) (hsub : hashedBytes rt l ⊆ hashed)
    (hsub' : hashedBytes rt l' ⊆ hashed) : ∀ a ∈ sortEntries rt l, ∀ b ∈ sortEntries rt l',
      hashEntry rt a = hashEntry rt b → a = b :=
  fun _ ha _ hb hab => payload_inj (hfree _ (hsub (payload_mem ha)) _ (hsub' (payload_mem hb)) hab)

theorem leaves_ne_nil (rt : Platform) (h : l ≠ []) : leaves rt l ≠ [] := by
  intro hnil
  exact h (List.map_eq_nil_iff.1 hnil ▸ sortEntries_perm rt l).symm.eq_nil

theorem length_leaves (rt : Platform) (l : List StoredEntry) : (leaves rt l).length = l.length := by
  rw [leaves, List.length_map, (sortEntries_perm rt l).length_eq]

theorem cacheRootHex_eq_iff (hne : l ≠ []) (hne' : l' ≠ []) :
    cacheRootHex rt l = cacheRootHex rt l' ↔
      Merkle.top (Merkle.levels (hashPair rt) (leaves rt l)) =
        Merkle.top (Merkle.levels (hashPair rt) (leaves rt l')) := by
  obtain ⟨a, ha⟩ := Merkle.top_isSome (hashPair rt) (leaves_ne_nil rt hne)
  obtain ⟨a', ha'⟩ := Merkle.top_isSome (hashPair rt) (leaves_ne_nil rt hne')
  have hroot : merkleRoot rt (leaves rt l) = a := congrArg (Option.getD · _) ha
  have hroot' : merkleRoot rt (leaves rt l') = a' := congrArg (Option.getD · _) ha'
  unfold leaves at hroot hroot'
  unfold cacheRootHex
  rw [hroot, hroot', ha, ha', Option.some.injEq]
  constructor
  · exact fun h => Subtype.ext (Hex.ofBytes_inj h)
  · rintro rfl
    rfl

/-- **Binding** of entries: the longer sorted list goes on with entries of the shorter one. -/
theorem extends_of_root (hfree : CollisionFree rt hashed) (hsub : hashedBytes rt l ⊆ hashed)
    (hsub' : hashedBytes rt l' ⊆ hashed) (hne : l ≠ []) (hlen : l.length ≤ l'.length)
    (hroot : cacheRootHex rt l = cacheRootHex rt l') :
    Merkle.Extends (sortEntries rt l) (sortEntries rt l') := by
  have hne' : l' ≠ [] := by
    have hpos := List.length_pos_iff.2 hne
    exact List.ne_nil_of_length_pos (by omega)
  have hlen' : (leaves rt l).length ≤ (leaves rt l').length := by
    rw [length_leaves, length_leaves]
    exact hlen
  refine Merkle.Extends.of_map (hashEntry_inj hfree hsub hsub') ?_
  exact Merkle.extends_of_top_eq (hashPair rt) (injOn_hashPair hfree) (leaves_ne_nil rt hne) hlen'
    (pair_mem hsub) (pair_mem hsub') (leaf_ne hfree hsub) (leaf_ne hfree hsub')
    ((cacheRootHex_eq_iff hne hne').1 hroot)

theorem height_eq (hfree : CollisionFree rt hashed) (hsub : hashedBytes rt l ⊆ hashed)
    (hsub' : hashedBytes rt l' ⊆ hashed) (hne : l ≠ []) (hne' : l' ≠ [])
    (hroot : cacheRootHex rt l = cacheRootHex rt l') :
    (Merkle.levels (hashPair rt) (leaves rt l)).length =
      (Merkle.levels (hashPair rt) (leaves rt l')).length :=
  Merkle.height_eq (hashPair rt) (injOn_hashPair hfree) (leaves_ne_nil rt hne) (leaves_ne_nil rt hne')
    (pair_mem hsub) (pair_mem hsub') (leaf_ne hfree hsub) (leaf_ne hfree hsub')
    ((cacheRootHex_eq_iff hne hne').1 hroot)

end Tree

/-! ## Unique roots -/

section Uniqueness

variable {rt : Platform} {hashed : List (List UInt8)} {l l' : List StoredEntry}

theorem count_sortEntries (rt : Platform) (l : List StoredEntry) (e : StoredEntry) :
    (sortEntries rt l).count e = l.count e :=
  (sortEntries_perm rt l).count_eq e

theorem exists_last (rt : Platform) (h : l ≠ []) : ∃ e, (sortEntries rt l).getLast? = some e := by
  cases hlast : (sortEntries rt l).getLast? with
  | none =>
    have hnil := List.getLast?_eq_none_iff.1 hlast
    exact absurd (hnil ▸ sortEntries_perm rt l).symm.eq_nil h
  | some e => exact ⟨e, rfl⟩

/-- No shorter list has the root of an unpadded one. -/
theorem not_shorter (horder : HexOrder rt) (hfree : CollisionFree rt hashed)
    (hsub : hashedBytes rt l ⊆ hashed) (hsub' : hashedBytes rt l' ⊆ hashed)
    (hties : TiesEqual l) (hunpadded : Unpadded rt l) (hne : l ≠ []) (hne' : l' ≠ [])
    (hroot : cacheRootHex rt l' = cacheRootHex rt l) : ¬l'.length < l.length := by
  intro hlt
  have hextends := extends_of_root hfree hsub' hsub hne' hlt.le hroot
  have hheight := height_eq hfree hsub' hsub hne' hne hroot
  rcases hunpadded with hshort | ⟨-, honce⟩
  · have hlen := Merkle.length_eq_of_height (hashPair rt) (leaves_ne_nil rt hne')
      (by rw [length_leaves]; omega) (by rw [length_leaves, length_leaves]; omega) hheight
    rw [length_leaves, length_leaves] at hlen
    omega
  · -- the longer list ends in copies of the last entry of the shorter one
    obtain ⟨r, hr⟩ := hextends.isPrefix
    have hmem : ∀ b ∈ r, b ∈ sortEntries rt l' := fun b hb =>
      hextends.mem b (hr ▸ List.mem_append_right _ hb)
    have hentry : ∀ b ∈ sortEntries rt l, b ∈ l := fun b hb =>
      (sortEntries_perm rt l).mem_iff.1 hb
    have hlen := congrArg List.length hr
    rw [List.length_append, (sortEntries_perm rt l).length_eq, (sortEntries_perm rt l').length_eq]
      at hlen
    obtain ⟨y, hy⟩ := exists_last rt hne'
    have hyl' : y ∈ sortEntries rt l' := List.mem_of_getLast? hy
    have hyl : y ∈ l := hentry y (hr ▸ List.mem_append_left _ hyl')
    have hsorted := horder.pairwise l
    rw [← hr] at hsorted
    have hall := horder.eq_last hsorted hmem hy fun b hb =>
      hties y hyl b (hentry b (hr ▸ List.mem_append_right _ hb))
    obtain ⟨b, t, rfl⟩ := List.exists_cons_of_ne_nil (l := r) (by
      rintro rfl
      simp at hlen
      omega)
    have hlast : (sortEntries rt l).getLast? = some y := by
      obtain ⟨z, hz⟩ : ∃ z, (b :: t).getLast? = some z :=
        ⟨_, List.getLast?_eq_some_getLast (List.cons_ne_nil b t)⟩
      rw [← hr, List.getLast?_append, hz, hall z (List.mem_of_getLast? hz)]
      rfl
    have hcount := honce y hlast
    have hpos := List.count_pos_iff.2 hyl'
    have hposr : 0 < (b :: t).count y := by
      refine List.count_pos_iff.2 ?_
      rw [hall b List.mem_cons_self]
      exact List.mem_cons_self
    rw [← count_sortEntries rt l, ← hr, List.count_append] at hcount
    omega

/-- No other list has the root of an unpadded one. -/
theorem perm_of_root (horder : HexOrder rt) (hfree : CollisionFree rt hashed)
    (hsub : hashedBytes rt l ⊆ hashed) (hsub' : hashedBytes rt l' ⊆ hashed)
    (hties : TiesEqual l) (hunpadded : Unpadded rt l) (hne : l ≠ []) (hne' : l' ≠ [])
    (hroot : cacheRootHex rt l' = cacheRootHex rt l) : l'.Perm l := by
  have hlen := Nat.not_lt.1 (not_shorter horder hfree hsub hsub' hties hunpadded hne hne' hroot)
  have hextends := extends_of_root hfree hsub hsub' hne hlen hroot.symm
  have hheight := height_eq hfree hsub hsub' hne hne' hroot.symm
  obtain ⟨r, hr⟩ := hextends.isPrefix
  by_cases hnil : r = []
  · rw [hnil, List.append_nil] at hr
    exact (sortEntries_perm rt l').symm.trans (hr ▸ sortEntries_perm rt l)
  · exfalso
    have hlong := congrArg List.length hr
    have hrpos := List.length_pos_iff.2 hnil
    rw [List.length_append, (sortEntries_perm rt l).length_eq, (sortEntries_perm rt l').length_eq]
      at hlong
    by_cases hshort : l.length ≤ 2
    · have hlen := Merkle.length_eq_of_height (hashPair rt) (leaves_ne_nil rt hne)
        (by rw [length_leaves]; omega) (by rw [length_leaves, length_leaves]; omega) hheight
      rw [length_leaves, length_leaves] at hlen
      omega
    · obtain ⟨heven, honce⟩ := hunpadded.resolve_left hshort
      obtain ⟨x, hx⟩ := exists_last rt hne
      have hentry : ∀ b ∈ sortEntries rt l, b ∈ l := fun b hb =>
        (sortEntries_perm rt l).mem_iff.1 hb
      have hmem : ∀ b ∈ r, b ∈ sortEntries rt l := fun b hb =>
        hextends.mem b (hr ▸ List.mem_append_right _ hb)
      have hsorted := horder.pairwise l'
      rw [← hr] at hsorted
      have hall := horder.eq_last hsorted hmem hx fun b hb =>
        hties x (hentry x (List.mem_of_getLast? hx)) b (hentry b (hmem b hb))
      have hleaves : leaves rt l' = leaves rt l ++ r.map (hashEntry rt) := by
        rw [leaves, ← hr, List.map_append, leaves]
      have honce' : hashEntry rt x ∉ (leaves rt l).dropLast := by
        obtain ⟨t, ht⟩ := List.getLast?_eq_some_iff.1 hx
        have hcount := honce x hx
        rw [← count_sortEntries rt l, ht, List.count_append, List.count_singleton_self] at hcount
        intro hdrop
        rw [leaves, ht, List.map_append, List.map_singleton, List.dropLast_concat] at hdrop
        obtain ⟨b, hb, hbx⟩ := List.mem_map.1 hdrop
        have hbt : b ∈ sortEntries rt l := ht ▸ List.mem_append_left _ hb
        obtain rfl := hashEntry_inj hfree hsub hsub b hbt x (List.mem_of_getLast? hx) hbx
        have hpos := List.count_pos_iff.2 hb
        omega
      refine Merkle.top_append_ne (hashPair rt) (injOn_hashPair hfree) (r := r.map (hashEntry rt))
        ?_ ?_ (pair_mem hsub) ?_ ?_ ?_ ?_ honce' ?_
      · rw [length_leaves]
        exact heven
      · rw [length_leaves]
        omega
      · rw [← hleaves]
        exact pair_mem hsub'
      · rw [← hleaves]
        exact hheight
      · exact fun hmap => hnil (List.map_eq_nil_iff.1 hmap)
      · intro c hc
        obtain ⟨b, hb, rfl⟩ := List.mem_map.1 hc
        rw [hall b hb]
      · rw [← hleaves]
        exact (cacheRootHex_eq_iff hne hne').1 hroot.symm

/-! ## Other entries with the same root -/

theorem HexOrder.sortEntries_eq (h : HexOrder rt)
    (hl : l.Pairwise fun a b => (compareEntries rt a b).isLE = true) : sortEntries rt l = l := by
  have := h.transCmp_compareEntries
  have : Std.Total fun a b => (compareEntries rt a b).isLE = true := StableSort.total_key id
  have : IsTrans StoredEntry fun a b => (compareEntries rt a b).isLE = true :=
    StableSort.isTrans_key id
  exact hl.insertionSort_eq

/-- The padding of sorted entries written out. -/
theorem root_concat_last {s : List StoredEntry} {x : StoredEntry} (hs : sortEntries rt s = s)
    (hs' : sortEntries rt (s ++ [x]) = s ++ [x]) (hodd : s.length % 2 = 1) (hlong : 1 < s.length)
    (hlast : s.getLast? = some x) : cacheRootHex rt (s ++ [x]) = cacheRootHex rt s ∧
      ∀ bytes, bytes ∈ hashedBytes rt (s ++ [x]) ↔ bytes ∈ hashedBytes rt s := by
  have hleaves : leaves rt (s ++ [x]) = leaves rt s ++ [hashEntry rt x] := by
    rw [leaves, hs', List.map_append, leaves, hs, List.map_singleton]
  have hlen := length_leaves rt s
  have hlast' : (leaves rt s).getLast? = some (hashEntry rt x) := by
    rw [leaves, hs, List.getLast?_map, hlast, Option.map_some]
  constructor
  · rw [cacheRootHex_eq_iff (by simp) (List.ne_nil_of_length_pos (by omega)), hleaves]
    exact Merkle.top_concat_last (hashPair rt) (by omega) (by omega) hlast'
  · intro bytes
    have hmem : payload rt x ∈ s.map (payload rt) := List.mem_map_of_mem (List.mem_of_getLast? hlast)
    unfold hashedBytes
    rw [hleaves, Merkle.hashedPairs_concat_last (hashPair rt) (by omega) (by omega) hlast', hs', hs]
    simp only [List.map_append, List.map_singleton, List.mem_append, List.mem_singleton]
    constructor
    · rintro ((hbytes | rfl) | hbytes)
      · exact .inl hbytes
      · exact .inl hmem
      · exact .inr hbytes
    · rintro (hbytes | hbytes)
      · exact .inl (.inl hbytes)
      · exact .inr hbytes

/-- A padded list has the root of another one, which hashes the same. -/
theorem exists_same_root (horder : HexOrder rt) (hties : TiesEqual l) (h : ¬Unpadded rt l) :
    ∃ l', (∀ e ∈ l', e ∈ l) ∧ l' ≠ [] ∧ l'.length ≠ l.length ∧
      cacheRootHex rt l' = cacheRootHex rt l ∧
      ∀ bytes, bytes ∈ hashedBytes rt l' → bytes ∈ hashedBytes rt l := by
  obtain ⟨hlong, hpadded⟩ := not_or.1 h
  have := horder.transCmp_compareEntries
  have hne : l ≠ [] := List.ne_nil_of_length_pos (by omega)
  obtain ⟨x, hx⟩ := exists_last rt hne
  have hsorted := horder.pairwise l
  have hself := horder.sortEntries_eq hsorted
  have hlen := (sortEntries_perm rt l).length_eq
  have hentry : ∀ b ∈ sortEntries rt l, b ∈ l := fun b hb => (sortEntries_perm rt l).mem_iff.1 hb
  have hroot : cacheRootHex rt (sortEntries rt l) = cacheRootHex rt l := by
    unfold cacheRootHex
    rw [hself]
  have hbytes : hashedBytes rt (sortEntries rt l) = hashedBytes rt l := by
    unfold hashedBytes leaves
    rw [hself]
  obtain ⟨t, ht⟩ := List.getLast?_eq_some_iff.1 hx
  by_cases hodd : l.length % 2 = 1
  · -- the last entry once more
    have hsorted' : (sortEntries rt l ++ [x]).Pairwise fun a b =>
        (compareEntries rt a b).isLE = true := by
      refine List.pairwise_append.2 ⟨hsorted, List.pairwise_singleton _ _, fun a ha b hb => ?_⟩
      rw [List.mem_singleton.1 hb]
      rw [ht] at ha hsorted
      rcases List.mem_append.1 ha with ha | ha
      · exact (List.pairwise_append.1 hsorted).2.2 a ha x List.mem_cons_self
      · rw [List.mem_singleton.1 ha]
        exact Std.ReflCmp.isLE_rfl
    obtain ⟨hsame, hhashed⟩ := root_concat_last hself (horder.sortEntries_eq hsorted') (by omega)
      (by omega) hx
    refine ⟨sortEntries rt l ++ [x], ?_, by simp, ?_, hsame.trans hroot, fun bytes h => ?_⟩
    · intro e he
      rcases List.mem_append.1 he with he | he
      · exact hentry e he
      · rw [List.mem_singleton.1 he]
        exact hentry x (List.mem_of_getLast? hx)
    · rw [List.length_append, hlen, List.length_singleton]
      omega
    · exact hbytes ▸ (hhashed bytes).1 h
  · -- the last entry once less
    have hnot : ∃ e, (sortEntries rt l).getLast? = some e ∧ l.count e ≠ 1 := by
      by_contra hnone
      exact hpadded ⟨by omega, fun e he => by_contra fun hcount => hnone ⟨e, he, hcount⟩⟩
    obtain ⟨e, he, hcount⟩ := hnot
    obtain rfl : x = e := Option.some.inj (hx.symm.trans he)
    have hxt : x ∈ t := by
      rw [← count_sortEntries rt l, ht, List.count_append, List.count_singleton_self] at hcount
      exact List.count_pos_iff.1 (by omega)
    rw [ht] at hsorted
    obtain ⟨ht', -, hcross⟩ := List.pairwise_append.1 hsorted
    have htlen : t.length + 1 = l.length := by
      rw [← hlen, ht, List.length_append, List.length_singleton]
    obtain ⟨y, hy⟩ : ∃ y, t.getLast? = some y :=
      ⟨_, List.getLast?_eq_some_getLast (List.ne_nil_of_mem hxt)⟩
    have hyt : y ∈ t := List.mem_of_getLast? hy
    obtain ⟨u, hu⟩ := List.getLast?_eq_some_iff.1 hy
    have hle : (compareEntries rt x y).isLE = true := by
      rw [hu] at hxt ht'
      rcases List.mem_append.1 hxt with hxu | hxy
      · exact (List.pairwise_append.1 ht').2.2 x hxu y List.mem_cons_self
      · rw [List.mem_singleton.1 hxy]
        exact Std.ReflCmp.isLE_rfl
    have hlt : t ⊆ l := fun b hb => hentry b (ht ▸ List.mem_append_left _ hb)
    obtain rfl : x = y := hties x (hlt hxt) y (hlt hyt)
      (horder.tie_iff.1 ⟨hle, hcross y hyt x List.mem_cons_self⟩)
    obtain ⟨hsame, hhashed⟩ := root_concat_last (horder.sortEntries_eq ht')
      (ht ▸ hself) (by omega) (by omega) hy
    refine ⟨t, fun b hb => hlt hb, List.ne_nil_of_mem hxt, by omega, ?_, fun bytes h => ?_⟩
    · rw [← hsame, ← ht, hroot]
    · rw [← hbytes, ht]
      exact (hhashed bytes).2 h

end Uniqueness

/-! ## Published roots -/

section Published

variable {rt : Platform} {cfg : Config} {requests : List Request} {parent : JsText}

theorem root_rollup (rt : Platform) (cfg : Config) (files : Files) (parent epoch : JsText) (now : ℕ)
    (net : Network) (h : parentOf rt parent ≠ []) :
    (rollup rt cfg files parent epoch now net).root =
      (files.get (sha256Hex rt (parentOf rt parent))).map (cacheRootHex rt) := by
  unfold rollup
  dsimp only
  rw [if_neg h]
  cases files.get (sha256Hex rt (parentOf rt parent)) with
  | none => rfl
  | some lines => rfl

theorem publishedRoot_eq (cfg : Config) (requests : List Request) (h : parentOf rt parent ≠ []) :
    publishedRoot rt cfg requests parent =
      if entriesFor rt requests parent = [] then none
      else some (cacheRootHex rt (entriesFor rt requests parent)) := by
  rw [publishedRoot, root_rollup rt cfg _ parent _ _ _ h, get_exec_empty]
  exact apply_ite (Option.map (cacheRootHex rt)) _ _ _

/-- The root does not depend on the order, exactly if entries that tie are equal. -/
theorem orderFree_iff (cfg : Config) (horder : HexOrder rt) (hparent : parentOf rt parent ≠ [])
    (hfree : ∀ l, l.Perm (entriesFor rt requests parent) →
      CollisionFree rt (hashedBytes rt (entriesFor rt requests parent) ++ hashedBytes rt l)) :
    OrderFree rt cfg requests parent ↔ TiesEqual (entriesFor rt requests parent) := by
  constructor
  · intro h
    refine horder.sortEntries_perm_iff.1 fun l hl => ?_
    have hmem : ∀ e ∈ l, e ∈ entriesFor rt requests parent := fun e he => hl.mem_iff.1 he
    obtain ⟨requests', hrequests'⟩ := exists_requests hmem
    by_cases hnil : entriesFor rt requests parent = []
    · rw [hnil] at hl ⊢
      rw [hl.eq_nil]
    · have hperm : (entriesFor rt requests' parent).Perm (entriesFor rt requests parent) := by
        rw [entriesFor, hrequests']
        exact hl
      have hnil' : entriesFor rt requests' parent ≠ [] := fun h' =>
        hnil (h' ▸ hperm).symm.eq_nil
      have hroot := h requests' hperm
      rw [publishedRoot_eq cfg _ hparent, publishedRoot_eq cfg _ hparent, if_neg hnil, if_neg hnil',
        Option.some.injEq] at hroot
      have hextends := extends_of_root (hfree _ hperm) (List.subset_append_left _ _)
        (List.subset_append_right _ _) hnil hperm.length_eq.ge hroot.symm
      have heq : sortEntries rt (entriesFor rt requests parent) =
          sortEntries rt (entriesFor rt requests' parent) := by
        refine hextends.isPrefix.eq_of_length ?_
        rw [(sortEntries_perm rt _).length_eq, (sortEntries_perm rt _).length_eq, hperm.length_eq]
      rw [heq, entriesFor, hrequests']
  · intro hties requests' hperm
    have hsort := horder.sortEntries_perm_iff.2 hties _ hperm
    rw [publishedRoot_eq cfg _ hparent, publishedRoot_eq cfg _ hparent]
    have hnil : entriesFor rt requests' parent = [] ↔ entriesFor rt requests parent = [] :=
      ⟨fun h => (h ▸ hperm).symm.eq_nil, fun h => (h ▸ hperm).eq_nil⟩
    simp only [hnil, cacheRootHex, hsort]

/-- No other entries have the root, exactly if it is not padded. -/
theorem unique_iff (cfg : Config) (horder : HexOrder rt) (hparent : parentOf rt parent ≠ [])
    (hfree : CollisionFree rt (hashedBytes rt (entriesFor rt requests parent)))
    (hties : TiesEqual (entriesFor rt requests parent)) :
    Unique rt cfg requests parent ↔ Unpadded rt (entriesFor rt requests parent) := by
  constructor
  · intro h
    by_contra hpadded
    obtain ⟨l, hmem, hne, hlen, hroot, hbytes⟩ := exists_same_root horder hties hpadded
    obtain ⟨requests', hrequests'⟩ := exists_requests hmem
    have hentries : entriesFor rt requests' parent = l := hrequests'
    have hne' : entriesFor rt requests parent ≠ [] := by
      obtain ⟨e, t, rfl⟩ := List.exists_cons_of_ne_nil hne
      exact List.ne_nil_of_mem (hmem e List.mem_cons_self)
    have hfirst : publishedRoot rt cfg requests parent =
        some (cacheRootHex rt (entriesFor rt requests parent)) := by
      rw [publishedRoot_eq cfg _ hparent, if_neg hne']
    have hsecond : publishedRoot rt cfg requests' parent =
        some (cacheRootHex rt (entriesFor rt requests parent)) := by
      rw [publishedRoot_eq cfg _ hparent, hentries, if_neg hne, hroot]
    have hall : ∀ bytes ∈ hashedBytes rt (entriesFor rt requests parent) ++ hashedBytes rt l,
        bytes ∈ hashedBytes rt (entriesFor rt requests parent) := by
      intro bytes hmem
      rcases List.mem_append.1 hmem with hmem | hmem
      · exact hmem
      · exact hbytes bytes hmem
    have hperm := h requests' _ hfirst hsecond (by
      rw [hentries]
      exact fun bytes hb bytes' hb' => hfree bytes (hall bytes hb) bytes' (hall bytes' hb'))
    rw [hentries] at hperm
    exact hlen hperm.length_eq
  · intro hunpadded requests' root hroot hroot' hfree'
    rw [publishedRoot_eq cfg _ hparent] at hroot hroot'
    by_cases hnil : entriesFor rt requests parent = []
    · rw [if_pos hnil] at hroot
      cases hroot
    · by_cases hnil' : entriesFor rt requests' parent = []
      · rw [if_pos hnil'] at hroot'
        cases hroot'
      · rw [if_neg hnil, Option.some.injEq] at hroot
        rw [if_neg hnil', Option.some.injEq] at hroot'
        exact perm_of_root horder hfree' (List.subset_append_left _ _)
          (List.subset_append_right _ _) hties hunpadded hnil hnil' (hroot'.trans hroot.symm)

end Published

def exampleSign (q : ℚ) : Char := if q.num < 0 then '-' else '+'

/-- Naturals are printed by their digits, other rationals by a sign and two naturals. -/
def exampleText (q : ℚ) : JsText :=
  if q.den = 1 ∧ 0 ≤ q.num then decimal q.num.toNat
  else exampleSign q :: (decimal q.num.natAbs ++ 'e' :: decimal q.den)

theorem isDigit_of_mem_decimal {n : ℕ} {c : Char} (h : c ∈ decimal n) : c.isDigit = true :=
  Nat.isDigit_of_mem_toDigits (by decide) (by decide) h

theorem decimal_ne_cons {n : ℕ} {c : Char} {t : JsText} (h : c.isDigit = false) :
    decimal n ≠ c :: t := by
  intro heq
  have hdigit := isDigit_of_mem_decimal (n := n) (c := c) (heq ▸ List.mem_cons_self)
  rw [h] at hdigit
  cases hdigit

theorem exampleSign_eq (q : ℚ) : exampleSign q = '-' ∨ exampleSign q = '+' := by
  unfold exampleSign
  split
  · exact .inl rfl
  · exact .inr rfl

theorem exampleText_inj (p q : ℚ) (h : exampleText p = exampleText q) : p = q := by
  have hsign (r : ℚ) : (exampleSign r).isDigit = false := by
    rcases exampleSign_eq r with h | h <;> rw [h] <;> rfl
  have he (n : ℕ) : 'e' ∉ decimal n := fun hmem =>
    absurd (isDigit_of_mem_decimal hmem) (by decide)
  unfold exampleText at h
  split_ifs at h with hp hq hq
  · have hnum := decimal_inj h
    exact Rat.ext (by omega) (hp.1.trans hq.1.symm)
  · exact absurd h (decimal_ne_cons (hsign q))
  · exact absurd h.symm (decimal_ne_cons (hsign p))
  · obtain ⟨hfirst, hrest⟩ := List.cons.inj h
    obtain ⟨hnum, hden⟩ := JsText.split_unique (he _) (he _) hrest
    have habs := decimal_inj hnum
    have hneg : p.num < 0 ↔ q.num < 0 := by
      unfold exampleSign at hfirst
      split_ifs at hfirst with hp hq hq
      · exact iff_of_true hp hq
      · cases hfirst
      · cases hfirst
      · exact iff_of_false hp hq
    exact Rat.ext (by omega) (decimal_inj hden)

def exampleNumberText : NumberText where
  text := exampleText
  isNumText q := by
    unfold exampleText
    split
    · exact Json.isNumText_decimal _
    · have hnum := Json.all_isNumChar_decimal q.num.natAbs
      have hden := Json.all_isNumChar_decimal q.den
      have he : Json.isNumChar 'e' := rfl
      have hsign : Json.isNumChar (exampleSign q) := by
        rcases exampleSign_eq q with h | h <;> rw [h] <;> rfl
      simp only [Json.isNumText, List.all_cons, List.all_append, hnum, hden, he, hsign,
        Bool.and_true]
      rfl
  text_inj := exampleText_inj

def exampleDigest (n : ℕ) : Digest := ⟨(Bytes.toLe 32 n).reverse, by
  rw [List.length_reverse, Bytes.length_toLe]⟩

def exampleParent : JsText := ['a', 'c', 'm', 'e', '.', 'd', 'n', 's']

def exampleParentHash : Digest :=
  exampleDigest 0xbd8a0d6ad7f5ed9f027547e7946b3e1004876c7d93e9c4cc55c9244a8752d282

/-- The value of some digits. -/
def exampleNumber (t : JsText) : JsNum := .fin (t.foldl (fun n c => 10 * n + (c.toNat - 48)) 0 : ℕ)

/-- It reads the digits of a number. -/
def exampleBase : Platform where
  sha256 _ := exampleParentHash
  toLowerCase t := t.map Char.toLower
  localeCompare := compare
  number
    | .num t => .ok (exampleNumber t)
    | _ => .ok .nan
  numberOfText := exampleNumber
  text j := match j.toText with
    | some t => .ok t
    | none => .error []
  numberText := exampleNumberText

def exampleOnes : Hex 64 := ⟨List.replicate 64 '1', rfl, rfl⟩

def exampleThrees : Hex 64 := ⟨List.replicate 64 '3', rfl, rfl⟩

/-- An observation by a witness. -/
def exampleRaw (witness : Hex 64) : Json :=
  .obj [(nameHashKey, .str (List.replicate 64 'a')),
    (parentNameHashKey, .str (Hex.ofBytes exampleParentHash.1)),
    (rrsetHashKey, .str (List.replicate 64 'c')), (ttlKey, .num ['6', '0']),
    (confidenceKey, .num ['9', '0', '0', '0']),
    (bucketKey, .num ['1', '7', '3', '8', '8', '0', '0', '0', '0', '0']),
    (witnessKey, .str witness.text), (signatureKey, .str (List.replicate 128 '2'))]

/-- The observation as its file has it. -/
def exampleEntry (witness : Hex 64) : StoredEntry where
  nameHash := ⟨List.replicate 64 'a', rfl, rfl⟩
  parentNameHash := Hex.print exampleParentHash.1 exampleParentHash.2
  rrsetHash := ⟨List.replicate 64 'c', rfl, rfl⟩
  ttlS := some 60
  confidenceBps := some 9000
  observedBucket := ⟨1738800000, by decide⟩
  witnessPubkey := witness
  signature := ⟨List.replicate 128 '2', rfl, rfl⟩

/-- What the example hashes: a name, two entries and some nodes above them. -/
def exampleDigests : List (List UInt8 × Digest) :=
  let ones := exampleDigest 0x77cd7e5019c9f7ba41a452ecab28029a8a21bac7a509e85d6380cbafc748b067
  let threes := exampleDigest 0x681e2cabc596964cefbc1ca9f74a34cd3c5bd7ba662cd4ba7c42d7440b958bce
  let pair := exampleDigest 0xb5d99ad67a4de99c4f674cdac597cd831f5ac7b7b790e4fe1ad7193cadaadd3a
  [(exampleParent.utf8, exampleParentHash),
    (payload exampleBase (exampleEntry exampleOnes), ones),
    (payload exampleBase (exampleEntry exampleThrees), threes),
    (ones.1 ++ threes.1,
      exampleDigest 0x427b6696c81c274a1b028284371a65d15ffd33d3fce63ef19a63f3d63127a08c),
    (threes.1 ++ ones.1,
      exampleDigest 0xc0680853120dc3b1fbdc57c874e059545660737f582d045c093901113e72f90f),
    (ones.1 ++ ones.1, pair),
    (pair.1 ++ pair.1,
      exampleDigest 0x3ea627f42694ec3c2800a1b8254c761546587742d100ab76d19e028fb7bc759f)]

def examplePlatform : Platform :=
  { exampleBase with
    sha256 := fun bytes =>
      ((exampleDigests.find? fun d => d.1 = bytes).map Prod.snd).getD exampleParentHash }

theorem exampleHexOrder : HexOrder examplePlatform := by
  have htexts : Std.LawfulEqCmp (compare : JsText → JsText → Ordering) := inferInstance
  constructor
  · exact @StableSort.transCmp_key _ _ (compare : JsText → JsText → Ordering) _ Hex.text
  · exact
      { compare_self := htexts.compare_self
        eq_of_compare := fun h => Hex.text_inj (htexts.eq_of_compare h) }

/-- The witnesses observe it one after the other. -/
def exampleRequests (witnesses : List (Hex 64)) : List Request :=
  [.ingest (.obj [(entriesKey, .arr (witnesses.map exampleRaw))])]

end Ddns.CacheRollup
