import Ddns.Coordinator.ReceiptLaw
import Ddns.NodeAgent.Receipts
import Mathlib.Data.UInt

/-!
# What the coordinator verifies

The bytes that the agent signs should be the bytes of the message that the coordinator builds from
the receipt that it parses. They are (`receiptsAgree_iff`) exactly if every number of the receipt
keeps its text as a double, and `localeCompare` sorts the keys of every object like their bytes.
-/

namespace Ddns.NodeAgent

open Coordinator (verifyReceiptSignature ed25519Verify typeKey nodeIdKey tsKey resultHashKey
  detailsKey)

/-- **The two sides agree**: the signed bytes are those of the coordinator's message, and the
signature verifies there. -/
structure ReceiptsAgree (rt : Coordinator.Runtime) (format : FloatFormat) (key : SigningKey rt)
    (receipt : Receipt) : Prop where
  bytes : (receiptMessage format receipt).utf8 =
    (Coordinator.receiptMessage rt receipt.sent).utf8
  verified : verifyReceiptSignature rt (signReceipt format key receipt).publicKey receipt.sent
    (signReceipt format key receipt).signature = some true

/-- The number is printed alike on both sides: an integer survives as a double, and the crate writes
a float like `Number.prototype.toString`. -/
def Number.Kept (format : FloatFormat) : Number → Prop
  | .posInt n => reprint n.toNat = n.toNat
  | .negInt i => reprint i.val.natAbs = i.val.natAbs
  | .float d => format.text d = d.toText

/-- `localeCompare` orders the keys like their bytes, and keys that it does not distinguish are
enumerated in the order of their bytes. -/
def SameOrder (localeCompare : JsText → JsText → Ordering) (keys : List JsText) : Prop :=
  (keys.insertionSort fun a b => (compare a b).isLE).Pairwise fun a b =>
    (localeCompare a b).isLE ∧
      ((localeCompare b a).isLE → [a, b].Sublist (Json.enumeratedKeys keys))

mutual

/-- Every number of the value is kept, and the keys of every object come in the same order. -/
def Value.Alike (format : FloatFormat) (localeCompare : JsText → JsText → Ordering) :
    Value → Prop
  | .number n => n.Kept format
  | .array items => Value.AlikeItems format localeCompare items
  | .object map => SameOrder localeCompare (map.map Prod.fst) ∧
      Value.AlikeFields format localeCompare map
  | _ => True
termination_by structural v => v

def Value.AlikeItems (format : FloatFormat) (localeCompare : JsText → JsText → Ordering) :
    List Value → Prop
  | [] => True
  | v :: vs => v.Alike format localeCompare ∧ Value.AlikeItems format localeCompare vs
termination_by structural vs => vs

def Value.AlikeFields (format : FloatFormat) (localeCompare : JsText → JsText → Ordering) :
    List (JsText × Value) → Prop
  | [] => True
  | e :: es => Value.AlikeField format localeCompare e ∧ Value.AlikeFields format localeCompare es
termination_by structural es => es

def Value.AlikeField (format : FloatFormat) (localeCompare : JsText → JsText → Ordering) :
    JsText × Value → Prop
  | (_, v) => v.Alike format localeCompare
termination_by structural e => e

end

/-- Every number of the receipt is kept, and the keys of every object come in the same order. -/
def Receipt.Alike (format : FloatFormat) (localeCompare : JsText → JsText → Ordering)
    (receipt : Receipt) : Prop :=
  (Value.object receipt.fields).Alike format localeCompare

/-! ## Maps -/

section Map

variable {β : Type*}

/-- A fresh key is inserted where sorting puts it. -/
theorem insertEntry_eq {k : JsText} {map : List (JsText × β)} (hk : k ∉ map.map Prod.fst) (v : β) :
    insertEntry k v map = map.orderedInsert (fun a b => (compare a.1 b.1).isLE) (k, v) := by
  induction map with
  | nil => rfl
  | cons e map ih =>
    simp only [List.map_cons, List.mem_cons, not_or] at hk
    rw [insertEntry, List.orderedInsert_cons]
    cases hcmp : compare k e.1 with
    | lt => simp
    | eq => exact absurd (Std.LawfulEqCmp.eq_of_compare hcmp) hk.1
    | gt => simp [ih hk.2]

theorem keys_orderedInsert_perm (k : JsText) (v : β) (map : List (JsText × β)) :
    ((map.orderedInsert (fun a b => (compare a.1 b.1).isLE) (k, v)).map Prod.fst).Perm
      (k :: map.map Prod.fst) :=
  (List.perm_orderedInsert _ (k, v) map).map Prod.fst

/-- Entries with distinct keys are collected as sorting orders them. -/
theorem collect_eq {entries : List (JsText × β)} (hn : (entries.map Prod.fst).Nodup) :
    collect entries = Json.sortFields compare entries := by
  have hfold (map : List (JsText × β)) (hkeys : ((entries ++ map).map Prod.fst).Nodup) :
      entries.foldl (fun map e => insertEntry e.1 e.2 map) map =
        entries.foldl (fun map e => map.orderedInsert (fun a b => (compare a.1 b.1).isLE) e)
          map := by
    clear hn
    induction entries generalizing map with
    | nil => rfl
    | cons e es ih =>
      have hfresh : e.1 ∉ map.map Prod.fst := by
        simp only [List.cons_append, List.map_cons, List.nodup_cons, List.map_append,
          List.mem_append, not_or] at hkeys
        exact hkeys.1.2
      rw [List.foldl_cons, List.foldl_cons, insertEntry_eq hfresh]
      apply ih
      refine (List.Perm.nodup_iff ?_).1 hkeys
      simp only [List.cons_append, List.map_cons, List.map_append]
      exact List.perm_middle.symm.trans (List.Perm.append_left _ (keys_orderedInsert_perm _ _ _).symm)
  have hreverse : entries.foldl
      (fun map e => map.orderedInsert (fun a b => (compare a.1 b.1).isLE) e) [] =
        Json.sortFields compare entries.reverse := by
    rw [Json.sortFields, List.insertionSort, List.foldr_reverse]
  rw [collect, hfold [] (by rwa [List.append_nil]), hreverse]
  refine Json.sortFields_eq_of_perm (List.reverse_perm entries) ?_
  rw [List.map_reverse]
  exact List.nodup_reverse.2 hn

end Map

/-! ## The two trees -/

section Trees

variable {format : FloatFormat} {localeCompare : JsText → JsText → Ordering}

/-- What the agent writes. -/
def Value.signedTree (format : FloatFormat) (v : Value) : Json := v.canonicalJson.written format

/-- What the coordinator writes. -/
def Value.verifiedTree (localeCompare : JsText → JsText → Ordering) (v : Value) : Json :=
  Json.sorted localeCompare v.parsed

theorem signedTree_array (items : List Value) :
    (Value.array items).signedTree format = .arr (items.map (Value.signedTree format)) := by
  rw [Value.signedTree, Value.canonicalJson_array, Value.written, Value.toJson_array, List.map_map]
  rfl

theorem signedTree_object {map : List (JsText × Value)} (hn : (map.map Prod.fst).Nodup) :
    (Value.object map).signedTree format =
      .obj (Json.sortFields compare (map.map fun e => (e.1, e.2.signedTree format))) := by
  have hkeys : ((map.map fun e => (e.1, e.2.canonicalJson)).map Prod.fst).Nodup := by
    rwa [List.map_map]
  rw [Value.signedTree, Value.canonicalJson_object, Value.written, Value.toJson_object,
    collect_eq hkeys]
  refine congrArg Json.obj ((Json.map_sortFields compare
    (fun e : JsText × Value => e.2.toJson ⟨Number.text format, id⟩) _).trans ?_)
  rw [List.map_map]
  rfl

theorem verifiedTree_array (items : List Value) :
    (Value.array items).verifiedTree localeCompare =
      .arr (items.map (Value.verifiedTree localeCompare)) := by
  rw [Value.verifiedTree, Value.parsed, Value.toJson_array, Json.sorted_arr, List.map_map]
  rfl

theorem verifiedTree_object (map : List (JsText × Value)) :
    (Value.object map).verifiedTree localeCompare = .obj (Json.sortFields localeCompare
      (Json.enumerate (map.map fun e => (e.1, e.2.verifiedTree localeCompare)))) := by
  rw [Value.verifiedTree, Value.parsed, Value.toJson_object, Json.sorted_obj]
  refine congrArg Json.obj (congrArg (Json.sortFields localeCompare) ?_)
  refine (Json.map_enumerate (fun e : JsText × Json => Json.sorted localeCompare e.2) _).trans ?_
  rw [List.map_map]
  rfl

/-! ## Where they agree -/

theorem number_text_eq_iff {n : Number} : n.text format = n.parsedText ↔ n.Kept format := by
  cases n with
  | posInt n =>
    constructor
    · exact fun h => (decimal_inj h).symm
    · exact fun h => congrArg decimal (show n.toNat = reprint n.toNat from h.symm)
  | negInt i =>
    constructor
    · exact fun h => (decimal_inj (List.cons.inj h).2).symm
    · intro h
      exact congrArg (List.cons '-') (congrArg decimal
        (show i.val.natAbs = reprint i.val.natAbs from h.symm))
  | float d => exact Iff.rfl

/-- The keys come in the same order, where a sort stays with one order of the keys that tie. -/
theorem sameOrder_iff [Std.TransCmp localeCompare] {keys : List JsText} (hn : keys.Nodup) :
    (keys.insertionSort fun a b => (compare a b).isLE) =
      ((Json.enumeratedKeys keys).insertionSort fun a b => (localeCompare a b).isLE) ↔
    SameOrder localeCompare keys := by
  let r : JsText → JsText → Prop := fun a b => (localeCompare a b).isLE
  have : Std.Total r := ⟨fun a b => by
    cases h : localeCompare a b with
    | lt => exact .inl (by simp [r, h])
    | eq => exact .inl (by simp [r, h])
    | gt => exact .inr (by simp [r, Std.OrientedCmp.lt_of_gt h])⟩
  have : IsTrans JsText r := ⟨fun _ _ _ => Std.TransCmp.isLE_trans⟩
  have henum : (Json.enumeratedKeys keys).Perm keys := List.perm_insertionSort _ _
  have hbytes := List.perm_insertionSort (fun a b : JsText => (compare a b).isLE) keys
  rw [eq_comm]
  exact StableSort.insertionSort_eq_iff (r := r) (henum.nodup_iff.2 hn) (hbytes.trans henum.symm)

/-- Sorted entries agree if the keys come in the same order and the values agree. -/
theorem sortFields_eq_iff [Std.TransCmp localeCompare] {map : List (JsText × Value)}
    (hn : (map.map Prod.fst).Nodup) (f g : Value → Json) :
    Json.sortFields compare (map.map fun e => (e.1, f e.2)) =
      Json.sortFields localeCompare (Json.enumerate (map.map fun e => (e.1, g e.2))) ↔
    SameOrder localeCompare (map.map Prod.fst) ∧ ∀ e ∈ map, f e.2 = g e.2 := by
  have hkeys (h : Value → Json) : (map.map fun e => (e.1, h e.2)).map Prod.fst = map.map Prod.fst := by
    rw [List.map_map]
    rfl
  have hsigned := Json.sortFields_perm compare (map.map fun e => (e.1, f e.2))
  have hverified := (Json.sortFields_perm localeCompare _).trans
    (Json.enumerate_perm (map.map fun e => (e.1, g e.2)))
  constructor
  · intro h
    constructor
    · rw [← sameOrder_iff hn]
      have hfst := congrArg (List.map Prod.fst) h
      rwa [Json.keys_sortFields, Json.keys_sortFields, Json.keys_enumerate, hkeys, hkeys] at hfst
    · intro e he
      have hmem : (e.1, f e.2) ∈ map.map fun e => (e.1, g e.2) := by
        apply hverified.subset
        rw [← h]
        exact hsigned.symm.subset (List.mem_map.2 ⟨e, he, rfl⟩)
      obtain ⟨e', he', heq⟩ := List.mem_map.1 hmem
      obtain ⟨hkey, hvalue⟩ := Prod.mk.inj heq
      obtain rfl := List.inj_on_of_nodup_map hn he' he hkey
      exact hvalue.symm
  · rintro ⟨horder, hvalues⟩
    have hsame : (map.map fun e => (e.1, f e.2)) = map.map fun e => (e.1, g e.2) :=
      List.map_congr_left fun e he => Prod.ext rfl (hvalues e he)
    rw [hsame] at hsigned ⊢
    apply Json.eq_of_keys_eq
    · intro a ha b hb hab
      have hn' : ((map.map fun e => (e.1, g e.2)).map Prod.fst).Nodup := (hkeys g).symm ▸ hn
      exact List.inj_on_of_nodup_map hn' (hsigned.subset ha) (hverified.subset hb) hab
    · rw [Json.keys_sortFields, Json.keys_sortFields, Json.keys_enumerate, hkeys]
      exact (sameOrder_iff hn).2 horder

theorem alike_array {items : List Value} :
    (Value.array items).Alike format localeCompare ↔ ∀ v ∈ items, v.Alike format localeCompare := by
  rw [Value.Alike]
  induction items with
  | nil => simp [Value.AlikeItems]
  | cons v vs ih => simp [Value.AlikeItems, ih]

theorem alike_object {map : List (JsText × Value)} :
    (Value.object map).Alike format localeCompare ↔ SameOrder localeCompare (map.map Prod.fst) ∧
      ∀ e ∈ map, e.2.Alike format localeCompare := by
  have hfields : Value.AlikeFields format localeCompare map ↔
      ∀ e ∈ map, e.2.Alike format localeCompare := by
    induction map with
    | nil => simp [Value.AlikeFields]
    | cons e es ih =>
      obtain ⟨k, v⟩ := e
      simp [Value.AlikeFields, Value.AlikeField, ih]
  rw [Value.Alike, hfields]

/-- **The two trees of a value** are equal exactly if every number is kept and the keys of every
object come in the same order. -/
theorem signedTree_eq_iff [Std.TransCmp localeCompare] {v : Value} (hv : v.distinct) :
    v.signedTree format = v.verifiedTree localeCompare ↔ v.Alike format localeCompare := by
  induction v with
  | number n =>
    have hnum : Json.num (n.text format) = Json.num n.parsedText ↔ n.Kept format := by
      rw [Json.num.injEq, number_text_eq_iff]
    exact hnum
  | array items ih =>
    rw [signedTree_array, verifiedTree_array, alike_array, Json.arr.injEq, List.map_inj_left]
    rw [Value.distinct_array] at hv
    exact forall₂_congr fun v hmem => ih v hmem (hv v hmem)
  | object map ih =>
    obtain ⟨hn, hfields⟩ := Value.distinct_object.1 hv
    rw [signedTree_object hn, verifiedTree_object, alike_object, Json.obj.injEq,
      sortFields_eq_iff hn]
    exact and_congr_right fun _ => forall₂_congr fun e he => ih e he (hfields e he)
  | null => exact iff_of_true rfl trivial
  | bool b => exact iff_of_true rfl trivial
  | string s => exact iff_of_true rfl trivial

end Trees

/-! ## Numbers -/

section Texts

variable {format : FloatFormat}

theorem isNumText_text (n : Number) : Json.isNumText (n.text format) := by
  cases n with
  | posInt n => exact Json.isNumText_decimal n.toNat
  | negInt i => exact Json.isNumText_neg (Json.all_isNumChar_decimal _)
  | float d => exact format.isNumText d

theorem isNumText_parsedText (n : Number) : Json.isNumText n.parsedText := by
  cases n with
  | posInt n => exact Json.isNumText_decimal _
  | negInt i => exact Json.isNumText_neg (Json.all_isNumChar_decimal _)
  | float d => exact Json.isNumText_toText d

/-- A codec that writes numbers as numbers yields a value that can be read back. -/
theorem numeric_toJson {codec : Value.Codec} (hnumber : ∀ n, Json.isNumText (codec.number n))
    (horder : ∀ entries, (codec.order entries).Perm entries) (v : Value) :
    (v.toJson codec).numeric := by
  induction v with
  | number n => exact hnumber n
  | array items ih =>
    rw [Value.toJson_array, Json.numeric_arr]
    intro j hj
    obtain ⟨v, hv, rfl⟩ := List.mem_map.1 hj
    exact ih v hv
  | object map ih =>
    rw [Value.toJson_object, Json.numeric_obj]
    intro f hf
    obtain ⟨e, he, rfl⟩ := List.mem_map.1 ((horder _).subset hf)
    exact ih e he
  | null => rfl
  | bool b => rfl
  | string s => rfl

theorem numeric_signedTree (v : Value) : (v.signedTree format).numeric :=
  numeric_toJson isNumText_text (fun entries => .refl entries) v.canonicalJson

theorem numeric_verifiedTree (localeCompare : JsText → JsText → Ordering) (v : Value) :
    (v.verifiedTree localeCompare).numeric :=
  Json.numeric_sorted (numeric_toJson isNumText_parsedText Json.enumerate_perm v)

end Texts

/-! ## The receipt -/

section Law

variable {rt : Coordinator.Runtime} {format : FloatFormat}

/-- A receipt has every field once. -/
theorem nodup_fields (receipt : Receipt) : (receipt.fields.map Prod.fst).Nodup := by
  have hkeys : [typeKey, nodeIdKey, tsKey, requestKey, resultHashKey, bytesKey, detailsKey].Nodup := by
    decide
  obtain ⟨type, nodeId, ts, request, resultHash, bytes, details⟩ := receipt
  cases details with
  | none => exact hkeys.sublist (List.sublist_append_left _ [detailsKey])
  | some details => exact hkeys

theorem distinct_optional {α : Type*} {f : α → Value} (h : ∀ a, (f a).distinct) (a : Option α) :
    (optional f a).distinct := by
  cases a with
  | none => rfl
  | some a => exact h a

theorem distinct_fields (receipt : Receipt) : (Value.object receipt.fields).distinct := by
  rw [Value.distinct_object]
  refine ⟨nodup_fields receipt, fun e he => ?_⟩
  rcases List.mem_append.1 he with he | he
  · simp only [List.mem_cons, List.not_mem_nil, or_false] at he
    rcases he with rfl | rfl | rfl | rfl | rfl | rfl
    · rfl
    · rfl
    · rfl
    · exact distinct_optional (fun _ => rfl) _
    · exact distinct_optional (fun _ => rfl) _
    · exact distinct_optional (fun _ => rfl) _
  · rw [Option.mem_toList, Option.map_eq_some_iff] at he
    obtain ⟨details, -, rfl⟩ := he
    exact details.property

/-- Collecting the fields first makes no difference. -/
theorem signedTree_toValue (receipt : Receipt) :
    receipt.toValue.signedTree format = (Value.object receipt.fields).signedTree format := by
  have hn := nodup_fields receipt
  have hperm : (collect receipt.fields).Perm receipt.fields := by
    rw [collect_eq hn]
    exact Json.sortFields_perm compare _
  have hn' : ((collect receipt.fields).map Prod.fst).Nodup :=
    (hperm.map Prod.fst).nodup_iff.2 hn
  rw [Receipt.toValue, signedTree_object hn', signedTree_object hn]
  refine congrArg Json.obj (Json.sortFields_eq_of_perm (hperm.map _) ?_)
  rwa [List.map_map]

theorem receiptMessage_eq (receipt : Receipt) :
    receiptMessage format receipt = ['r', 'e', 'c', 'e', 'i', 'p', 't', '\n'] ++
      ((Value.object receipt.fields).signedTree format).stringify := by
  rw [← signedTree_toValue]
  rfl

theorem coordinatorMessage_eq (receipt : Receipt) : Coordinator.receiptMessage rt receipt.sent =
    ['r', 'e', 'c', 'e', 'i', 'p', 't', '\n'] ++
      ((Value.object receipt.fields).verifiedTree rt.localeCompare).stringify := by
  rw [Coordinator.receiptMessage, Coordinator.stableStringify, Json.print_sorted]
  rfl

/-- **The messages** are equal exactly for the receipts that are alike on both sides. -/
theorem receiptMessage_eq_iff [Std.TransCmp rt.localeCompare] (receipt : Receipt) :
    receiptMessage format receipt = Coordinator.receiptMessage rt receipt.sent ↔
      receipt.Alike format rt.localeCompare := by
  rw [receiptMessage_eq, coordinatorMessage_eq, List.append_cancel_left_eq, Receipt.Alike,
    ← signedTree_eq_iff (distinct_fields receipt)]
  constructor
  · exact Json.stringify_inj (numeric_signedTree _) (numeric_verifiedTree _ _)
  · exact fun h => congrArg Json.stringify h

/-- The coordinator accepts the signature of its own message. -/
theorem verifies_of_message_eq (key : SigningKey rt) {receipt : Receipt}
    (h : receiptMessage format receipt = Coordinator.receiptMessage rt receipt.sent) :
    verifyReceiptSignature rt (signReceipt format key receipt).publicKey receipt.sent
      (signReceipt format key receipt).signature = some true := by
  simp only [signReceipt, verifyReceiptSignature, ed25519Verify, key.base64ToBytes_encode,
    key.length_verifyingKey, key.length_sign, h]
  exact key.verifyAsync_sign _

/-- **Agreement** of the agent and the coordinator about a receipt. -/
theorem receiptsAgree_iff (rt : Coordinator.Runtime) [Std.TransCmp rt.localeCompare]
    (format : FloatFormat) (key : SigningKey rt) (receipt : Receipt) :
    ReceiptsAgree rt format key receipt ↔ receipt.Alike format rt.localeCompare := by
  rw [← receiptMessage_eq_iff]
  constructor
  · exact fun h => JsText.utf8_inj h.bytes
  · intro h
    exact ⟨congrArg JsText.utf8 h, verifies_of_message_eq key h⟩

end Law

/-! ## A receipt with many bytes -/

section Example

open JsText (encodeBase64 decodeBase64 decodeBase64_encodeBase64)

/-- The sum of the bytes stands in for a signature. -/
def exampleSign (msg : List UInt8) : List UInt8 := msg.sum :: List.replicate 63 0

def exampleRuntime : Coordinator.Runtime where
  sha256Hex _ := []
  base64ToBytes := decodeBase64
  verifyAsync sig payload pub := some (sig = exampleSign payload ∧ pub = List.replicate 32 7)
  localeCompare := compare

def exampleKey : SigningKey exampleRuntime where
  encode := encodeBase64
  verifyingKey := List.replicate 32 7
  sign := exampleSign
  base64ToBytes_encode := decodeBase64_encodeBase64
  length_verifyingKey := rfl
  length_sign _ := rfl
  verifyAsync_sign _ := by simp [exampleRuntime]

/-- A float that is an integer is written with a point and a zero. -/
def exampleFormat : FloatFormat where
  text d := if 0 ≤ d.exponent ∧ d.point ≤ 16 then d.toText ++ ['.', '0'] else d.toText
  isNumText d := by
    have htext := Json.isNumText_toText d
    split
    · simp only [Json.isNumText, Bool.and_eq_true, decide_eq_true_eq] at htext ⊢
      refine ⟨List.append_ne_nil_of_left_ne_nil htext.1 _, ?_⟩
      rw [List.all_append, htext.2]
      rfl
    · exact htext

/-- A receipt for `bytes` bytes. -/
def exampleReceipt (bytes : UInt64) : Receipt where
  receiptType := ['S', 'E', 'R', 'V', 'E']
  nodeId := encodeBase64 (List.replicate 32 7)
  ts := 1700000000
  request := some ⟨['a', '.', 'b']⟩
  resultHash := none
  bytes := some bytes
  details := none

instance : Std.TransCmp exampleRuntime.localeCompare :=
  inferInstanceAs (Std.TransCmp (compare : JsText → JsText → Ordering))

/-- Ten bytes are no problem. -/
theorem exampleReceipt_agrees :
    ReceiptsAgree exampleRuntime exampleFormat exampleKey (exampleReceipt 10) := by
  refine (receiptsAgree_iff exampleRuntime exampleFormat exampleKey (exampleReceipt 10)).2 ?_
  have hfields : SameOrder compare [typeKey, nodeIdKey, tsKey, requestKey, resultHashKey, bytesKey] := by
    unfold SameOrder
    decide +kernel
  have hrequest : SameOrder compare [nameKey] := by
    unfold SameOrder
    decide +kernel
  have hts : reprint 1700000000 = 1700000000 := reprint_of_lt (by decide)
  have hbytes : reprint 10 = 10 := reprint_of_lt (by decide)
  exact ⟨hfields, trivial, trivial, hts, ⟨hrequest, trivial, trivial⟩, trivial, hbytes, trivial⟩

/-- `2 ^ 53 + 1` bytes are signed as such, and verified as `2 ^ 53` bytes. -/
theorem exampleReceipt_not_agrees :
    ¬ReceiptsAgree exampleRuntime exampleFormat exampleKey (exampleReceipt (2 ^ 53 + 1)) := by
  intro h
  exact absurd h.bytes (by decide +kernel)

end Example

end Ddns.NodeAgent
