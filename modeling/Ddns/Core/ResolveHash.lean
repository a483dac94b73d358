import Ddns.Lib.Base64
import Ddns.Lib.JsonOrder
import Mathlib.Logic.Equiv.Basic

/-!
# The hash of a resolve result

`stableStringify` prints a value with the keys of every object sorted. It writes two values alike
exactly if they are equal up to the order of object keys, and so does the hash of a result
(`stableStringify_eq_iff`).
-/

namespace Ddns.Core

/-! ## Model -/

/-- Each object is written with its entries sorted by `localeCompare` of the keys. -/
def stableStringify (localeCompare : JsText → JsText → Ordering) (value : JsonValue) : JsText :=
  value.tree.print (Json.sortByKey localeCompare)

/-- The types of the fields are not checked when the code runs: a field is any value. -/
structure ResolveHashInput where
  name : JsonValue
  network : JsonValue
  records : JsonValue

def nameKey : JsText := ['n', 'a', 'm', 'e']

def networkKey : JsText := ['n', 'e', 't', 'w', 'o', 'r', 'k']

def recordsKey : JsText := ['r', 'e', 'c', 'o', 'r', 'd', 's']

/-- The object that is printed. -/
def ResolveHashInput.value (input : ResolveHashInput) : JsonValue where
  tree := .obj [(nameKey, input.name.tree), (networkKey, input.network.tree),
    (recordsKey, input.records.tree)]
  numeric := Json.numeric_obj.2 (by
    simp [input.name.numeric, input.network.numeric, input.records.numeric])
  distinct := Json.distinct_obj.2 ⟨by simp [nameKey, networkKey, recordsKey], by
    simp [input.name.distinct, input.network.distinct, input.records.distinct]⟩

def computeResolveResultHash (blake3 : List UInt8 → List UInt8)
    (localeCompare : JsText → JsText → Ordering) (input : ResolveHashInput) : JsText :=
  let data := stableStringify localeCompare input.value
  let bytes := blake3 data.utf8
  JsText.encodeBase64 bytes

/-! ## The same result -/

/-- The results are equal up to the order of object keys. -/
structure SameResult (a b : ResolveHashInput) : Prop where
  name : a.name.SameUpToOrder b.name
  network : a.network.SameUpToOrder b.network
  records : a.records.SameUpToOrder b.records

theorem value_same_iff {a b : ResolveHashInput} :
    a.value.SameUpToOrder b.value ↔ SameResult a b := by
  constructor
  · rintro (_ | _ | _ | _ | _ | ⟨-, hsame⟩)
    exact ⟨hsame (nameKey, a.name.tree) (by simp) (nameKey, b.name.tree) (by simp) rfl,
      hsame (networkKey, a.network.tree) (by simp) (networkKey, b.network.tree) (by simp) rfl,
      hsame (recordsKey, a.records.tree) (by simp) (recordsKey, b.records.tree) (by simp) rfl⟩
  · intro h
    refine .obj (List.Perm.refl _) ?_
    simpa [nameKey, networkKey, recordsKey] using ⟨h.name, h.network, h.records⟩

section Hash

variable {localeCompare : JsText → JsText → Ordering} {blake3 : List UInt8 → List UInt8}

/-- The hash tells apart what the text tells apart. -/
theorem computeResolveResultHash_eq_iff (hblake3 : Function.Injective blake3)
    {a b : ResolveHashInput} : computeResolveResultHash blake3 localeCompare a =
      computeResolveResultHash blake3 localeCompare b ↔
        stableStringify localeCompare a.value = stableStringify localeCompare b.value := by
  constructor
  · intro h
    exact JsText.utf8_inj (hblake3 (JsText.encodeBase64_inj h))
  · intro h
    unfold computeResolveResultHash
    rw [h]

end Hash

/-- **The text and the hash of a result** tell apart exactly what differs in more than the order of
object keys, if `localeCompare` is a total order that separates distinct keys. -/
theorem stableStringify_eq_iff (localeCompare : JsText → JsText → Ordering)
    [Std.TransCmp localeCompare] [Std.LawfulEqCmp localeCompare]
    (blake3 : List UInt8 → List UInt8) (hblake3 : Function.Injective blake3) :
    (∀ v w, stableStringify localeCompare v = stableStringify localeCompare w ↔
      v.SameUpToOrder w) ∧
    ∀ a b, computeResolveResultHash blake3 localeCompare a =
      computeResolveResultHash blake3 localeCompare b ↔ SameResult a b := by
  refine ⟨fun v w => JsonValue.print_sortByKey_eq_iff, fun a b => ?_⟩
  calc computeResolveResultHash blake3 localeCompare a =
        computeResolveResultHash blake3 localeCompare b
      ↔ stableStringify localeCompare a.value = stableStringify localeCompare b.value :=
        computeResolveResultHash_eq_iff hblake3
    _ ↔ a.value.SameUpToOrder b.value := JsonValue.print_sortByKey_eq_iff
    _ ↔ SameResult a b := value_same_iff

/-! ## A result with two records -/

def typeKey : JsText := ['t', 'y', 'p', 'e']

def valueKey : JsText := ['v', 'a', 'l', 'u', 'e']

/-- The result for `alice.dns` with these records. -/
def exampleInput (records : Json) (numeric : records.numeric) (distinct : records.distinct) :
    ResolveHashInput where
  name := ⟨.str ['a', 'l', 'i', 'c', 'e', '.', 'd', 'n', 's'], rfl, rfl⟩
  network := ⟨.str ['d', 'n', 's'], rfl, rfl⟩
  records := ⟨records, numeric, distinct⟩

def ownerText : JsText := ['O', 'W', 'N', 'E', 'R']

def pubkeyText : JsText := ['o', 'w', 'n', 'e', 'r', '_', 'p', 'u', 'b', 'k', 'e', 'y']

def textText : JsText := ['T', 'E', 'X', 'T']

def exampleResult : ResolveHashInput :=
  exampleInput (.arr [.obj [(typeKey, .str ownerText), (valueKey, .str pubkeyText)],
    .obj [(typeKey, .str textText), (valueKey, .str ['h', 'e', 'l', 'l', 'o'])]]) rfl (by decide)

/-- The same records, written in another order of their keys. -/
def exampleReordered : ResolveHashInput :=
  exampleInput (.arr [.obj [(valueKey, .str pubkeyText), (typeKey, .str ownerText)],
    .obj [(valueKey, .str ['h', 'e', 'l', 'l', 'o']), (typeKey, .str textText)]]) rfl (by decide)

/-- Another text. -/
def exampleOther : ResolveHashInput :=
  exampleInput (.arr [.obj [(typeKey, .str ownerText), (valueKey, .str pubkeyText)],
    .obj [(typeKey, .str textText), (valueKey, .str ['h', 'a', 'l', 'l', 'o'])]]) rfl (by decide)

/-- The digest of `exampleResult`. -/
def exampleDigest : List UInt8 :=
  [6, 19, 138, 125, 238, 7, 69, 24, 101, 253, 234, 125, 81, 25, 207, 94, 191, 89, 40, 227, 131,
    14, 43, 116, 147, 74, 213, 187, 139, 83, 136, 87]

/-- The digest of `exampleOther`. -/
def otherDigest : List UInt8 :=
  [48, 14, 88, 74, 36, 69, 1, 180, 230, 235, 197, 68, 194, 202, 48, 233, 24, 93, 69, 169, 247,
    40, 3, 44, 77, 228, 215, 18, 128, 120, 78, 200]

/-- It knows the digests of the two results. -/
def exampleBlake3 : Equiv.Perm (List UInt8) :=
  (Equiv.swap (stableStringify compare exampleResult.value).utf8 exampleDigest).trans
    (Equiv.swap (stableStringify compare exampleOther.value).utf8 otherDigest)

example : computeResolveResultHash exampleBlake3 compare exampleResult =
    ['B', 'h', 'O', 'K', 'f', 'e', '4', 'H', 'R', 'R', 'h', 'l', '/', 'e', 'p', '9', 'U', 'R', 'n',
      'P', 'X', 'r', '9', 'Z', 'K', 'O', 'O', 'D', 'D', 'i', 't', '0', 'k', '0', 'r', 'V', 'u', '4',
      't', 'T', 'i', 'F', 'c', '='] := by
  decide +kernel

/-- The order of the keys does not change the hash, another text does. -/
theorem exampleResult_hash :
    computeResolveResultHash exampleBlake3 compare exampleResult =
      computeResolveResultHash exampleBlake3 compare exampleReordered ∧
    computeResolveResultHash exampleBlake3 compare exampleResult ≠
      computeResolveResultHash exampleBlake3 compare exampleOther := by
  obtain ⟨htext, hhash⟩ := stableStringify_eq_iff compare exampleBlake3 exampleBlake3.injective
  constructor
  · rw [hhash, ← value_same_iff, ← htext]
    decide +kernel
  · rw [Ne, hhash, ← value_same_iff, ← htext]
    decide +kernel

end Ddns.Core
