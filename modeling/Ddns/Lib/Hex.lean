import Ddns.Lib.Js

/-!
# Hexadecimal texts

A byte string is printed with two digits for each byte (`Hex.text`), from which it can be read again
(`Hex.text_inj`). A `Hex n` is a text of `n` such digits.
-/

/-- A text of `n` hexadecimal digits, all of them lower case. -/
structure Hex (n : ℕ) where
  text : JsText
  length_eq : text.length = n
  isDigit : text.all fun c => ('0' ≤ c ∧ c ≤ '9') ∨ ('a' ≤ c ∧ c ≤ 'f')
  deriving DecidableEq

namespace Hex

/-- Two digits for each byte. -/
def ofBytes (bytes : List UInt8) : JsText :=
  bytes.flatMap fun b => [Json.hexDigit (b.toNat / 16), Json.hexDigit (b.toNat % 16)]

/-- The value of a digit. -/
def digitValue (c : Char) : ℕ := if c ≤ '9' then c.toNat - '0'.toNat else c.toNat - 'a'.toNat + 10

/-- The bytes of a text of digits, two digits for each byte. -/
def toBytes : JsText → List UInt8
  | high :: low :: digits => UInt8.ofNat (16 * digitValue high + digitValue low) :: toBytes digits
  | _ => []

theorem hexDigit_inj : ∀ m < 16, ∀ n < 16, Json.hexDigit m = Json.hexDigit n → m = n := by
  decide

theorem length_ofBytes (bytes : List UInt8) : (ofBytes bytes).length = 2 * bytes.length := by
  induction bytes with
  | nil => rfl
  | cons b bytes ih =>
    unfold ofBytes at ih ⊢
    rw [List.flatMap_cons, List.length_append, ih]
    show 2 + 2 * bytes.length = 2 * (bytes.length + 1)
    omega

theorem ofBytes_inj {bytes bytes' : List UInt8} (h : ofBytes bytes = ofBytes bytes') :
    bytes = bytes' := by
  induction bytes generalizing bytes' with
  | nil =>
    cases bytes' with
    | nil => rfl
    | cons b' bytes' => cases h
  | cons b bytes ih =>
    cases bytes' with
    | nil => cases h
    | cons b' bytes' =>
      have hlt := b.toNat_lt
      have hlt' := b'.toNat_lt
      unfold ofBytes at h ih
      rw [List.flatMap_cons, List.flatMap_cons] at h
      obtain ⟨hhigh, htail⟩ := List.cons.inj h
      obtain ⟨hlow, hrest⟩ := List.cons.inj htail
      have hdiv := hexDigit_inj _ (by omega) _ (by omega) hhigh
      have hmod := hexDigit_inj _ (by omega) _ (by omega) hlow
      have hb : b = b' := UInt8.toNat.inj (by omega)
      rw [hb, ih hrest]

theorem isDigit_hexDigit : ∀ n < 16, ('0' ≤ Json.hexDigit n ∧ Json.hexDigit n ≤ '9') ∨
    ('a' ≤ Json.hexDigit n ∧ Json.hexDigit n ≤ 'f') := by
  decide

theorem isDigit_ofBytes (bytes : List UInt8) :
    (ofBytes bytes).all fun c => ('0' ≤ c ∧ c ≤ '9') ∨ ('a' ≤ c ∧ c ≤ 'f') := by
  refine List.all_eq_true.2 fun c hc => decide_eq_true ?_
  obtain ⟨b, -, hb⟩ := List.mem_flatMap.1 hc
  have hlt := b.toNat_lt
  rcases List.mem_pair.1 hb with rfl | rfl
  · exact isDigit_hexDigit _ (by omega)
  · exact isDigit_hexDigit _ (by omega)

/-- The digits of a byte string. -/
def print {n : ℕ} (bytes : List UInt8) (h : bytes.length = n) : Hex (2 * n) :=
  ⟨ofBytes bytes, by rw [length_ofBytes, h], isDigit_ofBytes bytes⟩

theorem text_inj {n : ℕ} {a b : Hex n} (h : a.text = b.text) : a = b := by
  cases a
  cases b
  cases h
  rfl

end Hex
