import Ddns.Lib.Js

/-!
# Base 64

`encodeBase64` writes three bytes as four digits, and fills up the last ones with `=`. Bytes are read
back from their text (`decodeBase64_encodeBase64`).
-/

namespace JsText

def base64Value (c : Char) : Option Nat :=
  let n := c.toNat
  if 65 ≤ n ∧ n ≤ 90 then some (n - 65)
  else if 97 ≤ n ∧ n ≤ 122 then some (n - 71)
  else if 48 ≤ n ∧ n ≤ 57 then some (n + 4)
  else if n = 43 then some 62
  else if n = 47 then some 63
  else none

/-- The bytes of a list of base 64 digits. -/
def base64Bytes : List Nat → List UInt8
  | a :: b :: c :: d :: t =>
    .ofNat (4 * a + b / 16) :: .ofNat (16 * (b % 16) + c / 4) :: .ofNat (64 * (c % 4) + d) ::
      base64Bytes t
  | [a, b, c] => [.ofNat (4 * a + b / 16), .ofNat (16 * (b % 16) + c / 4)]
  | [a, b] => [.ofNat (4 * a + b / 16)]
  | _ => []

def decodeBase64 (t : JsText) : List UInt8 := base64Bytes (t.filterMap base64Value)

def base64Digit (n : ℕ) : Char :=
  if n < 26 then Char.ofNat (n + 65)
  else if n < 52 then Char.ofNat (n + 71)
  else if n < 62 then Char.ofNat (n - 4)
  else if n = 62 then '+'
  else '/'

theorem base64Value_digit : ∀ n < 64, base64Value (base64Digit n) = some n := by
  decide +kernel

/-- The base 64 digits of a list of bytes. -/
def base64Digits : List UInt8 → List ℕ
  | a :: b :: c :: t =>
    (a.toNat / 4) :: (a.toNat % 4 * 16 + b.toNat / 16) :: (b.toNat % 16 * 4 + c.toNat / 64) ::
      (c.toNat % 64) :: base64Digits t
  | [a, b] => [a.toNat / 4, a.toNat % 4 * 16 + b.toNat / 16, b.toNat % 16 * 4]
  | [a] => [a.toNat / 4, a.toNat % 4 * 16]
  | [] => []

def encodeBase64 (bytes : List UInt8) : JsText :=
  (base64Digits bytes).map base64Digit ++ List.replicate ((3 - bytes.length % 3) % 3) '='

theorem base64Digits_lt (bytes : List UInt8) : ∀ n ∈ base64Digits bytes, n < 64 := by
  fun_induction base64Digits bytes with
  | case1 a b c t ih =>
    have ha := a.toNat_lt
    have hb := b.toNat_lt
    have hc := c.toNat_lt
    simp only [List.forall_mem_cons]
    exact ⟨by omega, by omega, by omega, by omega, ih⟩
  | case2 a b =>
    have ha := a.toNat_lt
    have hb := b.toNat_lt
    simp only [List.forall_mem_cons]
    exact ⟨by omega, by omega, by omega, by simp⟩
  | case3 a =>
    have ha := a.toNat_lt
    simp only [List.forall_mem_cons]
    exact ⟨by omega, by omega, by simp⟩
  | case4 => simp

theorem base64Bytes_digits (bytes : List UInt8) : base64Bytes (base64Digits bytes) = bytes := by
  have hof (x : UInt8) {n : ℕ} (h : n = x.toNat) : UInt8.ofNat n = x := by
    rw [h, UInt8.ofNat_toNat]
  fun_induction base64Digits bytes with
  | case1 a b c t ih =>
    have ha := a.toNat_lt
    have hb := b.toNat_lt
    have hc := c.toNat_lt
    rw [base64Bytes, ih, hof a (by omega), hof b (by omega), hof c (by omega)]
  | case2 a b =>
    have ha := a.toNat_lt
    have hb := b.toNat_lt
    rw [base64Bytes, hof a (by omega), hof b (by omega)]
  | case3 a =>
    have ha := a.toNat_lt
    rw [base64Bytes, hof a (by omega)]
  | case4 => rfl

theorem decodeBase64_encodeBase64 (bytes : List UInt8) : decodeBase64 (encodeBase64 bytes) = bytes := by
  have hdigits (l : List ℕ) (hl : ∀ n ∈ l, n < 64) : (l.map base64Digit).filterMap base64Value = l := by
    induction l with
    | nil => rfl
    | cons n l ih =>
      rw [List.map_cons, List.filterMap_cons_some (base64Value_digit n (hl n List.mem_cons_self)),
        ih fun m hm => hl m (List.mem_cons_of_mem n hm)]
  have hpadding (n : ℕ) : (List.replicate n '=').filterMap base64Value = [] := by
    apply List.filterMap_eq_nil_iff.2
    intro c hc
    rw [List.eq_of_mem_replicate hc]
    rfl
  rw [decodeBase64, encodeBase64, List.filterMap_append, hdigits _ (base64Digits_lt bytes), hpadding,
    List.append_nil, base64Bytes_digits]

theorem encodeBase64_inj {bytes bytes' : List UInt8} (h : encodeBase64 bytes = encodeBase64 bytes') :
    bytes = bytes' := by
  rw [← decodeBase64_encodeBase64 bytes, h, decodeBase64_encodeBase64]

end JsText

/-!
## Base 64 for URLs

`encodeBase64Url` writes `-` and `_` for the last two digits, and does not fill up. A `Buffer` is read
from such a text and from one of the other alphabet alike, with `decodeBase64Url`: it stops at a `=`
and skips what is no digit. Bytes are read back from their text
(`decodeBase64Url_encodeBase64Url`), but so they are from many other texts.
-/

namespace JsText

def base64UrlDigit (n : ℕ) : Char :=
  if n = 62 then '-' else if n = 63 then '_' else base64Digit n

def encodeBase64Url (bytes : List UInt8) : JsText := (base64Digits bytes).map base64UrlDigit

/-- A digit of one of the two alphabets. -/
def base64UrlValue (c : Char) : Option ℕ :=
  if c = '-' then some 62 else if c = '_' then some 63 else base64Value c

/-- Of a code unit, the low byte is read. -/
def decodeBase64Url (t : JsText) : List UInt8 :=
  base64Bytes (((t.codeUnits.map fun u => Char.ofNat (u % 256)).takeWhile (· ≠ '=')).filterMap
    base64UrlValue)

theorem base64UrlValue_digit : ∀ n < 64, base64UrlValue (base64UrlDigit n) = some n := by
  decide +kernel

/-- What stands in an encoded text. -/
def isBase64Url (c : Char) : Bool := c.isAlphanum || c = '-' || c = '_'

/-- A digit is of the alphabet, and ASCII. -/
theorem isBase64Url_digit : ∀ n < 64, isBase64Url (base64UrlDigit n) = true ∧
    (base64UrlDigit n).toNat < 128 := by
  decide +kernel

theorem isBase64Url_of_mem {bytes : List UInt8} {c : Char} (h : c ∈ encodeBase64Url bytes) :
    isBase64Url c = true ∧ c.toNat < 128 := by
  obtain ⟨n, hn, rfl⟩ := List.mem_map.1 h
  exact isBase64Url_digit n (base64Digits_lt bytes n hn)

/-- The code units of a text of ASCII. -/
theorem codeUnits_ascii {t : JsText} (h : ∀ c ∈ t, c.toNat < 128) : t.codeUnits = t.map Char.toNat := by
  induction t with
  | nil => rfl
  | cons c t ih =>
    have hc := h c List.mem_cons_self
    have htail := ih fun d hd => h d (List.mem_cons_of_mem c hd)
    unfold codeUnits at htail ⊢
    rw [List.flatMap_cons, htail, List.map_cons]
    simp only [show c.toNat < 0x10000 by omega, if_true]
    rfl

/-- **Bytes are read back** from their text. -/
theorem decodeBase64Url_encodeBase64Url (bytes : List UInt8) :
    decodeBase64Url (encodeBase64Url bytes) = bytes := by
  have hdigits : ∀ l : List ℕ, (∀ n ∈ l, n < 64) →
      (l.map base64UrlDigit).filterMap base64UrlValue = l := by
    intro l hl
    induction l with
    | nil => rfl
    | cons n l ih =>
      rw [List.map_cons, List.filterMap_cons_some (base64UrlValue_digit n (hl n List.mem_cons_self)),
        ih fun m hm => hl m (List.mem_cons_of_mem n hm)]
  have hunits : (encodeBase64Url bytes).codeUnits.map (fun u => Char.ofNat (u % 256)) =
      encodeBase64Url bytes := by
    rw [codeUnits_ascii fun c hc => (isBase64Url_of_mem hc).2, List.map_map]
    refine (List.map_congr_left fun c hc => ?_).trans (List.map_id _)
    have hascii := (isBase64Url_of_mem hc).2
    rw [Function.comp_apply, Nat.mod_eq_of_lt (by omega), Char.ofNat_toNat, id]
  have hpad : (encodeBase64Url bytes).takeWhile (· ≠ '=') = encodeBase64Url bytes := by
    refine List.takeWhile_eq_self_iff.2 fun c hc => decide_eq_true ?_
    rintro rfl
    exact absurd (isBase64Url_of_mem hc).1 (by decide)
  rw [decodeBase64Url, hunits, hpad, encodeBase64Url, hdigits _ (base64Digits_lt bytes),
    base64Bytes_digits]

theorem encodeBase64Url_inj {bytes bytes' : List UInt8}
    (h : encodeBase64Url bytes = encodeBase64Url bytes') : bytes = bytes' := by
  rw [← decodeBase64Url_encodeBase64Url bytes, h, decodeBase64Url_encodeBase64Url]

end JsText
