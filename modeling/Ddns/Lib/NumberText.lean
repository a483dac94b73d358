import Ddns.Lib.Casing
import Ddns.Lib.Double

/-!
# Numbers from texts

`Number(text)` (`JsNum.ofText`) and `parseInt(text, 16)` (`parseHex`). `Number` skips white space
around a literal and knows signs, points, exponents and the prefixes of other bases; `parseInt` reads
the digits in front and ignores the rest. Plain digits have the value that they show
(`ofText_digits`, `parseHex_digits`).
-/

namespace NumberText

/-- The value of a digit. -/
def digitVal (c : Char) : Option ℕ :=
  let n := c.toNat
  if 48 ≤ n ∧ n ≤ 57 then some (n - 48)
  else if 97 ≤ n ∧ n ≤ 102 then some (n - 87)
  else if 65 ≤ n ∧ n ≤ 70 then some (n - 55)
  else none

/-- The value of a digit of base `b`. -/
def digitIn (b : ℕ) (c : Char) : Option ℕ := (digitVal c).filter (· < b)

/-- The value of the digits `t` behind those of `n`. -/
def digitsFrom (b : ℕ) : ℕ → JsText → Option ℕ
  | n, [] => some n
  | n, c :: t => (digitIn b c).bind fun d => digitsFrom b (b * n + d) t

/-- The value of a text of digits of base `b`, of which there is at least one. -/
def digits (b : ℕ) (t : JsText) : Option ℕ := if t = [] then none else digitsFrom b 0 t

/-- A sign and what follows it. -/
def sign : JsText → Bool × JsText
  | '-' :: t => (true, t)
  | '+' :: t => (false, t)
  | t => (false, t)

/-- An integer with a sign or without. -/
def signed (t : JsText) : Option ℤ :=
  (digits 10 (sign t).2).map fun n : ℕ => if (sign t).1 then -(n : ℤ) else n

/-- Digits, with a point somewhere or without. -/
def mantissa (t : JsText) : Option ℚ :=
  match t.span (· ≠ '.') with
  | (whole, []) => (digits 10 whole).map fun n : ℕ => (n : ℚ)
  | (whole, _ :: fraction) =>
    (digits 10 (whole ++ fraction)).map fun n : ℕ => (n : ℚ) / 10 ^ fraction.length

/-- A decimal literal without a sign. -/
def decimalLiteral (t : JsText) : Option ℚ :=
  match t.span (fun c => c ≠ 'e' ∧ c ≠ 'E') with
  | (m, []) => mantissa m
  | (m, _ :: e) => do
    let q ← mantissa m
    let n ← signed e
    return q * 10 ^ n

def infinityText : JsText := ['I', 'n', 'f', 'i', 'n', 'i', 't', 'y']

/-- A literal with a sign or without. -/
def signedLiteral (t : JsText) : JsNum :=
  if (sign t).2 = infinityText then if (sign t).1 then .negInf else .posInf
  else match decimalLiteral (sign t).2 with
    | none => .nan
    | some q => Rounding.nearest (if (sign t).1 then -q else q)

/-- An integer behind the prefix of its base. -/
def prefixed (b : ℕ) (t : JsText) : JsNum :=
  match digits b t with
  | none => .nan
  | some n => Rounding.nearest n

/-- A literal of any kind; the empty text is zero. -/
def literal : JsText → JsNum
  | [] => .fin 0
  | '0' :: 'x' :: t => prefixed 16 t
  | '0' :: 'X' :: t => prefixed 16 t
  | '0' :: 'o' :: t => prefixed 8 t
  | '0' :: 'O' :: t => prefixed 8 t
  | '0' :: 'b' :: t => prefixed 2 t
  | '0' :: 'B' :: t => prefixed 2 t
  | t => signedLiteral t

/-- `Number(text)`. -/
def ofText (t : JsText) : JsNum := literal (JsText.trim t)

/-- `BigInt(text)`; `none` is a syntax error. A prefix takes no sign. -/
def bigInt (t : JsText) : Option ℤ :=
  match JsText.trim t with
  | [] => some 0
  | '0' :: 'x' :: t => (digits 16 t).map fun n : ℕ => (n : ℤ)
  | '0' :: 'X' :: t => (digits 16 t).map fun n : ℕ => (n : ℤ)
  | '0' :: 'o' :: t => (digits 8 t).map fun n : ℕ => (n : ℤ)
  | '0' :: 'O' :: t => (digits 8 t).map fun n : ℕ => (n : ℤ)
  | '0' :: 'b' :: t => (digits 2 t).map fun n : ℕ => (n : ℤ)
  | '0' :: 'B' :: t => (digits 2 t).map fun n : ℕ => (n : ℤ)
  | t => signed t

/-- `0x`, if it stands in front. -/
def dropHexPrefix : JsText → JsText
  | '0' :: 'x' :: t => t
  | '0' :: 'X' :: t => t
  | t => t

/-- `parseInt(text, 16)`; an integer is not rounded. -/
def parseHex (t : JsText) : Option ℤ :=
  let s := sign (t.dropWhile JsText.isWhitespace)
  (digits 16 ((dropHexPrefix s.2).takeWhile fun c => (digitIn 16 c).isSome)).map fun n : ℕ =>
    if s.1 then -(n : ℤ) else n

/-! ## Plain digits -/

section Digits

variable {b n : ℕ} {c : Char} {t : JsText}

/-- A character that is a digit of base 16 or less. -/
theorem digitVal_isSome (h : (digitIn b c).isSome) : (48 ≤ c.toNat ∧ c.toNat ≤ 57) ∨
    (97 ≤ c.toNat ∧ c.toNat ≤ 102) ∨ (65 ≤ c.toNat ∧ c.toNat ≤ 70) := by
  unfold digitIn digitVal at h
  by_contra hnone
  simp only [not_or] at hnone
  simp [hnone.1, hnone.2.1, hnone.2.2] at h

theorem digitsFrom_isSome {m : ℕ} (h : (digitsFrom b m t).isSome) :
    ∀ c ∈ t, (digitIn b c).isSome := by
  induction t generalizing m with
  | nil => exact nofun
  | cons c t ih =>
    rw [digitsFrom] at h
    cases hc : digitIn b c with
    | none =>
      rw [hc] at h
      cases h
    | some d =>
      rw [hc] at h
      intro x hx
      rcases List.mem_cons.1 hx with rfl | hx
      · rw [hc]
        rfl
      · exact ih h x hx

theorem digits_eq_some (h : digits b t = some n) :
    t ≠ [] ∧ ∀ c ∈ t, (digitIn b c).isSome := by
  unfold digits at h
  split at h
  · cases h
  · next hne => exact ⟨hne, digitsFrom_isSome (by rw [h]; rfl)⟩

theorem digitsFrom_lt {m : ℕ} (h : digitsFrom b m t = some n) : n < (m + 1) * b ^ t.length := by
  induction t generalizing m with
  | nil =>
    obtain rfl := Option.some.inj h
    simp
  | cons c t ih =>
    obtain ⟨d, hd, hrest⟩ := Option.bind_eq_some_iff.1 h
    have hlt : d < b := of_decide_eq_true (Option.filter_eq_some_iff.1 hd).2
    calc n < (b * m + d + 1) * b ^ t.length := ih hrest
      _ ≤ ((m + 1) * b) * b ^ t.length :=
        Nat.mul_le_mul_right _ (by rw [Nat.add_mul, Nat.mul_comm m b]; omega)
      _ = (m + 1) * b ^ (c :: t).length := by rw [List.length_cons, Nat.pow_succ]; ring

/-- The value of a text of digits is below the power of its length. -/
theorem digits_lt (h : digits b t = some n) : n < b ^ t.length := by
  unfold digits at h
  split at h
  · cases h
  · simpa using digitsFrom_lt h

theorem not_isWhitespace_of_digit (h : (digitIn b c).isSome) : JsText.isWhitespace c = false := by
  have hc := digitVal_isSome h
  unfold JsText.isWhitespace
  dsimp only
  simp only [Bool.or_eq_false_iff, Bool.and_eq_false_iff, decide_eq_false_iff_not]
  omega

/-- The digits of a text with other characters `c` in it have no value. -/
theorem not_mem_digits (h : digits b t = some n) (hc : digitIn b c = none) : c ∉ t := by
  intro hmem
  have hsome := (digits_eq_some h).2 c hmem
  rw [hc] at hsome
  cases hsome

theorem sign_digits (h : ∀ c ∈ t, (digitIn b c).isSome) : sign t = (false, t) := by
  unfold sign
  split
  · next t => exact absurd (digitVal_isSome (h '-' List.mem_cons_self)) (by decide)
  · next t => exact absurd (digitVal_isSome (h '+' List.mem_cons_self)) (by decide)
  · rfl

theorem span_of_not_mem {p : Char → Bool} (h : ∀ c ∈ t, p c = true) : t.span p = (t, []) := by
  rw [List.span_eq_takeWhile_dropWhile, List.takeWhile_eq_self_iff.2 h,
    List.dropWhile_eq_nil_iff.2 h]

theorem trim_digits (h : ∀ c ∈ t, (digitIn b c).isSome) :
    t.dropWhile JsText.isWhitespace = t ∧ JsText.trim t = t := by
  have hkept (c : Char) (hc : c ∈ t) : ¬JsText.isWhitespace c = true := by
    rw [not_isWhitespace_of_digit (h c hc)]
    decide
  have hdrop : t.dropWhile JsText.isWhitespace = t := by
    refine List.dropWhile_eq_self_iff.2 fun hlt => hkept _ (List.getElem_mem hlt)
  refine ⟨hdrop, ?_⟩
  unfold JsText.trim
  rw [hdrop]
  exact List.rdropWhile_eq_self_iff.2 fun hne => hkept _ (List.getLast_mem hne)

theorem decimalLiteral_digits (h : digits 10 t = some n) : decimalLiteral t = some (n : ℚ) := by
  have hexponent : t.span (fun c => c ≠ 'e' ∧ c ≠ 'E') = (t, []) := by
    refine span_of_not_mem fun c hc => decide_eq_true ⟨?_, ?_⟩
    · rintro rfl
      exact not_mem_digits h (by decide) hc
    · rintro rfl
      exact not_mem_digits h (by decide) hc
  have hpoint : t.span (· ≠ '.') = (t, []) := by
    refine span_of_not_mem fun c hc => decide_eq_true ?_
    rintro rfl
    exact not_mem_digits h (by decide) hc
  rw [decimalLiteral, hexponent]
  show mantissa t = some (n : ℚ)
  rw [mantissa, hpoint]
  show (digits 10 t).map _ = _
  rw [h]
  rfl

/-- **A text of decimal digits** is read as the number that it shows, as a double. -/
theorem ofText_digits (h : digits 10 t = some n) : ofText t = Rounding.nearest n := by
  obtain ⟨hne, hall⟩ := digits_eq_some h
  have hliteral : literal t = signedLiteral t := by
    unfold literal
    split
    · exact absurd rfl hne
    · exact absurd (List.mem_cons_of_mem _ List.mem_cons_self) (not_mem_digits h (by decide))
    · exact absurd (List.mem_cons_of_mem _ List.mem_cons_self) (not_mem_digits h (by decide))
    · exact absurd (List.mem_cons_of_mem _ List.mem_cons_self) (not_mem_digits h (by decide))
    · exact absurd (List.mem_cons_of_mem _ List.mem_cons_self) (not_mem_digits h (by decide))
    · exact absurd (List.mem_cons_of_mem _ List.mem_cons_self) (not_mem_digits h (by decide))
    · exact absurd (List.mem_cons_of_mem _ List.mem_cons_self) (not_mem_digits h (by decide))
    · rfl
  have hinfinity : t ≠ infinityText := by
    rintro rfl
    exact not_mem_digits h (by decide) (List.mem_cons_self (a := 'I'))
  rw [ofText, (trim_digits hall).2, hliteral, signedLiteral, sign_digits hall]
  show (if t = infinityText then _ else _) = _
  rw [if_neg hinfinity, decimalLiteral_digits h]
  rfl

theorem dropHexPrefix_digits (h : digits 16 t = some n) : dropHexPrefix t = t := by
  unfold dropHexPrefix
  split
  · exact absurd (List.mem_cons_of_mem _ List.mem_cons_self) (not_mem_digits h (by decide))
  · exact absurd (List.mem_cons_of_mem _ List.mem_cons_self) (not_mem_digits h (by decide))
  · rfl

/-- **A text of hexadecimal digits** is read as the number that it shows. -/
theorem parseHex_digits (h : digits 16 t = some n) : parseHex t = some (n : ℤ) := by
  obtain ⟨-, hall⟩ := digits_eq_some h
  rw [parseHex, (trim_digits hall).1, sign_digits hall]
  dsimp only
  rw [dropHexPrefix_digits h, List.takeWhile_eq_self_iff.2 hall, h]
  rfl

/-- What is no digit ends the number. -/
theorem parseHex_append {r : JsText} (h : digits 16 t = some n) (hc : digitIn 16 c = none)
    (hx : c ≠ 'x') (hX : c ≠ 'X') : parseHex (t ++ c :: r) = some (n : ℤ) := by
  obtain ⟨hne, hall⟩ := digits_eq_some h
  have htake : (t ++ c :: r).takeWhile (fun c => (digitIn 16 c).isSome) = t := by
    rw [List.takeWhile_append_of_pos hall, List.takeWhile_cons_of_neg (by rw [hc]; decide),
      List.append_nil]
  have hsecond (y : Char) (hy : y ≠ c ∧ digitIn 16 y = none) (u : JsText) :
      t ++ c :: r ≠ '0' :: y :: u := by
    intro hcons
    rcases t with _ | ⟨d, _ | ⟨e, t⟩⟩
    · exact hne rfl
    · obtain ⟨-, hcons⟩ := List.cons.inj hcons
      exact hy.1 (List.cons.inj hcons).1.symm
    · obtain ⟨-, hcons⟩ := List.cons.inj hcons
      rw [(List.cons.inj hcons).1] at h
      exact not_mem_digits h hy.2 (List.mem_cons_of_mem d List.mem_cons_self)
  have hdrop : dropHexPrefix (t ++ c :: r) = t ++ c :: r := by
    unfold dropHexPrefix
    split
    · next u hcons => exact absurd hcons (hsecond 'x' ⟨hx.symm, by decide⟩ u)
    · next u hcons => exact absurd hcons (hsecond 'X' ⟨hX.symm, by decide⟩ u)
    · rfl
  obtain ⟨d, t', rfl⟩ := List.exists_cons_of_ne_nil hne
  have hd := hall d List.mem_cons_self
  have hspace : (d :: t' ++ c :: r).dropWhile JsText.isWhitespace = d :: t' ++ c :: r :=
    List.dropWhile_cons_of_neg (by rw [not_isWhitespace_of_digit hd]; decide)
  have hsign : sign (d :: t' ++ c :: r) = (false, d :: t' ++ c :: r) := by
    unfold sign
    split
    · next u hcons => exact absurd ((List.cons.inj hcons).1 ▸ hd) (by decide)
    · next u hcons => exact absurd ((List.cons.inj hcons).1 ▸ hd) (by decide)
    · rfl
  rw [parseHex, hspace, hsign]
  dsimp only
  rw [hdrop, htake, h]
  rfl

/-- A decimal zero is a hexadecimal one. -/
theorem digits_zero (h : digits 10 t = some 0) : digits 16 t = some 0 := by
  have hfrom : ∀ (m : ℕ) (t : JsText), digitsFrom 10 m t = some 0 →
      m = 0 ∧ digitsFrom 16 0 t = some 0 := by
    intro m t
    induction t generalizing m with
    | nil => exact fun h => ⟨Option.some.inj h, rfl⟩
    | cons c t ih =>
      intro h
      obtain ⟨d, hd, hrest⟩ := Option.bind_eq_some_iff.1 h
      obtain ⟨hzero, ht⟩ := ih _ hrest
      obtain ⟨hval, -⟩ := Option.filter_eq_some_iff.1 hd
      obtain rfl : d = 0 := by omega
      refine ⟨by omega, Option.bind_eq_some_iff.2 ⟨0, Option.filter_eq_some_iff.2 ⟨hval, rfl⟩, ht⟩⟩
  unfold digits at h ⊢
  split at h
  · cases h
  · next hne =>
    rw [if_neg hne]
    exact (hfrom 0 t h).2

theorem digitVal_toLower (c : Char) : digitVal c.toLower = digitVal c := by
  have hlower := JsText.toNat_toLower c
  unfold digitVal
  dsimp only
  split at hlower
  · next hc =>
    have hval : c.toNat + 32 - 87 = c.toNat - 55 := by omega
    rw [hlower, hval]
    split_ifs <;> first | omega | rfl
  · rw [hlower]

/-- Digits may be capital letters. -/
theorem digits_toLower (b : ℕ) (t : JsText) : digits b (t.map Char.toLower) = digits b t := by
  have hfrom : ∀ (m : ℕ) (t : JsText), digitsFrom b m (t.map Char.toLower) = digitsFrom b m t := by
    intro m t
    induction t generalizing m with
    | nil => rfl
    | cons c t ih =>
      rw [List.map_cons, digitsFrom, digitsFrom, digitIn, digitVal_toLower]
      exact congrArg _ (funext fun d => ih _)
  rw [digits, digits, hfrom]
  exact if_congr List.map_eq_nil_iff rfl rfl

end Digits

end NumberText
