import Ddns.Lib.Js
import Ddns.Lib.JsonText
import Mathlib.Data.Int.Log
import Mathlib.Data.Nat.Log
import Mathlib.Data.Rat.Floor
import Mathlib.Tactic.Linarith

/-!
# Rounding to doubles

The sum of two doubles is the double nearest to their exact sum; a tie goes to the even one, and
what is too large is infinite. Integers below `2 ^ 53` are doubles, so sums of them that stay below
it are exact (`nearest_intCast`).
-/

namespace Rounding

/-- The nearest integer; a tie goes to the even one. -/
def halfEven (q : ℚ) : ℤ :=
  let below := q.floor
  if q - below < 1 / 2 then below
  else if 1 / 2 < q - below then below + 1
  else below + below % 2

/-- The exponent of the last place of a double near `q`. -/
def lastPlace (q : ℚ) : ℤ := max (Int.log 2 |q| - 52) (-1074)

/-- The double nearest to `q`. -/
def nearest (q : ℚ) : JsNum :=
  let unit : ℚ := 2 ^ lastPlace q
  let rounded := halfEven (q / unit) * unit
  if 2 ^ 1024 ≤ |rounded| then if 0 < rounded then .posInf else .negInf
  else .fin rounded

@[simp] theorem halfEven_intCast (n : ℤ) : halfEven (n : ℚ) = n := by
  simp [halfEven, Rat.floor_intCast]

/-- A multiple of its last place is a double. -/
theorem nearest_eq_self {q : ℚ} {n : ℤ} (hmultiple : q = n * 2 ^ lastPlace q)
    (hlt : |q| < 2 ^ 1024) : nearest q = .fin q := by
  have hunit : (2 : ℚ) ^ lastPlace q ≠ 0 := (zpow_pos two_pos _).ne'
  have hquotient : q / 2 ^ lastPlace q = n := (div_eq_iff hunit).2 hmultiple
  have hrounded : (halfEven (q / 2 ^ lastPlace q) : ℚ) * 2 ^ lastPlace q = q := by
    rw [hquotient, halfEven_intCast]
    exact hmultiple.symm
  simp only [nearest, hrounded, if_neg (not_le.2 hlt)]

/-- Integers below `2 ^ 53` are doubles. -/
theorem nearest_intCast {n : ℤ} (h : |n| < 2 ^ 53) : nearest (n : ℚ) = .fin n := by
  have hcast : |(n : ℚ)| < 2 ^ 53 := by exact_mod_cast h
  have hplace : lastPlace n ≤ 0 := by
    refine max_le ?_ (by norm_num)
    rcases eq_or_ne n 0 with rfl | hn
    · simp
    · have hpos : (0 : ℚ) < |(n : ℚ)| := abs_pos.2 (Int.cast_ne_zero.2 hn)
      have hlog : Int.log 2 |(n : ℚ)| < 53 :=
        (Int.lt_zpow_iff_log_lt one_lt_two hpos).1 (by exact_mod_cast hcast)
      omega
  obtain ⟨k, hk⟩ := Int.eq_ofNat_of_zero_le (neg_nonneg.2 hplace)
  have hneg : lastPlace n = -(k : ℤ) := by omega
  refine nearest_eq_self (n := n * 2 ^ k) ?_ ?_
  · rw [hneg, zpow_neg, zpow_natCast]
    push_cast
    rw [mul_assoc, mul_inv_cancel₀ (pow_ne_zero k two_ne_zero), mul_one]
  · exact hcast.trans (pow_lt_pow_right₀ one_lt_two (by norm_num))

end Rounding

/-!
## Doubles and their texts

A finite double is given by the fewest decimal digits that determine it, which is how a number is
printed. An integer that is read as a number becomes the nearest double; `reprint` is the integer
that the double is printed as. Below `2 ^ 53` nothing is lost (`reprint_of_lt`).
-/

/-! ## Rounding an integer -/

/-- The nearest multiple of `u`, as a quotient; a tie goes to the even one. -/
def roundHalfEven (n u : ℕ) : ℕ :=
  let q := n / u
  let r := n % u
  if 2 * r < u then q
  else if u < 2 * r then q + 1
  else if q % 2 = 0 then q
  else q + 1

/-- The nearest double to an integer, which is an integer. -/
def nearestDouble (n : ℕ) : ℕ :=
  let u := 2 ^ (n.log2 - 52)
  roundHalfEven n u * u

/-- The multiple of `10 ^ zeros` that is read as the double `d` and closest to it, if there is
one. -/
def decimalAt (d zeros : ℕ) : Option ℕ :=
  let below := d / 10 ^ zeros * 10 ^ zeros
  let above := below + 10 ^ zeros
  if nearestDouble below = d then
    if nearestDouble above = d ∧ above - d < d - below then some above else some below
  else if nearestDouble above = d then some above
  else none

/-- The decimal with the fewest digits that is read as the double `d`; `zeros` bounds its final
zeros. -/
def shortest (d : ℕ) : ℕ → ℕ
  | 0 => d
  | zeros + 1 => (decimalAt d (zeros + 1)).getD (shortest d zeros)

/-- An integer, read as a number and printed again. Below `10 ^ 21` no exponent is printed. -/
def reprint (n : ℕ) : ℕ := shortest (nearestDouble n) 20

theorem le_roundHalfEven (n u : ℕ) : n / u ≤ roundHalfEven n u := by
  unfold roundHalfEven
  simp only
  split_ifs <;> omega

theorem nearestDouble_of_lt {n : ℕ} (h : n < 2 ^ 53) : nearestDouble n = n := by
  have hlog : n.log2 - 52 = 0 := by
    by_cases hn : n = 0
    · subst hn
      rfl
    · have hlt : n.log2 < 53 := (Nat.log2_lt hn).2 h
      omega
  simp [nearestDouble, roundHalfEven, hlog, Nat.mod_one]

theorem le_nearestDouble {n : ℕ} (h : 2 ^ 53 ≤ n) : 2 ^ 53 ≤ nearestDouble n := by
  have hn : n ≠ 0 := by
    rintro rfl
    exact absurd h (by decide)
  have hlog : 53 ≤ n.log2 := (Nat.le_log2 hn).2 h
  have hpow : 2 ^ n.log2 = 2 ^ 52 * 2 ^ (n.log2 - 52) := by
    rw [← Nat.pow_add]
    congr 1
    omega
  have hle : 2 ^ n.log2 ≤ n := Nat.log2_self_le hn
  have hdiv : 2 ^ 52 ≤ n / 2 ^ (n.log2 - 52) := by
    rw [Nat.le_div_iff_mul_le (Nat.two_pow_pos _), ← hpow]
    exact hle
  calc 2 ^ 53 ≤ 2 ^ n.log2 := Nat.pow_le_pow_right (by decide) hlog
    _ = 2 ^ 52 * 2 ^ (n.log2 - 52) := hpow
    _ ≤ nearestDouble n := Nat.mul_le_mul_right _ (hdiv.trans (le_roundHalfEven _ _))

/-- Only `d` itself is read as a double below `2 ^ 53`. -/
theorem eq_of_nearestDouble {n d : ℕ} (hd : d < 2 ^ 53) (h : nearestDouble n = d) : n = d := by
  by_cases hn : n < 2 ^ 53
  · rw [← h, nearestDouble_of_lt hn]
  · have hle := le_nearestDouble (Nat.le_of_not_lt hn)
    omega

theorem shortest_of_lt {d : ℕ} (hd : d < 2 ^ 53) (zeros : ℕ) : shortest d zeros = d := by
  induction zeros with
  | zero => rfl
  | succ zeros ih =>
    rw [shortest, ih]
    have hfound : ∀ x ∈ decimalAt d (zeros + 1), x = d := by
      intro x hx
      apply eq_of_nearestDouble hd
      simp only [decimalAt] at hx
      split_ifs at hx <;> simp_all
    cases hx : decimalAt d (zeros + 1) with
    | none => rfl
    | some x => exact hfound x hx

/-- **Small integers** keep their text. -/
theorem reprint_of_lt {n : ℕ} (h : n < 2 ^ 53) : reprint n = n := by
  rw [reprint, nearestDouble_of_lt h, shortest_of_lt h]

example : reprint (2 ^ 53 + 1) = 2 ^ 53 := by decide +kernel

example : reprint (2 ^ 60) = 1152921504606847000 := by decide +kernel

/-! ## Printing a number -/

/-- The decimal digits of a natural number. -/
def decimal (n : ℕ) : JsText := Nat.toDigits 10 n

theorem decimal_inj {m n : ℕ} (h : decimal m = decimal n) : m = n := by
  unfold decimal at h
  rw [← Nat.ofDigitChars_ten_toDigits (n := m), h, Nat.ofDigitChars_ten_toDigits]

/-- A finite double: `digits * 10 ^ exponent` with a sign, by the fewest digits. -/
structure Double where
  negative : Bool
  digits : ℕ
  exponent : ℤ
  shortest : digits = 0 ∧ exponent = 0 ∨ digits % 10 ≠ 0 ∧ digits < 10 ^ 17

namespace Double

/-- The digits of the double `1`. -/
theorem one_shortest : 1 = 0 ∧ (0 : ℤ) = 0 ∨ 1 % 10 ≠ 0 ∧ 1 < 10 ^ 17 := by decide

/-- Where the decimal point stands, counted from the first digit. -/
def point (d : Double) : ℤ := (decimal d.digits).length + d.exponent

/-- Digits with a point after the first one. -/
def mantissa : JsText → JsText
  | c :: d :: ds => c :: '.' :: d :: ds
  | ds => ds

/-- `Number.prototype.toString`, without the sign. -/
def magnitudeText (d : Double) : JsText :=
  let ds := decimal d.digits
  let n := d.point
  if d.digits = 0 then ['0']
  else if 0 ≤ d.exponent ∧ n ≤ 21 then ds ++ List.replicate d.exponent.toNat '0'
  else if 0 < n ∧ n ≤ 21 then ds.take n.toNat ++ '.' :: ds.drop n.toNat
  else if -6 < n ∧ n ≤ 0 then '0' :: '.' :: (List.replicate (-n).toNat '0' ++ ds)
  else mantissa ds ++ 'e' :: (if 0 < n then '+' else '-') :: decimal (n - 1).natAbs

/-- `Number.prototype.toString`; the sign of zero is not printed. -/
def toText (d : Double) : JsText :=
  if d.negative ∧ d.digits ≠ 0 then '-' :: d.magnitudeText else d.magnitudeText

end Double

/-! ## Texts of numbers -/

namespace Json

theorem isNumChar_of_isDigit {c : Char} (h : c.isDigit) : isNumChar c := by
  simp [isNumChar, h]

theorem all_isNumChar_decimal (n : ℕ) : (decimal n).all isNumChar := by
  apply List.all_eq_true.2
  intro c hc
  exact isNumChar_of_isDigit (Nat.isDigit_of_mem_toDigits (by decide) (by decide) hc)

theorem isNumText_decimal (n : ℕ) : isNumText (decimal n) := by
  simp only [isNumText, all_isNumChar_decimal, Bool.and_true, decide_eq_true_eq]
  exact Nat.toDigits_ne_nil

theorem isNumText_neg {t : JsText} (h : t.all isNumChar) : isNumText ('-' :: t) := by
  simp only [isNumText, List.all_cons, h, Bool.and_true, Bool.and_eq_true, decide_eq_true_eq]
  exact ⟨List.cons_ne_nil _ _, rfl⟩

theorem all_isNumChar_mantissa {ds : JsText} (h : ds.all isNumChar) :
    (Double.mantissa ds).all isNumChar := by
  unfold Double.mantissa
  split
  · simpa [isNumChar] using h
  · exact h

theorem all_isNumChar_magnitudeText (d : Double) : d.magnitudeText.all isNumChar := by
  have hds := all_isNumChar_decimal d.digits
  have hzeros (n : ℕ) : (List.replicate n '0').all isNumChar := by
    apply List.all_eq_true.2
    intro c hc
    rw [List.eq_of_mem_replicate hc]
    rfl
  have hpart {t : JsText} (hsub : t ⊆ decimal d.digits) : t.all isNumChar :=
    List.all_eq_true.2 fun c hc => List.all_eq_true.1 hds c (hsub hc)
  have hdot : isNumChar '.' := rfl
  unfold Double.magnitudeText
  simp only
  split_ifs
  · rfl
  · rw [List.all_append, hds, hzeros, Bool.and_self]
  · rw [List.all_append, List.all_cons, hpart (List.take_subset _ _),
      hpart (List.drop_subset _ _), hdot]
    rfl
  · rw [List.all_cons, List.all_cons, List.all_append, hds, hzeros]
    rfl
  · rw [List.all_append, List.all_cons, List.all_cons, all_isNumChar_mantissa hds,
      all_isNumChar_decimal]
    rfl
  · rw [List.all_append, List.all_cons, List.all_cons, all_isNumChar_mantissa hds,
      all_isNumChar_decimal]
    rfl

theorem isNumText_toText (d : Double) : isNumText d.toText := by
  have hall := all_isNumChar_magnitudeText d
  unfold Double.toText
  split_ifs
  · exact isNumText_neg hall
  · simp only [isNumText, hall, Bool.and_true, decide_eq_true_eq]
    have hds : decimal d.digits ≠ [] := Nat.toDigits_ne_nil
    unfold Double.magnitudeText
    simp only
    split_ifs <;> simp [hds]

end Json

/-- A number, of which JSON prints only the finite ones. -/
inductive Number where
  | finite (d : Double)
  | notFinite

def Number.toJson : Number → Json
  | .finite d => .num d.toText
  | .notFinite => .null

theorem Number.numeric_toJson (n : Number) : n.toJson.numeric := by
  cases n with
  | finite d => exact Json.isNumText_toText d
  | notFinite => rfl
