import Ddns.Lib.Js
import Ddns.Lib.StableSort
import Mathlib.Data.Rat.Floor

/-!
# Integers and arrays of JavaScript

Numbers are brought into the range of an unsigned integer modulo a power of two. `sort` takes the
sign of a comparator.
-/

namespace JsNum

/-- `Number.isInteger`. -/
def isInteger : JsNum → Bool
  | .fin q => q.den = 1
  | _ => false

/-- An integer from `0` to `max`. -/
def isUint (max : ℕ) (n : JsNum) : Bool :=
  n.isInteger && !n.lt (.fin 0) && !(JsNum.fin max).lt n

/-- The unsigned integer of `bits` bits that a typed array or a view stores for a number. -/
def toUint (bits : ℕ) : JsNum → ℕ
  | .fin q => ((if 0 ≤ q then q.floor else q.ceil) % 2 ^ bits).toNat
  | _ => 0

/-- `a - b`. -/
def sub (a b : JsNum) : JsNum :=
  a.add (match b with
    | .nan => .nan
    | .posInf => .negInf
    | .negInf => .posInf
    | .fin q => .fin (-q))

/-- `a === b`. -/
def strictEq (a b : JsNum) : Bool := a ≠ .nan ∧ a = b

theorem isUint_iff {max : ℕ} {n : JsNum} :
    n.isUint max = true ↔ ∃ k : ℕ, k ≤ max ∧ n = .fin k := by
  constructor
  · intro h
    unfold isUint at h
    cases n with
    | fin q =>
      simp only [isInteger, lt, Bool.and_eq_true, decide_eq_true_eq, Bool.not_eq_true',
        decide_eq_false_iff_not, not_lt] at h
      obtain ⟨⟨hden, hpos⟩, hmax⟩ := h
      have hq : q = (q.num.toNat : ℚ) := by
        have hnum : (q.num.toNat : ℤ) = q.num := Int.toNat_of_nonneg (Rat.num_nonneg.2 hpos)
        calc q = (q.num : ℚ) := ((Rat.den_eq_one_iff q).1 hden).symm
          _ = ((q.num.toNat : ℤ) : ℚ) := by rw [hnum]
          _ = _ := Int.cast_natCast _
      refine ⟨q.num.toNat, ?_, congrArg JsNum.fin hq⟩
      rw [hq] at hmax
      exact_mod_cast hmax
    | _ => cases h
  · rintro ⟨k, hk, rfl⟩
    simp [isUint, isInteger, lt, hk]

theorem toUint_natCast (bits k : ℕ) : (JsNum.fin k).toUint bits = k % 2 ^ bits := by
  have hk : (0 : ℚ) ≤ k := Nat.cast_nonneg k
  show ((if (0 : ℚ) ≤ k then (k : ℚ).floor else (k : ℚ).ceil) % 2 ^ bits).toNat = _
  have hfloor : (k : ℚ).floor = k := Rat.floor_intCast k
  rw [if_pos hk, hfloor]
  exact_mod_cast Int.toNat_natCast _

theorem toUint_lt (bits : ℕ) (n : JsNum) : n.toUint bits < 2 ^ bits := by
  cases n with
  | fin q =>
    show ((if 0 ≤ q then q.floor else q.ceil) % 2 ^ bits).toNat < 2 ^ bits
    have hpos : (0 : ℤ) < 2 ^ bits := by positivity
    have hlt := Int.emod_lt_of_pos (if 0 ≤ q then q.floor else q.ceil) hpos
    have hnonneg := Int.emod_nonneg (if 0 ≤ q then q.floor else q.ceil) hpos.ne'
    have hcast : ((2 ^ bits : ℕ) : ℤ) = 2 ^ bits := by push_cast; rfl
    omega
  | _ => exact Nat.two_pow_pos bits

/-! ## The order of numbers -/

def rank : JsNum → ℕ
  | .nan => 0
  | .negInf => 1
  | .fin _ => 2
  | .posInf => 3

def value : JsNum → ℚ
  | .fin q => q
  | _ => 0

/-- The order of numbers, with `nan` in front. -/
def order : JsNum → JsNum → Ordering := compareLex (compareOn rank) (compareOn value)

instance : Std.TransCmp order := inferInstanceAs (Std.TransCmp (compareLex _ _))

theorem order_eq_iff {a b : JsNum} : order a b = .eq ↔ a = b := by
  have hcompare : order a b = (compare a.rank b.rank).then (compare a.value b.value) := rfl
  rw [hcompare, Ordering.then_eq_eq, Std.LawfulEqCmp.compare_eq_iff_eq,
    Std.LawfulEqCmp.compare_eq_iff_eq]
  constructor
  · rintro ⟨hrank, hvalue⟩
    cases a <;> cases b <;> simp_all [rank, value]
  · rintro rfl
    exact ⟨rfl, rfl⟩

/-- A number that is less comes first. -/
theorem lt_of_order {a b : JsNum} (ha : a ≠ .nan) (h : order a b = .lt) : a.lt b = true := by
  have hcompare : order a b = (compare a.rank b.rank).then (compare a.value b.value) := rfl
  rw [hcompare] at h
  cases a <;> cases b <;> simp_all [rank, value, lt, Ordering.then, compare_lt_iff_lt]

theorem lt_irrefl (a : JsNum) : a.lt a = false := by
  cases a <;> simp [lt]

theorem lt_asymm {a b : JsNum} (h : a.lt b = true) : b.lt a = false := by
  cases a <;> cases b <;> simp_all [lt, le_of_lt]

/-- The sign of a difference. -/
theorem zero_lt_sub (a b : JsNum) : (JsNum.fin 0).lt (a.sub b) = b.lt a := by
  cases a <;> cases b <;> simp [sub, add, lt]

end JsNum

/-- An array has less than `2 ^ 32` items. -/
abbrev JsArray (α : Type) := {items : List α // items.length < 2 ^ 32}

/-- `sort` with a comparator; it is stable. The order is up to the engine where the comparator is
not consistent. -/
def jsSort {α : Type} (cmp : α → α → JsNum) (items : List α) : List α :=
  items.insertionSort fun a b => (JsNum.fin 0).lt (cmp a b) = false

theorem jsSort_perm {α : Type} (cmp : α → α → JsNum) (items : List α) :
    (jsSort cmp items).Perm items :=
  List.perm_insertionSort _ _
