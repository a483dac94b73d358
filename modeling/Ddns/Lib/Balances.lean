import Mathlib.Algebra.BigOperators.Group.Finset.Basic
import Mathlib.Algebra.BigOperators.Group.Finset.Piecewise
import Mathlib.Algebra.Group.Nat.Defs
import Mathlib.Algebra.Order.BigOperators.Group.Finset
import Mathlib.Algebra.Order.Ring.Nat
import Mathlib.Data.Fintype.EquivFin
import Mathlib.Logic.Function.Basic

/-!
# Balances

Unsigned balances of width `w`, one for each holder, and the transfer between two holders. A
transfer debits first and credits what the debit left, so a transfer from a holder to itself
changes nothing; it is refused when the source holds too little or the destination would overflow.
-/

namespace Balances

variable {κ : Type*} [DecidableEq κ]

/-- Move `n` from `src` to `dst`. -/
def move (w : Nat) (b : κ → Nat) (src dst : κ) (n : Nat) : Option (κ → Nat) :=
  let debited := Function.update b src (b src - n)
  if n ≤ b src ∧ debited dst + n < 2 ^ w then
    some (Function.update debited dst (debited dst + n))
  else none

theorem move_eq_some {w : Nat} {b b' : κ → Nat} {src dst : κ} {n : Nat} :
    move w b src dst n = some b' ↔
      n ≤ b src ∧ Function.update b src (b src - n) dst + n < 2 ^ w ∧
        Function.update (Function.update b src (b src - n)) dst
          (Function.update b src (b src - n) dst + n) = b' := by
  simp [move, and_assoc]

/-- A transfer succeeds only if the source holds the amount. -/
theorem move_le {w : Nat} {b b' : κ → Nat} {src dst : κ} {n : Nat}
    (h : move w b src dst n = some b') : n ≤ b src :=
  (move_eq_some.1 h).1

/-- What a transfer leaves at each holder. -/
theorem move_apply {w : Nat} {b b' : κ → Nat} {src dst : κ} {n : Nat}
    (h : move w b src dst n = some b') (a : κ) :
    b' a + (if a = src then n else 0) = b a + (if a = dst then n else 0) := by
  obtain ⟨hle, -, rfl⟩ := move_eq_some.1 h
  by_cases hd : a = dst
  · subst hd
    by_cases hs : a = src
    · subst hs
      simp only [Function.update_self, if_true]
      omega
    · simp only [Function.update_self, Function.update_of_ne hs, if_neg hs, if_true]
      omega
  · by_cases hs : a = src
    · subst hs
      simp only [Function.update_of_ne hd, Function.update_self, if_true, if_neg hd]
      omega
    · simp only [Function.update_of_ne hd, Function.update_of_ne hs, if_neg hd, if_neg hs]

/-- A transfer leaves every third holder alone. -/
theorem move_of_ne {w : Nat} {b b' : κ → Nat} {src dst a : κ} {n : Nat}
    (h : move w b src dst n = some b') (hs : a ≠ src) (hd : a ≠ dst) : b' a = b a := by
  have := move_apply h a
  rw [if_neg hs, if_neg hd] at this
  exact this

theorem move_src {w : Nat} {b b' : κ → Nat} {src dst : κ} {n : Nat}
    (h : move w b src dst n = some b') (hne : src ≠ dst) : b' src = b src - n := by
  have := move_apply h src
  rw [if_pos rfl, if_neg hne] at this
  omega

theorem move_dst {w : Nat} {b b' : κ → Nat} {src dst : κ} {n : Nat}
    (h : move w b src dst n = some b') (hne : src ≠ dst) : b' dst = b dst + n := by
  have := move_apply h dst
  rw [if_neg hne.symm, if_pos rfl] at this
  omega

end Balances

/-!
## Totals over partial maps

A partial map on a finite type of keys, such as the accounts of one kind by their addresses.
`total f m` is the sum of `f` over the values of `m`; an absent key counts nothing. Writing one key
exchanges its old term for the new one (`total_update`), and each term is at most the total.
-/

namespace Totals

variable {κ ν : Type*} [Fintype κ]

/-- The weight of what a key holds. -/
def weight (f : ν → Nat) (o : Option ν) : Nat := (o.map f).getD 0

/-- The sum of `f` over the values. -/
def total (f : ν → Nat) (m : κ → Option ν) : Nat := ∑ k, weight f (m k)

@[simp] theorem weight_none (f : ν → Nat) : weight f none = 0 := rfl

@[simp] theorem weight_some (f : ν → Nat) (v : ν) : weight f (some v) = f v := rfl

/-- A value that weighs nothing may stand for an absent one. -/
theorem weight_getD (f : ν → Nat) (o : Option ν) {v : ν} (hv : f v = 0) :
    f (o.getD v) = weight f o := by
  cases o with
  | none => exact hv
  | some w => rfl

@[simp] theorem total_empty (f : ν → Nat) : total f (fun _ : κ => none) = 0 := by
  simp [total]

variable [DecidableEq κ]

/-- Writing a key exchanges its old term for the new one. -/
theorem total_update (f : ν → Nat) (m : κ → Option ν) (k : κ) (o : Option ν) :
    total f (Function.update m k o) + weight f (m k) = total f m + weight f o := by
  have hnew := Finset.add_sum_erase Finset.univ (fun a => weight f (Function.update m k o a))
    (Finset.mem_univ k)
  have hold := Finset.add_sum_erase Finset.univ (fun a => weight f (m a)) (Finset.mem_univ k)
  have hrest : ∑ a ∈ Finset.univ.erase k, weight f (Function.update m k o a) =
      ∑ a ∈ Finset.univ.erase k, weight f (m a) := by
    refine Finset.sum_congr rfl fun a ha => ?_
    rw [Function.update_of_ne (Finset.ne_of_mem_erase ha)]
  rw [hrest, Function.update_self] at hnew
  unfold total
  omega

omit [DecidableEq κ] in
theorem weight_le_total (f : ν → Nat) (m : κ → Option ν) (k : κ) :
    weight f (m k) ≤ total f m :=
  Finset.single_le_sum (f := fun a => weight f (m a)) (fun _ _ => Nat.zero_le _)
    (Finset.mem_univ k)

end Totals

/-- Bit strings of a fixed width are finitely many. -/
noncomputable instance fintypeBitVec (w : Nat) : Fintype (BitVec w) :=
  Fintype.ofInjective BitVec.toFin fun _ _ h => BitVec.toFin_inj.1 h
