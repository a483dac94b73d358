import Ddns.Lib.Checked
import Mathlib.Logic.Basic

/-!
# Contracts on the Ethereum virtual machine

Words and addresses, and the checks that make a call revert. Arithmetic is that of Solidity 0.8,
where a sum outside its type reverts. A caller is never the zero address: no transaction comes from
it and no contract has it, which is why contracts use it to say "nobody".
-/

namespace Evm

/-- An account. -/
abbrev Address := BitVec 160

/-- `bytes32`, and `uint256` where it counts. -/
abbrev Word := BitVec 256

/-- `uint64`. -/
abbrev Uint64 := BitVec 64

/-- An account that makes calls. -/
structure Caller where
  address : Address
  ne_zero : address ≠ 0

theorem one_ne_nobody : (1 : Address) ≠ 0 := by decide

theorem two_ne_nobody : (2 : Address) ≠ 0 := by decide

/-- Why a call reverts: a check of the contract, checked arithmetic, or Ether sent to a function that
takes none. -/
inductive Failure (ρ : Type) where
  | revert (reason : ρ)
  | arithmetic
  | notPayable
  deriving DecidableEq, Repr

section Checks

variable {ρ : Type}

/-- `require(c, reason)`. -/
def require (c : Prop) [Decidable c] (reason : ρ) : Except (Failure ρ) Unit :=
  if c then .ok () else .error (.revert reason)

/-- A function without `payable` takes no Ether. -/
def nonPayable (value : Word) : Except (Failure ρ) Unit :=
  if value = 0 then .ok () else .error .notPayable

/-- `a + b` at width `w`. -/
def add {w : Nat} (a b : BitVec w) : Except (Failure ρ) (BitVec w) :=
  match Checked.add w a.toNat b.toNat with
  | some n => .ok (BitVec.ofNat w n)
  | none => .error .arithmetic

@[simp] theorem bind_eq_ok {α β : Type} {x : Except (Failure ρ) α} {f : α → Except (Failure ρ) β}
    {b : β} : (x >>= f) = .ok b ↔ ∃ a, x = .ok a ∧ f a = .ok b := by
  cases x with
  | error e => simp [bind, Except.bind]
  | ok a => simp [bind, Except.bind]

@[simp] theorem pure_eq_ok {α : Type} {a b : α} :
    (pure a : Except (Failure ρ) α) = .ok b ↔ a = b := by
  simp [pure, Except.pure]

@[simp] theorem require_eq_ok {c : Prop} [Decidable c] {reason : ρ} {u : Unit} :
    require c reason = .ok u ↔ c := by
  unfold require
  split <;> simp_all

@[simp] theorem nonPayable_eq_ok {value : Word} {u : Unit} :
    (nonPayable value : Except (Failure ρ) Unit) = .ok u ↔ value = 0 := by
  unfold nonPayable
  split <;> simp_all

@[simp] theorem exists_unit {p : Unit → Prop} : (∃ u, p u) ↔ p () :=
  ⟨fun h => h.elim fun _ hu => hu, fun h => ⟨(), h⟩⟩

/-- A checked sum is the sum. -/
theorem add_eq_ok {w : Nat} {a b c : BitVec w} :
    (add a b : Except (Failure ρ) (BitVec w)) = .ok c ↔ a.toNat + b.toNat = c.toNat := by
  have hc := c.isLt
  unfold add
  cases h : Checked.add w a.toNat b.toNat with
  | none =>
    simp only [Checked.add, ite_eq_right_iff, reduceCtorEq, imp_false, Nat.not_lt] at h
    simp only [reduceCtorEq, false_iff]
    omega
  | some n =>
    obtain ⟨hn, rfl⟩ := Checked.add_eq_some.1 h
    rw [Except.ok.injEq, ← BitVec.toNat_inj, BitVec.toNat_ofNat, Nat.mod_eq_of_lt hn]

end Checks

end Evm
