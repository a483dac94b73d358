import Ddns.Lib.Checked
import Mathlib.Algebra.BigOperators.Group.List.Basic
import Mathlib.Algebra.Order.Ring.Nat
import Mathlib.Tactic.Ring

/-!
# Floored shares

A share of an amount is a number of parts of a whole of `d` parts, rounded down. Shares whose parts
fit the whole together fit the amount, and a share of a `u64` is computed in `u128` without
overflow when the whole is no more than `2 ^ 64`. `cut` lowers an amount by several penalties, one
after the other; the rounding is in favour of who pays (`cut_mul_le`).
-/

namespace Shares

/-- `p` of the `d` parts of `n`, rounded down. -/
def share (d n p : Nat) : Nat := n * p / d

variable {d n p q : Nat}

theorem share_le (hp : p ≤ d) : share d n p ≤ n := by
  unfold share
  refine Nat.div_le_of_le_mul ?_
  rw [Nat.mul_comm d]
  exact Nat.mul_le_mul_left n hp

theorem share_mono {n' p' : Nat} (hn : n ≤ n') (hp : p ≤ p') : share d n p ≤ share d n' p' :=
  Nat.div_le_div_right (Nat.mul_le_mul hn hp)

/-- Two shares of an amount are together no more than it. -/
theorem share_add_le (h : p + q ≤ d) : share d n p + share d n q ≤ n := by
  unfold share
  rcases Nat.eq_zero_or_pos d with rfl | hd
  · simp
  · refine Nat.le_of_mul_le_mul_left ?_ hd
    calc d * (n * p / d + n * q / d) = d * (n * p / d) + d * (n * q / d) := Nat.mul_add ..
      _ ≤ n * p + n * q := Nat.add_le_add (Nat.mul_div_le ..) (Nat.mul_div_le ..)
      _ = n * (p + q) := (Nat.mul_add ..).symm
      _ ≤ n * d := Nat.mul_le_mul_left n h
      _ = d * n := Nat.mul_comm ..

/-- The product of a share fits `u128`. -/
theorem product_lt (hn : n < 2 ^ 64) (hp : p ≤ d) (hd : d ≤ 2 ^ 64) : n * p < 2 ^ 128 := by
  have hpos : 0 < 2 ^ 64 := by decide
  calc n * p ≤ n * 2 ^ 64 := Nat.mul_le_mul_left n (Nat.le_trans hp hd)
    _ < 2 ^ 64 * 2 ^ 64 := Nat.mul_lt_mul_of_pos_right hn hpos
    _ = 2 ^ 128 := by decide

/-- And the share itself fits `u64` again. -/
theorem cast_share (hn : n < 2 ^ 64) (hp : p ≤ d) :
    Checked.cast 64 (share d n p) = share d n p :=
  Checked.cast_of_lt (Nat.lt_of_le_of_lt (share_le hp) hn)

/-! ## Penalties -/

/-- What is left of `r` after a cut of each of the penalties, in parts of `d`. -/
def cut (d r : Nat) (ps : List Nat) : Nat := ps.foldl (fun r p => share d r (d - p)) r

@[simp] theorem cut_nil (d r : Nat) : cut d r [] = r := rfl

/-- One penalty more. -/
theorem cut_concat (d r : Nat) (ps : List Nat) (p : Nat) :
    cut d r (ps ++ [p]) = share d (cut d r ps) (d - p) := by
  unfold cut
  rw [List.foldl_append, List.foldl_cons, List.foldl_nil]

theorem cut_le (d r : Nat) (ps : List Nat) : cut d r ps ≤ r := by
  induction ps generalizing r with
  | nil => exact Nat.le_refl r
  | cons p ps ih => exact Nat.le_trans (ih _) (share_le (Nat.sub_le d p))

/-- The cuts leave at most the product of the kept parts. -/
theorem cut_mul_le (d r : Nat) (ps : List Nat) :
    cut d r ps * d ^ ps.length ≤ r * (ps.map (d - ·)).prod := by
  induction ps generalizing r with
  | nil => simp
  | cons p ps ih =>
    have hcut : cut d (share d r (d - p)) ps * d ^ ps.length ≤
        share d r (d - p) * (ps.map (d - ·)).prod := ih _
    have hshare : share d r (d - p) * d ≤ r * (d - p) := Nat.div_mul_le_self ..
    calc cut d r (p :: ps) * d ^ (ps.length + 1)
        = cut d (share d r (d - p)) ps * d ^ ps.length * d := by rw [Nat.pow_succ, Nat.mul_assoc]; rfl
      _ ≤ share d r (d - p) * (ps.map (d - ·)).prod * d := Nat.mul_le_mul_right d hcut
      _ = share d r (d - p) * d * (ps.map (d - ·)).prod := by ring
      _ ≤ r * (d - p) * (ps.map (d - ·)).prod := Nat.mul_le_mul_right _ hshare
      _ = r * ((p :: ps).map (d - ·)).prod := by rw [List.map_cons, List.prod_cons, Nat.mul_assoc]

end Shares

/-!
## Pro-rata pools

A pool emits `rate` for each epoch and pays it out by shares: a member with the stake `s` that has
not been paid for `d` epochs is paid `rate * d * s / stake`. `pending` is the sum of `d * s` over
the members, so `paid * stake + rate * pending` is, up to the factor `stake`, what will have been
paid once everybody is paid up. The pool is `Solvent` while this is at most `rate * epochs * stake`.

Time and payments keep a pool solvent. A change of stake moves every member's share of what is
still pending: it keeps the pool solvent if who joins waits no longer than the pool on average and
who leaves waits no shorter.
-/

namespace ProRata

/-- What has been paid, the stake and the pending stake-epochs. -/
structure Pool where
  paid : Nat
  stake : Nat
  pending : Nat

/-- What is paid and pending is covered by `epochs` epochs of `rate`. -/
structure Solvent (rate epochs : Nat) (p : Pool) : Prop where
  paid_le : p.paid ≤ rate * epochs
  covered : p.paid * p.stake + rate * p.pending ≤ rate * epochs * p.stake

variable {rate epochs : Nat} {p : Pool}

/-- Nothing is owed before anything is staked. -/
theorem Solvent.init (rate epochs : Nat) : Solvent rate epochs ⟨0, 0, 0⟩ :=
  ⟨Nat.zero_le _, by simp⟩

/-- Over `n` epochs every member waits `n` epochs longer. -/
theorem Solvent.accrue (h : Solvent rate epochs p) (n : Nat) :
    Solvent rate (epochs + n) ⟨p.paid, p.stake, p.pending + n * p.stake⟩ := by
  have hpaid := h.paid_le
  have hcov := h.covered
  refine ⟨?_, ?_⟩
  · show p.paid ≤ rate * (epochs + n)
    rw [Nat.mul_add]
    omega
  · show p.paid * p.stake + rate * (p.pending + n * p.stake) ≤ rate * (epochs + n) * p.stake
    calc p.paid * p.stake + rate * (p.pending + n * p.stake)
        = (p.paid * p.stake + rate * p.pending) + rate * n * p.stake := by ring
      _ ≤ rate * epochs * p.stake + rate * n * p.stake := Nat.add_le_add_right hcov _
      _ = rate * (epochs + n) * p.stake := by ring

/-- Stake `n` joins that has waited `d` epochs, no longer than the pool on average. -/
theorem Solvent.join (h : Solvent rate epochs p) {d n : Nat} (hd : d * p.stake ≤ p.pending)
    (hfresh : p.stake = 0 → d = 0) :
    Solvent rate epochs ⟨p.paid, p.stake + n, p.pending + d * n⟩ := by
  refine ⟨h.paid_le, ?_⟩
  have hcov := h.covered
  -- The part that joins is covered by itself.
  have hpart : p.paid * n + rate * (d * n) ≤ rate * epochs * n := by
    rcases Nat.eq_zero_or_pos p.stake with hzero | hpos
    · rw [hfresh hzero, Nat.zero_mul, Nat.mul_zero, Nat.add_zero]
      exact Nat.mul_le_mul_right n h.paid_le
    · have hscaled : (p.paid + rate * d) * p.stake ≤ rate * epochs * p.stake := by
        have hrd : rate * (d * p.stake) ≤ rate * p.pending := Nat.mul_le_mul_left rate hd
        calc (p.paid + rate * d) * p.stake = p.paid * p.stake + rate * (d * p.stake) := by ring
          _ ≤ p.paid * p.stake + rate * p.pending := Nat.add_le_add_left hrd _
          _ ≤ rate * epochs * p.stake := hcov
      have hle : p.paid + rate * d ≤ rate * epochs := Nat.le_of_mul_le_mul_right hscaled hpos
      calc p.paid * n + rate * (d * n) = (p.paid + rate * d) * n := by ring
        _ ≤ rate * epochs * n := Nat.mul_le_mul_right n hle
  show p.paid * (p.stake + n) + rate * (p.pending + d * n) ≤ rate * epochs * (p.stake + n)
  calc p.paid * (p.stake + n) + rate * (p.pending + d * n)
      = (p.paid * p.stake + rate * p.pending) + (p.paid * n + rate * (d * n)) := by ring
    _ ≤ rate * epochs * p.stake + rate * epochs * n := Nat.add_le_add hcov hpart
    _ = rate * epochs * (p.stake + n) := by ring

/-- Stake `n` leaves that has waited `d` epochs, no shorter than the pool on average. -/
theorem Solvent.leave {paid stake pending d n : Nat}
    (h : Solvent rate epochs ⟨paid, stake + n, pending + d * n⟩)
    (hd : pending + d * n ≤ d * (stake + n)) : Solvent rate epochs ⟨paid, stake, pending⟩ := by
  refine ⟨h.paid_le, ?_⟩
  have hcov : paid * (stake + n) + rate * (pending + d * n) ≤ rate * epochs * (stake + n) :=
    h.covered
  have hrest : pending ≤ d * stake := by
    rw [Nat.mul_add] at hd
    omega
  show paid * stake + rate * pending ≤ rate * epochs * stake
  rcases Nat.eq_zero_or_pos (stake + n) with hzero | hpos
  · have hs : stake = 0 := by omega
    have hp : pending = 0 := by
      rw [hs, Nat.mul_zero] at hrest
      omega
    rw [hs, hp]
    exact Nat.le_refl 0
  · -- What stays waits less than what leaves, so its share of the pending is at most its stake's.
    have hshare : pending * (stake + n) ≤ (pending + d * n) * stake := by
      calc pending * (stake + n) = pending * stake + pending * n := by ring
        _ ≤ pending * stake + d * stake * n := by
          exact Nat.add_le_add_left (Nat.mul_le_mul_right n hrest) _
        _ = (pending + d * n) * stake := by ring
    have hscaled : (paid * stake + rate * pending) * (stake + n) ≤
        rate * epochs * stake * (stake + n) := by
      calc (paid * stake + rate * pending) * (stake + n)
          = paid * (stake + n) * stake + rate * (pending * (stake + n)) := by ring
        _ ≤ paid * (stake + n) * stake + rate * ((pending + d * n) * stake) := by
          exact Nat.add_le_add_left (Nat.mul_le_mul_left rate hshare) _
        _ = (paid * (stake + n) + rate * (pending + d * n)) * stake := by ring
        _ ≤ rate * epochs * (stake + n) * stake := Nat.mul_le_mul_right stake hcov
        _ = rate * epochs * stake * (stake + n) := by ring
    exact Nat.le_of_mul_le_mul_right hscaled hpos

/-- A member with the pending `w` is paid no more than its share. -/
theorem Solvent.pay {paid stake pending w r : Nat}
    (h : Solvent rate epochs ⟨paid, stake, pending + w⟩) (hpos : 0 < stake)
    (hr : r * stake ≤ rate * w) : Solvent rate epochs ⟨paid + r, stake, pending⟩ := by
  have hcov : paid * stake + rate * (pending + w) ≤ rate * epochs * stake := h.covered
  have hcov' : (paid + r) * stake + rate * pending ≤ rate * epochs * stake := by
    calc (paid + r) * stake + rate * pending = paid * stake + r * stake + rate * pending := by ring
      _ ≤ paid * stake + rate * w + rate * pending := by
        exact Nat.add_le_add_right (Nat.add_le_add_left hr _) _
      _ = paid * stake + rate * (pending + w) := by ring
      _ ≤ rate * epochs * stake := hcov
  refine ⟨?_, hcov'⟩
  have hscaled : (paid + r) * stake ≤ rate * epochs * stake :=
    Nat.le_trans (Nat.le_add_right _ _) hcov'
  exact Nat.le_of_mul_le_mul_right hscaled hpos

/-- A share is at most the whole. -/
theorem share_le {stake s d r : Nat} (hs : s ≤ stake) (hpos : 0 < stake)
    (hr : r * stake ≤ rate * (d * s)) : r ≤ rate * d := by
  have hscaled : r * stake ≤ rate * d * stake := by
    calc r * stake ≤ rate * (d * s) := hr
      _ ≤ rate * (d * stake) := Nat.mul_le_mul_left rate (Nat.mul_le_mul_left d hs)
      _ = rate * d * stake := by ring
  exact Nat.le_of_mul_le_mul_right hscaled hpos

end ProRata
