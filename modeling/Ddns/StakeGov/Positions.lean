import Ddns.StakeGov.Effects
import Ddns.Lib.Updates

/-!
# The amounts of a position

A position splits its stake: what is locked and what is pending withdrawal are two parts of what is
staked, and the rest is liquid. `Covered` says that the parts fit. Every instruction keeps it, also a
slash, which takes from the liquid stake, then from the locked stake, and then shrinks the pending
part. So every saturating subtraction on a position is exact; the checked twins below answer `none`
as soon as one of them would saturate.
-/

namespace Ddns.StakeGov

open Tx Runs

/-- What is locked and what is pending fit into the stake. -/
def StakePosition.Covered (p : StakePosition) : Prop :=
  p.lockedAmount + p.pendingWithdrawAmount ≤ p.stakedAmount

/-! ## Subtractions that refuse to saturate -/

/-- `availableLiquid`, where each subtraction is checked. -/
def StakePosition.availableLiquidChecked (p : StakePosition) : Option Nat := do
  let unlocked ← Checked.sub p.stakedAmount p.lockedAmount
  Checked.sub unlocked p.pendingWithdrawAmount

/-- `slashLocked`, where each subtraction is checked. -/
def slashLockedChecked (p : StakePosition) (amountSlashed : Nat) : Option StakePosition := do
  let liquidTotal ← Checked.sub p.stakedAmount p.lockedAmount
  let remaining ← Checked.sub amountSlashed (min liquidTotal amountSlashed)
  if 0 < remaining then do
    let lockedAmount ← Checked.sub p.lockedAmount (min p.lockedAmount remaining)
    -- The source computes what is left over after the locked stake and drops it.
    let _ ← Checked.sub remaining (min p.lockedAmount remaining)
    if lockedAmount = 0 then
      pure { p with lockedAmount := 0, lockEndEpoch := 0, lockMultiplierBps := bpsDenom }
    else pure { p with lockedAmount }
  else pure p

/-- `shrinkPending`, where the subtraction is checked. -/
def shrinkPendingChecked (p : StakePosition) : Option StakePosition := do
  let maxPending ← Checked.sub p.stakedAmount p.lockedAmount
  if maxPending < p.pendingWithdrawAmount then
    pure { p with
      pendingWithdrawAmount := maxPending
      exitRequestedEpoch := if maxPending = 0 then 0 else p.exitRequestedEpoch }
  else pure p

/-- `slashStake`, where each subtraction is checked. -/
def slashStakeChecked (p : StakePosition) (amountSlashed : Nat) : Option StakePosition :=
  if 0 < amountSlashed then do
    let p ← slashLockedChecked p amountSlashed
    let stakedAmount ← Checked.sub p.stakedAmount amountSlashed
    shrinkPendingChecked { p with stakedAmount }
  else pure p

theorem sub_of_le {a b : Nat} (h : b ≤ a) : Checked.sub a b = some (a - b) :=
  Checked.sub_eq_some.2 ⟨h, rfl⟩

section Parts

variable {p : StakePosition} {n : Nat}

theorem StakePosition.Covered.locked_le (h : p.Covered) : p.lockedAmount ≤ p.stakedAmount := by
  unfold StakePosition.Covered at h
  omega

theorem StakePosition.Covered.pending_le (h : p.Covered) :
    p.pendingWithdrawAmount ≤ p.stakedAmount := by
  unfold StakePosition.Covered at h
  omega

theorem StakePosition.Covered.availableLiquidChecked_eq (h : p.Covered) :
    p.availableLiquidChecked = some p.availableLiquid := by
  have hp : p.pendingWithdrawAmount ≤ p.stakedAmount - p.lockedAmount := by
    unfold StakePosition.Covered at h
    omega
  unfold StakePosition.availableLiquidChecked
  rw [sub_of_le h.locked_le]
  exact sub_of_le hp

/-- A slash takes nothing from the stake itself before the locked part is settled. -/
@[simp] theorem slashLocked_staked (p : StakePosition) (n : Nat) :
    (slashLocked p n).stakedAmount = p.stakedAmount := by
  rcases slashLocked_cases p n with h | ⟨left, -, -, h⟩ | h <;> rw [h]

@[simp] theorem slashLocked_locked (p : StakePosition) (n : Nat) :
    (slashLocked p n).lockedAmount =
      p.lockedAmount - (n - min (p.stakedAmount - p.lockedAmount) n) := by
  unfold slashLocked
  dsimp only
  split
  · next hr =>
    split
    · next hz =>
      show 0 = _
      omega
    · next hz =>
      show p.lockedAmount - min p.lockedAmount _ = _
      omega
  · next hr => omega

theorem slashLockedChecked_eq (hle : p.lockedAmount ≤ p.stakedAmount) (n : Nat) :
    slashLockedChecked p n = some (slashLocked p n) := by
  unfold slashLockedChecked slashLocked
  rw [sub_of_le hle]
  simp only [Option.bind_eq_bind, Option.bind_some]
  rw [sub_of_le (Nat.min_le_right _ n), Option.bind_some]
  by_cases hr : 0 < n - min (p.stakedAmount - p.lockedAmount) n
  · rw [if_pos hr, if_pos hr, sub_of_le (Nat.min_le_left _ _), Option.bind_some,
      sub_of_le (Nat.min_le_right _ _), Option.bind_some]
    split <;> rfl
  · rw [if_neg hr, if_neg hr]
    rfl

@[simp] theorem shrinkPending_staked (p : StakePosition) :
    (shrinkPending p).stakedAmount = p.stakedAmount := by
  rcases shrinkPending_cases p with h | ⟨left, -, h⟩ <;> rw [h]

/-- Shrinking the pending part restores `Covered` wherever the locked part fits. -/
theorem shrinkPending_covered (hle : p.lockedAmount ≤ p.stakedAmount) :
    (shrinkPending p).Covered := by
  unfold shrinkPending StakePosition.Covered
  dsimp only
  split
  · show p.lockedAmount + (p.stakedAmount - p.lockedAmount) ≤ p.stakedAmount
    omega
  · next hp => omega

theorem shrinkPendingChecked_eq (hle : p.lockedAmount ≤ p.stakedAmount) :
    shrinkPendingChecked p = some (shrinkPending p) := by
  unfold shrinkPendingChecked shrinkPending
  rw [sub_of_le hle]
  simp only [Option.bind_eq_bind, Option.bind_some]
  split <;> rfl

/-- After the locked part has paid its share, it fits into what the slash leaves. -/
theorem slashLocked_fits (hle : p.lockedAmount ≤ p.stakedAmount) (hn : n ≤ p.stakedAmount) :
    (slashLocked p n).lockedAmount ≤ p.stakedAmount - n := by
  rw [slashLocked_locked]
  omega

/-- A slash takes its amount from the stake, whatever parts it comes from. -/
@[simp] theorem slashStake_staked (p : StakePosition) (n : Nat) :
    (slashStake p n).stakedAmount = p.stakedAmount - n := by
  unfold slashStake
  split
  · show (shrinkPending _).stakedAmount = _
    rw [shrinkPending_staked]
    show (slashLocked p n).stakedAmount - n = _
    rw [slashLocked_staked]
  · next hn => omega

theorem slashStake_covered (h : p.Covered) (hn : n ≤ p.stakedAmount) : (slashStake p n).Covered := by
  unfold slashStake
  split
  · apply shrinkPending_covered
    show (slashLocked p n).lockedAmount ≤ (slashLocked p n).stakedAmount - n
    rw [slashLocked_staked]
    exact slashLocked_fits h.locked_le hn
  · exact h

/-- No subtraction of a slash saturates. -/
theorem slashStakeChecked_eq (h : p.Covered) (hn : n ≤ p.stakedAmount) :
    slashStakeChecked p n = some (slashStake p n) := by
  unfold slashStakeChecked slashStake
  split
  · rw [slashLockedChecked_eq h.locked_le]
    simp only [Option.bind_eq_bind, Option.bind_some]
    rw [slashLocked_staked, sub_of_le hn, Option.bind_some]
    apply shrinkPendingChecked_eq
    exact slashLocked_fits h.locked_le hn
  · rfl

end Parts

/-! ## Every reachable position is covered -/

/-- Every position is covered. -/
def State.Covered (st : State) : Prop :=
  ∀ k p, st.position k = some p → p.Covered

variable {dep : Deployment} {clock : Clock} {st st' : State} {i : Instr} {n : Nat}

theorem State.Covered.update (h : st.Covered) {k : Pubkey} {p : StakePosition} (hp : p.Covered)
    (hpos : st'.position = Function.update st.position k (some p)) : st'.Covered := by
  intro w q hq
  rw [hpos] at hq
  exact Updates.forall_update h hp w q hq

theorem covered_of_eq (h : st.Covered) (hpos : st'.position = st.position) : st'.Covered := by
  intro w q hq
  rw [hpos] at hq
  exact h w q hq

/-- **Step lemma**: every instruction keeps the positions covered. -/
theorem Effect.covered (he : Effect dep clock st i st' n) (h : st.Covered) : st'.Covered := by
  cases he with
  | registerVerifier | setVerifierActive | submitSnapshot | splTransfer | unlockNone =>
    exact covered_of_eq h rfl
  | initStakePosition hnew =>
    refine h.update ?_ rfl
    exact Nat.le_refl 0
  | stake hn hp =>
    refine h.update ?_ rfl
    have hcov := h _ _ hp
    unfold StakePosition.Covered at *
    dsimp only
    omega
  | lock hn hp hle =>
    refine h.update ?_ rfl
    have hcov := h _ _ hp
    unfold StakePosition.Covered StakePosition.availableLiquid at *
    dsimp only
    omega
  | unlockExpired hp =>
    refine h.update ?_ rfl
    show 0 + _ ≤ _
    rw [Nat.zero_add]
    exact (h _ _ hp).pending_le
  | requestExit hn hp hle =>
    refine h.update ?_ rfl
    have hcov := h _ _ hp
    unfold StakePosition.Covered StakePosition.availableLiquid at *
    dsimp only
    omega
  | finalizeWithdraw hp =>
    refine h.update ?_ rfl
    have hcov := h _ _ hp
    unfold StakePosition.Covered at *
    dsimp only
    omega
  | setDelegate hp | setDelegationSlashable hp =>
    refine h.update ?_ rfl
    have hcov := h _ _ hp
    exact hcov
  | applySlash _ hp hbps hamount =>
    refine h.update ?_ rfl
    exact slashStake_covered (h _ _ hp) (mulBps_le hamount (Nat.le_trans hbps st.config.slash_le))

/-- A transaction that commits keeps the positions covered. -/
theorem chain_covered (c : Chain State) (a : Action Instr) (h : c.accounts.Covered) :
    (step dep c a).1.accounts.Covered :=
  accounts_invariant (fun _ _ _ _ _ h hok => (process_effect hok).2.covered h) c a h

/-- What holds of a position in which no subtraction saturates, at the slashes that `config`
allows. -/
structure Exact (config : StakeGovConfig) (p : StakePosition) : Prop where
  covered : p.lockedAmount + p.pendingWithdrawAmount ≤ p.stakedAmount
  liquid : p.availableLiquidChecked = some p.availableLiquid
  slash : ∀ bps amount, bps ≤ config.maxSlashBpsPerEvent → mulBps p.stakedAmount bps = .ok amount →
    slashStakeChecked p amount = some (slashStake p amount)
  withdraw : Checked.sub p.stakedAmount p.pendingWithdrawAmount =
    some (p.stakedAmount - p.pendingWithdrawAmount)

theorem StakePosition.Covered.exact {config : StakeGovConfig} {p : StakePosition}
    (h : p.Covered) : Exact config p where
  covered := h
  liquid := h.availableLiquidChecked_eq
  slash _ _ hbps hamount :=
    slashStakeChecked_eq h (mulBps_le hamount (Nat.le_trans hbps config.slash_le))
  withdraw := sub_of_le h.pending_le

/-- **The position invariant.** In every state of every run, what a position has locked and pending
fits into its stake; no subtraction on it saturates, in a slash neither, and the checked subtraction
of a withdrawal succeeds. -/
theorem positions_exact (dep : Deployment) (config : StakeGovConfig) (tokens : Tokens)
    (clock : Clock) (is : List (Action Instr)) :
    Always (step dep)
      (fun c => ∀ k p, c.accounts.position k = some p → Exact c.accounts.config p)
      ⟨clock, State.genesis config tokens⟩ is := by
  have hcov : Always (step dep) (fun c => c.accounts.Covered)
      ⟨clock, State.genesis config tokens⟩ is :=
    Always.of_step chain_covered (fun _ _ h => by cases h) is
  exact hcov.imp fun c h k p hp => (h k p hp).exact

end Ddns.StakeGov
