import Ddns.Stake.Emission

/-!
# Custody of the stake program

The total stake is the sum over the positions, the vault holds its own rent and the total stake, and
a position is locked until `minLockEpochs` after the latest stake into it. A position that fell to
zero keeps its account and its lock, so a stake that opens it again finds both.
-/

namespace Ddns.Stake

open Tx Runs

/-- The epoch of the latest stake of `w`, as of a step. -/
def observeStake (w : Pubkey) (last : Option Nat) (e : Step) : Option Nat :=
  match e.input, e.out with
  | .submit (.stake o _), some (.ok _) => if o.key = w then some (chainEpoch e.pre) else last
  | _, _ => last

/-- The epoch of the latest stake of `w` in a run. -/
def lastStake (w : Pubkey) (l : List Step) : Option Nat := l.foldl (observeStake w) none

/-- The accounts after `init_stake_config`, which creates the vault with the rent of an account
without data. -/
def State.initial (dep : Deployment) (config : StakeConfig) (lamports : Holder → Nat)
    (mints : Mints) (tokens : Tokens) : State :=
  State.genesis config (Function.update lamports .stakeVault (dep.rent 0)) mints tokens

section Steps

variable {dep : Deployment} {clock : Clock} {st st' : State} {o : Signer} {n : Nat}

/-! ## What each instruction does to the vault and the locks -/

/-- Opening a position moves no lamports of the vault. -/
theorem open_vault {lamports lamports' : Holder → Nat} {k : Pubkey} {m : Nat}
    (h : Balances.move 64 lamports (.wallet k) (.position k) m = some lamports') :
    lamports' .stakeVault = lamports .stakeVault := by
  apply Balances.move_of_ne h
  · exact nofun
  · exact nofun

theorem stake_vault (h : stake dep clock st o n = .ok st') :
    st'.lamports .stakeVault = st.lamports .stakeVault + n := by
  simp only [stake, bind_eq_ok, require_eq_ok, okOr_eq_ok, transferLamports_eq_ok, exists_unit,
    pure_eq_ok] at h
  obtain ⟨opened, hopen, -, _, hmove, _, -, _, -, _, -, rfl⟩ := h
  have hin := Balances.move_dst hmove (by simp)
  have hsame : opened .stakeVault = st.lamports .stakeVault := by
    cases hp : st.position.get o.key with
    | none =>
      rw [hp] at hopen
      exact open_vault (transferLamports_eq_ok.1 hopen)
    | some p =>
      rw [hp] at hopen
      rw [← pure_eq_ok.1 hopen]
  rw [← hsame]
  exact hin

/-- A stake locks its position for the minimum time from now on. -/
theorem stake_locks (h : stake dep clock st o n = .ok st') :
    ∃ p, st'.position = st.position.set o.key p ∧
      st.config.epoch clock + st.config.minLockEpochs ≤ p.lockedUntilEpoch := by
  simp only [stake, bind_eq_ok, require_eq_ok, okOr_eq_ok, Checked.add_eq_some, exists_unit,
    pure_eq_ok] at h
  obtain ⟨_, -, -, _, -, _, -, newLock, ⟨-, rfl⟩, _, -, rfl⟩ := h
  exact ⟨_, rfl, Nat.le_max_right _ _⟩

theorem unstake_vault (h : unstake dep clock st o n = .ok st') :
    st'.lamports .stakeVault + n = st.lamports .stakeVault := by
  simp only [unstake, bind_eq_ok, require_eq_ok, demand_eq_ok, okOr_eq_ok, transferLamports_eq_ok,
    exists_unit, pure_eq_ok] at h
  obtain ⟨_, -, -, -, -, _, -, _, -, lamports, hmove, -, rfl⟩ := h
  have hout := Balances.move_src hmove (by simp)
  have hle := Balances.move_le hmove
  show lamports .stakeVault + n = _
  omega

/-- An unstake succeeds only on a position whose lock has run out. -/
theorem unstake_unlocked (h : unstake dep clock st o n = .ok st') :
    ∃ p, st.position.get o.key = some p ∧ p.lockedUntilEpoch ≤ st.config.epoch clock := by
  simp only [unstake, bind_eq_ok, require_eq_ok, ownPosition_eq_ok, exists_unit] at h
  obtain ⟨p, ⟨hp, -⟩, -, hlock, -⟩ := h
  exact ⟨p, hp, hlock⟩

theorem claimRewards_lamports {mint ata : Pubkey} {r : Nat}
    (h : claimRewards dep clock st o mint ata = .ok (st', r)) : st'.lamports = st.lamports := by
  simp only [claimRewards, bind_eq_ok, pure_eq_ok, Prod.mk.injEq] at h
  obtain ⟨_, -, _, -, _, -, _, -, _, -, _, -, _, -, _, -, _, -, rfl, -⟩ := h
  rfl

theorem delegateToVerifier_lamports {v : Pubkey} (h : delegateToVerifier st o v = .ok st') :
    st'.lamports = st.lamports := by
  simp only [delegateToVerifier, bind_eq_ok, pure_eq_ok] at h
  obtain ⟨_, -, rfl⟩ := h
  rfl

end Steps

/-! ## One step keeps the custody -/

/-- Every owner that has staked has a position, locked for `minLock` epochs from its latest stake. -/
def Locked (minLock : Nat) (st : State) (last : Pubkey → Option Nat) : Prop :=
  ∀ w e, last w = some e → ∃ p, st.position.get w = some p ∧ e + minLock ≤ p.lockedUntilEpoch

/-- What holds of the accounts of the stake program after every step. -/
structure Custody (dep : Deployment) (minLock : Nat) (st : State) (last : Pubkey → Option Nat) :
    Prop where
  minLock_eq : st.config.minLockEpochs = minLock
  total : st.config.totalStake = st.staked
  vault : st.lamports .stakeVault = dep.rent 0 + st.config.totalStake
  locked : Locked minLock st last

section Custody

variable {dep : Deployment} {clock : Clock} {st st' : State} {o : Signer} {n minLock : Nat}
  {last : Pubkey → Option Nat}

/-- A write that keeps the lock of a position keeps every lock. -/
theorem Locked.write (h : Locked minLock st last) {k : Pubkey} {p q : StakePosition}
    (hp : st.position.get k = some p) (hpos : st'.position = st.position.set k q)
    (hq : q.lockedUntilEpoch = p.lockedUntilEpoch) : Locked minLock st' last := by
  intro w e he
  obtain ⟨r, hr, hle⟩ := h w e he
  rw [hpos]
  by_cases hw : w = k
  · subst hw
    obtain rfl : p = r := Option.some.inj (hp.symm.trans hr)
    exact ⟨q, FinMap.get_set_self .., hq ▸ hle⟩
  · exact ⟨r, (FinMap.get_set_ne _ _ hw).trans hr, hle⟩

theorem Custody.stake (h : Custody dep minLock st last) (hs : stake dep clock st o n = .ok st') :
    Custody dep minLock st' (Function.update last o.key (some (st.config.epoch clock))) := by
  obtain ⟨-, hcfg, -⟩ := stake_ok hs
  have htotal := h.total
  have hvault := h.vault
  refine ⟨?_, ?_, ?_, ?_⟩
  · rw [hcfg]
    exact h.minLock_eq
  · rw [hcfg, stake_staked hs, ← htotal]
  · rw [hcfg, stake_vault hs, hvault, Nat.add_assoc]
  · obtain ⟨p, hpos, hlock⟩ := stake_locks hs
    intro w e he
    rw [hpos]
    by_cases hw : w = o.key
    · subst hw
      rw [Function.update_self, Option.some.injEq] at he
      exact ⟨p, FinMap.get_set_self .., he ▸ h.minLock_eq ▸ hlock⟩
    · rw [Function.update_of_ne hw] at he
      obtain ⟨q, hq, hle⟩ := h.locked w e he
      exact ⟨q, (FinMap.get_set_ne _ _ hw).trans hq, hle⟩

theorem Custody.unstake (h : Custody dep minLock st last)
    (hs : unstake dep clock st o n = .ok st') : Custody dep minLock st' last := by
  obtain ⟨p, hp, -, -, hT, hcfg, hpos⟩ := unstake_ok hs
  have htotal := h.total
  have hvault := h.vault
  have hstaked := unstake_staked hs
  have hout := unstake_vault hs
  refine ⟨?_, ?_, ?_, ?_⟩
  · rw [hcfg]
    exact h.minLock_eq
  · rw [hcfg]
    show st.config.totalStake - n = _
    omega
  · rw [hcfg]
    show _ = dep.rent 0 + (st.config.totalStake - n)
    omega
  · exact h.locked.write hp hpos rfl

/-- A write that keeps the stake and the lock of one position and moves no lamports. -/
theorem Custody.write (h : Custody dep minLock st last) {k : Pubkey} {p q : StakePosition}
    (hp : st.position.get k = some p) (hpos : st'.position = st.position.set k q)
    (hcfg : st'.config = st.config) (hlam : st'.lamports = st.lamports)
    (hstake : q.stakedAmount = p.stakedAmount) (hlock : q.lockedUntilEpoch = p.lockedUntilEpoch) :
    Custody dep minLock st' last := by
  refine ⟨?_, ?_, ?_, h.locked.write hp hpos hlock⟩
  · rw [hcfg]
    exact h.minLock_eq
  · rw [hcfg, staked_set hp hpos hstake]
    exact h.total
  · rw [hcfg, hlam]
    exact h.vault

end Custody

/-! ## Every run -/

section Run

variable {dep : Deployment} {minLock : Nat}

/-- The custody of a chain after a run so far. -/
def History (dep : Deployment) (minLock : Nat) (c : Chain State) (l : List Step) : Prop :=
  Custody dep minLock c.accounts fun w => lastStake w l

theorem lastStake_append (w : Pubkey) (l : List Step) (e : Step) :
    lastStake w (l ++ [e]) = observeStake w (lastStake w l) e := by
  simp [lastStake]

/-- A step that is no stake leaves the latest stakes as they are. -/
theorem History.of_custody {c c' : Chain State} {l : List Step} {a : Action Instr}
    {out : Option (Result StakeError Nat)} (h : Custody dep minLock c'.accounts fun w => lastStake w l)
    (hobs : ∀ w last, observeStake w last ⟨c, a, out, c'⟩ = last) :
    History dep minLock c' (l ++ [⟨c, a, out, c'⟩]) := by
  unfold History
  simp only [lastStake_append, hobs]
  exact h

theorem step_history {c : Chain State} {l : List Step} (h : History dep minLock c l)
    (a : Action Instr) : History dep minLock (step dep c a).1 (l ++ [event (step dep) c a]) := by
  unfold event
  rcases chainStep_cases (process dep) c a with
    ⟨k, ts, rfl, hs⟩ | ⟨i, st', r, rfl, hok, hs⟩ | ⟨i, e, rfl, -, hs⟩
  · rw [step, hs]
    exact History.of_custody h fun _ _ => rfl
  · rw [step, hs]
    cases i with
    | stake o n =>
      obtain ⟨st', hst, he⟩ := map_eq_ok.1 hok
      cases he
      have hcust := Custody.stake h hst
      unfold History
      have hlast : (fun w => lastStake w (l ++ [⟨c, .submit (.stake o n), some (.ok 0),
          ⟨c.clock, st'⟩⟩])) =
          Function.update (fun w => lastStake w l) o.key (some (chainEpoch c)) := by
        funext w
        rw [lastStake_append]
        by_cases hw : o.key = w
        · subst hw
          rw [Function.update_self]
          exact if_pos rfl
        · rw [Function.update_of_ne (Ne.symm hw)]
          exact if_neg hw
      rw [hlast]
      exact hcust
    | unstake o n =>
      obtain ⟨st', hst, he⟩ := map_eq_ok.1 hok
      cases he
      exact History.of_custody (Custody.unstake h hst) fun _ _ => rfl
    | claimRewards o mint ata =>
      obtain ⟨p, hp, -, -, -, hcfg, hpos⟩ := claimRewards_ok hok
      refine History.of_custody ?_ fun _ _ => rfl
      exact Custody.write h hp hpos hcfg (claimRewards_lamports hok) rfl rfl
    | delegateToVerifier o v =>
      obtain ⟨st', hst, he⟩ := map_eq_ok.1 hok
      cases he
      obtain ⟨p, hp, hcfg, hpos⟩ := delegateToVerifier_ok hst
      refine History.of_custody ?_ fun _ _ => rfl
      exact Custody.write h hp hpos hcfg (delegateToVerifier_lamports hst) rfl rfl
  · rw [step, hs]
    refine History.of_custody h fun _ _ => ?_
    cases i <;> rfl

theorem initial_custody (dep : Deployment) (config : StakeConfig) (lamports : Holder → Nat)
    (mints : Mints) (tokens : Tokens) (clock : Clock) :
    History dep config.minLockEpochs ⟨clock, State.initial dep config lamports mints tokens⟩ [] := by
  refine ⟨rfl, rfl, ?_, ?_⟩
  · show Function.update lamports .stakeVault (dep.rent 0) .stakeVault = dep.rent 0
    rw [Function.update_self]
  · intro w e he
    cases he

/-- **Custody.** At the end of every run the total stake is the sum over the positions, the vault
holds its rent and the total stake, and no unstake of an owner succeeds before `minLockEpochs` have
passed since the latest stake of this owner. -/
theorem stake_custody (dep : Deployment) (config : StakeConfig) (lamports : Holder → Nat)
    (mints : Mints) (tokens : Tokens) (clock : Clock) (is : List (Action Instr)) :
    let start : Chain State := ⟨clock, State.initial dep config lamports mints tokens⟩
    let c := exec (step dep) start is
    c.accounts.config.totalStake = c.accounts.staked ∧
      c.accounts.lamports .stakeVault = dep.rent 0 + c.accounts.config.totalStake ∧
      ∀ (o : Signer) n e r, lastStake o.key (trace (step dep) start is) = some e →
        chainEpoch c < e + config.minLockEpochs →
        process dep c.clock c.accounts (.unstake o n) ≠ .ok r := by
  intro start c
  have h : History dep config.minLockEpochs c (trace (step dep) start is) :=
    history_of_step (J := History dep config.minLockEpochs) (fun _ _ a h => step_history h a)
      (initial_custody dep config lamports mints tokens clock) is
  refine ⟨h.total, h.vault, ?_⟩
  intro o n e r hlast hlt hok
  obtain ⟨st', hst, -⟩ := map_eq_ok.1 hok
  obtain ⟨p, hp, hunlocked⟩ := unstake_unlocked hst
  obtain ⟨q, hq, hlocked⟩ := h.locked o.key e hlast
  obtain rfl : p = q := Option.some.inj (hp.symm.trans hq)
  have hepoch : chainEpoch c = c.accounts.config.epoch c.clock := rfl
  omega

end Run

end Ddns.Stake
