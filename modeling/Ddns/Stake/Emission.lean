import Ddns.Stake.Program
import Ddns.Lib.Shares

/-!
# Emission of the stake program

`claim_rewards` pays a position for its whole unclaimed interval at the stake it has now, out of
the total stake there is now. The pool of the accounts is then a `ProRata.Pool`: what has been
minted, the total stake, and the sum of interval times stake over the positions. It stays within
`rewardRatePerEpoch` for each epoch as long as stake that moves waits neither too long (when it
joins) nor too short (when it leaves): `Calm`. What holds with no condition is the bound for each
owner on its own.
-/

namespace Ddns.Stake

open Tx Runs

/-- The epoch on a chain. -/
def chainEpoch (c : Chain State) : Nat := c.accounts.config.epoch c.clock

/-- The stake-epochs for which the positions have not claimed. -/
def State.pending (st : State) (epoch : Nat) : Nat :=
  FinMap.total (fun _ p => (epoch - p.lastClaimedEpoch) * p.stakedAmount) st.position

/-- The stake of all positions. -/
def State.staked (st : State) : Nat :=
  FinMap.total (fun _ p => p.stakedAmount) st.position

/-- The position that `stake` adds to. -/
def State.target (st : State) (owner : Pubkey) (epoch : Nat) : StakePosition :=
  openPosition ((st.position.get owner).getD StakePosition.zero) owner epoch

section Steps

variable {dep : Deployment} {clock : Clock} {st st' : State} {o : Signer} {n r : Nat}
  {pos : StakePosition}

/-! ## What each instruction does to the positions -/

theorem target_last_le (h : ∀ k p, st.position.get k = some p → p.lastClaimedEpoch ≤ n)
    (w : Pubkey) : (st.target w n).lastClaimedEpoch ≤ n := by
  unfold State.target openPosition
  split
  · exact Nat.le_refl n
  · next hs =>
    cases hp : st.position.get w with
    | none => simp [hp, StakePosition.zero] at hs
    | some p => exact h w p hp

@[simp] theorem openPosition_staked (p : StakePosition) (w : Pubkey) (e : Nat) :
    (openPosition p w e).stakedAmount = p.stakedAmount := by
  unfold openPosition
  split <;> rfl

theorem ownPosition_eq_ok :
    ownPosition st o = .ok pos ↔ st.position.get o.key = some pos ∧ pos.owner = o.key := by
  simp only [ownPosition, bind_eq_ok, load_eq_ok, demand_eq_ok, exists_unit, pure_eq_ok]
  constructor
  · rintro ⟨p, hp, hown, rfl⟩
    exact ⟨hp, hown⟩
  · rintro ⟨hp, hown⟩
    exact ⟨pos, hp, hown, rfl⟩

/-- A stake writes one position and the total. -/
theorem stake_ok (h : stake dep clock st o n = .ok st') :
    0 < n ∧ st'.config = { st.config with totalStake := st.config.totalStake + n } ∧
      ∃ locked, st'.position = st.position.set o.key
        { st.target o.key (st.config.epoch clock) with
          stakedAmount := (st.target o.key (st.config.epoch clock)).stakedAmount + n
          lockedUntilEpoch := locked } := by
  simp only [stake, bind_eq_ok, require_eq_ok, okOr_eq_ok, Checked.add_eq_some, exists_unit,
    pure_eq_ok] at h
  obtain ⟨_, -, hn, _, -, _, ⟨-, rfl⟩, _, ⟨-, rfl⟩, _, ⟨-, rfl⟩, rfl⟩ := h
  exact ⟨hn, rfl, _, rfl⟩

/-- An unstake takes from one position and the total. -/
theorem unstake_ok (h : unstake dep clock st o n = .ok st') :
    ∃ p, st.position.get o.key = some p ∧ 0 < n ∧ n ≤ p.stakedAmount ∧
      n ≤ st.config.totalStake ∧
      st'.config = { st.config with totalStake := st.config.totalStake - n } ∧
      st'.position = st.position.set o.key { p with stakedAmount := p.stakedAmount - n } := by
  simp only [unstake, bind_eq_ok, require_eq_ok, demand_eq_ok, okOr_eq_ok, Checked.sub_eq_some,
    ownPosition_eq_ok, exists_unit, pure_eq_ok] at h
  obtain ⟨p, ⟨hp, -⟩, hn, -, hle, _, ⟨-, rfl⟩, _, ⟨hT, rfl⟩, _, -, -, rfl⟩ := h
  exact ⟨p, hp, hn, hle, hT, rfl, rfl⟩

/-- The reward is at most the share of the position, cast or not. -/
theorem claimReward_le {cfg : StakeConfig} {d : Nat} (h : claimReward cfg pos d = .ok r) :
    r * cfg.totalStake ≤ cfg.rewardRatePerEpoch * (d * pos.stakedAmount) := by
  simp only [claimReward, bind_eq_ok, okOr_eq_ok, Checked.mul_eq_some, pure_eq_ok] at h
  obtain ⟨_, ⟨-, rfl⟩, _, ⟨-, rfl⟩, rfl⟩ := h
  calc Checked.cast 64 (cfg.rewardRatePerEpoch * d * pos.stakedAmount / cfg.totalStake) *
        cfg.totalStake
      ≤ cfg.rewardRatePerEpoch * d * pos.stakedAmount / cfg.totalStake * cfg.totalStake :=
        Nat.mul_le_mul_right _ (Checked.cast_le 64 _)
    _ ≤ cfg.rewardRatePerEpoch * d * pos.stakedAmount := Nat.div_mul_le_self ..
    _ = cfg.rewardRatePerEpoch * (d * pos.stakedAmount) := Nat.mul_assoc ..

/-- A claim mints a share and brings one position up to date. -/
theorem claimRewards_ok {mint ata : Pubkey}
    (h : claimRewards dep clock st o mint ata = .ok (st', r)) :
    ∃ p, st.position.get o.key = some p ∧ 0 < st.config.totalStake ∧
      p.lastClaimedEpoch ≤ st.config.epoch clock ∧
      r * st.config.totalStake ≤ st.config.rewardRatePerEpoch *
        ((st.config.epoch clock - p.lastClaimedEpoch) * p.stakedAmount) ∧
      st'.config = st.config ∧
      st'.position = st.position.set o.key
        { p with lastClaimedEpoch := st.config.epoch clock } := by
  simp only [claimRewards, bind_eq_ok, require_eq_ok, okOr_eq_ok, Checked.sub_eq_some,
    ownPosition_eq_ok, exists_unit, pure_eq_ok, Prod.mk.injEq] at h
  obtain ⟨p, ⟨hp, -⟩, hT, -, hlast, _, ⟨-, rfl⟩, -, r', hr, -, _, -, rfl, rfl⟩ := h
  exact ⟨p, hp, hT, hlast, claimReward_le hr, rfl, rfl⟩

theorem delegateToVerifier_ok {v : Pubkey} (h : delegateToVerifier st o v = .ok st') :
    ∃ p, st.position.get o.key = some p ∧ st'.config = st.config ∧
      st'.position = st.position.set o.key { p with delegateToVerifier := v } := by
  simp only [delegateToVerifier, bind_eq_ok, ownPosition_eq_ok, pure_eq_ok] at h
  obtain ⟨p, ⟨hp, -⟩, rfl⟩ := h
  exact ⟨p, hp, rfl, rfl⟩

/-! ## What that does to the pool -/

theorem stake_staked (h : stake dep clock st o n = .ok st') : st'.staked = st.staked + n := by
  obtain ⟨-, -, locked, hpos⟩ := stake_ok h
  have hset := FinMap.total_set_getD (fun _ p => StakePosition.stakedAmount p) st.position o.key
    (z := StakePosition.zero) rfl { st.target o.key (st.config.epoch clock) with
      stakedAmount := (st.target o.key (st.config.epoch clock)).stakedAmount + n
      lockedUntilEpoch := locked }
  simp only [State.staked, hpos, State.target, openPosition_staked] at hset ⊢
  omega

/-- Staking adds `n` to what waits as long as the position it goes to. -/
theorem stake_pending (h : stake dep clock st o n = .ok st') :
    st'.pending (st.config.epoch clock) = st.pending (st.config.epoch clock) +
      (st.config.epoch clock - (st.target o.key (st.config.epoch clock)).lastClaimedEpoch) * n := by
  obtain ⟨-, -, locked, hpos⟩ := stake_ok h
  generalize st.config.epoch clock = e at hpos ⊢
  have hset := FinMap.total_set_getD
    (fun _ p => (e - StakePosition.lastClaimedEpoch p) * p.stakedAmount) st.position o.key
    (z := StakePosition.zero) (Nat.mul_zero _) { st.target o.key e with
      stakedAmount := (st.target o.key e).stakedAmount + n
      lockedUntilEpoch := locked }
  rw [← hpos] at hset
  -- The old term of the position is its term in `target`: an empty position has none.
  have hterm : (e - ((st.position.get o.key).getD StakePosition.zero).lastClaimedEpoch) *
      ((st.position.get o.key).getD StakePosition.zero).stakedAmount =
      (e - (st.target o.key e).lastClaimedEpoch) * (st.target o.key e).stakedAmount := by
    unfold State.target openPosition
    split
    · next hzero => rw [hzero, Nat.mul_zero, Nat.mul_zero]
    · rfl
  simp only [hterm, Nat.mul_add] at hset
  unfold State.pending
  omega

theorem unstake_staked (h : unstake dep clock st o n = .ok st') : st'.staked + n = st.staked := by
  obtain ⟨p, hp, -, hle, -, -, hpos⟩ := unstake_ok h
  have hset := FinMap.total_set (fun _ p => StakePosition.stakedAmount p) hp
    { p with stakedAmount := p.stakedAmount - n }
  rw [← hpos] at hset
  simp only [State.staked] at hset ⊢
  omega

theorem unstake_pending {p : StakePosition} (h : unstake dep clock st o n = .ok st')
    (hp : st.position.get o.key = some p) (e : Nat) :
    st'.pending e + (e - p.lastClaimedEpoch) * n = st.pending e := by
  obtain ⟨q, hq, -, hle, -, -, hpos⟩ := unstake_ok h
  obtain rfl : p = q := Option.some.inj (hp.symm.trans hq)
  have hset := FinMap.total_set
    (fun _ p => (e - StakePosition.lastClaimedEpoch p) * p.stakedAmount) hp
    { p with stakedAmount := p.stakedAmount - n }
  rw [← hpos] at hset
  have hsplit : (e - p.lastClaimedEpoch) * p.stakedAmount =
      (e - p.lastClaimedEpoch) * (p.stakedAmount - n) + (e - p.lastClaimedEpoch) * n := by
    rw [← Nat.mul_add, Nat.sub_add_cancel hle]
  simp only [hsplit] at hset
  unfold State.pending
  omega

/-- A claim ends the wait of one position. -/
theorem claim_pending {mint ata : Pubkey} {p : StakePosition}
    (h : claimRewards dep clock st o mint ata = .ok (st', r))
    (hp : st.position.get o.key = some p) :
    st'.pending (st.config.epoch clock) +
      (st.config.epoch clock - p.lastClaimedEpoch) * p.stakedAmount =
      st.pending (st.config.epoch clock) := by
  obtain ⟨q, hq, -, -, -, -, hpos⟩ := claimRewards_ok h
  obtain rfl : p = q := Option.some.inj (hp.symm.trans hq)
  have hset := FinMap.total_set
    (fun _ p => (st.config.epoch clock - StakePosition.lastClaimedEpoch p) * p.stakedAmount) hp
    { p with lastClaimedEpoch := st.config.epoch clock }
  rw [← hpos] at hset
  simp only [Nat.sub_self, Nat.zero_mul, Nat.add_zero] at hset
  exact hset

/-- A write that keeps the stake of a position keeps the stake of the pool. -/
theorem staked_set {p q : StakePosition} {w : Pubkey} (hp : st.position.get w = some p)
    (hpos : st'.position = st.position.set w q) (hq : q.stakedAmount = p.stakedAmount) :
    st'.staked = st.staked := by
  have hset := FinMap.total_set (fun _ p => StakePosition.stakedAmount p) hp q
  rw [← hpos, hq] at hset
  exact Nat.add_right_cancel hset

theorem delegate_pending {v : Pubkey} (h : delegateToVerifier st o v = .ok st') (e : Nat) :
    st'.pending e = st.pending e := by
  obtain ⟨p, hp, -, hpos⟩ := delegateToVerifier_ok h
  have hset := FinMap.total_set
    (fun _ p => (e - StakePosition.lastClaimedEpoch p) * p.stakedAmount) hp
    { p with delegateToVerifier := v }
  rw [← hpos] at hset
  exact Nat.add_right_cancel hset

/-- Over `n` epochs everything staked waits `n` epochs longer. -/
theorem pending_add {e : Nat} (h : ∀ k p, st.position.get k = some p → p.lastClaimedEpoch ≤ e)
    (n : Nat) : st.pending (e + n) = st.pending e + n * st.staked := by
  unfold State.pending State.staked
  rw [← FinMap.total_mul_left, ← FinMap.total_add]
  refine FinMap.total_congr fun k p hp => ?_
  have hle := h k p hp
  rw [← Nat.add_mul]
  congr 1
  omega

/-- A position has no more than everything staked. -/
theorem le_staked {w : Pubkey} {p : StakePosition} (hp : st.position.get w = some p) :
    p.stakedAmount ≤ st.staked :=
  FinMap.le_total (f := fun _ p => StakePosition.stakedAmount p) hp

end Steps

/-! ## The ledger of a run -/

/-- A step of the program. -/
abbrev Step := Event (Chain State) (Action Instr) (Option (Result StakeError Nat))

/-- What the claims of a run have minted, to each owner and in all, and the epochs of the first
stake of each owner and of the run. -/
structure Ledger where
  minted : Pubkey → Nat
  total : Nat
  since : Pubkey → Option Nat
  start : Option Nat

def Ledger.empty : Ledger := ⟨fun _ => 0, 0, fun _ => none, none⟩

def Ledger.stake (g : Ledger) (owner : Pubkey) (epoch : Nat) : Ledger :=
  { g with
    since := Function.update g.since owner (some ((g.since owner).getD epoch))
    start := some (g.start.getD epoch) }

def Ledger.claim (g : Ledger) (owner : Pubkey) (reward : Nat) : Ledger :=
  { g with
    minted := Function.update g.minted owner (g.minted owner + reward)
    total := g.total + reward }

/-- Successful stakes and claims are entered. -/
def Ledger.observe (g : Ledger) (e : Step) : Ledger :=
  match e.input, e.out with
  | .submit (.stake o _), some (.ok _) => g.stake o.key (chainEpoch e.pre)
  | .submit (.claimRewards o _ _), some (.ok r) => g.claim o.key r
  | _, _ => g

/-- The ledger of a run. -/
def ledger (dep : Deployment) (c : Chain State) (is : List (Action Instr)) : Ledger :=
  (trace (step dep) c is).foldl Ledger.observe Ledger.empty

/-- The pool that a state and a ledger make. -/
def pool (c : Chain State) (g : Ledger) : ProRata.Pool :=
  ⟨g.total, c.accounts.config.totalStake, c.accounts.pending (chainEpoch c)⟩

/-- The epochs since the first stake of the run. -/
def Ledger.age (g : Ledger) (epoch : Nat) : Nat := epoch - g.start.getD epoch

/-- **The emission bound** on a run: the claims have minted at most the reward rate for each epoch
since the first stake. -/
def EmissionBound (dep : Deployment) (c : Chain State) (is : List (Action Instr)) : Prop :=
  (ledger dep c is).total ≤
    c.accounts.config.rewardRatePerEpoch * (ledger dep c is).age (chainEpoch (exec (step dep) c is))

/-- Stake joins on a position that waits no longer than the pool on average, and leaves one that
waits no shorter. -/
def Calm (c : Chain State) : Action Instr → Prop
  | .submit (.stake o _) =>
    (chainEpoch c - (c.accounts.target o.key (chainEpoch c)).lastClaimedEpoch) *
      c.accounts.config.totalStake ≤ c.accounts.pending (chainEpoch c)
  | .submit (.unstake o _) => ∀ p, c.accounts.position.get o.key = some p →
    c.accounts.pending (chainEpoch c) ≤
      (chainEpoch c - p.lastClaimedEpoch) * c.accounts.config.totalStake
  | _ => True

/-- The claims of `w` are within the rate for the epochs from its first stake to its last claim. -/
def Settled (rate : Nat) (g : Ledger) (w : Pubkey) (p : StakePosition) : Prop :=
  ∃ f, g.since w = some f ∧ f ≤ p.lastClaimedEpoch ∧ g.minted w ≤ rate * (p.lastClaimedEpoch - f)

/-- What holds of accounts and ledger after every step. -/
structure Books (rate : Nat) (c : Chain State) (g : Ledger) : Prop where
  rate_eq : c.accounts.config.rewardRatePerEpoch = rate
  staked_eq : c.accounts.config.totalStake = c.accounts.staked
  last_le : ∀ w p, c.accounts.position.get w = some p → p.lastClaimedEpoch ≤ chainEpoch c
  settled : ∀ w p, c.accounts.position.get w = some p → Settled rate g w p
  nothing : ∀ w, c.accounts.position.get w = none → g.since w = none ∧ g.minted w = 0
  start_none : g.start = none → c.accounts.config.totalStake = 0
  start_le : ∀ e, g.start = some e → e ≤ chainEpoch c

/-! ## One step keeps the books -/

section Books

variable {dep : Deployment} {clock : Clock} {st st' : State} {o : Signer} {n r rate : Nat}
  {g g' : Ledger}

/-- The books after a write of one position. -/
theorem Books.write {w : Pubkey} {q : StakePosition} (h : Books rate ⟨clock, st⟩ g) (total : Nat)
    (hcfg : st'.config = { st.config with totalStake := total })
    (htotal : total = st'.staked) (hpos : st'.position = st.position.set w q)
    (hlast : q.lastClaimedEpoch ≤ st.config.epoch clock) (hset : Settled rate g' w q)
    (hframe : ∀ v, v ≠ w → g'.since v = g.since v ∧ g'.minted v = g.minted v)
    (hnone : g'.start = none → total = 0)
    (hstart : ∀ e, g'.start = some e → e ≤ st.config.epoch clock) :
    Books rate ⟨clock, st'⟩ g' := by
  have hep : chainEpoch ⟨clock, st'⟩ = st.config.epoch clock := by
    simp only [chainEpoch, hcfg]
    rfl
  refine ⟨?_, ?_, ?_, ?_, ?_, ?_, ?_⟩
  · rw [← h.rate_eq, hcfg]
  · rw [hcfg, ← htotal]
  · intro v p hp
    rw [hpos, FinMap.get_set] at hp
    rw [hep]
    split at hp
    · cases hp
      exact hlast
    · exact h.last_le v p hp
  · intro v p hp
    rw [hpos, FinMap.get_set] at hp
    split at hp
    · next hv =>
      cases hp
      exact hv ▸ hset
    · next hv =>
      obtain ⟨f, hf, hrest⟩ := h.settled v p hp
      obtain ⟨hsince, hminted⟩ := hframe v hv
      exact ⟨f, by rw [hsince, hf], by rw [hminted]; exact hrest⟩
  · intro v hv
    rw [hpos, FinMap.get_set] at hv
    split at hv
    · cases hv
    · next hne =>
      obtain ⟨hsince, hminted⟩ := hframe v hne
      rw [hsince, hminted]
      exact h.nothing v hv
  · intro hn
    rw [hcfg]
    exact hnone hn
  · intro e he
    rw [hep]
    exact hstart e he

/-- Time passing keeps the books. -/
theorem Books.elapse {c : Chain State} (h : Books rate c g) (k : Nat) (ts : Int) :
    Books rate ⟨c.clock.elapse k ts, c.accounts⟩ g := by
  have hle : chainEpoch c ≤ chainEpoch ⟨c.clock.elapse k ts, c.accounts⟩ :=
    Nat.div_le_div_right (Nat.le_add_right ..)
  refine ⟨h.rate_eq, h.staked_eq, ?_, h.settled, h.nothing, h.start_none, ?_⟩
  · intro w p hp
    exact Nat.le_trans (h.last_le w p hp) hle
  · intro e he
    exact Nat.le_trans (h.start_le e he) hle

/-- What the claims of an owner have minted stays settled when its position claims no earlier. -/
theorem Settled.mono {w : Pubkey} {p q : StakePosition} (h : Settled rate g w p)
    (hle : p.lastClaimedEpoch ≤ q.lastClaimedEpoch) : Settled rate g w q := by
  obtain ⟨f, hf, hfle, hm⟩ := h
  refine ⟨f, hf, Nat.le_trans hfle hle, Nat.le_trans hm ?_⟩
  exact Nat.mul_le_mul_left rate (Nat.sub_le_sub_right hle f)

/-- After its stake, the position of an owner is settled. -/
theorem settled_stake (h : Books rate ⟨clock, st⟩ g) (w : Pubkey) {q : StakePosition}
    (hq : q.lastClaimedEpoch = (st.target w (st.config.epoch clock)).lastClaimedEpoch) :
    Settled rate (g.stake w (st.config.epoch clock)) w q := by
  cases hold : st.position.get w with
  | none =>
    obtain ⟨hsince, hminted⟩ := h.nothing w hold
    have hlast : (st.target w (st.config.epoch clock)).lastClaimedEpoch = st.config.epoch clock := by
      simp [State.target, hold, openPosition, StakePosition.zero]
    refine ⟨st.config.epoch clock, by simp [Ledger.stake, hsince], by omega, ?_⟩
    have hm : (g.stake w (st.config.epoch clock)).minted w = 0 := hminted
    rw [hm]
    exact Nat.zero_le _
  | some p =>
    have hlast : p.lastClaimedEpoch ≤
        (st.target w (st.config.epoch clock)).lastClaimedEpoch := by
      simp only [State.target, hold, Option.getD_some, openPosition]
      split
      · exact h.last_le w p hold
      · exact Nat.le_refl _
    obtain ⟨f, hf, hrest⟩ := h.settled w p hold
    have hset : Settled rate (g.stake w (st.config.epoch clock)) w p :=
      ⟨f, by simp [Ledger.stake, hf], hrest⟩
    exact hset.mono (hq ▸ hlast)

theorem Books.stake (h : Books rate ⟨clock, st⟩ g) (hs : stake dep clock st o n = .ok st') :
    Books rate ⟨clock, st'⟩ (g.stake o.key (st.config.epoch clock)) := by
  obtain ⟨-, hcfg, locked, hpos⟩ := stake_ok hs
  refine h.write _ hcfg ?_ hpos (target_last_le h.last_le o.key) (settled_stake h o.key rfl) ?_ ?_ ?_
  · rw [stake_staked hs, ← h.staked_eq]
  · intro v hv
    exact ⟨Function.update_of_ne hv .., rfl⟩
  · intro hnone
    cases hnone
  · intro e he
    cases he
    cases hstart : g.start with
    | none => exact Nat.le_refl _
    | some e => exact h.start_le e hstart

theorem Books.unstake (h : Books rate ⟨clock, st⟩ g) (hs : unstake dep clock st o n = .ok st') :
    Books rate ⟨clock, st'⟩ g := by
  obtain ⟨p, hp, -, -, hT, hcfg, hpos⟩ := unstake_ok hs
  have htotal : st.config.totalStake = st.staked := h.staked_eq
  have hstaked := unstake_staked hs
  refine h.write _ hcfg (by omega) hpos (h.last_le _ p hp) (h.settled _ p hp) (fun _ _ => ⟨rfl, rfl⟩)
    ?_ h.start_le
  intro hnone
  have hzero : st.config.totalStake = 0 := h.start_none hnone
  omega

theorem Books.claim {mint ata : Pubkey} (h : Books rate ⟨clock, st⟩ g)
    (hc : claimRewards dep clock st o mint ata = .ok (st', r)) :
    Books rate ⟨clock, st'⟩ (g.claim o.key r) := by
  obtain ⟨p, hp, hT, hle, hr, hcfg, hpos⟩ := claimRewards_ok hc
  have htotal : st.config.totalStake = st.staked := h.staked_eq
  -- One share of the rate is at most the rate.
  have hshare : r ≤ rate * (st.config.epoch clock - p.lastClaimedEpoch) := by
    have hrate : st.config.rewardRatePerEpoch = rate := h.rate_eq
    rw [hrate] at hr
    exact ProRata.share_le (htotal ▸ le_staked hp) hT hr
  have hset : Settled rate (g.claim o.key r) o.key
      { p with lastClaimedEpoch := st.config.epoch clock } := by
    obtain ⟨f, hf, hfle, hm⟩ := h.settled _ p hp
    refine ⟨f, hf, Nat.le_trans hfle hle, ?_⟩
    have hm' : (g.claim o.key r).minted o.key = g.minted o.key + r := Function.update_self ..
    rw [hm']
    calc g.minted o.key + r
        ≤ rate * (p.lastClaimedEpoch - f) + rate * (st.config.epoch clock - p.lastClaimedEpoch) :=
          Nat.add_le_add hm hshare
      _ = rate * (st.config.epoch clock - f) := by
        rw [← Nat.mul_add]
        congr 1
        omega
  refine h.write st.config.totalStake hcfg ?_ hpos (Nat.le_refl _) hset ?_ h.start_none
    h.start_le
  · rw [staked_set hp hpos rfl, htotal]
  · intro v hv
    exact ⟨rfl, Function.update_of_ne hv ..⟩

theorem Books.delegate {v : Pubkey} (h : Books rate ⟨clock, st⟩ g)
    (hd : delegateToVerifier st o v = .ok st') : Books rate ⟨clock, st'⟩ g := by
  obtain ⟨p, hp, hcfg, hpos⟩ := delegateToVerifier_ok hd
  refine h.write st.config.totalStake hcfg ?_ hpos (h.last_le _ p hp)
    (h.settled _ p hp) (fun _ _ => ⟨rfl, rfl⟩) h.start_none h.start_le
  rw [staked_set hp hpos rfl]
  exact h.staked_eq

end Books

/-! ## One step keeps the pool solvent -/

section Pool

variable {dep : Deployment} {clock : Clock} {st st' : State} {o : Signer} {n r rate : Nat}
  {g : Ledger}

/-- The pool of the accounts and the ledger is solvent for the epochs since the first stake. -/
def Covered (rate : Nat) (c : Chain State) (g : Ledger) : Prop :=
  ProRata.Solvent rate (g.age (chainEpoch c)) (pool c g)

theorem age_stake (g : Ledger) (w : Pubkey) (e : Nat) : (g.stake w e).age e = g.age e := by
  unfold Ledger.age Ledger.stake
  cases g.start <;> rfl

theorem Covered.elapse {c : Chain State} (hb : Books rate c g) (h : Covered rate c g) (k : Nat)
    (ts : Int) : Covered rate ⟨c.clock.elapse k ts, c.accounts⟩ g := by
  have hle : chainEpoch c ≤ chainEpoch ⟨c.clock.elapse k ts, c.accounts⟩ :=
    Nat.div_le_div_right (Nat.le_add_right ..)
  obtain ⟨m, hm⟩ := Nat.exists_eq_add_of_le hle
  have hacc := ProRata.Solvent.accrue h m
  have hpool : pool ⟨c.clock.elapse k ts, c.accounts⟩ g =
      ⟨(pool c g).paid, (pool c g).stake, (pool c g).pending + m * (pool c g).stake⟩ := by
    simp only [pool, hm, pending_add hb.last_le, ← hb.staked_eq]
  unfold Covered
  rw [hpool, hm]
  cases hstart : g.start with
  | some e =>
    have hage : g.age (chainEpoch c + m) = g.age (chainEpoch c) + m := by
      have he := hb.start_le e hstart
      simp only [Ledger.age, hstart, Option.getD_some]
      omega
    rw [hage]
    exact hacc
  | none =>
    -- Nothing is staked yet, so nothing has begun to wait.
    have hzero : (pool c g).stake = 0 := hb.start_none hstart
    have hage : ∀ e, g.age e = 0 := fun e => by simp [Ledger.age, hstart]
    unfold Covered at h
    rw [hage] at h ⊢
    have hsame : (⟨(pool c g).paid, 0, (pool c g).pending⟩ : ProRata.Pool) = pool c g := by
      rw [← hzero]
    rw [hzero, Nat.mul_zero, Nat.add_zero, hsame]
    exact h

theorem Covered.stake (h : Covered rate ⟨clock, st⟩ g) (hb : Books rate ⟨clock, st⟩ g)
    (hs : Stake.stake dep clock st o n = .ok st')
    (hQ : Calm ⟨clock, st⟩ (.submit (.stake o n))) :
    Covered rate ⟨clock, st'⟩ (g.stake o.key (st.config.epoch clock)) := by
  obtain ⟨-, hcfg, -⟩ := stake_ok hs
  have hep : chainEpoch ⟨clock, st'⟩ = st.config.epoch clock := by
    simp only [chainEpoch, hcfg]
    rfl
  have hfresh : st.config.totalStake = 0 →
      st.config.epoch clock - (st.target o.key (st.config.epoch clock)).lastClaimedEpoch = 0 := by
    intro hzero
    have htotal : st.config.totalStake = st.staked := hb.staked_eq
    have hempty : ((st.position.get o.key).getD StakePosition.zero).stakedAmount = 0 := by
      cases hp : st.position.get o.key with
      | none => rfl
      | some p =>
        have hle := le_staked hp
        show p.stakedAmount = 0
        omega
    simp [State.target, openPosition, hempty]
  have hjoin := ProRata.Solvent.join (n := n) h hQ hfresh
  unfold Covered
  rw [hep, age_stake]
  simp only [pool, hep, hcfg, stake_pending hs]
  exact hjoin

theorem Covered.unstake (h : Covered rate ⟨clock, st⟩ g)
    (hs : Stake.unstake dep clock st o n = .ok st')
    (hQ : Calm ⟨clock, st⟩ (.submit (.unstake o n))) : Covered rate ⟨clock, st'⟩ g := by
  obtain ⟨p, hp, -, -, hT, hcfg, -⟩ := unstake_ok hs
  have hep : chainEpoch ⟨clock, st'⟩ = st.config.epoch clock := by
    simp only [chainEpoch, hcfg]
    rfl
  have hwait := hQ p hp
  have hpool : pool ⟨clock, st⟩ g = ⟨g.total, st.config.totalStake - n + n,
      st'.pending (st.config.epoch clock) +
        (st.config.epoch clock - p.lastClaimedEpoch) * n⟩ := by
    rw [unstake_pending hs hp, Nat.sub_add_cancel hT]
    rfl
  unfold Covered at h ⊢
  rw [hpool] at h
  rw [hep]
  simp only [pool, hep, hcfg]
  refine h.leave ?_
  rw [unstake_pending hs hp, Nat.sub_add_cancel hT]
  exact hwait

theorem Covered.claim {mint ata : Pubkey} (h : Covered rate ⟨clock, st⟩ g)
    (hb : Books rate ⟨clock, st⟩ g) (hc : claimRewards dep clock st o mint ata = .ok (st', r)) :
    Covered rate ⟨clock, st'⟩ (g.claim o.key r) := by
  obtain ⟨p, hp, hT, -, hr, hcfg, -⟩ := claimRewards_ok hc
  have hep : chainEpoch ⟨clock, st'⟩ = st.config.epoch clock := by
    simp only [chainEpoch, hcfg]
  have hrate : st.config.rewardRatePerEpoch = rate := hb.rate_eq
  have hpool : pool ⟨clock, st⟩ g = ⟨g.total, st.config.totalStake,
      st'.pending (st.config.epoch clock) +
        (st.config.epoch clock - p.lastClaimedEpoch) * p.stakedAmount⟩ := by
    rw [claim_pending hc hp]
    rfl
  unfold Covered at h ⊢
  rw [hpool] at h
  rw [hep]
  simp only [pool, hep, hcfg]
  exact h.pay hT (hrate ▸ hr)

theorem Covered.delegate {v : Pubkey} (h : Covered rate ⟨clock, st⟩ g)
    (hd : delegateToVerifier st o v = .ok st') : Covered rate ⟨clock, st'⟩ g := by
  obtain ⟨p, hp, hcfg, -⟩ := delegateToVerifier_ok hd
  have hep : chainEpoch ⟨clock, st'⟩ = st.config.epoch clock := by
    simp only [chainEpoch, hcfg]
  unfold Covered
  rw [hep]
  simp only [pool, hep, hcfg, delegate_pending hd]
  exact h

end Pool

/-! ## Runs -/

section Run

variable {rate : Nat} {g : Ledger}

theorem observe_elapse {c c' : Chain State} {k : Nat} {ts : Int}
    {out : Option (Result StakeError Nat)} :
    g.observe ⟨c, .elapse k ts, out, c'⟩ = g := rfl

theorem observe_error {c c' : Chain State} {i : Instr} {e : Failure StakeError} :
    g.observe ⟨c, .submit i, some (.error e), c'⟩ = g := by
  cases i <;> rfl

/-- A step keeps the books, and a calm one the pool solvent. -/
theorem step_books (dep : Deployment) {c : Chain State} (hb : Books rate c g) (a : Action Instr) :
    Books rate (step dep c a).1 (g.observe (event (step dep) c a)) ∧
      (Covered rate c g → Calm c a →
        Covered rate (step dep c a).1 (g.observe (event (step dep) c a))) := by
  unfold event
  rcases chainStep_cases (process dep) c a with
    ⟨k, ts, rfl, hs⟩ | ⟨i, st', r, rfl, hok, hs⟩ | ⟨i, e, rfl, -, hs⟩
  · rw [step, hs, observe_elapse]
    exact ⟨hb.elapse k ts, fun hcov _ => hcov.elapse hb k ts⟩
  · rw [step, hs]
    cases i with
    | stake o n =>
      obtain ⟨st', hst, he⟩ := map_eq_ok.1 hok
      cases he
      exact ⟨hb.stake hst, fun hcov hQ => hcov.stake hb hst hQ⟩
    | unstake o n =>
      obtain ⟨st', hst, he⟩ := map_eq_ok.1 hok
      cases he
      exact ⟨hb.unstake hst, fun hcov hQ => hcov.unstake hst hQ⟩
    | claimRewards o mint ata => exact ⟨hb.claim hok, fun hcov _ => hcov.claim hb hok⟩
    | delegateToVerifier o v =>
      obtain ⟨st', hst, he⟩ := map_eq_ok.1 hok
      cases he
      exact ⟨hb.delegate hst, fun hcov _ => hcov.delegate hst⟩
  · rw [step, hs, observe_error]
    exact ⟨hb, fun hcov _ => hcov⟩

/-- A run keeps the books, and a calm run the pool solvent. -/
theorem run_books (dep : Deployment) {c : Chain State} (hb : Books rate c g) (is : List (Action Instr)) :
    Books rate (exec (step dep) c is) ((trace (step dep) c is).foldl Ledger.observe g) ∧
      (Covered rate c g → Each (step dep) Calm c is →
        Covered rate (exec (step dep) c is) ((trace (step dep) c is).foldl Ledger.observe g)) := by
  induction is generalizing c g with
  | nil => exact ⟨hb, fun hcov _ => hcov⟩
  | cons a is ih =>
    obtain ⟨hb', hcov'⟩ := step_books dep hb a
    obtain ⟨hrun, hrunCov⟩ := ih hb'
    exact ⟨hrun, fun hcov hQ => hrunCov (hcov' hcov hQ.1) hQ.2⟩

theorem genesis_books (config : StakeConfig) (lamports : Holder → Nat) (mints : Mints)
    (tokens : Tokens) (clock : Clock) :
    Books config.rewardRatePerEpoch ⟨clock, State.genesis config lamports mints tokens⟩
      Ledger.empty := by
  refine ⟨rfl, rfl, ?_, ?_, fun _ _ => ⟨rfl, rfl⟩, fun _ => rfl, ?_⟩
  · intro w p hp
    cases hp
  · intro w p hp
    cases hp
  · intro e he
    cases he

theorem genesis_covered (config : StakeConfig) (lamports : Holder → Nat) (mints : Mints)
    (tokens : Tokens) (clock : Clock) :
    Covered config.rewardRatePerEpoch ⟨clock, State.genesis config lamports mints tokens⟩
      Ledger.empty :=
  ProRata.Solvent.init ..

end Run

/-- **Emission.** In every run of the program, the claims of each owner have minted at most the
reward rate for each epoch since that owner's first stake; and in every run whose stake moves are
calm, all claims together have minted at most the reward rate for each epoch since the first. -/
theorem emission_bounded (dep : Deployment) (config : StakeConfig) (lamports : Holder → Nat)
    (mints : Mints) (tokens : Tokens) (clock : Clock) (is : List (Action Instr)) :
    let c : Chain State := ⟨clock, State.genesis config lamports mints tokens⟩
    let epoch := chainEpoch (exec (step dep) c is)
    let g := ledger dep c is
    (∀ w, g.minted w ≤ config.rewardRatePerEpoch * (epoch - (g.since w).getD epoch)) ∧
      (Each (step dep) Calm c is → EmissionBound dep c is) := by
  intro c epoch g
  obtain ⟨hbooks, hcov⟩ := run_books dep (genesis_books config lamports mints tokens clock) is
  refine ⟨?_, ?_⟩
  · intro w
    cases hp : (exec (step dep) c is).accounts.position.get w with
    | none =>
      have hzero : g.minted w = 0 := (hbooks.nothing w hp).2
      rw [hzero]
      exact Nat.zero_le _
    | some p =>
      obtain ⟨f, hf, -, hle⟩ := hbooks.settled w p hp
      have hf : g.since w = some f := hf
      rw [hf, Option.getD_some]
      refine Nat.le_trans hle (Nat.mul_le_mul_left _ ?_)
      exact Nat.sub_le_sub_right (hbooks.last_le w p hp) f
  · intro hcalm
    exact (hcov (genesis_covered config lamports mints tokens clock) hcalm).paid_le

/-! ## Two owners of one pool -/

/-- The first owner. -/
def exampleOwner : Signer := ⟨1, one_ne_default⟩

/-- The second owner. -/
def exampleOther : Signer := ⟨2, two_ne_default⟩

def exampleDeployment : Deployment := ⟨fun size => (128 + size) * 6960, 8⟩

def exampleConfig : StakeConfig where
  authority := 7
  epochLenSlots := 10
  rewardRatePerEpoch := 1000
  minLockEpochs := 0
  rewardMint := 9
  totalStake := 0
  epochLen_pos := tenSlots_pos

/-- A fresh pool: the owners have a wallet and a token account each, the vault has its rent. -/
def exampleGenesis : Chain State where
  clock := ⟨0, 0⟩
  accounts := State.genesis exampleConfig
    (fun h => if h = .wallet 1 ∨ h = .wallet 2 then 10 ^ 9
      else if h = .stakeVault then 890880 else 0)
    (fun k => if k = 9 then some ⟨some 8, 0⟩ else none)
    (fun k => if k = 11 then some ⟨9, 1, 0⟩ else if k = 12 then some ⟨9, 2, 0⟩ else none)

/-- Both stake the same and wait ten epochs; then one claims and leaves before the other claims. -/
def exampleRun : List (Action Instr) :=
  [.submit (.stake exampleOwner 100), .submit (.stake exampleOther 100), .elapse 100 0,
    .submit (.claimRewards exampleOwner 9 11), .submit (.unstake exampleOwner 100),
    .submit (.claimRewards exampleOther 9 12)]

/-- The ten epochs of that run mint the rate of fifteen. -/
theorem exampleRun_not_bound : ¬EmissionBound exampleDeployment exampleGenesis exampleRun := by
  have htotal : (ledger exampleDeployment exampleGenesis exampleRun).total = 15000 := by decide
  have hage : (ledger exampleDeployment exampleGenesis exampleRun).age
      (chainEpoch (exec (step exampleDeployment) exampleGenesis exampleRun)) = 10 := by decide
  intro h
  unfold EmissionBound at h
  rw [htotal, hage] at h
  exact absurd h (by decide)

/-- Without the unstake the run is calm, and mints the rate of ten. -/
theorem exampleCalm_bound : EmissionBound exampleDeployment exampleGenesis
    (exampleRun.take 4 ++ exampleRun.drop 5) := by
  refine (emission_bounded exampleDeployment exampleConfig _ _ _ ⟨0, 0⟩ _).2 ?_
  refine ⟨?_, ?_, trivial, trivial, trivial, trivial⟩
  · show _ * _ ≤ _
    decide
  · show _ * _ ≤ _
    decide

end Ddns.Stake
