import Ddns.Stake.Emission

/-!
# What a claim mints

A claim mints the share of its position in the reward of the epochs since the last claim. The product
is checked at 128 bits; the quotient is narrowed to 64 bits without a check. `claims_iff` says when
exactly the share is minted: where no share that does not fit gets past the other checks.
-/

namespace Ddns.Stake

open Tx Runs

/-- The product of rate, epochs and stake, over the integers. -/
def shareNumer (cfg : StakeConfig) (p : StakePosition) (epoch : Nat) : Nat :=
  cfg.rewardRatePerEpoch * (epoch - p.lastClaimedEpoch) * p.stakedAmount

/-- What a position has earned, over the integers. -/
def share (cfg : StakeConfig) (p : StakePosition) (epoch : Nat) : Nat :=
  shareNumer cfg p epoch / cfg.totalStake

/-- A claim that succeeds mints the share; a share that does not fit is refused, and the position has
claimed up to where it had. -/
structure ClaimLaw (dep : Deployment) (e : Step) : Prop where
  minted : ∀ o mint ata p n, e.input = .submit (.claimRewards o mint ata) →
    e.pre.accounts.position.get o.key = some p → e.out = some (.ok n) →
    n = share e.pre.accounts.config p (chainEpoch e.pre) ∧
      (mintTo e.pre.accounts.mints e.pre.accounts.tokens mint ata dep.mintAuthority n :
        Result StakeError _) = .ok (e.post.accounts.mints, e.post.accounts.tokens)
  refused : ∀ o mint ata p, e.input = .submit (.claimRewards o mint ata) →
    e.pre.accounts.position.get o.key = some p →
    2 ^ 64 ≤ share e.pre.accounts.config p (chainEpoch e.pre) →
    (∃ err, e.out = some (.error err)) ∧
      (e.post.accounts.position.get o.key).map StakePosition.lastClaimedEpoch =
        some p.lastClaimedEpoch

/-- A share that does not fit is refused by another check: the product is too large for 128 bits, the
narrowed share is nothing, or it cannot be minted. -/
def Narrow (dep : Deployment) (c : Chain State) (a : Action Instr) : Prop :=
  ∀ o mint ata p, a = .submit (.claimRewards o mint ata) →
    c.accounts.position.get o.key = some p → p.owner = o.key →
    2 ^ 64 ≤ share c.accounts.config p (chainEpoch c) →
    2 ^ 128 ≤ shareNumer c.accounts.config p (chainEpoch c) ∨
      share c.accounts.config p (chainEpoch c) % 2 ^ 64 = 0 ∨
      ∃ err, mintTo c.accounts.mints c.accounts.tokens mint ata dep.mintAuthority
        (share c.accounts.config p (chainEpoch c) % 2 ^ 64) = (.error err : Result StakeError _)

section Claim

variable {dep : Deployment} {clock : Clock} {st st' : State} {o : Signer} {mint ata : Pubkey}
  {p : StakePosition} {r epoch : Nat} {cfg : StakeConfig}

theorem claimReward_eq_ok {d : Nat} (hpos : 0 < p.stakedAmount) :
    claimReward cfg p d = .ok r ↔ cfg.rewardRatePerEpoch * d * p.stakedAmount < 2 ^ 128 ∧
      r = cfg.rewardRatePerEpoch * d * p.stakedAmount / cfg.totalStake % 2 ^ 64 := by
  simp only [claimReward, bind_eq_ok, okOr_eq_ok, Checked.mul_eq_some, pure_eq_ok]
  constructor
  · rintro ⟨_, ⟨-, rfl⟩, _, ⟨hfit, rfl⟩, rfl⟩
    exact ⟨hfit, rfl⟩
  · rintro ⟨hfit, rfl⟩
    have hproduct : cfg.rewardRatePerEpoch * d < 2 ^ 128 :=
      Nat.lt_of_le_of_lt (Nat.le_mul_of_pos_right _ hpos) hfit
    exact ⟨_, ⟨hproduct, rfl⟩, _, ⟨hfit, rfl⟩, rfl⟩

/-- The checks of a claim, and what it mints. -/
theorem claimRewards_eq_ok (hp : st.position.get o.key = some p) :
    claimRewards dep clock st o mint ata = .ok (st', r) ↔
      p.owner = o.key ∧ 0 < st.config.totalStake ∧ 0 < p.stakedAmount ∧
      p.lastClaimedEpoch < st.config.epoch clock ∧
      shareNumer st.config p (st.config.epoch clock) < 2 ^ 128 ∧
      r = share st.config p (st.config.epoch clock) % 2 ^ 64 ∧ 0 < r ∧
      ∃ mints tokens, (mintTo st.mints st.tokens mint ata dep.mintAuthority r :
          Result StakeError _) = .ok (mints, tokens) ∧
        st' = { st with
          position := st.position.set o.key { p with lastClaimedEpoch := st.config.epoch clock }
          mints, tokens } := by
  simp only [claimRewards, bind_eq_ok, require_eq_ok, okOr_eq_ok, Checked.sub_eq_some,
    ownPosition_eq_ok, exists_unit, pure_eq_ok, Prod.mk.injEq]
  constructor
  · rintro ⟨q, ⟨hq, hown⟩, htotal, hstake, hlast, _, ⟨-, rfl⟩, hdelta, r', hr, hpos, m, hm, rfl, rfl⟩
    cases hp.symm.trans hq
    obtain ⟨hfit, hr⟩ := (claimReward_eq_ok hstake).1 hr
    exact ⟨hown, htotal, hstake, Nat.lt_of_sub_pos hdelta, hfit, hr, hpos, m.1, m.2, hm, rfl⟩
  · rintro ⟨hown, htotal, hstake, hlast, hfit, hr, hpos, mints, tokens, hm, rfl⟩
    exact ⟨p, ⟨hp, hown⟩, htotal, hstake, Nat.le_of_lt hlast, _, ⟨Nat.le_of_lt hlast, rfl⟩,
      Nat.sub_pos_of_lt hlast, r, (claimReward_eq_ok hstake).2 ⟨hfit, hr⟩, hpos, (mints, tokens), hm,
      rfl, rfl⟩

/-- A share of something is a share of stake, for some epochs, of a total. -/
theorem share_pos (h : 0 < share cfg p epoch) :
    0 < cfg.totalStake ∧ 0 < p.stakedAmount ∧ p.lastClaimedEpoch < epoch := by
  refine ⟨?_, ?_, ?_⟩ <;> by_contra hzero <;> refine absurd h ?_ <;>
    simp only [share, shareNumer, Nat.not_lt, Nat.le_zero] at hzero ⊢
  · rw [hzero, Nat.div_zero]
  · rw [hzero, Nat.mul_zero, Nat.zero_div]
  · rw [Nat.sub_eq_zero_of_le hzero, Nat.mul_zero, Nat.zero_mul, Nat.zero_div]

end Claim

section Steps

variable {dep : Deployment} {c : Chain State} {a : Action Instr}

/-- A claim succeeds on a share that does not fit exactly if the other checks let it pass. -/
theorem claim_wraps_iff {o : Signer} {mint ata : Pubkey} {p : StakePosition}
    (hp : c.accounts.position.get o.key = some p)
    (hover : 2 ^ 64 ≤ share c.accounts.config p (chainEpoch c)) :
    (∃ out, process dep c.clock c.accounts (.claimRewards o mint ata) = .ok out) ↔
      p.owner = o.key ∧ shareNumer c.accounts.config p (chainEpoch c) < 2 ^ 128 ∧
      0 < share c.accounts.config p (chainEpoch c) % 2 ^ 64 ∧
      ∃ out, mintTo c.accounts.mints c.accounts.tokens mint ata dep.mintAuthority
        (share c.accounts.config p (chainEpoch c) % 2 ^ 64) = (.ok out : Result StakeError _) := by
  constructor
  · rintro ⟨⟨st', r⟩, hok⟩
    obtain ⟨hown, -, -, -, hfit, rfl, hpos, mints, tokens, hm, -⟩ := (claimRewards_eq_ok hp).1 hok
    exact ⟨hown, hfit, hpos, _, hm⟩
  · rintro ⟨hown, hfit, hpos, ⟨mints, tokens⟩, hm⟩
    obtain ⟨htotal, hstake, hlast⟩ := share_pos (Nat.lt_of_lt_of_le (by decide) hover)
    exact ⟨_, (claimRewards_eq_ok hp).2 ⟨hown, htotal, hstake, hlast, hfit, rfl, hpos, mints, tokens,
      hm, rfl⟩⟩

/-- A step is lawful exactly if it refuses a share that does not fit. -/
theorem step_claimLaw_iff : ClaimLaw dep (event (step dep) c a) ↔ Narrow dep c a := by
  constructor
  · rintro ⟨-, hrefused⟩ o mint ata p rfl hp hown hover
    obtain ⟨⟨err, herr⟩, -⟩ := hrefused o mint ata p rfl hp hover
    by_contra hpass
    simp only [not_or, Nat.not_le, not_exists] at hpass
    obtain ⟨hfit, hpos, hmint⟩ := hpass
    obtain ⟨out, hm⟩ : ∃ out, mintTo c.accounts.mints c.accounts.tokens mint ata dep.mintAuthority
        (share c.accounts.config p (chainEpoch c) % 2 ^ 64) = (.ok out : Result StakeError _) := by
      cases hm : mintTo c.accounts.mints c.accounts.tokens mint ata dep.mintAuthority
          (share c.accounts.config p (chainEpoch c) % 2 ^ 64) with
      | ok out => exact ⟨out, rfl⟩
      | error err => exact absurd hm (hmint err)
    obtain ⟨⟨st', r⟩, hok⟩ :=
      (claim_wraps_iff hp hover).2 ⟨hown, hfit, Nat.pos_of_ne_zero hpos, out, hm⟩
    rw [event_out, step, chainStep_ok hok] at herr
    cases herr
  · intro hnarrow
    -- a claim that succeeds is for a share that fits
    have hfits {o : Signer} {mint ata : Pubkey} {p : StakePosition} {out : State × Nat}
        (ha : a = .submit (.claimRewards o mint ata))
        (hp : c.accounts.position.get o.key = some p)
        (hok : process dep c.clock c.accounts (.claimRewards o mint ata) = .ok out) :
        share c.accounts.config p (chainEpoch c) < 2 ^ 64 := by
      by_contra hover
      rw [Nat.not_lt] at hover
      obtain ⟨hown, hfit, hpos, out, hm⟩ := (claim_wraps_iff hp hover).1 ⟨_, hok⟩
      rcases hnarrow o mint ata p ha hp hown hover with hlarge | hzero | ⟨err, herr⟩
      · exact absurd hfit (Nat.not_lt.2 hlarge)
      · exact absurd hzero (Nat.ne_of_gt hpos)
      · cases hm.symm.trans herr
    constructor
    · rintro o mint ata p n rfl hp hout
      obtain ⟨st', hok, hpost⟩ := chainStep_out hout
      obtain ⟨-, -, -, -, -, hn, -, mints, tokens, hm, rfl⟩ := (claimRewards_eq_ok hp).1 hok
      refine ⟨hn.trans (Nat.mod_eq_of_lt (hfits rfl hp hok)), ?_⟩
      rw [event_post, step, hpost]
      exact hm
    · rintro o mint ata p rfl hp hover
      cases hrun : process dep c.clock c.accounts (.claimRewards o mint ata) with
      | ok out => exact absurd (hfits rfl hp hrun) (Nat.not_lt.2 hover)
      | error err =>
        rw [event_out, event_post, step, chainStep_error hrun]
        exact ⟨⟨err, rfl⟩, congrArg (Option.map _) hp⟩

end Steps

/-- **Claims** mint exactly the shares, and shares that do not fit are refused, in every run whose
steps are narrow, and only there. -/
theorem claims_iff (dep : Deployment) (c : Chain State) (is : List (Action Instr)) :
    (∀ e ∈ trace (step dep) c is, ClaimLaw dep e) ↔ Each (step dep) (Narrow dep) c is := by
  rw [each_iff_mem_trace]
  refine forall₂_congr fun e he => ?_
  obtain ⟨pre, a, post, -, rfl⟩ := mem_trace he
  exact step_claimLaw_iff

/-! ## A share that wraps -/

/-- The rate is half of what 64 bits hold. -/
def richConfig : StakeConfig where
  __ := exampleConfig
  rewardRatePerEpoch := 2 ^ 63

def richGenesis : Chain State where
  clock := ⟨0, 0⟩
  accounts := State.genesis richConfig exampleGenesis.accounts.lamports
    exampleGenesis.accounts.mints exampleGenesis.accounts.tokens

/-- The only staker claims for three epochs. -/
def richRun : List (Action Instr) :=
  [.submit (.stake exampleOwner 100), .elapse 30 0, .submit (.claimRewards exampleOwner 9 11)]

/-- The claim mints for one epoch. -/
theorem richRun_not_claimLaw :
    ¬∀ e ∈ trace (step exampleDeployment) richGenesis richRun, ClaimLaw exampleDeployment e := by
  intro h
  obtain ⟨hminted, -⟩ := (h (event (step exampleDeployment)
    (exec (step exampleDeployment) richGenesis (richRun.take 2))
    (.submit (.claimRewards exampleOwner 9 11)))
    (event_mem_trace (richRun.take 2) [] rfl)).minted exampleOwner 9 11 ⟨1, 100, 0, 0, 0⟩ (2 ^ 63)
      rfl (by decide) (by decide)
  exact absurd hminted (by decide)

end Ddns.Stake
