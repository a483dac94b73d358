import Ddns.Solana.Keys
import Ddns.Lib.FinMap

/-!
# The stake program

The on-chain staking pool (`ddns_stake`): owners stake lamports into one vault and claim a share
of the reward rate for the epochs since their last claim. Positions are addressed by the seeds
`["stake", owner]`. A definition without a docstring is the item of the source with the same words
in its name.
-/

namespace Ddns.Stake

open Tx

inductive StakeError where
  | badEpochLen
  | badAmount
  | stillLocked
  | insufficientStake
  | noStake
  | noTotalStake
  | nothingToClaim
  | badEpoch
  | overflow
  deriving DecidableEq, Repr

/-! ## Accounts -/

/-- `StakeConfig`. `init_stake_config` admits only a positive epoch length. -/
structure StakeConfig where
  authority : Pubkey
  epochLenSlots : Nat
  rewardRatePerEpoch : Nat
  minLockEpochs : Nat
  rewardMint : Pubkey
  totalStake : Nat
  epochLen_pos : 0 < epochLenSlots

structure StakePosition where
  owner : Pubkey
  stakedAmount : Nat
  lastClaimedEpoch : Nat
  lockedUntilEpoch : Nat
  delegateToVerifier : Pubkey
  deriving DecidableEq, Repr

/-- A freshly initialised `StakePosition` account. -/
def StakePosition.zero : StakePosition := ⟨Pubkey.default, 0, 0, 0, Pubkey.default⟩

/-- `8 + StakePosition::SIZE`. -/
def positionSpace : Nat := 8 + (32 + 8 + 8 + 8 + 32 + 1)

/-- The holders of lamports: wallets and the program's own accounts. -/
inductive Holder where
  | wallet (k : Pubkey)
  | stakeVault
  | position (owner : Pubkey)
  deriving DecidableEq, Repr

structure State where
  config : StakeConfig
  position : FinMap Pubkey StakePosition
  lamports : Holder → Nat
  mints : Mints
  tokens : Tokens

/-- What the program is deployed with: the rent of a size and the mint authority PDA. -/
structure Deployment where
  rent : Nat → Nat
  mintAuthority : Pubkey

/-- The epoch of a slot, `slot / cfg.epoch_len_slots`. -/
def StakeConfig.epoch (cfg : StakeConfig) (clock : Clock) : Nat :=
  clock.slot / cfg.epochLenSlots

/-- The position of the signer: `seeds = ["stake", owner]` and `has_one = owner`. -/
def ownPosition (st : State) (owner : Signer) : Result StakeError StakePosition := do
  let pos ← load (st.position.get owner.key)
  demand (pos.owner = owner.key) .constraint
  pure pos

/-! ## Instructions -/

/-- What `stake` makes of a position without stake: a position of the signer that has claimed up to
now. A position with stake is left as it is. -/
def openPosition (pos : StakePosition) (owner : Pubkey) (epoch : Nat) : StakePosition :=
  if pos.stakedAmount = 0 then
    { pos with owner := owner, lastClaimedEpoch := epoch, delegateToVerifier := Pubkey.default }
  else pos

def stake (dep : Deployment) (clock : Clock) (st : State) (owner : Signer)
    (amountLamports : Nat) : Result StakeError State := do
  let lamports ← (match st.position.get owner.key with
    | some _ => pure st.lamports
    | none => transferLamports st.lamports (.wallet owner.key) (.position owner.key)
        (dep.rent positionSpace - st.lamports (.position owner.key)))
  require (0 < amountLamports) .badAmount
  let epoch := st.config.epoch clock
  let lamports ← transferLamports lamports (.wallet owner.key) .stakeVault amountLamports
  let pos := openPosition ((st.position.get owner.key).getD StakePosition.zero) owner.key epoch
  let stakedAmount ← okOr (Checked.add 64 pos.stakedAmount amountLamports) .overflow
  let newLock ← okOr (Checked.add 64 epoch st.config.minLockEpochs) .overflow
  let totalStake ← okOr (Checked.add 64 st.config.totalStake amountLamports) .overflow
  pure { st with
    config := { st.config with totalStake }
    position := st.position.set owner.key
      { pos with stakedAmount, lockedUntilEpoch := max pos.lockedUntilEpoch newLock }
    lamports }

def unstake (dep : Deployment) (clock : Clock) (st : State) (owner : Signer)
    (amountLamports : Nat) : Result StakeError State := do
  let pos ← ownPosition st owner
  require (0 < amountLamports) .badAmount
  require (pos.lockedUntilEpoch ≤ st.config.epoch clock) .stillLocked
  require (amountLamports ≤ pos.stakedAmount) .insufficientStake
  let stakedAmount ← okOr (Checked.sub pos.stakedAmount amountLamports) .overflow
  let totalStake ← okOr (Checked.sub st.config.totalStake amountLamports) .overflow
  let lamports ← transferLamports st.lamports .stakeVault (.wallet owner.key) amountLamports
  -- The runtime lets no account end above zero and below its rent.
  demand (lamports .stakeVault = 0 ∨ dep.rent 0 ≤ lamports .stakeVault) .rentState
  pure { st with
    config := { st.config with totalStake }
    position := st.position.set owner.key { pos with stakedAmount }
    lamports }

/-- The reward that `claim_rewards` computes in `u128` and casts to `u64`. -/
def claimReward (cfg : StakeConfig) (pos : StakePosition) (deltaEpochs : Nat) :
    Result StakeError Nat := do
  let product ← okOr (Checked.mul 128 cfg.rewardRatePerEpoch deltaEpochs) .overflow
  let numer ← okOr (Checked.mul 128 product pos.stakedAmount) .overflow
  pure (Checked.cast 64 (numer / cfg.totalStake))

/-- `claim_rewards`, with the amount it mints. -/
def claimRewards (dep : Deployment) (clock : Clock) (st : State) (owner : Signer)
    (rewardMint userRewardAta : Pubkey) : Result StakeError (State × Nat) := do
  let pos ← ownPosition st owner
  let epoch := st.config.epoch clock
  require (0 < st.config.totalStake) .noTotalStake
  require (0 < pos.stakedAmount) .noStake
  require (pos.lastClaimedEpoch ≤ epoch) .badEpoch
  let deltaEpochs ← okOr (Checked.sub epoch pos.lastClaimedEpoch) .overflow
  require (0 < deltaEpochs) .nothingToClaim
  let reward ← claimReward st.config pos deltaEpochs
  require (0 < reward) .nothingToClaim
  let (mints, tokens) ← mintTo st.mints st.tokens rewardMint userRewardAta dep.mintAuthority reward
  pure ({ st with
    position := st.position.set owner.key { pos with lastClaimedEpoch := epoch }
    mints, tokens }, reward)

def delegateToVerifier (st : State) (owner : Signer) (verifier : Pubkey) :
    Result StakeError State := do
  let pos ← ownPosition st owner
  pure { st with position := st.position.set owner.key { pos with delegateToVerifier := verifier } }

/-- The instructions, with the accounts and arguments they are called with. -/
inductive Instr where
  | stake (owner : Signer) (amountLamports : Nat)
  | unstake (owner : Signer) (amountLamports : Nat)
  | claimRewards (owner : Signer) (rewardMint userRewardAta : Pubkey)
  | delegateToVerifier (owner : Signer) (verifier : Pubkey)

/-- A transaction of one instruction, answered by the amount it mints. -/
def process (dep : Deployment) (clock : Clock) (st : State) :
    Instr → Result StakeError (State × Nat)
  | .stake o n => (·, 0) <$> stake dep clock st o n
  | .unstake o n => (·, 0) <$> unstake dep clock st o n
  | .claimRewards o mint ata => claimRewards dep clock st o mint ata
  | .delegateToVerifier o v => (·, 0) <$> delegateToVerifier st o v

/-- One action on the chain. -/
abbrev step (dep : Deployment) : Chain State → Action Instr →
    Chain State × Option (Result StakeError Nat) :=
  chainStep (process dep)

/-- The accounts after `init_stake_config`: no stake and no position. -/
def State.genesis (config : StakeConfig) (lamports : Holder → Nat) (mints : Mints)
    (tokens : Tokens) : State where
  config := { config with totalStake := 0 }
  position := FinMap.empty
  lamports := lamports
  mints := mints
  tokens := tokens

end Ddns.Stake
