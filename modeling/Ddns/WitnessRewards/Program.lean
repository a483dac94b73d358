import Ddns.Solana.Keys

/-!
# The witness rewards program

Bonded miners submit batches of receipts in the current epoch (`ddns_witness_rewards`). A batch
accrues a reward within the cap of its miner and the budget of its epoch, and the miner claims what
accrued. A bond is addressed by `["bond", miner]`, the statistics of a miner by `["epoch_stats",
epoch_id, miner]` and those of an epoch by `["epoch_state", epoch_id]`. The rent of the last two is
left out. A definition without a docstring is the item of the source with the same words in its
name.
-/

namespace Ddns.WitnessRewards

open Tx

inductive WitnessRewardsError where
  | invalidConfig
  | unauthorized
  | invalidAmount
  | mathOverflow
  | disabled
  | insufficientBond
  | badEpoch
  | invalidMiner
  | duplicateRoot
  | alreadyClaimed
  | nothingToClaim
  | invalidMint
  | invalidVaultAuthority
  | invalidVault
  | cooldownNotMet
  | bondRentViolation
  deriving DecidableEq, Repr

def maxDiversityBonusBps : Nat := 2000

/-! ## Accounts -/

/-- `WitnessRewardsConfig`, with the check of `init_config` and the widths of its numbers. -/
structure WitnessRewardsConfig where
  authority : Pubkey
  tollMint : Pubkey
  rewardVault : Pubkey
  epochLenSlots : Nat
  maxRewardPerEpoch : Nat
  minBondLamports : Nat
  rewardPerReceipt : Nat
  maxRewardableReceiptsPerMinerPerEpoch : Nat
  cooldownSlots : Nat
  enabled : Bool
  epochLen_pos : 0 < epochLenSlots
  maxReward_lt : maxRewardPerEpoch < 2 ^ 64
  reward_lt : rewardPerReceipt < 2 ^ 64
  maxReceipts_lt : maxRewardableReceiptsPerMinerPerEpoch < 2 ^ 32

structure MinerBond where
  miner : Pubkey
  bondLamports : Nat
  lastActionSlot : Nat
  deriving DecidableEq, Repr

/-- A freshly initialised `MinerBond` account. -/
def MinerBond.zero : MinerBond := ⟨Pubkey.default, 0, 0⟩

structure EpochMinerStats where
  epochId : Nat
  miner : Pubkey
  rewardableReceipts : Nat
  submittedReceipts : Nat
  uniqueNameHashes : Nat
  uniqueColos : Nat
  earnedReward : Nat
  claimed : Bool
  lastReceiptsRoot : Hash
  lastSubmissionSlot : Nat
  deriving DecidableEq, Repr

/-- A freshly initialised `EpochMinerStats` account. -/
def EpochMinerStats.zero : EpochMinerStats :=
  ⟨0, Pubkey.default, 0, 0, 0, 0, 0, false, 0, 0⟩

structure EpochState where
  epochId : Nat
  totalSubmittedReceipts : Nat
  totalRewardableReceipts : Nat
  totalAccruedRewards : Nat
  deriving DecidableEq, Repr

/-- A freshly initialised `EpochState` account. -/
def EpochState.zero : EpochState := ⟨0, 0, 0, 0⟩

/-- `8 + MinerBond::SIZE`. -/
def bondSpace : Nat := 8 + (32 + 8 + 8 + 1)

/-- The holders of lamports: wallets and bonds. -/
inductive Holder where
  | wallet (k : Pubkey)
  | bond (k : Pubkey)
  deriving DecidableEq, Repr

structure State where
  config : WitnessRewardsConfig
  bond : Pubkey → Option MinerBond
  stats : Nat → Pubkey → Option EpochMinerStats
  epochState : Nat → Option EpochState
  lamports : Holder → Nat
  tokens : Tokens

/-- What the program is deployed with: the rent of a size and the vault authority PDA. -/
structure Deployment where
  rent : Nat → Nat
  vaultAuthority : Pubkey

structure BatchSubmitted where
  epochId : Nat
  miner : Pubkey
  receiptsRoot : Hash
  receiptCount : Nat
  rewardableReceipts : Nat
  deltaReward : Nat
  diversityBonusBps : Nat
  deriving DecidableEq, Repr

structure RewardsClaimed where
  epochId : Nat
  miner : Pubkey
  amount : Nat
  deriving DecidableEq, Repr

/-- What an instruction emits. -/
inductive Emitted where
  | batchSubmitted (b : BatchSubmitted)
  | rewardsClaimed (r : RewardsClaimed)
  deriving DecidableEq, Repr

/-! ## Helpers -/

/-- `compute_diversity_bonus_bps`, with the cast to `u16` before the bound. -/
def computeDiversityBonusBps (uniqueNameHashes uniqueColos : Nat) : Nat :=
  let nameBonus := Checked.satMul 32 uniqueNameHashes 10
  let coloBonus := Checked.satMul 32 uniqueColos 100
  min (Checked.cast 16 (Checked.satAdd 32 nameBonus coloBonus)) maxDiversityBonusBps

def validateTokenAccount (tokens : Tokens) (a expectedMint expectedOwner : Pubkey) :
    Result WitnessRewardsError Unit := do
  let parsed ← okOr (tokens a) .invalidVault
  require (parsed.mint = expectedMint) .invalidMint
  require (parsed.owner = expectedOwner) .invalidVaultAuthority

/-- The reward of a batch before the budget of the epoch. -/
def batchReward (cfg : WitnessRewardsConfig) (rewardable diversityBonusBps : Nat) :
    Result WitnessRewardsError Nat := do
  let bonusBpsTotal ← okOr (Checked.add 128 10000 diversityBonusBps) .mathOverflow
  let base ← okOr (Checked.mul 128 rewardable cfg.rewardPerReceipt) .mathOverflow
  let scaled ← okOr (Checked.mul 128 base bonusBpsTotal) .mathOverflow
  pure (Checked.cast 64 (scaled / bpsDenom))

/-- The statistics account of a miner, as a submission finds it or sets it up. -/
def openStats (stats : EpochMinerStats) (miner : Pubkey) (epochId : Nat) (receiptsRoot : Hash) :
    Result WitnessRewardsError EpochMinerStats :=
  if stats.miner = Pubkey.default then
    pure { stats with epochId := epochId, miner := miner }
  else do
    require (stats.miner = miner) .invalidMiner
    require (stats.epochId = epochId) .badEpoch
    require (stats.lastReceiptsRoot ≠ receiptsRoot) .duplicateRoot
    require (stats.claimed = false) .alreadyClaimed
    pure stats

/-- The account of an epoch, as a submission finds it or sets it up. -/
def openEpoch (es : EpochState) (epochId : Nat) : Result WitnessRewardsError EpochState :=
  if es.epochId = 0 then
    pure { es with epochId := epochId }
  else do
    require (es.epochId = epochId) .badEpoch
    pure es

/-- `init_if_needed`: the miner brings a new bond account to its rent. -/
def openBond (dep : Deployment) (st : State) (m : Pubkey) :
    Result WitnessRewardsError (Holder → Nat) :=
  if (st.bond m).isNone then
    transferLamports st.lamports (.wallet m) (.bond m) (dep.rent bondSpace - st.lamports (.bond m))
  else pure st.lamports

/-- Write a bond account. -/
def State.setBond (st : State) (m : Pubkey) (b : MinerBond) : State :=
  { st with bond := Function.update st.bond m (some b) }

/-- Write the statistics of a miner. -/
def State.setStats (st : State) (e : Nat) (m : Pubkey) (s : EpochMinerStats) : State :=
  { st with stats := Function.update st.stats e (Function.update (st.stats e) m (some s)) }

/-- Write the account of an epoch. -/
def State.setEpochState (st : State) (e : Nat) (es : EpochState) : State :=
  { st with epochState := Function.update st.epochState e (some es) }

/-! ## Instructions -/

def setEnabled (st : State) (authority : Signer) (enabled : Bool) :
    Result WitnessRewardsError State := do
  require (st.config.authority = authority.key) .unauthorized
  pure { st with config := { st.config with enabled := enabled } }

/-- `fund_reward_vault`; the vault authority is an account of the caller. -/
def fundRewardVault (st : State) (funder : Signer) (funderAta rewardVault vaultAuthority : Pubkey)
    (amount : Nat) : Result WitnessRewardsError State := do
  require (rewardVault = st.config.rewardVault) .invalidVault
  require (0 < amount) .invalidAmount
  validateTokenAccount st.tokens funderAta st.config.tollMint funder.key
  validateTokenAccount st.tokens rewardVault st.config.tollMint vaultAuthority
  let tokens ← st.tokens.transfer funderAta rewardVault funder.key amount
  pure { st with tokens }

def depositBond (dep : Deployment) (clock : Clock) (st : State) (miner : Signer) (lamports : Nat) :
    Result WitnessRewardsError State := do
  let m := miner.key
  let opened ← openBond dep st m
  let bond := (st.bond m).getD MinerBond.zero
  require (0 < lamports) .invalidAmount
  let moved ← transferLamports opened (.wallet m) (.bond m) lamports
  let bondLamports ← okOr (Checked.add 64 bond.bondLamports lamports) .mathOverflow
  pure ({ st with lamports := moved }.setBond m ⟨m, bondLamports, clock.slot⟩)

/-- The bond account of the signer. -/
def ownBond (st : State) (miner : Signer) : Result WitnessRewardsError MinerBond := do
  let bond ← load (st.bond miner.key)
  require (bond.miner = miner.key) .invalidMiner
  pure bond

def withdrawBond (dep : Deployment) (clock : Clock) (st : State) (miner : Signer)
    (lamports : Nat) : Result WitnessRewardsError State := do
  let m := miner.key
  let bond ← ownBond st miner
  require (0 < lamports) .invalidAmount
  require (Checked.satAdd 64 bond.lastActionSlot st.config.cooldownSlots ≤ clock.slot)
    .cooldownNotMet
  require (lamports ≤ bond.bondLamports) .insufficientBond
  require (dep.rent bondSpace ≤ st.lamports (.bond m) - lamports) .bondRentViolation
  let moved ← transferLamports st.lamports (.bond m) (.wallet m) lamports
  let bondLamports ← okOr (Checked.sub bond.bondLamports lamports) .mathOverflow
  pure ({ st with lamports := moved }.setBond m
    { bond with bondLamports := bondLamports, lastActionSlot := clock.slot })

def submitReceiptBatch (clock : Clock) (st : State) (miner : Signer) (epochId : Nat)
    (receiptsRoot : Hash) (receiptCount uniqueNameHashes uniqueColos : Nat) :
    Result WitnessRewardsError (State × BatchSubmitted) := do
  let cfg := st.config
  let m := miner.key
  let bond ← ownBond st miner
  require (cfg.enabled = true) .disabled
  require (0 < receiptCount) .invalidAmount
  require (epochId = clock.slot / cfg.epochLenSlots) .badEpoch
  require (cfg.minBondLamports ≤ bond.bondLamports) .insufficientBond
  let stats ← openStats ((st.stats epochId m).getD EpochMinerStats.zero) m epochId receiptsRoot
  let remainingCap := cfg.maxRewardableReceiptsPerMinerPerEpoch - stats.rewardableReceipts
  let rewardable := min receiptCount remainingCap
  let diversityBonusBps := computeDiversityBonusBps uniqueNameHashes uniqueColos
  let deltaReward ← batchReward cfg rewardable diversityBonusBps
  let es ← openEpoch ((st.epochState epochId).getD EpochState.zero) epochId
  let remainingEpochBudget := cfg.maxRewardPerEpoch - es.totalAccruedRewards
  let deltaCapped := min deltaReward remainingEpochBudget
  let stats := { stats with
    submittedReceipts := Checked.satAdd 32 stats.submittedReceipts receiptCount
    rewardableReceipts := Checked.satAdd 32 stats.rewardableReceipts rewardable
    uniqueNameHashes := Checked.satAdd 32 stats.uniqueNameHashes uniqueNameHashes
    uniqueColos := Checked.satAdd 16 stats.uniqueColos uniqueColos
    earnedReward := Checked.satAdd 64 stats.earnedReward deltaCapped
    lastReceiptsRoot := receiptsRoot
    lastSubmissionSlot := clock.slot }
  let es := { es with
    totalSubmittedReceipts := Checked.satAdd 64 es.totalSubmittedReceipts receiptCount
    totalRewardableReceipts := Checked.satAdd 64 es.totalRewardableReceipts rewardable
    totalAccruedRewards := Checked.satAdd 64 es.totalAccruedRewards deltaCapped }
  pure ((st.setStats epochId m stats).setEpochState epochId es, {
    epochId := epochId
    miner := m
    receiptsRoot := receiptsRoot
    receiptCount := receiptCount
    rewardableReceipts := rewardable
    deltaReward := deltaCapped
    diversityBonusBps := diversityBonusBps })

def claimRewards (dep : Deployment) (st : State) (miner : Signer)
    (rewardVault minerTollAta : Pubkey) (epochId : Nat) :
    Result WitnessRewardsError (State × RewardsClaimed) := do
  let cfg := st.config
  let m := miner.key
  require (rewardVault = cfg.rewardVault) .invalidVault
  let stats ← load (st.stats epochId m)
  require (stats.epochId = epochId) .badEpoch
  require (stats.miner = m) .invalidMiner
  require (stats.claimed = false) .alreadyClaimed
  require (0 < stats.earnedReward) .nothingToClaim
  let amount := stats.earnedReward
  validateTokenAccount st.tokens rewardVault cfg.tollMint dep.vaultAuthority
  validateTokenAccount st.tokens minerTollAta cfg.tollMint m
  let tokens ← st.tokens.transfer rewardVault minerTollAta dep.vaultAuthority amount
  pure ({ st with tokens }.setStats epochId m { stats with claimed := true }, ⟨epochId, m, amount⟩)

/-- The instructions, with the accounts and arguments they are called with. -/
inductive Instr where
  | setEnabled (authority : Signer) (enabled : Bool)
  | fundRewardVault (funder : Signer) (funderAta rewardVault vaultAuthority : Pubkey)
      (amount : Nat)
  | depositBond (miner : Signer) (lamports : Nat)
  | withdrawBond (miner : Signer) (lamports : Nat)
  | submitReceiptBatch (miner : Signer) (epochId : Nat) (receiptsRoot : Hash)
      (receiptCount uniqueNameHashes uniqueColos : Nat)
  | claimRewards (miner : Signer) (rewardVault minerTollAta : Pubkey) (epochId : Nat)

/-- A transaction of one instruction, answered by what it emits. -/
def process (dep : Deployment) (clock : Clock) (st : State) :
    Instr → Result WitnessRewardsError (State × Option Emitted)
  | .setEnabled s b => (·, none) <$> setEnabled st s b
  | .fundRewardVault s src vault auth n => (·, none) <$> fundRewardVault st s src vault auth n
  | .depositBond s n => (·, none) <$> depositBond dep clock st s n
  | .withdrawBond s n => (·, none) <$> withdrawBond dep clock st s n
  | .submitReceiptBatch s e root count names colos =>
    (fun r => (r.1, some (.batchSubmitted r.2))) <$>
      submitReceiptBatch clock st s e root count names colos
  | .claimRewards s vault ata e =>
    (fun r => (r.1, some (.rewardsClaimed r.2))) <$> claimRewards dep st s vault ata e

/-- One action on the chain. -/
abbrev step (dep : Deployment) : Chain State → Action Instr →
    Chain State × Option (Result WitnessRewardsError (Option Emitted)) :=
  chainStep (process dep)

/-- The accounts after `init_config`: no bond, and no epoch has statistics. -/
def State.genesis (config : WitnessRewardsConfig) (lamports : Holder → Nat) (tokens : Tokens) :
    State where
  config := config
  bond := fun _ => none
  stats := fun _ _ => none
  epochState := fun _ => none
  lamports := lamports
  tokens := tokens

end Ddns.WitnessRewards
