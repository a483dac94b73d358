import Ddns.Names.Text
import Ddns.Solana.Keys
import Ddns.Lib.Updates

/-!
# The miner score program

Allowlisted submitters report the work of a miner in an epoch, finalize the epoch, assign the
rewards and cut them by penalties; the miner claims its reward from the vault once
(`ddns_miner_score`). The statistics of a miner are addressed by `["miner_epoch", epoch_id, miner]`,
the totals of an epoch by `["epoch_totals", epoch_id]` and the receipt of a claim by `["claim",
epoch_id, miner]`. The rent of the accounts is left out. A definition without a docstring is the
item of the source with the same words in its name.
-/

namespace Ddns.MinerScore

open Tx
open Names (asBytes)

inductive MinerScoreError where
  | unauthorized
  | invalidConfig
  | allowlistTooLarge
  | invalidVaultAuthority
  | minerNotAllowlisted
  | insufficientStakeWeight
  | invalidScore
  | epochNotFinalized
  | rewardCapExceeded
  | alreadyClaimed
  | noReward
  | invalidVault
  | invalidMint
  | invalidTokenAccount
  | invalidTokenOwner
  | epochMismatch
  | minerMismatch
  | mathOverflow
  | invalidNamesProgram
  | premiumRequired
  | invalidPremiumName
  deriving DecidableEq, Repr

def scoreDenom : Nat := 10000

def maxSubmitters : Nat := 16

def maxMiners : Nat := 64

/-! ## Accounts -/

/-- The arguments of `init_miner_score_config`. -/
structure ConfigParams where
  epochLenSlots : UInt64
  baseRewardPerEpoch : UInt64
  perMinerEpochCap : UInt64
  minMinerStakeWeight : UInt64
  allowlistedSubmitters : List Pubkey
  allowlistedMiners : List Pubkey
  alphaCorrectnessBps : UInt16
  alphaDiversityBps : UInt16
  alphaTimelinessBps : UInt16
  alphaUptimeBps : UInt16
  centralizationPenaltyBps : UInt16
  dominanceThresholdBps : UInt16
  diversityTarget : UInt32
  namesProgram : Pubkey
  requirePremiumForSellable : Bool
  deriving DecidableEq

/-- The checks of `init_miner_score_config`. -/
def ConfigParams.check (p : ConfigParams) : Result MinerScoreError Unit := do
  require (0 < p.epochLenSlots.toNat) .invalidConfig
  require (0 < p.diversityTarget.toNat) .invalidConfig
  require (p.allowlistedSubmitters.length ≤ maxSubmitters) .allowlistTooLarge
  require (p.allowlistedMiners.length ≤ maxMiners) .allowlistTooLarge
  require (p.alphaCorrectnessBps.toNat + p.alphaDiversityBps.toNat + p.alphaTimelinessBps.toNat +
    p.alphaUptimeBps.toNat = 10000) .invalidConfig
  require (p.centralizationPenaltyBps.toNat ≤ bpsDenom ∧ p.dominanceThresholdBps.toNat ≤ bpsDenom)
    .invalidConfig

/-- `MinerScoreConfig`, with the checks of the only instruction that writes it. -/
structure MinerScoreConfig extends ConfigParams where
  authority : Pubkey
  tollMint : Pubkey
  rewardVault : Pubkey
  checked : toConfigParams.check = .ok ()

/-- What a submitter reports of a miner. -/
structure Report where
  stakeWeight : UInt64
  aggregatesSubmitted : UInt32
  uniqueNameCount : UInt32
  uniqueReceiptCount : UInt32
  firstSubmitSlot : UInt64
  lastSubmitSlot : UInt64
  uptimeScore : UInt16
  correctnessScore : UInt16
  dominanceShareBps : UInt16
  deriving DecidableEq

/-- What the program computes from a report. -/
structure Scores where
  epochStartSlot : Nat
  epochEndSlot : Nat
  diversityComponent : Nat
  timelinessComponent : Nat
  rawScore : Nat
  deriving DecidableEq, Repr

/-- `MinerEpochStats`. The correctness of the report is kept apart: penalties lower it. -/
structure MinerEpochStats extends Scores where
  epochId : UInt64
  miner : Pubkey
  report : Report
  correctnessScore : Nat
  normalizedScore : Nat
  rewardAmount : Nat
  claimed : Bool
  submittedBy : Pubkey
  submittedAtSlot : Nat
  deriving DecidableEq

structure EpochTotals where
  epochId : UInt64
  totalRawScore : BitVec 128
  totalNormalizedScore : BitVec 128
  totalRewardsPlanned : UInt64
  minerCount : UInt32
  dominanceMaxShareBps : UInt16
  finalized : Bool
  deriving DecidableEq

structure MinerClaimReceipt where
  epochId : UInt64
  miner : Pubkey
  amount : Nat
  claimedAtSlot : Nat
  deriving DecidableEq

structure MinerPenalized where
  epochId : UInt64
  miner : Pubkey
  penaltyBps : UInt16
  reasonHash : Hash
  newRewardAmount : Nat
  deriving DecidableEq

structure State where
  config : MinerScoreConfig
  minerEpoch : UInt64 → Pubkey → Option MinerEpochStats
  epochTotals : UInt64 → Option EpochTotals
  claimReceipt : UInt64 → Pubkey → Option MinerClaimReceipt
  tokens : Tokens

/-- What the program is deployed with: SHA-256, the keys that can sign a transaction, and the PDAs
of the vault and of its authority, which cannot sign. -/
structure Deployment where
  sha256 : List UInt8 → Hash
  canSign : Pubkey → Bool
  vaultAuthority : Pubkey
  rewardVault : Pubkey
  vaultAuthority_canSign : canSign vaultAuthority = false

/-- An account of any program, with its data. -/
structure RawAccount where
  owner : Pubkey
  data : List UInt8

/-- The accounts of `ClaimMinerReward` that the miner chooses. -/
structure ClaimMinerReward where
  miner : Signer
  rewardVault : Pubkey
  minerAta : Pubkey
  namesProgram : Pubkey
  premiumName : RawAccount

/-- Write the statistics of a miner in an epoch. -/
def State.setMinerEpoch (st : State) (e : UInt64) (m : Pubkey) (x : MinerEpochStats) : State :=
  { st with minerEpoch :=
      Function.update st.minerEpoch e (Function.update (st.minerEpoch e) m (some x)) }

/-- Write the totals of an epoch. -/
def State.setEpochTotals (st : State) (e : UInt64) (t : EpochTotals) : State :=
  { st with epochTotals := Function.update st.epochTotals e (some t) }

/-- Write the receipt of a claim. -/
def State.setClaimReceipt (st : State) (e : UInt64) (m : Pubkey) (r : MinerClaimReceipt) : State :=
  { st with claimReceipt :=
      Function.update st.claimReceipt e (Function.update (st.claimReceipt e) m (some r)) }

/-! ## Helpers -/

/-- `is_allowlisted`, for a submitter. -/
def requireSubmitter (cfg : MinerScoreConfig) (submitter : Signer) : Result MinerScoreError Unit :=
  require (submitter.key ∈ cfg.allowlistedSubmitters) .unauthorized

def premiumNameDiscriminator (dep : Deployment) : List UInt8 :=
  (toBytes (dep.sha256 (asBytes "account:PremiumName".toList))).take 8

def verifyPremiumNameAccount (dep : Deployment) (premiumName : RawAccount)
    (expectedOwner expectedProgram : Pubkey) : Result MinerScoreError Unit := do
  require (premiumName.owner = expectedProgram) .invalidNamesProgram
  require (72 ≤ premiumName.data.length) .invalidPremiumName
  require (premiumName.data.take 8 = premiumNameDiscriminator dep) .invalidPremiumName
  require (ofBytes (Bytes.slice premiumName.data 40 32) = expectedOwner) .premiumRequired

/-- The premium name that the config may require of a miner. -/
def checkPremium (dep : Deployment) (cfg : MinerScoreConfig) (accs : ClaimMinerReward) :
    Result MinerScoreError Unit :=
  if cfg.requirePremiumForSellable then do
    require (accs.namesProgram = cfg.namesProgram) .invalidNamesProgram
    verifyPremiumNameAccount dep accs.premiumName accs.miner.key accs.namesProgram
  else pure ()

/-- `validate_token_account_mint_owner`; an address without a token account does not unpack as
one. -/
def validateTokenAccountMintOwner (tokens : Tokens) (a expectedMint expectedOwner : Pubkey) :
    Result MinerScoreError Unit := do
  let parsed ← okOr (tokens a) .invalidTokenAccount
  require (parsed.mint = expectedMint) .invalidMint
  require (parsed.owner = expectedOwner) .invalidTokenOwner

/-- `n * keep_bps / BPS_DENOM` in `u128`, the cut of a penalty. -/
def cutBps (n keepBps : Nat) : Result MinerScoreError Nat := do
  let product ← okOr (Checked.mul 128 n keepBps) .mathOverflow
  pure (product / bpsDenom)

/-! ## Scores -/

/-- The timeliness of a first submission, in `0..10000`. -/
def timelinessOf (cfg : MinerScoreConfig) (epochStartSlot firstSubmitSlot : Nat) :
    Result MinerScoreError Nat := do
  let first := max firstSubmitSlot epochStartSlot
  let firstDelta := first - epochStartSlot
  let window := max cfg.epochLenSlots.toNat 1
  let remaining := window - min firstDelta window
  let scaled ← okOr (Checked.mul 128 remaining scoreDenom) .mathOverflow
  pure (Checked.cast 16 (scaled / window))

/-- The diversity of a number of names, in `0..10000`. -/
def diversityOf (cfg : MinerScoreConfig) (uniqueNameCount : Nat) : Result MinerScoreError Nat := do
  let scaled ← okOr (Checked.mul 128 uniqueNameCount scoreDenom) .mathOverflow
  pure (Checked.cast 16 (min scoreDenom (scaled / cfg.diversityTarget.toNat)))

/-- The weighted component of the four scores, in `0..10000`. -/
def componentOf (cfg : MinerScoreConfig) (correctness uptime diversity timeliness : Nat) :
    Result MinerScoreError Nat := do
  let sum ← okOr (Checked.mul 128 cfg.alphaCorrectnessBps.toNat correctness) .mathOverflow
  let part ← okOr (Checked.mul 128 cfg.alphaUptimeBps.toNat uptime) .mathOverflow
  let sum ← okOr (Checked.add 128 sum part) .mathOverflow
  let part ← okOr (Checked.mul 128 cfg.alphaDiversityBps.toNat diversity) .mathOverflow
  let sum ← okOr (Checked.add 128 sum part) .mathOverflow
  let part ← okOr (Checked.mul 128 cfg.alphaTimelinessBps.toNat timeliness) .mathOverflow
  let sum ← okOr (Checked.add 128 sum part) .mathOverflow
  pure (sum / bpsDenom)

/-- The centralization penalty of a raw score. -/
def penalizeDominance (cfg : MinerScoreConfig) (dominanceShareBps rawScore : Nat) :
    Result MinerScoreError Nat :=
  if cfg.dominanceThresholdBps.toNat < dominanceShareBps then do
    let keepBps ← okOr (Checked.sub bpsDenom cfg.centralizationPenaltyBps.toNat) .mathOverflow
    cutBps rawScore keepBps
  else pure rawScore

/-- The scores of a report. -/
def scoresOf (cfg : MinerScoreConfig) (epochId : UInt64) (r : Report) :
    Result MinerScoreError Scores := do
  let start ← okOr (Checked.mul 128 epochId.toNat cfg.epochLenSlots.toNat) .mathOverflow
  let epochStartSlot := Checked.cast 64 start
  let epochEndSlot := Checked.satAdd 64 epochStartSlot cfg.epochLenSlots.toNat
  let timelinessComponent ← timelinessOf cfg epochStartSlot r.firstSubmitSlot.toNat
  let diversityComponent ← diversityOf cfg r.uniqueNameCount.toNat
  let component ← componentOf cfg r.correctnessScore.toNat r.uptimeScore.toNat diversityComponent
    timelinessComponent
  let rawScore ← okOr (Checked.mul 128 r.stakeWeight.toNat component) .mathOverflow
  let rawScore ← penalizeDominance cfg r.dominanceShareBps.toNat rawScore
  pure { epochStartSlot, epochEndSlot, diversityComponent, timelinessComponent, rawScore }

/-! ## Instructions -/

def reportMinerEpochStats (clock : Clock) (st : State) (submitter : Signer) (epochId : UInt64)
    (miner : Pubkey) (r : Report) : Result MinerScoreError State := do
  let cfg := st.config
  vacant (st.minerEpoch epochId miner)
  requireSubmitter cfg submitter
  require (miner ∈ cfg.allowlistedMiners) .minerNotAllowlisted
  require (cfg.minMinerStakeWeight.toNat ≤ r.stakeWeight.toNat) .insufficientStakeWeight
  require (r.uptimeScore.toNat ≤ scoreDenom ∧ r.correctnessScore.toNat ≤ scoreDenom) .invalidScore
  require (r.dominanceShareBps.toNat ≤ bpsDenom) .invalidConfig
  let scores ← scoresOf cfg epochId r
  pure (st.setMinerEpoch epochId miner { scores with
    epochId, miner
    report := r
    correctnessScore := r.correctnessScore.toNat
    normalizedScore := 0
    rewardAmount := 0
    claimed := false
    submittedBy := submitter.key
    submittedAtSlot := clock.slot })

def finalizeEpoch (st : State) (submitter : Signer) (epochId : UInt64)
    (totalRawScore totalNormalizedScore : BitVec 128) (totalRewardsPlanned : UInt64)
    (minerCount : UInt32) (dominanceMaxShareBps : UInt16) : Result MinerScoreError State := do
  vacant (st.epochTotals epochId)
  requireSubmitter st.config submitter
  require (dominanceMaxShareBps.toNat ≤ bpsDenom) .invalidConfig
  pure (st.setEpochTotals epochId {
    epochId, totalRawScore, totalNormalizedScore, totalRewardsPlanned, minerCount
    dominanceMaxShareBps
    finalized := true })

def setMinerReward (st : State) (submitter : Signer) (epochId : UInt64) (miner : Pubkey)
    (normalizedScore : BitVec 128) (rewardAmount : UInt64) : Result MinerScoreError State := do
  let t ← load (st.epochTotals epochId)
  let x ← load (st.minerEpoch epochId miner)
  requireSubmitter st.config submitter
  require (t.finalized = true) .epochNotFinalized
  require (rewardAmount.toNat ≤ st.config.perMinerEpochCap.toNat) .rewardCapExceeded
  require (x.epochId = epochId) .epochMismatch
  require (x.miner = miner) .minerMismatch
  require (x.claimed = false) .alreadyClaimed
  pure (st.setMinerEpoch epochId miner { x with
    normalizedScore := normalizedScore.toNat
    rewardAmount := rewardAmount.toNat })

def claimMinerReward (dep : Deployment) (clock : Clock) (st : State) (accs : ClaimMinerReward)
    (epochId : UInt64) : Result MinerScoreError State := do
  let cfg := st.config
  let miner := accs.miner.key
  demand (accs.rewardVault = cfg.rewardVault) .constraint
  let x ← load (st.minerEpoch epochId miner)
  vacant (st.claimReceipt epochId miner)
  require (x.epochId = epochId) .epochMismatch
  require (x.miner = miner) .minerMismatch
  require (x.claimed = false) .alreadyClaimed
  require (0 < x.rewardAmount) .noReward
  require (accs.rewardVault = cfg.rewardVault) .invalidVault
  validateTokenAccountMintOwner st.tokens accs.rewardVault cfg.tollMint dep.vaultAuthority
  validateTokenAccountMintOwner st.tokens accs.minerAta cfg.tollMint miner
  checkPremium dep cfg accs
  let tokens ← st.tokens.transfer accs.rewardVault accs.minerAta dep.vaultAuthority x.rewardAmount
  let receipt : MinerClaimReceipt := ⟨epochId, miner, x.rewardAmount, clock.slot⟩
  pure (({ st with tokens }.setMinerEpoch epochId miner { x with claimed := true }).setClaimReceipt
    epochId miner receipt)

def penalizeMiner (st : State) (submitter : Signer) (epochId : UInt64) (miner : Pubkey)
    (penaltyBps : UInt16) (reasonHash : Hash) :
    Result MinerScoreError (State × MinerPenalized) := do
  let x ← load (st.minerEpoch epochId miner)
  requireSubmitter st.config submitter
  require (penaltyBps.toNat ≤ bpsDenom) .invalidConfig
  require (x.epochId = epochId) .epochMismatch
  require (x.miner = miner) .minerMismatch
  require (x.claimed = false) .alreadyClaimed
  let keepBps ← okOr (Checked.sub bpsDenom penaltyBps.toNat) .mathOverflow
  let correctnessScore ← cutBps x.correctnessScore keepBps
  let rawScore ← cutBps x.rawScore keepBps
  let normalizedScore ← cutBps x.normalizedScore keepBps
  let rewardAmount ← cutBps x.rewardAmount keepBps
  let x := { x with
    correctnessScore := Checked.cast 16 correctnessScore
    rawScore, normalizedScore
    rewardAmount := Checked.cast 64 rewardAmount }
  pure (st.setMinerEpoch epochId miner x, ⟨epochId, miner, penaltyBps, reasonHash, x.rewardAmount⟩)

/-- A transfer of tokens outside the program. -/
def splTransfer (st : State) (authority : Signer) (src dst : Pubkey) (amount : Nat) :
    Result MinerScoreError State := do
  let tokens ← st.tokens.transfer src dst authority.key amount
  pure { st with tokens }

/-- The instructions, with the accounts and arguments they are called with. -/
inductive Instr where
  | reportMinerEpochStats (submitter : Signer) (epochId : UInt64) (miner : Pubkey) (r : Report)
  | finalizeEpoch (submitter : Signer) (epochId : UInt64)
      (totalRawScore totalNormalizedScore : BitVec 128) (totalRewardsPlanned : UInt64)
      (minerCount : UInt32) (dominanceMaxShareBps : UInt16)
  | setMinerReward (submitter : Signer) (epochId : UInt64) (miner : Pubkey)
      (normalizedScore : BitVec 128) (rewardAmount : UInt64)
  | claimMinerReward (accs : ClaimMinerReward) (epochId : UInt64)
  | penalizeMiner (submitter : Signer) (epochId : UInt64) (miner : Pubkey) (penaltyBps : UInt16)
      (reasonHash : Hash)
  | splTransfer (authority : Signer) (src dst : Pubkey) (amount : Nat)

/-- Who signs an instruction. -/
def Instr.signer : Instr → Signer
  | .reportMinerEpochStats s _ _ _ => s
  | .finalizeEpoch s _ _ _ _ _ _ => s
  | .setMinerReward s _ _ _ _ => s
  | .claimMinerReward accs _ => accs.miner
  | .penalizeMiner s _ _ _ _ => s
  | .splTransfer s _ _ _ => s

/-- The handler of an instruction, answered by the event it emits. -/
def handle (dep : Deployment) (clock : Clock) (st : State) :
    Instr → Result MinerScoreError (State × Option MinerPenalized)
  | .reportMinerEpochStats s e m r => (·, none) <$> reportMinerEpochStats clock st s e m r
  | .finalizeEpoch s e raw norm planned count share =>
    (·, none) <$> finalizeEpoch st s e raw norm planned count share
  | .setMinerReward s e m norm r => (·, none) <$> setMinerReward st s e m norm r
  | .claimMinerReward accs e => (·, none) <$> claimMinerReward dep clock st accs e
  | .penalizeMiner s e m p reason =>
    (fun r => (r.1, some r.2)) <$> penalizeMiner st s e m p reason
  | .splTransfer s src dst n => (·, none) <$> splTransfer st s src dst n

/-- A transaction of one instruction. -/
def process (dep : Deployment) (clock : Clock) (st : State) (i : Instr) :
    Result MinerScoreError (State × Option MinerPenalized) := do
  demand (dep.canSign i.signer.key = true) .unsigned
  handle dep clock st i

/-- One action on the chain. -/
abbrev step (dep : Deployment) : Chain State → Action Instr →
    Chain State × Option (Result MinerScoreError (Option MinerPenalized)) :=
  chainStep (process dep)

/-- The accounts of a config, and the vault that is opened for it. -/
def State.genesis (dep : Deployment) (config : MinerScoreConfig) (tokens : Tokens) : State where
  config := config
  minerEpoch := fun _ _ => none
  epochTotals := fun _ => none
  claimReceipt := fun _ _ => none
  tokens := Function.update tokens config.rewardVault
    (some ⟨config.tollMint, dep.vaultAuthority, 0⟩)

/-- `init_miner_score_config`, in front of the token accounts of the chain. -/
def initMinerScoreConfig (dep : Deployment) (tokens : Tokens) (authority : Signer)
    (tollMint vaultAuthority : Pubkey) (p : ConfigParams) : Result MinerScoreError State :=
  match h : p.check with
  | .error e => .error e
  | .ok _ => do
    require (vaultAuthority = dep.vaultAuthority) .invalidVaultAuthority
    vacant (tokens dep.rewardVault)
    pure (State.genesis dep ⟨p, authority.key, tollMint, dep.rewardVault, h⟩ tokens)

end Ddns.MinerScore
