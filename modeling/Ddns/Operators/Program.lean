import Ddns.Solana.Keys

/-!
# The operators program

The on-chain registry of resolver operators (`ddns_operators`): an operator registers, stakes
lamports into its vault, is active or paused, claims rewards for an epoch's metrics and can be
slashed. Accounts are addressed by their seeds: `["operator", wallet]`, `["operator_vault", wallet]`
and `["metrics", epoch, wallet]`. A definition without a docstring is the item of the source with
the same words in its name.
-/

namespace Ddns.Operators

open Tx

/-- The errors of the program that the instructions below raise. -/
inductive OperatorsError where
  | unauthorized
  | badEpochLen
  | badMaxEndpoints
  | tooManyEndpoints
  | badAmount
  | insufficientStake
  | overflow
  | wrongEpoch
  | disabled
  | notSubmitter
  | tooManySubmitters
  | tooManySlashAuthorities
  | operatorSlashed
  | operatorNotActive
  | nothingToClaim
  | alreadyRewarded
  | metricsMismatch
  | metricsAlreadySubmitted
  | payoutAtaMismatch
  | ownerMismatch
  | badBps
  | badMint
  | badTreasuryVault
  | badTreasuryVaultOwner
  | badPayerAtaOwner
  | vaultAlreadyExists
  deriving DecidableEq, Repr

/-! ## Accounts -/

def maxMetricsSubmitters : Nat := 64

def maxSlashAuthorities : Nat := 32

def maxEndpoints : Nat := 8

/-- `Endpoint`; `Endpoint::default()` is all zero. -/
structure Endpoint where
  endpointKind : Nat
  value : Hash
  region : Nat
  deriving DecidableEq, Repr

def Endpoint.default : Endpoint := ⟨0, 0, 0⟩

/-- `OperatorStatus`, stored as `Active = 1`, `Paused = 2`, `Slashed = 3`. -/
inductive OperatorStatus where
  | active
  | paused
  | slashed
  deriving DecidableEq, Repr

/-- The part of `OperatorsConfig` that `update_operators_config` sets. -/
structure ConfigParams where
  epochLenSlots : Nat
  minOperatorStakeLamports : Nat
  maxEndpointsPerOperator : Nat
  rewardPerPaidQuery : Nat
  rewardPerVerifiedReceipt : Nat
  uptimeBonusPer10k : Nat
  latencyBonusThresholdMs : Nat
  latencyBonus : Nat
  maxRewardsPerEpoch : Nat
  metricsSubmitters : List Pubkey
  slashingAuthorities : List Pubkey
  enabled : Bool
  deriving DecidableEq, Repr

structure OperatorsConfig extends ConfigParams where
  authority : Pubkey
  tollMint : Pubkey
  treasuryVault : Pubkey
  deriving DecidableEq, Repr

structure Operator where
  operatorWallet : Pubkey
  kind : Nat
  status : OperatorStatus
  stakeAmountLamports : Nat
  payoutTokenAccount : Pubkey
  endpointCount : Nat
  endpoints : List Endpoint
  lastClaimedEpoch : Nat
  deriving DecidableEq, Repr

structure EpochMetrics where
  epochId : Nat
  operatorWallet : Pubkey
  paidQueryCount : Nat
  receiptCount : Nat
  uptimeScore : Nat
  latencyMsP50 : Nat
  metricsRoot : Hash
  submittedBy : Pubkey
  submittedAtSlot : Nat
  rewardedAmount : Nat
  rewardedAtSlot : Nat
  deriving DecidableEq, Repr

structure DomainNsDelegation where
  nameHash : Hash
  ownerWallet : Pubkey
  operatorWallet : Pubkey
  enabled : Bool
  createdAtSlot : Nat
  updatedAtSlot : Nat
  deriving DecidableEq, Repr

/-- A freshly initialised `DomainNsDelegation` account. -/
def DomainNsDelegation.zero : DomainNsDelegation :=
  ⟨0, Pubkey.default, Pubkey.default, false, 0, 0⟩

/-- A freshly initialised `EpochMetrics` account. -/
def EpochMetrics.zero : EpochMetrics :=
  ⟨0, Pubkey.default, 0, 0, 0, 0, 0, Pubkey.default, 0, 0, 0⟩

/-- `8 + Operator::SIZE`. -/
def operatorSpace : Nat := 8 + (32 + 1 + 1 + 8 + 32 + 1 + maxEndpoints * (1 + 32 + 2) + 8 + 1 + 1)

/-- `8 + EpochMetrics::SIZE`. -/
def metricsSpace : Nat := 8 + (8 + 32 + 8 + 8 + 2 + 4 + 32 + 32 + 8 + 8 + 8 + 1)

/-- `8 + DomainNsDelegation::SIZE`. -/
def domainNsSpace : Nat := 8 + (32 + 32 + 32 + 1 + 8 + 8 + 1)

/-- The holders of lamports: wallets and the program's own accounts. -/
inductive Holder where
  | wallet (k : Pubkey)
  | operator (k : Pubkey)
  | operatorVault (k : Pubkey)
  | metrics (epochId : Nat) (k : Pubkey)
  | domainNs (nameHash : Hash)
  deriving DecidableEq, Repr

/-- The accounts of the program once its config exists. -/
structure State where
  config : OperatorsConfig
  operator : Pubkey → Option Operator
  metrics : Nat → Pubkey → Option EpochMetrics
  domainNs : Hash → Option DomainNsDelegation
  lamports : Holder → Nat
  tokens : Tokens

/-- What the program is deployed with: the rent of a size and the treasury authority PDA. -/
structure Deployment where
  rent : Nat → Nat
  treasuryAuthority : Pubkey

/-! ## Helpers -/

def epochIdFromSlot (slot epochLenSlots : Nat) : Result OperatorsError Nat := do
  require (0 < epochLenSlots) .badEpochLen
  pure (slot / epochLenSlots)

def requireIsMetricsSubmitter (cfg : OperatorsConfig) (key : Pubkey) : Result OperatorsError Unit :=
  require (key ∈ cfg.metricsSubmitters ∨ cfg.authority = key) .notSubmitter

/-- Anchor's `init`: the payer brings the new account to its rent. -/
def initAccount (lamports : Holder → Nat) (payer account : Holder) (rent : Nat) :
    Result OperatorsError (Holder → Nat) :=
  transferLamports lamports payer account (rent - lamports account)

/-- Anchor's `init_if_needed`: only an account that does not exist is initialised. -/
def initIfNeeded {α : Type} (existing : Option α) (lamports : Holder → Nat) (payer account : Holder)
    (rent : Nat) : Result OperatorsError (Holder → Nat) :=
  if existing.isNone then initAccount lamports payer account rent else pure lamports

/-- The zero-filled array of `MAX_ENDPOINTS` endpoints that starts with `endpoints`. -/
def endpointArray (endpoints : List Endpoint) : List Endpoint :=
  endpoints ++ List.replicate (maxEndpoints - endpoints.length) Endpoint.default

/-- The operator account of the signer: `seeds = ["operator", wallet]` and the constraint
`operator.operator_wallet == operator_wallet`. -/
def ownOperator (st : State) (operatorWallet : Signer) : Result OperatorsError Operator := do
  let op ← load (st.operator operatorWallet.key)
  require (op.operatorWallet = operatorWallet.key) .ownerMismatch
  pure op

/-- Write an operator account. -/
def State.setOperator (st : State) (k : Pubkey) (op : Operator) : State :=
  { st with operator := Function.update st.operator k (some op) }

/-- Write a metrics account. -/
def State.setMetrics (st : State) (e : Nat) (k : Pubkey) (m : EpochMetrics) : State :=
  { st with metrics := Function.update st.metrics e (Function.update (st.metrics e) k (some m)) }

/-! ## Instructions -/

def updateOperatorsConfig (st : State) (authority : Signer) (p : ConfigParams) :
    Result OperatorsError State := do
  demand (st.config.authority = authority.key) .constraint
  require (0 < p.epochLenSlots) .badEpochLen
  require (p.maxEndpointsPerOperator ≤ maxEndpoints) .badMaxEndpoints
  require (p.metricsSubmitters.length ≤ maxMetricsSubmitters) .tooManySubmitters
  require (p.slashingAuthorities.length ≤ maxSlashAuthorities) .tooManySlashAuthorities
  pure { st with config := { st.config with toConfigParams := p } }

def registerOperator (dep : Deployment) (st : State) (operatorWallet : Signer) (kind : Nat)
    (endpoints : List Endpoint) (payoutTokenAccount : Pubkey) : Result OperatorsError State := do
  let w := operatorWallet.key
  vacant (st.operator w)
  let lamports ← initAccount st.lamports (.wallet w) (.operator w) (dep.rent operatorSpace)
  require (endpoints.length ≤ st.config.maxEndpointsPerOperator) .tooManyEndpoints
  require (lamports (.operatorVault w) = 0) .vaultAlreadyExists
  let lamports ← transferLamports lamports (.wallet w) (.operatorVault w) (dep.rent 0)
  pure ({ st with lamports }.setOperator w {
    operatorWallet := w
    kind := kind
    status := .paused
    stakeAmountLamports := 0
    payoutTokenAccount := payoutTokenAccount
    endpointCount := endpoints.length
    endpoints := endpointArray endpoints
    lastClaimedEpoch := 0 })

def updateEndpoints (st : State) (operatorWallet : Signer) (endpoints : List Endpoint) :
    Result OperatorsError State := do
  let op ← ownOperator st operatorWallet
  require (endpoints.length ≤ st.config.maxEndpointsPerOperator) .tooManyEndpoints
  require (op.status ≠ .slashed) .operatorSlashed
  pure (st.setOperator operatorWallet.key { op with
    endpointCount := endpoints.length
    endpoints := endpointArray endpoints })

def pauseOperator (st : State) (operatorWallet : Signer) : Result OperatorsError State := do
  let op ← ownOperator st operatorWallet
  pure (st.setOperator operatorWallet.key { op with status := .paused })

def resumeOperator (st : State) (operatorWallet : Signer) : Result OperatorsError State := do
  let op ← ownOperator st operatorWallet
  require (st.config.minOperatorStakeLamports ≤ op.stakeAmountLamports) .insufficientStake
  require (op.status ≠ .slashed) .operatorSlashed
  pure (st.setOperator operatorWallet.key { op with status := .active })

def stakeOperator (st : State) (operatorWallet : Signer) (amountLamports : Nat) :
    Result OperatorsError State := do
  let op ← ownOperator st operatorWallet
  require (0 < amountLamports) .badAmount
  require (op.status ≠ .slashed) .operatorSlashed
  let lamports ← transferLamports st.lamports (.wallet operatorWallet.key)
    (.operatorVault operatorWallet.key) amountLamports
  let stake ← okOr (Checked.add 64 op.stakeAmountLamports amountLamports) .overflow
  -- Reaching the minimum activates a paused operator.
  let status := if st.config.minOperatorStakeLamports ≤ stake ∧ op.status = .paused
    then .active else op.status
  pure ({ st with lamports }.setOperator operatorWallet.key
    { op with stakeAmountLamports := stake, status })

def unstakeOperator (dep : Deployment) (st : State) (operatorWallet : Signer)
    (amountLamports : Nat) : Result OperatorsError State := do
  let op ← ownOperator st operatorWallet
  require (0 < amountLamports) .badAmount
  require (op.status ≠ .slashed) .operatorSlashed
  require (amountLamports ≤ op.stakeAmountLamports) .insufficientStake
  let stake ← okOr (Checked.sub op.stakeAmountLamports amountLamports) .overflow
  let status := if stake < st.config.minOperatorStakeLamports then .paused else op.status
  let lamports ← transferLamports st.lamports (.operatorVault operatorWallet.key)
    (.wallet operatorWallet.key) amountLamports
  -- The runtime lets no account end above zero and below its rent.
  demand (lamports (.operatorVault operatorWallet.key) = 0 ∨
    dep.rent 0 ≤ lamports (.operatorVault operatorWallet.key)) .rentState
  pure ({ st with lamports }.setOperator operatorWallet.key
    { op with stakeAmountLamports := stake, status })

def fundTreasury (dep : Deployment) (st : State) (authority : Signer)
    (authorityTollAta treasuryVault : Pubkey) (amount : Nat) : Result OperatorsError State := do
  require (0 < amount) .badAmount
  require (authority.key = st.config.authority) .unauthorized
  require (treasuryVault = st.config.treasuryVault) .badTreasuryVault
  let src ← load (st.tokens authorityTollAta)
  require (src.mint = st.config.tollMint) .badMint
  require (src.owner = authority.key) .badPayerAtaOwner
  let vault ← load (st.tokens treasuryVault)
  require (vault.mint = st.config.tollMint) .badMint
  require (vault.owner = dep.treasuryAuthority) .badTreasuryVaultOwner
  let tokens ← st.tokens.transfer authorityTollAta treasuryVault authority.key amount
  pure { st with tokens }

/-- `submit_epoch_metrics` for the operator account of `operator`. -/
def submitEpochMetrics (dep : Deployment) (clock : Clock) (st : State) (submitter : Signer)
    (operator : Pubkey) (epochId paidQueryCount receiptCount uptimeScore latencyMsP50 : Nat)
    (metricsRoot : Hash) : Result OperatorsError State := do
  let op ← load (st.operator operator)
  demand (op.operatorWallet = operator) .constraint
  let w := op.operatorWallet
  let lamports ← initIfNeeded (st.metrics epochId w) st.lamports (.wallet submitter.key)
    (.metrics epochId w) (dep.rent metricsSpace)
  let m := (st.metrics epochId w).getD EpochMetrics.zero
  require (st.config.enabled = true) .disabled
  requireIsMetricsSubmitter st.config submitter.key
  let gotEpoch ← epochIdFromSlot clock.slot st.config.epochLenSlots
  require (gotEpoch = epochId) .wrongEpoch
  require (¬(m.submittedAtSlot ≠ 0 ∧ m.submittedBy ≠ submitter.key)) .metricsAlreadySubmitted
  pure ({ st with lamports }.setMetrics epochId w { m with
    epochId := epochId
    operatorWallet := w
    paidQueryCount := paidQueryCount
    receiptCount := receiptCount
    uptimeScore := uptimeScore
    latencyMsP50 := latencyMsP50
    metricsRoot := metricsRoot
    submittedBy := submitter.key
    submittedAtSlot := clock.slot })

/-- The reward of `claim_operator_rewards` before the cap, in `u128`. -/
def rawReward (cfg : OperatorsConfig) (m : EpochMetrics) : Result OperatorsError Nat := do
  let queries ← okOr (Checked.mul 128 m.paidQueryCount cfg.rewardPerPaidQuery) .overflow
  let receipts ← okOr (Checked.mul 128 m.receiptCount cfg.rewardPerVerifiedReceipt) .overflow
  let reward ← okOr (Checked.add 128 queries receipts) .overflow
  let uptime ← okOr (Checked.mul 128 m.uptimeScore cfg.uptimeBonusPer10k) .overflow
  let reward ← okOr (Checked.add 128 reward (uptime / 10000)) .overflow
  if 0 < cfg.latencyBonus ∧ 0 < m.latencyMsP50 ∧ m.latencyMsP50 ≤ cfg.latencyBonusThresholdMs then
    okOr (Checked.add 128 reward cfg.latencyBonus) .overflow
  else
    pure reward

def claimOperatorRewards (dep : Deployment) (clock : Clock) (st : State) (operatorWallet : Signer)
    (treasuryVault operatorPayoutAta : Pubkey) (epochId : Nat) : Result OperatorsError State := do
  let op ← ownOperator st operatorWallet
  let m ← load (st.metrics epochId operatorWallet.key)
  require (st.config.enabled = true) .disabled
  require (op.status = .active) .operatorNotActive
  require (m.epochId = epochId) .wrongEpoch
  require (m.operatorWallet = op.operatorWallet) .metricsMismatch
  require (m.rewardedAmount = 0) .alreadyRewarded
  let reward ← rawReward st.config m
  let rewardU64 := min (Checked.cast 64 reward) st.config.maxRewardsPerEpoch
  require (0 < rewardU64) .nothingToClaim
  require (treasuryVault = st.config.treasuryVault) .badTreasuryVault
  let vault ← load (st.tokens treasuryVault)
  require (vault.mint = st.config.tollMint) .badMint
  require (vault.owner = dep.treasuryAuthority) .badTreasuryVaultOwner
  require (op.payoutTokenAccount = operatorPayoutAta) .payoutAtaMismatch
  let payout ← load (st.tokens operatorPayoutAta)
  require (payout.mint = st.config.tollMint) .badMint
  let tokens ← st.tokens.transfer treasuryVault operatorPayoutAta dep.treasuryAuthority rewardU64
  let st := { st with tokens }
  let st := st.setMetrics epochId operatorWallet.key
    { m with rewardedAmount := rewardU64, rewardedAtSlot := clock.slot }
  pure (st.setOperator operatorWallet.key { op with lastClaimedEpoch := epochId })

def setDomainNsOperator (dep : Deployment) (clock : Clock) (st : State) (owner : Signer)
    (nameHash : Hash) (operatorWallet : Pubkey) (enabled : Bool) : Result OperatorsError State := do
  let lamports ← initIfNeeded (st.domainNs nameHash) st.lamports (.wallet owner.key)
    (.domainNs nameHash) (dep.rent domainNsSpace)
  let d := (st.domainNs nameHash).getD DomainNsDelegation.zero
  require (d.createdAtSlot = 0 ∨ d.ownerWallet = owner.key) .ownerMismatch
  let d := if d.createdAtSlot = 0
    then { d with nameHash := nameHash, ownerWallet := owner.key, createdAtSlot := clock.slot }
    else d
  let d := { d with operatorWallet := operatorWallet, enabled := enabled, updatedAtSlot := clock.slot }
  pure { st with lamports, domainNs := Function.update st.domainNs nameHash (some d) }

/-- The penalty of `slash_operator`, moved only if there is one; the lamports and the stake after
it. -/
def payPenalty (dep : Deployment) (st : State) (operator : Pubkey) (stakeAmountLamports : Nat)
    (slashAmount : Nat) : Result OperatorsError ((Holder → Nat) × Nat) :=
  if 0 < slashAmount then do
    let lamports ← transferLamports st.lamports (.operatorVault operator)
      (.wallet st.config.authority) slashAmount
    demand (lamports (.operatorVault operator) = 0 ∨
      dep.rent 0 ≤ lamports (.operatorVault operator)) .rentState
    let stake ← okOr (Checked.sub stakeAmountLamports slashAmount) .overflow
    pure (lamports, stake)
  else
    pure (st.lamports, stakeAmountLamports)

/-- `slash_operator` on the operator account of `operator`. -/
def slashOperator (dep : Deployment) (st : State) (signer : Signer) (operator : Pubkey)
    (slashBps reasonCode : Nat) : Result OperatorsError State := do
  let op ← load (st.operator operator)
  demand (op.operatorWallet = operator) .constraint
  require (slashBps ≤ 10000) .badBps
  require (signer.key = st.config.authority ∨ signer.key ∈ st.config.slashingAuthorities)
    .unauthorized
  require (op.status ≠ .slashed) .operatorSlashed
  let product ← okOr (Checked.mul 128 op.stakeAmountLamports slashBps) .overflow
  let slashAmount := Checked.cast 64 (product / 10000)
  let (lamports, stake) ← payPenalty dep st operator op.stakeAmountLamports slashAmount
  -- A large slash, or one with a reason, is final; a smaller one pauses.
  let status := if 5000 ≤ slashBps ∨ reasonCode ≠ 0 then .slashed else .paused
  pure ({ st with lamports }.setOperator operator { op with stakeAmountLamports := stake, status })

/-- The instructions, with the accounts and arguments they are called with. -/
inductive Instr where
  | updateOperatorsConfig (authority : Signer) (p : ConfigParams)
  | registerOperator (operatorWallet : Signer) (kind : Nat) (endpoints : List Endpoint)
      (payoutTokenAccount : Pubkey)
  | updateEndpoints (operatorWallet : Signer) (endpoints : List Endpoint)
  | pauseOperator (operatorWallet : Signer)
  | resumeOperator (operatorWallet : Signer)
  | stakeOperator (operatorWallet : Signer) (amountLamports : Nat)
  | unstakeOperator (operatorWallet : Signer) (amountLamports : Nat)
  | fundTreasury (authority : Signer) (authorityTollAta treasuryVault : Pubkey) (amount : Nat)
  | submitEpochMetrics (submitter : Signer) (operator : Pubkey)
      (epochId paidQueryCount receiptCount uptimeScore latencyMsP50 : Nat) (metricsRoot : Hash)
  | claimOperatorRewards (operatorWallet : Signer) (treasuryVault operatorPayoutAta : Pubkey)
      (epochId : Nat)
  | setDomainNsOperator (owner : Signer) (nameHash : Hash) (operatorWallet : Pubkey)
      (enabled : Bool)
  | slashOperator (signer : Signer) (operator : Pubkey) (slashBps reasonCode : Nat)

/-- The handler of an instruction. -/
def handle (dep : Deployment) (clock : Clock) (st : State) : Instr → Result OperatorsError State
  | .updateOperatorsConfig a p => updateOperatorsConfig st a p
  | .registerOperator w kind eps payout => registerOperator dep st w kind eps payout
  | .updateEndpoints w eps => updateEndpoints st w eps
  | .pauseOperator w => pauseOperator st w
  | .resumeOperator w => resumeOperator st w
  | .stakeOperator w n => stakeOperator st w n
  | .unstakeOperator w n => unstakeOperator dep st w n
  | .fundTreasury a src vault n => fundTreasury dep st a src vault n
  | .submitEpochMetrics s op e q r u l root => submitEpochMetrics dep clock st s op e q r u l root
  | .claimOperatorRewards w vault ata e => claimOperatorRewards dep clock st w vault ata e
  | .setDomainNsOperator o n op en => setDomainNsOperator dep clock st o n op en
  | .slashOperator s op bps reason => slashOperator dep st s op bps reason

/-- A transaction of one instruction. -/
def process (dep : Deployment) (clock : Clock) (st : State) (i : Instr) :
    Result OperatorsError (State × Unit) := do
  let st ← handle dep clock st i
  pure (st, ())

/-- One action on the chain. -/
abbrev step (dep : Deployment) : Chain State → Action Instr →
    Chain State × Option (Result OperatorsError Unit) :=
  chainStep (process dep)

/-- The accounts after `init_operators_config`: no operator has registered. -/
def State.genesis (config : OperatorsConfig) (lamports : Holder → Nat) (tokens : Tokens) : State where
  config := config
  operator := fun _ => none
  metrics := fun _ _ => none
  domainNs := fun _ => none
  lamports := lamports
  tokens := tokens

end Ddns.Operators
