import Ddns.Names.Text
import Ddns.Lib.Tx

/-!
# The name server incentives program

The owner of a domain that delegates to the name servers of the operator is paid for its queries
(`ddns_ns_incentives`). Verifiers attest the delegation of a domain in an epoch and report its
usage; `claim_ns_rewards` walks the accounts that the owner supplies, one usage report and
`min_attestors` attestations for each epoch, and pays for the whole range. A claim is addressed by
`["ns_claim", domain_hash]`, a usage report by `["ns_usage", domain_hash, epoch_id]` and an
attestation by `["ns_attest", domain_hash, epoch_id, attestor]`. The rent of the accounts is left
out. A definition without a docstring is the item of the source with the same words in its name.
-/

namespace Ddns.NsIncentives

open Tx
open Names (Text trim toAsciiLowercase asBytes)

inductive NsError where
  | badDomain
  | domainHashMismatch
  | claimNotActive
  | notAllowlisted
  | wrongEpoch
  | badEpochLen
  | badMinAttestors
  | badClaimRange
  | tooManyVerifiers
  | badAmount
  | badMint
  | badTokenProgram
  | badEpochRange
  | epochAlreadyClaimed
  | epochRangeTooLarge
  | badRemainingAccounts
  | badUsagePda
  | usageMismatch
  | usageNotFinalized
  | badAttestationPda
  | attestationMismatch
  | notEnoughAttestors
  | nothingToClaim
  deriving DecidableEq, Repr

def maxDomainLen : Nat := 253

def maxEpochClaimRange : Nat := 32

def maxAllowlist : Nat := 64

/-! ## Accounts -/

/-- The part of `NsConfig` that `update_ns_config` sets. The cap is a `u64`. -/
structure ConfigParams where
  epochLenSlots : Nat
  nsSetHash : Hash
  minAttestors : Nat
  rewardPerQuery : Nat
  maxRewardPerEpoch : Nat
  maxEpochsClaimRange : Nat
  allowlistedVerifiers : List Pubkey
  maxRewardPerEpoch_lt : maxRewardPerEpoch < 2 ^ 64

structure NsConfig extends ConfigParams where
  admin : Pubkey
  tollMint : Pubkey
  rewardVault : Pubkey

inductive ClaimStatus where
  | pending
  | active
  | revoked
  deriving DecidableEq, Repr

structure NsClaim where
  domainHash : Hash
  domainLen : Nat
  domainBytes : List UInt8
  ownerWallet : Pubkey
  createdAtSlot : Nat
  status : ClaimStatus
  lastClaimedEpoch : Nat
  deriving DecidableEq, Repr

structure EpochDelegationAttestation where
  domainHash : Hash
  epochId : Nat
  attestor : Pubkey
  nsSetHash : Hash
  controlProofHash : Hash
  observedAtSlot : Nat
  deriving DecidableEq, Repr

structure EpochUsageAggregate where
  domainHash : Hash
  epochId : Nat
  queryCount : Nat
  receiptsRoot : Hash
  attestorCount : Nat
  submittedBy : Pubkey
  submittedAtSlot : Nat
  finalized : Bool
  deriving DecidableEq, Repr

structure State where
  config : NsConfig
  claim : Hash → Option NsClaim
  attestation : Hash → Nat → Pubkey → Option EpochDelegationAttestation
  usage : Hash → Nat → Option EpochUsageAggregate
  tokens : Tokens

/-- What the program is deployed with: SHA-256, the SPL token program and the vault authority
PDA. -/
structure Deployment where
  sha256 : List UInt8 → Hash
  splTokenId : Pubkey
  vaultAuthority : Pubkey

/-- An account that the client supplies: one of the program, by its seeds, or another one. -/
inductive AccountInfo where
  | nsConfig
  | nsClaim (domainHash : Hash)
  | usage (domainHash : Hash) (epochId : Nat)
  | attestation (domainHash : Hash) (epochId : Nat) (attestor : Pubkey)
  | foreign (key : Pubkey)
  deriving DecidableEq, Repr

/-! ## Helpers -/

def epochIdFromSlot (slot epochLenSlots : Nat) : Result NsError Nat := do
  require (0 < epochLenSlots) .badEpochLen
  pure (slot / epochLenSlots)

def requireIsAllowlisted (cfg : NsConfig) (key : Pubkey) : Result NsError Unit :=
  require (key ∈ cfg.allowlistedVerifiers) .notAllowlisted

/-- The bytes of a domain: `a..z`, `0..9`, `-` and `.`. -/
def domainByteOk (b : UInt8) : Bool :=
  (97 ≤ b && b ≤ 122) || (48 ≤ b && b ≤ 57) || b = 45 || b = 46

def normalizeDomain (domain : Text) : Result NsError (List UInt8) := do
  let d := toAsciiLowercase (trim domain)
  let d := if d.getLast? = some '.' then d.dropLast else d
  let bytes := asBytes d
  require (bytes ≠ []) .badDomain
  require (bytes.length ≤ maxDomainLen) .badDomain
  require (bytes.all domainByteOk = true) .badDomain
  pure bytes

/-- The account has the owner `crate::ID` and the data of a usage report. -/
def readUsage (st : State) : AccountInfo → Result NsError EpochUsageAggregate
  | .usage h e => okOr (st.usage h e) .usageMismatch
  | _ => .error (.custom .usageMismatch)

/-- The account has the owner `crate::ID` and the data of an attestation. -/
def readAttestation (st : State) : AccountInfo → Result NsError EpochDelegationAttestation
  | .attestation h e k => okOr (st.attestation h e k) .attestationMismatch
  | .foreign _ => .error (.custom .attestationMismatch)
  | .nsConfig => .error .constraint
  | .nsClaim h => if (st.claim h).isSome then .error .constraint
    else .error (.custom .attestationMismatch)
  | .usage h e => if (st.usage h e).isSome then .error .constraint
    else .error (.custom .attestationMismatch)

/-- Write a claim account. -/
def State.setClaim (st : State) (h : Hash) (claim : NsClaim) : State :=
  { st with claim := Function.update st.claim h (some claim) }

/-- Write an attestation account. -/
def State.setAttestation (st : State) (h : Hash) (e : Nat) (k : Pubkey)
    (att : EpochDelegationAttestation) : State :=
  { st with
    attestation := Function.update st.attestation h (Function.update (st.attestation h) e
      (Function.update (st.attestation h e) k (some att))) }

/-- Write a usage account. -/
def State.setUsage (st : State) (h : Hash) (e : Nat) (u : EpochUsageAggregate) : State :=
  { st with usage := Function.update st.usage h (Function.update (st.usage h) e (some u)) }

/-! ## Instructions -/

def updateNsConfig (st : State) (admin : Signer) (p : ConfigParams) : Result NsError State := do
  demand (st.config.admin = admin.key) .constraint
  require (0 < p.epochLenSlots) .badEpochLen
  require (0 < p.minAttestors) .badMinAttestors
  require (0 < p.maxEpochsClaimRange ∧ p.maxEpochsClaimRange ≤ maxEpochClaimRange) .badClaimRange
  require (p.allowlistedVerifiers.length ≤ maxAllowlist) .tooManyVerifiers
  pure { st with config := { st.config with toConfigParams := p } }

def fundRewards (dep : Deployment) (st : State) (admin : Signer) (adminFrom : Pubkey)
    (tokenProgram : Pubkey) (amount : Nat) : Result NsError State := do
  demand (st.config.admin = admin.key) .constraint
  require (0 < amount) .badAmount
  require (tokenProgram = dep.splTokenId) .badTokenProgram
  let tokens ← st.tokens.transfer adminFrom st.config.rewardVault admin.key amount
  pure { st with tokens }

def createNsClaim (dep : Deployment) (clock : Clock) (st : State) (ownerWallet : Signer)
    (domain : Text) (domainHash : Hash) : Result NsError State := do
  vacant (st.claim domainHash)
  let normalized ← normalizeDomain domain
  require (dep.sha256 normalized = domainHash) .domainHashMismatch
  pure (st.setClaim domainHash {
    domainHash := domainHash
    domainLen := Checked.cast 8 normalized.length
    domainBytes := normalized ++ List.replicate (maxDomainLen - normalized.length) 0
    ownerWallet := ownerWallet.key
    createdAtSlot := clock.slot
    status := .active
    lastClaimedEpoch := 0 })

/-- The claim account at `h` that `owner_wallet` signs for: `seeds = ["ns_claim",
ns_claim.domain_hash]` and `has_one = owner_wallet`. -/
def ownClaim (st : State) (ownerWallet : Signer) (h : Hash) : Result NsError NsClaim := do
  let claim ← load (st.claim h)
  demand (claim.domainHash = h) .constraint
  demand (claim.ownerWallet = ownerWallet.key) .constraint
  pure claim

def revokeNsClaim (st : State) (ownerWallet : Signer) (h : Hash) : Result NsError State := do
  let claim ← ownClaim st ownerWallet h
  pure (st.setClaim h { claim with status := .revoked })

def submitDelegationAttestation (clock : Clock) (st : State) (attestor : Signer)
    (domainHash : Hash) (epochId : Nat) (controlProofHash : Hash) (observedAtSlot : Nat) :
    Result NsError State := do
  let claim ← load (st.claim domainHash)
  vacant (st.attestation domainHash epochId attestor.key)
  requireIsAllowlisted st.config attestor.key
  require (claim.domainHash = domainHash) .attestationMismatch
  require (claim.status = .active) .claimNotActive
  let currentEpoch ← epochIdFromSlot clock.slot st.config.epochLenSlots
  require (currentEpoch = epochId) .wrongEpoch
  pure (st.setAttestation domainHash epochId attestor.key {
    domainHash := claim.domainHash
    epochId := epochId
    attestor := attestor.key
    nsSetHash := st.config.nsSetHash
    controlProofHash := controlProofHash
    observedAtSlot := observedAtSlot })

def submitUsageAggregate (clock : Clock) (st : State) (attestor : Signer) (domainHash : Hash)
    (epochId queryCount : Nat) (receiptsRoot : Hash) (submittedAtSlot : Nat) :
    Result NsError State := do
  let claim ← load (st.claim domainHash)
  requireIsAllowlisted st.config attestor.key
  require (claim.domainHash = domainHash) .usageMismatch
  require (claim.status = .active) .claimNotActive
  let currentEpoch ← epochIdFromSlot clock.slot st.config.epochLenSlots
  require (currentEpoch = epochId) .wrongEpoch
  pure (st.setUsage domainHash epochId {
    domainHash := claim.domainHash
    epochId := epochId
    queryCount := queryCount
    receiptsRoot := receiptsRoot
    attestorCount := 1
    submittedBy := attestor.key
    submittedAtSlot := submittedAtSlot
    finalized := true })

/-- One supplied attestation, as the inner loop checks it. -/
def checkAttestation (st : State) (claim : NsClaim) (epochId : Nat) (info : AccountInfo) :
    Result NsError Pubkey := do
  let att ← readAttestation st info
  require (att.domainHash = claim.domainHash) .attestationMismatch
  require (att.epochId = epochId) .attestationMismatch
  require (att.nsSetHash = st.config.nsSetHash) .attestationMismatch
  requireIsAllowlisted st.config att.attestor
  require (info = .attestation claim.domainHash epochId att.attestor) .badAttestationPda
  pure att.attestor

/-- The inner loop: the distinct attestors among the accounts after `base`. -/
def uniqueAttestors (st : State) (claim : NsClaim) (epochId base : Nat)
    (remainingAccounts : List AccountInfo) : Result NsError (List Pubkey) :=
  forRange st.config.minAttestors [] fun j unique => do
    let info ← load remainingAccounts[base + 1 + j]?
    let attestor ← checkAttestation st claim epochId info
    pure (if attestor ∈ unique then unique else unique ++ [attestor])

/-- One iteration of the outer loop: the reward of an epoch. -/
def epochReward (st : State) (claim : NsClaim) (epochId base : Nat)
    (remainingAccounts : List AccountInfo) : Result NsError Nat := do
  let usageInfo ← load remainingAccounts[base]?
  require (usageInfo = .usage claim.domainHash epochId) .badUsagePda
  let usage ← readUsage st usageInfo
  require (usage.domainHash = claim.domainHash) .usageMismatch
  require (usage.epochId = epochId) .usageMismatch
  require (usage.finalized = true) .usageNotFinalized
  let unique ← uniqueAttestors st claim epochId base remainingAccounts
  require (st.config.minAttestors ≤ unique.length) .notEnoughAttestors
  let raw := Checked.satMul 64 usage.queryCount st.config.rewardPerQuery
  pure (min raw st.config.maxRewardPerEpoch)

/-- The outer loop: the total of `epochs` epochs from `fromEpoch` on. -/
def totalReward (st : State) (claim : NsClaim) (fromEpoch epochs : Nat)
    (remainingAccounts : List AccountInfo) : Result NsError Nat :=
  forRange epochs 0 fun i total => do
    let base := i * (1 + st.config.minAttestors)
    let reward ← epochReward st claim (fromEpoch + i) base remainingAccounts
    pure (Checked.satAdd 64 total reward)

def claimNsRewards (dep : Deployment) (st : State) (ownerWallet : Signer) (h : Hash)
    (ownerTokenAccount tokenProgram : Pubkey) (remainingAccounts : List AccountInfo)
    (fromEpoch toEpoch : Nat) : Result NsError State := do
  let claim ← ownClaim st ownerWallet h
  require (tokenProgram = dep.splTokenId) .badTokenProgram
  require (claim.status = .active) .claimNotActive
  require (fromEpoch ≤ toEpoch) .badEpochRange
  require (claim.lastClaimedEpoch < fromEpoch) .epochAlreadyClaimed
  let epochs := toEpoch - fromEpoch + 1
  require (epochs ≤ st.config.maxEpochsClaimRange) .epochRangeTooLarge
  require (remainingAccounts.length = epochs * (1 + st.config.minAttestors)) .badRemainingAccounts
  let total ← totalReward st claim fromEpoch epochs remainingAccounts
  require (0 < total) .nothingToClaim
  let tokens ← st.tokens.transfer st.config.rewardVault ownerTokenAccount dep.vaultAuthority total
  pure ({ st with tokens }.setClaim h { claim with lastClaimedEpoch := toEpoch })

/-- A transfer of tokens outside the program. -/
def splTransfer (st : State) (authority : Signer) (src dst : Pubkey) (amount : Nat) :
    Result NsError State := do
  let tokens ← st.tokens.transfer src dst authority.key amount
  pure { st with tokens }

/-- The instructions, with the accounts and arguments they are called with. -/
inductive Instr where
  | updateNsConfig (admin : Signer) (p : ConfigParams)
  | fundRewards (admin : Signer) (adminFrom tokenProgram : Pubkey) (amount : Nat)
  | createNsClaim (ownerWallet : Signer) (domain : Text) (domainHash : Hash)
  | revokeNsClaim (ownerWallet : Signer) (h : Hash)
  | submitDelegationAttestation (attestor : Signer) (domainHash : Hash) (epochId : Nat)
      (controlProofHash : Hash) (observedAtSlot : Nat)
  | submitUsageAggregate (attestor : Signer) (domainHash : Hash) (epochId queryCount : Nat)
      (receiptsRoot : Hash) (submittedAtSlot : Nat)
  | claimNsRewards (ownerWallet : Signer) (h : Hash) (ownerTokenAccount tokenProgram : Pubkey)
      (remainingAccounts : List AccountInfo) (fromEpoch toEpoch : Nat)
  | splTransfer (authority : Signer) (src dst : Pubkey) (amount : Nat)

/-- The handler of an instruction. -/
def handle (dep : Deployment) (clock : Clock) (st : State) : Instr → Result NsError State
  | .updateNsConfig s p => updateNsConfig st s p
  | .fundRewards s src prog n => fundRewards dep st s src prog n
  | .createNsClaim s d h => createNsClaim dep clock st s d h
  | .revokeNsClaim s h => revokeNsClaim st s h
  | .submitDelegationAttestation s h e proof slot =>
    submitDelegationAttestation clock st s h e proof slot
  | .submitUsageAggregate s h e q root slot => submitUsageAggregate clock st s h e q root slot
  | .claimNsRewards s h dst prog accs a b => claimNsRewards dep st s h dst prog accs a b
  | .splTransfer s src dst n => splTransfer st s src dst n

/-- A transaction of one instruction. -/
def process (dep : Deployment) (clock : Clock) (st : State) (i : Instr) :
    Result NsError (State × Unit) := do
  let st ← handle dep clock st i
  pure (st, ())

/-- One action on the chain. -/
abbrev step (dep : Deployment) : Chain State → Action Instr →
    Chain State × Option (Result NsError Unit) :=
  chainStep (process dep)

/-- The accounts after `initialize_ns_config`, which opens the reward vault for the vault
authority. -/
def State.genesis (dep : Deployment) (config : NsConfig) (tokens : Tokens) : State where
  config := config
  claim := fun _ => none
  attestation := fun _ _ _ => none
  usage := fun _ _ => none
  tokens := Function.update tokens config.rewardVault (some ⟨config.tollMint, dep.vaultAuthority, 0⟩)

end Ddns.NsIncentives
