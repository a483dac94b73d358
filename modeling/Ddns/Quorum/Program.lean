import Ddns.Registry.Program

/-!
# The quorum program

Verifiers submit aggregates of witness receipts for a name, and an aggregate that meets the
thresholds makes its route canonical through the registry (`ddns_quorum`). Verifier sets are
addressed by `["verifierset", epoch]`, aggregates by `["agg", epoch, name_hash, submitter]`: every
submitter has its own. The rent that payers put into new accounts is left out. A definition without
a docstring is the item of the source with the same words in its name.
-/

namespace Ddns.Quorum

open Tx

inductive QuorumError where
  | tooManyVerifiers
  | notVerifier
  | wrongEpoch
  | aggregateMismatch
  | notEnoughReceipts
  | notEnoughStakeWeight
  | badEpochLen
  /-- An error of the registry, called by the program. -/
  | registry (e : Registry.RegistryError)
  deriving DecidableEq, Repr

def maxVerifiers : Nat := 64

structure VerifierSet where
  epochId : Nat
  admin : Pubkey
  thresholdStakeWeight : Nat
  members : List Pubkey
  deriving DecidableEq, Repr

structure StakeSnapshot where
  epochId : Nat
  totalStake : Nat
  userStakeRoot : Hash
  createdAtSlot : Nat
  deriving DecidableEq, Repr

/-- What a submitter states of a name in `submit_aggregate`. -/
structure Aggregate where
  destHash : Hash
  ttlS : Nat
  receiptCount : Nat
  stakeWeight : Nat
  receiptsRoot : Hash
  deriving DecidableEq, Repr

structure AggregateSubmission extends Aggregate where
  epochId : Nat
  nameHash : Hash
  submitter : Pubkey
  submittedAtSlot : Nat
  deriving DecidableEq, Repr

/-- The accounts of the program and of the registry. -/
structure State where
  registry : Registry.State
  authorityExists : Bool
  verifierSet : Nat → Option VerifierSet
  stakeSnapshot : Nat → Option StakeSnapshot
  aggregate : Nat → Hash → Pubkey → Option AggregateSubmission

/-- What the program is deployed with: its authority PDA and the addresses of the aggregates. -/
structure Deployment where
  quorumAuthority : Pubkey
  aggregateKey : Nat → Hash → Pubkey → Pubkey

def epochIdFromSlot (slot epochLenSlots : Nat) : Result QuorumError Nat := do
  require (0 < epochLenSlots) .badEpochLen
  pure (slot / epochLenSlots)

def requireIsMember (vs : VerifierSet) (key : Pubkey) : Result QuorumError Unit :=
  require (key ∈ vs.members) .notVerifier

/-- A call of the registry: its errors are errors of the caller. -/
def invoke {α : Type} : Result Registry.RegistryError α → Result QuorumError α
  | .ok a => .ok a
  | .error (.custom e) => .error (.custom (.registry e))
  | .error .accountInUse => .error .accountInUse
  | .error .accountMissing => .error .accountMissing
  | .error .constraint => .error .constraint
  | .error .insufficientFunds => .error .insufficientFunds
  | .error .rentState => .error .rentState
  | .error .numericOverflow => .error .numericOverflow
  | .error .unsigned => .error .unsigned

@[simp] theorem invoke_eq_ok {α : Type} {x : Result Registry.RegistryError α} {a : α} :
    invoke x = .ok a ↔ x = .ok a := by
  cases x with
  | ok b => simp [invoke]
  | error e => cases e <;> simp [invoke]

def State.setAggregate (st : State) (e : Nat) (n : Hash) (k : Pubkey) (agg : AggregateSubmission) :
    State :=
  { st with
    aggregate := Function.update st.aggregate e
      (Function.update (st.aggregate e) n (Function.update (st.aggregate e n) k (some agg))) }

/-! ## Instructions -/

def initQuorumAuthority (st : State) : Result QuorumError State := do
  demand (st.authorityExists = false) .accountInUse
  pure { st with authorityExists := true }

def initVerifierSet (st : State) (admin : Signer) (epochId thresholdStakeWeight : Nat)
    (members : List Pubkey) : Result QuorumError State := do
  vacant (st.verifierSet epochId)
  require (members.length ≤ maxVerifiers) .tooManyVerifiers
  let vs : VerifierSet := ⟨epochId, admin.key, thresholdStakeWeight, members⟩
  pure { st with verifierSet := Function.update st.verifierSet epochId (some vs) }

def updateVerifierSet (st : State) (admin : Signer) (epochId thresholdStakeWeight : Nat)
    (members : List Pubkey) : Result QuorumError State := do
  let vs ← load (st.verifierSet epochId)
  demand (vs.admin = admin.key) .constraint
  require (members.length ≤ maxVerifiers) .tooManyVerifiers
  let vs := { vs with thresholdStakeWeight := thresholdStakeWeight, members := members }
  pure { st with verifierSet := Function.update st.verifierSet epochId (some vs) }

def submitStakeSnapshot (clock : Clock) (st : State) (submitter : Signer) (epochId : Nat)
    (userStakeRoot : Hash) (totalStake : Nat) : Result QuorumError State := do
  let vs ← load (st.verifierSet epochId)
  vacant (st.stakeSnapshot epochId)
  requireIsMember vs submitter.key
  let currentEpoch ← epochIdFromSlot clock.slot st.registry.config.epochLenSlots
  require (currentEpoch = epochId) .wrongEpoch
  let snap : StakeSnapshot := ⟨epochId, totalStake, userStakeRoot, clock.slot⟩
  pure { st with stakeSnapshot := Function.update st.stakeSnapshot epochId (some snap) }

def submitAggregate (clock : Clock) (st : State) (submitter : Signer) (epochId : Nat)
    (nameHash : Hash) (agg : Aggregate) : Result QuorumError State := do
  let vs ← load (st.verifierSet epochId)
  vacant (st.aggregate epochId nameHash submitter.key)
  requireIsMember vs submitter.key
  let currentEpoch ← epochIdFromSlot clock.slot st.registry.config.epochLenSlots
  require (currentEpoch = epochId) .wrongEpoch
  pure (st.setAggregate epochId nameHash submitter.key { agg with
    epochId := epochId
    nameHash := nameHash
    submitter := submitter.key
    submittedAtSlot := clock.slot })

/-- `finalize_if_quorum` on the aggregate of `submitter`. -/
def finalizeIfQuorum (dep : Deployment) (clock : Clock) (st : State) (submitter : Pubkey)
    (epochId : Nat) (nameHash destHash : Hash) (ttlS : Nat) : Result QuorumError State := do
  let cfg := st.registry.config
  let vs ← load (st.verifierSet epochId)
  let agg ← load (st.aggregate epochId nameHash submitter)
  demand (agg.submitter = submitter) .constraint
  demand (st.authorityExists = true) .accountMissing
  require (vs.epochId = epochId) .wrongEpoch
  require (agg.epochId = epochId) .wrongEpoch
  require (agg.nameHash = nameHash) .aggregateMismatch
  require (agg.destHash = destHash) .aggregateMismatch
  require (agg.ttlS = ttlS) .aggregateMismatch
  let currentEpoch ← epochIdFromSlot clock.slot cfg.epochLenSlots
  require (currentEpoch = epochId) .wrongEpoch
  require (cfg.minReceipts ≤ agg.receiptCount) .notEnoughReceipts
  let requiredWeight := max cfg.minStakeWeight vs.thresholdStakeWeight
  require (requiredWeight ≤ agg.stakeWeight) .notEnoughStakeWeight
  let registry ← invoke (Registry.finalizeRoute clock st.registry dep.quorumAuthority nameHash
    destHash ttlS (dep.aggregateKey epochId nameHash submitter))
  pure { st with registry }

/-- `update_config` of the registry. -/
def updateRegistryConfig (st : State) (authority : Signer) (p : Registry.ConfigParams) :
    Result QuorumError State := do
  let registry ← invoke (Registry.updateConfig st.registry authority p)
  pure { st with registry }

/-- `finalize_route` of the registry, called by a wallet: nobody signs for the quorum authority. -/
def finalizeRegistryRoute (dep : Deployment) (clock : Clock) (st : State)
    (finalizeAuthority : Signer) (nameHash destHash : Hash) (ttlS : Nat) (aggregateRef : Pubkey) :
    Result QuorumError State := do
  demand (finalizeAuthority.key ≠ dep.quorumAuthority) .unsigned
  let registry ← invoke (Registry.finalizeRoute clock st.registry finalizeAuthority.key nameHash
    destHash ttlS aggregateRef)
  pure { st with registry }

/-- The instructions of both programs, with the accounts and arguments they are called with. -/
inductive Instr where
  | initQuorumAuthority
  | initVerifierSet (admin : Signer) (epochId thresholdStakeWeight : Nat) (members : List Pubkey)
  | updateVerifierSet (admin : Signer) (epochId thresholdStakeWeight : Nat) (members : List Pubkey)
  | submitStakeSnapshot (submitter : Signer) (epochId : Nat) (userStakeRoot : Hash)
      (totalStake : Nat)
  | submitAggregate (submitter : Signer) (epochId : Nat) (nameHash : Hash) (agg : Aggregate)
  | finalizeIfQuorum (submitter : Pubkey) (epochId : Nat) (nameHash destHash : Hash) (ttlS : Nat)
  | updateRegistryConfig (authority : Signer) (p : Registry.ConfigParams)
  | finalizeRegistryRoute (finalizeAuthority : Signer) (nameHash destHash : Hash) (ttlS : Nat)
      (aggregateRef : Pubkey)

/-- The handler of an instruction. -/
def handle (dep : Deployment) (clock : Clock) (st : State) : Instr → Result QuorumError State
  | .initQuorumAuthority => initQuorumAuthority st
  | .initVerifierSet a e t m => initVerifierSet st a e t m
  | .updateVerifierSet a e t m => updateVerifierSet st a e t m
  | .submitStakeSnapshot s e root t => submitStakeSnapshot clock st s e root t
  | .submitAggregate s e n agg => submitAggregate clock st s e n agg
  | .finalizeIfQuorum s e n d ttl => finalizeIfQuorum dep clock st s e n d ttl
  | .updateRegistryConfig a p => updateRegistryConfig st a p
  | .finalizeRegistryRoute a n d ttl ref => finalizeRegistryRoute dep clock st a n d ttl ref

/-- A transaction of one instruction. -/
def process (dep : Deployment) (clock : Clock) (st : State) (i : Instr) :
    Result QuorumError (State × Unit) :=
  (·, ()) <$> handle dep clock st i

/-- One action on the chain. -/
abbrev step (dep : Deployment) : Chain State → Action Instr →
    Chain State × Option (Result QuorumError Unit) :=
  chainStep (process dep)

/-- The accounts after `init_config` of the registry. -/
def State.genesis (config : Registry.Config) : State where
  registry := ⟨config, fun _ => none⟩
  authorityExists := false
  verifierSet := fun _ => none
  stakeSnapshot := fun _ => none
  aggregate := fun _ _ _ => none

end Ddns.Quorum
