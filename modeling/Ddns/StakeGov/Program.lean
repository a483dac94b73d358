import Ddns.Solana.Keys

/-!
# The stake governance program

Stake positions with locks, exits and slashing (`ddns_stake_gov`): stakers move tokens into one
vault, lock part of them, request an exit and withdraw after a cooldown; slash authorities cut the
stake of an offender and jail it as a verifier. Positions are addressed by `["stake", staker]`,
slash records by `["slash", epoch, offender, reason_hash]` and snapshots by their epoch. The rent
that payers put into new accounts is left out. A definition without a docstring is the item of the
source with the same words in its name.
-/

namespace Ddns.StakeGov

open Tx

inductive StakeGovError where
  | unauthorized
  | invalidConfig
  | allowlistTooLarge
  | invalidLockTiers
  | verifierAlreadyRegistered
  | verifierRegistryFull
  | verifierNotFound
  | verifierNotActive
  | verifierJailed
  | invalidCommission
  | invalidAmount
  | belowMinStake
  | invalidLockEpochs
  | insufficientLiquid
  | exitNotRequested
  | exitCooldown
  | slashTooLarge
  | slashOutsideDisputeWindow
  | invalidTokenMint
  | invalidTokenOwner
  | invalidVault
  | invalidOffenderPosition
  | mathOverflow
  deriving DecidableEq, Repr

def maxAllowlist : Nat := 16

def maxVerifiers : Nat := 64

/-! ## Accounts -/

structure LockTier where
  lockEpochs : Nat
  multiplierBps : Nat
  deriving DecidableEq, Repr

/-- The loop of `init_config` over the lock tiers: epochs do not decrease from `prevEpochs` on and
every multiplier is at least one. -/
def lockTiersOk (prevEpochs : Nat) : List LockTier → Bool
  | [] => true
  | t :: ts => prevEpochs ≤ t.lockEpochs && bpsDenom ≤ t.multiplierBps && lockTiersOk t.lockEpochs ts

/-- The arguments of `init_config`. -/
structure ConfigParams where
  stakeMint : Pubkey
  epochLenSlots : Nat
  minStake : Nat
  maxVerifiers : Nat
  disputeWindowEpochs : Nat
  exitCooldownEpochs : Nat
  minLockEpochs : Nat
  maxLockEpochs : Nat
  jailEpochsAfterSlash : Nat
  maxSlashBpsPerEvent : Nat
  lockTiers : List LockTier
  slashAuthorities : List Pubkey
  snapshotSubmitters : List Pubkey
  deriving DecidableEq, Repr

/-- `StakeGovConfig`, with what `init_config` checks of it. No instruction changes it. -/
structure StakeGovConfig extends ConfigParams where
  authority : Pubkey
  vault : Pubkey
  epochLen_pos : 0 < epochLenSlots
  lock_le : minLockEpochs ≤ maxLockEpochs
  slash_le : maxSlashBpsPerEvent ≤ bpsDenom
  tiers_ok : lockTiersOk 0 lockTiers = true

structure VerifierInfo where
  verifier : Pubkey
  commissionBps : Nat
  active : Bool
  jailedUntilEpoch : Nat
  deriving DecidableEq, Repr

structure StakePosition where
  owner : Pubkey
  stakedAmount : Nat
  lockedAmount : Nat
  lockEndEpoch : Nat
  lockMultiplierBps : Nat
  exitRequestedEpoch : Nat
  pendingWithdrawAmount : Nat
  delegatedTo : Pubkey
  delegationSlashable : Bool
  lastSlashEpoch : Nat
  deriving DecidableEq, Repr

structure StakeSnapshot where
  epochId : Nat
  root : Hash
  totalWeight : Nat
  createdAtSlot : Nat
  createdBy : Pubkey
  deriving DecidableEq, Repr

structure SlashRecord where
  epochId : Nat
  offender : Pubkey
  slashBps : Nat
  amountSlashed : Nat
  reasonHash : Hash
  evidenceRef : Hash
  appliedAtSlot : Nat
  appliedBy : Pubkey
  deriving DecidableEq, Repr

structure State where
  config : StakeGovConfig
  verifiers : List VerifierInfo
  position : Pubkey → Option StakePosition
  snapshot : Nat → Option StakeSnapshot
  slashRecord : Nat → Pubkey → Hash → Option SlashRecord
  tokens : Tokens

/-- What the program is deployed with: the vault authority PDA. -/
structure Deployment where
  vaultAuthority : Pubkey

/-! ## Helpers -/

def currentEpoch (config : StakeGovConfig) (clock : Clock) : Nat :=
  clock.slot / config.epochLenSlots

def findIndex (verifiers : List VerifierInfo) (k : Pubkey) : Option Nat :=
  verifiers.findIdx? fun v => v.verifier = k

/-- The last tier whose lock is not longer than `lockEpochs`. -/
def chooseMultiplierBps (tiers : List LockTier) (lockEpochs : Nat) : Nat :=
  tiers.foldl (fun chosen t => if t.lockEpochs ≤ lockEpochs then t.multiplierBps else chosen) bpsDenom

def mulBps (amount bps : Nat) : Result StakeGovError Nat := do
  let product ← okOr (Checked.mul 128 amount bps) .mathOverflow
  pure (Checked.cast 64 (product / bpsDenom))

def validateTokenAccountMintOwner (tokens : Tokens) (acct expectedMint expectedOwner : Pubkey) :
    Result StakeGovError Unit := do
  let parsed ← load (tokens acct)
  require (parsed.mint = expectedMint) .invalidTokenMint
  require (parsed.owner = expectedOwner) .invalidTokenOwner

/-- The liquid amount of a position that `lock` and `request_exit` compute. -/
def StakePosition.availableLiquid (p : StakePosition) : Nat :=
  p.stakedAmount - p.lockedAmount - p.pendingWithdrawAmount

/-- The position at `["stake", staker]`, owned by the signer. -/
def ownPosition (st : State) (staker : Signer) : Result StakeGovError StakePosition := do
  let p ← load (st.position staker.key)
  require (p.owner = staker.key) .unauthorized
  pure p

def State.setPosition (st : State) (k : Pubkey) (p : StakePosition) : State :=
  { st with position := Function.update st.position k (some p) }

def State.setSlashRecord (st : State) (r : SlashRecord) : State :=
  { st with
    slashRecord := Function.update st.slashRecord r.epochId
      (Function.update (st.slashRecord r.epochId) r.offender
        (Function.update (st.slashRecord r.epochId r.offender) r.reasonHash (some r))) }

/-! ## Instructions -/

/-- The checks of `init_config` and the config that it persists. -/
def initConfig (authority : Signer) (vault : Pubkey) (p : ConfigParams) :
    Result StakeGovError StakeGovConfig :=
  if hlen : 0 < p.epochLenSlots then
    if p.maxVerifiers ≤ maxVerifiers then
      if hlock : p.minLockEpochs ≤ p.maxLockEpochs then
        if hslash : p.maxSlashBpsPerEvent ≤ bpsDenom then
          if p.slashAuthorities.length ≤ maxAllowlist ∧
              p.snapshotSubmitters.length ≤ maxAllowlist then
            if htiers : lockTiersOk 0 p.lockTiers = true then
              .ok { p with
                authority := authority.key, vault := vault, epochLen_pos := hlen
                lock_le := hlock, slash_le := hslash, tiers_ok := htiers }
            else .error (.custom .invalidLockTiers)
          else .error (.custom .allowlistTooLarge)
        else .error (.custom .invalidConfig)
      else .error (.custom .invalidConfig)
    else .error (.custom .invalidConfig)
  else .error (.custom .invalidConfig)

def registerVerifier (st : State) (authority : Signer) (verifier : Pubkey)
    (commissionBps : Nat) : Result StakeGovError State := do
  require (authority.key = st.config.authority) .unauthorized
  require (commissionBps ≤ bpsDenom) .invalidCommission
  require ((findIndex st.verifiers verifier).isNone) .verifierAlreadyRegistered
  require (st.verifiers.length < maxVerifiers ∧ st.verifiers.length < st.config.maxVerifiers)
    .verifierRegistryFull
  pure { st with verifiers := st.verifiers ++ [⟨verifier, commissionBps, true, 0⟩] }

def setVerifierActive (st : State) (authority : Signer) (verifier : Pubkey) (active : Bool) :
    Result StakeGovError State := do
  require (authority.key = st.config.authority) .unauthorized
  let idx ← okOr (findIndex st.verifiers verifier) .verifierNotFound
  pure { st with verifiers := st.verifiers.modify idx fun v => { v with active := active } }

def initStakePosition (st : State) (staker : Signer) : Result StakeGovError State := do
  vacant (st.position staker.key)
  pure (st.setPosition staker.key {
    owner := staker.key
    stakedAmount := 0
    lockedAmount := 0
    lockEndEpoch := 0
    lockMultiplierBps := bpsDenom
    exitRequestedEpoch := 0
    pendingWithdrawAmount := 0
    delegatedTo := Pubkey.default
    delegationSlashable := false
    lastSlashEpoch := 0 })

def stake (dep : Deployment) (st : State) (staker : Signer) (vault stakerAta : Pubkey)
    (amount : Nat) : Result StakeGovError State := do
  require (0 < amount) .invalidAmount
  let p ← ownPosition st staker
  validateTokenAccountMintOwner st.tokens stakerAta st.config.stakeMint staker.key
  validateTokenAccountMintOwner st.tokens vault st.config.stakeMint dep.vaultAuthority
  require (vault = st.config.vault) .invalidVault
  let tokens ← st.tokens.transfer stakerAta vault staker.key amount
  let stakedAmount ← okOr (Checked.add 64 p.stakedAmount amount) .mathOverflow
  require (st.config.minStake ≤ stakedAmount) .belowMinStake
  pure ({ st with tokens }.setPosition staker.key { p with stakedAmount })

def lock (clock : Clock) (st : State) (staker : Signer) (amount lockEpochs : Nat) :
    Result StakeGovError State := do
  require (0 < amount) .invalidAmount
  let p ← ownPosition st staker
  require (st.config.minLockEpochs ≤ lockEpochs ∧ lockEpochs ≤ st.config.maxLockEpochs)
    .invalidLockEpochs
  require (amount ≤ p.availableLiquid) .insufficientLiquid
  let lockedAmount ← okOr (Checked.add 64 p.lockedAmount amount) .mathOverflow
  let newEnd ← okOr (Checked.add 64 (currentEpoch st.config clock) lockEpochs) .mathOverflow
  let chosenMult := chooseMultiplierBps st.config.lockTiers lockEpochs
  pure (st.setPosition staker.key { p with
    lockedAmount
    lockEndEpoch := max p.lockEndEpoch newEnd
    lockMultiplierBps := max p.lockMultiplierBps chosenMult })

def unlockExpired (clock : Clock) (st : State) (staker : Signer) : Result StakeGovError State := do
  let p ← ownPosition st staker
  if p.lockEndEpoch ≠ 0 ∧ p.lockEndEpoch ≤ currentEpoch st.config clock then
    pure (st.setPosition staker.key
      { p with lockedAmount := 0, lockEndEpoch := 0, lockMultiplierBps := bpsDenom })
  else
    pure st

def requestExit (clock : Clock) (st : State) (staker : Signer) (amount : Nat) :
    Result StakeGovError State := do
  require (0 < amount) .invalidAmount
  let p ← ownPosition st staker
  require (amount ≤ p.availableLiquid) .insufficientLiquid
  let pendingWithdrawAmount ← okOr (Checked.add 64 p.pendingWithdrawAmount amount) .mathOverflow
  -- Zero stands for "no exit requested": only then is the epoch written.
  let exitRequestedEpoch := if p.exitRequestedEpoch = 0 then currentEpoch st.config clock
    else p.exitRequestedEpoch
  pure (st.setPosition staker.key { p with pendingWithdrawAmount, exitRequestedEpoch })

/-- `finalize_withdraw`, with the amount it pays. -/
def finalizeWithdraw (dep : Deployment) (clock : Clock) (st : State) (staker : Signer)
    (vault stakerAta : Pubkey) : Result StakeGovError (State × Nat) := do
  let p ← ownPosition st staker
  require (p.exitRequestedEpoch ≠ 0) .exitNotRequested
  let unlockEpoch ← okOr (Checked.add 64 p.exitRequestedEpoch st.config.exitCooldownEpochs)
    .mathOverflow
  require (unlockEpoch ≤ currentEpoch st.config clock) .exitCooldown
  let amount := p.pendingWithdrawAmount
  require (0 < amount) .invalidAmount
  validateTokenAccountMintOwner st.tokens stakerAta st.config.stakeMint staker.key
  validateTokenAccountMintOwner st.tokens vault st.config.stakeMint dep.vaultAuthority
  require (vault = st.config.vault) .invalidVault
  let tokens ← st.tokens.transfer vault stakerAta dep.vaultAuthority amount
  let stakedAmount ← okOr (Checked.sub p.stakedAmount amount) .mathOverflow
  pure ({ st with tokens }.setPosition staker.key
    { p with stakedAmount, pendingWithdrawAmount := 0, exitRequestedEpoch := 0 }, amount)

def setDelegate (clock : Clock) (st : State) (staker : Signer) (delegate : Pubkey) :
    Result StakeGovError State := do
  let p ← ownPosition st staker
  if delegate = Pubkey.default then
    pure (st.setPosition staker.key { p with delegatedTo := Pubkey.default })
  else do
    let v ← okOr (st.verifiers.find? fun v => v.verifier = delegate) .verifierNotFound
    require (v.active = true) .verifierNotActive
    require (v.jailedUntilEpoch ≤ currentEpoch st.config clock) .verifierJailed
    pure (st.setPosition staker.key { p with delegatedTo := delegate })

def setDelegationSlashable (st : State) (staker : Signer) (delegationSlashable : Bool) :
    Result StakeGovError State := do
  let p ← ownPosition st staker
  pure (st.setPosition staker.key { p with delegationSlashable })

def submitSnapshot (clock : Clock) (st : State) (submitter : Signer) (epochId : Nat) (root : Hash)
    (totalWeight : Nat) : Result StakeGovError State := do
  vacant (st.snapshot epochId)
  require (submitter.key ∈ st.config.snapshotSubmitters) .unauthorized
  let s : StakeSnapshot := ⟨epochId, root, totalWeight, clock.slot, submitter.key⟩
  pure { st with snapshot := Function.update st.snapshot epochId (some s) }

/-- The part of a slash that liquid stake does not cover is taken from the locked stake; a lock
without stake ends. -/
def slashLocked (p : StakePosition) (amountSlashed : Nat) : StakePosition :=
  let liquidTotal := p.stakedAmount - p.lockedAmount
  let remaining := amountSlashed - min liquidTotal amountSlashed
  if 0 < remaining then
    let lockedAmount := p.lockedAmount - min p.lockedAmount remaining
    if lockedAmount = 0 then
      { p with lockedAmount := 0, lockEndEpoch := 0, lockMultiplierBps := bpsDenom }
    else { p with lockedAmount }
  else p

/-- A pending withdrawal is shrunk to the liquid stake. -/
def shrinkPending (p : StakePosition) : StakePosition :=
  let maxPending := p.stakedAmount - p.lockedAmount
  if maxPending < p.pendingWithdrawAmount then
    { p with
      pendingWithdrawAmount := maxPending
      exitRequestedEpoch := if maxPending = 0 then 0 else p.exitRequestedEpoch }
  else p

/-- What `apply_slash` makes of the stake of a position. -/
def slashStake (p : StakePosition) (amountSlashed : Nat) : StakePosition :=
  if 0 < amountSlashed then
    let p := slashLocked p amountSlashed
    shrinkPending { p with stakedAmount := p.stakedAmount - amountSlashed }
  else p

/-- The registry after the jailing of an offender that is a verifier. -/
def jail (verifiers : List VerifierInfo) (offender : Pubkey) (jailUntil : Option Nat) :
    Result StakeGovError (List VerifierInfo) :=
  match findIndex verifiers offender with
  | some idx => do
    let jailUntil ← okOr jailUntil .mathOverflow
    pure (verifiers.modify idx fun v => { v with jailedUntilEpoch := max v.jailedUntilEpoch jailUntil })
  | none => pure verifiers

def applySlash (clock : Clock) (st : State) (slasher : Signer) (offender : Pubkey)
    (epochId slashBps : Nat) (reasonHash evidenceRef : Hash) : Result StakeGovError State := do
  vacant (st.slashRecord epochId offender reasonHash)
  let p ← load (st.position offender)
  require (slasher.key ∈ st.config.slashAuthorities) .unauthorized
  require (slashBps ≤ st.config.maxSlashBpsPerEvent) .slashTooLarge
  let epoch := currentEpoch st.config clock
  require (epoch ≤ Checked.satAdd 64 epochId st.config.disputeWindowEpochs)
    .slashOutsideDisputeWindow
  require (p.owner = offender) .invalidOffenderPosition
  let amountSlashed ← mulBps p.stakedAmount slashBps
  let verifiers ← jail st.verifiers offender
    (Checked.add 64 epoch st.config.jailEpochsAfterSlash)
  let record : SlashRecord :=
    ⟨epochId, offender, slashBps, amountSlashed, reasonHash, evidenceRef, clock.slot, slasher.key⟩
  pure (({ st with verifiers }.setPosition offender
    { slashStake p amountSlashed with lastSlashEpoch := epoch }).setSlashRecord record)

/-- A transfer of tokens outside the program. -/
def splTransfer (st : State) (authority : Signer) (src dst : Pubkey) (amount : Nat) :
    Result StakeGovError State := do
  let tokens ← st.tokens.transfer src dst authority.key amount
  pure { st with tokens }

/-- The instructions, with the accounts and arguments they are called with. -/
inductive Instr where
  | registerVerifier (authority : Signer) (verifier : Pubkey) (commissionBps : Nat)
  | setVerifierActive (authority : Signer) (verifier : Pubkey) (active : Bool)
  | initStakePosition (staker : Signer)
  | stake (staker : Signer) (vault stakerAta : Pubkey) (amount : Nat)
  | lock (staker : Signer) (amount lockEpochs : Nat)
  | unlockExpired (staker : Signer)
  | requestExit (staker : Signer) (amount : Nat)
  | finalizeWithdraw (staker : Signer) (vault stakerAta : Pubkey)
  | setDelegate (staker : Signer) (delegate : Pubkey)
  | setDelegationSlashable (staker : Signer) (delegationSlashable : Bool)
  | submitSnapshot (submitter : Signer) (epochId : Nat) (root : Hash) (totalWeight : Nat)
  | applySlash (slasher : Signer) (offender : Pubkey) (epochId slashBps : Nat)
      (reasonHash evidenceRef : Hash)
  | splTransfer (authority : Signer) (src dst : Pubkey) (amount : Nat)

/-- The account that signs an instruction. -/
def Instr.signer : Instr → Signer
  | .registerVerifier a _ _ | .setVerifierActive a _ _ | .splTransfer a _ _ _ => a
  | .initStakePosition s | .stake s _ _ _ | .lock s _ _ | .unlockExpired s | .requestExit s _
  | .finalizeWithdraw s _ _ | .setDelegate s _ | .setDelegationSlashable s _
  | .submitSnapshot s _ _ _ | .applySlash s _ _ _ _ _ => s

/-- An instruction, answered by the amount that `finalize_withdraw` pays. -/
def execute (dep : Deployment) (clock : Clock) (st : State) :
    Instr → Result StakeGovError (State × Nat)
  | .registerVerifier a v c => (·, 0) <$> registerVerifier st a v c
  | .setVerifierActive a v b => (·, 0) <$> setVerifierActive st a v b
  | .initStakePosition s => (·, 0) <$> initStakePosition st s
  | .stake s vault ata n => (·, 0) <$> stake dep st s vault ata n
  | .lock s n e => (·, 0) <$> lock clock st s n e
  | .unlockExpired s => (·, 0) <$> unlockExpired clock st s
  | .requestExit s n => (·, 0) <$> requestExit clock st s n
  | .finalizeWithdraw s vault ata => finalizeWithdraw dep clock st s vault ata
  | .setDelegate s d => (·, 0) <$> setDelegate clock st s d
  | .setDelegationSlashable s b => (·, 0) <$> setDelegationSlashable st s b
  | .submitSnapshot s e root w => (·, 0) <$> submitSnapshot clock st s e root w
  | .applySlash s o e bps r ev => (·, 0) <$> applySlash clock st s o e bps r ev
  | .splTransfer a src dst n => (·, 0) <$> splTransfer st a src dst n

/-- A transaction of one instruction. Nobody signs for the vault authority, which is a PDA. -/
def process (dep : Deployment) (clock : Clock) (st : State) (i : Instr) :
    Result StakeGovError (State × Nat) := do
  demand (i.signer.key ≠ dep.vaultAuthority) .unsigned
  execute dep clock st i

/-- One action on the chain. -/
abbrev step (dep : Deployment) : Chain State → Action Instr →
    Chain State × Option (Result StakeGovError Nat) :=
  chainStep (process dep)

/-- The accounts after `init_config`. -/
def State.genesis (config : StakeGovConfig) (tokens : Tokens) : State where
  config := config
  verifiers := []
  position := fun _ => none
  snapshot := fun _ => none
  slashRecord := fun _ _ _ => none
  tokens := tokens

end Ddns.StakeGov
