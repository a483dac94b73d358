import Ddns.Names.Text

/-!
# The domain rewards program

The owner of a domain proves control of it and gets a claim (`ddns_rewards`); tolls that name the
domain share with the claim, and a verifier's usage report of an epoch pays a bonus from the
treasury. A claim is addressed by `["domain", domain_hash]`, a challenge by `["challenge",
domain_hash, nonce]` and a usage report by `["usage", domain_hash, epoch_id]`. The rent of the
accounts is left out. A definition without a docstring is the item of the source with the same
words in its name.
-/

namespace Ddns.Rewards

open Tx
open Names (Text trim toAsciiLowercase len asBytes)

inductive RewardsError where
  | unauthorized
  | tooManyVerifiers
  | notVerifier
  | badBps
  | badEpochLen
  | overflow
  | badAmount
  | belowMinToll
  | badFqdn
  | domainHashMismatch
  | challengeExpired
  | challengeMismatch
  | ownerMismatch
  | claimNotVerified
  | claimRevoked
  | badClaimStatus
  | payoutAtaMismatch
  | wrongEpoch
  | notEnoughUniqueWallets
  | nothingToClaim
  | alreadyRewarded
  | rewardsDisabled
  | badMint
  | badPayerAtaOwner
  | badTreasuryVault
  | badTreasuryVaultOwner
  | treasuryAuthorityAlreadyExists
  | treasuryVaultAlreadyExists
  | badMintOwner
  | badTokenAccountOwner
  | badTokenAccountData
  deriving DecidableEq, Repr

def maxVerifiers : Nat := 64

/-! ## Accounts -/

/-- The nonce of a challenge, 16 bytes. -/
abbrev Nonce := BitVec 128

/-- The part of `RewardsConfig` that `update_rewards_config` sets. -/
structure ConfigParams where
  domainShareBps : Nat
  epochRewardBps : Nat
  minTollAmount : Nat
  epochLenSlots : Nat
  maxRewardPerEpochPerDomain : Nat
  minUniqueWallets : Nat
  challengeTtlSlots : Nat
  enabled : Bool
  verifiers : List Pubkey
  deriving DecidableEq, Repr

/-- `RewardsConfig`, with the bounds that both its writers check. -/
structure RewardsConfig extends ConfigParams where
  authority : Pubkey
  tollMint : Pubkey
  treasuryVault : Pubkey
  epochLen_pos : 0 < epochLenSlots
  domainShare_le : domainShareBps ≤ 10000
  epochReward_le : epochRewardBps ≤ 10000

inductive DomainClaimStatus where
  | unverified
  | verified
  | revoked
  deriving DecidableEq, Repr

structure DomainClaim where
  domainHash : Hash
  fqdnLen : Nat
  fqdnBytes : List UInt8
  ownerWallet : Pubkey
  payoutTokenAccount : Pubkey
  status : DomainClaimStatus
  verifiedAtSlot : Nat
  deriving DecidableEq, Repr

/-- A freshly initialised `DomainClaim` account. -/
def DomainClaim.zero : DomainClaim :=
  ⟨0, 0, List.replicate 253 0, Pubkey.default, Pubkey.default, .unverified, 0⟩

structure DomainChallenge where
  domainHash : Hash
  ownerWallet : Pubkey
  nonce : Nonce
  expiresAtSlot : Nat
  deriving DecidableEq, Repr

structure DomainUsageEpoch where
  domainHash : Hash
  epochId : Nat
  paidTollAmount : Nat
  queryCount : Nat
  uniqueWalletCount : Nat
  aggregateRoot : Hash
  submittedBy : Pubkey
  submittedAtSlot : Nat
  rewardedAmount : Nat
  rewardedAtSlot : Nat
  deriving DecidableEq, Repr

structure State where
  config : RewardsConfig
  challenge : Hash → Nonce → Option DomainChallenge
  claim : Hash → Option DomainClaim
  usage : Hash → Nat → Option DomainUsageEpoch
  tokens : Tokens

/-- What the program is deployed with: SHA-256, the keys that can sign a transaction, and the
treasury authority PDA, which cannot. -/
structure Deployment where
  sha256 : List UInt8 → Hash
  canSign : Pubkey → Bool
  treasuryAuthority : Pubkey
  treasuryAuthority_canSign : canSign treasuryAuthority = false

/-! ## Helpers -/

def epochIdFromSlot (slot epochLenSlots : Nat) : Result RewardsError Nat := do
  require (0 < epochLenSlots) .badEpochLen
  pure (slot / epochLenSlots)

def requireIsVerifier (cfg : RewardsConfig) (key : Pubkey) : Result RewardsError Unit :=
  require (key ∈ cfg.verifiers) .notVerifier

/-- The string without one trailing dot. -/
def popDot (s : Text) : Text :=
  if s.getLast? = some '.' then s.dropLast else s

def normalizeFqdn (fqdn : Text) : Result RewardsError Text := do
  let s := toAsciiLowercase (popDot (trim fqdn))
  require (s ≠ []) .badFqdn
  require (len s ≤ 253) .badFqdn
  pure s

def computeDomainHash (dep : Deployment) (fqdn : Text) : Result RewardsError Hash := do
  let normalized ← normalizeFqdn fqdn
  pure (dep.sha256 (asBytes normalized))

/-- `write_fqdn_bytes`: the 253 bytes and the length. -/
def writeFqdnBytes (fqdn : Text) : Result RewardsError (List UInt8 × Nat) := do
  let normalized ← normalizeFqdn fqdn
  let b := asBytes normalized
  require (b.length ≤ 253) .badFqdn
  pure (b ++ List.replicate (253 - b.length) 0, Checked.cast 8 b.length)

/-- The treasury vault of the config, as every instruction that names it checks it. -/
def checkTreasuryVault (dep : Deployment) (st : State) (treasuryVault : Pubkey) :
    Result RewardsError Unit := do
  let vaultAta ← load (st.tokens treasuryVault)
  require (vaultAta.mint = st.config.tollMint) .badMint
  require (vaultAta.owner = dep.treasuryAuthority) .badTreasuryVaultOwner

/-- The token account that a signer pays with. -/
def checkPayerAta (st : State) (ata : Pubkey) (payer : Signer) : Result RewardsError Unit := do
  let payerAta ← load (st.tokens ata)
  require (payerAta.mint = st.config.tollMint) .badMint
  require (payerAta.owner = payer.key) .badPayerAtaOwner

/-- `amount * bps / 10_000`, computed in `u128`. -/
def bpsOf (amount bps : Nat) : Result RewardsError Nat := do
  let product ← okOr (Checked.mul 128 amount bps) .overflow
  pure (Checked.cast 64 (product / 10000))

/-- A part of a toll that is not zero is transferred. -/
def payPart (tokens : Tokens) (src dst authority : Pubkey) (amount : Nat) :
    Result RewardsError Tokens :=
  if 0 < amount then tokens.transfer src dst authority amount else pure tokens

/-- Write a challenge account, or close it. -/
def State.setChallenge (st : State) (h : Hash) (n : Nonce) (ch : Option DomainChallenge) : State :=
  { st with
    challenge := Function.update st.challenge h (Function.update (st.challenge h) n ch) }

/-- Write a claim account. -/
def State.setClaim (st : State) (h : Hash) (claim : DomainClaim) : State :=
  { st with claim := Function.update st.claim h (some claim) }

/-- Write a usage account. -/
def State.setUsage (st : State) (h : Hash) (e : Nat) (u : DomainUsageEpoch) : State :=
  { st with usage := Function.update st.usage h (Function.update (st.usage h) e (some u)) }

/-! ## Instructions -/

def updateRewardsConfig (st : State) (authority : Signer) (p : ConfigParams) :
    Result RewardsError State := do
  demand (st.config.authority = authority.key) .constraint
  if hlen : 0 < p.epochLenSlots then
    if hshare : p.domainShareBps ≤ 10000 then
      if hreward : p.epochRewardBps ≤ 10000 then do
        require (p.verifiers.length ≤ maxVerifiers) .tooManyVerifiers
        let config : RewardsConfig := { st.config with
          toConfigParams := p
          epochLen_pos := hlen
          domainShare_le := hshare
          epochReward_le := hreward }
        pure { st with config }
      else .error (.custom .badBps)
    else .error (.custom .badBps)
  else .error (.custom .badEpochLen)

def startDomainChallenge (dep : Deployment) (clock : Clock) (st : State) (owner : Signer)
    (fqdn : Text) (domainHash : Hash) (nonce : Nonce) : Result RewardsError State := do
  vacant (st.challenge domainHash nonce)
  let want ← computeDomainHash dep fqdn
  require (want = domainHash) .domainHashMismatch
  let expires ← okOr (Checked.add 64 clock.slot st.config.challengeTtlSlots) .overflow
  let ch : DomainChallenge := ⟨domainHash, owner.key, nonce, expires⟩
  pure (st.setChallenge domainHash nonce (some ch))

/-- `claim_domain`, which closes the challenge. -/
def claimDomain (dep : Deployment) (clock : Clock) (st : State) (authority : Signer)
    (ownerWallet : Pubkey) (fqdn : Text) (domainHash : Hash) (nonce : Nonce)
    (payoutTokenAccount : Pubkey) : Result RewardsError State := do
  let ch ← load (st.challenge domainHash nonce)
  let claim := (st.claim domainHash).getD DomainClaim.zero
  let want ← computeDomainHash dep fqdn
  require (want = domainHash) .domainHashMismatch
  require (authority.key = st.config.authority) .unauthorized
  require (clock.slot ≤ ch.expiresAtSlot) .challengeExpired
  require (ch.domainHash = domainHash ∧ ch.nonce = nonce) .challengeMismatch
  require (claim.status = .unverified ∨ claim.status = .verified) .claimRevoked
  require (ch.ownerWallet = ownerWallet) .ownerMismatch
  let (fqdnBytes, fqdnLen) ← writeFqdnBytes fqdn
  let claim : DomainClaim := {
    domainHash := domainHash
    fqdnLen := fqdnLen
    fqdnBytes := fqdnBytes
    ownerWallet := ch.ownerWallet
    payoutTokenAccount := payoutTokenAccount
    status := .verified
    verifiedAtSlot := clock.slot }
  pure ((st.setClaim domainHash claim).setChallenge domainHash nonce none)

/-- `revoke_domain_claim` on the claim at `h`. -/
def revokeDomainClaim (st : State) (owner : Signer) (h : Hash) : Result RewardsError State := do
  let claim ← load (st.claim h)
  demand (claim.domainHash = h) .constraint
  require (claim.ownerWallet = owner.key) .ownerMismatch
  require (claim.status = .verified ∨ claim.status = .unverified) .badClaimStatus
  pure (st.setClaim h { claim with status := .revoked })

def payToll (dep : Deployment) (st : State) (payer : Signer)
    (payerTollAta treasuryVault : Pubkey) (tollAmount : Nat) : Result RewardsError State := do
  require (0 < tollAmount) .badAmount
  require (st.config.minTollAmount ≤ tollAmount) .belowMinToll
  require (treasuryVault = st.config.treasuryVault) .badTreasuryVault
  checkPayerAta st payerTollAta payer
  checkTreasuryVault dep st treasuryVault
  let tokens ← st.tokens.transfer payerTollAta treasuryVault payer.key tollAmount
  pure { st with tokens }

def payTollWithDomain (dep : Deployment) (st : State) (payer : Signer)
    (payerTollAta domainOwnerPayoutAta treasuryVault : Pubkey) (domainHash : Hash)
    (tollAmount : Nat) : Result RewardsError State := do
  let claim ← load (st.claim domainHash)
  require (0 < tollAmount) .badAmount
  require (st.config.minTollAmount ≤ tollAmount) .belowMinToll
  require (claim.domainHash = domainHash) .domainHashMismatch
  require (claim.status = .verified) .claimNotVerified
  require (claim.payoutTokenAccount = domainOwnerPayoutAta) .payoutAtaMismatch
  require (treasuryVault = st.config.treasuryVault) .badTreasuryVault
  checkPayerAta st payerTollAta payer
  let payoutAta ← load (st.tokens domainOwnerPayoutAta)
  require (payoutAta.mint = st.config.tollMint) .badMint
  checkTreasuryVault dep st treasuryVault
  let share ← bpsOf tollAmount st.config.domainShareBps
  let remainder ← okOr (Checked.sub tollAmount share) .overflow
  let tokens ← payPart st.tokens payerTollAta domainOwnerPayoutAta payer.key share
  let tokens ← payPart tokens payerTollAta treasuryVault payer.key remainder
  pure { st with tokens }

def fundTreasury (dep : Deployment) (st : State) (authority : Signer)
    (authorityTollAta treasuryVault : Pubkey) (amount : Nat) : Result RewardsError State := do
  require (0 < amount) .badAmount
  require (authority.key = st.config.authority) .unauthorized
  require (treasuryVault = st.config.treasuryVault) .badTreasuryVault
  checkPayerAta st authorityTollAta authority
  checkTreasuryVault dep st treasuryVault
  let tokens ← st.tokens.transfer authorityTollAta treasuryVault authority.key amount
  pure { st with tokens }

def submitDomainUsage (clock : Clock) (st : State) (submitter : Signer) (epochId : Nat)
    (domainHash : Hash) (queryCount paidTollAmount uniqueWalletCount : Nat)
    (aggregateRoot : Hash) : Result RewardsError State := do
  let claim ← load (st.claim domainHash)
  vacant (st.usage domainHash epochId)
  requireIsVerifier st.config submitter.key
  require (claim.domainHash = domainHash) .domainHashMismatch
  require (claim.status = .verified) .claimNotVerified
  let gotEpoch ← epochIdFromSlot clock.slot st.config.epochLenSlots
  require (gotEpoch = epochId) .wrongEpoch
  let u : DomainUsageEpoch := {
    domainHash := domainHash
    epochId := epochId
    queryCount := queryCount
    paidTollAmount := paidTollAmount
    uniqueWalletCount := uniqueWalletCount
    aggregateRoot := aggregateRoot
    submittedBy := submitter.key
    submittedAtSlot := clock.slot
    rewardedAmount := 0
    rewardedAtSlot := 0 }
  pure (st.setUsage domainHash epochId u)

def claimDomainRewards (dep : Deployment) (clock : Clock) (st : State) (owner : Signer)
    (treasuryVault ownerTollAta : Pubkey) (epochId : Nat) (domainHash : Hash) :
    Result RewardsError State := do
  let cfg := st.config
  let claim ← load (st.claim domainHash)
  let u ← load (st.usage domainHash epochId)
  require (cfg.enabled = true) .rewardsDisabled
  require (claim.domainHash = domainHash) .domainHashMismatch
  require (claim.status = .verified) .claimNotVerified
  require (claim.ownerWallet = owner.key) .ownerMismatch
  require (claim.payoutTokenAccount = ownerTollAta) .payoutAtaMismatch
  checkPayerAta st ownerTollAta owner
  require (u.domainHash = domainHash) .domainHashMismatch
  require (u.epochId = epochId) .wrongEpoch
  require (u.rewardedAmount = 0) .alreadyRewarded
  require (cfg.minTollAmount ≤ u.paidTollAmount) .belowMinToll
  require (cfg.minUniqueWallets ≤ u.uniqueWalletCount) .notEnoughUniqueWallets
  let raw ← bpsOf u.paidTollAmount cfg.epochRewardBps
  let reward := min raw cfg.maxRewardPerEpochPerDomain
  require (0 < reward) .nothingToClaim
  require (treasuryVault = cfg.treasuryVault) .badTreasuryVault
  checkTreasuryVault dep st treasuryVault
  let tokens ← st.tokens.transfer treasuryVault ownerTollAta dep.treasuryAuthority reward
  let u := { u with rewardedAmount := reward, rewardedAtSlot := clock.slot }
  pure ({ st with tokens }.setUsage domainHash epochId u)

/-- A transfer of tokens outside the program. -/
def splTransfer (st : State) (authority : Signer) (src dst : Pubkey) (amount : Nat) :
    Result RewardsError State := do
  let tokens ← st.tokens.transfer src dst authority.key amount
  pure { st with tokens }

/-- The instructions, with the accounts and arguments they are called with. -/
inductive Instr where
  | updateRewardsConfig (authority : Signer) (p : ConfigParams)
  | startDomainChallenge (owner : Signer) (fqdn : Text) (domainHash : Hash) (nonce : Nonce)
  | claimDomain (authority : Signer) (ownerWallet : Pubkey) (fqdn : Text) (domainHash : Hash)
      (nonce : Nonce) (payoutTokenAccount : Pubkey)
  | revokeDomainClaim (owner : Signer) (h : Hash)
  | payToll (payer : Signer) (payerTollAta treasuryVault : Pubkey) (tollAmount : Nat)
  | payTollWithDomain (payer : Signer) (payerTollAta domainOwnerPayoutAta treasuryVault : Pubkey)
      (domainHash : Hash) (tollAmount : Nat)
  | fundTreasury (authority : Signer) (authorityTollAta treasuryVault : Pubkey) (amount : Nat)
  | submitDomainUsage (submitter : Signer) (epochId : Nat) (domainHash : Hash)
      (queryCount paidTollAmount uniqueWalletCount : Nat) (aggregateRoot : Hash)
  | claimDomainRewards (owner : Signer) (treasuryVault ownerTollAta : Pubkey) (epochId : Nat)
      (domainHash : Hash)
  | splTransfer (authority : Signer) (src dst : Pubkey) (amount : Nat)

/-- Who signs an instruction. -/
def Instr.signer : Instr → Signer
  | .updateRewardsConfig s _ => s
  | .startDomainChallenge s _ _ _ => s
  | .claimDomain s _ _ _ _ _ => s
  | .revokeDomainClaim s _ => s
  | .payToll s _ _ _ => s
  | .payTollWithDomain s _ _ _ _ _ => s
  | .fundTreasury s _ _ _ => s
  | .submitDomainUsage s _ _ _ _ _ _ => s
  | .claimDomainRewards s _ _ _ _ => s
  | .splTransfer s _ _ _ => s

/-- The handler of an instruction. -/
def handle (dep : Deployment) (clock : Clock) (st : State) : Instr → Result RewardsError State
  | .updateRewardsConfig s p => updateRewardsConfig st s p
  | .startDomainChallenge s f h n => startDomainChallenge dep clock st s f h n
  | .claimDomain s w f h n payout => claimDomain dep clock st s w f h n payout
  | .revokeDomainClaim s h => revokeDomainClaim st s h
  | .payToll s src vault n => payToll dep st s src vault n
  | .payTollWithDomain s src payout vault h n => payTollWithDomain dep st s src payout vault h n
  | .fundTreasury s src vault n => fundTreasury dep st s src vault n
  | .submitDomainUsage s e h q paid wallets root =>
    submitDomainUsage clock st s e h q paid wallets root
  | .claimDomainRewards s vault ata e h => claimDomainRewards dep clock st s vault ata e h
  | .splTransfer s src dst n => splTransfer st s src dst n

/-- A transaction of one instruction. -/
def process (dep : Deployment) (clock : Clock) (st : State) (i : Instr) :
    Result RewardsError (State × Unit) := do
  demand (dep.canSign i.signer.key = true) .unsigned
  let st ← handle dep clock st i
  pure (st, ())

/-- One action on the chain. -/
abbrev step (dep : Deployment) : Chain State → Action Instr →
    Chain State × Option (Result RewardsError Unit) :=
  chainStep (process dep)

/-- The accounts after `init_rewards_config`, which opens the vault for the treasury authority. -/
def State.genesis (dep : Deployment) (config : RewardsConfig) (tokens : Tokens) : State where
  config := config
  challenge := fun _ _ => none
  claim := fun _ => none
  usage := fun _ _ => none
  tokens := Function.update tokens config.treasuryVault
    (some ⟨config.tollMint, dep.treasuryAuthority, 0⟩)

end Ddns.Rewards
