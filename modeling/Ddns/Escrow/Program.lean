import Ddns.Solana.Keys

/-!
# The escrow program

Users deposit toll tokens into a vault of their own, and signed vouchers redeem them for the domain
owner, the miners and the treasury (`ddns_escrow`). A user escrow is addressed by `["escrow",
user]`, a domain owner by `["domain_owner", name_hash]`, and the record of a redemption by
`["redeemed", payer, redeem_seed]`. The rent that payers put into new accounts is left out. A
definition without a docstring is the item of the source with the same words in its name.
-/

namespace Ddns.Escrow

open Tx

inductive EscrowError where
  | invalidBpsSum
  | allowlistTooLarge
  | invalidMint
  | invalidVaultMint
  | invalidVaultAccount
  | invalidVaultOwner
  | unauthorized
  | invalidAmount
  | invalidPayoutAccount
  | invalidVoucherBytes
  | invalidVoucherVersion
  | invalidVoucherType
  | invalidPayer
  | invalidDomainOwner
  | voucherNotYetValid
  | voucherExpired
  | missingEd25519Ix
  | invalidEd25519Ix
  | unauthorizedSigner
  | signatureMismatch
  | invalidNonceSeed
  | invalidRedeemSeed
  | mathOverflow
  deriving DecidableEq, Repr

def maxAllowlistedSigners : Nat := 16

/-- `VOUCHER_DOMAIN_SEP`, the bytes of `DDNS_VOUCHER_V1`. -/
def voucherDomainSep : List UInt8 :=
  [68, 68, 78, 83, 95, 86, 79, 85, 67, 72, 69, 82, 95, 86, 49]

/-! ## Accounts -/

/-- `EscrowConfig`, with the sum that `init_config` checks. No instruction changes it. -/
structure EscrowConfig where
  authority : Pubkey
  tollMint : Pubkey
  allowlistedSigners : List Pubkey
  domainBps : Nat
  minersBps : Nat
  treasuryBps : Nat
  minersVault : Pubkey
  treasuryVault : Pubkey
  bps_sum : domainBps + minersBps + treasuryBps = bpsDenom

structure UserEscrow where
  owner : Pubkey
  vault : Pubkey
  deriving DecidableEq, Repr

structure DomainOwner where
  nameHash : Hash
  ownerWallet : Pubkey
  payoutTokenAccount : Pubkey
  deriving DecidableEq, Repr

structure RedeemedVoucher where
  payer : Pubkey
  nonce : Nat
  redeemedAtSlot : Nat
  deriving DecidableEq, Repr

structure State where
  config : EscrowConfig
  userEscrow : Pubkey → Option UserEscrow
  domainOwner : Hash → Option DomainOwner
  redeemed : Pubkey → Hash → Option RedeemedVoucher
  mints : Mints
  tokens : Tokens

/-- What the program is deployed with: SHA-256, the Ed25519 program, the keys that can sign a
transaction, and the addresses of the user escrows. The escrows of two users have two addresses,
and nobody signs for an escrow. -/
structure Deployment where
  sha256 : List UInt8 → Hash
  ed25519Program : Pubkey
  canSign : Pubkey → Bool
  escrowKey : Pubkey → Pubkey
  escrowKey_inj : ∀ p q, canSign p = true → canSign q = true → escrowKey p = escrowKey q → p = q
  escrowKey_canSign : ∀ p, canSign (escrowKey p) = false

/-- The event `TollPaid`. -/
structure TollPaid where
  payer : Pubkey
  nameHash : Hash
  amount : Nat
  domainAmt : Nat
  minersAmt : Nat
  treasuryAmt : Nat
  nonce : Nat
  contextHash : Hash
  signer : Pubkey
  slot : Nat
  deriving DecidableEq, Repr

/-! ## Vouchers -/

structure VoucherV1 where
  version : Nat
  voucherType : Nat
  payer : Pubkey
  nameHash : Hash
  amount : Nat
  mint : Pubkey
  nonce : Nat
  validAfterSlot : Nat
  expiresAtSlot : Nat
  contextHash : Hash
  deriving DecidableEq, Repr

/-- `VoucherV1::try_from_slice`: the fields in order, and no byte more or less. -/
def VoucherV1.tryFromSlice (bs : List UInt8) : Option VoucherV1 :=
  if bs.length = 162 then
    some {
      version := Bytes.leNat (Bytes.slice bs 0 1)
      voucherType := Bytes.leNat (Bytes.slice bs 1 1)
      payer := ofBytes (Bytes.slice bs 2 32)
      nameHash := ofBytes (Bytes.slice bs 34 32)
      amount := Bytes.leNat (Bytes.slice bs 66 8)
      mint := ofBytes (Bytes.slice bs 74 32)
      nonce := Bytes.leNat (Bytes.slice bs 106 8)
      validAfterSlot := Bytes.leNat (Bytes.slice bs 114 8)
      expiresAtSlot := Bytes.leNat (Bytes.slice bs 122 8)
      contextHash := ofBytes (Bytes.slice bs 130 32) }
  else none

def hashVoucherMessage (dep : Deployment) (voucherBytes : List UInt8) : Hash :=
  dep.sha256 (voucherDomainSep ++ voucherBytes)

def expectedRedeemSeed (dep : Deployment) (payer : Pubkey) (nonce : Nat) : Hash :=
  dep.sha256 (toBytes payer ++ Bytes.toLe 8 nonce)

def mulBps (amount bps : Nat) : Result EscrowError Nat := do
  let product ← okOr (Checked.mul 128 amount bps) .mathOverflow
  pure (Checked.cast 64 (product / bpsDenom))

/-! ## The Ed25519 instructions before the current one -/

/-- An instruction of the transaction, as the instructions sysvar shows it. -/
structure TxInstruction where
  programId : Pubkey
  data : List UInt8
  deriving DecidableEq, Repr

/-- `read_u16` at an index of the data. -/
def readU16 (data : List UInt8) (idx : Nat) : Nat := Bytes.leNat (Bytes.slice data idx 2)

/-- `u16::MAX`: the data is in the same instruction. -/
def u16Max : Nat := 2 ^ 16 - 1

/-- The key, signature and message that the first entry of an Ed25519 instruction points at. -/
def parseEd25519Ix (data : List UInt8) :
    Result EscrowError (Pubkey × List UInt8 × List UInt8) := do
  require (2 ≤ data.length) .invalidEd25519Ix
  require (1 ≤ Bytes.leNat (Bytes.slice data 0 1)) .invalidEd25519Ix
  require (16 ≤ data.length) .invalidEd25519Ix
  let signatureOffset := readU16 data 2
  let pubkeyOffset := readU16 data 6
  let msgOffset := readU16 data 10
  let msgSize := readU16 data 12
  require (readU16 data 4 = u16Max ∧ readU16 data 8 = u16Max ∧ readU16 data 14 = u16Max)
    .invalidEd25519Ix
  require (pubkeyOffset + 32 ≤ data.length) .invalidEd25519Ix
  require (signatureOffset + 64 ≤ data.length) .invalidEd25519Ix
  require (msgOffset + msgSize ≤ data.length) .invalidEd25519Ix
  pure (ofBytes (Bytes.slice data pubkeyOffset 32), Bytes.slice data signatureOffset 64,
    Bytes.slice data msgOffset msgSize)

/-- The scan of the prior instructions for a verification of `expectedMessage`. -/
def findEd25519Verification (dep : Deployment) (expectedMessage : Hash) :
    List TxInstruction → Result EscrowError (Pubkey × List UInt8)
  | [] => .error (.custom .missingEd25519Ix)
  | ix :: ixs =>
    if ix.programId ≠ dep.ed25519Program then
      findEd25519Verification dep expectedMessage ixs
    else
      match parseEd25519Ix ix.data with
      | .error e => .error e
      | .ok (pk, sig, msg) =>
        if msg = toBytes expectedMessage then .ok (pk, sig)
        else findEd25519Verification dep expectedMessage ixs

/-! ## Instructions -/

/-- The checks of `init_config` and the config that it writes. -/
def initConfig (mints : Mints) (tokens : Tokens)
    (authority tollMint minersVault treasuryVault : Pubkey)
    (domainBps minersBps treasuryBps : Nat) (allowlistedSigners : List Pubkey) :
    Result EscrowError EscrowConfig :=
  if hsum : domainBps + minersBps + treasuryBps = bpsDenom then do
    require (allowlistedSigners.length ≤ maxAllowlistedSigners) .allowlistTooLarge
    let _ ← load (mints tollMint)
    let minersState ← load (tokens minersVault)
    let treasuryState ← load (tokens treasuryVault)
    require (minersState.mint = tollMint) .invalidVaultMint
    require (treasuryState.mint = tollMint) .invalidVaultMint
    pure { authority, tollMint, allowlistedSigners, domainBps, minersBps, treasuryBps, minersVault,
           treasuryVault, bps_sum := hsum }
  else .error (.custom .invalidBpsSum)

def initUserEscrow (dep : Deployment) (st : State) (user : Signer) (vault tollMint : Pubkey) :
    Result EscrowError State := do
  demand (dep.canSign user.key = true) .unsigned
  vacant (st.userEscrow user.key)
  require (tollMint = st.config.tollMint) .invalidMint
  let _ ← load (st.mints tollMint)
  let vaultState ← load (st.tokens vault)
  require (vaultState.mint = st.config.tollMint) .invalidMint
  require (vaultState.owner = dep.escrowKey user.key) .invalidVaultOwner
  let escrow : UserEscrow := ⟨user.key, vault⟩
  pure { st with userEscrow := Function.update st.userEscrow user.key (some escrow) }

/-- A transfer that a wallet signs. -/
def walletTransfer (dep : Deployment) (tokens : Tokens) (src dst : Pubkey) (authority : Signer)
    (amount : Nat) : Result EscrowError Tokens := do
  demand (dep.canSign authority.key = true) .unsigned
  tokens.transfer src dst authority.key amount

def deposit (dep : Deployment) (st : State) (user : Signer) (userAta vault : Pubkey)
    (amount : Nat) : Result EscrowError State := do
  let escrow ← load (st.userEscrow user.key)
  require (0 < amount) .invalidAmount
  require (escrow.owner = user.key) .unauthorized
  require (escrow.vault = vault) .invalidVaultAccount
  let userAtaState ← load (st.tokens userAta)
  let vaultState ← load (st.tokens vault)
  require (userAtaState.mint = st.config.tollMint) .invalidMint
  require (vaultState.mint = st.config.tollMint) .invalidMint
  let tokens ← walletTransfer dep st.tokens userAta vault user amount
  pure { st with tokens }

def registerDomainOwner (dep : Deployment) (st : State) (owner : Signer) (nameHash : Hash)
    (ownerWallet payoutTokenAccount : Pubkey) : Result EscrowError State := do
  demand (dep.canSign owner.key = true) .unsigned
  vacant (st.domainOwner nameHash)
  require (owner.key = ownerWallet) .unauthorized
  let payout ← load (st.tokens payoutTokenAccount)
  require (payout.mint = st.config.tollMint) .invalidMint
  let d : DomainOwner := ⟨nameHash, ownerWallet, payoutTokenAccount⟩
  pure { st with domainOwner := Function.update st.domainOwner nameHash (some d) }

/-- The shares of the domain owner, the miners and the treasury; the last is what is left. -/
def splitAmounts (cfg : EscrowConfig) (amount : Nat) : Result EscrowError (Nat × Nat × Nat) := do
  let domainAmt ← mulBps amount cfg.domainBps
  let minersAmt ← mulBps amount cfg.minersBps
  let treasuryAmt ← okOr ((Checked.sub amount domainAmt).bind (Checked.sub · minersAmt)) .mathOverflow
  pure (domainAmt, minersAmt, treasuryAmt)

/-- A share that is not zero is transferred. -/
def payShare (tokens : Tokens) (src dst authority : Pubkey) (amount : Nat) :
    Result EscrowError Tokens :=
  if 0 < amount then tokens.transfer src dst authority amount else pure tokens

/-- `redeem_toll_voucher` for the domain owner of `domain`; `priorIxs` are the instructions before
it in its transaction. -/
def redeemTollVoucher (dep : Deployment) (clock : Clock) (st : State)
    (voucherPayer payerVault : Pubkey) (domain : Hash) (priorIxs : List TxInstruction)
    (voucherBytes signature : List UInt8) (nonce : Nat) (redeemSeed : Hash) :
    Result EscrowError (State × TollPaid) := do
  let cfg := st.config
  let escrow ← load (st.userEscrow voucherPayer)
  let d ← load (st.domainOwner domain)
  demand (d.nameHash = domain) .constraint
  vacant (st.redeemed voucherPayer redeemSeed)
  let voucher ← okOr (VoucherV1.tryFromSlice voucherBytes) .invalidVoucherBytes
  require (voucher.version = 1) .invalidVoucherVersion
  require (voucher.voucherType = 0) .invalidVoucherType
  require (voucher.mint = cfg.tollMint) .invalidMint
  require (voucher.payer = voucherPayer) .invalidPayer
  require (escrow.owner = voucher.payer) .invalidPayer
  require (escrow.vault = payerVault) .invalidVaultAccount
  require (d.nameHash = voucher.nameHash) .invalidDomainOwner
  require (voucher.validAfterSlot ≤ clock.slot) .voucherNotYetValid
  require (clock.slot ≤ voucher.expiresAtSlot) .voucherExpired
  require (0 < voucher.amount) .invalidAmount
  let payerVaultState ← load (st.tokens payerVault)
  require (payerVaultState.mint = cfg.tollMint) .invalidMint
  require (payerVaultState.owner = dep.escrowKey voucherPayer) .invalidVaultOwner
  let domainState ← load (st.tokens d.payoutTokenAccount)
  require (domainState.mint = cfg.tollMint) .invalidMint
  let minersState ← load (st.tokens cfg.minersVault)
  require (minersState.mint = cfg.tollMint) .invalidMint
  let treasuryState ← load (st.tokens cfg.treasuryVault)
  require (treasuryState.mint = cfg.tollMint) .invalidMint
  require (nonce = voucher.nonce) .invalidNonceSeed
  require (redeemSeed = expectedRedeemSeed dep voucher.payer nonce) .invalidRedeemSeed
  let (signerPubkey, ixSig) ← findEd25519Verification dep (hashVoucherMessage dep voucherBytes)
    priorIxs
  require (ixSig = signature) .signatureMismatch
  require (signerPubkey ∈ cfg.allowlistedSigners) .unauthorizedSigner
  let (domainAmt, minersAmt, treasuryAmt) ← splitAmounts cfg voucher.amount
  let authority := dep.escrowKey voucherPayer
  let tokens ← payShare st.tokens payerVault d.payoutTokenAccount authority domainAmt
  let tokens ← payShare tokens payerVault cfg.minersVault authority minersAmt
  let tokens ← payShare tokens payerVault cfg.treasuryVault authority treasuryAmt
  let redeemed : RedeemedVoucher := ⟨voucher.payer, voucher.nonce, clock.slot⟩
  pure ({ st with
    redeemed := Function.update st.redeemed voucherPayer
      (Function.update (st.redeemed voucherPayer) redeemSeed (some redeemed))
    tokens }, {
      payer := voucher.payer
      nameHash := voucher.nameHash
      amount := voucher.amount
      domainAmt, minersAmt, treasuryAmt
      nonce := voucher.nonce
      contextHash := voucher.contextHash
      signer := signerPubkey
      slot := clock.slot })

/-- A transfer of tokens outside the program. -/
def splTransfer (dep : Deployment) (st : State) (authority : Signer) (src dst : Pubkey)
    (amount : Nat) : Result EscrowError State := do
  let tokens ← walletTransfer dep st.tokens src dst authority amount
  pure { st with tokens }

/-- The creation of a token account, by anybody and for any owner. -/
def openTokenAccount (st : State) (account mint owner : Pubkey) : Result EscrowError State := do
  vacant (st.tokens account)
  let _ ← load (st.mints mint)
  pure { st with tokens := Function.update st.tokens account (some ⟨mint, owner, 0⟩) }

/-- The instructions, with the accounts and arguments they are called with. -/
inductive Instr where
  | initUserEscrow (user : Signer) (vault tollMint : Pubkey)
  | deposit (user : Signer) (userAta vault : Pubkey) (amount : Nat)
  | registerDomainOwner (owner : Signer) (nameHash : Hash) (ownerWallet payoutTokenAccount : Pubkey)
  | redeemTollVoucher (voucherPayer payerVault : Pubkey) (domain : Hash)
      (priorIxs : List TxInstruction) (voucherBytes signature : List UInt8) (nonce : Nat)
      (redeemSeed : Hash)
  | splTransfer (authority : Signer) (src dst : Pubkey) (amount : Nat)
  | openTokenAccount (account mint owner : Pubkey)

/-- A transaction of one instruction, answered by the event of a redemption. -/
def process (dep : Deployment) (clock : Clock) (st : State) :
    Instr → Result EscrowError (State × Option TollPaid)
  | .initUserEscrow u v m => (·, none) <$> initUserEscrow dep st u v m
  | .deposit u ata v n => (·, none) <$> deposit dep st u ata v n
  | .registerDomainOwner o n w p => (·, none) <$> registerDomainOwner dep st o n w p
  | .redeemTollVoucher p v d ixs bs sig nonce seed =>
    (fun r => (r.1, some r.2)) <$> redeemTollVoucher dep clock st p v d ixs bs sig nonce seed
  | .splTransfer a src dst n => (·, none) <$> splTransfer dep st a src dst n
  | .openTokenAccount a m o => (·, none) <$> openTokenAccount st a m o

/-- One action on the chain. -/
abbrev step (dep : Deployment) : Chain State → Action Instr →
    Chain State × Option (Result EscrowError (Option TollPaid)) :=
  chainStep (process dep)

/-- The accounts after `init_config`: no escrow, no domain owner and no redemption. -/
def State.genesis (config : EscrowConfig) (mints : Mints) (tokens : Tokens) : State where
  config := config
  userEscrow := fun _ => none
  domainOwner := fun _ => none
  redeemed := fun _ _ => none
  mints := mints
  tokens := tokens

end Ddns.Escrow
