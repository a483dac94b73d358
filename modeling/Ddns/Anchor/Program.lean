import Ddns.Names.Text
import Ddns.Solana.Keys
import Ddns.Lib.Updates

/-!
# The anchor program

The tollbooth issues toll passes and writes the routes of names, and anybody locks tokens for at
least 30 days (`ddns_anchor`). The lock of an owner is addressed by `["lock", owner]` and the
authority of its vault by `["vault_auth", owner]`; passes, names and routes by `["toll_pass",
owner_wallet]`, `["name", name_hash]` and `["record", owner_wallet, name_hash]`. The rent of the
accounts is left out. A definition without a docstring is the item of the source with the same
words in its name.
-/

namespace Ddns.Anchor

open Tx
open Names (Text trim toAsciiLowercase len asBytes isLabelChar dnsSuffix)

inductive ErrorCode where
  | alreadyInitialized
  | missingBump
  | unauthorized
  | lockTooShort
  | lockNotExpired
  | invalidNameLength
  | invalidNameChars
  | invalidNameHash
  | reservedName
  | invalidMintOwner
  | invalidTokenAccountOwner
  deriving DecidableEq, Repr

/-! ## Accounts -/

structure Config where
  admin : Pubkey
  version : UInt16
  initialized : Bool
  deriving DecidableEq

/-- A freshly initialised `Config` account. -/
def Config.zero : Config := ⟨Pubkey.default, 0, false⟩

structure TollPass where
  owner : Pubkey
  issuedAt : Int
  nameHash : Hash
  ownerMint : Pubkey
  pageCidHash : Hash
  metadataHash : Hash
  initialized : Bool
  deriving DecidableEq

structure TokenLock where
  owner : Pubkey
  mint : Pubkey
  vault : Pubkey
  amount : Nat
  lockedAt : Int
  unlockAt : Int
  initialized : Bool
  deriving DecidableEq

/-- A freshly initialised `TokenLock` account. -/
def TokenLock.zero : TokenLock := ⟨Pubkey.default, Pubkey.default, Pubkey.default, 0, 0, 0, false⟩

structure NameRecord where
  nameHash : Hash
  labelLen : Nat
  labelBytes : List UInt8
  ownerMint : Pubkey
  ownerWallet : Pubkey
  createdAt : Int
  deriving DecidableEq

structure RouteRecord where
  owner : Pubkey
  nameHash : Hash
  destHash : Hash
  ttl : UInt32
  updatedAt : Int
  deriving DecidableEq

/-- The accounts of the program and of the SPL Token program, whose mints may have an authority that
freezes token accounts. -/
structure State where
  config : Option Config
  tollPass : Pubkey → Option TollPass
  nameRecord : Hash → Option NameRecord
  routeRecord : Pubkey → Hash → Option RouteRecord
  lock : Pubkey → Option TokenLock
  mints : Mints
  freezeAuthority : Pubkey → Option Pubkey
  tokens : Tokens
  frozen : Pubkey → Bool

/-- What the program is deployed with: SHA-256, the keys that can sign a transaction, those that
belong to the System program, and the vault authority PDA of each owner, which cannot sign and is
another one for each of those who can. -/
structure Deployment where
  sha256 : List UInt8 → Hash
  canSign : Pubkey → Bool
  systemAccount : Pubkey → Bool
  vaultAuth : Pubkey → Pubkey
  vaultAuth_inj : ∀ o p, canSign o = true → canSign p = true → vaultAuth o = vaultAuth p → o = p
  vaultAuth_canSign : ∀ o, canSign (vaultAuth o) = false

/-- The accounts of `IssueTollPass`. -/
structure IssueTollPass where
  authority : Signer
  ownerWallet : Pubkey
  nftMint : Pubkey
  nftTokenAccount : Pubkey

/-- The accounts of `LockTokens`, and of `UnlockTokens`. -/
structure LockTokens where
  owner : Signer
  mint : Pubkey
  ownerTokenAccount : Pubkey
  vault : Pubkey

/-- Write the lock of an owner. -/
def State.setLock (st : State) (o : Pubkey) (lock : TokenLock) : State :=
  { st with lock := Function.update st.lock o (some lock) }

/-- Whether an account belongs to the SPL Token program. -/
def State.isSplAccount (st : State) (k : Pubkey) : Bool :=
  (st.mints k).isSome || (st.tokens k).isSome

/-- `token::transfer`, which no frozen account takes part in. -/
def State.transfer (st : State) (src dst authority : Pubkey) (n : Nat) :
    Result ErrorCode Tokens := do
  demand (st.frozen src = false ∧ st.frozen dst = false) .constraint
  st.tokens.transfer src dst authority n

/-! ## Names -/

def hashLabelDns (dep : Deployment) (label : Text) : Hash :=
  dep.sha256 (asBytes label ++ asBytes dnsSuffix)

def hashFullName (dep : Deployment) (name : Text) : Hash := dep.sha256 (asBytes name)

def isReserved (name : Text) : Bool :=
  ["fuck", "shit", "cunt", "bitch", "ass"].any fun w => w.toList = name

def validateLabel (label : Text) : Result ErrorCode Unit := do
  require (3 ≤ len label ∧ len label ≤ 32) .invalidNameLength
  require (label.head? ≠ some '-' ∧ label.getLast? ≠ some '-') .invalidNameChars
  require (label.all isLabelChar) .invalidNameChars
  require (isReserved label = false) .reservedName

/-- `write_label`: the 32 bytes and the length. -/
def writeLabel (label : Text) : List UInt8 × Nat :=
  let b := asBytes label
  (b ++ List.replicate (32 - b.length) 0, Checked.cast 8 b.length)

/-! ## Instructions -/

/-- `initialize`. -/
def initializeConfig (st : State) (admin : Signer) (version : UInt16) : Result ErrorCode State := do
  vacant st.config
  require (Config.zero.initialized = false) .alreadyInitialized
  pure { st with config := some ⟨admin.key, version, true⟩ }

def setVersion (st : State) (admin : Signer) (version : UInt16) : Result ErrorCode State := do
  let config ← load st.config
  require (config.admin = admin.key) .unauthorized
  pure { st with config := some { config with version } }

def issueTollPass (dep : Deployment) (clock : Clock) (st : State) (accs : IssueTollPass)
    (label : Text) (nameHash pageCidHash metadataHash : Hash) : Result ErrorCode State := do
  let config ← load st.config
  vacant (st.tollPass accs.ownerWallet)
  vacant (st.nameRecord nameHash)
  demand (dep.systemAccount accs.ownerWallet = true) .constraint
  validateLabel label
  require (hashLabelDns dep label = nameHash) .invalidNameHash
  require (config.admin = accs.authority.key) .unauthorized
  require (st.isSplAccount accs.nftMint = true) .invalidMintOwner
  require (st.isSplAccount accs.nftTokenAccount = true) .invalidTokenAccountOwner
  let mintState ← load (st.mints accs.nftMint)
  require (mintState.mintAuthority = some accs.authority.key) .unauthorized
  require (st.freezeAuthority accs.nftMint = some accs.authority.key) .unauthorized
  let tokenState ← load (st.tokens accs.nftTokenAccount)
  require (tokenState.mint = accs.nftMint) .unauthorized
  require (tokenState.owner = accs.ownerWallet) .unauthorized
  let pass : TollPass := {
    owner := accs.ownerWallet
    issuedAt := clock.unixTimestamp
    nameHash, pageCidHash, metadataHash
    ownerMint := accs.nftMint
    initialized := true }
  let nameRecord : NameRecord := {
    nameHash
    ownerWallet := accs.ownerWallet
    ownerMint := accs.nftMint
    labelBytes := (writeLabel label).1
    labelLen := (writeLabel label).2
    createdAt := clock.unixTimestamp }
  demand (st.frozen accs.nftTokenAccount = false) .constraint
  let (mints, tokens) ←
    mintTo st.mints st.tokens accs.nftMint accs.nftTokenAccount accs.authority.key 1
  pure { st with
    tollPass := Function.update st.tollPass accs.ownerWallet (some pass)
    nameRecord := Function.update st.nameRecord nameHash (some nameRecord)
    frozen := Function.update st.frozen accs.nftTokenAccount true
    mints, tokens }

def lockTokens (clock : Clock) (st : State) (accs : LockTokens) (amount : UInt64)
    (lockDays : UInt16) : Result ErrorCode State := do
  let owner := accs.owner.key
  vacant (st.lock owner)
  require (30 ≤ lockDays.toNat) .lockTooShort
  require (TokenLock.zero.initialized = false) .alreadyInitialized
  require (st.isSplAccount accs.mint = true) .invalidMintOwner
  require (st.isSplAccount accs.ownerTokenAccount = true) .invalidTokenAccountOwner
  require (st.isSplAccount accs.vault = true) .invalidTokenAccountOwner
  let unlockAt := clock.unixTimestamp + (lockDays.toNat * 86400 : Nat)
  demand (unlockAt < 2 ^ 63) .numericOverflow
  let lock : TokenLock := {
    owner
    mint := accs.mint
    vault := accs.vault
    amount := amount.toNat
    lockedAt := clock.unixTimestamp
    unlockAt
    initialized := true }
  let tokens ← st.transfer accs.ownerTokenAccount accs.vault owner amount.toNat
  pure ({ st with tokens }.setLock owner lock)

def unlockTokens (dep : Deployment) (clock : Clock) (st : State) (accs : LockTokens) :
    Result ErrorCode State := do
  let owner := accs.owner.key
  let lock ← load (st.lock owner)
  require (lock.owner = owner) .unauthorized
  require (lock.unlockAt ≤ clock.unixTimestamp) .lockNotExpired
  require (st.isSplAccount accs.mint = true) .invalidMintOwner
  require (st.isSplAccount accs.ownerTokenAccount = true) .invalidTokenAccountOwner
  require (st.isSplAccount accs.vault = true) .invalidTokenAccountOwner
  let tokens ← st.transfer accs.vault accs.ownerTokenAccount (dep.vaultAuth lock.owner) lock.amount
  pure ({ st with tokens }.setLock owner { lock with amount := 0, unlockAt := 0 })

def setRoute (dep : Deployment) (clock : Clock) (st : State) (authority : Signer)
    (ownerWallet : Pubkey) (name : Text) (nameHash destHash : Hash) (ttl : UInt32) :
    Result ErrorCode State := do
  let config ← load st.config
  let nameRecord ← load (st.nameRecord nameHash)
  let tollPass ← load (st.tollPass ownerWallet)
  demand (dep.systemAccount ownerWallet = true) .constraint
  let normalized := toAsciiLowercase (trim name)
  require (dnsSuffix <:+ normalized) .invalidNameChars
  let label := normalized.take (normalized.length - dnsSuffix.length)
  validateLabel label
  require (hashFullName dep normalized = nameHash) .invalidNameHash
  require (config.admin = authority.key) .unauthorized
  require (tollPass.initialized = true) .unauthorized
  require (tollPass.owner = ownerWallet) .unauthorized
  require (nameRecord.ownerWallet = ownerWallet) .unauthorized
  require (nameRecord.ownerMint = tollPass.ownerMint) .unauthorized
  let record : RouteRecord := ⟨ownerWallet, nameHash, destHash, ttl, clock.unixTimestamp⟩
  pure { st with
    routeRecord := Function.update st.routeRecord ownerWallet
      (Function.update (st.routeRecord ownerWallet) nameHash (some record)) }

/-! ## Outside the program -/

/-- A transfer of tokens that a wallet signs. -/
def splTransfer (st : State) (authority : Signer) (src dst : Pubkey) (amount : Nat) :
    Result ErrorCode State := do
  let tokens ← st.transfer src dst authority.key amount
  pure { st with tokens }

/-- The creation of a token account, by anybody and for any owner. -/
def openTokenAccount (st : State) (account mint owner : Pubkey) : Result ErrorCode State := do
  vacant (st.tokens account)
  let _ ← load (st.mints mint)
  pure { st with tokens := Function.update st.tokens account (some ⟨mint, owner, 0⟩) }

/-- The owner of a token account gives it to another one. -/
def setTokenOwner (st : State) (authority : Signer) (account newOwner : Pubkey) :
    Result ErrorCode State := do
  let acc ← load (st.tokens account)
  demand (st.frozen account = false) .constraint
  demand (acc.owner = authority.key) .constraint
  pure { st with
    tokens := Function.update st.tokens account (some { acc with owner := newOwner }) }

/-! ## Runs -/

/-- The instructions, with the accounts and arguments they are called with. -/
inductive Instr where
  | initializeConfig (admin : Signer) (version : UInt16)
  | setVersion (admin : Signer) (version : UInt16)
  | issueTollPass (accs : IssueTollPass) (label : Text) (nameHash pageCidHash metadataHash : Hash)
  | lockTokens (accs : LockTokens) (amount : UInt64) (lockDays : UInt16)
  | unlockTokens (accs : LockTokens)
  | setRoute (authority : Signer) (ownerWallet : Pubkey) (name : Text) (nameHash destHash : Hash)
      (ttl : UInt32)
  | splTransfer (authority : Signer) (src dst : Pubkey) (amount : Nat)
  | openTokenAccount (payer : Signer) (account mint owner : Pubkey)
  | setTokenOwner (authority : Signer) (account newOwner : Pubkey)

/-- Who signs an instruction. -/
def Instr.signer : Instr → Signer
  | .initializeConfig s _ => s
  | .setVersion s _ => s
  | .issueTollPass accs _ _ _ _ => accs.authority
  | .lockTokens accs _ _ => accs.owner
  | .unlockTokens accs => accs.owner
  | .setRoute s _ _ _ _ _ => s
  | .splTransfer s _ _ _ => s
  | .openTokenAccount s _ _ _ => s
  | .setTokenOwner s _ _ => s

/-- The handler of an instruction. -/
def handle (dep : Deployment) (clock : Clock) (st : State) : Instr → Result ErrorCode State
  | .initializeConfig s v => initializeConfig st s v
  | .setVersion s v => setVersion st s v
  | .issueTollPass accs label h page data => issueTollPass dep clock st accs label h page data
  | .lockTokens accs n days => lockTokens clock st accs n days
  | .unlockTokens accs => unlockTokens dep clock st accs
  | .setRoute s o name h dest ttl => setRoute dep clock st s o name h dest ttl
  | .splTransfer s src dst n => splTransfer st s src dst n
  | .openTokenAccount _ a m o => openTokenAccount st a m o
  | .setTokenOwner s a o => setTokenOwner st s a o

/-- A transaction of one instruction. -/
def process (dep : Deployment) (clock : Clock) (st : State) (i : Instr) :
    Result ErrorCode (State × Unit) := do
  demand (dep.canSign i.signer.key = true) .unsigned
  let st ← handle dep clock st i
  pure (st, ())

/-- One action on the chain. -/
abbrev step (dep : Deployment) : Chain State → Action Instr →
    Chain State × Option (Result ErrorCode Unit) :=
  chainStep (process dep)

/-- The accounts before the first instruction, with any mints and token accounts. -/
def State.genesis (mints : Mints) (freezeAuthority : Pubkey → Option Pubkey) (tokens : Tokens)
    (frozen : Pubkey → Bool) : State where
  config := none
  tollPass := fun _ => none
  nameRecord := fun _ => none
  routeRecord := fun _ _ => none
  lock := fun _ => none
  mints := mints
  freezeAuthority := freezeAuthority
  tokens := tokens
  frozen := frozen

end Ddns.Anchor
