import Ddns.Names.Text

/-!
# The names program

Premium names, their auctions and NFTs, subdomains and primary names (`ddns_names`). Accounts are
addressed by their seeds: `["premium", name_hash]`, `["parent_policy", name_hash]`, `["sub",
parent_hash, label_hash]`, `["primary", owner]`, `["auction", name_hash]`, and for each bidder of an
auction `["escrow", name_hash, bidder]` and `["escrow_vault", name_hash, bidder]`. A vault is an
account without data that holds lamports: its rent deposit and what was bid. The rent of the other
accounts is left out. A definition without a docstring is the item of the source with the same words
in its name.
-/

namespace Ddns.Names

open Tx

/-! ## Accounts -/

def maxParentZone : Nat := 64

def kindPremium : Nat := 1

def kindSubdomain : Nat := 2

def transferNonTransferable : Nat := 0

def transferParentControlled : Nat := 1

/-- `NamesConfig`; the bytes and the length of the parent zone are one text. -/
structure NamesConfig where
  authority : Pubkey
  treasury : Pubkey
  parentZoneHash : Hash
  parentZone : Text
  premiumPriceLamports : Nat
  subdomainBondLamports : Nat
  enableSubdomains : Bool
  enablePremium : Bool
  deriving DecidableEq, Repr

structure PremiumName where
  nameHash : Hash
  owner : Pubkey
  nftMint : Pubkey
  purchaseLamports : Nat
  createdAt : Int
  transferable : Bool
  nftBound : Bool
  deriving DecidableEq, Repr

structure ParentPolicy where
  parentHash : Hash
  parentOwner : Pubkey
  transfersEnabled : Bool
  deriving DecidableEq, Repr

structure SubName where
  parentHash : Hash
  labelHash : Hash
  owner : Pubkey
  transferPolicy : Nat
  parentOwner : Pubkey
  transfersEnabled : Bool
  createdAt : Int
  nftMint : Pubkey
  nftCustodyAccount : Pubkey
  deriving DecidableEq, Repr

structure PrimaryName where
  owner : Pubkey
  nameHash : Hash
  kind : Nat
  isSet : Bool
  deriving DecidableEq, Repr

structure PremiumConfig where
  authority : Pubkey
  treasuryVault : Pubkey
  treasuryAuthority : Pubkey
  reservedMaxLen : Nat
  premiumMinLen : Nat
  premiumMaxLen : Nat
  minBidLamportsDefault : Nat
  auctionDurationSlotsDefault : Nat
  antiSnipingExtensionSlots : Nat
  enabled : Bool
  deriving DecidableEq, Repr

structure Auction where
  nameHash : Hash
  startSlot : Nat
  endSlot : Nat
  minBidLamports : Nat
  highestBidder : Pubkey
  highestBidLamports : Nat
  settled : Bool
  deriving DecidableEq, Repr

structure BidEscrow where
  nameHash : Hash
  bidder : Pubkey
  amountLamports : Nat
  active : Bool
  refunded : Bool
  deriving DecidableEq, Repr

/-- A freshly initialised `ParentPolicy` account. -/
def ParentPolicy.zero : ParentPolicy := ⟨0, Pubkey.default, false⟩

/-- A freshly initialised `PrimaryName` account. -/
def PrimaryName.zero : PrimaryName := ⟨Pubkey.default, 0, 0, false⟩

/-- A freshly initialised `BidEscrow` account. -/
def BidEscrow.zero : BidEscrow := ⟨0, Pubkey.default, 0, false, false⟩

/-- Who holds lamports. An address that is no escrow vault is a wallet. -/
inductive Holder where
  | wallet (k : Pubkey)
  | escrowVault (nameHash : Hash) (bidder : Pubkey)
  deriving DecidableEq, Repr

structure State where
  config : Option NamesConfig
  premiumConfig : Option PremiumConfig
  premium : Hash → Option PremiumName
  policy : Hash → Option ParentPolicy
  sub : Hash → Hash → Option SubName
  primary : Pubkey → Option PrimaryName
  auction : Hash → Option Auction
  escrow : Hash → Pubkey → Option BidEscrow
  lamports : Holder → Nat
  mints : Mints
  tokens : Tokens

/-- What the program is deployed with: SHA-256, the rent of an account without data, and the
addresses of its mints and authorities and of associated token accounts. A program-derived address
is off the curve, and the all-zero key is on it. -/
structure Deployment where
  sha256 : List UInt8 → Hash
  vaultRent : Nat
  premiumNftMint : Hash → Pubkey
  subNftMint : Hash → Hash → Pubkey
  associatedToken : (mint owner : Pubkey) → Pubkey
  nftAuthority : Pubkey
  nftCustodyAuthority : Pubkey
  premiumNftMint_ne : ∀ h, premiumNftMint h ≠ Pubkey.default
  subNftMint_ne : ∀ p l, subNftMint p l ≠ Pubkey.default

namespace State

def setPremium (st : State) (h : Hash) (p : PremiumName) : State :=
  { st with premium := Function.update st.premium h (some p) }

def setPolicy (st : State) (h : Hash) (p : ParentPolicy) : State :=
  { st with policy := Function.update st.policy h (some p) }

def setSub (st : State) (parentHash labelHash : Hash) (s : SubName) : State :=
  { st with
    sub := Function.update st.sub parentHash
      (Function.update (st.sub parentHash) labelHash (some s)) }

def setPrimary (st : State) (k : Pubkey) (p : PrimaryName) : State :=
  { st with primary := Function.update st.primary k (some p) }

def setAuction (st : State) (h : Hash) (a : Auction) : State :=
  { st with auction := Function.update st.auction h (some a) }

def setEscrow (st : State) (h : Hash) (bidder : Pubkey) (e : BidEscrow) : State :=
  { st with
    escrow := Function.update st.escrow h (Function.update (st.escrow h) bidder (some e)) }

def setLamports (st : State) (b : Holder → Nat) : State := { st with lamports := b }

def setTokens (st : State) (mints : Mints) (tokens : Tokens) : State := { st with mints, tokens }

end State

/-! ## Hashes and primary names -/

def hashName (dep : Deployment) (value : Text) : Hash := dep.sha256 (asBytes value)

def hashLabel (dep : Deployment) (value : Text) : Hash := dep.sha256 (asBytes value)

def subdomainNameHash (dep : Deployment) (parentHash labelHash : Hash) : Hash :=
  dep.sha256 (toBytes parentHash ++ toBytes labelHash)

/-- `upsert_primary_if_empty`, on the account that `init_if_needed` yields. -/
def upsertPrimaryIfEmpty (st : State) (owner : Pubkey) (nameHash : Hash) (kind : Nat) : State :=
  let primary := (st.primary owner).getD PrimaryName.zero
  st.setPrimary owner (if primary.isSet then primary else ⟨owner, nameHash, kind, true⟩)

/-- The premium name and its policy as `purchase_premium` and `settle_auction` create them. -/
def createPremium (clock : Clock) (st : State) (nameHash : Hash) (owner : Pubkey)
    (purchaseLamports : Nat) : State :=
  let premium : PremiumName := {
    nameHash, owner, nftMint := Pubkey.default, purchaseLamports,
    createdAt := clock.unixTimestamp, transferable := true, nftBound := false }
  let st := (st.setPremium nameHash premium).setPolicy nameHash ⟨nameHash, owner, false⟩
  upsertPrimaryIfEmpty st owner nameHash kindPremium

/-- A transfer between wallets that is left out when the amount is zero. -/
def payWallet (b : Holder → Nat) (src dst : Pubkey) (n : Nat) :
    Result NamesError (Holder → Nat) :=
  if 0 < n then transferLamports b (.wallet src) (.wallet dst) n else pure b

/-! ## Configuration -/

def initNamesConfig (dep : Deployment) (st : State) (authority : Signer) (treasury : Pubkey)
    (parentZone : Text) (premiumPriceLamports subdomainBondLamports : Nat)
    (enableSubdomains enablePremium : Bool) : Result NamesError State := do
  vacant st.config
  let normalizedParent ← normalizeFullName parentZone
  require (dnsSuffix <:+ normalizedParent) .invalidName
  require (len normalizedParent ≤ maxParentZone) .invalidName
  let config : NamesConfig := {
    authority := authority.key, treasury, parentZoneHash := hashName dep normalizedParent,
    parentZone := normalizedParent, premiumPriceLamports, subdomainBondLamports, enableSubdomains,
    enablePremium }
  pure { st with config := some config }

def initPremiumConfig (st : State) (authority : Signer) (treasuryVault treasuryAuthority : Pubkey)
    (minBidLamportsDefault auctionDurationSlotsDefault antiSnipingExtensionSlots : Nat)
    (enabled : Bool) : Result NamesError State := do
  vacant st.premiumConfig
  let pcfg : PremiumConfig := {
    authority := authority.key, treasuryVault, treasuryAuthority, reservedMaxLen := 2,
    premiumMinLen := 3, premiumMaxLen := 4, minBidLamportsDefault, auctionDurationSlotsDefault,
    antiSnipingExtensionSlots, enabled }
  pure { st with premiumConfig := some pcfg }

/-! ## Premium names -/

def purchasePremium (dep : Deployment) (clock : Clock) (st : State) (owner : Signer) (name : Text)
    (nameHash : Hash) : Result NamesError State := do
  let cfg ← load st.config
  let pcfg ← load st.premiumConfig
  vacant (st.premium nameHash)
  require (cfg.enablePremium ∧ pcfg.enabled) .disabled
  let normalized ← normalizeFullName name
  let label ← premiumLabel normalized
  validatePremiumLabel label
  require (hashName dep normalized = nameHash) .invalidHash
  if len label ≤ pcfg.reservedMaxLen then
    require (owner.key = pcfg.treasuryAuthority) .reservedName
  else
    require (¬(pcfg.premiumMinLen ≤ len label ∧ len label ≤ pcfg.premiumMaxLen)) .auctionRequired
  let paid ← payWallet st.lamports owner.key cfg.treasury cfg.premiumPriceLamports
  pure (createPremium clock (st.setLamports paid) nameHash owner.key cfg.premiumPriceLamports)

/-- The policy account that goes with a premium name. -/
def policyOf (st : State) (premium : PremiumName) : Result NamesError ParentPolicy := do
  let policy ← load (st.policy premium.nameHash)
  require (policy.parentHash = premium.nameHash) .invalidParent
  pure policy

/-- `transfer_premium` for the name at `h`. -/
def transferPremium (st : State) (h : Hash) (currentOwner : Signer) (newOwner : Pubkey) :
    Result NamesError State := do
  let premium ← load (st.premium h)
  let policy ← policyOf st premium
  require (premium.owner = currentOwner.key) .unauthorized
  require (¬premium.nftBound) .nftBoundTransferRequiresSync
  let parentOwner := if policy.parentOwner = currentOwner.key then newOwner else policy.parentOwner
  pure ((st.setPremium h { premium with owner := newOwner }).setPolicy premium.nameHash
    { policy with parentOwner })

/-- `bind_premium_nft` for the name at `h`. -/
def bindPremiumNft (st : State) (h : Hash) (currentOwner : Signer)
    (nftMint ownerNftAccount : Pubkey) : Result NamesError State := do
  let premium ← load (st.premium h)
  let policy ← policyOf st premium
  let _ ← load (st.mints nftMint)
  let account ← load (st.tokens ownerNftAccount)
  require (account.mint = nftMint) .invalidNftTokenAccount
  require (premium.owner = currentOwner.key) .unauthorized
  require premium.transferable .nonTransferable
  require (account.amount = 1) .invalidNftTokenAccount
  require (account.owner = currentOwner.key) .invalidNftTokenAccount
  let parentOwner :=
    if policy.parentOwner = Pubkey.default ∨ policy.parentOwner = currentOwner.key then
      currentOwner.key
    else policy.parentOwner
  pure ((st.setPremium h { premium with nftMint, nftBound := true, owner := currentOwner.key })
    |>.setPolicy premium.nameHash { policy with parentOwner })

/-- `init_if_needed` of the associated token account of `owner`. -/
def initAssociatedToken (dep : Deployment) (tokens : Tokens) (mint owner : Pubkey) :
    Result NamesError Tokens :=
  match tokens (dep.associatedToken mint owner) with
  | none => pure (Function.update tokens (dep.associatedToken mint owner) (some ⟨mint, owner, 0⟩))
  | some account => do
    demand (account.mint = mint ∧ account.owner = owner) .constraint
    pure tokens

/-- The creation of an NFT: a new mint of `nft_authority`, and its one token for `owner`. -/
def issueNft (dep : Deployment) (mints : Mints) (tokens : Tokens) (mint owner : Pubkey) :
    Result NamesError (Mints × Tokens) := do
  vacant (mints mint)
  let mints := Function.update mints mint (some ⟨some dep.nftAuthority, 0⟩)
  let tokens ← initAssociatedToken dep tokens mint owner
  mintTo mints tokens mint (dep.associatedToken mint owner) dep.nftAuthority 1

def issuePremiumNft (dep : Deployment) (st : State) (owner : Signer) (nameHash : Hash) :
    Result NamesError State := do
  let premium ← load (st.premium nameHash)
  require (premium.nameHash = nameHash) .invalidHash
  require (premium.owner = owner.key) .unauthorized
  require premium.transferable .nonTransferable
  require (premium.nftMint = Pubkey.default) .nftAlreadyIssued
  let nftMint := dep.premiumNftMint nameHash
  let (mints, tokens) ← issueNft dep st.mints st.tokens nftMint owner.key
  pure ((st.setTokens mints tokens).setPremium nameHash { premium with nftMint, nftBound := true })

/-- `sync_premium_owner_from_nft` for the name at `h`. -/
def syncPremiumOwnerFromNft (st : State) (h : Hash) (nftMint holderNftAccount : Pubkey) :
    Result NamesError State := do
  let premium ← load (st.premium h)
  let policy ← policyOf st premium
  let _ ← load (st.mints nftMint)
  let account ← load (st.tokens holderNftAccount)
  require (account.mint = nftMint) .invalidNftTokenAccount
  require premium.nftBound .nftBindingRequired
  require (premium.nftMint = nftMint) .invalidNftMint
  require (account.amount = 1) .invalidNftTokenAccount
  let newOwner := account.owner
  let parentOwner :=
    if policy.parentOwner = Pubkey.default ∨ policy.parentOwner = premium.owner ∨
        policy.parentOwner ≠ newOwner then newOwner
    else policy.parentOwner
  pure ((st.setPremium h { premium with owner := newOwner }).setPolicy premium.nameHash
    { policy with parentOwner })

/-! ## Auctions -/

def createAuction (dep : Deployment) (clock : Clock) (st : State) (authority : Signer)
    (name : Text) (nameHash : Hash) (minBidLamports durationSlots : Option Nat) :
    Result NamesError State := do
  let pcfg ← load st.premiumConfig
  vacant (st.auction nameHash)
  require pcfg.enabled .disabled
  require (pcfg.authority = authority.key) .unauthorized
  let normalized ← normalizeFullName name
  let label ← premiumLabel normalized
  validatePremiumLabel label
  require (hashName dep normalized = nameHash) .invalidHash
  require (pcfg.premiumMinLen ≤ len label ∧ len label ≤ pcfg.premiumMaxLen) .invalidAuctionDomain
  let duration := durationSlots.getD pcfg.auctionDurationSlotsDefault
  require (0 < duration) .invalidAuctionConfig
  let endSlot ← okOr (Checked.add 64 clock.slot duration) .mathOverflow
  pure (st.setAuction nameHash {
    nameHash, startSlot := clock.slot, endSlot,
    minBidLamports := minBidLamports.getD pcfg.minBidLamportsDefault,
    highestBidder := Pubkey.default, highestBidLamports := 0, settled := false })

/-- `init_if_needed` of a vault: the bidder pays what it lacks of its rent. -/
def fundVault (dep : Deployment) (b : Holder → Nat) (nameHash : Hash) (bidder : Pubkey) :
    Result NamesError (Holder → Nat) :=
  let vault := Holder.escrowVault nameHash bidder
  if b vault < dep.vaultRent then
    transferLamports b (.wallet bidder) vault (dep.vaultRent - b vault)
  else pure b

/-- The escrow record that a bid adds to: a new one, or the bidder's own while it is open. -/
def openEscrow (escrow : BidEscrow) (nameHash : Hash) (bidder : Pubkey) :
    Result NamesError BidEscrow :=
  if escrow.bidder = Pubkey.default then pure ⟨nameHash, bidder, 0, true, false⟩
  else do
    require (escrow.nameHash = nameHash) .invalidHash
    require (escrow.bidder = bidder) .unauthorized
    require (escrow.active ∧ ¬escrow.refunded) .escrowInactive
    pure escrow

/-- The end of an auction after a bid at slot `now`. -/
def extendedEnd (pcfg : PremiumConfig) (endSlot now : Nat) : Result NamesError Nat :=
  if 0 < pcfg.antiSnipingExtensionSlots ∧ endSlot - now ≤ pcfg.antiSnipingExtensionSlots then
    okOr (Checked.add 64 endSlot pcfg.antiSnipingExtensionSlots) .mathOverflow
  else pure endSlot

def placeBid (dep : Deployment) (clock : Clock) (st : State) (bidder : Signer) (nameHash : Hash)
    (lamports : Nat) : Result NamesError State := do
  let pcfg ← load st.premiumConfig
  let auction ← load (st.auction nameHash)
  let funded ← fundVault dep st.lamports nameHash bidder.key
  require (0 < lamports) .invalidBid
  require (pcfg.enabled ∧ ¬auction.settled) .disabled
  require (auction.nameHash = nameHash) .invalidHash
  require (clock.slot < auction.endSlot) .auctionClosed
  let escrow ← openEscrow ((st.escrow nameHash bidder.key).getD BidEscrow.zero) nameHash bidder.key
  let newTotal ← okOr (Checked.add 64 escrow.amountLamports lamports) .mathOverflow
  let minRequired ← okOr
    (Checked.add 64 (max auction.highestBidLamports auction.minBidLamports)
      (if 0 < auction.highestBidLamports then 1 else 0)) .mathOverflow
  require (minRequired ≤ newTotal) .bidTooLow
  let paid ← transferLamports funded (.wallet bidder.key) (.escrowVault nameHash bidder.key) lamports
  let endSlot ← extendedEnd pcfg auction.endSlot clock.slot
  pure (((st.setLamports paid).setEscrow nameHash bidder.key
    { escrow with amountLamports := newTotal }).setAuction nameHash
    { auction with highestBidder := bidder.key, highestBidLamports := newTotal, endSlot })

/-- `withdraw_losing_bid`. The runtime refuses to leave a vault with lamports below its rent. -/
def withdrawLosingBid (dep : Deployment) (st : State) (bidder : Signer) (nameHash : Hash) :
    Result NamesError State := do
  let auction ← load (st.auction nameHash)
  let escrow ← load (st.escrow nameHash bidder.key)
  require (auction.nameHash = nameHash) .invalidHash
  require (¬auction.settled ∨ auction.highestBidder ≠ bidder.key) .winnerCannotWithdraw
  require (auction.highestBidder ≠ bidder.key) .winnerCannotWithdraw
  require (escrow.nameHash = nameHash) .invalidHash
  require (escrow.bidder = bidder.key) .unauthorized
  require (escrow.active ∧ ¬escrow.refunded) .escrowInactive
  require (0 < escrow.amountLamports) .nothingToWithdraw
  let amount := escrow.amountLamports
  let vault := Holder.escrowVault nameHash bidder.key
  require (amount ≤ st.lamports vault) .escrowInsufficient
  let rest ← okOr (Checked.sub (st.lamports vault) amount) .mathOverflow
  let credited ← okOr (Checked.add 64 (st.lamports (.wallet bidder.key)) amount) .mathOverflow
  demand (rest = 0 ∨ dep.vaultRent ≤ rest) .rentState
  pure (st.setLamports
    (Function.update (Function.update st.lamports vault rest) (.wallet bidder.key) credited))

def settleAuction (clock : Clock) (st : State) (winner : Signer) (nameHash : Hash)
    (treasury : Pubkey) : Result NamesError State := do
  let _ ← load st.config
  let pcfg ← load st.premiumConfig
  let auction ← load (st.auction nameHash)
  demand (treasury = pcfg.treasuryVault) .constraint
  vacant (st.premium nameHash)
  require (auction.nameHash = nameHash) .invalidHash
  require (¬auction.settled) .alreadySettled
  require (auction.endSlot ≤ clock.slot) .auctionNotEnded
  require (0 < auction.highestBidLamports) .noWinningBid
  require (auction.highestBidder = winner.key) .unauthorized
  require (treasury = pcfg.treasuryVault) .invalidTreasury
  let st := createPremium clock st nameHash winner.key auction.highestBidLamports
  pure (st.setAuction nameHash { auction with settled := true })

/-! ## Subdomains -/

/-- The hashes of a parent and a label have to be those of their normalized texts. -/
def checkHashes (dep : Deployment) (normalizedParent normalizedLabel : Text)
    (parentHash labelHash : Hash) : Result NamesError Unit := do
  require (hashName dep normalizedParent = parentHash) .invalidHash
  require (hashLabel dep normalizedLabel = labelHash) .invalidHash

def claimSubdomain (dep : Deployment) (clock : Clock) (st : State) (owner : Signer)
    (parent label : Text) (parentHash labelHash : Hash) : Result NamesError State := do
  let cfg ← load st.config
  vacant (st.sub parentHash labelHash)
  require cfg.enableSubdomains .disabled
  let normalizedParent ← normalizeFullName parent
  require (normalizedParent = cfg.parentZone) .invalidParent
  let normalizedLabel ← normalizeLabel label
  checkHashes dep normalizedParent normalizedLabel parentHash labelHash
  let paid ← payWallet st.lamports owner.key cfg.treasury cfg.subdomainBondLamports
  let st := (st.setLamports paid).setSub parentHash labelHash {
    parentHash, labelHash, owner := owner.key, transferPolicy := transferNonTransferable,
    parentOwner := Pubkey.default, transfersEnabled := false, createdAt := clock.unixTimestamp,
    nftMint := Pubkey.default, nftCustodyAccount := Pubkey.default }
  pure (upsertPrimaryIfEmpty st owner.key (subdomainNameHash dep parentHash labelHash)
    kindSubdomain)

def issueSubdomainNft (dep : Deployment) (st : State) (owner : Signer)
    (parentHash labelHash : Hash) : Result NamesError State := do
  let sub ← load (st.sub parentHash labelHash)
  require (sub.parentHash = parentHash ∧ sub.labelHash = labelHash) .invalidHash
  require (sub.owner = owner.key) .unauthorized
  require (sub.nftMint = Pubkey.default) .nftAlreadyIssued
  let nftMint := dep.subNftMint parentHash labelHash
  let (mints, tokens) ← issueNft dep st.mints st.tokens nftMint dep.nftCustodyAuthority
  pure ((st.setTokens mints tokens).setSub parentHash labelHash { sub with
    nftMint, nftCustodyAccount := dep.associatedToken nftMint dep.nftCustodyAuthority })

/-- The policy of a parent as its owner finds it: a fresh one is filled in. -/
def claimPolicy (st : State) (parentHash : Hash) (parentOwner : Pubkey) :
    Result NamesError ParentPolicy :=
  let policy := (st.policy parentHash).getD ParentPolicy.zero
  if policy.parentHash = 0 then pure ⟨parentHash, parentOwner, false⟩
  else do
    require (policy.parentHash = parentHash) .invalidParent
    require (policy.parentOwner = parentOwner) .unauthorized
    pure policy

def claimDelegatedSubdomain (dep : Deployment) (clock : Clock) (st : State) (parentOwner : Signer)
    (parent label : Text) (parentHash labelHash : Hash) (initialOwner : Pubkey) :
    Result NamesError State := do
  let _ ← load st.config
  let premium ← load (st.premium parentHash)
  vacant (st.sub parentHash labelHash)
  let normalizedParent ← normalizeFullName parent
  let normalizedLabel ← normalizeLabel label
  checkHashes dep normalizedParent normalizedLabel parentHash labelHash
  require (premium.nameHash = parentHash) .invalidParent
  require (premium.owner = parentOwner.key) .unauthorized
  let policy ← claimPolicy st parentHash parentOwner.key
  pure ((st.setPolicy parentHash policy).setSub parentHash labelHash {
    parentHash, labelHash, owner := initialOwner, transferPolicy := transferParentControlled,
    parentOwner := parentOwner.key, transfersEnabled := policy.transfersEnabled,
    createdAt := clock.unixTimestamp, nftMint := Pubkey.default,
    nftCustodyAccount := Pubkey.default })

def setParentSubdomainPolicy (dep : Deployment) (st : State) (parentOwner : Signer) (parent : Text)
    (parentHash : Hash) (transfersEnabled : Bool) : Result NamesError State := do
  let _ ← load st.config
  let premium ← load (st.premium parentHash)
  let normalizedParent ← normalizeFullName parent
  require (hashName dep normalizedParent = parentHash) .invalidHash
  require (premium.nameHash = parentHash) .invalidParent
  require (premium.owner = parentOwner.key) .unauthorized
  let policy ← claimPolicy st parentHash parentOwner.key
  pure (st.setPolicy parentHash { policy with transfersEnabled })

/-- An account that a transaction may leave out. -/
def loadOptional {κ α : Type} (accounts : κ → Option α) (key : Option κ) :
    Result NamesError (Option α) :=
  match key with
  | none => pure none
  | some k => some <$> load (accounts k)

/-- What `transfer_subdomain` asks for by the transfer policy; `parentOwner` is who signed as the
parent owner. -/
def checkTransferPolicy (sub : SubName) (policy : Option ParentPolicy)
    (parentOwner : Option Signer) : Result NamesError Unit :=
  if sub.transferPolicy = transferNonTransferable then .error (.custom .nonTransferable)
  else if sub.transferPolicy = transferParentControlled then
    if ((policy.map ParentPolicy.transfersEnabled).getD false) = true then pure ()
    else do
      let parentOwner ← okOr parentOwner .parentOwnerRequired
      require (sub.parentOwner = parentOwner.key) .parentOwnerRequired
  else .error (.custom .invalidTransferPolicy)

/-- `transfer_subdomain`; `withPolicy` says whether the policy account is given. -/
def transferSubdomain (dep : Deployment) (st : State) (currentOwner : Signer) (newOwner : Pubkey)
    (parentOwner : Option Signer) (withPolicy : Bool) (parent label : Text)
    (parentHash labelHash : Hash) : Result NamesError State := do
  let sub ← load (st.sub parentHash labelHash)
  let policy ← loadOptional st.policy (if withPolicy then some parentHash else none)
  let normalizedParent ← normalizeFullName parent
  let normalizedLabel ← normalizeLabel label
  checkHashes dep normalizedParent normalizedLabel parentHash labelHash
  require (sub.parentHash = parentHash ∧ sub.labelHash = labelHash) .invalidHash
  require (sub.owner = currentOwner.key) .unauthorized
  checkTransferPolicy sub policy parentOwner
  pure (st.setSub parentHash labelHash { sub with owner := newOwner })

/-- What `set_primary_name` asks of the name that it is given. -/
def checkPrimary (dep : Deployment) (owner : Signer) (premium : Option PremiumName)
    (sub : Option SubName) (nameHash : Hash) (kind : Nat) : Result NamesError Unit :=
  if kind = kindPremium then do
    let premium ← okOr premium .missingRequiredAccount
    require (premium.nameHash = nameHash) .invalidHash
    require (premium.owner = owner.key) .unauthorized
  else if kind = kindSubdomain then do
    let sub ← okOr sub .missingRequiredAccount
    require (sub.owner = owner.key) .unauthorized
    require (subdomainNameHash dep sub.parentHash sub.labelHash = nameHash) .invalidHash
  else .error (.custom .invalidKind)

/-- `set_primary_name` with the optional premium name at `premiumKey` and subdomain at `subKey`. -/
def setPrimaryName (dep : Deployment) (st : State) (owner : Signer) (premiumKey : Option Hash)
    (subKey : Option (Hash × Hash)) (nameHash : Hash) (kind : Nat) : Result NamesError State := do
  let premium ← loadOptional st.premium premiumKey
  let sub ← loadOptional (fun k => st.sub k.1 k.2) subKey
  checkPrimary dep owner premium sub nameHash kind
  pure (st.setPrimary owner.key ⟨owner.key, nameHash, kind, true⟩)

/-! ## Tokens outside the program -/

/-- The creation of a mint, whose account has to sign. -/
def createMint (st : State) (mint : Signer) (authority : Pubkey) : Result NamesError State := do
  vacant (st.mints mint.key)
  pure (st.setTokens (Function.update st.mints mint.key (some ⟨some authority, 0⟩)) st.tokens)

/-- The creation of a token account, by anybody and for any owner. -/
def openTokenAccount (st : State) (account mint owner : Pubkey) : Result NamesError State := do
  vacant (st.tokens account)
  let _ ← load (st.mints mint)
  pure (st.setTokens st.mints (Function.update st.tokens account (some ⟨mint, owner, 0⟩)))

def splMintTo (st : State) (authority : Signer) (mint dst : Pubkey) (n : Nat) :
    Result NamesError State := do
  let (mints, tokens) ← mintTo st.mints st.tokens mint dst authority.key n
  pure (st.setTokens mints tokens)

def splTransfer (st : State) (authority : Signer) (src dst : Pubkey) (n : Nat) :
    Result NamesError State := do
  let tokens ← st.tokens.transfer src dst authority.key n
  pure (st.setTokens st.mints tokens)

/-! ## Transactions -/

/-- The instructions, with the accounts and arguments they are called with. -/
inductive Instr where
  | initNamesConfig (authority : Signer) (treasury : Pubkey) (parentZone : Text)
      (premiumPriceLamports subdomainBondLamports : Nat) (enableSubdomains enablePremium : Bool)
  | initPremiumConfig (authority : Signer) (treasuryVault treasuryAuthority : Pubkey)
      (minBidLamportsDefault auctionDurationSlotsDefault antiSnipingExtensionSlots : Nat)
      (enabled : Bool)
  | purchasePremium (owner : Signer) (name : Text) (nameHash : Hash)
  | transferPremium (h : Hash) (currentOwner : Signer) (newOwner : Pubkey)
  | bindPremiumNft (h : Hash) (currentOwner : Signer) (nftMint ownerNftAccount : Pubkey)
  | issuePremiumNft (owner : Signer) (nameHash : Hash)
  | syncPremiumOwnerFromNft (h : Hash) (nftMint holderNftAccount : Pubkey)
  | createAuction (authority : Signer) (name : Text) (nameHash : Hash)
      (minBidLamports durationSlots : Option Nat)
  | placeBid (bidder : Signer) (nameHash : Hash) (lamports : Nat)
  | withdrawLosingBid (bidder : Signer) (nameHash : Hash)
  | settleAuction (winner : Signer) (nameHash : Hash) (treasury : Pubkey)
  | claimSubdomain (owner : Signer) (parent label : Text) (parentHash labelHash : Hash)
  | issueSubdomainNft (owner : Signer) (parentHash labelHash : Hash)
  | claimDelegatedSubdomain (parentOwner : Signer) (parent label : Text)
      (parentHash labelHash : Hash) (initialOwner : Pubkey)
  | setParentSubdomainPolicy (parentOwner : Signer) (parent : Text) (parentHash : Hash)
      (transfersEnabled : Bool)
  | transferSubdomain (currentOwner : Signer) (newOwner : Pubkey) (parentOwner : Option Signer)
      (withPolicy : Bool) (parent label : Text) (parentHash labelHash : Hash)
  | setPrimaryName (owner : Signer) (premiumKey : Option Hash) (subKey : Option (Hash × Hash))
      (nameHash : Hash) (kind : Nat)
  | createMint (mint : Signer) (authority : Pubkey)
  | openTokenAccount (account mint owner : Pubkey)
  | splMintTo (authority : Signer) (mint dst : Pubkey) (n : Nat)
  | splTransfer (authority : Signer) (src dst : Pubkey) (n : Nat)

/-- What an instruction does to the accounts. -/
def execute (dep : Deployment) (clock : Clock) (st : State) : Instr → Result NamesError State
  | .initNamesConfig a t z p b es ep => initNamesConfig dep st a t z p b es ep
  | .initPremiumConfig a v ta m d x e => initPremiumConfig st a v ta m d x e
  | .purchasePremium o n h => purchasePremium dep clock st o n h
  | .transferPremium h o n => transferPremium st h o n
  | .bindPremiumNft h o m a => bindPremiumNft st h o m a
  | .issuePremiumNft o h => issuePremiumNft dep st o h
  | .syncPremiumOwnerFromNft h m a => syncPremiumOwnerFromNft st h m a
  | .createAuction a n h m d => createAuction dep clock st a n h m d
  | .placeBid b h n => placeBid dep clock st b h n
  | .withdrawLosingBid b h => withdrawLosingBid dep st b h
  | .settleAuction w h t => settleAuction clock st w h t
  | .claimSubdomain o p l ph lh => claimSubdomain dep clock st o p l ph lh
  | .issueSubdomainNft o ph lh => issueSubdomainNft dep st o ph lh
  | .claimDelegatedSubdomain po p l ph lh o => claimDelegatedSubdomain dep clock st po p l ph lh o
  | .setParentSubdomainPolicy po p ph b => setParentSubdomainPolicy dep st po p ph b
  | .transferSubdomain o n po wp p l ph lh => transferSubdomain dep st o n po wp p l ph lh
  | .setPrimaryName o pk sk h k => setPrimaryName dep st o pk sk h k
  | .createMint m a => createMint st m a
  | .openTokenAccount a m o => openTokenAccount st a m o
  | .splMintTo a m d n => splMintTo st a m d n
  | .splTransfer a s d n => splTransfer st a s d n

/-- A transaction of one instruction. -/
def process (dep : Deployment) (clock : Clock) (st : State) (i : Instr) :
    Result NamesError (State × Unit) :=
  (·, ()) <$> execute dep clock st i

/-- One action on the chain. -/
abbrev step (dep : Deployment) : Chain State → Action Instr →
    Chain State × Option (Result NamesError Unit) :=
  chainStep (process dep)

/-- The accounts before the program was used: wallets with lamports, and no vaults, mints or
tokens. -/
def State.genesis (lamports : Pubkey → Nat) : State where
  config := none
  premiumConfig := none
  premium := fun _ => none
  policy := fun _ => none
  sub := fun _ _ => none
  primary := fun _ => none
  auction := fun _ => none
  escrow := fun _ _ => none
  lamports
    | .wallet k => lamports k
    | .escrowVault _ _ => 0
  mints := fun _ => none
  tokens := fun _ => none

end Ddns.Names
