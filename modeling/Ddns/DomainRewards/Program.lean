import Ddns.Solana.Keys
import Ddns.Lib.Shares

/-!
# The toll split program

A toll paid for a route is split at once between the owner of the name, the miners and the treasury
(`ddns_domain_rewards`). The owner of a name registers a record at `["domain_owner", name_hash]`
with the splits of its tolls; the config holds the splits of the others. A definition without a
docstring is the item of the source with the same words in its name.
-/

namespace Ddns.DomainRewards

open Tx Shares

inductive DomainRewardsError where
  | unauthorized
  | disabled
  | badAmount
  | belowMinToll
  | badBps
  | overflow
  | badMint
  | badMintOwner
  | badTokenAccountOwner
  | badTokenAccountData
  | badPayerAtaOwner
  | badTreasuryVault
  | badMinersVault
  | badVaultOwner
  | missingOwner
  | badOwnerAtaOwner
  | vaultAuthorityAlreadyExists
  | vaultAlreadyExists
  deriving DecidableEq, Repr

/-! ## Splits -/

def requireSplitsOk (ownerBps minersBps treasuryBps : Nat) : Result DomainRewardsError Unit := do
  require (ownerBps ≤ 10000) .badBps
  require (minersBps ≤ 10000) .badBps
  require (treasuryBps ≤ 10000) .badBps
  let sum ← okOr ((Checked.add 32 ownerBps minersBps).bind (Checked.add 32 · treasuryBps)) .overflow
  require (sum = 10000) .badBps

theorem requireSplitsOk_eq_ok {o m t : Nat} {u : Unit} :
    requireSplitsOk o m t = .ok u ↔ o + m + t = 10000 := by
  simp only [requireSplitsOk, bind_eq_ok, require_eq_ok, okOr_eq_ok, exists_unit,
    Option.bind_eq_some_iff, Checked.add_eq_some]
  constructor
  · rintro ⟨-, -, -, s, ⟨x, ⟨-, rfl⟩, -, rfl⟩, hsum⟩
    exact hsum
  · intro hsum
    exact ⟨by omega, by omega, by omega, o + m + t, ⟨o + m, ⟨by omega, rfl⟩, by omega, rfl⟩, hsum⟩

/-- The three shares of a toll, in basis points that add up to the whole. -/
structure Splits where
  ownerBps : Nat
  minersBps : Nat
  treasuryBps : Nat
  sum : ownerBps + minersBps + treasuryBps = 10000
  deriving DecidableEq

/-- The splits that `require_splits_ok` lets through. -/
def checkSplits (ownerBps minersBps treasuryBps : Nat) : Result DomainRewardsError Splits :=
  match h : requireSplitsOk ownerBps minersBps treasuryBps with
  | .ok _ => .ok ⟨ownerBps, minersBps, treasuryBps, requireSplitsOk_eq_ok.1 h⟩
  | .error e => .error e

def bpsAmount (amount bps : Nat) : Result DomainRewardsError Nat := do
  let product ← okOr (Checked.mul 128 amount bps) .overflow
  pure (Checked.cast 64 (product / 10000))

/-! ## Accounts -/

/-- `Config`. The vaults are two accounts, since `init_config` creates one after the other. -/
structure Config where
  authority : Pubkey
  tollMint : Pubkey
  treasuryVault : Pubkey
  minersVault : Pubkey
  defaults : Splits
  minTollAmount : Nat
  enabled : Bool
  minToll_pos : 0 < minTollAmount
  vaults_ne : minersVault ≠ treasuryVault

structure DomainOwner where
  nameHash : Hash
  ownerWallet : Pubkey
  splits : Splits
  updatedAtSlot : Nat
  deriving DecidableEq

structure State where
  config : Config
  domainOwner : Hash → Option DomainOwner
  tokens : Tokens

/-- What the program is deployed with: the keys that can sign a transaction, and the vault authority
PDA, which cannot. -/
structure Deployment where
  canSign : Pubkey → Bool
  vaultAuthority : Pubkey
  vaultAuthority_canSign : canSign vaultAuthority = false

/-- An account that is passed where nothing checks its address: the PDA of a record, the config, or
an account that the program has never written. -/
inductive AccountRef where
  | domainOwner (h : Hash)
  | config
  | other
  deriving DecidableEq, Repr

/-- The accounts of `TollPayForRoute` that the caller chooses. -/
structure TollPayForRoute where
  payer : Signer
  payerTollAta : Pubkey
  domainOwner : AccountRef
  ownerPayoutAta : Pubkey
  treasuryVault : Pubkey
  minersVault : Pubkey

/-- Write the record of a name. -/
def State.setDomainOwner (st : State) (h : Hash) (o : DomainOwner) : State :=
  { st with domainOwner := Function.update st.domainOwner h (some o) }

/-! ## Helpers -/

/-- `read_spl_token_account`; an address without a token account is refused with one error, whether
it belongs to another program or holds other data. -/
def readSplTokenAccount (tokens : Tokens) (a : Pubkey) : Result DomainRewardsError TokenAccount :=
  okOr (tokens a) .badTokenAccountOwner

/-- `DomainOwner::try_deserialize` of an account that the program owns and that is not empty. The
config has another discriminator, and what the program has never written has none. -/
def State.readDomainOwner (st : State) : AccountRef → Option DomainOwner
  | .domainOwner h => st.domainOwner h
  | .config => none
  | .other => none

/-- The splits of a toll and the wallet of the owner: those of the record that is passed, if it is
one of the name, and else the defaults and no wallet. -/
def State.splitsFor (st : State) (ref : AccountRef) (nameHash : Hash) : Splits × Pubkey :=
  match st.readDomainOwner ref with
  | some o =>
    if o.nameHash = nameHash then (o.splits, o.ownerWallet)
    else (st.config.defaults, Pubkey.default)
  | none => (st.config.defaults, Pubkey.default)

/-- The transfer of the owner's share, if there is any. -/
def payOwner (cfg : Config) (tokens : Tokens) (accs : TollPayForRoute) (ownerWallet : Pubkey)
    (ownerAmount : Nat) : Result DomainRewardsError Tokens :=
  if 0 < ownerAmount then do
    let ownerAta ← readSplTokenAccount tokens accs.ownerPayoutAta
    require (ownerAta.mint = cfg.tollMint) .badMint
    require (ownerWallet ≠ Pubkey.default) .missingOwner
    require (ownerAta.owner = ownerWallet) .badOwnerAtaOwner
    tokens.transfer accs.payerTollAta accs.ownerPayoutAta accs.payer.key ownerAmount
  else pure tokens

/-! ## Instructions -/

def registerDomainOwner (clock : Clock) (st : State) (ownerWallet : Signer) (nameHash : Hash)
    (ownerBps minersBps treasuryBps : Nat) : Result DomainRewardsError State := do
  vacant (st.domainOwner nameHash)
  let splits ← checkSplits ownerBps minersBps treasuryBps
  pure (st.setDomainOwner nameHash ⟨nameHash, ownerWallet.key, splits, clock.slot⟩)

/-- `update_domain_splits` of the record at `h`. -/
def updateDomainSplits (clock : Clock) (st : State) (ownerWallet : Signer) (h : Hash)
    (ownerBps minersBps treasuryBps : Nat) : Result DomainRewardsError State := do
  let o ← load (st.domainOwner h)
  demand (o.nameHash = h) .constraint
  require (o.ownerWallet = ownerWallet.key) .unauthorized
  let splits ← checkSplits ownerBps minersBps treasuryBps
  pure (st.setDomainOwner h { o with splits, updatedAtSlot := clock.slot })

def tollPayForRoute (dep : Deployment) (st : State) (accs : TollPayForRoute) (nameHash : Hash)
    (amount : UInt64) : Result DomainRewardsError State := do
  let cfg := st.config
  let amount := amount.toNat
  require (0 < amount) .badAmount
  require (cfg.enabled = true) .disabled
  require (cfg.minTollAmount ≤ amount) .belowMinToll
  let payerAta ← readSplTokenAccount st.tokens accs.payerTollAta
  require (payerAta.mint = cfg.tollMint) .badMint
  require (payerAta.owner = accs.payer.key) .badPayerAtaOwner
  require (accs.treasuryVault = cfg.treasuryVault) .badTreasuryVault
  require (accs.minersVault = cfg.minersVault) .badMinersVault
  let treasuryAta ← readSplTokenAccount st.tokens accs.treasuryVault
  let minersAta ← readSplTokenAccount st.tokens accs.minersVault
  require (treasuryAta.mint = cfg.tollMint) .badMint
  require (minersAta.mint = cfg.tollMint) .badMint
  require (treasuryAta.owner = dep.vaultAuthority) .badVaultOwner
  require (minersAta.owner = dep.vaultAuthority) .badVaultOwner
  let splits := (st.splitsFor accs.domainOwner nameHash).1
  let ownerWallet := (st.splitsFor accs.domainOwner nameHash).2
  requireSplitsOk splits.ownerBps splits.minersBps splits.treasuryBps
  let ownerAmount ← bpsAmount amount splits.ownerBps
  let minersAmount ← bpsAmount amount splits.minersBps
  let treasuryAmount ←
    okOr ((Checked.sub amount ownerAmount).bind (Checked.sub · minersAmount)) .overflow
  let tokens ← payOwner cfg st.tokens accs ownerWallet ownerAmount
  let tokens ← tokens.pay accs.payerTollAta accs.minersVault accs.payer.key minersAmount
  let tokens ← tokens.pay accs.payerTollAta accs.treasuryVault accs.payer.key treasuryAmount
  pure { st with tokens }

/-- A transfer of tokens outside the program. -/
def splTransfer (st : State) (authority : Signer) (src dst : Pubkey) (amount : Nat) :
    Result DomainRewardsError State := do
  let tokens ← st.tokens.transfer src dst authority.key amount
  pure { st with tokens }

/-- The creation of a token account, by anybody and for any owner. -/
def openTokenAccount (st : State) (account mint owner : Pubkey) :
    Result DomainRewardsError State := do
  vacant (st.tokens account)
  pure { st with tokens := Function.update st.tokens account (some ⟨mint, owner, 0⟩) }

/-- The instructions, with the accounts and arguments they are called with. -/
inductive Instr where
  | registerDomainOwner (ownerWallet : Signer) (nameHash : Hash)
      (ownerBps minersBps treasuryBps : Nat)
  | updateDomainSplits (ownerWallet : Signer) (h : Hash) (ownerBps minersBps treasuryBps : Nat)
  | tollPayForRoute (accs : TollPayForRoute) (nameHash : Hash) (amount : UInt64)
  | splTransfer (authority : Signer) (src dst : Pubkey) (amount : Nat)
  | openTokenAccount (payer : Signer) (account mint owner : Pubkey)

/-- Who signs an instruction. -/
def Instr.signer : Instr → Signer
  | .registerDomainOwner s _ _ _ _ => s
  | .updateDomainSplits s _ _ _ _ => s
  | .tollPayForRoute accs _ _ => accs.payer
  | .splTransfer s _ _ _ => s
  | .openTokenAccount s _ _ _ => s

/-- The handler of an instruction. -/
def handle (dep : Deployment) (clock : Clock) (st : State) : Instr → Result DomainRewardsError State
  | .registerDomainOwner s h o m t => registerDomainOwner clock st s h o m t
  | .updateDomainSplits s h o m t => updateDomainSplits clock st s h o m t
  | .tollPayForRoute accs h n => tollPayForRoute dep st accs h n
  | .splTransfer s src dst n => splTransfer st s src dst n
  | .openTokenAccount _ a m o => openTokenAccount st a m o

/-- A transaction of one instruction. -/
def process (dep : Deployment) (clock : Clock) (st : State) (i : Instr) :
    Result DomainRewardsError (State × Unit) := do
  demand (dep.canSign i.signer.key = true) .unsigned
  let st ← handle dep clock st i
  pure (st, ())

/-- One action on the chain. -/
abbrev step (dep : Deployment) : Chain State → Action Instr →
    Chain State × Option (Result DomainRewardsError Unit) :=
  chainStep (process dep)

/-- The accounts after `init_config`, which opens both vaults for the vault authority. -/
def State.genesis (dep : Deployment) (config : Config) (tokens : Tokens) : State where
  config := config
  domainOwner := fun _ => none
  tokens := Function.update (Function.update tokens config.treasuryVault
    (some ⟨config.tollMint, dep.vaultAuthority, 0⟩)) config.minersVault
      (some ⟨config.tollMint, dep.vaultAuthority, 0⟩)

end Ddns.DomainRewards
