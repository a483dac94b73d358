import Ddns.Names.Program

/-!
# What an instruction does

`Effect dep clock st i st'` lists, for each instruction, what has to be so when it succeeds and
the state that it leaves. `execute_effect` is the one place where the instructions are unfolded;
the invariants of the program go through the cases of `Effect`.
-/

namespace Ddns.Names

open Tx Runs

/-! ## Lamports -/

/-- `b'` differs from `b` in wallets only. -/
def SameVaults (b b' : Holder → Nat) : Prop :=
  ∀ h k, b' (.escrowVault h k) = b (.escrowVault h k)

theorem payWallet_sameVaults {b b' : Holder → Nat} {src dst : Pubkey} {n : Nat}
    (h : payWallet b src dst n = .ok b') : SameVaults b b' := by
  unfold payWallet at h
  split at h
  · rw [transferLamports_eq_ok] at h
    exact fun h' k => Balances.move_of_ne h nofun nofun
  · cases h
    exact fun _ _ => rfl

/-- A transfer from a wallet into a vault adds to that vault and to no other. -/
theorem transfer_vault {b b' : Holder → Nat} {src k : Pubkey} {h : Hash} {n : Nat}
    (ht : (transferLamports b (.wallet src) (.escrowVault h k) n : Result NamesError _) = .ok b') :
    b' (.escrowVault h k) = b (.escrowVault h k) + n ∧
      ∀ h' k', (h', k') ≠ (h, k) → b' (.escrowVault h' k') = b (.escrowVault h' k') := by
  rw [transferLamports_eq_ok] at ht
  refine ⟨Balances.move_dst ht nofun, fun h' k' hne => Balances.move_of_ne ht nofun ?_⟩
  intro heq
  cases heq
  exact hne rfl

/-- What a wallet and a vault hold together is kept by a transfer between them. -/
theorem transfer_pair {b b' : Holder → Nat} {src k : Pubkey} {h : Hash} {n : Nat}
    (ht : (transferLamports b (.wallet src) (.escrowVault h k) n : Result NamesError _) = .ok b') :
    b' (.wallet src) + b' (.escrowVault h k) = b (.wallet src) + b (.escrowVault h k) := by
  rw [transferLamports_eq_ok] at ht
  have hsrc := Balances.move_src ht nofun
  have hdst := Balances.move_dst ht nofun
  have hle := Balances.move_le ht
  omega

/-- A vault that is opened holds its rent at least, and no other vault changes. -/
theorem fundVault_ok {dep : Deployment} {b b' : Holder → Nat} {h : Hash} {k : Pubkey}
    (hf : fundVault dep b h k = .ok b') :
    b' (.escrowVault h k) = max (b (.escrowVault h k)) dep.vaultRent ∧
      ∀ h' k', (h', k') ≠ (h, k) → b' (.escrowVault h' k') = b (.escrowVault h' k') := by
  unfold fundVault at hf
  dsimp only at hf
  split at hf
  · obtain ⟨hself, hother⟩ := transfer_vault hf
    exact ⟨by omega, hother⟩
  · cases hf
    exact ⟨by omega, fun _ _ _ => rfl⟩

/-- The bidder pays the rent of its vault. -/
theorem fundVault_pair {dep : Deployment} {b b' : Holder → Nat} {h : Hash} {k : Pubkey}
    (hf : fundVault dep b h k = .ok b') :
    b' (.wallet k) + b' (.escrowVault h k) = b (.wallet k) + b (.escrowVault h k) := by
  unfold fundVault at hf
  dsimp only at hf
  split at hf
  · exact transfer_pair hf
  · cases hf
    rfl

/-! ## Effects -/

/-- A bid of `n` on the auction `a`, on top of what the escrow `e` records. -/
structure Bid (dep : Deployment) (clock : Clock) (st : State) (bidder : Pubkey) (h : Hash) (n : Nat)
    (pcfg : PremiumConfig) (a : Auction) (e : BidEscrow) (paid : Holder → Nat) (endSlot : Nat) :
    Prop where
  config : st.premiumConfig = some pcfg
  auction : st.auction h = some a
  pos : 0 < n
  enabled : pcfg.enabled = true
  unsettled : a.settled = false
  name : a.nameHash = h
  live : clock.slot < a.endSlot
  escrow : openEscrow ((st.escrow h bidder).getD BidEscrow.zero) h bidder = .ok e
  higher : a.highestBidLamports < e.amountLamports + n
  minimum : a.minBidLamports ≤ e.amountLamports + n
  bounded : e.amountLamports + n < 2 ^ 64
  vault : paid (.escrowVault h bidder) = max (st.lamports (.escrowVault h bidder)) dep.vaultRent + n
  vaults : ∀ h' k', (h', k') ≠ (h, bidder) →
    paid (.escrowVault h' k') = st.lamports (.escrowVault h' k')
  wallet : paid (.wallet bidder) + paid (.escrowVault h bidder) =
    st.lamports (.wallet bidder) + st.lamports (.escrowVault h bidder)
  ends : extendedEnd pcfg a.endSlot clock.slot = .ok endSlot

/-- The withdrawal of what the escrow `e` records, from the auction `a`. -/
structure Withdrawal (dep : Deployment) (st : State) (bidder : Pubkey) (h : Hash) (a : Auction)
    (e : BidEscrow) : Prop where
  auction : st.auction h = some a
  escrow : st.escrow h bidder = some e
  name : a.nameHash = h
  outbid : a.highestBidder ≠ bidder
  escrowName : e.nameHash = h
  escrowBidder : e.bidder = bidder
  active : e.active = true
  unrefunded : e.refunded = false
  pos : 0 < e.amountLamports
  covered : e.amountLamports ≤ st.lamports (.escrowVault h bidder)
  credited : st.lamports (.wallet bidder) + e.amountLamports < 2 ^ 64
  rent : st.lamports (.escrowVault h bidder) - e.amountLamports = 0 ∨
    dep.vaultRent ≤ st.lamports (.escrowVault h bidder) - e.amountLamports

/-- The label of a premium name, as `purchase_premium` and `create_auction` check it. -/
structure PremiumLabel (dep : Deployment) (name : Text) (nameHash : Hash) (label : Text) : Prop where
  normalized : ∃ n, normalizeFullName name = .ok n ∧ n = label ++ dnsSuffix ∧ hashName dep n = nameHash
  valid : validatePremiumLabel label = .ok ()

/-- The texts of a parent and a label, with the hashes that a subdomain is addressed by. -/
structure SubTexts (dep : Deployment) (parent label : Text) (parentHash labelHash : Hash) : Prop where
  parent : ∃ n, normalizeFullName parent = .ok n ∧ hashName dep n = parentHash
  label : ∃ l, normalizeLabel label = .ok l ∧ hashLabel dep l = labelHash

/-- The name at `h` and its policy, which an instruction reads together. -/
structure Named (st : State) (h : Hash) (p : PremiumName) (pol : ParentPolicy) : Prop where
  premium : st.premium h = some p
  policy : st.policy p.nameHash = some pol
  parentHash : pol.parentHash = p.nameHash

/-- The account that proves who holds an NFT: its one token is of the mint. -/
structure Presents (st : State) (mint key : Pubkey) (account : TokenAccount) : Prop where
  atKey : st.tokens key = some account
  mintExists : st.mints mint ≠ none
  mint : account.mint = mint
  one : account.amount = 1

/-- **The effect of an instruction**: its checks, and the state it leaves. -/
inductive Effect (dep : Deployment) (clock : Clock) (st : State) : Instr → State → Prop where
  | initNamesConfig {a t z p b es ep} (cfg : NamesConfig) (hnone : st.config = none) :
    Effect dep clock st (.initNamesConfig a t z p b es ep) { st with config := some cfg }
  | initPremiumConfig {a v ta m d x e} (pcfg : PremiumConfig) (hnone : st.premiumConfig = none)
    (hlen : pcfg.reservedMaxLen = 2 ∧ pcfg.premiumMinLen = 3 ∧ pcfg.premiumMaxLen = 4) :
    Effect dep clock st (.initPremiumConfig a v ta m d x e) { st with premiumConfig := some pcfg }
  | purchasePremium {o name h} (cfg : NamesConfig) (pcfg : PremiumConfig) (label : Text)
    (paid : Holder → Nat) (hcfg : st.config = some cfg) (hpcfg : st.premiumConfig = some pcfg)
    (hnone : st.premium h = none) (hlabel : PremiumLabel dep name h label)
    (hclass : len label ≤ pcfg.reservedMaxLen ∧ o.key = pcfg.treasuryAuthority ∨
      pcfg.reservedMaxLen < len label ∧
        ¬(pcfg.premiumMinLen ≤ len label ∧ len label ≤ pcfg.premiumMaxLen))
    (hpaid : SameVaults st.lamports paid) :
    Effect dep clock st (.purchasePremium o name h)
      (createPremium clock (st.setLamports paid) h o.key cfg.premiumPriceLamports)
  | transferPremium {h o newOwner} (p : PremiumName) (pol : ParentPolicy) (hp : Named st h p pol)
    (howner : p.owner = o.key) (hbound : p.nftBound = false) :
    Effect dep clock st (.transferPremium h o newOwner)
      ((st.setPremium h { p with owner := newOwner }).setPolicy p.nameHash { pol with
        parentOwner := if pol.parentOwner = o.key then newOwner else pol.parentOwner })
  | bindPremiumNft {h o mint key} (p : PremiumName) (pol : ParentPolicy) (account : TokenAccount)
    (hp : Named st h p pol) (howner : p.owner = o.key) (htrans : p.transferable = true)
    (hacc : Presents st mint key account) (hacco : account.owner = o.key) :
    Effect dep clock st (.bindPremiumNft h o mint key)
      ((st.setPremium h { p with nftMint := mint, nftBound := true, owner := o.key }).setPolicy
        p.nameHash { pol with
          parentOwner := if pol.parentOwner = Pubkey.default ∨ pol.parentOwner = o.key then o.key
            else pol.parentOwner })
  | issuePremiumNft {o h} (p : PremiumName) (mints : Mints) (tokens : Tokens)
    (hp : st.premium h = some p) (hname : p.nameHash = h) (howner : p.owner = o.key)
    (htrans : p.transferable = true) (hmint : p.nftMint = Pubkey.default)
    (hissue : issueNft dep st.mints st.tokens (dep.premiumNftMint h) o.key = .ok (mints, tokens)) :
    Effect dep clock st (.issuePremiumNft o h)
      ((st.setTokens mints tokens).setPremium h
        { p with nftMint := dep.premiumNftMint h, nftBound := true })
  | syncPremiumOwnerFromNft {h mint key} (p : PremiumName) (pol : ParentPolicy)
    (account : TokenAccount) (hp : Named st h p pol) (hbound : p.nftBound = true)
    (hmint : p.nftMint = mint) (hacc : Presents st mint key account) :
    Effect dep clock st (.syncPremiumOwnerFromNft h mint key)
      ((st.setPremium h { p with owner := account.owner }).setPolicy p.nameHash { pol with
        parentOwner := if pol.parentOwner = Pubkey.default ∨ pol.parentOwner = p.owner ∨
          pol.parentOwner ≠ account.owner then account.owner else pol.parentOwner })
  | createAuction {o name h m d} (pcfg : PremiumConfig) (label : Text) (a : Auction)
    (hpcfg : st.premiumConfig = some pcfg) (hnone : st.auction h = none)
    (hauth : pcfg.authority = o.key) (hlabel : PremiumLabel dep name h label)
    (hlen : pcfg.premiumMinLen ≤ len label ∧ len label ≤ pcfg.premiumMaxLen)
    (hname : a.nameHash = h) (hstart : a.startSlot = clock.slot) (hend : clock.slot < a.endSlot)
    (hbidder : a.highestBidder = Pubkey.default) (hbid : a.highestBidLamports = 0)
    (hsettled : a.settled = false) :
    Effect dep clock st (.createAuction o name h m d) (st.setAuction h a)
  | placeBid {b h n} (pcfg : PremiumConfig) (a : Auction) (e : BidEscrow) (paid : Holder → Nat)
    (endSlot : Nat) (hbid : Bid dep clock st b.key h n pcfg a e paid endSlot) :
    Effect dep clock st (.placeBid b h n)
      (((st.setLamports paid).setEscrow h b.key
        { e with amountLamports := e.amountLamports + n }).setAuction h { a with
          highestBidder := b.key, highestBidLamports := e.amountLamports + n, endSlot })
  | withdrawLosingBid {b h} (a : Auction) (e : BidEscrow)
    (hw : Withdrawal dep st b.key h a e) :
    Effect dep clock st (.withdrawLosingBid b h)
      (st.setLamports (Function.update (Function.update st.lamports (.escrowVault h b.key)
        (st.lamports (.escrowVault h b.key) - e.amountLamports)) (.wallet b.key)
        (st.lamports (.wallet b.key) + e.amountLamports)))
  | settleAuction {w h t} (pcfg : PremiumConfig) (a : Auction)
    (hpcfg : st.premiumConfig = some pcfg) (ha : st.auction h = some a)
    (htreasury : t = pcfg.treasuryVault) (hnone : st.premium h = none) (hname : a.nameHash = h)
    (hsettled : a.settled = false) (hended : a.endSlot ≤ clock.slot)
    (hbid : 0 < a.highestBidLamports) (hwinner : a.highestBidder = w.key)
    (hcfg : st.config ≠ none) :
    Effect dep clock st (.settleAuction w h t)
      ((createPremium clock st h w.key a.highestBidLamports).setAuction h
        { a with settled := true })
  | claimSubdomain {o p l ph lh} (cfg : NamesConfig) (paid : Holder → Nat)
    (hcfg : st.config = some cfg) (hnone : st.sub ph lh = none)
    (hpaid : SameVaults st.lamports paid) (htexts : SubTexts dep p l ph lh) :
    Effect dep clock st (.claimSubdomain o p l ph lh)
      (upsertPrimaryIfEmpty ((st.setLamports paid).setSub ph lh {
        parentHash := ph, labelHash := lh, owner := o.key
        transferPolicy := transferNonTransferable, parentOwner := Pubkey.default
        transfersEnabled := false, createdAt := clock.unixTimestamp
        nftMint := Pubkey.default, nftCustodyAccount := Pubkey.default }) o.key
        (subdomainNameHash dep ph lh) kindSubdomain)
  | issueSubdomainNft {o ph lh} (s : SubName) (mints : Mints) (tokens : Tokens)
    (hs : st.sub ph lh = some s) (howner : s.owner = o.key) (hmint : s.nftMint = Pubkey.default)
    (hissue : issueNft dep st.mints st.tokens (dep.subNftMint ph lh) dep.nftCustodyAuthority =
      .ok (mints, tokens)) :
    Effect dep clock st (.issueSubdomainNft o ph lh)
      ((st.setTokens mints tokens).setSub ph lh { s with
        nftMint := dep.subNftMint ph lh
        nftCustodyAccount :=
          dep.associatedToken (dep.subNftMint ph lh) dep.nftCustodyAuthority })
  | claimDelegatedSubdomain {po p l ph lh o} (premium : PremiumName) (pol : ParentPolicy)
    (hp : st.premium ph = some premium) (hname : premium.nameHash = ph)
    (howner : premium.owner = po.key) (hnone : st.sub ph lh = none)
    (hpol : claimPolicy st ph po.key = .ok pol) (htexts : SubTexts dep p l ph lh) :
    Effect dep clock st (.claimDelegatedSubdomain po p l ph lh o)
      ((st.setPolicy ph pol).setSub ph lh {
        parentHash := ph, labelHash := lh, owner := o
        transferPolicy := transferParentControlled, parentOwner := po.key
        transfersEnabled := pol.transfersEnabled, createdAt := clock.unixTimestamp
        nftMint := Pubkey.default, nftCustodyAccount := Pubkey.default })
  | setParentSubdomainPolicy {po p ph b} (premium : PremiumName) (pol : ParentPolicy)
    (hp : st.premium ph = some premium) (hname : premium.nameHash = ph)
    (howner : premium.owner = po.key) (hpol : claimPolicy st ph po.key = .ok pol) :
    Effect dep clock st (.setParentSubdomainPolicy po p ph b)
      (st.setPolicy ph { pol with transfersEnabled := b })
  | transferSubdomain {o n po wp p l ph lh} (s : SubName) (policy : Option ParentPolicy)
    (hs : st.sub ph lh = some s) (hpol : policy = if wp then st.policy ph else none)
    (howner : s.owner = o.key) (hallowed : checkTransferPolicy s policy po = .ok ()) :
    Effect dep clock st (.transferSubdomain o n po wp p l ph lh)
      (st.setSub ph lh { s with owner := n })
  | setPrimaryName {o pk sk h kind} (premium : Option PremiumName) (sub : Option SubName)
    (hpremium : loadOptional st.premium pk = .ok premium)
    (hsub : loadOptional (fun k => st.sub k.1 k.2) sk = .ok sub)
    (hcheck : checkPrimary dep o premium sub h kind = .ok ()) :
    Effect dep clock st (.setPrimaryName o pk sk h kind)
      (st.setPrimary o.key ⟨o.key, h, kind, true⟩)
  | createMint {m a} (hnone : st.mints m.key = none) :
    Effect dep clock st (.createMint m a)
      (st.setTokens (Function.update st.mints m.key (some ⟨some a, 0⟩)) st.tokens)
  | openTokenAccount {a m o} (hnone : st.tokens a = none) (hm : st.mints m ≠ none) :
    Effect dep clock st (.openTokenAccount a m o)
      (st.setTokens st.mints (Function.update st.tokens a (some ⟨m, o, 0⟩)))
  | splMintTo {a m d n} (mints : Mints) (tokens : Tokens)
    (hmint : (mintTo st.mints st.tokens m d a.key n : Result NamesError _) = .ok (mints, tokens)) :
    Effect dep clock st (.splMintTo a m d n) (st.setTokens mints tokens)
  | splTransfer {a s d n} (tokens : Tokens)
    (htransfer : (st.tokens.transfer s d a.key n : Result NamesError _) = .ok tokens) :
    Effect dep clock st (.splTransfer a s d n) (st.setTokens st.mints tokens)

variable {dep : Deployment} {clock : Clock} {st st' : State} {i : Instr}

/-- The policy of a name has the hash of the name. -/
theorem policyOf_eq_ok {p : PremiumName} {pol : ParentPolicy} :
    policyOf st p = .ok pol ↔ st.policy p.nameHash = some pol ∧ pol.parentHash = p.nameHash := by
  simp only [policyOf, bind_eq_ok, load_eq_ok, require_eq_ok, exists_unit, pure_eq_ok]
  constructor
  · rintro ⟨q, hq, hh, rfl⟩
    exact ⟨hq, hh⟩
  · rintro ⟨hq, hh⟩
    exact ⟨pol, hq, hh, rfl⟩

/-- A binding succeeds exactly if its checks hold. -/
theorem bindPremiumNft_eq_ok {h : Hash} {o : Signer} {m key : Pubkey} :
    bindPremiumNft st h o m key = .ok st' ↔ ∃ p pol account, Named st h p pol ∧ p.owner = o.key ∧
      p.transferable = true ∧ Presents st m key account ∧ account.owner = o.key ∧
      st' = (st.setPremium h { p with nftMint := m, nftBound := true, owner := o.key }).setPolicy
        p.nameHash { pol with
          parentOwner := if pol.parentOwner = Pubkey.default ∨ pol.parentOwner = o.key then o.key
            else pol.parentOwner } := by
  simp only [bindPremiumNft, bind_eq_ok, load_eq_ok, policyOf_eq_ok, require_eq_ok, exists_unit,
    pure_eq_ok]
  constructor
  · rintro ⟨p, hp, pol, ⟨hpol, hhash⟩, mint, hm, acc, hacc, hmint, howner, htr, hone, hacco, rfl⟩
    have hmints : st.mints m ≠ none := hm ▸ Option.some_ne_none mint
    exact ⟨p, pol, acc, ⟨hp, hpol, hhash⟩, howner, htr, ⟨hacc, hmints, hmint, hone⟩, hacco, rfl⟩
  · rintro ⟨p, pol, acc, ⟨hp, hpol, hhash⟩, howner, htr, ⟨hacc, hmints, hmint, hone⟩, hacco, rfl⟩
    obtain ⟨mint, hm⟩ := Option.ne_none_iff_exists'.1 hmints
    exact ⟨p, hp, pol, ⟨hpol, hhash⟩, mint, hm, acc, hacc, hmint, howner, htr, hone, hacco, rfl⟩

/-- A sync succeeds exactly if its checks hold. -/
theorem syncPremiumOwnerFromNft_eq_ok {h : Hash} {m key : Pubkey} :
    syncPremiumOwnerFromNft st h m key = .ok st' ↔ ∃ p pol account, Named st h p pol ∧
      p.nftBound = true ∧ p.nftMint = m ∧ Presents st m key account ∧
      st' = (st.setPremium h { p with owner := account.owner }).setPolicy p.nameHash { pol with
        parentOwner := if pol.parentOwner = Pubkey.default ∨ pol.parentOwner = p.owner ∨
          pol.parentOwner ≠ account.owner then account.owner else pol.parentOwner } := by
  simp only [syncPremiumOwnerFromNft, bind_eq_ok, load_eq_ok, policyOf_eq_ok, require_eq_ok,
    exists_unit, pure_eq_ok]
  constructor
  · rintro ⟨p, hp, pol, ⟨hpol, hhash⟩, mint, hm, acc, hacc, hmint, hbound, hnft, hone, rfl⟩
    have hmints : st.mints m ≠ none := hm ▸ Option.some_ne_none mint
    exact ⟨p, pol, acc, ⟨hp, hpol, hhash⟩, hbound, hnft, ⟨hacc, hmints, hmint, hone⟩, rfl⟩
  · rintro ⟨p, pol, acc, ⟨hp, hpol, hhash⟩, hbound, hnft, ⟨hacc, hmints, hmint, hone⟩, rfl⟩
    obtain ⟨mint, hm⟩ := Option.ne_none_iff_exists'.1 hmints
    exact ⟨p, hp, pol, ⟨hpol, hhash⟩, mint, hm, acc, hacc, hmint, hbound, hnft, hone, rfl⟩

theorem placeBid_effect {b : Signer} {h : Hash} {n : Nat}
    (hok : placeBid dep clock st b h n = .ok st') :
    Effect dep clock st (.placeBid b h n) st' := by
  simp only [placeBid, bind_eq_ok, load_eq_ok, require_eq_ok, okOr_eq_ok, Checked.add_eq_some,
    exists_unit, pure_eq_ok, Bool.not_eq_true] at hok
  obtain ⟨pcfg, hpcfg, a, ha, funded, hfund, hpos, ⟨hen, hset⟩, hname, hlive, e, he, _, ⟨hb, rfl⟩,
    _, ⟨-, rfl⟩, hmin, paid, hpay, endSlot, hend, rfl⟩ := hok
  obtain ⟨hf, hfs⟩ := fundVault_ok hfund
  obtain ⟨hp, hps⟩ := transfer_vault hpay
  refine .placeBid pcfg a e paid endSlot ⟨hpcfg, ha, hpos, hen, hset, hname, hlive, he, ?_, ?_, hb,
    ?_, ?_, ?_, hend⟩
  · split at hmin <;> omega
  · split at hmin <;> omega
  · rw [hp, hf]
  · intro h' k' hne
    rw [hps h' k' hne, hfs h' k' hne]
  · rw [transfer_pair hpay, fundVault_pair hfund]

/-- A withdrawal succeeds exactly if its checks hold. -/
theorem withdrawLosingBid_eq_ok {b : Signer} {h : Hash} :
    withdrawLosingBid dep st b h = .ok st' ↔ ∃ a e, Withdrawal dep st b.key h a e ∧
      st' = st.setLamports (Function.update (Function.update st.lamports (.escrowVault h b.key)
        (st.lamports (.escrowVault h b.key) - e.amountLamports)) (.wallet b.key)
        (st.lamports (.wallet b.key) + e.amountLamports)) := by
  simp only [withdrawLosingBid, bind_eq_ok, load_eq_ok, require_eq_ok, demand_eq_ok, okOr_eq_ok,
    Checked.add_eq_some, Checked.sub_eq_some, exists_unit, pure_eq_ok, Bool.not_eq_true]
  constructor
  · rintro ⟨a, ha, e, he, hname, -, hout, hen, heb, ⟨hact, href⟩, hpos, hle, _, ⟨-, rfl⟩, _,
      ⟨hcred, rfl⟩, hrent, rfl⟩
    exact ⟨a, e, ⟨ha, he, hname, hout, hen, heb, hact, href, hpos, hle, hcred, hrent⟩, rfl⟩
  · rintro ⟨a, e, ⟨ha, he, hname, hout, hen, heb, hact, href, hpos, hle, hcred, hrent⟩, rfl⟩
    exact ⟨a, ha, e, he, hname, .inr hout, hout, hen, heb, ⟨hact, href⟩, hpos, hle, _, ⟨hle, rfl⟩,
      _, ⟨hcred, rfl⟩, hrent, rfl⟩

/-- A settlement succeeds exactly if its checks hold. -/
theorem settleAuction_eq_ok {w : Signer} {h : Hash} {t : Pubkey} :
    settleAuction clock st w h t = .ok st' ↔ ∃ pcfg a, st.config ≠ none ∧
      st.premiumConfig = some pcfg ∧ st.auction h = some a ∧ t = pcfg.treasuryVault ∧
      st.premium h = none ∧ a.nameHash = h ∧ a.settled = false ∧ a.endSlot ≤ clock.slot ∧
      0 < a.highestBidLamports ∧ a.highestBidder = w.key ∧
      st' = (createPremium clock st h w.key a.highestBidLamports).setAuction h
        { a with settled := true } := by
  simp only [settleAuction, bind_eq_ok, load_eq_ok, vacant_eq_ok, demand_eq_ok, require_eq_ok,
    exists_unit, pure_eq_ok, Bool.not_eq_true]
  constructor
  · rintro ⟨cfg, hcfg, pcfg, hpcfg, a, ha, ht, hnone, hname, hset, hend, hbid, hwin, -, rfl⟩
    have hne : st.config ≠ none := hcfg ▸ Option.some_ne_none cfg
    exact ⟨pcfg, a, hne, hpcfg, ha, ht, hnone, hname, hset, hend, hbid, hwin, rfl⟩
  · rintro ⟨pcfg, a, hne, hpcfg, ha, ht, hnone, hname, hset, hend, hbid, hwin, rfl⟩
    obtain ⟨cfg, hcfg⟩ := Option.ne_none_iff_exists'.1 hne
    exact ⟨cfg, hcfg, pcfg, hpcfg, a, ha, ht, hnone, hname, hset, hend, hbid, hwin, ht, rfl⟩

theorem purchasePremium_effect {o : Signer} {name : Text} {h : Hash}
    (hok : purchasePremium dep clock st o name h = .ok st') :
    Effect dep clock st (.purchasePremium o name h) st' := by
  simp only [purchasePremium, bind_eq_ok, load_eq_ok, vacant_eq_ok, require_eq_ok, exists_unit,
    premiumLabel_eq_ok] at hok
  obtain ⟨cfg, hcfg, pcfg, hpcfg, hnone, -, n, hn, label, ⟨hlabel, -⟩, hvalid, hhash, hok⟩ := hok
  have hl : PremiumLabel dep name h label := ⟨⟨n, hn, hlabel, hhash⟩, hvalid⟩
  split at hok
  · next hle =>
    simp only [bind_eq_ok, require_eq_ok, exists_unit, pure_eq_ok] at hok
    obtain ⟨howner, paid, hpaid, rfl⟩ := hok
    exact .purchasePremium cfg pcfg label paid hcfg hpcfg hnone hl (.inl ⟨hle, howner⟩)
      (payWallet_sameVaults hpaid)
  · next hlt =>
    simp only [bind_eq_ok, require_eq_ok, exists_unit, pure_eq_ok] at hok
    obtain ⟨hlen, paid, hpaid, rfl⟩ := hok
    exact .purchasePremium cfg pcfg label paid hcfg hpcfg hnone hl
      (.inr ⟨Nat.lt_of_not_le hlt, hlen⟩) (payWallet_sameVaults hpaid)

theorem checkHashes_eq_ok {n l : Text} {ph lh : Hash} :
    checkHashes dep n l ph lh = .ok () ↔ hashName dep n = ph ∧ hashLabel dep l = lh := by
  simp only [checkHashes, bind_eq_ok, require_eq_ok, exists_unit]

theorem loadOptional_policy {ph : Hash} {wp : Bool} {policy : Option ParentPolicy}
    (h : loadOptional st.policy (if wp then some ph else none) = .ok policy) :
    policy = if wp then st.policy ph else none := by
  cases wp with
  | false =>
    cases h
    rfl
  | true =>
    simp only [loadOptional, if_true, map_eq_ok, load_eq_ok] at h ⊢
    obtain ⟨pol, hpol, rfl⟩ := h
    exact hpol.symm

/-- Every instruction that succeeds has its effect. -/
theorem execute_effect (h : execute dep clock st i = .ok st') : Effect dep clock st i st' := by
  cases i with
  | initNamesConfig a t z p b es ep =>
    simp only [execute, initNamesConfig, bind_eq_ok, vacant_eq_ok, exists_unit, pure_eq_ok] at h
    obtain ⟨hnone, _, -, -, -, rfl⟩ := h
    exact .initNamesConfig _ hnone
  | initPremiumConfig a v ta m d x e =>
    simp only [execute, initPremiumConfig, bind_eq_ok, vacant_eq_ok, exists_unit, pure_eq_ok] at h
    obtain ⟨hnone, rfl⟩ := h
    exact .initPremiumConfig _ hnone ⟨rfl, rfl, rfl⟩
  | purchasePremium o n h' => exact purchasePremium_effect h
  | transferPremium h' o n =>
    simp only [execute, transferPremium, bind_eq_ok, load_eq_ok, policyOf_eq_ok, require_eq_ok,
      exists_unit, pure_eq_ok, Bool.not_eq_true] at h
    obtain ⟨p, hp, pol, ⟨hpol, hhash⟩, howner, hbound, rfl⟩ := h
    exact .transferPremium p pol ⟨hp, hpol, hhash⟩ howner hbound
  | bindPremiumNft h' o m a =>
    obtain ⟨p, pol, acc, hp, howner, htr, hacc, hacco, rfl⟩ := bindPremiumNft_eq_ok.1 h
    exact .bindPremiumNft p pol acc hp howner htr hacc hacco
  | issuePremiumNft o h' =>
    simp only [execute, issuePremiumNft, bind_eq_ok, load_eq_ok, require_eq_ok, exists_unit,
      pure_eq_ok] at h
    obtain ⟨p, hp, hname, howner, htr, hmint, ⟨mints, tokens⟩, hissue, rfl⟩ := h
    exact .issuePremiumNft p mints tokens hp hname howner htr hmint hissue
  | syncPremiumOwnerFromNft h' m a =>
    obtain ⟨p, pol, acc, hp, hbound, hnft, hacc, rfl⟩ := syncPremiumOwnerFromNft_eq_ok.1 h
    exact .syncPremiumOwnerFromNft p pol acc hp hbound hnft hacc
  | createAuction a n h' m d =>
    simp only [execute, createAuction, bind_eq_ok, load_eq_ok, vacant_eq_ok, require_eq_ok,
      premiumLabel_eq_ok, okOr_eq_ok, Checked.add_eq_some, exists_unit, pure_eq_ok] at h
    obtain ⟨pcfg, hpcfg, hnone, -, hauth, n', hn', label, ⟨hlabel, -⟩, hvalid, hhash, hlen, hpos, _,
      ⟨-, rfl⟩, rfl⟩ := h
    exact .createAuction pcfg label _ hpcfg hnone hauth ⟨⟨n', hn', hlabel, hhash⟩, hvalid⟩ hlen rfl
      rfl (Nat.lt_add_of_pos_right hpos) rfl rfl rfl
  | placeBid b h' n => exact placeBid_effect h
  | withdrawLosingBid b h' =>
    obtain ⟨a, e, hw, rfl⟩ := withdrawLosingBid_eq_ok.1 h
    exact .withdrawLosingBid a e hw
  | settleAuction w h' t =>
    obtain ⟨pcfg, a, hcfg, hpcfg, ha, ht, hnone, hname, hset, hend, hbid, hwin, rfl⟩ :=
      settleAuction_eq_ok.1 h
    exact .settleAuction pcfg a hpcfg ha ht hnone hname hset hend hbid hwin hcfg
  | claimSubdomain o p l ph lh =>
    simp only [execute, claimSubdomain, bind_eq_ok, load_eq_ok, vacant_eq_ok, require_eq_ok,
      checkHashes_eq_ok, exists_unit, pure_eq_ok] at h
    obtain ⟨cfg, hcfg, hnone, -, n, hn, -, lab, hlab, ⟨hph, hlh⟩, paid, hpaid, rfl⟩ := h
    exact .claimSubdomain cfg paid hcfg hnone (payWallet_sameVaults hpaid)
      ⟨⟨n, hn, hph⟩, lab, hlab, hlh⟩
  | issueSubdomainNft o ph lh =>
    simp only [execute, issueSubdomainNft, bind_eq_ok, load_eq_ok, require_eq_ok, exists_unit,
      pure_eq_ok] at h
    obtain ⟨s, hs, -, howner, hmint, ⟨mints, tokens⟩, hissue, rfl⟩ := h
    exact .issueSubdomainNft s mints tokens hs howner hmint hissue
  | claimDelegatedSubdomain po p l ph lh o =>
    simp only [execute, claimDelegatedSubdomain, bind_eq_ok, load_eq_ok, vacant_eq_ok,
      require_eq_ok, checkHashes_eq_ok, exists_unit, pure_eq_ok] at h
    obtain ⟨_, -, premium, hp, hnone, n, hn, lab, hlab, ⟨hph, hlh⟩, hname, howner, pol, hpol, rfl⟩ :=
      h
    exact .claimDelegatedSubdomain premium pol hp hname howner hnone hpol
      ⟨⟨n, hn, hph⟩, lab, hlab, hlh⟩
  | setParentSubdomainPolicy po p ph b =>
    simp only [execute, setParentSubdomainPolicy, bind_eq_ok, load_eq_ok, require_eq_ok,
      exists_unit, pure_eq_ok] at h
    obtain ⟨_, -, premium, hp, _, -, -, hname, howner, pol, hpol, rfl⟩ := h
    exact .setParentSubdomainPolicy premium pol hp hname howner hpol
  | transferSubdomain o n po wp p l ph lh =>
    simp only [execute, transferSubdomain, bind_eq_ok, load_eq_ok, require_eq_ok, exists_unit,
      pure_eq_ok] at h
    obtain ⟨s, hs, policy, hpol, _, -, _, -, -, -, howner, hallowed, rfl⟩ := h
    exact .transferSubdomain s policy hs (loadOptional_policy hpol) howner hallowed
  | setPrimaryName o pk sk h' k =>
    simp only [execute, setPrimaryName, bind_eq_ok, exists_unit, pure_eq_ok] at h
    obtain ⟨premium, hpremium, sub, hsub, hcheck, rfl⟩ := h
    exact .setPrimaryName premium sub hpremium hsub hcheck
  | createMint m a =>
    simp only [execute, createMint, bind_eq_ok, vacant_eq_ok, exists_unit, pure_eq_ok] at h
    obtain ⟨hnone, rfl⟩ := h
    exact .createMint hnone
  | openTokenAccount a m o =>
    simp only [execute, openTokenAccount, bind_eq_ok, vacant_eq_ok, load_eq_ok, exists_unit,
      pure_eq_ok] at h
    obtain ⟨hnone, _, hm, rfl⟩ := h
    refine .openTokenAccount hnone ?_
    rw [hm]
    exact Option.some_ne_none _
  | splMintTo a m d n =>
    simp only [execute, splMintTo, bind_eq_ok, pure_eq_ok] at h
    obtain ⟨⟨mints, tokens⟩, hmint, rfl⟩ := h
    exact .splMintTo mints tokens hmint
  | splTransfer a s d n =>
    simp only [execute, splTransfer, bind_eq_ok, pure_eq_ok] at h
    obtain ⟨tokens, htransfer, rfl⟩ := h
    exact .splTransfer tokens htransfer

/-- **What a step does**: it leaves the accounts alone, or it commits the effect of an
instruction. -/
theorem step_effect (dep : Deployment) (c : Chain State) (act : Action Instr) :
    ((step dep c act).1.accounts = c.accounts ∧ (step dep c act).2 ≠ some (.ok ())) ∨
      ∃ i st', act = .submit i ∧ Effect dep c.clock c.accounts i st' ∧
        step dep c act = (⟨c.clock, st'⟩, some (.ok ())) := by
  rcases chainStep_commits (process dep) c act with ⟨hsame, hno⟩ | ⟨i, st', w, rfl, hok, hs⟩
  · exact .inl ⟨hsame, hno ()⟩
  · obtain ⟨_, hex, heq⟩ := map_eq_ok.1 hok
    cases heq
    exact .inr ⟨i, st', rfl, execute_effect hex, hs⟩

/-- An instruction that is answered with success had its effect. -/
theorem event_effect {c : Chain State} {act : Action Instr}
    (hi : (event (step dep) c act).input = .submit i)
    (hout : (event (step dep) c act).out = some (.ok ())) :
    ∃ st', Effect dep c.clock c.accounts i st' ∧
      (event (step dep) c act).post = ⟨c.clock, st'⟩ := by
  rcases step_effect dep c act with ⟨-, hno⟩ | ⟨j, st', hj, heff, hs⟩
  · exact absurd hout hno
  · obtain rfl : i = j := Action.submit.inj (hi.symm.trans hj)
    exact ⟨st', heff, congrArg Prod.fst hs⟩

/-- What every effect keeps, every step keeps. -/
theorem step_invariant {P : State → Prop}
    (heff : ∀ clock st i st', P st → Effect dep clock st i st' → P st') {c : Chain State}
    (act : Action Instr) (h : P c.accounts) : P (step dep c act).1.accounts := by
  rcases step_effect dep c act with ⟨hsame, -⟩ | ⟨i, st', -, he, hs⟩
  · rw [hsame]
    exact h
  · rw [hs]
    exact heff _ _ i st' h he

/-- What every effect keeps, every run keeps. -/
theorem exec_invariant {P : State → Prop}
    (heff : ∀ clock st i st', P st → Effect dep clock st i st' → P st') {c : Chain State}
    (is : List (Action Instr)) (h : P c.accounts) : P (exec (step dep) c is).accounts :=
  exec_induction (P := fun c : Chain State => P c.accounts)
    (fun _ act h => step_invariant heff act h) h is

end Ddns.Names
