import Ddns.Names.Primary
import Ddns.Names.Registration

/-!
# Names that the program takes

An instruction fails for its name, or for another reason: the name is taken, sales are closed, or
the wallet cannot pay. The lemmas here say that the instructions of a registration do not fail for
the name, each after the one before it (`Admitted`).
-/

namespace Ddns.Names

open Tx Registration
open JsText (LowerCase)

/-- A check of the name that an instruction is called with has failed, or it was called with the
address of another account. -/
def isNameRefusal : Failure NamesError → Bool
  | .custom .invalidName => true
  | .custom .invalidLabel => true
  | .custom .invalidHash => true
  | .custom .invalidParent => true
  | .custom .reservedName => true
  | .custom .auctionRequired => true
  | .custom .invalidKind => true
  | .custom .missingRequiredAccount => true
  | .accountMissing => true
  | _ => false

/-- An outcome that is no refusal of the name. -/
def Admitted {α : Type} (r : Result NamesError α) : Prop :=
  ∀ e, r = .error e → isNameRefusal e = false

/-- The program is set up for a parent zone, and the wallet is an ordinary one. -/
structure Deployed (zone : Text) (owner : Pubkey) (st : State) : Prop where
  config : ∃ cfg, st.config = some cfg ∧ cfg.parentZone = zone
  premiumConfig : ∃ pcfg, st.premiumConfig = some pcfg ∧ pcfg.reservedMaxLen = 2 ∧
    pcfg.premiumMinLen = 3 ∧ pcfg.premiumMaxLen = 4 ∧ owner ≠ pcfg.treasuryAuthority

/-- Names are for sale and the wallet can pay for one. -/
structure OnSale (owner : Pubkey) (st : State) : Prop where
  premium : ∀ cfg, st.config = some cfg → cfg.enablePremium = true ∧ ∃ paid,
    payWallet st.lamports owner cfg.treasury cfg.premiumPriceLamports = .ok paid
  enabled : ∀ pcfg, st.premiumConfig = some pcfg → pcfg.enabled = true
  subdomain : ∀ cfg, st.config = some cfg → cfg.enableSubdomains = true ∧ ∃ paid,
    payWallet st.lamports owner cfg.treasury cfg.subdomainBondLamports = .ok paid

/-! ## Outcomes that are no refusals -/

section Outcomes

variable {α β : Type} {r : Result NamesError α}

theorem Admitted.ok (a : α) : Admitted (.ok a : Result NamesError α) := by
  intro e he
  cases he

theorem Admitted.pure (a : α) : Admitted (pure a : Result NamesError α) := Admitted.ok a

theorem Admitted.bind {f : α → Result NamesError β} (hr : Admitted r)
    (hf : ∀ a, r = .ok a → Admitted (f a)) : Admitted (r >>= f) := by
  intro e he
  rcases bind_eq_error.1 he with herr | ⟨a, ha, herr⟩
  · exact hr e herr
  · exact hf a ha e herr

/-- After a step that succeeds, the rest decides. -/
theorem Admitted.ok_bind {f : α → Result NamesError β} {a : α} (h : r = .ok a)
    (hf : Admitted (f a)) : Admitted (r >>= f) := by
  rw [h]
  exact hf

/-- So it does for what is granted. -/
theorem granted_bind {f : α → Result NamesError β} {a : α} (h : r = .ok a)
    (hf : ∃ b, f a = .ok b) : ∃ b, (r >>= f) = .ok b := by
  rw [h]
  exact hf

theorem granted_check {c : Prop} [Decidable c] {err : NamesError} {f : Unit → Result NamesError β}
    (h : c) (hf : ∃ b, f () = .ok b) : ∃ b, (require c err >>= f) = .ok b :=
  granted_bind (require_eq_ok.2 h) hf

/-- A check that holds. -/
theorem Admitted.check_bind {c : Prop} [Decidable c] {err : NamesError}
    {f : Unit → Result NamesError β} (h : c) (hf : Admitted (f ())) :
    Admitted (require c err >>= f) :=
  Admitted.ok_bind (require_eq_ok.2 h) hf

theorem Admitted.vacant (o : Option α) : Admitted (vacant o : Result NamesError Unit) := by
  intro e he
  cases o with
  | none => cases he
  | some a =>
    cases he
    rfl

theorem Admitted.require {c : Prop} [Decidable c] {err : NamesError}
    (h : c ∨ isNameRefusal (.custom err) = false) :
    Admitted (require c err : Result NamesError Unit) := by
  intro e he
  obtain ⟨hc, rfl⟩ := require_eq_error.1 he
  exact h.resolve_left hc

theorem Admitted.demand {c : Prop} [Decidable c] {f : Failure NamesError}
    (h : isNameRefusal f = false) : Admitted (demand c f : Result NamesError Unit) := by
  intro e he
  obtain ⟨-, rfl⟩ := demand_eq_error.1 he
  exact h

theorem payWallet_admitted (b : Holder → Nat) (src dst : Pubkey) (n : Nat) :
    Admitted (payWallet b src dst n) := by
  unfold payWallet transferLamports
  split
  · split
    · exact Admitted.ok _
    · intro e he
      cases he
      rfl
  · exact Admitted.pure _

end Outcomes

/-! ## The instructions of a plan -/

section Instructions

variable {dep : Deployment} {clock : Clock} {st : State} {payer : Signer} {zone label : Text}
  {h ph lh : Hash}

theorem issueNft_admitted (mints : Mints) (tokens : Tokens) (mint owner : Pubkey) :
    Admitted (issueNft dep mints tokens mint owner) := by
  unfold issueNft
  apply Admitted.bind (Admitted.vacant _)
  rintro - -
  apply Admitted.bind
  · unfold initAssociatedToken
    split
    · exact Admitted.pure _
    · exact Admitted.bind (Admitted.demand rfl) fun _ _ => Admitted.pure _
  · intro tokens' htokens
    have hopen : ∃ account, tokens' (dep.associatedToken mint owner) = some account := by
      unfold initAssociatedToken at htokens
      split at htokens
      · cases htokens
        exact ⟨_, Function.update_self ..⟩
      · next account haccount =>
        simp only [bind_eq_ok, demand_eq_ok, exists_unit, pure_eq_ok] at htokens
        obtain ⟨-, rfl⟩ := htokens
        exact ⟨account, haccount⟩
    obtain ⟨account, haccount⟩ := hopen
    have hmint : (load (Function.update mints mint (some ⟨some dep.nftAuthority, 0⟩) mint) :
        Result NamesError Mint) = .ok ⟨some dep.nftAuthority, 0⟩ :=
      load_eq_ok.2 (Function.update_self ..)
    unfold mintTo
    apply Admitted.ok_bind hmint
    apply Admitted.ok_bind (load_eq_ok.2 haccount)
    apply Admitted.bind (Admitted.demand rfl)
    rintro - -
    apply Admitted.bind (Admitted.demand rfl)
    rintro - -
    apply Admitted.bind (Admitted.demand rfl)
    rintro - -
    exact Admitted.bind (Admitted.demand rfl) fun _ _ => Admitted.pure _

/-- It is sold if it is free. -/
theorem purchasePremium_sold {name : Text} (hd : Deployed zone payer.key st)
    (ho : OnSale payer.key st) (hs : Splits name label dns) (hlong : 5 ≤ label.length)
    (hfree : st.premium (hashName dep name) = none) :
    ∃ st', purchasePremium dep clock st payer name (hashName dep name) = .ok st' := by
  obtain ⟨hname, hlabel⟩ := program_normalizeFullName hs
  have hvalid := isValidLabel_iff.1 hs.label
  have hlen := len_of_validateLabelFrom hvalid
  obtain ⟨cfg, hcfg, -⟩ := hd.config
  obtain ⟨pcfg, hpcfg, hreserved, hmin, hmax, -⟩ := hd.premiumConfig
  obtain ⟨henable, paid, hpaid⟩ := ho.premium cfg hcfg
  unfold purchasePremium
  apply granted_bind (load_eq_ok.2 hcfg)
  apply granted_bind (load_eq_ok.2 hpcfg)
  apply granted_bind (a := ()) (vacant_eq_ok.2 hfree)
  apply granted_check ⟨henable, ho.enabled pcfg hpcfg⟩
  apply granted_bind hname
  apply granted_bind hlabel
  apply granted_bind hvalid
  apply granted_check rfl
  rw [if_neg (by omega)]
  apply granted_check (by omega)
  exact granted_bind hpaid ⟨_, rfl⟩

/-- A premium name of the gateway that is long enough is not refused. -/
theorem purchasePremium_admitted {name : Text} (hd : Deployed zone payer.key st)
    (hs : Splits name label dns) (hlong : 5 ≤ label.length) :
    Admitted (purchasePremium dep clock st payer name (hashName dep name)) := by
  obtain ⟨hname, hlabel⟩ := program_normalizeFullName hs
  have hvalid := isValidLabel_iff.1 hs.label
  have hlen := len_of_validateLabelFrom hvalid
  obtain ⟨cfg, hcfg, -⟩ := hd.config
  obtain ⟨pcfg, hpcfg, hreserved, hmin, hmax, -⟩ := hd.premiumConfig
  unfold purchasePremium
  apply Admitted.ok_bind (load_eq_ok.2 hcfg)
  apply Admitted.ok_bind (load_eq_ok.2 hpcfg)
  apply Admitted.bind (Admitted.vacant _)
  rintro - -
  apply Admitted.bind (Admitted.require (.inr rfl))
  rintro - -
  apply Admitted.ok_bind hname
  apply Admitted.ok_bind hlabel
  apply Admitted.ok_bind hvalid
  apply Admitted.check_bind (rfl)
  rw [if_neg (by omega)]
  apply Admitted.check_bind ((by omega))
  exact Admitted.bind (payWallet_admitted _ _ _ _) fun _ _ => Admitted.pure _

/-- The name at `h` is the wallet's. -/
def HoldsPremium (st : State) (owner : Pubkey) (h : Hash) : Prop :=
  ∃ p, st.premium h = some p ∧ p.nameHash = h ∧ p.owner = owner

/-- A name that was bought has no NFT yet. -/
theorem purchasePremium_holds {name : Text} {st' : State}
    (hok : purchasePremium dep clock st payer name h = .ok st') :
    ∃ p, st'.premium h = some p ∧ p.nameHash = h ∧ p.owner = payer.key ∧
      p.nftMint = Pubkey.default ∧ p.transferable = true := by
  cases purchasePremium_effect hok with
  | purchasePremium cfg pcfg label paid =>
    exact ⟨_, Function.update_self .., rfl, rfl, rfl, rfl⟩

theorem issuePremiumNft_admitted {p : PremiumName} (hp : st.premium h = some p)
    (hname : p.nameHash = h) (howner : p.owner = payer.key) (hmint : p.nftMint = Pubkey.default)
    (htransferable : p.transferable = true) : Admitted (issuePremiumNft dep st payer h) := by
  unfold issuePremiumNft
  apply Admitted.ok_bind (load_eq_ok.2 hp)
  apply Admitted.check_bind (hname)
  apply Admitted.check_bind (howner)
  apply Admitted.check_bind (htransferable)
  apply Admitted.check_bind (hmint)
  exact Admitted.bind (issueNft_admitted _ _ _ _) fun _ _ => Admitted.pure _

theorem issuePremiumNft_holds {st' : State} (hok : issuePremiumNft dep st payer h = .ok st') :
    HoldsPremium st' payer.key h := by
  simp only [issuePremiumNft, bind_eq_ok, load_eq_ok, require_eq_ok, exists_unit, pure_eq_ok]
    at hok
  obtain ⟨p, hp, hname, howner, -, -, ⟨mints, tokens⟩, -, rfl⟩ := hok
  exact ⟨_, Function.update_self .., hname, howner⟩

theorem loadOptional_found {κ α : Type} {accounts : κ → Option α} {k : κ} {a : α}
    (h : accounts k = some a) : loadOptional accounts (some k) = .ok (some a) := by
  simp only [loadOptional, map_eq_ok, load_eq_ok]
  exact ⟨a, h, rfl⟩

theorem setPrimaryPremium_admitted (hp : HoldsPremium st payer.key h) :
    Admitted (setPrimaryName dep st payer (some h) none h kindPremium) := by
  obtain ⟨p, hp, hname, howner⟩ := hp
  have hload : loadOptional st.premium (some h) = .ok (some p) := loadOptional_found hp
  have hcheck : checkPrimary dep payer (some p) none h kindPremium = .ok () := by
    unfold checkPrimary
    rw [if_pos rfl]
    simp only [bind_eq_ok, okOr_eq_ok, require_eq_ok, exists_unit]
    exact ⟨p, rfl, hname, howner⟩
  unfold setPrimaryName
  apply Admitted.ok_bind hload
  apply Admitted.ok_bind (a := none) rfl
  apply Admitted.ok_bind hcheck
  exact Admitted.pure _

/-- A subdomain of the zone that is long enough is not refused. -/
theorem claimSubdomain_admitted {parent : Text} (hd : Deployed zone payer.key st)
    (hparent : normalizeFullName parent = .ok zone) (hlabel : normalizeLabel label = .ok label)
    (hhash : hashName dep zone = hashName dep parent) :
    Admitted (claimSubdomain dep clock st payer parent label (hashName dep parent)
      (hashLabel dep label)) := by
  obtain ⟨cfg, hcfg, hzone⟩ := hd.config
  unfold claimSubdomain
  apply Admitted.ok_bind (load_eq_ok.2 hcfg)
  apply Admitted.bind (Admitted.vacant _)
  rintro - -
  apply Admitted.bind (Admitted.require (.inr rfl))
  rintro - -
  apply Admitted.ok_bind hparent
  apply Admitted.check_bind (hzone.symm)
  apply Admitted.ok_bind hlabel
  apply Admitted.ok_bind (checkHashes_eq_ok.2 ⟨hhash, rfl⟩)
  exact Admitted.bind (payWallet_admitted _ _ _ _) fun _ _ => Admitted.pure _

theorem claimSubdomain_sold {parent : Text} (hd : Deployed zone payer.key st)
    (ho : OnSale payer.key st) (hparent : normalizeFullName parent = .ok zone)
    (hlabel : normalizeLabel label = .ok label) (hhash : hashName dep zone = hashName dep parent)
    (hfree : st.sub (hashName dep parent) (hashLabel dep label) = none) :
    ∃ st', claimSubdomain dep clock st payer parent label (hashName dep parent)
      (hashLabel dep label) = .ok st' := by
  obtain ⟨cfg, hcfg, hzone⟩ := hd.config
  obtain ⟨henable, paid, hpaid⟩ := ho.subdomain cfg hcfg
  unfold claimSubdomain
  apply granted_bind (load_eq_ok.2 hcfg)
  apply granted_bind (a := ()) (vacant_eq_ok.2 hfree)
  apply granted_check henable
  apply granted_bind hparent
  apply granted_check hzone.symm
  apply granted_bind hlabel
  apply granted_bind (checkHashes_eq_ok.2 ⟨hhash, rfl⟩)
  exact granted_bind hpaid ⟨_, rfl⟩

/-- The subdomain at `ph` and `lh` is the wallet's. -/
def HoldsSub (st : State) (owner : Pubkey) (ph lh : Hash) : Prop :=
  ∃ s, st.sub ph lh = some s ∧ s.parentHash = ph ∧ s.labelHash = lh ∧ s.owner = owner

/-- A claimed subdomain has no NFT yet, and it is the only account that is new. -/
theorem claimSubdomain_holds {parent : Text} {st' : State}
    (hok : claimSubdomain dep clock st payer parent label ph lh = .ok st') :
    ∃ s, st'.sub = Function.update st.sub ph (Function.update (st.sub ph) lh (some s)) ∧
      s.parentHash = ph ∧ s.labelHash = lh ∧ s.owner = payer.key ∧ s.nftMint = Pubkey.default ∧
      st'.premium = st.premium ∧ st'.mints = st.mints ∧ st'.tokens = st.tokens := by
  simp only [claimSubdomain, bind_eq_ok, exists_unit, pure_eq_ok] at hok
  obtain ⟨cfg, -, -, -, n, -, -, l, -, -, paid, -, rfl⟩ := hok
  exact ⟨_, rfl, rfl, rfl, rfl, rfl, rfl, rfl, rfl⟩

theorem issueSubdomainNft_admitted {s : SubName} (hs : st.sub ph lh = some s)
    (hparent : s.parentHash = ph) (hlabel : s.labelHash = lh) (howner : s.owner = payer.key)
    (hmint : s.nftMint = Pubkey.default) : Admitted (issueSubdomainNft dep st payer ph lh) := by
  unfold issueSubdomainNft
  apply Admitted.ok_bind (load_eq_ok.2 hs)
  apply Admitted.check_bind (⟨hparent, hlabel⟩)
  apply Admitted.check_bind (howner)
  apply Admitted.check_bind (hmint)
  exact Admitted.bind (issueNft_admitted _ _ _ _) fun _ _ => Admitted.pure _

theorem issueSubdomainNft_holds {st' : State} (hok : issueSubdomainNft dep st payer ph lh = .ok st') :
    HoldsSub st' payer.key ph lh := by
  simp only [issueSubdomainNft, bind_eq_ok, load_eq_ok, require_eq_ok, exists_unit, pure_eq_ok]
    at hok
  obtain ⟨s, -, ⟨hparent, hlabel⟩, howner, -, ⟨mints, tokens⟩, -, rfl⟩ := hok
  let issued : SubName := { s with
    nftMint := dep.subNftMint ph lh
    nftCustodyAccount := dep.associatedToken (dep.subNftMint ph lh) dep.nftCustodyAuthority }
  refine ⟨issued, ?_, hparent, hlabel, howner⟩
  simp only [State.setSub, Function.update_self, issued]

theorem setPrimarySub_admitted (hs : HoldsSub st payer.key ph lh) :
    Admitted (setPrimaryName dep st payer none (some (ph, lh)) (subdomainNameHash dep ph lh)
      kindSubdomain) := by
  obtain ⟨s, hs, hparent, hlabel, howner⟩ := hs
  have hload : loadOptional (fun k : Hash × Hash => st.sub k.1 k.2) (some (ph, lh)) =
      .ok (some s) := loadOptional_found hs
  have hcheck : checkPrimary dep payer none (some s) (subdomainNameHash dep ph lh) kindSubdomain =
      .ok () := by
    unfold checkPrimary
    rw [if_neg (by decide), if_pos rfl]
    simp only [bind_eq_ok, okOr_eq_ok, require_eq_ok, exists_unit]
    exact ⟨s, rfl, howner, by rw [hparent, hlabel]⟩
  unfold setPrimaryName
  apply Admitted.ok_bind (a := none) rfl
  apply Admitted.ok_bind hload
  apply Admitted.ok_bind hcheck
  exact Admitted.pure _

/-- The NFT of a name that has none can be issued. -/
theorem issueNft_granted (dep : Deployment) {mints : Mints} {tokens : Tokens} {mint owner : Pubkey}
    (hmint : mints mint = none) (hopen : tokens (dep.associatedToken mint owner) = none) :
    ∃ r, issueNft dep mints tokens mint owner = .ok r := by
  have hinit : initAssociatedToken dep tokens mint owner =
      .ok (Function.update tokens (dep.associatedToken mint owner) (some ⟨mint, owner, 0⟩)) := by
    unfold initAssociatedToken
    rw [hopen]
    rfl
  have hnew : (load (Function.update mints mint (some ⟨some dep.nftAuthority, 0⟩) mint) :
      Result NamesError Mint) = .ok ⟨some dep.nftAuthority, 0⟩ :=
    load_eq_ok.2 (Function.update_self ..)
  have haccount : (load (Function.update tokens (dep.associatedToken mint owner)
      (some ⟨mint, owner, 0⟩) (dep.associatedToken mint owner)) : Result NamesError TokenAccount) =
      .ok ⟨mint, owner, 0⟩ :=
    load_eq_ok.2 (Function.update_self ..)
  have hone : 0 + 1 < 2 ^ 64 := by decide
  unfold issueNft
  apply granted_bind (a := ()) (vacant_eq_ok.2 hmint)
  apply granted_bind hinit
  unfold mintTo
  apply granted_bind hnew
  apply granted_bind haccount
  apply granted_bind (a := ()) (demand_eq_ok.2 rfl)
  apply granted_bind (a := ()) (demand_eq_ok.2 rfl)
  apply granted_bind (a := ()) (demand_eq_ok.2 hone)
  apply granted_bind (a := ()) (demand_eq_ok.2 hone)
  exact ⟨_, rfl⟩

theorem issueSubdomainNft_granted (dep : Deployment) {s : SubName} (hs : st.sub ph lh = some s)
    (hparent : s.parentHash = ph) (hlabel : s.labelHash = lh) (howner : s.owner = payer.key)
    (hmint : s.nftMint = Pubkey.default) (hmints : ∀ k, st.mints k = none)
    (htokens : ∀ k, st.tokens k = none) : ∃ st', issueSubdomainNft dep st payer ph lh = .ok st' := by
  obtain ⟨r, hr⟩ := issueNft_granted dep (hmints (dep.subNftMint ph lh))
    (htokens (dep.associatedToken (dep.subNftMint ph lh) dep.nftCustodyAuthority))
  unfold issueSubdomainNft
  apply granted_bind (load_eq_ok.2 hs)
  apply granted_check ⟨hparent, hlabel⟩
  apply granted_check howner
  apply granted_check hmint
  exact granted_bind hr ⟨_, rfl⟩

/-- It leaves every other name alone. -/
theorem issueSubdomainNft_frame {st' : State} (hok : issueSubdomainNft dep st payer ph lh = .ok st') :
    st'.premium = st.premium ∧ ∀ k l, k ≠ ph → st'.sub k l = st.sub k l := by
  simp only [issueSubdomainNft, bind_eq_ok, load_eq_ok, require_eq_ok, exists_unit, pure_eq_ok]
    at hok
  obtain ⟨s, -, -, -, -, ⟨mints, tokens⟩, -, rfl⟩ := hok
  exact ⟨rfl, fun k l hk => by simp only [State.setSub, Function.update_of_ne hk, State.setTokens]⟩

/-- A primary name that does not exist is refused. -/
theorem setPrimaryName_missing {pk : Option Hash} {sk : Option (Hash × Hash)} {kind : Nat}
    (hmissing : (∃ k, pk = some k ∧ st.premium k = none) ∨
      pk = none ∧ ∃ k l, sk = some (k, l) ∧ st.sub k l = none) :
    ¬Admitted (setPrimaryName dep st payer pk sk h kind) := by
  intro hadm
  have herr : setPrimaryName dep st payer pk sk h kind = .error .accountMissing := by
    rcases hmissing with ⟨k, rfl, hk⟩ | ⟨rfl, k, l, rfl, hk⟩
    · unfold setPrimaryName loadOptional
      simp only [hk]
      rfl
    · unfold setPrimaryName loadOptional
      simp only [hk]
      rfl
  cases hadm _ herr

end Instructions

end Ddns.Names
