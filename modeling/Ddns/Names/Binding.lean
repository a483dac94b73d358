import Ddns.Names.Auction
import Ddns.Lib.Updates

/-!
# The binding of a name to its NFT

A bound name follows its NFT: `transfer_premium` refuses it, `issue_premium_nft` refuses a name that
has a mint, and `sync_premium_owner_from_nft` gives it to whoever holds the token of that mint.
`bind_premium_nft` checks neither, so the recorded owner can bind a bound name to another mint.
`effect_names` says what any instruction does to the names; `binding_iff` gives the exact condition.
-/

namespace Ddns.Names

open Tx Runs

/-- The token account that an instruction presents as proof of who holds an NFT. -/
def presented : Instr → Option Pubkey
  | .bindPremiumNft _ _ _ key => some key
  | .syncPremiumOwnerFromNft _ _ key => some key
  | _ => none

/-- The name at `h` is bound to `mint`. -/
def State.BoundTo (st : State) (h : Hash) (mint : Pubkey) : Prop :=
  ∃ p, st.premium h = some p ∧ p.nftBound = true ∧ p.nftMint = mint

/-- The recorded owner of the name at `h`. -/
def State.ownerOf (st : State) (h : Hash) : Option Pubkey := (st.premium h).map PremiumName.owner

/-- **The binding law** of a run. A bound name stays bound to its mint; its owner changes only in a
step that presents an account with one token of the mint, to the owner of that account; who binds it
again holds that token; and in every state the holder of the token can take the name. -/
structure BindingLaw (dep : Deployment) (c : Chain State) (is : List (Action Instr)) : Prop where
  stays : ∀ pre mid post, is = pre ++ mid ++ post → ∀ h mint,
    (exec (step dep) c pre).accounts.BoundTo h mint →
      (exec (step dep) c (pre ++ mid)).accounts.BoundTo h mint
  owner : ∀ e ∈ trace (step dep) c is, ∀ h mint, e.pre.accounts.BoundTo h mint →
    e.post.accounts.ownerOf h ≠ e.pre.accounts.ownerOf h → ∃ i key account,
      e.input = .submit i ∧ presented i = some key ∧ Presents e.pre.accounts mint key account ∧
        e.post.accounts.ownerOf h = some account.owner
  rebind : ∀ e ∈ trace (step dep) c is, ∀ h mint o m key, e.pre.accounts.BoundTo h mint →
    e.input = .submit (.bindPremiumNft h o m key) → e.out = some (.ok ()) →
      ∃ account, Presents e.pre.accounts mint key account ∧ account.owner = o.key
  holder : ∀ pre post, is = pre ++ post → ∀ h mint key account,
    (exec (step dep) c pre).accounts.BoundTo h mint →
    (exec (step dep) c pre).accounts.tokens key = some account → account.mint = mint →
    account.amount = 1 → ∃ st',
      syncPremiumOwnerFromNft (exec (step dep) c pre).accounts h mint key = .ok st' ∧
        st'.ownerOf h = some account.owner

/-- The next action binds a bound name to another mint: the recorded owner presents an account of
its own with one token of that mint. -/
def Rebinding (c : Chain State) (act : Action Instr) : Prop :=
  ∃ h o m key p account, act = .submit (.bindPremiumNft h o m key) ∧
    c.accounts.premium h = some p ∧ p.nftBound = true ∧ p.nftMint ≠ m ∧ p.owner = o.key ∧
    Presents c.accounts m key account ∧ account.owner = o.key

section States

variable {dep : Deployment} {clock : Clock} {st st' : State} {i : Instr} {h : Hash}

/-! ## Mints -/

/-- No mint disappears, and none appears at the all-zero key. -/
structure MintsKept (mints mints' : Mints) : Prop where
  kept : ∀ m, mints m ≠ none → mints' m ≠ none
  default : mints Pubkey.default = none → mints' Pubkey.default = none

theorem MintsKept.refl (mints : Mints) : MintsKept mints mints := ⟨fun _ h => h, fun h => h⟩

/-- A write at a key that is not the all-zero one, or that has a mint already. -/
theorem MintsKept.update (mints : Mints) {m : Pubkey} (v : Mint)
    (hm : m ≠ Pubkey.default ∨ mints m ≠ none) :
    MintsKept mints (Function.update mints m (some v)) := by
  constructor
  · intro k hk
    by_cases hkm : k = m
    · rw [hkm, Function.update_self]
      exact Option.some_ne_none v
    · rw [Function.update_of_ne hkm]
      exact hk
  · intro hnone
    by_cases hkm : Pubkey.default = m
    · rcases hm with hm | hm
      · exact absurd hkm.symm hm
      · exact absurd (hkm ▸ hnone) hm
    · rw [Function.update_of_ne hkm]
      exact hnone

theorem mintTo_kept {mints mints' : Mints} {t t' : Tokens} {m dst authority : Pubkey} {n : Nat}
    (hok : (mintTo mints t m dst authority n : Result NamesError _) = .ok (mints', t')) :
    mints m ≠ none ∧ MintsKept mints mints' := by
  simp only [mintTo, bind_eq_ok, load_eq_ok, demand_eq_ok, exists_unit, pure_eq_ok,
    Prod.mk.injEq] at hok
  obtain ⟨v, hv, -, -, -, -, -, -, rfl, -⟩ := hok
  have hne : mints m ≠ none := by
    rw [hv]
    exact Option.some_ne_none v
  exact ⟨hne, .update mints _ (.inr hne)⟩

/-- An issued NFT has a mint afterwards. -/
theorem issueNft_kept {mints mints' : Mints} {t t' : Tokens} {m owner : Pubkey}
    (hm : m ≠ Pubkey.default) (hok : issueNft dep mints t m owner = .ok (mints', t')) :
    mints' m ≠ none ∧ MintsKept mints mints' := by
  simp only [issueNft, bind_eq_ok, vacant_eq_ok, exists_unit] at hok
  obtain ⟨-, t₁, -, hmint⟩ := hok
  obtain ⟨hne, hkept⟩ := mintTo_kept hmint
  have hnew := MintsKept.update mints ⟨some dep.nftAuthority, 0⟩ (.inl hm)
  exact ⟨hkept.kept m hne, fun k hk => hkept.kept k (hnew.kept k hk),
    fun hd => hkept.default (hnew.default hd)⟩

/-! ## Names and policies -/

/-- The policy of `h` is there. -/
def State.HasPolicy (st : State) (h : Hash) : Prop :=
  ∃ pol, st.policy h = some pol ∧ pol.parentHash = h

/-- A name at its address, with its policy; the mint that it is bound to exists. -/
structure NameSound (st : State) (h : Hash) (p : PremiumName) : Prop where
  nameHash : p.nameHash = h
  transferable : p.transferable = true
  policy : st.HasPolicy h
  mint : p.nftBound = true → st.mints p.nftMint ≠ none

/-- Every name is sound, and no mint is at the all-zero key. -/
structure Sound (st : State) : Prop where
  default : st.mints Pubkey.default = none
  name : ∀ h p, st.premium h = some p → NameSound st h p

/-- The write of the name `p'` at `h`, by the instruction `i`. -/
inductive NameWrite (st : State) (i : Instr) (h : Hash) (p' : PremiumName) : Prop where
  | created (hnone : st.premium h = none)
  | transferred (p : PremiumName) (hp : st.premium h = some p) (hbound : p.nftBound = false)
  | bound (p : PremiumName) (o : Signer) (m key : Pubkey) (account : TokenAccount)
    (hi : i = .bindPremiumNft h o m key) (hp : st.premium h = some p) (howner : p.owner = o.key)
    (hacc : Presents st m key account) (hacco : account.owner = o.key)
    (heq : p' = { p with nftMint := m, nftBound := true, owner := o.key })
  | issued (p : PremiumName) (hp : st.premium h = some p) (hmint : p.nftMint = Pubkey.default)
  | synced (p : PremiumName) (m key : Pubkey) (account : TokenAccount)
    (hi : i = .syncPremiumOwnerFromNft h m key) (hp : st.premium h = some p)
    (hmint : p.nftMint = m) (hacc : Presents st m key account)
    (heq : p' = { p with owner := account.owner })

/-- What an instruction does to the names: nothing, or one write of a sound name. -/
structure NamesEffect (st : State) (i : Instr) (st' : State) : Prop where
  mints : MintsKept st.mints st'.mints
  policies : ∀ h, st.HasPolicy h → st'.HasPolicy h
  names : st'.premium = st.premium ∨ ∃ h p', st'.premium = Function.update st.premium h (some p') ∧
    NameSound st' h p' ∧ NameWrite st i h p'

theorem setPolicy_kept (st : State) {k : Hash} (pol : ParentPolicy) (hk : pol.parentHash = k) (h : Hash)
    (hh : st.HasPolicy h) : (st.setPolicy k pol).HasPolicy h := by
  obtain ⟨q, hq, hqh⟩ := hh
  by_cases hhk : h = k
  · exact ⟨pol, by rw [hhk]; exact Function.update_self .., hk.trans hhk.symm⟩
  · exact ⟨q, (Function.update_of_ne hhk ..).trans hq, hqh⟩

theorem claimPolicy_parentHash {k : Hash} {o : Pubkey} {pol : ParentPolicy}
    (hok : claimPolicy st k o = .ok pol) : pol.parentHash = k := by
  unfold claimPolicy at hok
  dsimp only at hok
  split at hok
  · cases hok
    rfl
  · simp only [bind_eq_ok, require_eq_ok, exists_unit, pure_eq_ok] at hok
    obtain ⟨hk, -, rfl⟩ := hok
    exact hk

theorem BoundTo.congr {mint : Pubkey} (hp : st'.premium h = st.premium h)
    (hb : st.BoundTo h mint) : st'.BoundTo h mint := by
  obtain ⟨p, hp', hbound, hmint⟩ := hb
  exact ⟨p, hp.trans hp', hbound, hmint⟩

/-- **What an instruction does to the names.** -/
theorem effect_names (hs : Sound st) (heff : Effect dep clock st i st') :
    NamesEffect st i st' := by
  have hmints := MintsKept.refl st.mints
  have hkeep : ∀ h, st.HasPolicy h → st.HasPolicy h := fun _ hp => hp
  cases heff with
  | @purchasePremium o name h cfg pcfg label paid hcfg hpcfg hnone =>
    have hpol : ∀ h', st.HasPolicy h' → (st.setPolicy h ⟨h, o.key, false⟩).HasPolicy h' :=
      setPolicy_kept st _ rfl
    exact ⟨hmints, hpol, .inr ⟨h, _, rfl, ⟨rfl, rfl, ⟨_, Function.update_self .., rfl⟩, nofun⟩,
      .created hnone⟩⟩
  | @settleAuction w h t pcfg a hpcfg ha htreasury hnone =>
    have hpol : ∀ h', st.HasPolicy h' → (st.setPolicy h ⟨h, w.key, false⟩).HasPolicy h' :=
      setPolicy_kept st _ rfl
    exact ⟨hmints, hpol, .inr ⟨h, _, rfl, ⟨rfl, rfl, ⟨_, Function.update_self .., rfl⟩, nofun⟩,
      .created hnone⟩⟩
  | @transferPremium h o newOwner p pol hp howner hbound =>
    have hsound := hs.name h p hp.premium
    have hpol := setPolicy_kept st ({ pol with
      parentOwner := if pol.parentOwner = o.key then newOwner else pol.parentOwner }) hp.parentHash
    exact ⟨hmints, hpol, .inr ⟨h, _, rfl,
      ⟨hsound.nameHash, hsound.transferable, hpol h hsound.policy, hsound.mint⟩,
      .transferred p hp.premium hbound⟩⟩
  | @bindPremiumNft h o mint key p pol account hp howner htrans hacc hacco =>
    have hsound := hs.name h p hp.premium
    have hpol := setPolicy_kept st ({ pol with
      parentOwner := if pol.parentOwner = Pubkey.default ∨ pol.parentOwner = o.key then o.key
        else pol.parentOwner }) hp.parentHash
    exact ⟨hmints, hpol, .inr ⟨h, _, rfl,
      ⟨hsound.nameHash, hsound.transferable, hpol h hsound.policy, fun _ => hacc.mintExists⟩,
      .bound p o mint key account rfl hp.premium howner hacc hacco rfl⟩⟩
  | @issuePremiumNft o h p mints tokens hp hname howner htrans hmint hissue =>
    have hsound := hs.name h p hp
    obtain ⟨hne, hkept⟩ := issueNft_kept (dep.premiumNftMint_ne h) hissue
    exact ⟨hkept, hkeep, .inr ⟨h, _, rfl,
      ⟨hsound.nameHash, hsound.transferable, hsound.policy, fun _ => hne⟩, .issued p hp hmint⟩⟩
  | @syncPremiumOwnerFromNft h mint key p pol account hp hbound hmint hacc =>
    have hsound := hs.name h p hp.premium
    have hpol := setPolicy_kept st ({ pol with
      parentOwner := if pol.parentOwner = Pubkey.default ∨ pol.parentOwner = p.owner ∨
        pol.parentOwner ≠ account.owner then account.owner else pol.parentOwner }) hp.parentHash
    exact ⟨hmints, hpol, .inr ⟨h, _, rfl,
      ⟨hsound.nameHash, hsound.transferable, hpol h hsound.policy, hsound.mint⟩,
      .synced p mint key account rfl hp.premium hmint hacc rfl⟩⟩
  | claimDelegatedSubdomain premium pol hp hname howner hnone hclaim =>
    exact ⟨hmints, setPolicy_kept st pol (claimPolicy_parentHash hclaim), .inl rfl⟩
  | @setParentSubdomainPolicy po p ph b premium pol hp hname howner hclaim =>
    have hparent := claimPolicy_parentHash hclaim
    have hpol := setPolicy_kept st ({ pol with transfersEnabled := b }) hparent
    exact ⟨hmints, hpol, .inl rfl⟩
  | @issueSubdomainNft o ph lh s mints tokens hsub howner hmint hissue =>
    exact ⟨(issueNft_kept (dep.subNftMint_ne ph lh) hissue).2, hkeep, .inl rfl⟩
  | @createMint m a hnone => exact ⟨.update st.mints _ (.inl m.ne_default), hkeep, .inl rfl⟩
  | splMintTo mints tokens hmint => exact ⟨(mintTo_kept hmint).2, hkeep, .inl rfl⟩
  | _ => exact ⟨hmints, hkeep, .inl rfl⟩

theorem NameSound.mono {p : PremiumName} (hm : MintsKept st.mints st'.mints)
    (hpol : ∀ h, st.HasPolicy h → st'.HasPolicy h) (hp : NameSound st h p) : NameSound st' h p :=
  ⟨hp.nameHash, hp.transferable, hpol h hp.policy, fun hb => hm.kept _ (hp.mint hb)⟩

/-- Instructions keep the names sound. -/
theorem effect_sound (hs : Sound st) (heff : Effect dep clock st i st') : Sound st' := by
  obtain ⟨hm, hpol, hnames⟩ := effect_names hs heff
  refine ⟨hm.default hs.default, ?_⟩
  intro h p hp
  rcases hnames with hsame | ⟨k, p', hupd, hsound, -⟩
  · rw [hsame] at hp
    exact (hs.name h p hp).mono hm hpol
  · rw [hupd] at hp
    rcases Updates.update_eq_some hp with ⟨rfl, rfl⟩ | ⟨-, hold⟩
    · exact hsound
    · exact (hs.name h p hold).mono hm hpol

/-! ## Bound names -/

/-- A bound name has a mint, which is not the all-zero key. -/
theorem Sound.bound_ne_default {p : PremiumName} (hs : Sound st) (hp : st.premium h = some p)
    (hb : p.nftBound = true) : p.nftMint ≠ Pubkey.default := by
  intro hd
  exact (hs.name h p hp).mint hb (hd ▸ hs.default)

/-- A step that binds no bound name to another mint keeps a bound name at its mint, and changes its
owner only to the owner of an account that it presents. -/
theorem effect_bound {mint : Pubkey} (hs : Sound st) (heff : Effect dep clock st i st')
    (hQ : ¬Rebinding ⟨clock, st⟩ (.submit i)) (hb : st.BoundTo h mint) :
    st'.BoundTo h mint ∧ (st'.ownerOf h ≠ st.ownerOf h → ∃ key account,
      presented i = some key ∧ Presents st mint key account ∧
        st'.ownerOf h = some account.owner) := by
  obtain ⟨-, -, hnames⟩ := effect_names hs heff
  obtain ⟨p, hp, hbound, rfl⟩ := hb
  rcases hnames with hsame | ⟨k, p', hupd, -, hwrite⟩
  · have howner : st'.ownerOf h = st.ownerOf h := by
      unfold State.ownerOf
      rw [hsame]
    exact ⟨⟨p, hsame ▸ hp, hbound, rfl⟩, fun hne => absurd howner hne⟩
  · by_cases hk : h = k
    · subst hk
      have hp' : st'.premium h = some p' := by
        rw [hupd, Function.update_self]
      have howner : st'.ownerOf h = some p'.owner := by
        rw [State.ownerOf, hp', Option.map_some]
      cases hwrite with
      | created hnone =>
        rw [hnone] at hp
        cases hp
      | transferred q hq hfree =>
        obtain rfl : q = p := Option.some.inj (hq.symm.trans hp)
        rw [hfree] at hbound
        cases hbound
      | issued q hq hmint =>
        obtain rfl : q = p := Option.some.inj (hq.symm.trans hp)
        exact absurd hmint (hs.bound_ne_default hp hbound)
      | bound q o m key account hi hq hqo hacc hacco heq =>
        obtain rfl : q = p := Option.some.inj (hq.symm.trans hp)
        -- Another mint would make this step a rebinding.
        have hmint : q.nftMint = m := by
          by_contra hne
          exact hQ ⟨h, o, m, key, q, account, by rw [hi], hp, hbound, hne, hqo, hacc, hacco⟩
        refine ⟨⟨p', hp', by rw [heq], by rw [heq, hmint]⟩, fun _ => ?_⟩
        exact ⟨key, account, by rw [hi]; rfl, hmint ▸ hacc, by rw [howner, heq, hacco]⟩
      | synced q m key account hi hq hmint hacc heq =>
        obtain rfl : q = p := Option.some.inj (hq.symm.trans hp)
        refine ⟨⟨p', hp', by rw [heq]; exact hbound, by rw [heq]⟩, fun _ => ?_⟩
        exact ⟨key, account, by rw [hi]; rfl, hmint ▸ hacc, by rw [howner, heq]⟩
    · have hother : st'.premium h = st.premium h := by
        rw [hupd, Function.update_of_ne hk]
      have howner : st'.ownerOf h = st.ownerOf h := by
        unfold State.ownerOf
        rw [hother]
      exact ⟨⟨p, hother.trans hp, hbound, rfl⟩, fun hne => absurd howner hne⟩

/-- A sound name has the policy that instructions read with it. -/
theorem Sound.named {p : PremiumName} (hs : Sound st) (hp : st.premium h = some p) :
    ∃ pol, Named st h p pol := by
  have hsound := hs.name h p hp
  obtain ⟨pol, hpol, hhash⟩ := hsound.policy
  exact ⟨pol, hp, hsound.nameHash.symm ▸ hpol, hhash.trans hsound.nameHash.symm⟩

/-- In a sound state, whoever holds the token of the mint can take the name. -/
theorem Sound.sync {mint key : Pubkey} {account : TokenAccount} (hs : Sound st)
    (hb : st.BoundTo h mint) (hacc : st.tokens key = some account) (hmint : account.mint = mint)
    (hone : account.amount = 1) :
    ∃ st', syncPremiumOwnerFromNft st h mint key = .ok st' ∧ st'.ownerOf h = some account.owner := by
  obtain ⟨p, hp, hbound, rfl⟩ := hb
  obtain ⟨pol, hnamed⟩ := hs.named hp
  have hpres : Presents st p.nftMint key account :=
    ⟨hacc, (hs.name h p hp).mint hbound, hmint, hone⟩
  have hok := syncPremiumOwnerFromNft_eq_ok.2 ⟨p, pol, account, hnamed, hbound, rfl, hpres, rfl⟩
  refine ⟨_, hok, ?_⟩
  show ((Function.update st.premium h _) h).map PremiumName.owner = _
  rw [Function.update_self, Option.map_some]

/-- A rebinding succeeds, and binds the name to the other mint. -/
theorem Sound.rebind {o : Signer} {m key : Pubkey} {p : PremiumName} {account : TokenAccount}
    (hs : Sound st) (hp : st.premium h = some p) (howner : p.owner = o.key)
    (hacc : Presents st m key account) (hacco : account.owner = o.key) :
    ∃ st', bindPremiumNft st h o m key = .ok st' ∧ st'.BoundTo h m := by
  obtain ⟨pol, hnamed⟩ := hs.named hp
  have hok := bindPremiumNft_eq_ok.2
    ⟨p, pol, account, hnamed, howner, (hs.name h p hp).transferable, hacc, hacco, rfl⟩
  exact ⟨_, hok, _, Function.update_self .., rfl, rfl⟩

end States

/-! ## Runs -/

section Runs

variable {dep : Deployment} {c : Chain State} {act : Action Instr} {h : Hash} {mint : Pubkey}

theorem sound_step (hs : Sound c.accounts) : Sound (step dep c act).1.accounts :=
  step_invariant (fun _ _ _ _ hs heff => effect_sound hs heff) act hs

theorem genesis_sound (lamports : Pubkey → Nat) : Sound (State.genesis lamports) := by
  refine ⟨rfl, ?_⟩
  intro h p hp
  cases hp

theorem exec_sound (hs : Sound c.accounts) (is : List (Action Instr)) :
    Sound (exec (step dep) c is).accounts :=
  exec_invariant (fun _ _ _ _ hs heff => effect_sound hs heff) is hs

/-- What a step that is no rebinding does to a bound name. -/
theorem step_bound (hs : Sound c.accounts) (hQ : ¬Rebinding c act)
    (hb : c.accounts.BoundTo h mint) :
    (step dep c act).1.accounts.BoundTo h mint ∧
      ((step dep c act).1.accounts.ownerOf h ≠ c.accounts.ownerOf h → ∃ i key account,
        act = .submit i ∧ presented i = some key ∧ Presents c.accounts mint key account ∧
          (step dep c act).1.accounts.ownerOf h = some account.owner) := by
  rcases step_effect dep c act with ⟨hsame, -⟩ | ⟨i, st', rfl, heff, hst⟩
  · rw [hsame]
    exact ⟨hb, fun hne => absurd rfl hne⟩
  · rw [hst]
    obtain ⟨hstays, howner⟩ := effect_bound hs heff hQ hb
    refine ⟨hstays, fun hne => ?_⟩
    obtain ⟨key, account, hkey, hacc, ho⟩ := howner hne
    exact ⟨i, key, account, rfl, hkey, hacc, ho⟩

/-- A rebinding takes the name from its mint. -/
theorem rebinding_not_bound (dep : Deployment) (hs : Sound c.accounts) (hQ : Rebinding c act) :
    ∃ h mint, c.accounts.BoundTo h mint ∧ ¬(step dep c act).1.accounts.BoundTo h mint := by
  obtain ⟨h, o, m, key, p, account, rfl, hp, hbound, hne, howner, hacc, hacco⟩ := hQ
  refine ⟨h, p.nftMint, ⟨p, hp, hbound, rfl⟩, ?_⟩
  obtain ⟨st', hok, q, hq, -, hqm⟩ := hs.rebind hp howner hacc hacco
  have hproc : process dep c.clock c.accounts (.bindPremiumNft h o m key) = .ok (st', ()) :=
    map_eq_ok.2 ⟨st', hok, rfl⟩
  rw [step, chainStep_ok hproc]
  rintro ⟨q', hq', -, hqm'⟩
  obtain rfl : q' = q := Option.some.inj (hq'.symm.trans hq)
  exact hne (hqm'.symm.trans hqm)

/-- A name stays bound along a run without rebindings. -/
theorem exec_bound {is : List (Action Instr)} (hs : Sound c.accounts)
    (hQ : Each (step dep) (fun c act => ¬Rebinding c act) c is) (hb : c.accounts.BoundTo h mint) :
    (exec (step dep) c is).accounts.BoundTo h mint := by
  have hall : Always (step dep) (fun c => Sound c.accounts ∧ c.accounts.BoundTo h mint) c is :=
    Always.of_each (fun c act hc hQ => ⟨sound_step hc.1, (step_bound hc.1 hQ hc.2).1⟩) ⟨hs, hb⟩ hQ
  exact hall.exec.2

end Runs

/-- **Exactly when names follow their NFTs.** A run of the program obeys the binding law if and only
if no step of the run binds a bound name to another mint. -/
theorem binding_iff (dep : Deployment) (lamports : Pubkey → Nat) (clock : Clock)
    (is : List (Action Instr)) :
    BindingLaw dep ⟨clock, State.genesis lamports⟩ is ↔
      Each (step dep) (fun c act => ¬Rebinding c act) ⟨clock, State.genesis lamports⟩ is := by
  generalize hc : (⟨clock, State.genesis lamports⟩ : Chain State) = c
  have hs : Sound c.accounts := hc ▸ genesis_sound lamports
  constructor
  · intro hlaw
    refine each_iff_mem_trace.2 fun e he hQ => ?_
    obtain ⟨pre, act, post, rfl, rfl⟩ := mem_trace he
    obtain ⟨h, mint, hb, hnot⟩ := rebinding_not_bound dep (exec_sound hs pre) hQ
    have hstays := hlaw.stays pre [act] post (by simp) h mint hb
    rw [exec_append] at hstays
    exact hnot hstays
  · intro hQ
    have hmem := each_iff_mem_trace.1 hQ
    refine ⟨?_, ?_, ?_, ?_⟩
    · rintro pre mid post rfl h mint hb
      rw [List.append_assoc, each_append, each_append] at hQ
      rw [exec_append]
      exact exec_bound (exec_sound hs pre) hQ.2.1 hb
    · intro e he h mint hb hne
      have hno := hmem e he
      obtain ⟨pre, act, post, rfl, rfl⟩ := mem_trace he
      exact (step_bound (exec_sound hs pre) hno hb).2 hne
    · intro e he h mint o m key hb hin hout
      have hno := hmem e he
      obtain ⟨pre, act, post, rfl, rfl⟩ := mem_trace he
      obtain rfl : act = .submit (.bindPremiumNft h o m key) := hin
      obtain ⟨st', hok, -⟩ := chainStep_out hout
      obtain ⟨_, hex, -⟩ := map_eq_ok.1 hok
      obtain ⟨p, pol, account, hnamed, howner, -, hacc, hacco, -⟩ := bindPremiumNft_eq_ok.1 hex
      obtain ⟨q, hq, hbound, rfl⟩ := hb
      obtain rfl : q = p := Option.some.inj (hq.symm.trans hnamed.premium)
      have hmint : q.nftMint = m := by
        by_contra hne
        exact hno ⟨h, o, m, key, q, account, rfl, hq, hbound, hne, howner, hacc, hacco⟩
      exact ⟨account, hmint ▸ hacc, hacco⟩
    · intro pre post _ h mint key account hb hacc hmint hone
      exact (exec_sound hs pre).sync hb hacc hmint hone

/-! ## A sold name that its seller binds again -/

/-- `alice.dns` -/
def saleName : Text := ['a', 'l', 'i', 'c', 'e', '.', 'd', 'n', 's']

/-- `user.dns` -/
def saleZone : Text := ['u', 's', 'e', 'r', '.', 'd', 'n', 's']

/-- The SHA-256 of `alice.dns`. -/
def saleHash : Hash := 0x13a72bbb4709d66da59cf521eb487e8362fbe0ef88320a780afc6fa68bca8ea9

/-- The SHA-256 of `user.dns`. -/
def saleZoneHash : Hash := 0xb1b2328c185cc4e28ddf83edd52d4fb7e6c73fcdadd5cd87d866ce1b63f21d8c

def saleDeployment : Deployment where
  sha256 bytes :=
    if bytes = asBytes saleName then saleHash
    else if bytes = asBytes saleZone then saleZoneHash else 0
  vaultRent := 890880
  premiumNftMint _ := 4
  subNftMint _ _ := 5
  associatedToken mint owner := mint + 16 * owner
  nftAuthority := 6
  nftCustodyAuthority := 7
  premiumNftMint_ne := exampleDeployment.premiumNftMint_ne
  subNftMint_ne := exampleDeployment.subNftMint_ne

def saleAuthority : Signer := ⟨1, one_ne_default⟩

def saleSeller : Signer := ⟨2, two_ne_default⟩

/-- Wallets with a billion lamports each. -/
def saleGenesis : Chain State := ⟨⟨0, 0⟩, State.genesis fun _ => 10 ^ 9⟩

/-- The mint of the seller's own token. -/
def saleMint : Signer := ⟨11, by decide⟩

/-- The seller issues the NFT of its name and transfers it, then binds the name to a token of its
own. -/
def saleRun : List (Action Instr) :=
  [.submit (.initNamesConfig saleAuthority 8 saleZone 5 0 true true),
    .submit (.initPremiumConfig saleAuthority 8 9 1 100 0 true),
    .submit (.purchasePremium saleSeller saleName saleHash),
    .submit (.issuePremiumNft saleSeller saleHash), .submit (.openTokenAccount 100 4 3),
    .submit (.splTransfer saleSeller 36 100 1), .submit (.createMint saleMint 2),
    .submit (.openTokenAccount 101 11 2), .submit (.splMintTo saleSeller 11 101 1),
    .submit (.bindPremiumNft saleHash saleSeller 11 101)]

def saleState (n : Nat) : State :=
  (exec (step saleDeployment) saleGenesis (saleRun.take n)).accounts

theorem boundTo_iff {st : State} {h : Hash} {mint : Pubkey} :
    st.BoundTo h mint ↔ (st.premium h).map (fun p => (p.nftBound, p.nftMint)) = some (true, mint) := by
  cases hp : st.premium h with
  | none => simp [State.BoundTo, hp]
  | some p => simp [State.BoundTo, hp]

/-- The last step takes the name from the mint whose token the buyer holds. -/
theorem saleRun_not_binding : ¬BindingLaw saleDeployment saleGenesis saleRun := by
  intro hlaw
  have hbound : (saleState 9).BoundTo saleHash 4 := boundTo_iff.2 (by decide)
  have hstays := hlaw.stays (saleRun.take 9) (saleRun.drop 9) [] rfl saleHash 4 hbound
  have hlost : ¬(saleState 10).BoundTo saleHash 4 := fun h => absurd (boundTo_iff.1 h) (by decide)
  exact hlost hstays

end Ddns.Names
