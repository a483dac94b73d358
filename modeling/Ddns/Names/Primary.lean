import Ddns.Names.Allocation
import Ddns.Names.Subdomains

/-!
# Primary names

The primary name of a wallet is checked when it is written: `set_primary_name` asks that the wallet
owns the name, and the instructions that create a name write it for its owner. The instructions that
transfer a name take no primary name at all. So a primary name is owned by its wallet until one of
them takes the name from the wallet (`primary_law`).
-/

namespace Ddns.Names

open Tx Runs

/-- The wallet `w` owns the name that the primary name `r` points to. -/
inductive OwnsPrimary (dep : Deployment) (st : State) (w : Pubkey) (r : PrimaryName) : Prop where
  | premium (hkind : r.kind = kindPremium) (howner : st.ownerOf r.nameHash = some w)
  | subdomain (hkind : r.kind = kindSubdomain) (ph lh : Hash) (s : SubName)
    (hsub : st.sub ph lh = some s) (hhash : subdomainNameHash dep ph lh = r.nameHash)
    (howner : s.owner = w)

/-- The name that the primary name `r` points to exists. -/
inductive PointsTo (dep : Deployment) (st : State) (r : PrimaryName) : Prop where
  | premium (hkind : r.kind = kindPremium) (hp : st.premium r.nameHash ≠ none)
  | subdomain (hkind : r.kind = kindSubdomain) (ph lh : Hash) (hs : st.sub ph lh ≠ none)
    (hhash : subdomainNameHash dep ph lh = r.nameHash)

/-- The instructions that give a name away. -/
def Instr.Transfers : Instr → Prop
  | .transferPremium .. => True
  | .syncPremiumOwnerFromNft .. => True
  | .transferSubdomain .. => True
  | _ => False

/-- A transfer takes the name that the primary name `r` of `w` points to from `w`. -/
structure Step.Takes (dep : Deployment) (e : Step) (w : Pubkey) (r : PrimaryName) : Prop where
  input : ∃ i, e.input = .submit i ∧ i.Transfers
  out : e.out = some (.ok ())
  primary : e.pre.accounts.primary w = some r
  owned : OwnsPrimary dep e.pre.accounts w r
  lost : ¬OwnsPrimary dep e.post.accounts w r

/-- **The primary law** of a run: a primary name that is set belongs to its wallet, and points to a
name that exists and that the wallet owns, unless a transfer took the name from the wallet while it
was the primary name. -/
def PrimaryLaw (dep : Deployment) (c : Chain State) (is : List (Action Instr)) : Prop :=
  ∀ w r, (exec (step dep) c is).accounts.primary w = some r → r.isSet = true →
    r.owner = w ∧ PointsTo dep (exec (step dep) c is).accounts r ∧
      (OwnsPrimary dep (exec (step dep) c is).accounts w r ∨
        ∃ e ∈ trace (step dep) c is, Step.Takes dep e w r)

/-- Every primary name is owned by its wallet. -/
def PrimaryOwned (dep : Deployment) (st : State) : Prop :=
  ∀ w r, st.primary w = some r → r.isSet = true → OwnsPrimary dep st w r

section States

variable {dep : Deployment} {clock : Clock} {st st' : State} {i : Instr} {w : Pubkey}
  {r : PrimaryName}

theorem OwnsPrimary.pointsTo (h : OwnsPrimary dep st w r) : PointsTo dep st r := by
  cases h with
  | premium hkind howner =>
    obtain ⟨p, hp, -⟩ := Option.map_eq_some_iff.1 howner
    exact .premium hkind (Option.ne_none_iff_exists'.2 ⟨p, hp⟩)
  | subdomain hkind ph lh s hsub hhash howner =>
    exact .subdomain hkind ph lh (Option.ne_none_iff_exists'.2 ⟨s, hsub⟩) hhash

/-- Where the names and subdomains are the same, so are the owners of primary names. -/
theorem OwnsPrimary.congr (h : OwnsPrimary dep st w r) (hp : st'.premium = st.premium)
    (hs : st'.sub = st.sub) : OwnsPrimary dep st' w r := by
  cases h with
  | premium hkind howner =>
    refine .premium hkind ?_
    rw [State.ownerOf, hp]
    exact howner
  | subdomain hkind ph lh s hsub hhash howner =>
    refine .subdomain hkind ph lh s ?_ hhash howner
    rw [hs]
    exact hsub

/-! ## What is written -/

theorem loadOptional_some {κ α : Type} {accounts : κ → Option α} {key : Option κ} {a : α}
    (h : loadOptional accounts key = .ok (some a)) : ∃ k, accounts k = some a := by
  cases key with
  | none => cases h
  | some k =>
    simp only [loadOptional, map_eq_ok, load_eq_ok, Option.some.injEq] at h
    obtain ⟨_, hk, rfl⟩ := h
    exact ⟨k, hk⟩

/-- A primary name that was not set yet is written for its wallet. -/
theorem upsertPrimaryIfEmpty_primary {o : Pubkey} {h : Hash} {kind : Nat}
    (hr : (upsertPrimaryIfEmpty st o h kind).primary w = some r) :
    st.primary w = some r ∨ w = o ∧ r = ⟨o, h, kind, true⟩ := by
  unfold upsertPrimaryIfEmpty at hr
  dsimp only [State.setPrimary] at hr
  rcases Updates.update_eq_some hr with ⟨rfl, hr⟩ | ⟨-, hold⟩
  · split at hr
    · next hset =>
      -- The account that is set is there already.
      cases hold : st.primary w with
      | none =>
        rw [hold] at hset
        cases hset
      | some old =>
        rw [hold, Option.getD_some] at hr
        exact .inl (congrArg some hr)
    · exact .inr ⟨rfl, hr.symm⟩
  · exact .inl hold

/-- The name that `set_primary_name` accepts is owned by the signer. -/
theorem checkPrimary_owns {o : Signer} {pk : Option Hash} {sk : Option (Hash × Hash)} {h : Hash}
    {kind : Nat} {premium : Option PremiumName} {sub : Option SubName} (hs : Sound st)
    (hsubs : SubsSound dep st) (hpremium : loadOptional st.premium pk = .ok premium)
    (hsub : loadOptional (fun k => st.sub k.1 k.2) sk = .ok sub)
    (hcheck : checkPrimary dep o premium sub h kind = .ok ()) :
    OwnsPrimary dep st o.key ⟨o.key, h, kind, true⟩ := by
  unfold checkPrimary at hcheck
  split at hcheck
  · next hkind =>
    simp only [bind_eq_ok, okOr_eq_ok, require_eq_ok, exists_unit] at hcheck
    obtain ⟨p, rfl, hname, howner⟩ := hcheck
    obtain ⟨k, hk⟩ := loadOptional_some hpremium
    have hkh : k = h := (hs.name k p hk).nameHash.symm.trans hname
    exact .premium hkind (Option.map_eq_some_iff.2 ⟨p, hkh ▸ hk, howner⟩)
  · split at hcheck
    · next hkind =>
      simp only [bind_eq_ok, okOr_eq_ok, require_eq_ok, exists_unit] at hcheck
      obtain ⟨s, rfl, howner, hhash⟩ := hcheck
      obtain ⟨⟨ph, lh⟩, hk⟩ := loadOptional_some hsub
      obtain ⟨hph, hlh, -, -⟩ := hsubs ph lh s hk
      rw [hph, hlh] at hhash
      exact .subdomain hkind ph lh s hk hhash howner
    · cases hcheck

/-- A primary name that an instruction writes is owned by its wallet. -/
theorem effect_primary (hs : Sound st) (hsubs : SubsSound dep st)
    (heff : Effect dep clock st i st') (hr : st'.primary w = some r) :
    st.primary w = some r ∨ r.owner = w ∧ OwnsPrimary dep st' w r := by
  cases heff with
  | @purchasePremium o name h cfg pcfg label paid hcfg hpcfg hnone =>
    rcases upsertPrimaryIfEmpty_primary hr with hold | ⟨rfl, rfl⟩
    · exact .inl hold
    · obtain ⟨first, hfirst, howner⟩ := createPremium_premium clock (st.setLamports paid) h o.key
        cfg.premiumPriceLamports
      exact .inr ⟨rfl, .premium rfl (Option.map_eq_some_iff.2 ⟨first, hfirst, howner⟩)⟩
  | @settleAuction w' h t pcfg a =>
    rcases upsertPrimaryIfEmpty_primary hr with hold | ⟨rfl, rfl⟩
    · exact .inl hold
    · obtain ⟨first, hfirst, howner⟩ := createPremium_premium clock st h w'.key
        a.highestBidLamports
      exact .inr ⟨rfl, .premium rfl (Option.map_eq_some_iff.2 ⟨first, hfirst, howner⟩)⟩
  | @claimSubdomain o p l ph lh cfg paid =>
    rcases upsertPrimaryIfEmpty_primary hr with hold | ⟨rfl, rfl⟩
    · exact .inl hold
    · exact .inr ⟨rfl, .subdomain rfl ph lh _ (setSub_self (st.setLamports paid) ph lh _) rfl rfl⟩
  | @setPrimaryName o pk sk h kind premium sub hpremium hsub hcheck =>
    by_cases hw : w = o.key
    · subst hw
      have hself : (st.setPrimary o.key ⟨o.key, h, kind, true⟩).primary o.key =
          some ⟨o.key, h, kind, true⟩ := Function.update_self ..
      obtain rfl := Option.some.inj (hself.symm.trans hr)
      exact .inr ⟨rfl, (checkPrimary_owns hs hsubs hpremium hsub hcheck).congr rfl rfl⟩
    · exact .inl ((Function.update_of_ne hw ..).symm.trans hr)
  | _ => exact .inl hr

/-! ## What is taken -/

/-- Only a transfer gives a name to another wallet. -/
theorem effect_ownerOf {h : Hash} (heff : Effect dep clock st i st')
    (ho : st.ownerOf h = some w) : st'.ownerOf h = some w ∨ i.Transfers := by
  obtain ⟨p, hp, howner⟩ := Option.map_eq_some_iff.1 ho
  have hwrite : ∀ k q, (h = k → q.owner = w) →
      ((Function.update st.premium k (some q)) h).map PremiumName.owner = some w := by
    intro k q hq
    by_cases hk : h = k
    · rw [hk, Function.update_self, Option.map_some, hq hk]
    · rw [Function.update_of_ne hk]
      exact ho
  have hfresh : ∀ k, st.premium k = none → h ≠ k := by
    intro k hk
    apply ne_of_apply_ne st.premium
    rw [hp, hk]
    exact Option.some_ne_none p
  cases heff with
  | purchasePremium cfg pcfg label paid hcfg hpcfg hnone =>
    exact .inl (hwrite _ _ fun hk => absurd hk (hfresh _ hnone))
  | settleAuction pcfg a hpcfg ha htreasury hnone =>
    exact .inl (hwrite _ _ fun hk => absurd hk (hfresh _ hnone))
  | bindPremiumNft q pol account hq hqo =>
    refine .inl (hwrite _ _ ?_)
    rintro rfl
    obtain rfl : q = p := Option.some.inj (hq.premium.symm.trans hp)
    exact hqo.symm.trans howner
  | issuePremiumNft q mints tokens hq =>
    refine .inl (hwrite _ _ ?_)
    rintro rfl
    obtain rfl : q = p := Option.some.inj (hq.symm.trans hp)
    exact howner
  | transferPremium => exact .inr trivial
  | syncPremiumOwnerFromNft => exact .inr trivial
  | transferSubdomain => exact .inr trivial
  | _ => exact .inl ho

/-- Only a transfer gives a subdomain to another wallet. -/
theorem effect_subOwner {ph lh : Hash} {s : SubName} (heff : Effect dep clock st i st')
    (hs : st.sub ph lh = some s) :
    (∃ s', st'.sub ph lh = some s' ∧ s'.owner = s.owner) ∨ i.Transfers := by
  have hwrite : ∀ (st₁ : State) ph' lh' t, st₁.sub = st.sub →
      ((ph, lh) = (ph', lh') → t.owner = s.owner) →
      ∃ s', (st₁.setSub ph' lh' t).sub ph lh = some s' ∧ s'.owner = s.owner := by
    intro st₁ ph' lh' t hsub ht
    rw [setSub_sub]
    split
    · next heq => exact ⟨t, rfl, ht heq⟩
    · exact ⟨s, hsub ▸ hs, rfl⟩
  have hfresh : ∀ ph' lh', st.sub ph' lh' = none → (ph, lh) ≠ (ph', lh') := by
    rintro ph' lh' hnone ⟨⟩
    rw [hnone] at hs
    cases hs
  cases heff with
  | claimSubdomain cfg paid hcfg hnone =>
    exact .inl (hwrite (st.setLamports paid) _ _ _ rfl fun hk => absurd hk (hfresh _ _ hnone))
  | claimDelegatedSubdomain premium pol hp hname howner hnone =>
    exact .inl (hwrite (st.setPolicy _ pol) _ _ _ rfl fun hk => absurd hk (hfresh _ _ hnone))
  | issueSubdomainNft t mints tokens ht =>
    refine .inl (hwrite (st.setTokens mints tokens) _ _ _ rfl ?_)
    rintro ⟨⟩
    obtain rfl : t = s := Option.some.inj (ht.symm.trans hs)
    rfl
  | transferPremium => exact .inr trivial
  | syncPremiumOwnerFromNft => exact .inr trivial
  | transferSubdomain => exact .inr trivial
  | _ => exact .inl ⟨s, hs, rfl⟩

/-- An instruction that takes the name of a primary name from its wallet is a transfer. -/
theorem effect_owns (heff : Effect dep clock st i st') (ho : OwnsPrimary dep st w r) :
    OwnsPrimary dep st' w r ∨ i.Transfers := by
  cases ho with
  | premium hkind howner =>
    rcases effect_ownerOf heff howner with hkept | htrans
    · exact .inl (.premium hkind hkept)
    · exact .inr htrans
  | subdomain hkind ph lh s hsub hhash howner =>
    rcases effect_subOwner heff hsub with ⟨s', hs', howner'⟩ | htrans
    · exact .inl (.subdomain hkind ph lh s' hs' hhash (howner'.trans howner))
    · exact .inr htrans

/-! ## What exists -/

/-- No instruction removes a subdomain. -/
theorem effect_sub_kept {ph lh : Hash} (heff : Effect dep clock st i st')
    (hne : st.sub ph lh ≠ none) : st'.sub ph lh ≠ none := by
  have hwrite : ∀ (st₁ : State) ph' lh' t, st₁.sub = st.sub →
      (st₁.setSub ph' lh' t).sub ph lh ≠ none := by
    intro st₁ ph' lh' t hsub
    rw [setSub_sub]
    split
    · exact Option.some_ne_none t
    · rw [hsub]
      exact hne
  cases heff with
  | claimSubdomain cfg paid => exact hwrite (st.setLamports paid) _ _ _ rfl
  | claimDelegatedSubdomain premium pol => exact hwrite (st.setPolicy _ pol) _ _ _ rfl
  | issueSubdomainNft t mints tokens => exact hwrite (st.setTokens mints tokens) _ _ _ rfl
  | transferSubdomain => exact hwrite st _ _ _ rfl
  | _ => exact hne

/-- A name that a primary name points to stays there. -/
theorem PointsTo.effect (hr : PointsTo dep st r) (heff : Effect dep clock st i st') :
    PointsTo dep st' r := by
  cases hr with
  | premium hkind hp => exact .premium hkind (effect_premium_kept heff hp)
  | subdomain hkind ph lh hs hhash => exact .subdomain hkind ph lh (effect_sub_kept heff hs) hhash

/-- The primary names belong to their wallets and point to names that exist. -/
structure PrimarySound (dep : Deployment) (st : State) : Prop where
  names : Sound st
  subs : SubsSound dep st
  primary : ∀ w r, st.primary w = some r → r.owner = w ∧ PointsTo dep st r

/-- **Step lemma**: instructions keep the primary names sound. -/
theorem effect_primarySound (hp : PrimarySound dep st) (heff : Effect dep clock st i st') :
    PrimarySound dep st' := by
  refine ⟨effect_sound hp.names heff, effect_subsSound hp.subs heff, ?_⟩
  intro w r hr
  rcases effect_primary hp.names hp.subs heff hr with hold | ⟨howner, hnew⟩
  · obtain ⟨howner, hpoints⟩ := hp.primary w r hold
    exact ⟨howner, hpoints.effect heff⟩
  · exact ⟨howner, hnew.pointsTo⟩

end States

/-! ## Runs -/

theorem exec_primarySound (dep : Deployment) (lamports : Pubkey → Nat) (clock : Clock)
    (is : List (Action Instr)) :
    PrimarySound dep (exec (step dep) ⟨clock, State.genesis lamports⟩ is).accounts := by
  have hstart : PrimarySound dep (State.genesis lamports) := by
    refine ⟨genesis_sound lamports, ?_, ?_⟩
    · intro ph lh s hs
      cases hs
    · intro w r hr
      cases hr
  exact exec_invariant (fun _ _ _ _ hp heff => effect_primarySound hp heff) is hstart

/-- A step after which a primary name is not owned by its wallet, and before which it was not there
or was owned, takes the name from the wallet. -/
theorem event_takes {dep : Deployment} {c : Chain State} {act : Action Instr} {w : Pubkey}
    {r : PrimaryName} (hs : PrimarySound dep c.accounts)
    (hpre : ¬(c.accounts.primary w = some r ∧ ¬OwnsPrimary dep c.accounts w r))
    (hpost : (event (step dep) c act).post.accounts.primary w = some r ∧
      ¬OwnsPrimary dep (event (step dep) c act).post.accounts w r) :
    Step.Takes dep (event (step dep) c act) w r := by
  obtain ⟨i, st', hi, hout, heff, hst⟩ :=
    event_change (P := fun st => st.primary w = some r ∧ ¬OwnsPrimary dep st w r) hpre hpost
  obtain ⟨hr, hlost⟩ := hpost
  have hlost' := hlost
  rw [hst] at hr hlost'
  rcases effect_primary hs.names hs.subs heff hr with hold | ⟨-, hnew⟩
  · have howned : OwnsPrimary dep c.accounts w r := by
      by_contra hno
      exact hpre ⟨hold, hno⟩
    rcases effect_owns heff howned with hkept | htrans
    · exact absurd hkept hlost'
    · exact ⟨⟨i, hi, htrans⟩, hout, hold, howned, hlost⟩
  · exact absurd hnew hlost'

/-- **Primary names.** In every run a primary name is owned by its wallet, unless a transfer took it
from the wallet. -/
theorem primary_law (dep : Deployment) (lamports : Pubkey → Nat) (clock : Clock)
    (is : List (Action Instr)) : PrimaryLaw dep ⟨clock, State.genesis lamports⟩ is := by
  intro w r hr _
  obtain ⟨howner, hpoints⟩ := (exec_primarySound dep lamports clock is).primary w r hr
  refine ⟨howner, hpoints, ?_⟩
  by_cases howned : OwnsPrimary dep (exec (step dep) ⟨clock, State.genesis lamports⟩ is).accounts w r
  · exact .inl howned
  · have hstart : ¬((State.genesis lamports).primary w = some r ∧
        ¬OwnsPrimary dep (State.genesis lamports) w r) := fun h => nomatch h.1
    obtain ⟨e, he, hpre, hpost⟩ := exists_event_of_exec
      (P := fun c : Chain State => c.accounts.primary w = some r ∧ ¬OwnsPrimary dep c.accounts w r)
      (s := ⟨clock, State.genesis lamports⟩) hstart ⟨hr, howned⟩
    refine .inr ⟨e, he, ?_⟩
    obtain ⟨pre, act, post, -, rfl⟩ := mem_trace he
    exact event_takes (exec_primarySound dep lamports clock pre) hpre hpost

/-! ## A primary name that is sold -/

/-- The owner of `alice.dns`, its primary name, transfers it. -/
def primaryRun : List (Action Instr) :=
  [.submit (.initNamesConfig saleAuthority 8 saleZone 5 0 true true),
    .submit (.initPremiumConfig saleAuthority 8 9 1 100 0 true),
    .submit (.purchasePremium saleSeller saleName saleHash),
    .submit (.transferPremium saleHash saleSeller 3)]

/-- After the transfer the name is still the primary name of the wallet that sold it. -/
theorem primaryRun_not_owned :
    ¬PrimaryOwned saleDeployment (exec (step saleDeployment) saleGenesis primaryRun).accounts := by
  intro howned
  have hr : (exec (step saleDeployment) saleGenesis primaryRun).accounts.primary 2 =
      some ⟨2, saleHash, kindPremium, true⟩ := by decide
  cases howned 2 _ hr rfl with
  | premium _ howner => exact absurd howner (by decide)
  | subdomain hkind => exact absurd hkind (by decide)

end Ddns.Names
