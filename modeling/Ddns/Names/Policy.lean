import Ddns.Names.Binding

/-!
# Names and their policies

Each premium name has a `ParentPolicy` that repeats its owner. A name is created together with its
policy, and each instruction that changes the owner of a name looks at the policy as well. So the two
owners agree in every reachable state (`Coherent`), and `claim_delegated_subdomain` and
`set_parent_subdomain_policy` admit exactly the present owner of the name.
-/

namespace Ddns.Names

open Tx Runs

/-- The name at `h` goes with a policy of its owner. -/
structure NameCoherent (st : State) (h : Hash) (p : PremiumName) : Prop where
  configured : st.config ≠ none
  nameHash : p.nameHash = h
  policy : ∃ pol, st.policy h = some pol ∧ pol.parentHash = h ∧ pol.parentOwner = p.owner

/-- Every name goes with a policy of its owner. -/
def Coherent (st : State) : Prop := ∀ h p, st.premium h = some p → NameCoherent st h p

section States

variable {dep : Deployment} {clock : Clock} {st st' : State} {i : Instr} {h : Hash} {o : Pubkey}

/-- The policy that the owner finds is the owner's. -/
theorem claimPolicy_owner {pol : ParentPolicy} (hok : claimPolicy st h o = .ok pol) :
    pol.parentOwner = o := by
  unfold claimPolicy at hok
  dsimp only at hok
  split at hok
  · cases hok
    rfl
  · simp only [bind_eq_ok, require_eq_ok, exists_unit, pure_eq_ok] at hok
    obtain ⟨-, howner, rfl⟩ := hok
    exact howner

/-- The owner of a coherent name finds its policy. -/
theorem NameCoherent.claimPolicy {p : PremiumName} (hc : NameCoherent st h p) :
    ∃ pol, claimPolicy st h p.owner = .ok pol := by
  obtain ⟨pol, hpol, hhash, howner⟩ := hc.policy
  unfold Names.claimPolicy
  rw [hpol, Option.getD_some]
  dsimp only
  split
  · exact ⟨_, rfl⟩
  · refine ⟨pol, ?_⟩
    simp only [bind_eq_ok, require_eq_ok, exists_unit, pure_eq_ok]
    exact ⟨hhash, howner, trivial⟩

/-- Where one name changes at most, and it is coherent afterwards, all are. -/
theorem Coherent.update (hc : Coherent st) (k : Hash)
    (hcfg : st.config ≠ none → st'.config ≠ none)
    (hpremium : ∀ h, h ≠ k → st'.premium h = st.premium h)
    (hpolicy : ∀ h, h ≠ k → st'.policy h = st.policy h)
    (hnew : ∀ p, st'.premium k = some p → NameCoherent st' k p) : Coherent st' := by
  intro h p hp
  by_cases hk : h = k
  · subst hk
    exact hnew p hp
  · rw [hpremium h hk] at hp
    obtain ⟨hconf, hname, hpol⟩ := hc h p hp
    rw [← hpolicy h hk] at hpol
    exact ⟨hcfg hconf, hname, hpol⟩

/-- Where no name and no policy changes, nothing does. -/
theorem Coherent.of_eq (hc : Coherent st) (hcfg : st.config ≠ none → st'.config ≠ none)
    (hpremium : st'.premium = st.premium) (hpolicy : st'.policy = st.policy) : Coherent st' := by
  intro h p hp
  rw [hpremium] at hp
  obtain ⟨hconf, hname, hpol⟩ := hc h p hp
  exact ⟨hcfg hconf, hname, by rw [hpolicy]; exact hpol⟩

/-- A write of a name and its policy. -/
theorem Coherent.write (hc : Coherent st) {k : Hash} {p : PremiumName} {pol : ParentPolicy}
    (hpremium : st'.premium = Function.update st.premium k (some p))
    (hpolicy : st'.policy = Function.update st.policy k (some pol)) (hconf : st'.config = st.config)
    (hcfg : st.config ≠ none) (hname : p.nameHash = k) (hhash : pol.parentHash = k)
    (howner : pol.parentOwner = p.owner) : Coherent st' := by
  apply hc.update k
  · rw [hconf]
    exact id
  · intro h hh
    rw [hpremium, Function.update_of_ne hh]
  · intro h hh
    rw [hpolicy, Function.update_of_ne hh]
  · intro q hq
    rw [hpremium, Function.update_self, Option.some.injEq] at hq
    subst hq
    refine ⟨hconf ▸ hcfg, hname, pol, ?_, hhash, howner⟩
    rw [hpolicy, Function.update_self]

/-- A write of the policy of a name, by its owner. -/
theorem Coherent.writePolicy (hc : Coherent st) {k : Hash} {p : PremiumName} {pol : ParentPolicy}
    (hpolicy : st'.policy = Function.update st.policy k (some pol))
    (hpremium : st'.premium = st.premium) (hconf : st'.config = st.config)
    (hp : st.premium k = some p) (hhash : pol.parentHash = k) (howner : pol.parentOwner = p.owner) :
    Coherent st' := by
  obtain ⟨hcfg, hname, -⟩ := hc k p hp
  refine hc.write ?_ hpolicy hconf hcfg hname hhash howner
  rw [hpremium, ← hp, Function.update_eq_self]

/-- The policy that an instruction reads with a coherent name is the owner's. -/
theorem Coherent.named (hc : Coherent st) {p : PremiumName} {pol : ParentPolicy}
    (hn : Named st h p pol) :
    st.config ≠ none ∧ p.nameHash = h ∧ pol.parentHash = h ∧ pol.parentOwner = p.owner := by
  obtain ⟨hcfg, hname, q, hq, hhash, howner⟩ := hc h p hn.premium
  have hpol := hn.policy
  rw [hname, hq, Option.some.injEq] at hpol
  subst hpol
  exact ⟨hcfg, hname, hhash, howner⟩

/-- **Step lemma**: every instruction keeps the names coherent. -/
theorem effect_coherent (hc : Coherent st) (heff : Effect dep clock st i st') : Coherent st' := by
  have hkeep : st.config ≠ none → st.config ≠ none := id
  cases heff with
  | initNamesConfig cfg hnone => exact hc.of_eq (fun _ => Option.some_ne_none cfg) rfl rfl
  | @purchasePremium o name h cfg pcfg label paid hcfg =>
    have hne : st.config ≠ none := hcfg ▸ Option.some_ne_none cfg
    exact hc.write rfl rfl rfl hne rfl rfl rfl
  | settleAuction pcfg a hpcfg ha htreasury hnone hname hsettled hended hbid hwinner hcfg =>
    exact hc.write rfl rfl rfl hcfg rfl rfl rfl
  | @transferPremium h o newOwner p pol hp howner hbound =>
    obtain ⟨hcfg, hname, hhash, hpo⟩ := hc.named hp
    subst hname
    refine hc.write rfl rfl rfl hcfg rfl hhash ?_
    exact if_pos (hpo.trans howner)
  | @bindPremiumNft h o mint key p pol account hp howner htrans hacc hacco =>
    obtain ⟨hcfg, hname, hhash, hpo⟩ := hc.named hp
    subst hname
    refine hc.write rfl rfl rfl hcfg rfl hhash ?_
    exact if_pos (.inr (hpo.trans howner))
  | @issuePremiumNft o h p mints tokens hp hname howner htrans hmint hissue =>
    obtain ⟨hcfg, -, pol, hpol, hhash, hpo⟩ := hc h p hp
    refine hc.write rfl ?_ rfl hcfg hname hhash hpo
    exact (Function.update_eq_self_iff.2 hpol.symm).symm
  | @syncPremiumOwnerFromNft h mint key p pol account hp hbound hmint hacc =>
    obtain ⟨hcfg, hname, hhash, hpo⟩ := hc.named hp
    subst hname
    refine hc.write rfl rfl rfl hcfg rfl hhash ?_
    exact if_pos (.inr (.inl hpo))
  | claimDelegatedSubdomain premium pol hp hname howner hnone hclaim =>
    exact hc.writePolicy rfl rfl rfl hp (claimPolicy_parentHash hclaim)
      ((claimPolicy_owner hclaim).trans howner.symm)
  | @setParentSubdomainPolicy po p ph b premium pol hp hname howner hclaim =>
    have hhash := claimPolicy_parentHash hclaim
    have hpo := (claimPolicy_owner hclaim).trans howner.symm
    exact hc.writePolicy rfl rfl rfl hp hhash hpo
  | _ => exact hc.of_eq hkeep rfl rfl

/-! ## Who may set the policy -/

/-- In a coherent state the policy can be set by the owner of the name, and by nobody else. -/
theorem setParentSubdomainPolicy_iff (hc : Coherent st) {s : Signer} {parent : Text} {b : Bool} :
    (∃ st', setParentSubdomainPolicy dep st s parent h b = .ok st') ↔
      st.ownerOf h = some s.key ∧
        ∃ n, normalizeFullName parent = .ok n ∧ hashName dep n = h := by
  simp only [setParentSubdomainPolicy, bind_eq_ok, load_eq_ok, require_eq_ok, exists_unit,
    pure_eq_ok]
  constructor
  · rintro ⟨_, _, -, p, hp, n, hn, hhash, -, howner, -⟩
    refine ⟨?_, n, hn, hhash⟩
    rw [State.ownerOf, hp, Option.map_some, howner]
  · rintro ⟨howner, n, hn, hhash⟩
    obtain ⟨p, hp, howner⟩ := Option.map_eq_some_iff.1 howner
    obtain ⟨cfg, hcfg⟩ := Option.ne_none_iff_exists'.1 (hc h p hp).configured
    obtain ⟨pol, hpol⟩ := (hc h p hp).claimPolicy
    exact ⟨_, cfg, hcfg, p, hp, n, hn, hhash, (hc h p hp).nameHash, howner, pol, howner ▸ hpol, rfl⟩

/-- In a coherent state a free subdomain can be delegated by the owner of the name, and by nobody
else. -/
theorem claimDelegatedSubdomain_iff (hc : Coherent st) {s : Signer} {parent label : Text}
    {lh : Hash} {initialOwner : Pubkey} :
    (∃ st', claimDelegatedSubdomain dep clock st s parent label h lh initialOwner = .ok st') ↔
      st.ownerOf h = some s.key ∧ st.sub h lh = none ∧
        ∃ n l, normalizeFullName parent = .ok n ∧ normalizeLabel label = .ok l ∧
          hashName dep n = h ∧ hashLabel dep l = lh := by
  simp only [claimDelegatedSubdomain, checkHashes, bind_eq_ok, load_eq_ok, vacant_eq_ok,
    require_eq_ok, exists_unit, pure_eq_ok]
  constructor
  · rintro ⟨_, _, -, p, hp, hfree, n, hn, l, hl, ⟨hhash, hlab⟩, -, howner, -⟩
    refine ⟨?_, hfree, n, l, hn, hl, hhash, hlab⟩
    rw [State.ownerOf, hp, Option.map_some, howner]
  · rintro ⟨howner, hfree, n, l, hn, hl, hhash, hlab⟩
    obtain ⟨p, hp, howner⟩ := Option.map_eq_some_iff.1 howner
    obtain ⟨cfg, hcfg⟩ := Option.ne_none_iff_exists'.1 (hc h p hp).configured
    obtain ⟨pol, hpol⟩ := (hc h p hp).claimPolicy
    exact ⟨_, cfg, hcfg, p, hp, hfree, n, hn, l, hl, ⟨hhash, hlab⟩, (hc h p hp).nameHash, howner,
      pol, howner ▸ hpol, rfl⟩

end States

/-- **Policy coherence.** In every state of every run each name has a policy that repeats its hash
and its owner; and the policy of a name can be set, and a free subdomain of it delegated, exactly by
its present owner. -/
theorem policies_coherent (dep : Deployment) (lamports : Pubkey → Nat) (clock : Clock)
    (is : List (Action Instr)) :
    let c := exec (step dep) ⟨clock, State.genesis lamports⟩ is
    (∀ h p, c.accounts.premium h = some p → ∃ pol, c.accounts.policy h = some pol ∧
      pol.parentHash = p.nameHash ∧ p.nameHash = h ∧ pol.parentOwner = p.owner) ∧
    (∀ s parent h b, (∃ st', setParentSubdomainPolicy dep c.accounts s parent h b = .ok st') ↔
      c.accounts.ownerOf h = some s.key ∧
        ∃ n, normalizeFullName parent = .ok n ∧ hashName dep n = h) ∧
    ∀ s parent label h lh o,
      (∃ st', claimDelegatedSubdomain dep c.clock c.accounts s parent label h lh o = .ok st') ↔
        c.accounts.ownerOf h = some s.key ∧ c.accounts.sub h lh = none ∧
          ∃ n l, normalizeFullName parent = .ok n ∧ normalizeLabel label = .ok l ∧
            hashName dep n = h ∧ hashLabel dep l = lh := by
  intro c
  have hgenesis : Coherent (State.genesis lamports) := by
    intro h p hp
    cases hp
  have hc : Coherent c.accounts :=
    exec_invariant (fun _ _ _ _ hc heff => effect_coherent hc heff) is hgenesis
  refine ⟨?_, fun _ _ _ _ => setParentSubdomainPolicy_iff hc, fun _ _ _ _ _ _ =>
    claimDelegatedSubdomain_iff hc⟩
  intro h p hp
  obtain ⟨-, hname, pol, hpol, hhash, howner⟩ := hc h p hp
  exact ⟨pol, hpol, hhash.trans hname.symm, hname, howner⟩

end Ddns.Names
