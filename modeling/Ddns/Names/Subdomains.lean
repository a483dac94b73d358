import Ddns.Names.Binding
import Ddns.Lib.Updates

/-!
# Who controls a delegated subdomain

`claim_delegated_subdomain` copies the owner of the parent name into the subdomain, and
`transfer_subdomain` asks that copy to sign. The parent name itself changes hands through
`transfer_premium`, `bind_premium_nft` and `sync_premium_owner_from_nft`, which keep the
`ParentPolicy` in step and not the copies. `control_iff` says that the owner of the parent controls
the transfers exactly as long as the copies are true (`Faithful`).
-/

namespace Ddns.Names

open Tx Runs

/-- The subdomain `s` is delegated, and its parent has not enabled transfers. -/
structure Controlled (st : State) (parentHash labelHash : Hash) (s : SubName) : Prop where
  sub : st.sub parentHash labelHash = some s
  delegated : s.transferPolicy = transferParentControlled
  disabled : ∃ pol, st.policy parentHash = some pol ∧ pol.transfersEnabled = false

/-- **The control law** of a run. In every state on the way, the owner of a controlled subdomain
transfers it exactly if the present owner of the parent name signs as the parent owner. -/
def ControlLaw (dep : Deployment) (c : Chain State) (is : List (Action Instr)) : Prop :=
  ∀ pre post, is = pre ++ post → ∀ o newOwner po withPolicy parent label ph lh s,
    Controlled (exec (step dep) c pre).accounts ph lh s → s.owner = o.key →
    SubTexts dep parent label ph lh →
      ((∃ st', transferSubdomain dep (exec (step dep) c pre).accounts o newOwner po withPolicy
          parent label ph lh = .ok st') ↔
        ∃ signer : Signer, po = some signer ∧
          (exec (step dep) c pre).accounts.ownerOf ph = some signer.key)

/-- The copies are true: who delegated a controlled subdomain still owns the parent name. A subdomain
of the all-zero key does not count, since nobody can sign for it. -/
def Faithful (st : State) : Prop :=
  ∀ ph lh s, Controlled st ph lh s → s.owner ≠ Pubkey.default →
    st.ownerOf ph = some s.parentOwner

/-- A subdomain at its address, which has texts; a delegated one was delegated by a signer. -/
structure SubSound (dep : Deployment) (ph lh : Hash) (s : SubName) : Prop where
  parentHash : s.parentHash = ph
  labelHash : s.labelHash = lh
  texts : ∃ parent label, SubTexts dep parent label ph lh
  signed : s.transferPolicy = transferParentControlled → s.parentOwner ≠ Pubkey.default

/-- Every subdomain is sound. -/
def SubsSound (dep : Deployment) (st : State) : Prop :=
  ∀ ph lh s, st.sub ph lh = some s → SubSound dep ph lh s

section States

variable {dep : Deployment} {clock : Clock} {st st' : State} {i : Instr} {ph lh : Hash}
  {s : SubName}

theorem setSub_sub (st : State) (ph ph' lh lh' : Hash) (s : SubName) :
    (st.setSub ph lh s).sub ph' lh' = if (ph', lh') = (ph, lh) then some s else st.sub ph' lh' := by
  simp only [Prod.mk.injEq]
  exact Updates.update₂_apply st.sub ph ph' lh lh' (some s)

theorem setSub_self (st : State) (ph lh : Hash) (s : SubName) :
    (st.setSub ph lh s).sub ph lh = some s :=
  Updates.update₂_self ..

/-- A write of one sound subdomain. -/
theorem SubsSound.write (hs : SubsSound dep st) (hsub : st'.sub = (st.setSub ph lh s).sub)
    (hnew : SubSound dep ph lh s) : SubsSound dep st' := by
  intro ph' lh' s' hs'
  rw [hsub] at hs'
  rcases Updates.update₂_eq_some hs' with ⟨⟨rfl, rfl⟩, rfl⟩ | ⟨-, hold⟩
  · exact hnew
  · exact hs ph' lh' s' hold

/-- **Step lemma**: instructions keep the subdomains sound. -/
theorem effect_subsSound (hs : SubsSound dep st) (heff : Effect dep clock st i st') :
    SubsSound dep st' := by
  cases heff with
  | claimSubdomain cfg paid hcfg hnone hpaid htexts =>
    exact hs.write rfl ⟨rfl, rfl, ⟨_, _, htexts⟩, fun hd => absurd hd Nat.zero_ne_one⟩
  | @claimDelegatedSubdomain po p l ph lh o premium pol hp hname howner hnone hpol htexts =>
    exact hs.write rfl ⟨rfl, rfl, ⟨_, _, htexts⟩, fun _ => po.ne_default⟩
  | @issueSubdomainNft o ph lh s mints tokens hsub =>
    obtain ⟨hph, hlh, htexts, hsigned⟩ := hs ph lh s hsub
    exact hs.write rfl ⟨hph, hlh, htexts, hsigned⟩
  | @transferSubdomain o n po wp p l ph lh s policy hsub =>
    obtain ⟨hph, hlh, htexts, hsigned⟩ := hs ph lh s hsub
    exact hs.write rfl ⟨hph, hlh, htexts, hsigned⟩
  | _ => exact hs

/-- Without the toggle of the parent, a delegated subdomain needs the signature of who delegated
it. -/
theorem checkTransferPolicy_controlled {policy : Option ParentPolicy} {po : Option Signer}
    (hs : s.transferPolicy = transferParentControlled)
    (hoff : ∀ pol, policy = some pol → pol.transfersEnabled = false) :
    checkTransferPolicy s policy po = .ok () ↔
      ∃ signer, po = some signer ∧ s.parentOwner = signer.key := by
  have hne : ¬s.transferPolicy = transferNonTransferable := by
    rw [hs]
    exact Nat.one_ne_zero
  have hno : ¬((policy.map ParentPolicy.transfersEnabled).getD false) = true := by
    cases policy with
    | none => simp
    | some pol => simp [hoff pol rfl]
  unfold checkTransferPolicy
  rw [if_neg hne, if_pos hs, if_neg hno]
  simp only [bind_eq_ok, okOr_eq_ok, require_eq_ok]

/-- The transfer of a controlled subdomain succeeds exactly if who delegated it signs as the parent
owner. -/
theorem transferSubdomain_controlled {o : Signer} {newOwner : Pubkey} {po : Option Signer}
    {withPolicy : Bool} {parent label : Text} (hsound : SubSound dep ph lh s)
    (hc : Controlled st ph lh s) (howner : s.owner = o.key)
    (htexts : SubTexts dep parent label ph lh) :
    (∃ st', transferSubdomain dep st o newOwner po withPolicy parent label ph lh = .ok st') ↔
      ∃ signer, po = some signer ∧ s.parentOwner = signer.key := by
  obtain ⟨hsub, hdel, pol, hpol, hoff⟩ := hc
  obtain ⟨⟨n, hn, hph⟩, l, hl, hlh⟩ := htexts
  have hload : loadOptional st.policy (if withPolicy then some ph else none) =
      .ok (if withPolicy then some pol else none) := by
    cases withPolicy with
    | false => rfl
    | true => simp [loadOptional, hpol]
  have hno : ∀ q, (if withPolicy then some pol else none) = some q → q.transfersEnabled = false := by
    intro q hq
    split at hq
    · cases hq
      exact hoff
    · cases hq
  rw [← checkTransferPolicy_controlled hdel hno]
  simp only [transferSubdomain, bind_eq_ok, load_eq_ok, checkHashes_eq_ok, require_eq_ok,
    exists_unit, pure_eq_ok]
  constructor
  · rintro ⟨_, s', hs', policy, hpolicy, _, -, _, -, -, -, -, hallowed, -⟩
    obtain rfl : s = s' := Option.some.inj (hsub.symm.trans hs')
    obtain rfl := Except.ok.inj (hload.symm.trans hpolicy)
    exact hallowed
  · intro hallowed
    exact ⟨_, s, hsub, _, hload, n, hn, l, hl, ⟨hph, hlh⟩, ⟨hsound.parentHash, hsound.labelHash⟩,
      howner, hallowed, rfl⟩

end States

/-! ## Runs -/

theorem exec_subsSound (dep : Deployment) (lamports : Pubkey → Nat) (clock : Clock)
    (is : List (Action Instr)) :
    SubsSound dep (exec (step dep) ⟨clock, State.genesis lamports⟩ is).accounts := by
  have hstart : SubsSound dep (State.genesis lamports) := by
    intro ph lh s hs
    cases hs
  exact exec_invariant (fun _ _ _ _ hs heff => effect_subsSound hs heff) is hstart

/-- **Exactly when the parent owner controls its subdomains.** A run obeys the control law if and
only if in every state on the way who delegated a controlled subdomain still owns the parent. -/
theorem control_iff (dep : Deployment) (lamports : Pubkey → Nat) (clock : Clock)
    (is : List (Action Instr)) :
    ControlLaw dep ⟨clock, State.genesis lamports⟩ is ↔
      Always (step dep) (fun c => Faithful c.accounts) ⟨clock, State.genesis lamports⟩ is := by
  rw [always_iff_initial]
  constructor
  · intro hlaw pre post his ph lh s hc hne
    have hsound := exec_subsSound dep lamports clock pre ph lh s hc.sub
    obtain ⟨parent, label, htexts⟩ := hsound.texts
    -- The owner of the subdomain transfers it with the signature of who delegated it.
    let po : Signer := ⟨s.parentOwner, hsound.signed hc.delegated⟩
    have hiff := hlaw pre post his ⟨s.owner, hne⟩ 0 (some po) false parent label ph lh s hc rfl htexts
    obtain ⟨signer, hsigner, howner⟩ := hiff.1
      ((transferSubdomain_controlled hsound hc rfl htexts).2 ⟨po, rfl, rfl⟩)
    cases hsigner
    exact howner
  · intro hfaith pre post his o newOwner po withPolicy parent label ph lh s hc howner htexts
    have hsound := exec_subsSound dep lamports clock pre ph lh s hc.sub
    have hne : s.owner ≠ Pubkey.default := howner ▸ o.ne_default
    rw [transferSubdomain_controlled hsound hc howner htexts, hfaith pre post his ph lh s hc hne]
    simp only [Option.some.injEq]

/-! ## A sold parent whose seller keeps the control -/

/-- `bob` -/
def subLabel : Text := ['b', 'o', 'b']

/-- The SHA-256 of `bob`. -/
def subLabelHash : Hash := 0xe98cc59efd4c0b1e4db825b7e495e70d17a1133196e65963dac6d2fcd837b681

/-- The deployment knows the SHA-256 of `bob` as well. -/
def subDeployment : Deployment :=
  { saleDeployment with
    sha256 := fun bytes =>
      if bytes = asBytes subLabel then subLabelHash else saleDeployment.sha256 bytes }

def subOwner : Signer := ⟨5, five_ne_default⟩

/-- The owner of `alice.dns` delegates `bob.alice.dns` and sells `alice.dns`. -/
def subRun : List (Action Instr) :=
  [.submit (.initNamesConfig saleAuthority 8 saleZone 5 0 true true),
    .submit (.initPremiumConfig saleAuthority 8 9 1 100 0 true),
    .submit (.purchasePremium saleSeller saleName saleHash),
    .submit (.claimDelegatedSubdomain saleSeller saleName subLabel saleHash subLabelHash 5),
    .submit (.transferPremium saleHash saleSeller 3)]

/-- After the sale the seller still signs for the transfer of the subdomain. -/
theorem subRun_not_controlled : ¬ControlLaw subDeployment saleGenesis subRun := by
  intro hlaw
  have hsub : (exec (step subDeployment) saleGenesis subRun).accounts.sub saleHash subLabelHash =
      some ⟨saleHash, subLabelHash, 5, 1, 2, false, 0, 0, 0⟩ := by decide
  have hpol : (exec (step subDeployment) saleGenesis subRun).accounts.policy saleHash =
      some ⟨saleHash, 3, false⟩ := by decide
  have htexts : SubTexts subDeployment saleName subLabel saleHash subLabelHash :=
    ⟨⟨saleName, by decide, by decide⟩, subLabel, by decide, by decide⟩
  have hc : Controlled (exec (step subDeployment) saleGenesis subRun).accounts saleHash subLabelHash
      ⟨saleHash, subLabelHash, 5, 1, 2, false, 0, 0, 0⟩ := ⟨hsub, rfl, _, hpol, rfl⟩
  have hsound := exec_subsSound subDeployment (fun _ => 10 ^ 9) ⟨0, 0⟩ subRun _ _ _ hsub
  obtain ⟨signer, hsigner, howner⟩ := (hlaw subRun [] (List.append_nil _).symm subOwner 6
    (some saleSeller) false saleName subLabel _ _ _ hc rfl htexts).1
      ((transferSubdomain_controlled hsound hc rfl htexts).2 ⟨saleSeller, rfl, rfl⟩)
  cases hsigner
  exact absurd howner (by decide)

end Ddns.Names
