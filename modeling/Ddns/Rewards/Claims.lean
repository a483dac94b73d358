import Ddns.Rewards.Program
import Ddns.Solana.Keys
import Ddns.Lib.Shares
import Ddns.Lib.Updates
import Ddns.Lib.Run

/-!
# Domain claims and their rewards

A claim that was revoked is never verified again, and every instruction that uses a claim asks for
one that is not revoked (`uses_not_revoked`). The bonus of a domain for an epoch leaves a mark in
the usage report that no instruction takes back (`Rewarded`), so it is paid once, and nothing else
ever leaves the treasury. `handle_effect` says what each instruction does to the claims, the usage
reports and the tokens; the laws are read off it.
-/

namespace Ddns.Rewards

open Tx Runs

/-- The claim of the domain is revoked. -/
def State.Revoked (st : State) (h : Hash) : Prop :=
  ∃ c, st.claim h = some c ∧ c.status = .revoked

/-- The bonus of the domain for the epoch was paid. -/
def State.Rewarded (st : State) (h : Hash) (e : Nat) : Prop :=
  ∃ u, st.usage h e = some u ∧ u.rewardedAmount ≠ 0

/-- The amount in the treasury vault. -/
def State.treasury (st : State) : Nat := st.tokens.amount st.config.treasuryVault

/-- The claim is bound to the hash of its name. -/
def DomainClaim.Hashed (dep : Deployment) (c : DomainClaim) : Prop :=
  c.domainHash = dep.sha256 (c.fqdnBytes.take c.fqdnLen)

/-- The instruction acts for the claim of the domain. -/
inductive Instr.Uses (h : Hash) : Instr → Prop where
  | claim {s w fqdn nonce payout} : Uses h (.claimDomain s w fqdn h nonce payout)
  | toll {s src payout vault n} : Uses h (.payTollWithDomain s src payout vault h n)
  | usage {s e q paid wallets root} : Uses h (.submitDomainUsage s e h q paid wallets root)
  | rewards {s vault ata e} : Uses h (.claimDomainRewards s vault ata e h)

section Helpers

variable {dep : Deployment} {st : State} {fqdn : Names.Text} {h : Hash} {n : Nat}

theorem bpsOf_le {amount bps r : Nat} (h : bpsOf amount bps = .ok r) (hbps : bps ≤ 10000) :
    r ≤ amount := by
  simp only [bpsOf, bind_eq_ok, okOr_eq_ok, Checked.mul_eq_some, pure_eq_ok] at h
  obtain ⟨product, ⟨-, rfl⟩, rfl⟩ := h
  exact Nat.le_trans (Checked.cast_le 64 _) (Shares.share_le hbps)

theorem checkPayerAta_eq_ok {ata : Pubkey} {s : Signer} {u : Unit} :
    checkPayerAta st ata s = .ok u ↔ ∃ acc, st.tokens ata = some acc ∧
      acc.mint = st.config.tollMint ∧ acc.owner = s.key := by
  simp only [checkPayerAta, bind_eq_ok, load_eq_ok, require_eq_ok, exists_unit]

theorem payPart_spentBy {t t' : Tokens} {src dst k : Pubkey}
    (h : payPart t src dst k n = .ok t') : Tokens.SpentBy k t t' :=
  Tokens.pay_spentBy h

/-- The bytes that are written for a name are those that its hash is of. -/
theorem writeFqdnBytes_hashed {bytes : List UInt8} (hw : writeFqdnBytes fqdn = .ok (bytes, n))
    (hh : computeDomainHash dep fqdn = .ok h) : h = dep.sha256 (bytes.take n) := by
  simp only [computeDomainHash, bind_eq_ok, pure_eq_ok] at hh
  obtain ⟨s, hs, rfl⟩ := hh
  simp only [writeFqdnBytes, hs, bind_eq_ok, Except.ok.injEq, require_eq_ok, exists_unit,
    pure_eq_ok, Prod.mk.injEq, exists_eq_left'] at hw
  obtain ⟨hlen, rfl, rfl⟩ := hw
  rw [Checked.cast_of_lt (by omega), List.take_left]

end Helpers

/-! ## What each instruction does -/

/-- The effect of an instruction on the accounts. -/
inductive Effect (dep : Deployment) (clock : Clock) (st : State) : Instr → State → Prop where
  | config (s : Signer) (p : ConfigParams) (config : RewardsConfig)
      (hvault : config.treasuryVault = st.config.treasuryVault) :
      Effect dep clock st (.updateRewardsConfig s p) { st with config }
  | challenge (s : Signer) (fqdn : Names.Text) (h : Hash) (nonce : Nonce) (ch : DomainChallenge) :
      Effect dep clock st (.startDomainChallenge s fqdn h nonce)
        (st.setChallenge h nonce (some ch))
  | claim (s : Signer) (w : Pubkey) (fqdn : Names.Text) (h : Hash) (nonce : Nonce) (payout : Pubkey)
      (c : DomainClaim) (hopen : ¬st.Revoked h) (hhashed : c.Hashed dep) :
      Effect dep clock st (.claimDomain s w fqdn h nonce payout)
        ((st.setClaim h c).setChallenge h nonce none)
  | revoke (s : Signer) (h : Hash) (c : DomainClaim) (hc : st.claim h = some c) :
      Effect dep clock st (.revokeDomainClaim s h) (st.setClaim h { c with status := .revoked })
  | spend (i : Instr) (tokens : Tokens) (huses : ∀ h, i.Uses h → ¬st.Revoked h)
      (hnot : ∀ s vault ata e h, i ≠ .claimDomainRewards s vault ata e h)
      (hspent : Tokens.SpentBy i.signer.key st.tokens tokens) :
      Effect dep clock st i { st with tokens }
  | report (s : Signer) (e : Nat) (h : Hash) (q paid wallets : Nat) (root : Hash)
      (u : DomainUsageEpoch) (hopen : ¬st.Revoked h) (hnew : st.usage h e = none) :
      Effect dep clock st (.submitDomainUsage s e h q paid wallets root) (st.setUsage h e u)
  | reward (s : Signer) (ata : Pubkey) (e : Nat) (h : Hash) (u : DomainUsageEpoch) (r : Nat)
      (tokens : Tokens) (acc : TokenAccount) (hopen : ¬st.Revoked h) (hu : st.usage h e = some u)
      (hunpaid : u.rewardedAmount = 0) (hpos : 0 < r)
      (hmax : r ≤ st.config.maxRewardPerEpochPerDomain) (hpaid : r ≤ u.paidTollAmount)
      (hata : st.tokens ata = some acc) (howner : acc.owner = s.key)
      (hmove : (st.tokens.transfer st.config.treasuryVault ata dep.treasuryAuthority r :
        Result RewardsError Tokens) = .ok tokens) :
      Effect dep clock st (.claimDomainRewards s st.config.treasuryVault ata e h)
        ({ st with tokens }.setUsage h e
          { u with rewardedAmount := r, rewardedAtSlot := clock.slot })

section Steps

variable {dep : Deployment} {clock : Clock} {st st' : State} {i : Instr} {h : Hash} {e : Nat}

theorem not_revoked_of_verified {c : DomainClaim} (hc : st.claim h = some c)
    (hv : c.status = .verified) : ¬st.Revoked h := by
  rintro ⟨c', hc', hr⟩
  obtain rfl : c = c' := Option.some.inj (hc.symm.trans hc')
  rw [hv] at hr
  cases hr

theorem not_revoked_of_getD
    (hs : ((st.claim h).getD DomainClaim.zero).status = .unverified ∨
      ((st.claim h).getD DomainClaim.zero).status = .verified) : ¬st.Revoked h := by
  rintro ⟨c, hc, hr⟩
  rw [hc, Option.getD_some, hr] at hs
  rcases hs with hs | hs
  · cases hs
  · cases hs

/-- **What an instruction does.** -/
theorem handle_effect (hok : handle dep clock st i = .ok st') : Effect dep clock st i st' := by
  cases i with
  | updateRewardsConfig s p =>
    simp only [handle, updateRewardsConfig, bind_eq_ok, demand_eq_ok, exists_unit] at hok
    obtain ⟨-, hok⟩ := hok
    split at hok
    · split at hok
      · split at hok
        · simp only [bind_eq_ok, require_eq_ok, exists_unit, pure_eq_ok] at hok
          obtain ⟨-, rfl⟩ := hok
          exact .config s p _ rfl
        · cases hok
      · cases hok
    · cases hok
  | startDomainChallenge s fqdn h nonce =>
    simp only [handle, startDomainChallenge, bind_eq_ok, vacant_eq_ok, require_eq_ok, okOr_eq_ok,
      exists_unit, pure_eq_ok] at hok
    obtain ⟨-, want, -, -, expires, -, rfl⟩ := hok
    exact .challenge s fqdn h nonce _
  | claimDomain s w fqdn h nonce payout =>
    simp only [handle, claimDomain, bind_eq_ok, load_eq_ok, require_eq_ok, exists_unit, pure_eq_ok,
      Prod.exists] at hok
    obtain ⟨ch, -, want, hwant, rfl, -, -, -, hstatus, -, bytes, n, hbytes, rfl⟩ := hok
    exact .claim s w fqdn want nonce payout _ (not_revoked_of_getD hstatus)
      (writeFqdnBytes_hashed hbytes hwant)
  | revokeDomainClaim s h =>
    simp only [handle, revokeDomainClaim, bind_eq_ok, load_eq_ok, demand_eq_ok, require_eq_ok,
      exists_unit, pure_eq_ok] at hok
    obtain ⟨c, hc, -, -, -, rfl⟩ := hok
    exact .revoke s h c hc
  | payToll s src vault n =>
    simp only [handle, payToll, bind_eq_ok, require_eq_ok, exists_unit, pure_eq_ok] at hok
    obtain ⟨-, -, -, -, -, tokens, hmove, rfl⟩ := hok
    exact .spend _ tokens (by rintro _ ⟨⟩) (by simp) (Tokens.transfer_spentBy hmove)
  | payTollWithDomain s src payout vault h n =>
    simp only [handle, payTollWithDomain, bind_eq_ok, load_eq_ok, require_eq_ok, okOr_eq_ok,
      exists_unit, pure_eq_ok] at hok
    obtain ⟨c, hc, -, -, -, hverified, -, -, -, acc, -, -, -, share, -, rest, -, t, hshare, tokens,
      hrest, rfl⟩ := hok
    refine .spend _ tokens ?_ (by simp) ((payPart_spentBy hshare).trans (payPart_spentBy hrest))
    rintro _ ⟨⟩
    exact not_revoked_of_verified hc hverified
  | fundTreasury s src vault n =>
    simp only [handle, fundTreasury, bind_eq_ok, require_eq_ok, exists_unit, pure_eq_ok] at hok
    obtain ⟨-, -, -, -, -, tokens, hmove, rfl⟩ := hok
    exact .spend _ tokens (by rintro _ ⟨⟩) (by simp) (Tokens.transfer_spentBy hmove)
  | submitDomainUsage s e h q paid wallets root =>
    simp only [handle, submitDomainUsage, bind_eq_ok, load_eq_ok, vacant_eq_ok, require_eq_ok,
      exists_unit, pure_eq_ok] at hok
    obtain ⟨c, hc, hnew, -, -, hverified, epoch, -, -, rfl⟩ := hok
    exact .report s e h q paid wallets root _ (not_revoked_of_verified hc hverified) hnew
  | claimDomainRewards s vault ata e h =>
    simp only [handle, claimDomainRewards, bind_eq_ok, load_eq_ok, require_eq_ok, exists_unit,
      checkPayerAta_eq_ok, pure_eq_ok] at hok
    obtain ⟨c, hc, u, hu, -, -, hverified, -, -, ⟨acc, hata, -, howner⟩, -, -, hunpaid, -, -, raw,
      hraw, hpos, rfl, -, tokens, hmove, rfl⟩ := hok
    refine .reward s ata e h u _ tokens acc (not_revoked_of_verified hc hverified) hu hunpaid hpos
      (Nat.min_le_right ..) ?_ hata howner hmove
    exact Nat.le_trans (Nat.min_le_left ..) (bpsOf_le hraw st.config.epochReward_le)
  | splTransfer s src dst n =>
    simp only [handle, splTransfer, bind_eq_ok, pure_eq_ok] at hok
    obtain ⟨tokens, hmove, rfl⟩ := hok
    exact .spend _ tokens (by rintro _ ⟨⟩) (by simp) (Tokens.transfer_spentBy hmove)

/-- No instruction that uses a claim gets through once the claim is revoked. -/
theorem uses_not_revoked (he : Effect dep clock st i st') (hu : i.Uses h) : ¬st.Revoked h := by
  cases he with
  | config => cases hu
  | challenge => cases hu
  | claim s w fqdn h nonce payout c hopen hhashed =>
    cases hu
    exact hopen
  | revoke => cases hu
  | spend _ tokens huses => exact huses h hu
  | report s e h q paid wallets root u hopen hnew =>
    cases hu
    exact hopen
  | reward s ata e h u r tokens acc hopen =>
    cases hu
    exact hopen

@[simp] theorem setClaim_self (c : DomainClaim) : (st.setClaim h c).claim h = some c :=
  Function.update_self ..

theorem setClaim_ne {k : Hash} (c : DomainClaim) (hne : h ≠ k) :
    (st.setClaim k c).claim h = st.claim h :=
  Function.update_of_ne hne ..

@[simp] theorem setChallenge_claim (nonce : Nonce) (ch : Option DomainChallenge) :
    (st.setChallenge h nonce ch).claim = st.claim := rfl

@[simp] theorem setUsage_self (u : DomainUsageEpoch) : (st.setUsage h e u).usage h e = some u :=
  Updates.update₂_self ..

theorem setUsage_ne {k : Hash} {f : Nat} (u : DomainUsageEpoch) (hne : ¬(h = k ∧ e = f)) :
    (st.setUsage k f u).usage h e = st.usage h e :=
  Updates.update₂_ne _ hne

/-- A revoked claim stays revoked. -/
theorem Effect.revoked (he : Effect dep clock st i st') (hr : st.Revoked h) : st'.Revoked h := by
  obtain ⟨c, hc, hstatus⟩ := hr
  cases he with
  | config => exact ⟨c, hc, hstatus⟩
  | challenge => exact ⟨c, hc, hstatus⟩
  | claim s w fqdn k nonce payout c' hopen hhashed =>
    have hne : h ≠ k := by
      rintro rfl
      exact hopen ⟨c, hc, hstatus⟩
    exact ⟨c, (setClaim_ne c' hne).trans hc, hstatus⟩
  | revoke s k c' hc' =>
    by_cases hk : h = k
    · subst hk
      exact ⟨_, setClaim_self _, rfl⟩
    · exact ⟨c, (setClaim_ne _ hk).trans hc, hstatus⟩
  | spend => exact ⟨c, hc, hstatus⟩
  | report => exact ⟨c, hc, hstatus⟩
  | reward => exact ⟨c, hc, hstatus⟩

/-- A bonus that was paid stays paid. -/
theorem Effect.rewarded (he : Effect dep clock st i st') (hr : st.Rewarded h e) :
    st'.Rewarded h e := by
  obtain ⟨u, hu, hpaid⟩ := hr
  cases he with
  | config => exact ⟨u, hu, hpaid⟩
  | challenge => exact ⟨u, hu, hpaid⟩
  | claim => exact ⟨u, hu, hpaid⟩
  | revoke => exact ⟨u, hu, hpaid⟩
  | spend => exact ⟨u, hu, hpaid⟩
  | report s f k q paid wallets root u' hopen hnew =>
    have hne : ¬(h = k ∧ e = f) := by
      rintro ⟨rfl, rfl⟩
      rw [hnew] at hu
      cases hu
    exact ⟨u, (setUsage_ne u' hne).trans hu, hpaid⟩
  | reward s ata f k u' r tokens acc hopen hu' hunpaid =>
    have hne : ¬(h = k ∧ e = f) := by
      rintro ⟨rfl, rfl⟩
      obtain rfl : u = u' := Option.some.inj (hu.symm.trans hu')
      exact hpaid hunpaid
    exact ⟨u, (setUsage_ne _ hne).trans hu, hpaid⟩

/-- Every claim is bound to the hash of its name. -/
def Hashed (dep : Deployment) (st : State) : Prop :=
  ∀ h c, st.claim h = some c → c.Hashed dep

theorem Effect.hashed (he : Effect dep clock st i st') (hh : Hashed dep st) : Hashed dep st' := by
  intro h c hc
  cases he with
  | config => exact hh h c hc
  | challenge => exact hh h c hc
  | claim s w fqdn k nonce payout c' hopen hhashed =>
    rw [setChallenge_claim] at hc
    by_cases hk : h = k
    · subst hk
      rw [setClaim_self, Option.some.injEq] at hc
      rw [← hc]
      exact hhashed
    · rw [setClaim_ne _ hk] at hc
      exact hh h c hc
  | revoke s k c' hc' =>
    by_cases hk : h = k
    · subst hk
      rw [setClaim_self, Option.some.injEq] at hc
      rw [← hc]
      exact hh h c' hc'
    · rw [setClaim_ne _ hk] at hc
      exact hh h c hc
  | spend => exact hh h c hc
  | report => exact hh h c hc
  | reward => exact hh h c hc

/-- The treasury authority owns the vault. -/
def Held (dep : Deployment) (st : State) : Prop :=
  ∃ acc, st.tokens st.config.treasuryVault = some acc ∧ acc.owner = dep.treasuryAuthority

theorem Held.spentBy (hh : Held dep st) {k : Pubkey} {tokens : Tokens}
    (hspent : Tokens.SpentBy k st.tokens tokens) : Held dep { st with tokens } := by
  obtain ⟨acc, hacc, howner⟩ := hh
  obtain ⟨n, hn, -⟩ := hspent _ acc hacc
  exact ⟨_, hn, howner⟩

theorem Effect.held (he : Effect dep clock st i st') (hh : Held dep st) : Held dep st' := by
  cases he with
  | config s p config hvault =>
    obtain ⟨acc, hacc, howner⟩ := hh
    exact ⟨acc, by rw [hvault]; exact hacc, howner⟩
  | challenge => exact hh
  | claim => exact hh
  | revoke => exact hh
  | spend _ tokens huses hnot hspent => exact hh.spentBy hspent
  | report => exact hh
  | reward s ata f k u r tokens acc hopen hu hunpaid hpos hmax hpaid hata howner hmove =>
    exact hh.spentBy (Tokens.transfer_spentBy hmove)

/-- The bonus of the domain for the epoch, paid out of the treasury by the instruction `i`. -/
structure Payout (st st' : State) (i : Instr) (h : Hash) (e : Nat) : Prop where
  claimed : ∃ s vault ata, i = .claimDomainRewards s vault ata e h
  paid : ∃ u r, st.usage h e = some u ∧ st.treasury = st'.treasury + r ∧
    r ≤ st.config.maxRewardPerEpochPerDomain ∧ r ≤ u.paidTollAmount

/-- Only the bonus of a domain leaves the treasury. -/
theorem Effect.treasury (he : Effect dep clock st i st') (hh : Held dep st)
    (hsign : dep.canSign i.signer.key = true) :
    st.treasury ≤ st'.treasury ∨ ∃ h e, Payout st st' i h e := by
  have hsigner : i.signer.key ≠ dep.treasuryAuthority := by
    intro hk
    rw [hk, dep.treasuryAuthority_canSign] at hsign
    cases hsign
  cases he with
  | config s p config hvault =>
    left
    show st.treasury ≤ st.tokens.amount config.treasuryVault
    rw [hvault]
    exact Nat.le_refl _
  | challenge => exact .inl (Nat.le_refl _)
  | claim => exact .inl (Nat.le_refl _)
  | revoke => exact .inl (Nat.le_refl _)
  | spend _ tokens huses hnot hspent =>
    obtain ⟨acc, hacc, howner⟩ := hh
    exact .inl (hspent.amount_le hacc fun hk => hsigner (hk.symm.trans howner))
  | report => exact .inl (Nat.le_refl _)
  | reward s ata e h u r tokens acc hopen hu hunpaid hpos hmax hpaid hata howner hmove =>
    refine .inr ⟨h, e, ⟨s, _, ata, rfl⟩, u, r, hu, ?_, hmax, hpaid⟩
    exact Tokens.transfer_out hmove hata fun hk => hsigner (howner.symm.trans hk)

/-- The bonus counts as paid only after it was, and is not paid again. -/
theorem claimDomainRewards_rewarded {s : Signer} {vault ata : Pubkey}
    (he : Effect dep clock st (.claimDomainRewards s vault ata e h) st') :
    ¬st.Rewarded h e ∧ st'.Rewarded h e := by
  cases he with
  | spend _ tokens huses hnot => exact absurd rfl (hnot s vault ata e h)
  | reward _ _ _ _ u r tokens acc hopen hu hunpaid hpos =>
    refine ⟨?_, _, setUsage_self _, Nat.ne_of_gt hpos⟩
    rintro ⟨u', hu', hpaid⟩
    obtain rfl : u = u' := Option.some.inj (hu.symm.trans hu')
    exact hpaid hunpaid

end Steps

/-! ## Every run -/

/-- A step of the program. -/
abbrev Step := Event (Chain State) (Action Instr) (Option (Result RewardsError Unit))

/-- The step is the instruction `i`, and it succeeded. -/
def Step.Did (x : Step) (i : Instr) : Prop :=
  x.input = .submit i ∧ x.out = some (.ok ())

/-- The step claims the bonus of the domain for the epoch, and gets it. -/
def Step.Pays (x : Step) (h : Hash) (e : Nat) : Prop :=
  ∃ s vault ata, x.Did (.claimDomainRewards s vault ata e h)

section Runs

variable {dep : Deployment} {c : Chain State} {is : List (Action Instr)} {x : Step}

theorem process_eq_ok {clock : Clock} {st st' : State} {i : Instr} {u : Unit} :
    process dep clock st i = .ok (st', u) ↔
      dep.canSign i.signer.key = true ∧ handle dep clock st i = .ok st' := by
  simp [process]

/-- What a step of a run that succeeded did. -/
theorem effect_of_did (hx : x ∈ trace (step dep) c is) {i : Instr} (hdid : x.Did i) :
    dep.canSign i.signer.key = true ∧
      Effect dep x.pre.clock x.pre.accounts i x.post.accounts := by
  obtain ⟨pre, a, post, -, rfl⟩ := mem_trace hx
  obtain ⟨hi, hout⟩ := hdid
  have hi : a = .submit i := hi
  subst hi
  obtain ⟨st', hok, hpost⟩ := chainStep_out hout
  obtain ⟨hsign, hok⟩ := process_eq_ok.1 hok
  refine ⟨hsign, ?_⟩
  rw [event_post, hpost]
  exact handle_effect hok

theorem step_revoked (h : Hash) (c : Chain State) (a : Action Instr)
    (hr : c.accounts.Revoked h) : (step dep c a).1.accounts.Revoked h :=
  accounts_invariant (P := fun st => st.Revoked h)
    (fun _ _ _ _ _ hr hok => (handle_effect (process_eq_ok.1 hok).2).revoked hr) c a hr

theorem step_rewarded (h : Hash) (e : Nat) (c : Chain State) (a : Action Instr)
    (hr : c.accounts.Rewarded h e) : (step dep c a).1.accounts.Rewarded h e :=
  accounts_invariant (P := fun st => st.Rewarded h e)
    (fun _ _ _ _ _ hr hok => (handle_effect (process_eq_ok.1 hok).2).rewarded hr) c a hr

/-- A step that changes the accounts did some instruction. -/
theorem did_of_ne (hx : x ∈ trace (step dep) c is) (hne : x.post.accounts ≠ x.pre.accounts) :
    ∃ i, x.Did i := by
  obtain ⟨pre, a, post, -, rfl⟩ := mem_trace hx
  rcases chainStep_commits (process dep) (exec (step dep) c pre) a with
    ⟨hsame, -⟩ | ⟨i, s, w, rfl, -, hs⟩
  · exact absurd hsame hne
  · exact ⟨i, rfl, by rw [event_out, step, hs]⟩

end Runs

/-- **Domain claims.** In every run: once the claim of a domain is revoked, no instruction that uses
it succeeds; whatever leaves the treasury is the bonus of a domain for an epoch, within the cap and
the tolls reported; that bonus is paid once; and every claim has the hash of its name. -/
theorem domain_claims (dep : Deployment) (config : RewardsConfig) (tokens : Tokens) (clock : Clock)
    (is : List (Action Instr)) :
    let start : Chain State := ⟨clock, State.genesis dep config tokens⟩
    let run := trace (step dep) start is
    (∀ h l₁ (x : Step) l₂, run = l₁ ++ x :: l₂ → x.post.accounts.Revoked h →
      ∀ y ∈ l₂, ∀ i : Instr, i.Uses h → ¬Step.Did y i) ∧
    (∀ x ∈ run, x.post.accounts.treasury < x.pre.accounts.treasury →
      ∃ i h e, Step.Did x i ∧ Payout x.pre.accounts x.post.accounts i h e) ∧
    (∀ h e l₁ (x : Step) l₂, run = l₁ ++ x :: l₂ → x.Pays h e → ∀ y ∈ l₂, ¬Step.Pays y h e) ∧
    ∀ h c, (exec (step dep) start is).accounts.claim h = some c →
      c.domainHash = dep.sha256 (c.fqdnBytes.take c.fqdnLen) := by
  intro start run
  refine ⟨?_, ?_, ?_, ?_⟩
  · intro h l₁ x l₂ hsplit hr y hy i huses hdid
    have hyrun : y ∈ run := hsplit ▸ List.mem_append_right _ (List.mem_cons_of_mem _ hy)
    have hpre : y.pre.accounts.Revoked h :=
      stays_after (P := fun c : Chain State => c.accounts.Revoked h) (step_revoked h) hsplit hr hy
    exact uses_not_revoked (effect_of_did hyrun hdid).2 huses hpre
  · intro x hx hlt
    have hheld : Held dep x.pre.accounts := by
      obtain ⟨pre, a, post, -, rfl⟩ := mem_trace hx
      refine exec_accounts (P := Held dep) (fun _ _ _ _ _ hh hok => ?_) pre ?_
      · exact (handle_effect (process_eq_ok.1 hok).2).held hh
      · exact ⟨_, Function.update_self .., rfl⟩
    obtain ⟨i, hdid⟩ := did_of_ne hx fun hsame => by
      rw [hsame] at hlt
      exact Nat.lt_irrefl _ hlt
    obtain ⟨hsign, he⟩ := effect_of_did hx hdid
    rcases he.treasury hheld hsign with hle | ⟨h, e, hpay⟩
    · omega
    · exact ⟨i, h, e, hdid, hpay⟩
  · rintro h e l₁ x l₂ hsplit ⟨s, vault, ata, hdid⟩ y hy ⟨s', vault', ata', hdid'⟩
    have hxrun : x ∈ run := hsplit ▸ List.mem_append_right _ List.mem_cons_self
    have hyrun : y ∈ run := hsplit ▸ List.mem_append_right _ (List.mem_cons_of_mem _ hy)
    have hpaid := (claimDomainRewards_rewarded (effect_of_did hxrun hdid).2).2
    have hpre : y.pre.accounts.Rewarded h e :=
      stays_after (P := fun c : Chain State => c.accounts.Rewarded h e) (step_rewarded h e) hsplit
        hpaid hy
    exact (claimDomainRewards_rewarded (effect_of_did hyrun hdid').2).1 hpre
  · have hhashed : Hashed dep (exec (step dep) start is).accounts := by
      refine exec_accounts (P := Hashed dep) (fun _ _ _ _ _ hh hok => ?_) is ?_
      · exact (handle_effect (process_eq_ok.1 hok).2).hashed hh
      · intro h c hc
        cases hc
    exact hhashed

end Ddns.Rewards
