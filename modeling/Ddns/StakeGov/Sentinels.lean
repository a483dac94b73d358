import Ddns.StakeGov.Cooldown
import Ddns.StakeGov.Positions

/-!
# Zero epochs

`exitRequestedEpoch` and `lockEndEpoch` are zero where there is no exit and no lock. Zero is an epoch,
too: a request in epoch 0 and a lock that ends in epoch 0 look as if there were none, and nothing
releases them. `sentinels_iff` says that this happens only so.
-/

namespace Ddns.StakeGov

open Tx Runs

/-- What is pending has an exit and what is locked has a lock. -/
structure Dated (p : StakePosition) : Prop where
  exit : 0 < p.pendingWithdrawAmount → p.exitRequestedEpoch ≠ 0
  lock : 0 < p.lockedAmount → p.lockEndEpoch ≠ 0

/-- From some epoch on `finalize_withdraw` is not refused because of the epochs. -/
def Payable (dep : Deployment) (st : State) (s : Signer) : Prop :=
  ∃ e, ∀ clock vault ata, e ≤ currentEpoch st.config clock →
    ∀ err ∈ [StakeGovError.exitNotRequested, .exitCooldown, .mathOverflow],
      finalizeWithdraw dep clock st s vault ata ≠ .error (.custom err)

/-- From some epoch on `unlock_expired` releases what is locked. -/
def Unlockable (st : State) (s : Signer) : Prop :=
  ∃ e, ∀ clock, e ≤ currentEpoch st.config clock → ∃ st' p', unlockExpired clock st s = .ok st' ∧
    st'.position s.key = some p' ∧ p'.lockedAmount = 0

/-- **The law of the sentinels** in a state: exits and locks are dated, and released at some epoch. -/
def SentinelLaw (dep : Deployment) (st : State) : Prop :=
  ∀ (s : Signer) p, st.position s.key = some p → Dated p ∧
    (0 < p.pendingWithdrawAmount → Payable dep st s) ∧ (0 < p.lockedAmount → Unlockable st s)

/-- A first request that passes its checks is not made in epoch 0, and its cooldown ends; a first
lock that passes its checks does not end in epoch 0. -/
structure PastZero (dep : Deployment) (c : Chain State) (a : Action Instr) : Prop where
  request : ∀ s n p, a = .submit (.requestExit s n) → s.key ≠ dep.vaultAuthority →
    c.accounts.position s.key = some p → 0 < n → n ≤ p.availableLiquid →
    p.pendingWithdrawAmount = 0 → chainEpoch c ≠ 0 ∧
      chainEpoch c + c.accounts.config.exitCooldownEpochs < 2 ^ 64
  lock : ∀ s n e p, a = .submit (.lock s n e) → s.key ≠ dep.vaultAuthority →
    c.accounts.position s.key = some p → 0 < n → n ≤ p.availableLiquid →
    c.accounts.config.minLockEpochs ≤ e → e ≤ c.accounts.config.maxLockEpochs →
    p.lockEndEpoch = 0 → chainEpoch c + e ≠ 0

/-! ## Positions -/

section Positions

variable {dep : Deployment} {clock : Clock} {st st' : State} {i : Instr} {n : Nat} {k : Pubkey}
  {p : StakePosition}

/-- What holds of the position at `k` in every run. -/
structure Regular (k : Pubkey) (p : StakePosition) : Prop where
  owner : p.owner = k
  covered : p.Covered
  bounded : p.stakedAmount < 2 ^ 64
  pending : p.exitRequestedEpoch ≠ 0 → 0 < p.pendingWithdrawAmount

def State.Regular (st : State) : Prop :=
  ∀ k p, st.position k = some p → StakeGov.Regular k p

theorem slashStake_owner (p : StakePosition) (n : Nat) : (slashStake p n).owner = p.owner := by
  have hlocked : (slashLocked p n).owner = p.owner := by
    rcases slashLocked_cases p n with h | ⟨left, -, -, h⟩ | h <;> rw [h]
  have hshrink (q : StakePosition) : (shrinkPending q).owner = q.owner := by
    rcases shrinkPending_cases q with h | ⟨left, -, h⟩ <;> rw [h]
  unfold slashStake
  split
  · exact (hshrink _).trans hlocked
  · rfl

/-- A slash ends an exit only with the last of what is pending. -/
theorem slashStake_exit (h : p.exitRequestedEpoch ≠ 0 → 0 < p.pendingWithdrawAmount) (n : Nat) :
    (slashStake p n).exitRequestedEpoch ≠ 0 → 0 < (slashStake p n).pendingWithdrawAmount := by
  have hlocked : (slashLocked p n).exitRequestedEpoch = p.exitRequestedEpoch ∧
      (slashLocked p n).pendingWithdrawAmount = p.pendingWithdrawAmount := by
    rcases slashLocked_cases p n with h | ⟨left, -, -, h⟩ | h <;> rw [h] <;> exact ⟨rfl, rfl⟩
  have hshrink (q : StakePosition) (hq : q.exitRequestedEpoch ≠ 0 → 0 < q.pendingWithdrawAmount) :
      (shrinkPending q).exitRequestedEpoch ≠ 0 → 0 < (shrinkPending q).pendingWithdrawAmount := by
    rcases shrinkPending_cases q with h | ⟨left, -, h⟩ <;> rw [h]
    · exact hq
    · intro hexit
      by_contra hzero
      exact hexit (if_pos (Nat.eq_zero_of_not_pos hzero))
  unfold slashStake
  split
  · refine hshrink _ ?_
    rw [hlocked.1, hlocked.2]
    exact h
  · exact h

theorem regular_of_eq (h : st.Regular) (hpos : st'.position = st.position) : st'.Regular := by
  intro w q hq
  rw [hpos] at hq
  exact h w q hq

theorem State.Regular.update (h : st.Regular)
    (hpos : st'.position = Function.update st.position k (some p)) (hp : StakeGov.Regular k p) :
    st'.Regular := by
  intro w q hq
  rw [hpos] at hq
  exact Updates.forall_update h hp w q hq

theorem Effect.regular (he : Effect dep clock st i st' n) (h : st.Regular) : st'.Regular := by
  have hcovered : st'.Covered := he.covered fun k p hp => (h k p hp).covered
  cases he with
  | registerVerifier | setVerifierActive | submitSnapshot | splTransfer | unlockNone =>
    exact regular_of_eq h rfl
  | @initStakePosition s hnew =>
    refine h.update rfl ⟨rfl, Nat.le_refl 0, ?_, fun hexit => absurd rfl hexit⟩
    exact Nat.two_pow_pos 64
  | @stake s vault ata n p tokens hn hp hvault hata htransfer hfit =>
    refine h.update rfl ⟨(h _ _ hp).owner, ?_, hfit, (h _ _ hp).pending⟩
    exact hcovered s.key _ (Function.update_self ..)
  | @lock s n e p hn hp hle =>
    refine h.update rfl ⟨(h _ _ hp).owner, ?_, (h _ _ hp).bounded, (h _ _ hp).pending⟩
    exact hcovered s.key _ (Function.update_self ..)
  | @unlockExpired s p hp =>
    refine h.update rfl ⟨(h _ _ hp).owner, ?_, (h _ _ hp).bounded, (h _ _ hp).pending⟩
    exact hcovered s.key _ (Function.update_self ..)
  | @requestExit s n p hn hp hle =>
    refine h.update rfl ⟨(h _ _ hp).owner, ?_, (h _ _ hp).bounded, fun _ => ?_⟩
    · exact hcovered s.key _ (Function.update_self ..)
    · exact Nat.lt_of_lt_of_le hn (Nat.le_add_left ..)
  | @finalizeWithdraw s vault ata p tokens hp =>
    refine h.update rfl ⟨(h _ _ hp).owner, ?_, ?_, fun hexit => absurd rfl hexit⟩
    · exact hcovered s.key _ (Function.update_self ..)
    · exact Nat.lt_of_le_of_lt (Nat.sub_le ..) (h _ _ hp).bounded
  | setDelegate hp | setDelegationSlashable hp =>
    have hreg := h _ _ hp
    exact h.update rfl ⟨hreg.owner, hreg.covered, hreg.bounded, hreg.pending⟩
  | @applySlash s o e bps r ev p vs amount _ hp =>
    have hreg := h _ _ hp
    refine h.update rfl ⟨?_, ?_, ?_, slashStake_exit hreg.pending amount⟩
    · exact (slashStake_owner p amount).trans hreg.owner
    · exact hcovered o _ (Function.update_self ..)
    · show (slashStake p amount).stakedAmount < _
      rw [slashStake_staked]
      exact Nat.lt_of_le_of_lt (Nat.sub_le ..) hreg.bounded

theorem step_regular (c : Chain State) (a : Action Instr) (h : c.accounts.Regular) :
    (step dep c a).1.accounts.Regular :=
  accounts_invariant (fun _ _ _ _ _ h hok => (process_effect hok).2.regular h) c a h

/-! ## What a dated position allows -/

theorem ownPosition_of_regular {s : Signer} (h : Regular s.key p) (hp : st.position s.key = some p) :
    ownPosition st s = .ok p := ownPosition_eq_ok.2 ⟨hp, h.owner⟩

theorem transfer_ne_custom {tokens : Tokens} {src dst authority : Pubkey} {amount : Nat}
    {err : StakeGovError} : (tokens.transfer src dst authority amount : Result StakeGovError _) ≠
      .error (.custom err) := by
  intro h
  simp only [Tokens.transfer, bind_eq_error, load_eq_error, demand_eq_error, reduceCtorEq, and_false,
    false_or] at h
  obtain ⟨_, -, _, -, _, -, _, -, _, -, h⟩ := h
  split at h
  · exact pure_ne_error h
  · simp only [bind_eq_error, demand_eq_error, reduceCtorEq, and_false, false_or] at h
    obtain ⟨_, -, h⟩ := h
    exact pure_ne_error h

theorem validate_custom {tokens : Tokens} {acct mint owner : Pubkey} {err : StakeGovError}
    (h : validateTokenAccountMintOwner tokens acct mint owner = .error (.custom err)) :
    err = .invalidTokenMint ∨ err = .invalidTokenOwner := by
  obtain h | ⟨parsed, -, h⟩ := bind_eq_error.1 h
  · exact nomatch (load_eq_error.1 h).2
  obtain h | ⟨-, -, h⟩ := bind_eq_error.1 h
  · exact .inl (Failure.custom.inj (require_eq_error.1 h).2).symm
  · exact .inr (Failure.custom.inj (require_eq_error.1 h).2).symm

/-- A payout that is due is refused for its token accounts only. -/
theorem finalizeWithdraw_custom {s : Signer} {vault ata : Pubkey} {err : StakeGovError}
    (hreg : Regular s.key p) (hp : st.position s.key = some p)
    (hpending : 0 < p.pendingWithdrawAmount) (hexit : p.exitRequestedEpoch ≠ 0)
    (hfits : p.exitRequestedEpoch + st.config.exitCooldownEpochs < 2 ^ 64)
    (hdue : p.exitRequestedEpoch + st.config.exitCooldownEpochs ≤ currentEpoch st.config clock)
    (h : finalizeWithdraw dep clock st s vault ata = .error (.custom err)) :
    err = .invalidTokenMint ∨ err = .invalidTokenOwner ∨ err = .invalidVault := by
  have htokens : err = .invalidTokenMint ∨ err = .invalidTokenOwner →
      err = .invalidTokenMint ∨ err = .invalidTokenOwner ∨ err = .invalidVault :=
    Or.imp_right Or.inl
  have hown := ownPosition_of_regular hreg hp
  obtain h | ⟨q, hq, h⟩ := bind_eq_error.1 h
  · rw [hown] at h
    cases h
  obtain rfl := Except.ok.inj (hown.symm.trans hq)
  obtain h | ⟨-, -, h⟩ := bind_eq_error.1 h
  · exact absurd hexit (require_eq_error.1 h).1
  obtain h | ⟨unlockEpoch, hunlock, h⟩ := bind_eq_error.1 h
  · rw [okOr_eq_error, Checked.add, if_pos hfits] at h
    cases h.1
  obtain ⟨-, rfl⟩ := Checked.add_eq_some.1 (okOr_eq_ok.1 hunlock)
  obtain h | ⟨-, -, h⟩ := bind_eq_error.1 h
  · exact absurd hdue (require_eq_error.1 h).1
  obtain h | ⟨-, -, h⟩ := bind_eq_error.1 h
  · exact absurd hpending (require_eq_error.1 h).1
  obtain h | ⟨-, -, h⟩ := bind_eq_error.1 h
  · exact htokens (validate_custom h)
  obtain h | ⟨-, -, h⟩ := bind_eq_error.1 h
  · exact htokens (validate_custom h)
  obtain h | ⟨-, -, h⟩ := bind_eq_error.1 h
  · exact .inr (.inr (Failure.custom.inj (require_eq_error.1 h).2).symm)
  obtain h | ⟨tokens, -, h⟩ := bind_eq_error.1 h
  · exact absurd h transfer_ne_custom
  obtain h | ⟨staked, -, h⟩ := bind_eq_error.1 h
  · rw [okOr_eq_error, sub_of_le hreg.covered.pending_le] at h
    cases h.1
  · exact absurd h pure_ne_error

/-- The epochs of a clock are as late as one likes. -/
theorem exists_clock (config : StakeGovConfig) (e : Nat) :
    ∃ clock : Clock, currentEpoch config clock = e :=
  ⟨⟨e * config.epochLenSlots, 0⟩, Nat.mul_div_cancel _ config.epochLen_pos⟩

theorem payable_iff {s : Signer} (hreg : Regular s.key p) (hp : st.position s.key = some p)
    (hpending : 0 < p.pendingWithdrawAmount) : Payable dep st s ↔ p.exitRequestedEpoch ≠ 0 ∧
      p.exitRequestedEpoch + st.config.exitCooldownEpochs < 2 ^ 64 := by
  constructor
  · rintro ⟨e, h⟩
    obtain ⟨clock, hclock⟩ := exists_clock st.config e
    have hrefused := h clock 0 0 (Nat.le_of_eq hclock.symm)
    have hown := ownPosition_of_regular hreg hp
    have hexit : p.exitRequestedEpoch ≠ 0 := by
      intro hzero
      refine hrefused .exitNotRequested (by simp) ?_
      refine bind_eq_error.2 (.inr ⟨p, hown, bind_eq_error.2 (.inl ?_)⟩)
      exact require_eq_error.2 ⟨fun hne => hne hzero, rfl⟩
    refine ⟨hexit, ?_⟩
    by_contra hover
    refine hrefused .mathOverflow (by simp) ?_
    refine bind_eq_error.2 (.inr ⟨p, hown, bind_eq_error.2 (.inr ⟨(), require_eq_ok.2 hexit, ?_⟩)⟩)
    refine bind_eq_error.2 (.inl ?_)
    exact okOr_eq_error.2 ⟨if_neg hover, rfl⟩
  · rintro ⟨hexit, hfits⟩
    refine ⟨p.exitRequestedEpoch + st.config.exitCooldownEpochs, ?_⟩
    intro clock vault ata hdue err herr h
    rcases finalizeWithdraw_custom hreg hp hpending hexit hfits hdue h with rfl | rfl | rfl <;>
      simp at herr

theorem unlockable_iff {s : Signer} (hreg : Regular s.key p) (hp : st.position s.key = some p)
    (hlocked : 0 < p.lockedAmount) : Unlockable st s ↔ p.lockEndEpoch ≠ 0 := by
  have hown := ownPosition_of_regular hreg hp
  constructor
  · rintro ⟨e, h⟩ hzero
    obtain ⟨clock, hclock⟩ := exists_clock st.config e
    obtain ⟨st', p', hok, hp', hnone⟩ := h clock (Nat.le_of_eq hclock.symm)
    have hsame : unlockExpired clock st s = .ok st := by
      rw [unlockExpired, hown]
      exact if_neg fun hend => hend.1 hzero
    rw [hsame] at hok
    obtain rfl := Except.ok.inj hok
    rw [hp] at hp'
    obtain rfl := Option.some.inj hp'
    omega
  · intro hend
    let unlocked : StakePosition :=
      { p with lockedAmount := 0, lockEndEpoch := 0, lockMultiplierBps := bpsDenom }
    refine ⟨p.lockEndEpoch, fun clock hover => ⟨st.setPosition s.key unlocked, unlocked, ?_⟩⟩
    refine ⟨?_, Function.update_self .., rfl⟩
    rw [unlockExpired, hown]
    exact if_pos ⟨hend, hover⟩

end Positions

/-! ## Steps -/

section Steps

variable {dep : Deployment} {clock : Clock} {st st' : State} {i : Instr} {n : Nat} {c : Chain State}
  {a : Action Instr}

/-- The exit of a position ends its cooldown, and its lock ends. -/
structure Ends (cooldown : Nat) (p : StakePosition) : Prop where
  exit : 0 < p.pendingWithdrawAmount →
    p.exitRequestedEpoch ≠ 0 ∧ p.exitRequestedEpoch + cooldown < 2 ^ 64
  lock : 0 < p.lockedAmount → p.lockEndEpoch ≠ 0

/-- The exits and the locks of all stakers end. -/
def State.Ends (st : State) : Prop :=
  ∀ (s : Signer) p, st.position s.key = some p → StakeGov.Ends st.config.exitCooldownEpochs p

theorem sentinelLaw_iff (hreg : st.Regular) : SentinelLaw dep st ↔ st.Ends := by
  constructor
  · intro h s p hp
    obtain ⟨hdated, hpay, hunlock⟩ := h s p hp
    exact ⟨fun hpending => (payable_iff (hreg _ _ hp) hp hpending).1 (hpay hpending), hdated.lock⟩
  · intro h s p hp
    have hends := h s p hp
    refine ⟨⟨fun hpending => (hends.exit hpending).1, hends.lock⟩, fun hpending => ?_,
      fun hlocked => ?_⟩
    · exact (payable_iff (hreg _ _ hp) hp hpending).2 (hends.exit hpending)
    · exact (unlockable_iff (hreg _ _ hp) hp hlocked).2 (hends.lock hlocked)

/-- A position that keeps its exit or loses it, and its lock or loses it, ends as before. -/
theorem Ends.of_le {cooldown : Nat} {p p' : StakePosition} (h : Ends cooldown p)
    (hexit : 0 < p'.pendingWithdrawAmount →
      0 < p.pendingWithdrawAmount ∧ p'.exitRequestedEpoch = p.exitRequestedEpoch)
    (hlock : 0 < p'.lockedAmount → 0 < p.lockedAmount ∧ p'.lockEndEpoch = p.lockEndEpoch) :
    Ends cooldown p' := by
  refine ⟨fun hpending => ?_, fun hlocked => ?_⟩
  · obtain ⟨hbefore, hsame⟩ := hexit hpending
    rw [hsame]
    exact h.exit hbefore
  · obtain ⟨hbefore, hsame⟩ := hlock hlocked
    rw [hsame]
    exact h.lock hbefore

theorem slashStake_ends {cooldown : Nat} {p : StakePosition} (h : Ends cooldown p) (n : Nat) :
    Ends cooldown (slashStake p n) := by
  have hlocked : Ends cooldown (slashLocked p n) := by
    rcases slashLocked_cases p n with hq | ⟨left, -, hle, hq⟩ | hq <;> rw [hq]
    · exact h
    · exact h.of_le (fun hpending => ⟨hpending, rfl⟩) fun hleft =>
        ⟨Nat.lt_of_lt_of_le hleft hle, rfl⟩
    · exact h.of_le (fun hpending => ⟨hpending, rfl⟩) fun hnone => absurd hnone (Nat.lt_irrefl 0)
  have hshrink {q : StakePosition} (hends : Ends cooldown q) : Ends cooldown (shrinkPending q) := by
    rcases shrinkPending_cases q with hq | ⟨left, hlt, hq⟩ <;> rw [hq]
    · exact hends
    · refine hends.of_le (fun hleft => ⟨Nat.lt_trans hleft hlt, ?_⟩) fun hlock => ⟨hlock, rfl⟩
      exact if_neg (Nat.ne_of_gt hleft)
  unfold slashStake
  split
  · exact hshrink (hlocked.of_le (fun hpending => ⟨hpending, rfl⟩) fun hlock => ⟨hlock, rfl⟩)
  · exact h

theorem State.Ends.update (h : st.Ends) {k : Pubkey} {p : StakePosition}
    (hconf : st'.config = st.config)
    (hpos : st'.position = Function.update st.position k (some p))
    (hp : ∀ s : Signer, s.key = k → StakeGov.Ends st.config.exitCooldownEpochs p) : st'.Ends := by
  intro s q hq
  rw [hpos] at hq
  rw [hconf]
  rcases Updates.update_eq_some hq with ⟨hkey, rfl⟩ | ⟨-, hold⟩
  · exact hp s hkey
  · exact h s q hold

theorem ends_of_eq (h : st.Ends) (hconf : st'.config = st.config)
    (hpos : st'.position = st.position) : st'.Ends := by
  intro s q hq
  rw [hpos] at hq
  rw [hconf]
  exact h s q hq

theorem process_requestExit {s : Signer} {p : StakePosition} (hsigner : s.key ≠ dep.vaultAuthority)
    (hreg : Regular s.key p) (hp : st.position s.key = some p) (hn : 0 < n)
    (hle : n ≤ p.availableLiquid) : process dep clock st (.requestExit s n) =
      .ok (st.setPosition s.key { p with
        pendingWithdrawAmount := p.pendingWithdrawAmount + n
        exitRequestedEpoch := if p.exitRequestedEpoch = 0 then currentEpoch st.config clock
          else p.exitRequestedEpoch }, 0) := by
  have hfit : p.pendingWithdrawAmount + n < 2 ^ 64 := by
    have hcov := hreg.covered
    have hbound := hreg.bounded
    unfold StakePosition.Covered at hcov
    unfold StakePosition.availableLiquid at hle
    omega
  simp only [process, bind_eq_ok, demand_eq_ok, exists_unit, execute, map_eq_ok, requestExit,
    require_eq_ok, okOr_eq_ok, ownPosition_eq_ok, Checked.add_eq_some, pure_eq_ok]
  exact ⟨hsigner, _, ⟨hn, p, ⟨hp, hreg.owner⟩, hle, _, ⟨hfit, rfl⟩, rfl⟩, rfl⟩

theorem process_lock {s : Signer} {e : Nat} {p : StakePosition}
    (hsigner : s.key ≠ dep.vaultAuthority) (hreg : Regular s.key p)
    (hp : st.position s.key = some p) (hn : 0 < n) (hle : n ≤ p.availableLiquid)
    (hmin : st.config.minLockEpochs ≤ e) (hmax : e ≤ st.config.maxLockEpochs)
    (hend : currentEpoch st.config clock + e < 2 ^ 64) : process dep clock st (.lock s n e) =
      .ok (st.setPosition s.key { p with
        lockedAmount := p.lockedAmount + n
        lockEndEpoch := max p.lockEndEpoch (currentEpoch st.config clock + e)
        lockMultiplierBps :=
          max p.lockMultiplierBps (chooseMultiplierBps st.config.lockTiers e) }, 0) := by
  have hfit : p.lockedAmount + n < 2 ^ 64 := by
    have hcov := hreg.covered
    have hbound := hreg.bounded
    unfold StakePosition.Covered at hcov
    unfold StakePosition.availableLiquid at hle
    omega
  simp only [process, bind_eq_ok, demand_eq_ok, exists_unit, execute, map_eq_ok, lock,
    require_eq_ok, okOr_eq_ok, ownPosition_eq_ok, Checked.add_eq_some, pure_eq_ok]
  exact ⟨hsigner, _, ⟨hn, p, ⟨hp, hreg.owner⟩, ⟨hmin, hmax⟩, hle, _, ⟨hfit, rfl⟩, _, ⟨hend, rfl⟩,
    rfl⟩, rfl⟩

/-- A transaction that meets the condition keeps the ends. -/
theorem Effect.ends (he : Effect dep c.clock c.accounts i st' n)
    (hsigner : i.signer.key ≠ dep.vaultAuthority) (hreg : c.accounts.Regular)
    (h : c.accounts.Ends) (hpast : PastZero dep c (.submit i)) : st'.Ends := by
  cases he with
  | registerVerifier | setVerifierActive | submitSnapshot | splTransfer | unlockNone =>
    exact ends_of_eq h rfl rfl
  | initStakePosition =>
    exact h.update rfl rfl fun _ _ => ⟨fun hzero => absurd hzero (Nat.lt_irrefl 0),
      fun hzero => absurd hzero (Nat.lt_irrefl 0)⟩
  | stake _ hp | setDelegate hp | setDelegationSlashable hp =>
    have hends := h _ _ hp
    exact h.update rfl rfl fun _ _ => ⟨hends.exit, hends.lock⟩
  | @lock s n e p hn hp hle hbounds =>
    refine h.update rfl rfl fun _ _ => ⟨(h _ _ hp).exit, fun _ => ?_⟩
    by_cases hzero : p.lockEndEpoch = 0
    · have hend := hpast.lock s n e p rfl hsigner hp hn hle hbounds.1 hbounds.2 hzero
      show max p.lockEndEpoch (chainEpoch c + e) ≠ 0
      omega
    · show max p.lockEndEpoch (chainEpoch c + e) ≠ 0
      omega
  | unlockExpired hp =>
    exact h.update rfl rfl fun _ _ => ⟨(h _ _ hp).exit, fun hzero => absurd hzero (Nat.lt_irrefl 0)⟩
  | @requestExit s n p hn hp hle =>
    refine h.update rfl rfl fun _ _ => ⟨fun _ => ?_, (h _ _ hp).lock⟩
    by_cases hzero : p.pendingWithdrawAmount = 0
    · have hexit : p.exitRequestedEpoch = 0 := by
        by_contra hne
        exact absurd ((hreg _ _ hp).pending hne) (by omega)
      dsimp only
      rw [if_pos hexit]
      exact hpast.request s n p rfl hsigner hp hn hle hzero
    · have hends := (h _ _ hp).exit (Nat.pos_of_ne_zero hzero)
      dsimp only
      rw [if_neg hends.1]
      exact hends
  | finalizeWithdraw hp =>
    exact h.update rfl rfl fun _ _ => ⟨fun hzero => absurd hzero (Nat.lt_irrefl 0), (h _ _ hp).lock⟩
  | @applySlash s o e bps r ev p vs amount _ hp =>
    refine h.update rfl rfl ?_
    rintro s' rfl
    have hends := slashStake_ends (h s' p hp) amount
    exact ⟨hends.exit, hends.lock⟩

/-- A step keeps the ends exactly if it meets the condition. -/
theorem step_ends_iff (hreg : c.accounts.Regular) (h : c.accounts.Ends) :
    (step dep c a).1.accounts.Ends ↔ PastZero dep c a := by
  constructor
  · intro hends
    constructor
    · rintro s n p rfl hsigner hp hn hle hzero
      have hexit : p.exitRequestedEpoch = 0 := by
        by_contra hne
        exact absurd ((hreg _ _ hp).pending hne) (by omega)
      rw [step, chainStep_ok (process_requestExit hsigner (hreg _ _ hp) hp hn hle)] at hends
      have hdue := (hends s _ (Function.update_self ..)).exit (Nat.lt_of_lt_of_le hn (Nat.le_add_left ..))
      dsimp only at hdue
      rw [if_pos hexit] at hdue
      exact hdue
    · rintro s n e p rfl hsigner hp hn hle hmin hmax hzero hend
      have hfit : currentEpoch c.accounts.config c.clock + e < 2 ^ 64 := by
        show chainEpoch c + e < 2 ^ 64
        omega
      rw [step, chainStep_ok (process_lock hsigner (hreg _ _ hp) hp hn hle hmin hmax hfit)] at hends
      refine (hends s _ (Function.update_self ..)).lock (Nat.lt_of_lt_of_le hn (Nat.le_add_left ..)) ?_
      show max p.lockEndEpoch (chainEpoch c + e) = 0
      omega
  · intro hpast
    rcases chainStep_cases (process dep) c a with
      ⟨k, ts, rfl, hs⟩ | ⟨i, st', n, rfl, hok, hs⟩ | ⟨i, e, rfl, -, hs⟩
    · rw [step, hs]
      exact ends_of_eq h rfl rfl
    · rw [step, hs]
      obtain ⟨hsigner, he⟩ := process_effect hok
      exact he.ends hsigner hreg h hpast
    · rw [step, hs]
      exact h

end Steps

/-- **Zero epochs.** In every run the exits and the locks are dated and released at some epoch,
exactly if no step dates one with zero, or with a cooldown that never ends. -/
theorem sentinels_iff (dep : Deployment) (config : StakeGovConfig) (tokens : Tokens) (clock : Clock)
    (is : List (Action Instr)) :
    Always (step dep) (fun c => SentinelLaw dep c.accounts)
      ⟨clock, State.genesis config tokens⟩ is ↔
      Each (step dep) (PastZero dep) ⟨clock, State.genesis config tokens⟩ is := by
  refine always_iff_each (J := fun c => c.accounts.Regular)
    (fun c a hreg _ _ => step_regular c a hreg) (fun c a hreg h => ?_) nofun nofun is
  rw [sentinelLaw_iff (step_regular c a hreg)]
  exact step_ends_iff hreg ((sentinelLaw_iff hreg).1 h)

/-! ## A request in epoch 0 -/

/-- One token is requested in epoch 0. -/
def zeroRun : List (Action Instr) :=
  [.submit (.initStakePosition exampleStaker), .submit (.stake exampleStaker 8 11 100),
    .submit (.requestExit exampleStaker 1)]

/-- The token is pending, and nothing was requested. -/
theorem zeroRun_not_sentinels : ¬Always (step exampleDeployment)
    (fun c => SentinelLaw exampleDeployment c.accounts) exampleGenesis zeroRun := by
  intro h
  obtain ⟨hdated, -⟩ := h.exec exampleStaker
    { StakePosition.fresh 1 with stakedAmount := 100, pendingWithdrawAmount := 1 } rfl
  exact hdated.exit (by decide) rfl

end Ddns.StakeGov
