import Ddns.StakeGov.Program
import Ddns.Lib.Shares

/-!
# What each instruction of the stake governance program does

`Effect` relates the accounts before an instruction to the accounts after it, one constructor for
each instruction, with the checks that the laws about positions and tokens rest on.
`process_effect` shows that a transaction that succeeds has one of these effects.
-/

namespace Ddns.StakeGov

open Tx Runs

/-- A step of the program. -/
abbrev Step := Event (Chain State) (Action Instr) (Option (Result StakeGovError Nat))

section Accounts

variable {st : State} {s : Signer}

@[simp] theorem setPosition_position (k : Pubkey) (p : StakePosition) :
    (st.setPosition k p).position = Function.update st.position k (some p) := rfl

@[simp] theorem setPosition_config (k : Pubkey) (p : StakePosition) :
    (st.setPosition k p).config = st.config := rfl

@[simp] theorem setPosition_tokens (k : Pubkey) (p : StakePosition) :
    (st.setPosition k p).tokens = st.tokens := rfl

@[simp] theorem setSlashRecord_position (r : SlashRecord) :
    (st.setSlashRecord r).position = st.position := rfl

@[simp] theorem setSlashRecord_config (r : SlashRecord) :
    (st.setSlashRecord r).config = st.config := rfl

@[simp] theorem setSlashRecord_tokens (r : SlashRecord) :
    (st.setSlashRecord r).tokens = st.tokens := rfl

@[simp] theorem setSlashRecord_self (r : SlashRecord) :
    (st.setSlashRecord r).slashRecord r.epochId r.offender r.reasonHash = some r := by
  simp [State.setSlashRecord]

@[simp] theorem ownPosition_eq_ok {p : StakePosition} :
    ownPosition st s = .ok p ↔ st.position s.key = some p ∧ p.owner = s.key := by
  simp only [ownPosition, bind_eq_ok, load_eq_ok, require_eq_ok, exists_unit, pure_eq_ok]
  constructor
  · rintro ⟨q, hq, hown, rfl⟩
    exact ⟨hq, hown⟩
  · rintro ⟨hp, hown⟩
    exact ⟨p, hp, hown, rfl⟩

@[simp] theorem validateTokenAccountMintOwner_eq_ok {tokens : Tokens} {acct mint owner : Pubkey}
    {u : Unit} :
    validateTokenAccountMintOwner tokens acct mint owner = .ok u ↔
      ∃ a, tokens acct = some a ∧ a.mint = mint ∧ a.owner = owner := by
  simp [validateTokenAccountMintOwner]

theorem mulBps_eq_ok {amount bps n : Nat} :
    mulBps amount bps = .ok n ↔
      amount * bps < 2 ^ 128 ∧ Checked.cast 64 (amount * bps / bpsDenom) = n := by
  simp [mulBps]

/-- A slash of at most the whole takes at most the whole. -/
theorem mulBps_le {amount bps n : Nat} (h : mulBps amount bps = .ok n) (hbps : bps ≤ bpsDenom) :
    n ≤ amount := by
  obtain ⟨-, rfl⟩ := mulBps_eq_ok.1 h
  exact Nat.le_trans (Checked.cast_le 64 _) (Shares.share_le hbps)

/-- A slash leaves the lock alone, takes a part of it, or ends it. -/
theorem slashLocked_cases (p : StakePosition) (n : Nat) : slashLocked p n = p ∨
    (∃ left, 0 < left ∧ left ≤ p.lockedAmount ∧ slashLocked p n = { p with lockedAmount := left }) ∨
    slashLocked p n =
      { p with lockedAmount := 0, lockEndEpoch := 0, lockMultiplierBps := bpsDenom } := by
  unfold slashLocked
  dsimp only
  split
  · split
    · exact .inr (.inr rfl)
    · next hleft => exact .inr (.inl ⟨_, Nat.pos_of_ne_zero hleft, Nat.sub_le .., rfl⟩)
  · exact .inl rfl

/-- What is pending is left alone or shrunk; with the last of it, the exit ends. -/
theorem shrinkPending_cases (p : StakePosition) : shrinkPending p = p ∨
    ∃ left < p.pendingWithdrawAmount, shrinkPending p =
      { p with
        pendingWithdrawAmount := left
        exitRequestedEpoch := if left = 0 then 0 else p.exitRequestedEpoch } := by
  unfold shrinkPending
  dsimp only
  split
  · next hlt => exact .inr ⟨_, hlt, rfl⟩
  · exact .inl rfl

end Accounts

/-- The position that `init_stake_position` creates. -/
def StakePosition.fresh (owner : Pubkey) : StakePosition where
  owner := owner
  stakedAmount := 0
  lockedAmount := 0
  lockEndEpoch := 0
  lockMultiplierBps := bpsDenom
  exitRequestedEpoch := 0
  pendingWithdrawAmount := 0
  delegatedTo := Pubkey.default
  delegationSlashable := false
  lastSlashEpoch := 0

/-- What an instruction that succeeds leaves behind, and the amount it answers. -/
inductive Effect (dep : Deployment) (clock : Clock) (st : State) : Instr → State → Nat → Prop
  | registerVerifier {a v c vs} :
    Effect dep clock st (.registerVerifier a v c) { st with verifiers := vs } 0
  | setVerifierActive {a v b vs} :
    Effect dep clock st (.setVerifierActive a v b) { st with verifiers := vs } 0
  | initStakePosition {s} (hnew : st.position s.key = none) :
    Effect dep clock st (.initStakePosition s)
      (st.setPosition s.key (StakePosition.fresh s.key)) 0
  | stake {s vault ata n p tokens} (hn : 0 < n) (hp : st.position s.key = some p)
    (hvault : vault = st.config.vault)
    (hata : ∃ a, st.tokens ata = some a ∧ a.owner = s.key)
    (htransfer : (st.tokens.transfer ata vault s.key n : Result StakeGovError _) = .ok tokens)
    (hfit : p.stakedAmount + n < 2 ^ 64) :
    Effect dep clock st (.stake s vault ata n)
      ({ st with tokens }.setPosition s.key { p with stakedAmount := p.stakedAmount + n }) 0
  | lock {s n e p} (hn : 0 < n) (hp : st.position s.key = some p) (hle : n ≤ p.availableLiquid)
    (hbounds : st.config.minLockEpochs ≤ e ∧ e ≤ st.config.maxLockEpochs) :
    Effect dep clock st (.lock s n e) (st.setPosition s.key
      { p with
        lockedAmount := p.lockedAmount + n
        lockEndEpoch := max p.lockEndEpoch (currentEpoch st.config clock + e)
        lockMultiplierBps :=
          max p.lockMultiplierBps (chooseMultiplierBps st.config.lockTiers e) }) 0
  | unlockExpired {s p} (hp : st.position s.key = some p) (hend : p.lockEndEpoch ≠ 0)
    (hover : p.lockEndEpoch ≤ currentEpoch st.config clock) :
    Effect dep clock st (.unlockExpired s) (st.setPosition s.key
      { p with lockedAmount := 0, lockEndEpoch := 0, lockMultiplierBps := bpsDenom }) 0
  | unlockNone {s} : Effect dep clock st (.unlockExpired s) st 0
  | requestExit {s n p} (hn : 0 < n) (hp : st.position s.key = some p)
    (hle : n ≤ p.availableLiquid) :
    Effect dep clock st (.requestExit s n) (st.setPosition s.key
      { p with
        pendingWithdrawAmount := p.pendingWithdrawAmount + n
        exitRequestedEpoch := if p.exitRequestedEpoch = 0 then currentEpoch st.config clock
          else p.exitRequestedEpoch }) 0
  | finalizeWithdraw {s vault ata p tokens} (hp : st.position s.key = some p)
    (hexit : p.exitRequestedEpoch ≠ 0)
    (hcool : p.exitRequestedEpoch + st.config.exitCooldownEpochs ≤ currentEpoch st.config clock)
    (hvault : vault = st.config.vault)
    (hata : ∃ a, st.tokens ata = some a ∧ a.owner = s.key)
    (htransfer : (st.tokens.transfer vault ata dep.vaultAuthority p.pendingWithdrawAmount :
      Result StakeGovError _) = .ok tokens)
    (hle : p.pendingWithdrawAmount ≤ p.stakedAmount) :
    Effect dep clock st (.finalizeWithdraw s vault ata) ({ st with tokens }.setPosition s.key
      { p with
        stakedAmount := p.stakedAmount - p.pendingWithdrawAmount
        pendingWithdrawAmount := 0
        exitRequestedEpoch := 0 }) p.pendingWithdrawAmount
  | setDelegate {s d p delegatedTo} (hp : st.position s.key = some p) :
    Effect dep clock st (.setDelegate s d) (st.setPosition s.key { p with delegatedTo }) 0
  | setDelegationSlashable {s b p} (hp : st.position s.key = some p) :
    Effect dep clock st (.setDelegationSlashable s b)
      (st.setPosition s.key { p with delegationSlashable := b }) 0
  | submitSnapshot {s e root w snapshot} :
    Effect dep clock st (.submitSnapshot s e root w) { st with snapshot } 0
  | applySlash {s o e bps r ev p vs amount} (hnew : st.slashRecord e o r = none)
    (hp : st.position o = some p) (hbps : bps ≤ st.config.maxSlashBpsPerEvent)
    (hamount : mulBps p.stakedAmount bps = .ok amount)
    (hwindow : currentEpoch st.config clock ≤
      Checked.satAdd 64 e st.config.disputeWindowEpochs) :
    Effect dep clock st (.applySlash s o e bps r ev)
      (({ st with verifiers := vs }.setPosition o
        { slashStake p amount with lastSlashEpoch := currentEpoch st.config clock }).setSlashRecord
          ⟨e, o, bps, amount, r, ev, clock.slot, s.key⟩) 0
  | splTransfer {a src dst n tokens}
    (htransfer : (st.tokens.transfer src dst a.key n : Result StakeGovError _) = .ok tokens) :
    Effect dep clock st (.splTransfer a src dst n) { st with tokens } 0

variable {dep : Deployment} {clock : Clock} {st st' : State} {i : Instr} {n : Nat}

theorem execute_effect (h : execute dep clock st i = .ok (st', n)) :
    Effect dep clock st i st' n := by
  cases i with
  | registerVerifier a v c =>
    simp [execute, registerVerifier] at h
    obtain ⟨-, -, -, -, rfl, rfl⟩ := h
    exact .registerVerifier
  | setVerifierActive a v b =>
    simp [execute, setVerifierActive] at h
    obtain ⟨-, -, -, rfl, rfl⟩ := h
    exact .setVerifierActive
  | initStakePosition s =>
    simp [execute, initStakePosition] at h
    obtain ⟨hnew, rfl, rfl⟩ := h
    exact .initStakePosition hnew
  | stake s vault ata n =>
    simp [execute, stake] at h
    obtain ⟨hn, p, ⟨hp, -⟩, ⟨a, ha, -, hown⟩, -, hvault, tokens, ht, hfit, -, rfl, rfl⟩ := h
    exact .stake hn hp hvault ⟨a, ha, hown⟩ ht hfit
  | lock s n e =>
    simp [execute, lock] at h
    obtain ⟨hn, p, ⟨hp, -⟩, hbounds, hle, -, -, rfl, rfl⟩ := h
    exact .lock hn hp hle hbounds
  | unlockExpired s =>
    simp [execute, unlockExpired] at h
    obtain ⟨p, ⟨hp, -⟩, h, rfl⟩ := h
    split at h
    · next hc =>
      cases h
      exact .unlockExpired hp hc.1 hc.2
    · cases h
      exact .unlockNone
  | requestExit s n =>
    simp [execute, requestExit] at h
    obtain ⟨hn, p, ⟨hp, -⟩, hle, -, rfl, rfl⟩ := h
    exact .requestExit hn hp hle
  | finalizeWithdraw s vault ata =>
    simp [execute, finalizeWithdraw] at h
    obtain ⟨p, ⟨hp, -⟩, hexit, -, hcool, -, ⟨a, ha, -, hown⟩, -, hvault, tokens, ht, hle, rfl,
      rfl⟩ := h
    exact .finalizeWithdraw hp hexit hcool hvault ⟨a, ha, hown⟩ ht hle
  | setDelegate s d =>
    simp [execute, setDelegate] at h
    obtain ⟨p, ⟨hp, -⟩, h, rfl⟩ := h
    split at h
    · cases h
      exact .setDelegate hp
    · simp at h
      obtain ⟨-, -, -, -, rfl⟩ := h
      exact .setDelegate hp
  | setDelegationSlashable s b =>
    simp [execute, setDelegationSlashable] at h
    obtain ⟨p, ⟨hp, -⟩, rfl, rfl⟩ := h
    exact .setDelegationSlashable hp
  | submitSnapshot s e root w =>
    simp [execute, submitSnapshot] at h
    obtain ⟨-, -, rfl, rfl⟩ := h
    exact .submitSnapshot
  | applySlash s o e bps r ev =>
    simp [execute, applySlash] at h
    obtain ⟨hnew, p, hp, -, hbps, hwindow, -, amount, hamount, vs, -, rfl, rfl⟩ := h
    exact .applySlash hnew hp hbps hamount hwindow
  | splTransfer a src dst n =>
    simp [execute, splTransfer] at h
    obtain ⟨tokens, ht, rfl, rfl⟩ := h
    exact .splTransfer ht

/-- A transaction is signed by another key than the vault authority, and has its effect. -/
theorem process_effect (h : process dep clock st i = .ok (st', n)) :
    i.signer.key ≠ dep.vaultAuthority ∧ Effect dep clock st i st' n := by
  simp only [process, bind_eq_ok, demand_eq_ok, exists_unit] at h
  exact ⟨h.1, execute_effect h.2⟩

/-- No instruction changes the config. -/
theorem Effect.config_eq (h : Effect dep clock st i st' n) : st'.config = st.config := by
  cases h <;> rfl

end Ddns.StakeGov
