import Ddns.Lib.Balances
import Ddns.StakeGov.Positions

/-!
# The vault

All stakes lie in one token account, the vault. What it holds is the sum of the stakes of all
positions, what slashes have cut off so far (it stays in the vault), and what was sent to it from
outside the program. So the stakes are always backed, a withdrawal finds its funds, and what it pays
is taken from the stake of its own position.
-/

namespace Ddns.StakeGov

open Tx Runs Totals

/-- The sum of `staked_amount` over all positions. -/
noncomputable def State.totalStaked (st : State) : Nat :=
  total StakePosition.stakedAmount st.position

/-- What the vault holds. -/
def State.vaultAmount (st : State) : Nat := st.tokens.amount st.config.vault

/-- The amount that an instruction slashes, as its slash record says. -/
def Instr.slashed (st' : State) : Instr → Nat
  | .applySlash _ offender epochId _ reasonHash _ =>
    weight SlashRecord.amountSlashed (st'.slashRecord epochId offender reasonHash)
  | _ => 0

/-- The amount that an instruction sends to `vault` from outside the program. -/
def Instr.sent (vault : Pubkey) : Instr → Nat
  | .splTransfer _ _ dst amount => if dst = vault then amount else 0
  | _ => 0

/-- The amount that a step slashes. -/
def slashedAt (e : Step) : Nat :=
  match e.input, e.out with
  | .submit i, some (.ok _) => i.slashed e.post.accounts
  | _, _ => 0

/-- The amount that a step sends to the vault from outside the program. -/
def sentAt (e : Step) : Nat :=
  match e.input, e.out with
  | .submit i, some (.ok _) => i.sent e.pre.accounts.config.vault
  | _, _ => 0

/-- Everything slashed in a run. -/
def slashed (l : List Step) : Nat := (l.map slashedAt).sum

/-- Everything sent to the vault from outside in a run. -/
def sent (l : List Step) : Nat := (l.map sentAt).sum

/-- The accounts after `init_config`, which creates the vault: an empty account of the stake mint
that belongs to the vault authority. -/
def State.initial (dep : Deployment) (config : StakeGovConfig) (tokens : Tokens) : State :=
  State.genesis config
    (Function.update tokens config.vault (some ⟨config.stakeMint, dep.vaultAuthority, 0⟩))

/-- The vault authority owns the vault. -/
def Held (dep : Deployment) (st : State) : Prop :=
  (st.tokens st.config.vault).map TokenAccount.owner = some dep.vaultAuthority

section Transfers

variable {dep : Deployment} {st : State} {tokens : Tokens} {src dst authority : Pubkey} {n : Nat}

/-- Only the vault authority takes tokens out of the vault. -/
theorem Held.ne_of_owner (h : Held dep st) {a : Pubkey} {acc : TokenAccount}
    (hacc : st.tokens a = some acc) (hown : acc.owner ≠ dep.vaultAuthority) :
    a ≠ st.config.vault := by
  rintro rfl
  unfold Held at h
  rw [hacc, Option.map_some, Option.some.injEq] at h
  exact hown h

theorem Held.of_transfer (h : Held dep st)
    (ht : (st.tokens.transfer src dst authority n : Result StakeGovError _) = .ok tokens) :
    Held dep { st with tokens } := by
  have hframe := Tokens.transfer_frame ht st.config.vault
  unfold Held at *
  have howner := congrArg (Option.map Prod.snd) hframe
  simp only [Option.map_map] at howner
  exact howner.trans h

/-- A transfer that another key signs leaves the vault what it has, or adds to it. -/
theorem Held.transfer_in (h : Held dep st) (hauth : authority ≠ dep.vaultAuthority)
    (ht : (st.tokens.transfer src dst authority n : Result StakeGovError _) = .ok tokens) :
    tokens.amount st.config.vault =
      st.vaultAmount + if dst = st.config.vault then n else 0 := by
  obtain ⟨s, d, hs, -, -, -, howner, -⟩ := Tokens.transfer_eq_ok.1 ht
  have hsrc : st.config.vault ≠ src := (h.ne_of_owner hs (howner ▸ hauth)).symm
  have hamount := Tokens.transfer_amount ht st.config.vault
  rw [if_neg hsrc, Nat.add_zero] at hamount
  rw [hamount, State.vaultAmount]
  simp only [eq_comm]

/-- A transfer to an account of another owner takes its amount out of the vault. -/
theorem Held.transfer_out (h : Held dep st) {a : TokenAccount} (hdst : st.tokens dst = some a)
    (hown : a.owner ≠ dep.vaultAuthority)
    (ht : (st.tokens.transfer st.config.vault dst authority n : Result StakeGovError _) =
      .ok tokens) :
    tokens.amount st.config.vault + n = st.vaultAmount := by
  have hne : st.config.vault ≠ dst := (h.ne_of_owner hdst hown).symm
  have hamount := Tokens.transfer_amount ht st.config.vault
  rw [if_pos rfl, if_neg hne, Nat.add_zero] at hamount
  exact hamount

end Transfers

/-! ## The stakes of all positions -/

section Stakes

variable {st st' : State} {k : Pubkey} {p : StakePosition}

/-- Writing one position exchanges its stake in the sum. -/
theorem totalStaked_setPosition (st : State) (k : Pubkey) (p : StakePosition) :
    (st.setPosition k p).totalStaked + weight StakePosition.stakedAmount (st.position k) =
      st.totalStaked + p.stakedAmount :=
  total_update StakePosition.stakedAmount st.position k (some p)

theorem totalStaked_of_eq (hpos : st'.position = st.position) :
    st'.totalStaked = st.totalStaked := by
  unfold State.totalStaked
  rw [hpos]

theorem staked_le_total (hp : st.position k = some p) : p.stakedAmount ≤ st.totalStaked := by
  have hle := weight_le_total StakePosition.stakedAmount st.position k
  rw [hp] at hle
  exact hle

end Stakes

/-- The vault holds the stakes and `extra`. -/
structure Custody (dep : Deployment) (st : State) (extra : Nat) : Prop where
  held : Held dep st
  balance : st.vaultAmount = st.totalStaked + extra

section Steps

variable {dep : Deployment} {clock : Clock} {st st' : State} {i : Instr} {n extra : Nat}

/-- Where no tokens move, what leaves the sum of the stakes is extra. -/
theorem Custody.of_eq (h : Custody dep st extra) (hconf : st'.config = st.config)
    (htok : st'.tokens = st.tokens) {extra' : Nat}
    (hsum : st'.totalStaked + extra' = st.totalStaked + extra) : Custody dep st' extra' := by
  refine ⟨?_, ?_⟩
  · unfold Held
    rw [hconf, htok]
    exact h.held
  · rw [hsum, ← h.balance, State.vaultAmount, State.vaultAmount, hconf, htok]

/-- Writing a position with the same stake keeps the custody. -/
theorem Custody.setPosition (h : Custody dep st extra) {k : Pubkey} {p' : StakePosition}
    (hstake : weight StakePosition.stakedAmount (st.position k) = p'.stakedAmount) :
    Custody dep (st.setPosition k p') extra := by
  have hsum := totalStaked_setPosition st k p'
  apply h.of_eq
  · rfl
  · rfl
  · omega

/-- A slash counts what its record says. -/
theorem slashed_setSlashRecord {s : Signer} {o : Pubkey} {e bps amount slot : Nat} {r ev : Hash} :
    Instr.slashed (st.setSlashRecord ⟨e, o, bps, amount, r, ev, slot, s.key⟩)
      (.applySlash s o e bps r ev) = amount := by
  have hrec := @setSlashRecord_self st ⟨e, o, bps, amount, r, ev, slot, s.key⟩
  unfold Instr.slashed
  exact congrArg (weight SlashRecord.amountSlashed) hrec

/-- **Step lemma**: an instruction adds to what the vault holds beyond the stakes exactly what it
slashes and what it sends from outside. -/
theorem Effect.custody (he : Effect dep clock st i st' n)
    (hsig : i.signer.key ≠ dep.vaultAuthority) (h : Custody dep st extra) :
    Custody dep st' (extra + i.slashed st' + i.sent st.config.vault) := by
  cases he with
  | registerVerifier | setVerifierActive | submitSnapshot | unlockNone =>
    apply h.of_eq <;> rfl
  | initStakePosition hnew =>
    refine h.setPosition ?_
    rw [hnew]
    rfl
  | lock _ hp | unlockExpired hp | requestExit _ hp | setDelegate hp | setDelegationSlashable hp =>
    refine h.setPosition ?_
    rw [hp]
    rfl
  | @stake s vault ata m p tokens hm hp hvault hata ht hfit =>
    subst hvault
    have hin := h.held.transfer_in hsig ht
    rw [if_pos rfl] at hin
    refine ⟨h.held.of_transfer ht, ?_⟩
    have hsum := totalStaked_setPosition { st with tokens } s.key
      { p with stakedAmount := p.stakedAmount + m }
    rw [hp, weight_some] at hsum
    have hbal := h.balance
    have hsame : ({ st with tokens } : State).totalStaked = st.totalStaked := totalStaked_of_eq rfl
    show tokens.amount st.config.vault = _ + (extra + 0 + 0)
    dsimp only at hsum
    omega
  | @finalizeWithdraw s vault ata p tokens hp _ _ hvault hata ht hle =>
    subst hvault
    obtain ⟨a, ha, hown⟩ := hata
    have hout := h.held.transfer_out ha (hown ▸ hsig) ht
    refine ⟨h.held.of_transfer ht, ?_⟩
    have hsum := totalStaked_setPosition { st with tokens } s.key
      { p with
        stakedAmount := p.stakedAmount - p.pendingWithdrawAmount
        pendingWithdrawAmount := 0
        exitRequestedEpoch := 0 }
    rw [hp, weight_some] at hsum
    have hbal := h.balance
    have hsame : ({ st with tokens } : State).totalStaked = st.totalStaked := totalStaked_of_eq rfl
    show tokens.amount st.config.vault = _ + (extra + 0 + 0)
    dsimp only at hsum
    omega
  | @applySlash s o e bps r ev p vs amount _ hp hbps hamount =>
    have hle : amount ≤ p.stakedAmount :=
      mulBps_le hamount (Nat.le_trans hbps st.config.slash_le)
    have hsum := totalStaked_setPosition { st with verifiers := vs } o
      { slashStake p amount with lastSlashEpoch := currentEpoch st.config clock }
    rw [hp, weight_some] at hsum
    have hslash := slashStake_staked p amount
    have hsame : ({ st with verifiers := vs } : State).totalStaked = st.totalStaked :=
      totalStaked_of_eq rfl
    apply h.of_eq
    · rfl
    · rfl
    · rw [totalStaked_of_eq (setSlashRecord_position _), slashed_setSlashRecord]
      show _ + (extra + amount + 0) = _
      dsimp only at hsum ⊢
      omega
  | @splTransfer a src dst m tokens ht =>
    refine ⟨h.held.of_transfer ht, ?_⟩
    have hin := h.held.transfer_in hsig ht
    have hbal := h.balance
    have hsame : ({ st with tokens } : State).totalStaked = st.totalStaked := totalStaked_of_eq rfl
    show tokens.amount st.config.vault = _ + (extra + 0 + if dst = st.config.vault then m else 0)
    omega

/-- A payout comes out of the stake of its own position; the others keep theirs. -/
theorem Effect.payout {s : Signer} {vault ata : Pubkey}
    (he : Effect dep clock st (.finalizeWithdraw s vault ata) st' n)
    (hsig : s.key ≠ dep.vaultAuthority) (h : Held dep st) :
    st'.vaultAmount + n = st.vaultAmount ∧
      weight StakePosition.stakedAmount (st'.position s.key) + n =
        weight StakePosition.stakedAmount (st.position s.key) ∧
      ∀ k, k ≠ s.key → st'.position k = st.position k := by
  cases he with
  | @finalizeWithdraw _ _ _ p tokens hp _ _ hvault hata ht hle =>
    subst hvault
    obtain ⟨a, ha, hown⟩ := hata
    refine ⟨h.transfer_out ha (hown ▸ hsig) ht, ?_, ?_⟩
    · rw [setPosition_position, Function.update_self, hp, weight_some, weight_some]
      exact Nat.sub_add_cancel hle
    · intro k hk
      exact Function.update_of_ne hk _ _

/-- The funds of a withdrawal are there. -/
theorem finalizeWithdraw_funded (hcov : st.Covered) (h : Custody dep st extra) (s : Signer)
    (vault ata : Pubkey) :
    process dep clock st (.finalizeWithdraw s vault ata) ≠ .error .insufficientFunds := by
  intro herr
  simp only [process, execute, finalizeWithdraw, ownPosition, validateTokenAccountMintOwner,
    bind_eq_error, demand_eq_error, demand_eq_ok, require_eq_error, require_eq_ok, load_eq_error,
    okOr_eq_error, okOr_eq_ok, pure_ne_error, reduceCtorEq, and_false, or_false, false_or,
    exists_false, exists_unit] at herr
  obtain ⟨-, p, hp, -, -, -, -, -, -, -, rfl, ht⟩ := herr
  have hlt := Tokens.transfer_insufficient ht
  obtain ⟨hp, -⟩ := ownPosition_eq_ok.1 hp
  have hpend := (hcov _ _ hp).pending_le
  have hstake := staked_le_total hp
  have hbal := h.balance
  unfold State.vaultAmount at hbal
  omega

end Steps

/-! ## Every run -/

section Runs

variable {dep : Deployment} {config : StakeGovConfig} {tokens : Tokens} {clock : Clock}

theorem slashed_append (l : List Step) (e : Step) : slashed (l ++ [e]) = slashed l + slashedAt e := by
  simp [slashed]

theorem sent_append (l : List Step) (e : Step) : sent (l ++ [e]) = sent l + sentAt e := by
  simp [sent]

/-- What a run keeps: the config, covered positions, and a vault that holds the stakes, the slashes
and what was sent to it. -/
structure Solvent (dep : Deployment) (config : StakeGovConfig) (c : Chain State) (l : List Step) :
    Prop where
  config_eq : c.accounts.config = config
  covered : c.accounts.Covered
  custody : Custody dep c.accounts (slashed l + sent l)

/-- A step that changes no accounts and moves no tokens. -/
theorem Solvent.frame {c : Chain State} {l : List Step} (h : Solvent dep config c l) {c' : Chain State}
    (hacc : c'.accounts = c.accounts) {e : Step} (hslash : slashedAt e = 0) (hsent : sentAt e = 0) :
    Solvent dep config c' (l ++ [e]) := by
  refine ⟨?_, ?_, ?_⟩
  · rw [hacc]
    exact h.config_eq
  · rw [hacc]
    exact h.covered
  · rw [hacc, slashed_append, sent_append, hslash, hsent]
    exact h.custody

/-- Every step of the chain keeps the vault solvent. -/
theorem Solvent.step {c : Chain State} {l : List Step} (h : Solvent dep config c l)
    (a : Action Instr) : Solvent dep config (step dep c a).1 (l ++ [event (step dep) c a]) := by
  rcases chainStep_cases (process dep) c a with
    ⟨k, ts, rfl, hs⟩ | ⟨i, st', n, rfl, hok, hs⟩ | ⟨i, e, rfl, -, hs⟩
  · unfold event
    rw [StakeGov.step, hs]
    apply h.frame <;> rfl
  · obtain ⟨hsig, heff⟩ := process_effect hok
    have hcust := heff.custody hsig h.custody
    unfold event
    rw [StakeGov.step, hs]
    refine ⟨heff.config_eq.trans h.config_eq, heff.covered h.covered, ?_⟩
    rw [slashed_append, sent_append]
    have hextra : slashed l + sent l + i.slashed st' + i.sent c.accounts.config.vault =
        slashed l + i.slashed st' + (sent l + i.sent c.accounts.config.vault) := by omega
    rw [hextra] at hcust
    exact hcust
  · unfold event
    rw [StakeGov.step, hs]
    apply h.frame <;> rfl

theorem initial_solvent (dep : Deployment) (config : StakeGovConfig) (tokens : Tokens)
    (clock : Clock) : Solvent dep config ⟨clock, State.initial dep config tokens⟩ [] := by
  have hvault : (State.initial dep config tokens).tokens config.vault =
      some ⟨config.stakeMint, dep.vaultAuthority, 0⟩ := Function.update_self ..
  refine ⟨rfl, ?_, ?_, ?_⟩
  · intro k p hp
    cases hp
  · exact congrArg (Option.map TokenAccount.owner) hvault
  · have hsum : (State.initial dep config tokens).totalStaked = 0 := total_empty _
    rw [hsum]
    exact Tokens.amount_of_some hvault

/-- **Vault solvency.** At the end of every run the vault holds exactly the stakes of all positions,
everything slashed so far and everything sent to it from outside; a withdrawal never lacks funds; and
what a withdrawal pays leaves the vault and the stake of its own position only. -/
theorem vault_solvent (dep : Deployment) (config : StakeGovConfig) (tokens : Tokens) (clock : Clock)
    (is : List (Action Instr)) :
    let start : Chain State := ⟨clock, State.initial dep config tokens⟩
    let c := exec (step dep) start is
    let l := trace (step dep) start is
    c.accounts.totalStaked ≤ c.accounts.tokens.amount config.vault ∧
      c.accounts.tokens.amount config.vault = c.accounts.totalStaked + (slashed l + sent l) ∧
      (∀ s vault ata,
        process dep c.clock c.accounts (.finalizeWithdraw s vault ata) ≠ .error .insufficientFunds) ∧
      ∀ s vault ata st' n,
        process dep c.clock c.accounts (.finalizeWithdraw s vault ata) = .ok (st', n) →
        st'.tokens.amount config.vault + n = c.accounts.tokens.amount config.vault ∧
          weight StakePosition.stakedAmount (st'.position s.key) + n =
            weight StakePosition.stakedAmount (c.accounts.position s.key) ∧
          ∀ k, k ≠ s.key → st'.position k = c.accounts.position k := by
  intro start c l
  have h : Solvent dep config c l :=
    history_of_step (fun _ _ a h => h.step a) (initial_solvent dep config tokens clock) is
  have hbal : c.accounts.tokens.amount config.vault = c.accounts.totalStaked + (slashed l + sent l) := by
    have := h.custody.balance
    rw [State.vaultAmount, h.config_eq] at this
    exact this
  refine ⟨?_, hbal, finalizeWithdraw_funded h.covered h.custody, ?_⟩
  · omega
  · intro s vault ata st' n hok
    obtain ⟨hsig, heff⟩ := process_effect hok
    have hpay := heff.payout hsig h.custody.held
    rw [State.vaultAmount, State.vaultAmount, heff.config_eq, h.config_eq] at hpay
    exact hpay

end Runs

end Ddns.StakeGov
