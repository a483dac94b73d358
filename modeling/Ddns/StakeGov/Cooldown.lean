import Ddns.StakeGov.Effects
import Ddns.Lib.Updates

/-!
# The exit cooldown

A position keeps one `exitRequestedEpoch` for everything that is pending. `requestExit` writes it
for the first request and keeps it for the next ones, so a later request inherits the cooldown of
the first. `Prompt` runs are those in which this cannot shorten a cooldown: there the one epoch is
as late as every open request (`Recorded`), and so every payout is covered by requests that have
cooled down.
-/

namespace Ddns.StakeGov

open Tx Runs

/-- A request to withdraw `amount`, made at `epoch`. -/
structure Request where
  epoch : Nat
  amount : Nat
  deriving DecidableEq, Repr

/-- The epoch on a chain. -/
def chainEpoch (c : Chain State) : Nat := currentEpoch c.accounts.config c.clock

/-- The open requests of `w` after a step: a successful request adds one, a payout closes all. -/
def observe (w : Pubkey) (open_ : List Request) (e : Step) : List Request :=
  match e.input, e.out with
  | .submit (.requestExit s n), some (.ok _) =>
    if s.key = w then open_ ++ [⟨chainEpoch e.pre, n⟩] else open_
  | .submit (.finalizeWithdraw s _ _), some (.ok _) => if s.key = w then [] else open_
  | _, _ => open_

/-- The requests of `w` since its last payout. -/
def openRequests (w : Pubkey) (l : List Step) : List Request :=
  l.foldl (observe w) []

def requested (rs : List Request) : Nat := (rs.map Request.amount).sum

/-- What was requested at least `cooldown` epochs before `epoch`. -/
def cooled (cooldown epoch : Nat) (rs : List Request) : Nat :=
  requested (rs.filter fun r => r.epoch + cooldown ≤ epoch)

/-- **The cooldown law** of a run: every payout is covered by the requests since the last payout
that are at least the cooldown old. -/
def CooldownLaw (dep : Deployment) (c : Chain State) (is : List (Action Instr)) : Prop :=
  ∀ l₁ (e : Step) l₂ s vault ata n, trace (step dep) c is = l₁ ++ e :: l₂ →
    e.input = .submit (.finalizeWithdraw s vault ata) → e.out = some (.ok n) →
    n ≤ cooled c.accounts.config.exitCooldownEpochs (chainEpoch e.pre) (openRequests s.key l₁)

/-- A request that passes its checks is the first of an exit, or is made in the epoch in which the
exit began; without a cooldown it may come at any time. -/
def Prompt (c : Chain State) (a : Action Instr) : Prop :=
  ∀ s n p, a = .submit (.requestExit s n) → c.accounts.position s.key = some p →
    0 < n → n ≤ p.availableLiquid → p.exitRequestedEpoch ≠ 0 →
    c.accounts.config.exitCooldownEpochs = 0 ∨ p.exitRequestedEpoch = chainEpoch c

section Steps

variable {dep : Deployment} {clock : Clock} {st st' : State} {i : Instr} {s : Signer}
  {n : Nat} {w : Pubkey}

/-! ## What each instruction does to a pending exit -/

/-- The exit of a position is no larger than that of another: not more is pending, and its epoch is
the same or none. -/
def ExitLe (p' p : StakePosition) : Prop :=
  p'.pendingWithdrawAmount ≤ p.pendingWithdrawAmount ∧
    (p'.exitRequestedEpoch = p.exitRequestedEpoch ∨ p'.exitRequestedEpoch = 0)

theorem ExitLe.refl (p : StakePosition) : ExitLe p p := ⟨Nat.le_refl _, .inl rfl⟩

theorem ExitLe.trans {p q r : StakePosition} (h : ExitLe p q) (h' : ExitLe q r) : ExitLe p r := by
  refine ⟨Nat.le_trans h.1 h'.1, ?_⟩
  rcases h.2 with he | he
  · rw [he]
    exact h'.2
  · exact .inr he

theorem slashLocked_exitLe (p : StakePosition) (n : Nat) : ExitLe (slashLocked p n) p := by
  rcases slashLocked_cases p n with h | ⟨left, -, -, h⟩ | h <;> rw [h]
  · exact ExitLe.refl p
  · exact ⟨Nat.le_refl _, .inl rfl⟩
  · exact ⟨Nat.le_refl _, .inl rfl⟩

theorem shrinkPending_exitLe (p : StakePosition) : ExitLe (shrinkPending p) p := by
  rcases shrinkPending_cases p with h | ⟨left, hlt, h⟩ <;> rw [h]
  · exact ExitLe.refl p
  · refine ⟨Nat.le_of_lt hlt, ?_⟩
    by_cases hzero : left = 0
    · exact .inr (if_pos hzero)
    · exact .inl (if_neg hzero)

/-- A slash takes from an exit, or ends it. -/
theorem slashStake_exitLe (p : StakePosition) (n : Nat) : ExitLe (slashStake p n) p := by
  unfold slashStake
  split
  · exact (shrinkPending_exitLe _).trans (slashLocked_exitLe p n)
  · exact ExitLe.refl p

/-- No exit grew: a position without an exit may be new, every other one had an exit as large. -/
def Shrinks (old new : Pubkey → Option StakePosition) : Prop :=
  ∀ w p', new w = some p' → (p'.pendingWithdrawAmount = 0 ∧ p'.exitRequestedEpoch = 0) ∨
    ∃ p, old w = some p ∧ ExitLe p' p

theorem Shrinks.refl (o : Pubkey → Option StakePosition) : Shrinks o o :=
  fun _ p' h => .inr ⟨p', h, ExitLe.refl p'⟩

theorem Shrinks.update {o : Pubkey → Option StakePosition} {k : Pubkey} {p p' : StakePosition}
    (hp : o k = some p) (hle : ExitLe p' p) : Shrinks o (Function.update o k (some p')) := by
  intro w q hq
  rcases Updates.update_eq_some hq with ⟨rfl, rfl⟩ | ⟨-, hold⟩
  · exact .inr ⟨p, hp, hle⟩
  · exact .inr ⟨q, hold, ExitLe.refl q⟩

theorem Shrinks.of_eq {o o' : Pubkey → Option StakePosition} (h : o' = o) : Shrinks o o' :=
  h ▸ Shrinks.refl o

/-- The other instructions let no exit grow. -/
theorem Effect.shrinks (h : Effect dep clock st i st' n)
    (hreq : ∀ s n, i ≠ .requestExit s n) (hfin : ∀ s vault ata, i ≠ .finalizeWithdraw s vault ata) :
    Shrinks st.position st'.position := by
  cases h with
  | requestExit => exact absurd rfl (hreq _ _)
  | finalizeWithdraw => exact absurd rfl (hfin _ _ _)
  | registerVerifier | setVerifierActive | submitSnapshot | splTransfer | unlockNone =>
    exact Shrinks.of_eq rfl
  | @initStakePosition s hnew =>
    intro w p' hp'
    rcases Updates.update_eq_some hp' with ⟨rfl, rfl⟩ | ⟨-, hold⟩
    · exact .inl ⟨rfl, rfl⟩
    · exact .inr ⟨p', hold, ExitLe.refl p'⟩
  | stake _ hp | lock _ hp | unlockExpired hp | setDelegate hp | setDelegationSlashable hp =>
    exact Shrinks.update hp ⟨Nat.le_refl _, .inl rfl⟩
  | applySlash _ hp => exact Shrinks.update hp (slashStake_exitLe _ _)

end Steps

/-! ## What a position records of its requests -/

section Requests

variable {w : Pubkey} {l : List Step} {c : Chain State}

theorem openRequests_append (w : Pubkey) (l : List Step) (e : Step) :
    openRequests w (l ++ [e]) = observe w (openRequests w l) e := by
  simp [openRequests]

theorem requested_append (rs rs' : List Request) :
    requested (rs ++ rs') = requested rs + requested rs' := by
  simp [requested]

/-- When all requests are old enough, all of them have cooled down. -/
theorem cooled_of_forall {cooldown epoch : Nat} {rs : List Request}
    (h : ∀ r ∈ rs, r.epoch + cooldown ≤ epoch) : cooled cooldown epoch rs = requested rs := by
  unfold cooled
  rw [List.filter_eq_self.2]
  intro r hr
  exact decide_eq_true (h r hr)

/-- What the position of `w` says about its open requests: they cover what is pending, and the one
epoch of the exit is as late as each of them. -/
structure Recorded (config : StakeGovConfig) (c : Chain State) (w : Pubkey) (rs : List Request) :
    Prop where
  past : ∀ r ∈ rs, r.epoch ≤ chainEpoch c
  covered : ∀ p, c.accounts.position w = some p → p.pendingWithdrawAmount ≤ requested rs
  dated : config.exitCooldownEpochs ≠ 0 → ∀ p, c.accounts.position w = some p →
    p.exitRequestedEpoch ≠ 0 → ∀ r ∈ rs, r.epoch ≤ p.exitRequestedEpoch

/-- The positions record the requests of a run so far. -/
def History (config : StakeGovConfig) (c : Chain State) (l : List Step) : Prop :=
  c.accounts.config = config ∧ ∀ w, Recorded config c w (openRequests w l)

variable {dep : Deployment} {config : StakeGovConfig} {c' : Chain State} {rs : List Request}

/-- Where no exit grows, what is recorded stays recorded. -/
theorem Recorded.of_shrinks (h : Recorded config c w rs) (hle : chainEpoch c ≤ chainEpoch c')
    (hs : Shrinks c.accounts.position c'.accounts.position) : Recorded config c' w rs := by
  refine ⟨?_, ?_, ?_⟩
  · intro r hr
    exact Nat.le_trans (h.past r hr) hle
  · intro p' hp'
    rcases hs w p' hp' with ⟨hzero, -⟩ | ⟨p, hp, hpend, -⟩
    · rw [hzero]
      exact Nat.zero_le _
    · exact Nat.le_trans hpend (h.covered p hp)
  · intro hcd p' hp' hne r hr
    rcases hs w p' hp' with ⟨-, hzero⟩ | ⟨p, hp, -, hex⟩
    · exact absurd hzero hne
    · rcases hex with hex | hex
      · rw [hex] at hne ⊢
        exact h.dated hcd p hp hne r hr
      · exact absurd hex hne

/-- A prompt request is recorded. -/
theorem Recorded.request {s : Signer} {n m : Nat} {st' : State} (hcfg : c.accounts.config = config)
    (h : Recorded config c s.key rs)
    (hok : Effect dep c.clock c.accounts (.requestExit s n) st' m)
    (hQ : Prompt c (.submit (.requestExit s n))) :
    Recorded config ⟨c.clock, st'⟩ s.key (rs ++ [⟨chainEpoch c, n⟩]) := by
  have hep : chainEpoch ⟨c.clock, st'⟩ = chainEpoch c := by
    simp only [chainEpoch, hok.config_eq]
  cases hok with | @requestExit _ _ p hn hp hle =>
  refine ⟨?_, ?_, ?_⟩
  · intro r hr
    rw [hep]
    rcases List.mem_append.1 hr with hr | hr
    · exact h.past r hr
    · rw [List.mem_singleton.1 hr]
  · intro p' hp'
    rw [setPosition_position, Function.update_self, Option.some.injEq] at hp'
    rw [← hp', requested_append]
    exact Nat.add_le_add_right (h.covered p hp) n
  · intro hcd p' hp' hne r hr
    rw [setPosition_position, Function.update_self, Option.some.injEq] at hp'
    rw [← hp'] at hne ⊢
    -- A first request is dated now, after all others; a further one finds the date of its epoch.
    by_cases hzero : p.exitRequestedEpoch = 0
    · show r.epoch ≤ if p.exitRequestedEpoch = 0 then _ else _
      rw [if_pos hzero]
      rcases List.mem_append.1 hr with hr | hr
      · exact h.past r hr
      · rw [List.mem_singleton.1 hr]
        exact Nat.le_refl _
    · show r.epoch ≤ if p.exitRequestedEpoch = 0 then _ else _
      rw [if_neg hzero]
      rcases List.mem_append.1 hr with hr | hr
      · exact h.dated hcd p hp hzero r hr
      · rw [List.mem_singleton.1 hr]
        rcases hQ s n p rfl hp hn hle hzero with hno | heq
        · exact absurd (hcfg ▸ hno) hcd
        · exact Nat.le_of_eq heq.symm

/-- After a payout nothing is open. -/
theorem Recorded.payout {s : Signer} {n : Nat} {vault ata : Pubkey} {st' : State}
    (hok : Effect dep c.clock c.accounts (.finalizeWithdraw s vault ata) st' n) :
    Recorded config ⟨c.clock, st'⟩ s.key [] := by
  cases hok with | finalizeWithdraw hp =>
  refine ⟨?_, ?_, ?_⟩
  · intro r hr
    cases hr
  · intro p' hp'
    rw [setPosition_position, Function.update_self, Option.some.injEq] at hp'
    rw [← hp']
    exact Nat.zero_le _
  · intro _ _ _ _ r hr
    cases hr

theorem observe_other {i : Instr} {out : Option (Result StakeGovError Nat)}
    (hreq : ∀ s n, i ≠ .requestExit s n) (hfin : ∀ s vault ata, i ≠ .finalizeWithdraw s vault ata) :
    observe w rs ⟨c, .submit i, out, c'⟩ = rs := by
  cases i with
  | requestExit s n => exact absurd rfl (hreq s n)
  | finalizeWithdraw s vault ata => exact absurd rfl (hfin s vault ata)
  | _ => rfl

theorem observe_error {i : Instr} {e : Failure StakeGovError} :
    observe w rs ⟨c, .submit i, some (.error e), c'⟩ = rs := by
  cases i <;> rfl

/-- A position that another staker's instruction leaves alone. -/
theorem Recorded.frame {st' : State} (h : Recorded config c w rs)
    (hconf : st'.config = c.accounts.config) (hsame : st'.position w = c.accounts.position w) :
    Recorded config ⟨c.clock, st'⟩ w rs := by
  have hep : chainEpoch ⟨c.clock, st'⟩ = chainEpoch c := by
    simp only [chainEpoch, hconf]
  exact ⟨hep ▸ h.past, hsame ▸ h.covered, hsame ▸ h.dated⟩

/-- Prompt steps keep the history. -/
theorem history_step {a : Action Instr} (h : History config c l) (hQ : Prompt c a) :
    History config (step dep c a).1 (l ++ [event (step dep) c a]) := by
  obtain ⟨hcfg, hrec⟩ := h
  unfold event
  rcases chainStep_cases (process dep) c a with
    ⟨k, ts, rfl, hs⟩ | ⟨i, st', n, rfl, hok, hs⟩ | ⟨i, e, rfl, -, hs⟩
  · rw [step, hs]
    refine ⟨hcfg, fun w => ?_⟩
    rw [openRequests_append]
    exact (hrec w).of_shrinks (Nat.div_le_div_right (Nat.le_add_right ..)) (Shrinks.refl _)
  · rw [step, hs]
    obtain ⟨-, hok⟩ := process_effect hok
    have hconf : st'.config = c.accounts.config := hok.config_eq
    by_cases hreq : ∃ s n, i = .requestExit s n
    · obtain ⟨s, n, rfl⟩ := hreq
      refine ⟨hconf.trans hcfg, fun w => ?_⟩
      rw [openRequests_append]
      by_cases hw : s.key = w
      · subst hw
        simp only [observe, if_pos]
        exact (hrec s.key).request hcfg hok hQ
      · simp only [observe, if_neg hw]
        refine (hrec w).frame hconf ?_
        cases hok with | requestExit => exact Function.update_of_ne (Ne.symm hw) _ _
    · by_cases hfin : ∃ s vault ata, i = .finalizeWithdraw s vault ata
      · obtain ⟨s, vault, ata, rfl⟩ := hfin
        refine ⟨hconf.trans hcfg, fun w => ?_⟩
        rw [openRequests_append]
        by_cases hw : s.key = w
        · subst hw
          simp only [observe, if_pos]
          exact Recorded.payout hok
        · simp only [observe, if_neg hw]
          refine (hrec w).frame hconf ?_
          cases hok with | finalizeWithdraw => exact Function.update_of_ne (Ne.symm hw) _ _
      · have hreq' : ∀ s n, i ≠ .requestExit s n := fun s n he => hreq ⟨s, n, he⟩
        have hfin' : ∀ s vault ata, i ≠ .finalizeWithdraw s vault ata :=
          fun s vault ata he => hfin ⟨s, vault, ata, he⟩
        refine ⟨hconf.trans hcfg, fun w => ?_⟩
        rw [openRequests_append, observe_other hreq' hfin']
        exact (hrec w).of_shrinks (by simp only [chainEpoch, hconf, le_refl])
          (hok.shrinks hreq' hfin')
  · rw [step, hs]
    refine ⟨hcfg, fun w => ?_⟩
    rw [openRequests_append, observe_error]
    exact hrec w

theorem genesis_history (config : StakeGovConfig) (tokens : Tokens) (clock : Clock) :
    History config ⟨clock, State.genesis config tokens⟩ [] := by
  refine ⟨rfl, fun w => ⟨?_, ?_, ?_⟩⟩
  · intro r hr
    cases hr
  · intro p hp
    cases hp
  · intro _ p hp
    cases hp

/-- A payout that the history covers is of requests that have all cooled down. -/
theorem payout_cooled {s : Signer} {n : Nat} {vault ata : Pubkey} {st' : State}
    (hcfg : c.accounts.config = config) (h : Recorded config c s.key rs)
    (hok : Effect dep c.clock c.accounts (.finalizeWithdraw s vault ata) st' n) :
    n ≤ cooled config.exitCooldownEpochs (chainEpoch c) rs := by
  cases hok with | @finalizeWithdraw _ _ _ p _ hp hne hcool =>
  rw [hcfg] at hcool
  rw [cooled_of_forall]
  · exact h.covered p hp
  · intro r hr
    by_cases hcd : config.exitCooldownEpochs = 0
    · rw [hcd]
      exact h.past r hr
    · have hdated := h.dated hcd p hp hne r hr
      have hcool : p.exitRequestedEpoch + config.exitCooldownEpochs ≤ chainEpoch c := by
        rw [chainEpoch, hcfg]
        exact hcool
      omega

end Requests

/-- **The cooldown of prompt exits.** In every run of the program in which no request joins an exit
that began in an earlier epoch, every payout is covered by requests that are at least the cooldown
old. -/
theorem cooldown_of_prompt (dep : Deployment) (config : StakeGovConfig) (tokens : Tokens)
    (clock : Clock) (is : List (Action Instr))
    (hQ : Each (step dep) Prompt ⟨clock, State.genesis config tokens⟩ is) :
    CooldownLaw dep ⟨clock, State.genesis config tokens⟩ is := by
  intro l₁ e l₂ s vault ata n htr hin hout
  obtain ⟨pre, i, post, rfl, rfl, rfl, -⟩ := trace_split htr
  have hin : i = .submit (.finalizeWithdraw s vault ata) := hin
  subst hin
  have hhist : History config (exec (step dep) ⟨clock, State.genesis config tokens⟩ pre)
      (trace (step dep) ⟨clock, State.genesis config tokens⟩ pre) :=
    history_induction (fun _ _ _ h hQ => history_step h hQ)
      (genesis_history config tokens clock) (each_append .. |>.1 hQ).1
  obtain ⟨hcfg, hrec⟩ := hhist
  obtain ⟨st', hok, -⟩ := chainStep_out hout
  exact payout_cooled hcfg (hrec s.key) (process_effect hok).2

/-! ## A late request -/

/-- A staker. -/
def exampleStaker : Signer := ⟨1, one_ne_default⟩

def exampleDeployment : Deployment := ⟨7⟩

/-- Exits cool down for five epochs. -/
def exampleConfig : StakeGovConfig where
  stakeMint := 9
  epochLenSlots := 10
  minStake := 1
  maxVerifiers := 64
  disputeWindowEpochs := 5
  exitCooldownEpochs := 5
  minLockEpochs := 1
  maxLockEpochs := 10
  jailEpochsAfterSlash := 1
  maxSlashBpsPerEvent := 5000
  lockTiers := List.replicate 6 ⟨0, 10000⟩
  slashAuthorities := []
  snapshotSubmitters := []
  authority := 2
  vault := 8
  epochLen_pos := tenSlots_pos
  lock_le := by decide
  slash_le := by decide
  tiers_ok := by decide

/-- A fresh program, with the staker's tokens and an empty vault. -/
def exampleGenesis : Chain State where
  clock := ⟨0, 0⟩
  accounts := State.genesis exampleConfig fun k =>
    if k = 11 then some ⟨9, 1, 100⟩ else if k = 8 then some ⟨9, 7, 0⟩ else none

/-- One token is requested in epoch 1; the others only when it has cooled down. -/
def lateRun : List (Action Instr) :=
  [.submit (.initStakePosition exampleStaker), .submit (.stake exampleStaker 8 11 100),
    .elapse 10 0, .submit (.requestExit exampleStaker 1), .elapse 50 0,
    .submit (.requestExit exampleStaker 99), .submit (.finalizeWithdraw exampleStaker 8 11)]

/-- All tokens are requested in epoch 1. -/
def promptRun : List (Action Instr) :=
  [.submit (.initStakePosition exampleStaker), .submit (.stake exampleStaker 8 11 100),
    .elapse 10 0, .submit (.requestExit exampleStaker 1), .submit (.requestExit exampleStaker 99),
    .elapse 50 0, .submit (.finalizeWithdraw exampleStaker 8 11)]

/-- The late request pays 100 tokens, of which 99 were requested in the same epoch. -/
theorem lateRun_not_cooldown : ¬CooldownLaw exampleDeployment exampleGenesis lateRun := by
  intro h
  have hpaid := h (trace (step exampleDeployment) exampleGenesis (lateRun.take 6))
    (event (step exampleDeployment)
      (exec (step exampleDeployment) exampleGenesis (lateRun.take 6))
      (.submit (.finalizeWithdraw exampleStaker 8 11))) []
    exampleStaker 8 11 100 rfl rfl (by decide)
  exact absurd hpaid (by decide)

theorem prompt_other {c : Chain State} {a : Action Instr}
    (h : ∀ s n, a ≠ .submit (.requestExit s n)) : Prompt c a :=
  fun s n _ ha => absurd ha (h s n)

theorem exit_eq {o : Option StakePosition} {p : StakePosition} {e : Nat} (hp : o = some p)
    (he : o.map StakePosition.exitRequestedEpoch = some e) : p.exitRequestedEpoch = e := by
  rw [hp, Option.map_some, Option.some.injEq] at he
  exact he

theorem promptRun_cooldown : CooldownLaw exampleDeployment exampleGenesis promptRun := by
  refine cooldown_of_prompt exampleDeployment exampleConfig _ ⟨0, 0⟩ promptRun ?_
  refine ⟨prompt_other nofun, prompt_other nofun, prompt_other nofun, ?_, ?_, prompt_other nofun,
    prompt_other nofun, trivial⟩
  · intro s n p ha hp _ _ hne
    cases ha
    exact absurd (exit_eq hp (e := 0) (by decide)) hne
  · intro s n p ha hp _ _ _
    cases ha
    exact .inr (exit_eq hp (e := 1) (by decide))

end Ddns.StakeGov
