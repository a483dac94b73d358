import Ddns.Operators.Lifecycle

/-!
# Custody of the operators program

The vault of an operator holds its own rent and the operator's stake, and an active operator has the
minimum stake. Staking, unstaking and slashing move the lamports and the recorded stake by one
amount; a status becomes active only against the minimum of the config, so an active operator keeps
the minimum as long as the config stays.
-/

namespace Ddns.Operators

open Tx Runs

/-- What an operator account promises: its vault holds the rent and the stake, and an active
operator has the minimum stake. -/
structure Backed (dep : Deployment) (st : State) (w : Pubkey) (op : Operator) : Prop where
  vault : dep.rent 0 + op.stakeAmountLamports ≤ st.lamports (.operatorVault w)
  active : op.status = .active → st.config.minOperatorStakeLamports ≤ op.stakeAmountLamports

/-- Every operator account is backed. -/
def Custody (dep : Deployment) (st : State) : Prop :=
  ∀ w op, st.operator w = some op → Backed dep st w op

/-- The action leaves the config as it is. -/
def KeepsConfig (dep : Deployment) (c : Chain State) (a : Action Instr) : Prop :=
  (step dep c a).1.accounts.config = c.accounts.config

section Moves

variable {lamports lamports' : Holder → Nat} {src dst : Holder} {n : Nat} {k w : Pubkey}

/-- A transfer that does not come out of a vault takes nothing from it. -/
theorem vault_le_of_move (h : Balances.move 64 lamports src dst n = some lamports')
    (hsrc : src ≠ .operatorVault k) :
    lamports (.operatorVault k) ≤ lamports' (.operatorVault k) := by
  have hmove := Balances.move_apply h (.operatorVault k)
  rw [if_neg hsrc.symm] at hmove
  omega

/-- A transfer into the vault of `w` fills it. -/
theorem vault_of_stake (h : Balances.move 64 lamports (.wallet k) (.operatorVault w) n =
    some lamports') :
    lamports' (.operatorVault w) = lamports (.operatorVault w) + n :=
  Balances.move_dst h nofun

/-- A transfer out of the vault of `w` to a wallet drains it by the amount, and no other vault. -/
theorem vault_of_unstake (h : Balances.move 64 lamports (.operatorVault w) (.wallet k) n =
    some lamports') :
    lamports' (.operatorVault w) + n = lamports (.operatorVault w) := by
  have hout := Balances.move_src h nofun
  have hle := Balances.move_le h
  omega

theorem init_vault_le {α : Type} {existing : Option α} {payer account : Holder} {rent : Nat}
    (h : initIfNeeded existing lamports payer account rent = .ok lamports')
    (hpayer : payer ≠ .operatorVault k) :
    lamports (.operatorVault k) ≤ lamports' (.operatorVault k) := by
  unfold initIfNeeded at h
  split at h
  · exact vault_le_of_move (transferLamports_eq_ok.1 h) hpayer
  · rw [← pure_eq_ok.1 h]

/-- A penalty takes one amount from the vault and from the stake. -/
theorem payPenalty_vault {dep : Deployment} {st : State} {stake stake' amount : Nat}
    (h : payPenalty dep st w stake amount = .ok (lamports', stake')) :
    (∀ k, k ≠ w → st.lamports (.operatorVault k) ≤ lamports' (.operatorVault k)) ∧
      lamports' (.operatorVault w) + stake = st.lamports (.operatorVault w) + stake' := by
  unfold payPenalty at h
  split at h
  · simp only [bind_eq_ok, transferLamports_eq_ok, demand_eq_ok, okOr_eq_ok, Checked.sub_eq_some,
      exists_unit, pure_eq_ok, Prod.mk.injEq] at h
    obtain ⟨_, hmove, -, _, ⟨hle, rfl⟩, rfl, rfl⟩ := h
    have hout := vault_of_unstake hmove
    refine ⟨fun k hk => ?_, by omega⟩
    exact vault_le_of_move hmove fun he => hk (Holder.operatorVault.inj he).symm
  · obtain ⟨rfl, rfl⟩ := Prod.mk.inj (pure_eq_ok.1 h)
    exact ⟨fun _ _ => Nat.le_refl _, rfl⟩

end Moves

section Steps

variable {dep : Deployment} {clock : Clock} {st st' : State} {i : Instr}

/-- Where no operator changes and no vault is drained, the custody stays. -/
theorem Custody.frame (h : Custody dep st) (hcfg : st'.config = st.config)
    (hop : st'.operator = st.operator)
    (hlam : ∀ k, st.lamports (.operatorVault k) ≤ st'.lamports (.operatorVault k)) :
    Custody dep st' := by
  intro w op hw
  rw [hop] at hw
  obtain ⟨hvault, hactive⟩ := h w op hw
  refine ⟨Nat.le_trans hvault (hlam w), ?_⟩
  rw [hcfg]
  exact hactive

/-- The write of one operator account that is backed, where no other vault is drained. -/
theorem Custody.write (h : Custody dep st) {w : Pubkey} {op : Operator}
    (hcfg : st'.config = st.config)
    (hop : st'.operator = Function.update st.operator w (some op))
    (hlam : ∀ k, k ≠ w → st.lamports (.operatorVault k) ≤ st'.lamports (.operatorVault k))
    (hb : Backed dep st' w op) : Custody dep st' := by
  intro v o hv
  rw [hop] at hv
  rcases Updates.update_eq_some hv with ⟨rfl, rfl⟩ | ⟨hvw, hold⟩
  · exact hb
  · obtain ⟨hvault, hactive⟩ := h v o hold
    refine ⟨Nat.le_trans hvault (hlam v hvw), ?_⟩
    rw [hcfg]
    exact hactive

/-- The write of an operator account with its old stake, of which no lamports are taken. -/
theorem Custody.rewrite (h : Custody dep st) {w : Pubkey} {old op : Operator}
    (hold : st.operator w = some old) (hcfg : st'.config = st.config)
    (hop : st'.operator = Function.update st.operator w (some op))
    (hlam : st'.lamports = st.lamports)
    (hstake : op.stakeAmountLamports = old.stakeAmountLamports)
    (hactive : op.status = .active → old.status = .active ∨
      st.config.minOperatorStakeLamports ≤ old.stakeAmountLamports) : Custody dep st' := by
  obtain ⟨hvault, hmin⟩ := h w old hold
  refine h.write hcfg hop (fun k _ => by rw [hlam]) ⟨?_, ?_⟩
  · rw [hlam, hstake]
    exact hvault
  · intro hact
    rw [hcfg, hstake]
    rcases hactive hact with hwas | hle
    · exact hmin hwas
    · exact hle

/-- **Step lemma**: every instruction keeps the custody while the config stays the same. -/
theorem handle_custody (h : handle dep clock st i = .ok st') (hcfg : st'.config = st.config)
    (hc : Custody dep st) : Custody dep st' := by
  cases handle_effect h with
  | updateOperatorsConfig => exact hc.frame hcfg rfl fun _ => Nat.le_refl _
  | @registerOperator s _ _ _ opened lamports op hnew hopen hempty hmove hfresh =>
    have hin := vault_of_stake hmove
    refine hc.write rfl rfl (fun k _ => ?_) ⟨?_, ?_⟩
    · exact Nat.le_trans (vault_le_of_move hopen nofun) (vault_le_of_move hmove nofun)
    · show dep.rent 0 + op.stakeAmountLamports ≤ lamports _
      rw [hfresh.stake]
      omega
    · rw [hfresh.paused]
      exact nofun
  | updateEndpoints hop | claimOperatorRewards hop => exact hc.rewrite hop rfl rfl rfl rfl .inl
  | pauseOperator hop => exact hc.rewrite hop rfl rfl rfl rfl nofun
  | resumeOperator hop hw hmin => exact hc.rewrite hop rfl rfl rfl rfl fun _ => .inr hmin
  | @stakeOperator s n op lamports hop hw hn hne hmove =>
    have hin := vault_of_stake hmove
    obtain ⟨hvault, hactive⟩ := hc _ _ hop
    refine hc.write rfl rfl (fun k _ => vault_le_of_move hmove nofun) ⟨?_, ?_⟩
    · show dep.rent 0 + (op.stakeAmountLamports + n) ≤ lamports _
      omega
    · intro hact
      show st.config.minOperatorStakeLamports ≤ op.stakeAmountLamports + n
      dsimp only at hact
      split at hact
      · next hmin => exact hmin.1
      · exact Nat.le_add_right_of_le (hactive hact)
  | @unstakeOperator s n op lamports hop hw hn hne hle hmove =>
    have hout := vault_of_unstake hmove
    obtain ⟨hvault, hactive⟩ := hc _ _ hop
    refine hc.write rfl rfl (fun k hk => ?_) ⟨?_, ?_⟩
    · exact vault_le_of_move hmove fun he => hk (Holder.operatorVault.inj he).symm
    · show dep.rent 0 + (op.stakeAmountLamports - n) ≤ lamports _
      omega
    · intro hact
      show st.config.minOperatorStakeLamports ≤ op.stakeAmountLamports - n
      dsimp only at hact
      split at hact
      · cases hact
      · next hmin => exact Nat.le_of_not_lt hmin
  | fundTreasury => exact hc.frame rfl rfl fun _ => Nat.le_refl _
  | submitEpochMetrics hinit | setDomainNsOperator hinit =>
    exact hc.frame rfl rfl fun k => init_vault_le hinit nofun
  | @slashOperator s o bps reason op lamports stake hop hw hbps hne hpay =>
    obtain ⟨hvault, -⟩ := hc _ _ hop
    obtain ⟨hother, hsum⟩ := payPenalty_vault hpay
    refine hc.write rfl rfl (fun k hk => hother k hk) ⟨?_, ?_⟩
    · show dep.rent 0 + stake ≤ lamports _
      omega
    · intro hact
      dsimp only at hact
      split at hact
      · cases hact
      · cases hact

end Steps

/-! ## Every run -/

section Runs

variable {dep : Deployment}

theorem step_custody {c : Chain State} {a : Action Instr} (h : Custody dep c.accounts)
    (hcfg : KeepsConfig dep c a) : Custody dep (step dep c a).1.accounts := by
  unfold KeepsConfig at hcfg
  rcases chainStep_commits (process dep) c a with ⟨hsame, -⟩ | ⟨i, s, u, rfl, hok, hs⟩
  · rw [hsame]
    exact h
  · rw [step, hs] at hcfg ⊢
    exact handle_custody (process_eq_ok.1 hok) hcfg h

/-- **Custody.** In every state of a run under one config, the vault of each operator holds its
rent and the stake of the operator, and an active operator has the minimum stake. -/
theorem operator_custody (dep : Deployment) (config : OperatorsConfig) (lamports : Holder → Nat)
    (tokens : Tokens) (clock : Clock) (is : List (Action Instr))
    (hcfg : Each (step dep) (KeepsConfig dep)
      ⟨clock, State.genesis config lamports tokens⟩ is) :
    Always (step dep) (fun c => Custody dep c.accounts)
      ⟨clock, State.genesis config lamports tokens⟩ is := by
  refine Always.of_each (P := fun c => Custody dep c.accounts) (fun _ _ => step_custody) ?_ hcfg
  intro w op h
  cases h

/-- The run of the slashed operator keeps its config, so the custody holds in all its states. -/
theorem exampleRun_custody :
    Always (step exampleDeployment) (fun c => Custody exampleDeployment c.accounts)
      exampleGenesis exampleRun :=
  operator_custody exampleDeployment _ _ _ _ exampleRun ⟨rfl, rfl, rfl, rfl, rfl, trivial⟩

end Runs

end Ddns.Operators
