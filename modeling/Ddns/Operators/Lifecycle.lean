import Ddns.Operators.Effects
import Ddns.Lib.Updates

/-!
# The lifecycle of an operator

`Slashed` is meant to be terminal: resuming, staking, unstaking and slashing again all refuse a
slashed operator. Pausing does not. `handle_operator` says what any instruction does to the
operator accounts; it leaves a pause as the only way out of `Slashed`, and `lifecycle_iff` turns
this into the exact condition on a run.
-/

namespace Ddns.Operators

open Tx Runs

/-- The operator of wallet `w` is slashed. -/
def State.Slashed (st : State) (w : Pubkey) : Prop :=
  ∃ op, st.operator w = some op ∧ op.status = .slashed

/-- Every operator account sits at the address of its wallet. -/
def State.Addressed (st : State) : Prop :=
  ∀ w op, st.operator w = some op → op.operatorWallet = w

section Steps

variable {dep : Deployment} {clock : Clock} {st st' : State} {i : Instr} {w : Pubkey}

/-! ## What each instruction does to the operator accounts -/

/-- The write of an operator account at `w`: the account is new, or it was not slashed, or the
instruction is the pause of `w`. -/
inductive Writes (st : State) (i : Instr) (w : Pubkey) (op : Operator) : Prop where
  | fresh (hnone : st.operator w = none)
  | pause (s : Signer) (hi : i = .pauseOperator s) (hs : s.key = w) (hp : op.status = .paused)
  | guarded (old : Operator) (hold : st.operator w = some old) (hne : old.status ≠ .slashed)

/-- **What an instruction does to the operator accounts**: nothing, or one write. -/
theorem handle_operator (h : handle dep clock st i = .ok st') :
    st'.operator = st.operator ∨ ∃ w op, st'.operator = Function.update st.operator w (some op) ∧
      op.operatorWallet = w ∧ Writes st i w op := by
  cases handle_effect h with
  | updateOperatorsConfig | fundTreasury | submitEpochMetrics | setDomainNsOperator => exact .inl rfl
  | registerOperator hnew hopen hempty hmove hfresh =>
    exact .inr ⟨_, _, rfl, hfresh.wallet, .fresh hnew⟩
  | pauseOperator hop hw => exact .inr ⟨_, _, rfl, hw, .pause _ rfl rfl rfl⟩
  | claimOperatorRewards hop hw hm hactive =>
    exact .inr ⟨_, _, rfl, hw, .guarded _ hop (by simp [hactive])⟩
  | updateEndpoints hop hw hne | resumeOperator hop hw hmin hne | stakeOperator hop hw hn hne
  | unstakeOperator hop hw hn hne | slashOperator hop hw hbps hne =>
    exact .inr ⟨_, _, rfl, hw, .guarded _ hop hne⟩

theorem Slashed.iff_of_eq (h : st'.operator = st.operator) : st'.Slashed w ↔ st.Slashed w := by
  unfold State.Slashed
  rw [h]

/-- The accounts stay at their addresses. -/
theorem handle_addressed (h : handle dep clock st i = .ok st') (ha : st.Addressed) :
    st'.Addressed := by
  rcases handle_operator h with heq | ⟨w, op, heq, hw, -⟩
  · intro v o hv
    exact ha v o (heq ▸ hv)
  · intro v o hv
    rw [heq] at hv
    exact Updates.forall_update ha hw v o hv

/-- A slashed operator stays slashed under every instruction but its own pause. -/
theorem handle_slashed (h : handle dep clock st i = .ok st') (hs : st.Slashed w)
    (hpause : ∀ s : Signer, i = .pauseOperator s → s.key ≠ w) : st'.Slashed w := by
  rcases handle_operator h with heq | ⟨v, op, heq, -, hwr⟩
  · exact (Slashed.iff_of_eq heq).2 hs
  · obtain ⟨o, ho, hos⟩ := hs
    have hvw : w ≠ v := by
      rintro rfl
      cases hwr with
      | fresh hnone => rw [hnone] at ho; cases ho
      | pause s hi hsk hp => exact hpause s hi hsk
      | guarded old hold hne =>
        rw [hold, Option.some.injEq] at ho
        exact hne (ho ▸ hos)
    exact ⟨o, by rw [heq, Function.update_of_ne hvw, ho], hos⟩

/-- The pause of a slashed operator succeeds, and the operator is slashed no longer. -/
theorem pause_slashed (dep : Deployment) (clock : Clock) {s : Signer} (ha : st.Addressed)
    (hs : st.Slashed s.key) :
    ∃ st', handle dep clock st (.pauseOperator s) = .ok st' ∧ ¬st'.Slashed s.key := by
  obtain ⟨op, hop, -⟩ := hs
  have hown : ownOperator st s = .ok op := ownOperator_eq_ok.2 ⟨hop, ha _ _ hop⟩
  refine ⟨st.setOperator s.key { op with status := .paused }, ?_, ?_⟩
  · simp [handle, pauseOperator, hop, ha _ _ hop]
  · rintro ⟨o, ho, hos⟩
    rw [setOperator_operator, Function.update_self, Option.some.injEq] at ho
    rw [← ho] at hos
    cases hos

/-- The instructions that a slashed operator must not get through. -/
inductive Instr.Gainful (w : Pubkey) : Instr → Prop where
  | resume (s : Signer) (hs : s.key = w) : Gainful w (.resumeOperator s)
  | unstake (s : Signer) (hs : s.key = w) (n : Nat) : Gainful w (.unstakeOperator s n)
  | claim (s : Signer) (hs : s.key = w) (vault ata : Pubkey) (e : Nat) :
      Gainful w (.claimOperatorRewards s vault ata e)

/-- They fail while the operator is slashed. -/
theorem gainful_not_slashed (h : handle dep clock st i = .ok st') (hg : i.Gainful w) :
    ¬st.Slashed w := by
  rintro ⟨op, hop, hst⟩
  cases hg with
  | resume s hs =>
    subst hs
    simp only [handle, resumeOperator, ne_eq, bind_pure_comp, bind_eq_ok, ownOperator_eq_ok, hop,
      Option.some.injEq, require_eq_ok, map_eq_ok, exists_const, ↓existsAndEq, true_and] at h
    exact h.2.2.1 hst
  | unstake s hs n =>
    subst hs
    simp only [handle, unstakeOperator, ne_eq, bind_pure_comp, bind_eq_ok, ownOperator_eq_ok, hop,
      Option.some.injEq, require_eq_ok, okOr_eq_ok, Checked.sub_eq_some, transferLamports_eq_ok,
      map_eq_ok, demand_eq_ok, exists_const, ↓existsAndEq, and_true, and_self_left, true_and] at h
    exact h.2.2.1 hst
  | claim s hs vault ata e =>
    subst hs
    simp [handle, claimOperatorRewards, hop, hst] at h

/-- A slash of at least half the stake, or with a reason, leaves the operator slashed. -/
theorem slash_slashed {s : Signer} {bps reason : Nat}
    (h : handle dep clock st (.slashOperator s w bps reason) = .ok st')
    (hsev : 5000 ≤ bps ∨ reason ≠ 0) : st'.Slashed w := by
  simp only [handle, slashOperator, ne_eq, bind_pure_comp, bind_eq_ok, load_eq_ok, demand_eq_ok,
    require_eq_ok, okOr_eq_ok, Checked.mul_eq_some, Nat.reducePow, map_eq_ok, Prod.exists,
    ↓existsAndEq, and_true, exists_const] at h
  obtain ⟨op, -, -, -, -, -, -, -, -, -, rfl⟩ := h
  exact ⟨_, Function.update_self .., if_pos hsev⟩

end Steps

/-! ## Runs -/

/-- A step of the program. -/
abbrev Step := Event (Chain State) (Action Instr) (Option (Result OperatorsError Unit))

/-- The step is a slash of `w`, of at least half the stake or with a reason, that succeeded. -/
def Step.SevereSlash (w : Pubkey) (e : Step) : Prop :=
  ∃ s bps reason, e.input = .submit (.slashOperator s w bps reason) ∧
    (5000 ≤ bps ∨ reason ≠ 0) ∧ e.out = some (.ok ())

/-- The step is a resume, an unstake or a claim by `w` that succeeded. -/
def Step.Gained (w : Pubkey) (e : Step) : Prop :=
  ∃ i : Instr, e.input = .submit i ∧ i.Gainful w ∧ e.out = some (.ok ())

/-- **The lifecycle law** of a run: an operator once slashed is slashed in every later state, and
after a severe slash of it none of its resumes, unstakes and claims succeeds. -/
def Lifecycle (dep : Deployment) (c : Chain State) (is : List (Action Instr)) : Prop :=
  (∀ w pre mid post, is = pre ++ mid ++ post → (exec (step dep) c pre).accounts.Slashed w →
    (exec (step dep) c (pre ++ mid)).accounts.Slashed w) ∧
  ∀ w l₁ (e : Step) l₂, trace (step dep) c is = l₁ ++ e :: l₂ → e.SevereSlash w →
    ∀ e' ∈ l₂, ¬Step.Gained w e'

/-- The action is not the pause of a slashed operator. -/
def NoPauseOfSlashed (c : Chain State) (a : Action Instr) : Prop :=
  ∀ s : Signer, a = .submit (.pauseOperator s) → ¬c.accounts.Slashed s.key

section Runs

variable {dep : Deployment} {c : Chain State} {a : Action Instr} {w : Pubkey}

theorem process_eq_ok {clock : Clock} {st st' : State} {i : Instr} {u : Unit} :
    process dep clock st i = .ok (st', u) ↔ handle dep clock st i = .ok st' := by
  simp [process]

theorem step_addressed (h : c.accounts.Addressed) : (step dep c a).1.accounts.Addressed :=
  accounts_invariant (fun _ _ _ _ _ h hok => handle_addressed (process_eq_ok.1 hok) h) c a h

/-- Outside the pauses of slashed operators, a step keeps an operator slashed. -/
theorem step_slashed (hQ : NoPauseOfSlashed c a) (h : c.accounts.Slashed w) :
    (step dep c a).1.accounts.Slashed w := by
  rcases chainStep_commits (process dep) c a with ⟨hsame, -⟩ | ⟨i, s, u, rfl, hok, hs⟩
  · rw [hsame]
    exact h
  · rw [step, hs]
    refine handle_slashed (process_eq_ok.1 hok) h fun s hi hsk => ?_
    exact hQ s (by rw [hi]) (hsk ▸ h)

/-- The pause of a slashed operator ends its being slashed. -/
theorem step_pause_slashed {s : Signer} (ha : c.accounts.Addressed)
    (h : c.accounts.Slashed s.key) :
    ¬(step dep c (.submit (.pauseOperator s))).1.accounts.Slashed s.key := by
  obtain ⟨st', hok, hns⟩ := pause_slashed dep c.clock ha h
  rw [step, chainStep_ok (process_eq_ok (u := ()).2 hok)]
  exact hns

/-- A step that succeeded ran its handler. -/
theorem handle_of_out {i : Instr} (h : (step dep c (.submit i)).2 = some (.ok ())) :
    ∃ st', handle dep c.clock c.accounts i = .ok st' ∧
      (step dep c (.submit i)).1 = ⟨c.clock, st'⟩ := by
  obtain ⟨st', hok, hpost⟩ := chainStep_out h
  exact ⟨st', process_eq_ok.1 hok, hpost⟩

/-- Along a run without pauses of slashed operators, slashed operators stay slashed. -/
theorem exec_slashed {is : List (Action Instr)} (hQ : Each (step dep) NoPauseOfSlashed c is)
    (h : c.accounts.Slashed w) : Always (step dep) (fun c => c.accounts.Slashed w) c is :=
  Always.of_each (P := fun c => c.accounts.Slashed w) (fun _ _ hs hQ => step_slashed hQ hs) h hQ

theorem genesis_addressed (config : OperatorsConfig) (lamports : Holder → Nat) (tokens : Tokens) :
    (State.genesis config lamports tokens).Addressed := by
  intro w op h
  cases h

end Runs

/-- **Exactly when the lifecycle law holds.** A run of the program obeys it if and only if no step
of the run is the pause of a slashed operator. -/
theorem lifecycle_iff (dep : Deployment) (config : OperatorsConfig) (lamports : Holder → Nat)
    (tokens : Tokens) (clock : Clock) (is : List (Action Instr)) :
    Lifecycle dep ⟨clock, State.genesis config lamports tokens⟩ is ↔
      Each (step dep) NoPauseOfSlashed ⟨clock, State.genesis config lamports tokens⟩ is := by
  generalize hc : (⟨clock, State.genesis config lamports tokens⟩ : Chain State) = c
  have haddr : c.accounts.Addressed := hc ▸ genesis_addressed config lamports tokens
  constructor
  · rintro ⟨hstays, -⟩
    refine each_iff_mem_trace.2 fun e he s hi hsl => ?_
    obtain ⟨pre, i, post, rfl, rfl⟩ := mem_trace he
    have hi : i = .submit (.pauseOperator s) := hi
    subst hi
    have haddr' : (exec (step dep) c pre).accounts.Addressed :=
      exec_induction (P := fun c : Chain State => c.accounts.Addressed)
        (fun _ _ h => step_addressed h) haddr pre
    have hkept := hstays s.key pre [.submit (.pauseOperator s)] post (by simp) hsl
    rw [exec_append] at hkept
    exact step_pause_slashed haddr' hsl hkept
  · intro hQ
    refine ⟨?_, ?_⟩
    · rintro w pre mid post rfl hsl
      rw [List.append_assoc, each_append, each_append] at hQ
      rw [exec_append]
      exact (exec_slashed hQ.2.1 hsl).exec
    · rintro w l₁ e l₂ htr ⟨s, bps, reason, hi, hsev, hout⟩ e' he' ⟨j, hj, hgain, hout'⟩
      obtain ⟨pre, i, post, rfl, -, rfl, rfl⟩ := trace_split htr
      have hi : i = .submit (.slashOperator s w bps reason) := hi
      subst hi
      obtain ⟨st', hok, hpost⟩ := handle_of_out hout
      obtain ⟨pre', i', post', rfl, rfl⟩ := mem_trace he'
      have hj : i' = .submit j := hj
      subst hj
      rw [each_append, each_cons, each_append] at hQ
      -- The severe slash leaves `w` slashed, and the steps up to `e'` keep it so.
      have hsl : (exec (step dep) c (pre ++ [.submit (.slashOperator s w bps reason)])).accounts.Slashed
          w := by
        rw [exec_append, exec_cons, exec_nil, hpost]
        exact slash_slashed hok hsev
      have hQ' : Each (step dep) NoPauseOfSlashed
          (exec (step dep) c (pre ++ [.submit (.slashOperator s w bps reason)])) pre' := by
        rw [exec_append]
        exact hQ.2.2.1
      obtain ⟨st'', hok', -⟩ := handle_of_out hout'
      exact gainful_not_slashed hok' hgain (exec_slashed hQ' hsl).exec

/-! ## A slashed operator that takes its stake back -/

/-- An authority. -/
def exampleAuthority : Signer := ⟨1, one_ne_default⟩

/-- An operator's wallet. -/
def exampleWallet : Signer := ⟨2, two_ne_default⟩

/-- A deployment with the rent of the cluster. -/
def exampleDeployment : Deployment := ⟨fun size => (128 + size) * 6960, 3⟩

/-- A fresh deployment whose operators need 100 lamports of stake. -/
def exampleGenesis : Chain State where
  clock := ⟨0, 0⟩
  accounts := State.genesis
    { epochLenSlots := 10, minOperatorStakeLamports := 100, maxEndpointsPerOperator := 8
      rewardPerPaidQuery := 1, rewardPerVerifiedReceipt := 1, uptimeBonusPer10k := 0
      latencyBonusThresholdMs := 0, latencyBonus := 0, maxRewardsPerEpoch := 1000
      metricsSubmitters := [], slashingAuthorities := [], enabled := true
      authority := 1, tollMint := 4, treasuryVault := 5 }
    (fun h => if h = .wallet 2 then 10 ^ 9 else 0) (fun _ => none)

/-- Slashed with a reason, the operator pauses and then unstakes. -/
def exampleRun : List (Action Instr) :=
  [.submit (.registerOperator exampleWallet 0 [] 6), .submit (.stakeOperator exampleWallet 100),
    .submit (.slashOperator exampleAuthority 2 0 1), .submit (.pauseOperator exampleWallet),
    .submit (.unstakeOperator exampleWallet 100)]

/-- The state after the first `n` steps of `exampleRun`. -/
def exampleState (n : Nat) : Chain State :=
  exec (step exampleDeployment) exampleGenesis (exampleRun.take n)

/-- The run breaks the law: the unstake succeeds after the severe slash. -/
theorem exampleRun_not_lifecycle : ¬Lifecycle exampleDeployment exampleGenesis exampleRun := by
  rintro ⟨-, hgain⟩
  refine hgain 2 (trace (step exampleDeployment) exampleGenesis (exampleRun.take 2))
    (event (step exampleDeployment) (exampleState 2) (.submit (.slashOperator exampleAuthority 2 0 1)))
    (trace (step exampleDeployment) (exampleState 3) (exampleRun.drop 3)) rfl ?_
    (event (step exampleDeployment) (exampleState 4) (.submit (.unstakeOperator exampleWallet 100)))
    (List.mem_cons_of_mem _ List.mem_cons_self) ?_
  · exact ⟨exampleAuthority, 0, 1, rfl, by decide, by decide⟩
  · exact ⟨_, rfl, .unstake exampleWallet rfl 100, by decide⟩

end Ddns.Operators
