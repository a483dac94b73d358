import Ddns.Operators.Program

/-!
# What each instruction of the operators program does

`Effect` relates the accounts before an instruction to the accounts after it, one constructor for
each instruction, with the checks that the laws about operators, stakes and rewards rest on.
`handle_effect` shows that an instruction that succeeds has one of these effects.
-/

namespace Ddns.Operators

open Tx

variable {dep : Deployment} {clock : Clock} {st st' : State} {i : Instr}

@[simp] theorem setOperator_operator (k : Pubkey) (op : Operator) :
    (st.setOperator k op).operator = Function.update st.operator k (some op) := rfl

@[simp] theorem ownOperator_eq_ok {s : Signer} {op : Operator} :
    ownOperator st s = .ok op ↔ st.operator s.key = some op ∧ op.operatorWallet = s.key := by
  simp only [ownOperator, bind_eq_ok, load_eq_ok, require_eq_ok, exists_unit, pure_eq_ok]
  constructor
  · rintro ⟨o, ho, hw, rfl⟩
    exact ⟨ho, hw⟩
  · rintro ⟨ho, hw⟩
    exact ⟨op, ho, hw, rfl⟩

/-- A new operator account: paused, without stake. -/
structure Operator.Fresh (op : Operator) (w : Pubkey) : Prop where
  wallet : op.operatorWallet = w
  paused : op.status = .paused
  stake : op.stakeAmountLamports = 0

/-- What an instruction that succeeds leaves behind. -/
inductive Effect (dep : Deployment) (clock : Clock) (st : State) : Instr → State → Prop
  | updateOperatorsConfig {a p} :
    Effect dep clock st (.updateOperatorsConfig a p)
      { st with config := { st.config with toConfigParams := p } }
  | registerOperator {s kind eps payout opened lamports op} (hnew : st.operator s.key = none)
    (hopen : Balances.move 64 st.lamports (.wallet s.key) (.operator s.key)
      (dep.rent operatorSpace - st.lamports (.operator s.key)) = some opened)
    (hempty : opened (.operatorVault s.key) = 0)
    (hmove : Balances.move 64 opened (.wallet s.key) (.operatorVault s.key) (dep.rent 0) =
      some lamports)
    (hfresh : op.Fresh s.key) :
    Effect dep clock st (.registerOperator s kind eps payout)
      ({ st with lamports }.setOperator s.key op)
  | updateEndpoints {s eps op} (hop : st.operator s.key = some op) (hw : op.operatorWallet = s.key)
    (hne : op.status ≠ .slashed) :
    Effect dep clock st (.updateEndpoints s eps) (st.setOperator s.key
      { op with endpointCount := eps.length, endpoints := endpointArray eps })
  | pauseOperator {s op} (hop : st.operator s.key = some op) (hw : op.operatorWallet = s.key) :
    Effect dep clock st (.pauseOperator s) (st.setOperator s.key { op with status := .paused })
  | resumeOperator {s op} (hop : st.operator s.key = some op) (hw : op.operatorWallet = s.key)
    (hmin : st.config.minOperatorStakeLamports ≤ op.stakeAmountLamports)
    (hne : op.status ≠ .slashed) :
    Effect dep clock st (.resumeOperator s) (st.setOperator s.key { op with status := .active })
  | stakeOperator {s n op lamports} (hop : st.operator s.key = some op)
    (hw : op.operatorWallet = s.key) (hn : 0 < n) (hne : op.status ≠ .slashed)
    (hmove : Balances.move 64 st.lamports (.wallet s.key) (.operatorVault s.key) n = some lamports)
    (hfit : op.stakeAmountLamports + n < 2 ^ 64) :
    Effect dep clock st (.stakeOperator s n) ({ st with lamports }.setOperator s.key
      { op with
        stakeAmountLamports := op.stakeAmountLamports + n
        status := if st.config.minOperatorStakeLamports ≤ op.stakeAmountLamports + n ∧
          op.status = OperatorStatus.paused then .active else op.status })
  | unstakeOperator {s n op lamports} (hop : st.operator s.key = some op)
    (hw : op.operatorWallet = s.key) (hn : 0 < n) (hne : op.status ≠ .slashed)
    (hle : n ≤ op.stakeAmountLamports)
    (hmove : Balances.move 64 st.lamports (.operatorVault s.key) (.wallet s.key) n = some lamports) :
    Effect dep clock st (.unstakeOperator s n) ({ st with lamports }.setOperator s.key
      { op with
        stakeAmountLamports := op.stakeAmountLamports - n
        status := if op.stakeAmountLamports - n < st.config.minOperatorStakeLamports then .paused
          else op.status })
  | fundTreasury {a src vault n tokens}
    (htransfer : (st.tokens.transfer src vault a.key n : Result OperatorsError _) = .ok tokens) :
    Effect dep clock st (.fundTreasury a src vault n) { st with tokens }
  | submitEpochMetrics {s o e q r u l root lamports}
    (hinit : initIfNeeded (st.metrics e o) st.lamports (.wallet s.key) (.metrics e o)
      (dep.rent metricsSpace) = .ok lamports) :
    Effect dep clock st (.submitEpochMetrics s o e q r u l root)
      ({ st with lamports }.setMetrics e o { (st.metrics e o).getD EpochMetrics.zero with
        epochId := e
        operatorWallet := o
        paidQueryCount := q
        receiptCount := r
        uptimeScore := u
        latencyMsP50 := l
        metricsRoot := root
        submittedBy := s.key
        submittedAtSlot := clock.slot })
  | claimOperatorRewards {s vault ata e op m reward tokens} (hop : st.operator s.key = some op)
    (hw : op.operatorWallet = s.key) (hm : st.metrics e s.key = some m)
    (hactive : op.status = .active) (hunpaid : m.rewardedAmount = 0)
    (hreward : rawReward st.config m = .ok reward)
    (hpos : 0 < min (Checked.cast 64 reward) st.config.maxRewardsPerEpoch)
    (htransfer : (st.tokens.transfer vault ata dep.treasuryAuthority
      (min (Checked.cast 64 reward) st.config.maxRewardsPerEpoch) : Result OperatorsError _) =
        .ok tokens) :
    Effect dep clock st (.claimOperatorRewards s vault ata e)
      (({ st with tokens }.setMetrics e s.key { m with
        rewardedAmount := min (Checked.cast 64 reward) st.config.maxRewardsPerEpoch
        rewardedAtSlot := clock.slot }).setOperator s.key { op with lastClaimedEpoch := e })
  | setDomainNsOperator {s n o en lamports d}
    (hinit : initIfNeeded (st.domainNs n) st.lamports (.wallet s.key) (.domainNs n)
      (dep.rent domainNsSpace) = .ok lamports) :
    Effect dep clock st (.setDomainNsOperator s n o en)
      { st with lamports, domainNs := Function.update st.domainNs n (some d) }
  | slashOperator {s o bps reason op lamports stake} (hop : st.operator o = some op)
    (hw : op.operatorWallet = o) (hbps : bps ≤ 10000) (hne : op.status ≠ .slashed)
    (hpay : payPenalty dep st o op.stakeAmountLamports
      (Checked.cast 64 (op.stakeAmountLamports * bps / 10000)) = .ok (lamports, stake)) :
    Effect dep clock st (.slashOperator s o bps reason) ({ st with lamports }.setOperator o
      { op with
        stakeAmountLamports := stake
        status := if 5000 ≤ bps ∨ reason ≠ 0 then .slashed else .paused })

/-- **What an instruction does** is one of the effects. -/
theorem handle_effect (h : handle dep clock st i = .ok st') : Effect dep clock st i st' := by
  cases i with
  | updateOperatorsConfig a p =>
    simp only [handle, updateOperatorsConfig, bind_pure_comp, bind_eq_ok, demand_eq_ok,
      require_eq_ok, map_eq_ok, exists_unit] at h
    obtain ⟨-, -, -, -, -, rfl⟩ := h
    exact .updateOperatorsConfig
  | registerOperator s kind eps payout =>
    simp only [handle, registerOperator, initAccount, bind_pure_comp, bind_eq_ok, vacant_eq_ok,
      require_eq_ok, map_eq_ok, transferLamports_eq_ok, exists_unit] at h
    obtain ⟨hnew, opened, hopen, -, hempty, lamports, hmove, rfl⟩ := h
    exact .registerOperator hnew hopen hempty hmove ⟨rfl, rfl, rfl⟩
  | updateEndpoints s eps =>
    simp only [handle, updateEndpoints, bind_pure_comp, bind_eq_ok, ownOperator_eq_ok,
      require_eq_ok, map_eq_ok, exists_unit] at h
    obtain ⟨op, ⟨hop, hw⟩, -, hne, rfl⟩ := h
    exact .updateEndpoints hop hw hne
  | pauseOperator s =>
    simp only [handle, pauseOperator, bind_pure_comp, map_eq_ok, ownOperator_eq_ok] at h
    obtain ⟨op, ⟨hop, hw⟩, rfl⟩ := h
    exact .pauseOperator hop hw
  | resumeOperator s =>
    simp only [handle, resumeOperator, bind_pure_comp, bind_eq_ok, ownOperator_eq_ok,
      require_eq_ok, map_eq_ok, exists_unit] at h
    obtain ⟨op, ⟨hop, hw⟩, hmin, hne, rfl⟩ := h
    exact .resumeOperator hop hw hmin hne
  | stakeOperator s n =>
    simp only [handle, stakeOperator, bind_pure_comp, bind_eq_ok, ownOperator_eq_ok,
      require_eq_ok, transferLamports_eq_ok, map_eq_ok, okOr_eq_ok, Checked.add_eq_some,
      exists_unit] at h
    obtain ⟨op, ⟨hop, hw⟩, hn, hne, lamports, hmove, stake, ⟨hfit, rfl⟩, rfl⟩ := h
    exact .stakeOperator hop hw hn hne hmove hfit
  | unstakeOperator s n =>
    simp only [handle, unstakeOperator, bind_pure_comp, bind_eq_ok, ownOperator_eq_ok,
      require_eq_ok, okOr_eq_ok, Checked.sub_eq_some, transferLamports_eq_ok, map_eq_ok,
      demand_eq_ok, exists_unit] at h
    obtain ⟨op, ⟨hop, hw⟩, hn, hne, hle, stake, ⟨-, rfl⟩, lamports, hmove, -, rfl⟩ := h
    exact .unstakeOperator hop hw hn hne hle hmove
  | fundTreasury a src vault n =>
    simp only [handle, fundTreasury, bind_pure_comp, bind_eq_ok, require_eq_ok, load_eq_ok,
      map_eq_ok, exists_unit] at h
    obtain ⟨-, -, -, _, -, -, -, _, -, -, -, tokens, htransfer, rfl⟩ := h
    exact .fundTreasury htransfer
  | submitEpochMetrics s o e q r u l root =>
    simp only [handle, submitEpochMetrics, bind_pure_comp, bind_eq_ok, load_eq_ok, demand_eq_ok,
      require_eq_ok, map_eq_ok, exists_unit] at h
    obtain ⟨op, -, rfl, lamports, hinit, -, -, _, -, -, -, rfl⟩ := h
    exact .submitEpochMetrics hinit
  | claimOperatorRewards s vault ata e =>
    simp only [handle, claimOperatorRewards, bind_pure_comp, bind_eq_ok, ownOperator_eq_ok,
      load_eq_ok, require_eq_ok, map_eq_ok, exists_unit] at h
    obtain ⟨op, ⟨hop, hw⟩, m, hm, -, hactive, -, -, hunpaid, reward, hreward, hpos, -, _, -, -, -, -,
      _, -, -, tokens, htransfer, rfl⟩ := h
    exact .claimOperatorRewards hop hw hm hactive hunpaid hreward hpos htransfer
  | setDomainNsOperator s n o en =>
    simp only [handle, setDomainNsOperator, bind_pure_comp, bind_eq_ok, map_eq_ok, require_eq_ok,
      exists_unit] at h
    obtain ⟨lamports, hinit, -, rfl⟩ := h
    exact .setDomainNsOperator hinit
  | slashOperator s o bps reason =>
    simp only [handle, slashOperator, bind_pure_comp, bind_eq_ok, load_eq_ok, demand_eq_ok,
      require_eq_ok, okOr_eq_ok, Checked.mul_eq_some, map_eq_ok, Prod.exists, exists_unit] at h
    obtain ⟨op, hop, hw, hbps, -, hne, _, ⟨-, rfl⟩, lamports, stake, hpay, rfl⟩ := h
    exact .slashOperator hop hw hbps hne hpay

end Ddns.Operators
