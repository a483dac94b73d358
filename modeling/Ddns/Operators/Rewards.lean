import Ddns.Operators.Lifecycle

/-!
# Rewards

An operator claims the reward of an epoch's metrics once. The reward is a sum that `claimOperatorRewards`
builds in 128 bits, narrows to 64 and caps. `rewards_iff` says when the capped sum of the unbounded
integers is paid: where the narrowing loses nothing that the cap would keep, and the uptime score is
not so large that its bonus exceeds the bonus for a full score.
-/

namespace Ddns.Operators

open Tx Runs

/-- The bonus for the uptime, over the integers. -/
def uptimeBonus (cfg : OperatorsConfig) (m : EpochMetrics) : Nat :=
  m.uptimeScore * cfg.uptimeBonusPer10k / 10000

/-- The bonus for the latency, over the integers. -/
def latencyBonus (cfg : OperatorsConfig) (m : EpochMetrics) : Nat :=
  if 0 < cfg.latencyBonus ∧ 0 < m.latencyMsP50 ∧ m.latencyMsP50 ≤ cfg.latencyBonusThresholdMs then
    cfg.latencyBonus
  else 0

/-- What metrics have earned, over the integers. -/
def earned (cfg : OperatorsConfig) (m : EpochMetrics) : Nat :=
  m.paidQueryCount * cfg.rewardPerPaidQuery + m.receiptCount * cfg.rewardPerVerifiedReceipt +
    uptimeBonus cfg m + latencyBonus cfg m

/-- The operator and the epoch whose reward a step pays. -/
def claimOf (e : Step) : Option (Pubkey × Nat) :=
  match e.input, e.out with
  | .submit (.claimOperatorRewards s _ _ epochId), some (.ok _) => some (s.key, epochId)
  | _, _ => none

/-- A claim that succeeds on the metrics `m`. -/
structure Claims (e : Step) (s : Signer) (vault ata : Pubkey) (epochId : Nat) (m : EpochMetrics) :
    Prop where
  input : e.input = .submit (.claimOperatorRewards s vault ata epochId)
  out : e.out = some (.ok ())
  metrics : e.pre.accounts.metrics epochId s.key = some m

/-- The amount `n` goes from the treasury to the operator, and is recorded as the reward. -/
structure Pays (dep : Deployment) (e : Step) (s : Signer) (vault ata : Pubkey) (epochId n : Nat) :
    Prop where
  transfer : (e.pre.accounts.tokens.transfer vault ata dep.treasuryAuthority n :
    Result OperatorsError _) = .ok e.post.accounts.tokens
  recorded : (e.post.accounts.metrics epochId s.key).map EpochMetrics.rewardedAmount = some n

/-- Every claim pays what was earned, up to the cap and with a bounded bonus, and an operator is paid
once for an epoch. -/
structure RewardLaw (dep : Deployment) (l : List Step) : Prop where
  exact : ∀ e ∈ l, ∀ s vault ata epochId m, Claims e s vault ata epochId m →
    Pays dep e s vault ata epochId
      (min (earned e.pre.accounts.config m) e.pre.accounts.config.maxRewardsPerEpoch) ∧
    uptimeBonus e.pre.accounts.config m ≤ e.pre.accounts.config.uptimeBonusPer10k
  once : (l.filterMap claimOf).Nodup

/-- The reward of metrics fits, or is capped all the same; and the uptime score is not out of scale. -/
structure InScale (cfg : OperatorsConfig) (m : EpochMetrics) : Prop where
  reward : earned cfg m < 2 ^ 64 ∨ cfg.maxRewardsPerEpoch ≤ earned cfg m % 2 ^ 64
  uptime : m.uptimeScore * cfg.uptimeBonusPer10k < 10000 * (cfg.uptimeBonusPer10k + 1)

section Claims

variable {dep : Deployment} {clock : Clock} {cfg : OperatorsConfig} {m : EpochMetrics} {e : Step}
  {s : Signer} {vault ata : Pubkey} {epochId n : Nat}

theorem rawReward_eq (h : rawReward cfg m = .ok n) : n = earned cfg m := by
  simp only [rawReward, bind_eq_ok, okOr_eq_ok, Checked.mul_eq_some, Checked.add_eq_some] at h
  obtain ⟨q, ⟨-, rfl⟩, r, ⟨-, rfl⟩, t, ⟨-, rfl⟩, u, ⟨-, rfl⟩, v, ⟨-, rfl⟩, h⟩ := h
  unfold earned uptimeBonus latencyBonus
  split at h
  · next hl =>
    rw [if_pos hl]
    obtain ⟨-, hn⟩ := Checked.add_eq_some.1 (okOr_eq_ok.1 h)
    exact hn.symm
  · next hl =>
    rw [if_neg hl]
    cases h
    rfl

/-- The narrowed reward and the reward have the same cap. -/
theorem min_cast_eq_iff {r k : Nat} :
    min (Checked.cast 64 r) k = min r k ↔ r < 2 ^ 64 ∨ k ≤ r % 2 ^ 64 := by
  have hle : r % 2 ^ 64 ≤ r := Nat.mod_le ..
  have hmod : r % 2 ^ 64 < 2 ^ 64 := Nat.mod_lt _ (by decide)
  unfold Checked.cast
  constructor
  · intro h
    by_cases hr : r < 2 ^ 64
    · exact .inl hr
    · exact .inr (by omega)
  · rintro (hr | hk)
    · rw [Nat.mod_eq_of_lt hr]
    · omega

theorem uptimeBonus_le_iff : uptimeBonus cfg m ≤ cfg.uptimeBonusPer10k ↔
    m.uptimeScore * cfg.uptimeBonusPer10k < 10000 * (cfg.uptimeBonusPer10k + 1) := by
  unfold uptimeBonus
  omega

theorem Pays.unique {n' : Nat} (h : Pays dep e s vault ata epochId n)
    (h' : Pays dep e s vault ata epochId n') : n = n' :=
  Option.some.inj (h.recorded.symm.trans h'.recorded)

end Claims

section Steps

variable {dep : Deployment} {clock : Clock} {st st' : State} {i : Instr} {c : Chain State}
  {a : Action Instr} {l : List Step} {e : Step} {w : Pubkey} {epochId : Nat}

/-- `w` has been paid for the epoch. -/
def State.Paid (st : State) (w : Pubkey) (epochId : Nat) : Prop :=
  ∃ m, st.metrics epochId w = some m ∧ 0 < m.rewardedAmount

theorem setMetrics_self (st : State) (e : Nat) (k : Pubkey) (m : EpochMetrics) :
    (st.setMetrics e k m).metrics e k = some m := by
  simp [State.setMetrics]

/-- Metrics that keep the reward keep what is paid. -/
theorem State.Paid.setMetrics (h : st.Paid w epochId) {e : Nat} {k : Pubkey} {m : EpochMetrics}
    (hm : ∀ m', st.metrics e k = some m' → 0 < m'.rewardedAmount → 0 < m.rewardedAmount) :
    (st.setMetrics e k m).Paid w epochId := by
  obtain ⟨m', hm', hpos⟩ := h
  by_cases he : epochId = e
  · subst he
    by_cases hk : w = k
    · subst hk
      exact ⟨m, setMetrics_self .., hm m' hm' hpos⟩
    · exact ⟨m', by simpa [State.setMetrics, hk] using hm', hpos⟩
  · exact ⟨m', by simpa [State.setMetrics, he] using hm', hpos⟩

/-- What is paid stays paid: new metrics keep the reward of the old ones. -/
theorem Effect.paid (he : Effect dep clock st i st') (h : st.Paid w epochId) :
    st'.Paid w epochId := by
  cases he with
  | submitEpochMetrics =>
    have hcharged : State.Paid { st with lamports := _ } w epochId := h
    refine hcharged.setMetrics fun m' hm' hpos => ?_
    rw [show st.metrics _ _ = some m' from hm']
    exact hpos
  | @claimOperatorRewards s vault ata e op m reward tokens hop hw hm hactive hunpaid hreward hpos =>
    have hcredited : State.Paid { st with tokens } w epochId := h
    exact hcredited.setMetrics fun _ _ _ => hpos
  | _ => exact h

/-- A claim pays the narrowed reward, up to the cap. -/
theorem claims_pays {s : Signer} {vault ata : Pubkey} {m : EpochMetrics}
    (h : Claims (event (step dep) c a) s vault ata epochId m) :
    Pays dep (event (step dep) c a) s vault ata epochId
      (min (Checked.cast 64 (earned c.accounts.config m)) c.accounts.config.maxRewardsPerEpoch) := by
  obtain ⟨hinput, hout, hmetrics⟩ := h
  cases hinput
  obtain ⟨st', hok, hpost⟩ := handle_of_out hout
  cases handle_effect hok with
  | @claimOperatorRewards _ _ _ _ op m' reward tokens hop hw hm hactive hunpaid hreward hpos htransfer =>
    cases hmetrics.symm.trans hm
    rw [← rawReward_eq hreward]
    constructor
    · rw [event_post, hpost]
      exact htransfer
    · rw [event_post, hpost]
      exact congrArg (Option.map _) (setMetrics_self ..)

theorem paid_in_full_iff {s : Signer} {vault ata : Pubkey} {m : EpochMetrics}
    (h : Claims (event (step dep) c a) s vault ata epochId m) :
    Pays dep (event (step dep) c a) s vault ata epochId
        (min (earned c.accounts.config m) c.accounts.config.maxRewardsPerEpoch) ∧
      uptimeBonus c.accounts.config m ≤ c.accounts.config.uptimeBonusPer10k ↔
    InScale c.accounts.config m := by
  have hpays := claims_pays h
  rw [uptimeBonus_le_iff]
  constructor
  · rintro ⟨hexact, huptime⟩
    exact ⟨min_cast_eq_iff.1 (hpays.unique hexact), huptime⟩
  · rintro ⟨hreward, huptime⟩
    rw [← min_cast_eq_iff.2 hreward]
    exact ⟨hpays, huptime⟩

/-- What a step pays for. -/
inductive ClaimStep (e : Step) : Prop
  | other (hclaim : claimOf e = none)
    (hkeep : ∀ w n, e.pre.accounts.Paid w n → e.post.accounts.Paid w n)
  | claim (w : Pubkey) (n : Nat) (hclaim : claimOf e = some (w, n))
    (hunpaid : ¬e.pre.accounts.Paid w n) (hpaid : e.post.accounts.Paid w n)
    (hkeep : ∀ w n, e.pre.accounts.Paid w n → e.post.accounts.Paid w n)

theorem claimOf_error {c c' : Chain State} {i : Instr} {err : Failure OperatorsError} :
    claimOf ⟨c, .submit i, some (.error err), c'⟩ = none := by
  cases i <;> rfl

theorem claimStep (dep : Deployment) (c : Chain State) (a : Action Instr) :
    ClaimStep (event (step dep) c a) := by
  unfold event
  rcases chainStep_cases (process dep) c a with
    ⟨k, ts, rfl, hs⟩ | ⟨i, st', n, rfl, hok, hs⟩ | ⟨i, err, rfl, -, hs⟩
  · rw [step, hs]
    exact .other rfl fun _ _ h => h
  · rw [step, hs]
    have he := handle_effect (process_eq_ok.1 hok)
    have hkeep : ∀ w n, c.accounts.Paid w n → st'.Paid w n := fun _ _ => he.paid
    cases he with
    | @claimOperatorRewards s vault ata e op m reward tokens hop hw hm hactive hunpaid hreward hpos =>
      refine .claim s.key e rfl ?_ ⟨_, setMetrics_self .., hpos⟩ hkeep
      rintro ⟨m', hm', hpos'⟩
      cases hm.symm.trans hm'
      exact Nat.lt_irrefl 0 (hunpaid ▸ hpos')
    | _ => exact .other rfl hkeep
  · rw [step, hs]
    exact .other claimOf_error fun _ _ h => h

/-- What was claimed was claimed once and is paid. -/
structure Claimed (c : Chain State) (l : List Step) : Prop where
  once : (l.filterMap claimOf).Nodup
  paid : ∀ x ∈ l.filterMap claimOf, c.accounts.Paid x.1 x.2

theorem ClaimStep.keepsClaimed (hs : ClaimStep e) (h : Claimed e.pre l) :
    Claimed e.post (l ++ [e]) := by
  cases hs with
  | other hclaim hkeep =>
    constructor <;> rw [filterMap_concat_none hclaim]
    · exact h.once
    · exact fun x hx => hkeep x.1 x.2 (h.paid x hx)
  | claim w n hclaim hunpaid hpaid hkeep =>
    constructor <;> rw [filterMap_concat_some hclaim]
    · refine List.nodup_append.2 ⟨h.once, List.nodup_singleton _, ?_⟩
      rintro x hx y hy rfl
      cases List.mem_singleton.1 hy
      exact hunpaid (h.paid _ hx)
    · refine List.forall_mem_append.2 ⟨fun x hx => hkeep x.1 x.2 (h.paid x hx), ?_⟩
      exact List.forall_mem_singleton.2 hpaid

end Steps

/-- Whatever a step claims is in scale. -/
def Scaled (dep : Deployment) (c : Chain State) (a : Action Instr) : Prop :=
  ∀ s vault ata epochId m, Claims (event (step dep) c a) s vault ata epochId m →
    InScale c.accounts.config m

/-- **Rewards.** In every run the claims pay exactly what was earned, up to the cap and with a bounded
bonus, and once for an operator and an epoch, exactly if all that is claimed is in scale. -/
theorem rewards_iff (dep : Deployment) (config : OperatorsConfig) (lamports : Holder → Nat)
    (tokens : Tokens) (clock : Clock) (is : List (Action Instr)) :
    RewardLaw dep (trace (step dep) ⟨clock, State.genesis config lamports tokens⟩ is) ↔
      Each (step dep) (Scaled dep) ⟨clock, State.genesis config lamports tokens⟩ is := by
  have honce : Claimed _ (trace (step dep) ⟨clock, State.genesis config lamports tokens⟩ is) :=
    history_of_step (J := Claimed) (fun c l a h => (claimStep dep c a).keepsClaimed h)
      ⟨List.nodup_nil, nofun⟩ is
  rw [each_iff_mem_trace]
  constructor
  · rintro ⟨hexact, -⟩ e he s vault ata epochId m hclaims
    have hlaw := hexact e he s vault ata epochId m
    obtain ⟨pre, a, post, -, rfl⟩ := mem_trace he
    exact (paid_in_full_iff hclaims).1 (hlaw hclaims)
  · refine fun h => ⟨fun e he s vault ata epochId m hclaims => ?_, honce.once⟩
    have hscaled := h e he
    obtain ⟨pre, a, post, -, rfl⟩ := mem_trace he
    exact (paid_in_full_iff hclaims).2 (hscaled s vault ata epochId m hclaims)

/-! ## A reward that wraps -/

/-- A query is worth a token, and the treasury and the operator have token accounts. -/
def rewardGenesis : Chain State where
  clock := ⟨0, 0⟩
  accounts := State.genesis exampleGenesis.accounts.config
    (fun h => if h = .wallet 1 ∨ h = .wallet 2 then 10 ^ 9 else 0)
    fun k => if k = 5 then some ⟨4, 3, 1000⟩ else if k = 6 then some ⟨4, 2, 0⟩ else none

/-- The metrics of the operator earn one token more than 64 bits hold. -/
def wrapRun : List (Action Instr) :=
  [.submit (.registerOperator exampleWallet 0 [] 6), .submit (.stakeOperator exampleWallet 100),
    .submit (.submitEpochMetrics exampleAuthority 2 0 (2 ^ 64 - 1) 2 0 0 0),
    .submit (.claimOperatorRewards exampleWallet 5 6 0)]

/-- One token is paid, where the cap is a thousand. -/
theorem wrapRun_not_rewardLaw :
    ¬RewardLaw exampleDeployment (trace (step exampleDeployment) rewardGenesis wrapRun) := by
  intro h
  obtain ⟨hpays, -⟩ := h.exact (event (step exampleDeployment)
    (exec (step exampleDeployment) rewardGenesis (wrapRun.take 3))
    (.submit (.claimOperatorRewards exampleWallet 5 6 0)))
    (event_mem_trace (wrapRun.take 3) [] rfl) exampleWallet 5 6 0
    ⟨0, 2, 2 ^ 64 - 1, 2, 0, 0, 0, 1, 0, 0, 0⟩ ⟨rfl, by decide, by decide⟩
  exact absurd hpays.recorded (by decide)

end Ddns.Operators
