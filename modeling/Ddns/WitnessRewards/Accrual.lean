import Ddns.WitnessRewards.Replay

/-!
# The reward of a batch

The reward of a batch is meant to be `rewardable * reward_per_receipt`, raised by a diversity bonus
of at most 20% and bounded by what the epoch has left. The program narrows twice on the way: the sum
behind the bonus is cast to `u16` before it is bounded, and the product to `u64` before it meets the
budget. So 6554 unique names earn less than 6553 do. `accrual_iff` says when the casts do not show.
-/

namespace Ddns.WitnessRewards

open Tx Runs

/-! ## Arithmetic without casts -/

/-- The sum behind the bonus: 0.1% for a unique name and 1% for a colo. -/
def diversity (names colos : Nat) : Nat := 10 * names + 100 * colos

/-- The reward of `base = rewardable * reward_per_receipt` with a bonus in basis points. -/
def rewardAt (base bonus : Nat) : Nat := base * (10000 + bonus) / bpsDenom

/-- The bonus over unbounded integers. -/
def fullBonus (names colos : Nat) : Nat := min maxDiversityBonusBps (diversity names colos)

/-- The bonus that the low 16 bits of the saturated sum give. -/
def lowBonus (names colos : Nat) : Nat :=
  min maxDiversityBonusBps (min (diversity names colos) (2 ^ 32 - 1) % 2 ^ 16)

/-- The casts do not show for a batch whose epoch has `left` tokens: the low bits of its reward
still cover what is left, or the reward is one that neither cast changes. -/
def CastsHarmless (base names colos left : Nat) : Prop :=
  left ≤ rewardAt base (lowBonus names colos) % 2 ^ 64 ∨
    rewardAt base (lowBonus names colos) = rewardAt base (fullBonus names colos) ∧
      rewardAt base (fullBonus names colos) < 2 ^ 64

theorem rewardAt_mono {base base' bonus bonus' : Nat} (hbase : base ≤ base')
    (hbonus : bonus ≤ bonus') : rewardAt base bonus ≤ rewardAt base' bonus' :=
  Nat.div_le_div_right (Nat.mul_le_mul hbase (Nat.add_le_add_left hbonus _))

theorem fullBonus_mono {names names' colos colos' : Nat} (hnames : names ≤ names')
    (hcolos : colos ≤ colos') : fullBonus names colos ≤ fullBonus names' colos' := by
  unfold fullBonus diversity
  omega

theorem lowBonus_le (names colos : Nat) : lowBonus names colos ≤ fullBonus names colos := by
  unfold lowBonus fullBonus
  omega

/-- The low bits of a reward never pay more than the full reward. -/
theorem low_le_full (base names colos left : Nat) :
    min (rewardAt base (lowBonus names colos) % 2 ^ 64) left ≤
      min left (rewardAt base (fullBonus names colos)) := by
  have hlow := rewardAt_mono (le_refl base) (lowBonus_le names colos)
  have hmod := Nat.mod_le (rewardAt base (lowBonus names colos)) (2 ^ 64)
  omega

/-- The low bits pay the full reward exactly if the casts do not show. -/
theorem low_eq_full_iff (base names colos left : Nat) :
    min (rewardAt base (lowBonus names colos) % 2 ^ 64) left =
        min left (rewardAt base (fullBonus names colos)) ↔
      CastsHarmless base names colos left := by
  have hlow := rewardAt_mono (le_refl base) (lowBonus_le names colos)
  unfold CastsHarmless
  generalize rewardAt base (lowBonus names colos) = low at *
  generalize rewardAt base (fullBonus names colos) = full at *
  have hmod := Nat.mod_le low (2 ^ 64)
  constructor
  · intro heq
    by_cases hleft : left ≤ low % 2 ^ 64
    · exact .inl hleft
    · right
      omega
  · rintro (hleft | ⟨rfl, hlt⟩)
    · omega
    · rw [Nat.mod_eq_of_lt hlt, Nat.min_comm]

/-- Within the width of the casts they change nothing. -/
theorem castsHarmless_of_lt {base names colos : Nat} (left : Nat)
    (hsum : diversity names colos < 2 ^ 16)
    (hreward : rewardAt base (fullBonus names colos) < 2 ^ 64) :
    CastsHarmless base names colos left := by
  have hbonus : lowBonus names colos = fullBonus names colos := by
    unfold lowBonus fullBonus
    omega
  exact .inr ⟨by rw [hbonus], hreward⟩

/-! ## What the program computes -/

theorem computeDiversityBonusBps_eq (names colos : Nat) :
    computeDiversityBonusBps names colos = lowBonus names colos := by
  have hsum : Checked.satAdd 32 (Checked.satMul 32 names 10) (Checked.satMul 32 colos 100) =
      min (diversity names colos) (2 ^ 32 - 1) := by
    unfold Checked.satAdd Checked.satMul diversity
    omega
  simp only [computeDiversityBonusBps, hsum]
  exact Nat.min_comm ..

/-- The receipts of a batch that are within the cap of the miner. -/
def State.rewardable (st : State) (e : Nat) (m : Pubkey) (count : Nat) : Nat :=
  min count (st.config.maxRewardableReceiptsPerMinerPerEpoch -
    Totals.weight EpochMinerStats.rewardableReceipts (st.stats e m))

/-- The rewardable receipts of a batch times the reward of one. -/
def State.base (st : State) (e : Nat) (m : Pubkey) (count : Nat) : Nat :=
  st.rewardable e m count * st.config.rewardPerReceipt

/-- What the epoch has left to accrue. -/
def State.left (st : State) (e : Nat) : Nat := st.config.maxRewardPerEpoch - st.accrued e

section Steps

variable {dep : Deployment} {clock : Clock} {st st' : State} {s : Signer} {e : Nat} {root : Hash}
  {count names colos : Nat}

theorem batchReward_eq {cfg : WitnessRewardsConfig} {n bonus delta : Nat}
    (h : batchReward cfg n bonus = .ok delta) :
    delta = rewardAt (n * cfg.rewardPerReceipt) bonus % 2 ^ 64 := by
  simp only [batchReward, bind_eq_ok, okOr_eq_ok, Checked.add_eq_some, Checked.mul_eq_some,
    pure_eq_ok] at h
  obtain ⟨_, ⟨-, rfl⟩, _, ⟨-, rfl⟩, _, ⟨-, rfl⟩, rfl⟩ := h
  rfl

/-- What an accepted batch adds, in terms of the accounts before it. -/
theorem submitReceiptBatch_delta {ev : BatchSubmitted}
    (h : submitReceiptBatch clock st s e root count names colos = .ok (st', ev)) :
    ev.deltaReward = min (rewardAt (st.base e s.key count) (lowBonus names colos) % 2 ^ 64)
        (st.left e) ∧
      st'.accrued e = Checked.satAdd 64 (st.accrued e) ev.deltaReward ∧
      Totals.weight EpochMinerStats.earnedReward (st'.stats e s.key) =
        Checked.satAdd 64 (Totals.weight EpochMinerStats.earnedReward (st.stats e s.key))
          ev.deltaReward := by
  simp only [submitReceiptBatch, bind_eq_ok, require_eq_ok, exists_unit, pure_eq_ok,
    Prod.mk.injEq] at h
  obtain ⟨bond, -, -, -, -, -, x, hx, delta, hdelta, w, hw, rfl, rfl⟩ := h
  obtain ⟨-, -, hearned, hrewardable⟩ := openStats_ok hx
  obtain ⟨-, haccrued⟩ := openEpoch_ok hw
  rw [Totals.weight_getD EpochMinerStats.earnedReward _ rfl] at hearned
  rw [Totals.weight_getD EpochMinerStats.rewardableReceipts _ rfl] at hrewardable
  rw [Totals.weight_getD EpochState.totalAccruedRewards _ rfl] at haccrued
  rw [computeDiversityBonusBps_eq, hrewardable] at hdelta
  refine ⟨?_, ?_, ?_⟩
  · show min delta (st.config.maxRewardPerEpoch - w.totalAccruedRewards) = _
    rw [haccrued, batchReward_eq hdelta]
    rfl
  · simp only [State.accrued, State.setEpochState, Function.update_self, Totals.weight_some]
    rw [haccrued]
  · rw [setEpochState_stats, setStats_self, Totals.weight_some, ← hearned]

/-- **The accrual law** of an accepted batch: what it reports and what the accounts of its miner
and its epoch gain is the reward over unbounded integers, within the budget. -/
structure Accrues (st st' : State) (s : Signer) (e count names colos : Nat)
    (ev : BatchSubmitted) : Prop where
  reported : ev.deltaReward = min (st.left e) (rewardAt (st.base e s.key count)
    (fullBonus names colos))
  epoch : st'.accrued e = st.accrued e + min (st.left e) (rewardAt (st.base e s.key count)
    (fullBonus names colos))
  miner : Totals.weight EpochMinerStats.earnedReward (st'.stats e s.key) =
    Totals.weight EpochMinerStats.earnedReward (st.stats e s.key) +
      min (st.left e) (rewardAt (st.base e s.key count) (fullBonus names colos))

/-- **Step lemma**: within the budget law a batch accrues by the law exactly if the casts do not
show. -/
theorem batch_accrues_iff {ev : BatchSubmitted} (hb : Budget st)
    (h : submitReceiptBatch clock st s e root count names colos = .ok (st', ev)) :
    Accrues st st' s e count names colos ev ↔
      CastsHarmless (st.base e s.key count) names colos (st.left e) := by
  obtain ⟨hdelta, hepoch, hminer⟩ := submitReceiptBatch_delta h
  rw [← low_eq_full_iff, ← hdelta]
  constructor
  · exact fun hlaw => hlaw.reported
  · intro heq
    have hmax := st.config.maxReward_lt
    have hwithin := hb.within e
    have hearned := (earned_le_total st e s.key).trans_eq (hb.total e)
    have hle : ev.deltaReward ≤ st.config.maxRewardPerEpoch - st.accrued e :=
      hdelta ▸ Nat.min_le_right ..
    refine ⟨heq, ?_, ?_⟩
    · rw [hepoch, ← heq]
      unfold Checked.satAdd
      omega
    · rw [hminer, ← heq]
      unfold Checked.satAdd
      omega

/-- Whether a batch is accepted does not depend on its diversity. -/
theorem submitReceiptBatch_any {r : State × BatchSubmitted}
    (h : submitReceiptBatch clock st s e root count names colos = .ok r) (names' colos' : Nat) :
    ∃ r', submitReceiptBatch clock st s e root count names' colos' = .ok r' := by
  simp only [submitReceiptBatch, bind_eq_ok, require_eq_ok, exists_unit, pure_eq_ok] at h ⊢
  obtain ⟨bond, hbond, henabled, hcount, hepoch, hmin, x, hx, delta, -, w, hw, -⟩ := h
  obtain ⟨delta', hdelta'⟩ := batchReward_isOk st.config
    (n := min count (st.config.maxRewardableReceiptsPerMinerPerEpoch - x.rewardableReceipts))
    (by omega) names' colos'
  exact ⟨_, bond, hbond, henabled, hcount, hepoch, hmin, x, hx, delta', hdelta', w, hw, rfl⟩

/-- More diversity in the same batch does not lower its reward, where the casts do not show. -/
theorem submitReceiptBatch_mono {ev : BatchSubmitted}
    (h : submitReceiptBatch clock st s e root count names colos = .ok (st', ev))
    {names' colos' : Nat} (hnames : names ≤ names') (hcolos : colos ≤ colos')
    (hcasts : CastsHarmless (st.base e s.key count) names' colos' (st.left e)) :
    ∃ r', submitReceiptBatch clock st s e root count names' colos' = .ok r' ∧
      ev.deltaReward ≤ r'.2.deltaReward := by
  obtain ⟨⟨st'', ev'⟩, h'⟩ := submitReceiptBatch_any h names' colos'
  refine ⟨_, h', ?_⟩
  have hfull := rewardAt_mono (le_refl (st.base e s.key count)) (fullBonus_mono hnames hcolos)
  have hle := low_le_full (st.base e s.key count) names colos (st.left e)
  show ev.deltaReward ≤ ev'.deltaReward
  rw [(submitReceiptBatch_delta h).1, (submitReceiptBatch_delta h').1, low_eq_full_iff _ _ _ _ |>.2 hcasts]
  omega

end Steps

/-! ## Every run -/

/-- **When a batch accrues what it should.** In every run, an accepted batch accrues the lesser of
what the epoch has left and the floored reward over unbounded integers if and only if the casts do
not show; and the same batch with more unique names or colos, where the casts do not show for these,
would not have earned less. -/
theorem accrual_iff (dep : Deployment) (config : WitnessRewardsConfig) (lamports : Holder → Nat)
    (tokens : Tokens) (clock : Clock) (is : List (Action Instr)) (x : Step)
    (hx : x ∈ trace (step dep) ⟨clock, State.genesis config lamports tokens⟩ is)
    (s : Signer) (e : Nat) (root : Hash) (count names colos : Nat) (ev : BatchSubmitted)
    (hin : x.input = .submit (.submitReceiptBatch s e root count names colos))
    (hout : x.out = some (.ok (some (.batchSubmitted ev)))) :
    (Accrues x.pre.accounts x.post.accounts s e count names colos ev ↔
      CastsHarmless (x.pre.accounts.base e s.key count) names colos (x.pre.accounts.left e)) ∧
    ∀ names' colos', names ≤ names' → colos ≤ colos' →
      CastsHarmless (x.pre.accounts.base e s.key count) names' colos' (x.pre.accounts.left e) →
      ∃ r', submitReceiptBatch x.pre.clock x.pre.accounts s e root count names' colos' = .ok r' ∧
        ev.deltaReward ≤ r'.2.deltaReward := by
  obtain ⟨pre, a, post, his, rfl⟩ := mem_trace hx
  simp only [event_input, event_out, event_pre, event_post] at hin hout ⊢
  subst hin
  have hb := (always_iff_initial (P := fun c : Chain State => Budget c.accounts)).1
    (run_budget dep config lamports tokens clock is) pre _ his
  obtain ⟨st', hok, hpost⟩ := chainStep_out hout
  obtain ⟨⟨st'', ev'⟩, hsubmit, heq⟩ := map_eq_ok.1 hok
  obtain ⟨rfl, hev⟩ := Prod.mk.inj heq
  obtain rfl : ev' = ev := Emitted.batchSubmitted.inj (Option.some.inj hev)
  rw [hpost]
  exact ⟨batch_accrues_iff hb hsubmit, fun _ _ hnames hcolos => submitReceiptBatch_mono hsubmit hnames
    hcolos⟩

/-! ## A name too many -/

/-- A batch of ten receipts with `names` unique names. -/
def bonusBatch (names : Nat) : Action Instr :=
  .submit (.submitReceiptBatch exampleMiner 0 7 10 names 0)

/-- A bond and the batch. -/
def bonusRun (names : Nat) : List (Action Instr) :=
  [.submit (.depositBond exampleMiner 100), bonusBatch names]

/-- The accounts before the batch. -/
def bonded : Chain State :=
  exec (step exampleDeployment) exampleGenesis [.submit (.depositBond exampleMiner 100)]

/-- The answer to the batch. -/
def bonusAnswer (names : Nat) : Option BatchSubmitted :=
  match submitReceiptBatch bonded.clock bonded.accounts exampleMiner 0 7 10 names 0 with
  | .ok r => some r.2
  | .error _ => none

/-- The step that submits the batch. -/
def bonusStep (names : Nat) : Step := event (step exampleDeployment) bonded (bonusBatch names)

theorem bonusStep_out {names : Nat} {ev : BatchSubmitted} (h : bonusAnswer names = some ev) :
    (bonusStep names).out = some (.ok (some (.batchSubmitted ev))) := by
  unfold bonusAnswer at h
  split at h
  · next r hr =>
    rw [Option.some.injEq] at h
    subst h
    exact congrArg Event.out (event_ok (process_submit hr))
  · cases h

theorem bonusStep_mem (names : Nat) :
    bonusStep names ∈ trace (step exampleDeployment) exampleGenesis (bonusRun names) :=
  event_mem_trace [Action.submit (Instr.depositBond exampleMiner 100)] [] rfl

/-- The batch with 6553 unique names accrues what it should. -/
theorem bonusStep_accrues :
    Accrues bonded.accounts (bonusStep 6553).post.accounts exampleMiner 0 10 6553 0
      ⟨0, 1, 7, 10, 10, 60, 2000⟩ :=
  (accrual_iff exampleDeployment _ _ _ _ (bonusRun 6553) (bonusStep 6553) (bonusStep_mem 6553)
    exampleMiner 0 7 10 6553 0 ⟨0, 1, 7, 10, 10, 60, 2000⟩ rfl (bonusStep_out (by decide +kernel))).1.2
    (castsHarmless_of_lt _ (by decide +kernel) (by decide +kernel))

/-- With 6553 unique names ten receipts earn 60 tokens, with 6554 only 50. -/
theorem bonusRun_not_accrues :
    (bonusAnswer 6553).map BatchSubmitted.deltaReward = some 60 ∧
    (bonusAnswer 6554).map BatchSubmitted.deltaReward = some 50 ∧
    ¬∀ x ∈ trace (step exampleDeployment) exampleGenesis (bonusRun 6554), ∀ ev,
      x.input = .submit (.submitReceiptBatch exampleMiner 0 7 10 6554 0) →
      x.out = some (.ok (some (.batchSubmitted ev))) →
      Accrues x.pre.accounts x.post.accounts exampleMiner 0 10 6554 0 ev := by
  refine ⟨by decide +kernel, by decide +kernel, fun hlaw => ?_⟩
  have hlow := hlaw _ (bonusStep_mem 6554) ⟨0, 1, 7, 10, 10, 50, 4⟩ rfl
    (bonusStep_out (by decide +kernel))
  exact absurd hlow.reported (by decide +kernel)

end Ddns.WitnessRewards
