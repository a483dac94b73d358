import Ddns.WitnessRewards.Program
import Ddns.Lib.Balances
import Ddns.Lib.Updates
import Ddns.Lib.Run

/-!
# The budget of an epoch

A batch adds one amount to the statistics of its miner and to the account of its epoch, and the
amount fits what is left of the budget. So the rewards of the miners always add up to what the
epoch accrued, and no saturating addition saturates (`batch_budget`). A claim marks the statistics
of a miner, and nothing changes them after that (`rewards_budget`).
-/

namespace Ddns.WitnessRewards

open Tx Runs

/-- What an epoch has accrued. -/
def State.accrued (st : State) (e : Nat) : Nat :=
  Totals.weight EpochState.totalAccruedRewards (st.epochState e)

/-- What the miners of an epoch have earned. -/
noncomputable def State.earned (st : State) (e : Nat) : Nat :=
  Totals.total EpochMinerStats.earnedReward (st.stats e)

/-- The accounts are those of their seeds. -/
structure Addressed (st : State) : Prop where
  stats : ∀ e m s, st.stats e m = some s → s.miner = m ∧ s.epochId = e
  epochState : ∀ e es, st.epochState e = some es → es.epochId = e

/-- **The budget law**: the rewards of the miners add up to what their epoch accrued, within its
budget, and every miner stays within its cap. -/
structure Budget (st : State) : Prop where
  total : ∀ e, st.earned e = st.accrued e
  within : ∀ e, st.accrued e ≤ st.config.maxRewardPerEpoch
  cap : ∀ e m s, st.stats e m = some s →
    s.rewardableReceipts ≤ st.config.maxRewardableReceiptsPerMinerPerEpoch

section Steps

variable {dep : Deployment} {clock : Clock} {st st' : State} {s : Signer} {e : Nat} {root : Hash}
  {m : Pubkey}

@[simp] theorem setStats_self (x : EpochMinerStats) : (st.setStats e m x).stats e m = some x :=
  Updates.update₂_self ..

theorem setStats_ne {e' : Nat} {m' : Pubkey} (x : EpochMinerStats) (hne : ¬(e = e' ∧ m = m')) :
    (st.setStats e' m' x).stats e m = st.stats e m :=
  Updates.update₂_ne _ hne

@[simp] theorem setEpochState_stats (es : EpochState) :
    (st.setEpochState e es).stats = st.stats := rfl

@[simp] theorem ownBond_eq_ok {b : MinerBond} :
    ownBond st s = .ok b ↔ st.bond s.key = some b ∧ b.miner = s.key := by
  simp only [ownBond, bind_eq_ok, load_eq_ok, require_eq_ok, exists_unit, pure_eq_ok]
  constructor
  · rintro ⟨b', hb, hm, rfl⟩
    exact ⟨hb, hm⟩
  · rintro ⟨hb, hm⟩
    exact ⟨b, hb, hm, rfl⟩

/-- The statistics that a submission starts from. -/
theorem openStats_ok {x y : EpochMinerStats} (h : openStats x m e root = .ok y) :
    y.miner = m ∧ y.epochId = e ∧ y.earnedReward = x.earnedReward ∧
      y.rewardableReceipts = x.rewardableReceipts := by
  unfold openStats at h
  split at h
  · rw [← pure_eq_ok.1 h]
    exact ⟨rfl, rfl, rfl, rfl⟩
  · simp only [bind_eq_ok, require_eq_ok, exists_unit, pure_eq_ok] at h
    obtain ⟨hm, he, -, -, rfl⟩ := h
    exact ⟨hm, he, rfl, rfl⟩

/-- Statistics that belong to a miner are open to it only before the claim, and only for another
root than the last one. -/
theorem openStats_of_miner {x y : EpochMinerStats} (h : openStats x m e root = .ok y)
    (hx : x.miner ≠ Pubkey.default) : x.lastReceiptsRoot ≠ root ∧ x.claimed = false := by
  unfold openStats at h
  rw [if_neg hx] at h
  simp only [bind_eq_ok, require_eq_ok, exists_unit, pure_eq_ok] at h
  exact ⟨h.2.2.1, h.2.2.2.1⟩

theorem openEpoch_ok {x y : EpochState} (h : openEpoch x e = .ok y) :
    y.epochId = e ∧ y.totalAccruedRewards = x.totalAccruedRewards := by
  unfold openEpoch at h
  split at h
  · rw [← pure_eq_ok.1 h]
    exact ⟨rfl, rfl⟩
  · simp only [bind_eq_ok, require_eq_ok, exists_unit, pure_eq_ok] at h
    obtain ⟨he, rfl⟩ := h
    exact ⟨he, rfl⟩

/-- What a batch that is accepted writes: statistics `y` of the miner and an account `z` of the
epoch, both larger by `delta`. -/
structure Accepted (st st' : State) (m : Pubkey) (e : Nat) (root : Hash) (y : EpochMinerStats)
    (z : EpochState) (delta : Nat) : Prop where
  post : st' = (st.setStats e m y).setEpochState e z
  opens : ∃ old, openStats ((st.stats e m).getD EpochMinerStats.zero) m e root = .ok old
  miner : y.miner = m
  statsEpoch : y.epochId = e
  root : y.lastReceiptsRoot = root
  stateEpoch : z.epochId = e
  delta_le : delta ≤ st.config.maxRewardPerEpoch - st.accrued e
  earned : y.earnedReward =
    Checked.satAdd 64 (Totals.weight EpochMinerStats.earnedReward (st.stats e m)) delta
  accrued : z.totalAccruedRewards = Checked.satAdd 64 (st.accrued e) delta
  rewardable : ∃ n, n ≤ st.config.maxRewardableReceiptsPerMinerPerEpoch -
      Totals.weight EpochMinerStats.rewardableReceipts (st.stats e m) ∧
    y.rewardableReceipts = Checked.satAdd 32
      (Totals.weight EpochMinerStats.rewardableReceipts (st.stats e m)) n

theorem submitReceiptBatch_ok {count names colos : Nat} {ev : BatchSubmitted}
    (h : submitReceiptBatch clock st s e root count names colos = .ok (st', ev)) :
    ∃ y z delta, Accepted st st' s.key e root y z delta := by
  simp only [submitReceiptBatch, bind_eq_ok, require_eq_ok, exists_unit, pure_eq_ok,
    Prod.mk.injEq] at h
  obtain ⟨bond, -, -, -, -, -, x, hx, delta, -, w, hw, rfl, -⟩ := h
  obtain ⟨hminer, hepoch, hearned, hrewardable⟩ := openStats_ok hx
  obtain ⟨hstate, haccrued⟩ := openEpoch_ok hw
  rw [Totals.weight_getD EpochMinerStats.earnedReward _ rfl] at hearned
  rw [Totals.weight_getD EpochMinerStats.rewardableReceipts _ rfl] at hrewardable
  rw [Totals.weight_getD EpochState.totalAccruedRewards _ rfl] at haccrued
  refine ⟨_, _, min delta (st.config.maxRewardPerEpoch - st.accrued e), rfl, ⟨x, hx⟩, hminer,
    hepoch, rfl, hstate, Nat.min_le_right .., ?_, ?_, ?_⟩
  · rw [← hearned]
    show Checked.satAdd 64 x.earnedReward _ = _
    rw [haccrued]
    rfl
  · show Checked.satAdd 64 w.totalAccruedRewards _ = _
    rw [haccrued]
    rfl
  · refine ⟨_, ?_, by rw [← hrewardable]⟩
    rw [← hrewardable]
    exact Nat.min_le_right ..

theorem earned_le_total (st : State) (e : Nat) (m : Pubkey) :
    Totals.weight EpochMinerStats.earnedReward (st.stats e m) ≤ st.earned e :=
  Totals.weight_le_total _ _ _

/-- **Step lemma**: a batch that is accepted keeps the budget law. -/
theorem batch_budget {y : EpochMinerStats} {z : EpochState} {delta : Nat} (hb : Budget st)
    (h : Accepted st st' m e root y z delta) : Budget st' := by
  have hmax := st.config.maxReward_lt
  have hcap := st.config.maxReceipts_lt
  have htotal := hb.total e
  have hwithin := hb.within e
  have hle := earned_le_total st e m
  have hdelta := h.delta_le
  have hearned : y.earnedReward =
      Totals.weight EpochMinerStats.earnedReward (st.stats e m) + delta := by
    rw [h.earned]
    unfold Checked.satAdd
    omega
  have haccrued : z.totalAccruedRewards = st.accrued e + delta := by
    rw [h.accrued]
    unfold Checked.satAdd
    omega
  obtain ⟨n, hn, hrewardable⟩ := h.rewardable
  rw [h.post]
  refine ⟨fun f => ?_, fun f => ?_, fun f k s hs => ?_⟩
  · by_cases hf : f = e
    · subst hf
      have hupdate := Totals.total_update EpochMinerStats.earnedReward (st.stats f) m (some y)
      rw [Totals.weight_some] at hupdate
      have hold : Totals.total EpochMinerStats.earnedReward (st.stats f) = st.earned f := rfl
      simp only [State.earned, State.accrued, State.setStats, State.setEpochState,
        Function.update_self, Totals.weight_some]
      omega
    · simp only [State.earned, State.accrued, State.setStats, State.setEpochState,
        Function.update_of_ne hf]
      exact hb.total f
  · by_cases hf : f = e
    · subst hf
      simp only [State.accrued, State.setStats, State.setEpochState, Function.update_self,
        Totals.weight_some]
      omega
    · simp only [State.accrued, State.setStats, State.setEpochState, Function.update_of_ne hf]
      exact hb.within f
  · rw [setEpochState_stats] at hs
    by_cases hkey : f = e ∧ k = m
    · obtain ⟨rfl, rfl⟩ := hkey
      rw [setStats_self, Option.some.injEq] at hs
      subst hs
      show y.rewardableReceipts ≤ st.config.maxRewardableReceiptsPerMinerPerEpoch
      have hold : Totals.weight EpochMinerStats.rewardableReceipts (st.stats f k) ≤
          st.config.maxRewardableReceiptsPerMinerPerEpoch := by
        cases hs : st.stats f k with
        | none => exact Nat.zero_le _
        | some x => exact hb.cap f k x hs
      rw [hrewardable]
      unfold Checked.satAdd
      omega
    · rw [setStats_ne y hkey] at hs
      exact hb.cap f k s hs

/-! ## What each instruction does -/

/-- The limits of two configs are the same. -/
structure SameLimits (c c' : WitnessRewardsConfig) : Prop where
  max : c'.maxRewardPerEpoch = c.maxRewardPerEpoch
  cap : c'.maxRewardableReceiptsPerMinerPerEpoch = c.maxRewardableReceiptsPerMinerPerEpoch

/-- The effect of an instruction on the statistics: a batch, a claim, or none. -/
inductive Effect (st st' : State) : Instr → Option Emitted → Prop where
  | batch (s : Signer) (e : Nat) (root : Hash) (count names colos : Nat) (ev : BatchSubmitted)
      (y : EpochMinerStats) (z : EpochState) (delta : Nat)
      (h : Accepted st st' s.key e root y z delta) :
      Effect st st' (.submitReceiptBatch s e root count names colos) (some (.batchSubmitted ev))
  | claim (s : Signer) (vault ata : Pubkey) (e : Nat) (old : EpochMinerStats) (tokens : Tokens)
      (hold : st.stats e s.key = some old) (hminer : old.miner = s.key)
      (hunclaimed : old.claimed = false)
      (hpost : st' = { st with tokens }.setStats e s.key { old with claimed := true }) :
      Effect st st' (.claimRewards s vault ata e)
        (some (.rewardsClaimed ⟨e, s.key, old.earnedReward⟩))
  | other (i : Instr) (hstats : st'.stats = st.stats) (hepoch : st'.epochState = st.epochState)
      (hlimits : SameLimits st.config st'.config) : Effect st st' i none

variable {i : Instr} {ev : Option Emitted}

theorem process_effect (h : process dep clock st i = .ok (st', ev)) : Effect st st' i ev := by
  cases i with
  | setEnabled s b =>
    simp only [process, setEnabled, bind_eq_ok, require_eq_ok, exists_unit, pure_eq_ok, map_eq_ok,
      Prod.mk.injEq] at h
    obtain ⟨x, ⟨-, rfl⟩, rfl, rfl⟩ := h
    exact .other _ rfl rfl ⟨rfl, rfl⟩
  | fundRewardVault s src vault auth n =>
    simp only [process, fundRewardVault, bind_eq_ok, require_eq_ok, exists_unit, pure_eq_ok,
      map_eq_ok, Prod.mk.injEq] at h
    obtain ⟨x, ⟨-, -, -, -, tokens, -, rfl⟩, rfl, rfl⟩ := h
    exact .other _ rfl rfl ⟨rfl, rfl⟩
  | depositBond s n =>
    simp only [process, depositBond, bind_eq_ok, require_eq_ok, exists_unit, pure_eq_ok, map_eq_ok,
      Prod.mk.injEq] at h
    obtain ⟨x, ⟨opened, -, -, moved, -, bonded, -, rfl⟩, rfl, rfl⟩ := h
    exact .other _ rfl rfl ⟨rfl, rfl⟩
  | withdrawBond s n =>
    simp only [process, withdrawBond, bind_eq_ok, require_eq_ok, exists_unit, pure_eq_ok, map_eq_ok,
      Prod.mk.injEq] at h
    obtain ⟨x, ⟨bond, -, -, -, -, -, moved, -, bonded, -, rfl⟩, rfl, rfl⟩ := h
    exact .other _ rfl rfl ⟨rfl, rfl⟩
  | submitReceiptBatch s e root count names colos =>
    simp only [process, map_eq_ok, Prod.mk.injEq, Prod.exists] at h
    obtain ⟨x, b, hok, rfl, rfl⟩ := h
    obtain ⟨y, z, delta, hacc⟩ := submitReceiptBatch_ok hok
    exact .batch s e root count names colos b y z delta hacc
  | claimRewards s vault ata e =>
    simp only [process, claimRewards, bind_eq_ok, load_eq_ok, require_eq_ok, exists_unit,
      pure_eq_ok, map_eq_ok, Prod.mk.injEq, Prod.exists] at h
    obtain ⟨x, r, ⟨-, old, hold, -, hminer, hunclaimed, -, -, -, tokens, -, rfl, rfl⟩, rfl, rfl⟩ := h
    exact .claim s vault ata e old tokens hold hminer hunclaimed rfl

/-- The addresses stay right. -/
theorem Effect.addressed (h : Effect st st' i ev) (ha : Addressed st) : Addressed st' := by
  cases h with
  | batch s e root count names colos ev y z delta h =>
    rw [h.post]
    refine ⟨fun f k x hx => ?_, fun f es hes => ?_⟩
    · rw [setEpochState_stats] at hx
      rcases Updates.update₂_eq_some hx with ⟨⟨rfl, rfl⟩, rfl⟩ | ⟨-, hold⟩
      · exact ⟨h.miner, h.statsEpoch⟩
      · exact ha.stats f k x hold
    · rcases Updates.update_eq_some hes with ⟨rfl, rfl⟩ | ⟨-, hold⟩
      · exact h.stateEpoch
      · exact ha.epochState f es hold
  | claim s vault ata e old tokens hold hminer hunclaimed hpost =>
    rw [hpost]
    refine ⟨fun f k x hx => ?_, ha.epochState⟩
    by_cases hkey : f = e ∧ k = s.key
    · obtain ⟨rfl, rfl⟩ := hkey
      rw [setStats_self, Option.some.injEq] at hx
      rw [← hx]
      exact ha.stats f s.key old hold
    · rw [setStats_ne _ hkey] at hx
      exact ha.stats f k x hx
  | other i hstats hepoch =>
    refine ⟨fun f k x hx => ?_, fun f es hes => ?_⟩
    · rw [hstats] at hx
      exact ha.stats f k x hx
    · rw [hepoch] at hes
      exact ha.epochState f es hes

/-- The budget law stays. -/
theorem Effect.budget (h : Effect st st' i ev) (hb : Budget st) : Budget st' := by
  cases h with
  | batch s e root count names colos ev y z delta h => exact batch_budget hb h
  | claim s vault ata e old tokens hold hminer hunclaimed hpost =>
    rw [hpost]
    refine ⟨fun f => ?_, hb.within, fun f k x hx => ?_⟩
    · by_cases hf : f = e
      · subst hf
        have hupdate := Totals.total_update EpochMinerStats.earnedReward (st.stats f) s.key
          (some { old with claimed := true })
        have htotal := hb.total f
        rw [hold, Totals.weight_some, Totals.weight_some] at hupdate
        simp only [State.earned, State.setStats, Function.update_self]
        exact (Nat.add_right_cancel hupdate).trans htotal
      · simp only [State.earned, State.setStats, Function.update_of_ne hf]
        exact hb.total f
    · by_cases hkey : f = e ∧ k = s.key
      · obtain ⟨rfl, rfl⟩ := hkey
        rw [setStats_self, Option.some.injEq] at hx
        rw [← hx]
        exact hb.cap f s.key old hold
      · rw [setStats_ne _ hkey] at hx
        exact hb.cap f k x hx
  | other i hstats hepoch hlimits =>
    refine ⟨fun f => ?_, fun f => ?_, fun f k x hx => ?_⟩
    · unfold State.earned State.accrued
      rw [hstats, hepoch]
      exact hb.total f
    · unfold State.accrued
      rw [hepoch, hlimits.max]
      exact hb.within f
    · rw [hstats] at hx
      rw [hlimits.cap]
      exact hb.cap f k x hx

/-- Claimed statistics never change. -/
theorem Effect.claimed {x : EpochMinerStats} (h : Effect st st' i ev)
    (hx : st.stats e m = some x) (hclaimed : x.claimed = true) (hminer : x.miner ≠ Pubkey.default) :
    st'.stats e m = some x := by
  cases h with
  | batch s f root count names colos ev y z delta h =>
    rw [h.post, setEpochState_stats]
    have hkey : ¬(e = f ∧ m = s.key) := by
      rintro ⟨rfl, rfl⟩
      obtain ⟨old, hopens⟩ := h.opens
      rw [hx, Option.getD_some] at hopens
      rw [(openStats_of_miner hopens hminer).2] at hclaimed
      cases hclaimed
    rw [setStats_ne y hkey]
    exact hx
  | claim s vault ata f old tokens hold _ hunclaimed hpost =>
    have hkey : ¬(e = f ∧ m = s.key) := by
      rintro ⟨rfl, rfl⟩
      obtain rfl : x = old := Option.some.inj (hx.symm.trans hold)
      rw [hunclaimed] at hclaimed
      cases hclaimed
    rw [hpost, setStats_ne _ hkey]
    exact hx
  | other i hstats =>
    rw [hstats]
    exact hx

end Steps

/-! ## Every run -/

/-- A step of the program. -/
abbrev Step :=
  Event (Chain State) (Action Instr) (Option (Result WitnessRewardsError (Option Emitted)))

/-- The step pays the miner for the epoch. -/
def Step.Pays (x : Step) (e : Nat) (m : Pubkey) : Prop :=
  ∃ r, x.out = some (.ok (some (.rewardsClaimed ⟨e, m, r⟩)))

section Runs

variable {dep : Deployment} {c : Chain State} {is : List (Action Instr)} {x : Step} {e : Nat}
  {m : Pubkey}

theorem step_effect (hx : x ∈ trace (step dep) c is) {ev : Option Emitted}
    (hout : x.out = some (.ok ev)) :
    ∃ i, x.input = .submit i ∧ Effect x.pre.accounts x.post.accounts i ev := by
  obtain ⟨pre, a, post, -, rfl⟩ := mem_trace hx
  cases a with
  | elapse n ts => cases hout
  | submit i =>
    obtain ⟨st', hok, hpost⟩ := chainStep_out hout
    refine ⟨i, rfl, ?_⟩
    rw [event_post, hpost]
    exact process_effect hok

/-- What a step that pays finds and leaves. -/
theorem pays_claimed (hx : x ∈ trace (step dep) c is) (hp : x.Pays e m) :
    ∃ old, x.pre.accounts.stats e m = some old ∧ old.claimed = false ∧
      old.miner ≠ Pubkey.default ∧
      x.post.accounts.stats e m = some { old with claimed := true } := by
  obtain ⟨r, hout⟩ := hp
  obtain ⟨i, -, heffect⟩ := step_effect hx hout
  cases heffect with
  | claim s vault ata f old tokens hold hminer hunclaimed hpost =>
    refine ⟨old, hold, hunclaimed, ?_, ?_⟩
    · rw [hminer]
      exact s.ne_default
    · rw [hpost]
      exact setStats_self _

theorem step_claimed {y : EpochMinerStats} (hclaimed : y.claimed = true)
    (hminer : y.miner ≠ Pubkey.default) (c : Chain State) (a : Action Instr)
    (h : c.accounts.stats e m = some y) : (step dep c a).1.accounts.stats e m = some y :=
  accounts_invariant (P := fun st => st.stats e m = some y)
    (fun _ _ _ _ _ h hok => (process_effect hok).claimed h hclaimed hminer) c a h

end Runs

/-- **Run lemma**: the budget law holds in every state of a run. -/
theorem run_budget (dep : Deployment) (config : WitnessRewardsConfig) (lamports : Holder → Nat)
    (tokens : Tokens) (clock : Clock) (is : List (Action Instr)) :
    Always (step dep) (fun c => Budget c.accounts) ⟨clock, State.genesis config lamports tokens⟩
      is := by
  refine Always.of_step (P := fun c : Chain State => Budget c.accounts) (fun c a hb => ?_) ?_ is
  · exact accounts_invariant (fun _ _ _ _ _ hb hok => (process_effect hok).budget hb) c a hb
  · refine ⟨fun e => Totals.total_empty _, fun e => Nat.zero_le _, fun e m s hs => ?_⟩
    cases hs

/-- **The budget of an epoch.** In every state of a run the rewards of the miners of an epoch add up
to what the epoch accrued, within its budget, and every miner is within its cap. A miner is paid
for an epoch once, and nothing accrues to it for this epoch afterwards. -/
theorem rewards_budget (dep : Deployment) (config : WitnessRewardsConfig) (lamports : Holder → Nat)
    (tokens : Tokens) (clock : Clock) (is : List (Action Instr)) :
    let start : Chain State := ⟨clock, State.genesis config lamports tokens⟩
    Always (step dep) (fun c => Budget c.accounts) start is ∧
      ∀ e m l₁ (x : Step) l₂, trace (step dep) start is = l₁ ++ x :: l₂ → x.Pays e m →
        ∀ y ∈ l₂, ¬Step.Pays y e m ∧ y.pre.accounts.stats e m = x.post.accounts.stats e m ∧
          y.post.accounts.stats e m = x.post.accounts.stats e m := by
  intro start
  refine ⟨?_, ?_⟩
  · exact run_budget dep config lamports tokens clock is
  · intro e m l₁ x l₂ hsplit hpays y hy
    have hxrun : x ∈ trace (step dep) start is :=
      hsplit ▸ List.mem_append_right _ List.mem_cons_self
    have hyrun : y ∈ trace (step dep) start is :=
      hsplit ▸ List.mem_append_right _ (List.mem_cons_of_mem _ hy)
    obtain ⟨old, -, -, hminer, hpost⟩ := pays_claimed hxrun hpays
    have hstep (c : Chain State) (a : Action Instr)
        (h : c.accounts.stats e m = some { old with claimed := true }) :
        (step dep c a).1.accounts.stats e m = some { old with claimed := true } :=
      step_claimed (y := { old with claimed := true }) rfl hminer c a h
    have hpre : y.pre.accounts.stats e m = some { old with claimed := true } :=
      stays_after (P := fun c : Chain State => c.accounts.stats e m = _) hstep hsplit hpost hy
    refine ⟨fun hy' => ?_, hpre.trans hpost.symm, ?_⟩
    · obtain ⟨old', hold', hunclaimed, -⟩ := pays_claimed hyrun hy'
      rw [hpre, Option.some.injEq] at hold'
      rw [← hold'] at hunclaimed
      cases hunclaimed
    · obtain ⟨pre, a, post, -, rfl⟩ := mem_trace hyrun
      exact (hstep _ a hpre).trans hpost.symm

end Ddns.WitnessRewards
