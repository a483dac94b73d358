import Ddns.MinerScore.Ledger

/-!
# Penalties and payments

A penalty cuts the reward that is assigned at the time; an assignment after it starts anew, since
the rewards are computed off-chain from scores that have been cut already. So a payment is bounded
by the last assignment and the penalties since (`penalty_law`), and not by the penalties before it
(`exampleRun_forgets`). Each miner is paid once for an epoch, and no more than the cap.
-/

namespace Ddns.MinerScore

open Tx Runs Shares

/-- All penalties of the rulings. -/
def penalties (rs : List Ruling) : List Nat :=
  rs.filterMap fun
    | .penalty p => some p
    | .assign _ => none

/-- The penalties since the last assignment. -/
def penaltiesSince (rs : List Ruling) : List Nat := ((standing rs).map Prod.snd).getD []

/-- The last assignment. -/
def lastReward (rs : List Ruling) : Option Nat := (standing rs).map Prod.fst

/-- Every payment of the run is at most the last reward assigned before it, times the kept part of
each of the penalties that `which` picks from the rulings before it. -/
def PenaltyBound (which : List Ruling → List Nat) (run : List Step) : Prop :=
  ∀ l₁ x l₂ p, run = l₁ ++ x :: l₂ → paymentOf x = some p →
    ∃ r, lastReward (rulings p.epochId p.miner l₁) = some r ∧
      p.amount * bpsDenom ^ (which (rulings p.epochId p.miner l₁)).length ≤
        r * ((which (rulings p.epochId p.miner l₁)).map (bpsDenom - ·)).prod

/-- Every miner is paid at most once for an epoch, and at most the cap. -/
structure PaidOnce (cfg : MinerScoreConfig) (run : List Step) : Prop where
  once : ((payments run).map fun p => (p.epochId, p.miner)).Nodup
  cap : ∀ p ∈ payments run, p.amount ≤ cfg.perMinerEpochCap.toNat

/-- What is due is bounded by the last assignment and the penalties since. -/
theorem due_mul_le {rs : List Ruling} (hpos : 0 < due rs) :
    ∃ r, lastReward rs = some r ∧
      due rs * bpsDenom ^ (penaltiesSince rs).length ≤
        r * ((penaltiesSince rs).map (bpsDenom - ·)).prod := by
  cases hs : standing rs with
  | none =>
    rw [due_of_none hs] at hpos
    exact absurd hpos (Nat.lt_irrefl 0)
  | some a =>
    have hsince : penaltiesSince rs = a.2 := by rw [penaltiesSince, hs]; rfl
    refine ⟨a.1, by rw [lastReward, hs]; rfl, ?_⟩
    rw [due_of_standing hs, hsince]
    exact cut_mul_le bpsDenom a.1 a.2

/-- **Penalties and payments.** In every run of the program, whatever the submitters rule in
whatever order, a payment is at most the last reward assigned to the miner for the epoch, cut by
every penalty since; each miner is paid at most once for an epoch, and at most the cap. -/
theorem penalty_law (dep : Deployment) (config : MinerScoreConfig) (tokens : Tokens) (clock : Clock)
    (is : List (Action Instr)) :
    let run := trace (step dep) ⟨clock, State.genesis dep config tokens⟩ is
    PenaltyBound penaltiesSince run ∧ PaidOnce config run := by
  intro run
  refine ⟨fun l₁ x l₂ p hsplit hp => ?_, payments_once dep config tokens clock is,
    fun p hp => ((recorded_run dep config tokens clock is).paid p hp).cap⟩
  obtain ⟨pre, a, post, -, rfl, rfl, -⟩ := trace_split hsplit
  obtain ⟨hdue, hpos, -⟩ := payment_event (recorded_run dep config tokens clock pre) hp
  rw [hdue] at hpos ⊢
  exact due_mul_le hpos

/-! ## A penalty that is forgotten -/

/-- An allowlisted submitter. -/
def exampleSubmitter : Signer := ⟨1, one_ne_default⟩

/-- An allowlisted miner. -/
def exampleMiner : Signer := ⟨2, two_ne_default⟩

/-- A deployment whose vault authority and vault are the keys 3 and 4. -/
def exampleDeployment : Deployment := ⟨fun _ => 0, fun k => k ≠ 3, 3, 4, (rfl : false = false)⟩

/-- One submitter and one miner, who may earn 1000 tokens in an epoch of 100 slots. -/
def exampleParams : ConfigParams where
  epochLenSlots := 100
  baseRewardPerEpoch := 1000
  perMinerEpochCap := 1000
  minMinerStakeWeight := 1
  allowlistedSubmitters := [1]
  allowlistedMiners := [2]
  alphaCorrectnessBps := 4000
  alphaDiversityBps := 2000
  alphaTimelinessBps := 2000
  alphaUptimeBps := 2000
  centralizationPenaltyBps := 5000
  dominanceThresholdBps := 6000
  diversityTarget := 10
  namesProgram := 9
  requirePremiumForSellable := false

/-- A fresh deployment, with 5000 tokens of the funder 5 to fill the vault from. -/
def exampleGenesis : Chain State where
  clock := ⟨0, 0⟩
  accounts := State.genesis exampleDeployment ⟨exampleParams, 6, 7, 4, rfl⟩
    (fun a => if a = 10 then some ⟨7, 5, 5000⟩ else if a = 11 then some ⟨7, 2, 0⟩ else none)

/-- A report of the miner with the best scores. -/
def exampleReport : Report := ⟨1, 1, 10, 1, 0, 0, 10000, 10000, 0⟩

/-- The accounts of the miner's claim. -/
def exampleClaim : ClaimMinerReward := ⟨exampleMiner, 4, 11, 9, ⟨0, []⟩⟩

/-- The vault is filled, the miner is reported and the epoch 0 finalized with the planned rewards;
then a penalty of one half, a reward of 1000, and the claim. -/
def exampleRun (planned : UInt64) : List (Action Instr) :=
  [.submit (.splTransfer ⟨5, five_ne_default⟩ 10 4 5000),
    .submit (.reportMinerEpochStats exampleSubmitter 0 2 exampleReport),
    .submit (.finalizeEpoch exampleSubmitter 0 0 0 planned 1 0),
    .submit (.penalizeMiner exampleSubmitter 0 2 5000 0),
    .submit (.setMinerReward exampleSubmitter 0 2 0 1000),
    .submit (.claimMinerReward exampleClaim 0)]

/-- The miner is paid 1000 tokens, the last reward without the penalty before it. -/
theorem exampleRun_forgets :
    ¬PenaltyBound penalties (trace (step exampleDeployment) exampleGenesis (exampleRun 1000)) := by
  intro hbound
  obtain ⟨r, hr, hle⟩ := hbound
    (trace (step exampleDeployment) exampleGenesis ((exampleRun 1000).take 5)) _ [] ⟨0, 2, 1000⟩
    (trace_append exampleGenesis ((exampleRun 1000).take 5) ((exampleRun 1000).drop 5)) (by decide)
  have hlast : lastReward (rulings 0 2 (trace (step exampleDeployment) exampleGenesis
      ((exampleRun 1000).take 5))) = some 1000 := by decide
  have hpenalties : penalties (rulings 0 2 (trace (step exampleDeployment) exampleGenesis
      ((exampleRun 1000).take 5))) = [5000] := by decide
  obtain rfl : 1000 = r := Option.some.inj (hlast.symm.trans hr)
  rw [hpenalties] at hle
  exact absurd hle (by decide)

end Ddns.MinerScore

/-!
## What an epoch pays

The planned rewards of an epoch are an audit field: no instruction reads them, and an epoch
finalized with none planned still pays (`exampleRun_unplanned`). What bounds an epoch is the cap of
each miner: only different allowlisted miners are paid, and only in a finalized epoch
(`epoch_budget`).
-/

namespace Ddns.MinerScore

open Tx Runs

/-- The payments of an epoch. -/
def epochPayments (e : UInt64) (run : List Step) : List Payment :=
  (payments run).filter (·.epochId = e)

/-- What an epoch has paid. -/
def epochPaid (e : UInt64) (run : List Step) : Nat :=
  ((epochPayments e run).map Payment.amount).sum

/-- Whom an epoch has paid. -/
def epochMiners (e : UInt64) (run : List Step) : List Pubkey :=
  (epochPayments e run).map Payment.miner

/-- An epoch pays no more than the totals plan that it was finalized with. -/
def WithinPlan (st : State) (run : List Step) : Prop :=
  ∀ e t, st.epochTotals e = some t → t.finalized = true →
    epochPaid e run ≤ t.totalRewardsPlanned.toNat

/-- An epoch pays different allowlisted miners, each at most the cap, and only once it is
finalized. -/
structure WithinCaps (cfg : MinerScoreConfig) (st : State) (run : List Step) (e : UInt64) : Prop where
  different : (epochMiners e run).Nodup
  allowlisted : epochMiners e run ⊆ cfg.allowlistedMiners
  paid_le : epochPaid e run ≤ (epochMiners e run).length * cfg.perMinerEpochCap.toNat
  finalized : 0 < epochPaid e run → ∃ t, st.epochTotals e = some t ∧ t.finalized = true

section Budget

variable {cfg : MinerScoreConfig} {st : State} {run : List Step} {e : UInt64}

theorem mem_epochPayments {p : Payment} :
    p ∈ epochPayments e run ↔ p ∈ payments run ∧ p.epochId = e := by
  unfold epochPayments
  rw [List.mem_filter, decide_eq_true_eq]

/-- Amounts of at most `n` each. -/
theorem sum_amount_le {ps : List Payment} {n : Nat} (h : ∀ p ∈ ps, p.amount ≤ n) :
    (ps.map Payment.amount).sum ≤ (ps.map Payment.miner).length * n := by
  induction ps with
  | nil => exact Nat.zero_le _
  | cons p ps ih =>
    have hp : p.amount ≤ n := h p List.mem_cons_self
    have hps := ih fun q hq => h q (List.mem_cons_of_mem p hq)
    rw [List.map_cons, List.map_cons, List.sum_cons, List.length_cons, Nat.succ_mul]
    omega

/-- In one epoch, different payments are to different miners. -/
theorem epochMiners_nodup
    (h : ((payments run).map fun p => (p.epochId, p.miner)).Nodup) : (epochMiners e run).Nodup := by
  have hkeys : ((epochPayments e run).map fun p => (p.epochId, p.miner)).Nodup :=
    h.sublist (List.filter_sublist.map _)
  refine List.Nodup.map_on (fun p hp q hq hminer => ?_) hkeys.of_map
  have he : p.epochId = q.epochId :=
    (mem_epochPayments.1 hp).2.trans (mem_epochPayments.1 hq).2.symm
  exact List.inj_on_of_nodup_map hkeys hp hq (Prod.ext he hminer)

/-- The caps of an epoch, from the ledger. -/
theorem Recorded.withinCaps (h : Recorded cfg st run)
    (honce : ((payments run).map fun p => (p.epochId, p.miner)).Nodup) (e : UInt64) :
    WithinCaps cfg st run e := by
  have hbacked : ∀ p ∈ epochPayments e run, Backed cfg st p :=
    fun p hp => h.paid p (mem_epochPayments.1 hp).1
  refine ⟨epochMiners_nodup honce, fun m hm => ?_, sum_amount_le fun p hp => (hbacked p hp).cap,
    fun hpos => ?_⟩
  · obtain ⟨p, hp, rfl⟩ := List.mem_map.1 hm
    exact (hbacked p hp).member
  · cases hps : epochPayments e run with
    | nil =>
      rw [epochPaid, hps] at hpos
      exact absurd hpos (Nat.lt_irrefl 0)
    | cons p ps =>
      have hp : p ∈ epochPayments e run := hps ▸ List.mem_cons_self
      rw [← (mem_epochPayments.1 hp).2]
      exact (hbacked p hp).totals

/-- The allowlist bounds what an epoch pays. -/
theorem WithinCaps.paid_le_allowlist (h : WithinCaps cfg st run e) :
    epochPaid e run ≤ cfg.allowlistedMiners.length * cfg.perMinerEpochCap.toNat := by
  have hlength := (List.subperm_of_subset h.different h.allowlisted).length_le
  exact Nat.le_trans h.paid_le (Nat.mul_le_mul_right _ hlength)

end Budget

/-- **The budget of an epoch.** In every run of the program and for every epoch, the total of the
payments is at most the cap times the number of miners paid, who are different and allowlisted, and
nothing is paid before the epoch is finalized. -/
theorem epoch_budget (dep : Deployment) (config : MinerScoreConfig) (tokens : Tokens) (clock : Clock)
    (is : List (Action Instr)) (e : UInt64) :
    let start : Chain State := ⟨clock, State.genesis dep config tokens⟩
    let run := trace (step dep) start is
    WithinCaps config (exec (step dep) start is).accounts run e ∧
      epochPaid e run ≤ config.allowlistedMiners.length * config.perMinerEpochCap.toNat := by
  intro start run
  have hcaps : WithinCaps config (exec (step dep) start is).accounts run e :=
    (recorded_run dep config tokens clock is).withinCaps (payments_once dep config tokens clock is) e
  exact ⟨hcaps, hcaps.paid_le_allowlist⟩

/-- The epoch 0 is finalized with no rewards planned, and pays 1000 tokens. -/
theorem exampleRun_unplanned :
    ¬WithinPlan (exec (step exampleDeployment) exampleGenesis (exampleRun 0)).accounts
      (trace (step exampleDeployment) exampleGenesis (exampleRun 0)) := by
  intro hplan
  have hle := hplan 0 ⟨0, 0, 0, 0, 1, 0, true⟩ (by decide) rfl
  exact absurd hle (by decide)

end Ddns.MinerScore
