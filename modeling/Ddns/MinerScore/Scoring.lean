import Ddns.MinerScore.Penalties

/-!
# The score of a report

Four components in `0..10000` are weighted by basis points that sum to `10000`, the result is scaled
by the stake weight, and a share above the threshold of dominance is cut. The program computes all
of it in checked `u128` with narrowing casts; here it is the same over unbounded integers
(`scoresOf_eq`), so that bounds and monotonicity are facts about floored shares.
-/

namespace Ddns.MinerScore

open Tx Shares

/-! ## Components over unbounded integers -/

/-- How much of an epoch of `len` slots is left at the first submission. -/
def timeliness (len start first : Nat) : Nat := share len scoreDenom (len - (first - start))

/-- How much of the target the names are. -/
def diversity (target names : Nat) : Nat := min scoreDenom (share target names scoreDenom)

/-- The weighted sum of the four scores, in parts of `10000`. -/
def weighted (cfg : MinerScoreConfig) (c u d t : Nat) : Nat :=
  cfg.alphaCorrectnessBps.toNat * c + cfg.alphaUptimeBps.toNat * u +
    cfg.alphaDiversityBps.toNat * d + cfg.alphaTimelinessBps.toNat * t

/-- What the centralization penalty leaves of a score. -/
def keptOf (cfg : MinerScoreConfig) (dominance raw : Nat) : Nat :=
  if cfg.dominanceThresholdBps.toNat < dominance then
    share bpsDenom raw (bpsDenom - cfg.centralizationPenaltyBps.toNat)
  else raw

/-- The first slot of an epoch, as the program narrows it. -/
def startOf (cfg : MinerScoreConfig) (epochId : UInt64) : Nat :=
  Checked.cast 64 (epochId.toNat * cfg.epochLenSlots.toNat)

/-- The weighted component of a report. -/
def componentFor (cfg : MinerScoreConfig) (epochId : UInt64) (r : Report) : Nat :=
  weighted cfg r.correctnessScore.toNat r.uptimeScore.toNat
    (diversity cfg.diversityTarget.toNat r.uniqueNameCount.toNat)
    (timeliness cfg.epochLenSlots.toNat (startOf cfg epochId) r.firstSubmitSlot.toNat) / bpsDenom

/-- The scores of a report over unbounded integers. -/
def idealScores (cfg : MinerScoreConfig) (epochId : UInt64) (r : Report) : Scores where
  epochStartSlot := startOf cfg epochId
  epochEndSlot := Checked.satAdd 64 (startOf cfg epochId) cfg.epochLenSlots.toNat
  diversityComponent := diversity cfg.diversityTarget.toNat r.uniqueNameCount.toNat
  timelinessComponent :=
    timeliness cfg.epochLenSlots.toNat (startOf cfg epochId) r.firstSubmitSlot.toNat
  rawScore := keptOf cfg r.dominanceShareBps.toNat
    (r.stakeWeight.toNat * componentFor cfg epochId r)

section Bounds

variable {cfg : MinerScoreConfig} {c u d t c' u' d' t' : Nat}

theorem timeliness_le (len start first : Nat) : timeliness len start first ≤ scoreDenom :=
  share_le (Nat.sub_le ..)

/-- An earlier submission is no less timely. -/
theorem timeliness_anti {first first' : Nat} (len start : Nat) (h : first' ≤ first) :
    timeliness len start first ≤ timeliness len start first' :=
  share_mono (le_refl _) (by omega)

theorem diversity_le (target names : Nat) : diversity target names ≤ scoreDenom :=
  Nat.min_le_left ..

theorem diversity_mono {names names' : Nat} (target : Nat) (h : names ≤ names') :
    diversity target names ≤ diversity target names' := by
  have hshare := share_mono (d := target) h (le_refl scoreDenom)
  unfold diversity
  omega

/-- What `init_miner_score_config` has checked. -/
theorem MinerScoreConfig.admitted (cfg : MinerScoreConfig) :
    0 < cfg.epochLenSlots.toNat ∧ 0 < cfg.diversityTarget.toNat ∧
      cfg.alphaCorrectnessBps.toNat + cfg.alphaDiversityBps.toNat + cfg.alphaTimelinessBps.toNat +
        cfg.alphaUptimeBps.toNat = 10000 ∧
      cfg.centralizationPenaltyBps.toNat ≤ bpsDenom := by
  have hchecked := cfg.checked
  simp only [ConfigParams.check, bind_eq_ok, require_eq_ok, exists_unit] at hchecked
  obtain ⟨hlen, htarget, -, -, hsum, hpenalty, -⟩ := hchecked
  exact ⟨hlen, htarget, hsum, hpenalty⟩

theorem weighted_mono (hc : c ≤ c') (hu : u ≤ u') (hd : d ≤ d') (ht : t ≤ t') :
    weighted cfg c u d t ≤ weighted cfg c' u' d' t' := by
  unfold weighted
  gcongr

/-- The weights sum to `10000`, so a weighted sum of scores is within `10000 * 10000`. -/
theorem weighted_le (hc : c ≤ scoreDenom) (hu : u ≤ scoreDenom) (hd : d ≤ scoreDenom)
    (ht : t ≤ scoreDenom) : weighted cfg c u d t ≤ 10000 * scoreDenom := by
  obtain ⟨-, -, hsum, -⟩ := cfg.admitted
  calc weighted cfg c u d t
      ≤ weighted cfg scoreDenom scoreDenom scoreDenom scoreDenom := weighted_mono hc hu hd ht
    _ = (cfg.alphaCorrectnessBps.toNat + cfg.alphaDiversityBps.toNat +
          cfg.alphaTimelinessBps.toNat + cfg.alphaUptimeBps.toNat) * scoreDenom := by
        unfold weighted
        ring
    _ = 10000 * scoreDenom := by rw [hsum]

theorem keptOf_le (cfg : MinerScoreConfig) (dominance raw : Nat) :
    keptOf cfg dominance raw ≤ raw := by
  unfold keptOf
  split
  · exact share_le (Nat.sub_le ..)
  · exact le_refl raw

/-- More score, and less dominance, leave no less. -/
theorem keptOf_mono {dominance dominance' raw raw' : Nat} (hdominance : dominance' ≤ dominance)
    (hraw : raw ≤ raw') : keptOf cfg dominance raw ≤ keptOf cfg dominance' raw' := by
  by_cases hlow : cfg.dominanceThresholdBps.toNat < dominance'
  · have hhigh : cfg.dominanceThresholdBps.toNat < dominance := by omega
    unfold keptOf
    rw [if_pos hlow, if_pos hhigh]
    exact share_mono hraw (le_refl _)
  · calc keptOf cfg dominance raw ≤ raw := keptOf_le ..
      _ ≤ raw' := hraw
      _ = keptOf cfg dominance' raw' := by
        unfold keptOf
        rw [if_neg hlow]

end Bounds

/-! ## What the program computes -/

section Program

variable {cfg : MinerScoreConfig}

theorem timelinessOf_eq (cfg : MinerScoreConfig) (start first : Nat) :
    timelinessOf cfg start first = .ok (timeliness cfg.epochLenSlots.toNat start first) := by
  obtain ⟨hlen, -⟩ := cfg.admitted
  have hwidth := cfg.epochLenSlots.toNat_lt
  have hle := timeliness_le cfg.epochLenSlots.toNat start first
  have hwindow : max cfg.epochLenSlots.toNat 1 = cfg.epochLenSlots.toNat := by omega
  have hremaining : cfg.epochLenSlots.toNat -
      min (max first start - start) cfg.epochLenSlots.toNat =
        cfg.epochLenSlots.toNat - (first - start) := by omega
  unfold timeliness share at *
  unfold scoreDenom at *
  simp only [timelinessOf, hwindow, hremaining, bind_eq_ok, okOr_eq_ok, Checked.mul_eq_some,
    pure_eq_ok, scoreDenom]
  refine ⟨_, ⟨by omega, rfl⟩, ?_⟩
  rw [Nat.mul_comm _ 10000]
  exact Checked.cast_of_lt (by omega)

theorem diversityOf_eq (cfg : MinerScoreConfig) {names : Nat} (hnames : names < 2 ^ 32) :
    diversityOf cfg names = .ok (diversity cfg.diversityTarget.toNat names) := by
  have hle := diversity_le cfg.diversityTarget.toNat names
  unfold diversity share scoreDenom at *
  simp only [diversityOf, bind_eq_ok, okOr_eq_ok, Checked.mul_eq_some, pure_eq_ok, scoreDenom]
  exact ⟨_, ⟨by omega, rfl⟩, Checked.cast_of_lt (by omega)⟩

theorem componentOf_eq {c u d t : Nat} (hc : c ≤ scoreDenom) (hu : u ≤ scoreDenom)
    (hd : d ≤ scoreDenom) (ht : t ≤ scoreDenom) :
    componentOf cfg c u d t = .ok (weighted cfg c u d t / bpsDenom) := by
  have hle : weighted cfg c u d t ≤ _ := weighted_le hc hu hd ht
  unfold weighted scoreDenom at *
  simp only [componentOf, bind_eq_ok, okOr_eq_ok, Checked.mul_eq_some, Checked.add_eq_some,
    pure_eq_ok]
  exact ⟨_, ⟨by omega, rfl⟩, _, ⟨by omega, rfl⟩, _, ⟨by omega, rfl⟩, _, ⟨by omega, rfl⟩, _,
    ⟨by omega, rfl⟩, _, ⟨by omega, rfl⟩, _, ⟨by omega, rfl⟩, rfl⟩

theorem penalizeDominance_eq {dominance raw : Nat} (hraw : raw < 2 ^ 64 * 10001) :
    penalizeDominance cfg dominance raw = .ok (keptOf cfg dominance raw) := by
  obtain ⟨-, -, -, hpenalty⟩ := cfg.admitted
  unfold penalizeDominance keptOf
  split
  · simp only [bind_eq_ok, okOr_eq_ok, Checked.sub_eq_some, cutBps_eq_ok]
    refine ⟨_, ⟨hpenalty, rfl⟩, ?_, rfl⟩
    calc raw * (bpsDenom - cfg.centralizationPenaltyBps.toNat) ≤ raw * bpsDenom :=
          Nat.mul_le_mul_left _ (Nat.sub_le ..)
      _ < 2 ^ 128 := by unfold bpsDenom; omega
  · rfl

theorem componentFor_le {e : UInt64} {r : Report} (hu : r.uptimeScore.toNat ≤ scoreDenom)
    (hc : r.correctnessScore.toNat ≤ scoreDenom) : componentFor cfg e r ≤ 10000 := by
  have hle := @weighted_le cfg _ _ _ _ hc hu
    (diversity_le cfg.diversityTarget.toNat r.uniqueNameCount.toNat)
    (timeliness_le cfg.epochLenSlots.toNat (startOf cfg e) r.firstSubmitSlot.toNat)
  unfold componentFor scoreDenom bpsDenom at *
  omega

/-- The scores of a report never overflow, and no cast changes a component. -/
theorem scoresOf_eq {e : UInt64} {r : Report} (hu : r.uptimeScore.toNat ≤ scoreDenom)
    (hc : r.correctnessScore.toNat ≤ scoreDenom) :
    scoresOf cfg e r = .ok (idealScores cfg e r) := by
  have hcomponent : componentFor cfg e r ≤ _ := componentFor_le hu hc
  have hstake := r.stakeWeight.toNat_lt
  have hraw : r.stakeWeight.toNat * componentFor cfg e r < 2 ^ 64 * 10001 := by
    calc r.stakeWeight.toNat * componentFor cfg e r ≤ r.stakeWeight.toNat * 10000 :=
          Nat.mul_le_mul_left _ hcomponent
      _ < 2 ^ 64 * 10001 := by omega
  have hstart : e.toNat * cfg.epochLenSlots.toNat < 2 ^ 128 :=
    product_lt (d := 2 ^ 64) e.toNat_lt (Nat.le_of_lt cfg.epochLenSlots.toNat_lt) (le_refl _)
  have hdiversity := diversityOf_eq cfg r.uniqueNameCount.toNat_lt
  have hsum := @componentOf_eq cfg _ _ _ _ hc hu
    (diversity_le cfg.diversityTarget.toNat r.uniqueNameCount.toNat)
    (timeliness_le cfg.epochLenSlots.toNat (startOf cfg e) r.firstSubmitSlot.toNat)
  simp only [scoresOf, bind_eq_ok, okOr_eq_ok, Checked.mul_eq_some, pure_eq_ok]
  refine ⟨_, ⟨hstart, rfl⟩, _, timelinessOf_eq .., _, hdiversity, _, hsum, _, ⟨?_, rfl⟩, _,
    penalizeDominance_eq hraw, rfl⟩
  exact hraw.trans (by decide)

end Program

/-! ## Reports -/

/-- `r'` is no worse than `r`: no less stake, correctness, uptime or names, no later and no more
dominant. -/
structure NoWorse (r r' : Report) : Prop where
  stake : r.stakeWeight ≤ r'.stakeWeight
  correctness : r.correctnessScore ≤ r'.correctnessScore
  uptime : r.uptimeScore ≤ r'.uptimeScore
  names : r.uniqueNameCount ≤ r'.uniqueNameCount
  first : r'.firstSubmitSlot ≤ r.firstSubmitSlot
  dominance : r'.dominanceShareBps ≤ r.dominanceShareBps

section Reports

variable {cfg : MinerScoreConfig} {clock : Clock} {st st' : State} {s : Signer} {e : UInt64}
  {m : Pubkey} {r r' : Report}

theorem rawScore_mono (h : NoWorse r r') :
    (idealScores cfg e r).rawScore ≤ (idealScores cfg e r').rawScore := by
  have hsum := @weighted_mono cfg _ _ _ _ _ _ _ _ (UInt16.le_iff_toNat_le.1 h.correctness)
    (UInt16.le_iff_toNat_le.1 h.uptime)
    (diversity_mono cfg.diversityTarget.toNat (UInt32.le_iff_toNat_le.1 h.names))
    (timeliness_anti cfg.epochLenSlots.toNat (startOf cfg e) (UInt64.le_iff_toNat_le.1 h.first))
  exact keptOf_mono (UInt16.le_iff_toNat_le.1 h.dominance)
    (Nat.mul_le_mul (UInt64.le_iff_toNat_le.1 h.stake) (Nat.div_le_div_right hsum))

/-- What an accepted report writes. -/
theorem reportMinerEpochStats_ok (h : reportMinerEpochStats clock st s e m r = .ok st') :
    r.uptimeScore.toNat ≤ scoreDenom ∧ r.correctnessScore.toNat ≤ scoreDenom ∧
      ∃ x, st'.minerEpoch e m = some x ∧ x.toScores = idealScores st.config e r := by
  simp only [reportMinerEpochStats, bind_eq_ok, vacant_eq_ok, require_eq_ok, exists_unit,
    pure_eq_ok] at h
  obtain ⟨-, -, -, -, ⟨hu, hc⟩, -, scores, hscores, rfl⟩ := h
  rw [scoresOf_eq hu hc, Except.ok.injEq] at hscores
  exact ⟨hu, hc, _, setMinerEpoch_self .., hscores.symm⟩

/-- A report fails for one of its checks, never for its arithmetic. -/
theorem reportMinerEpochStats_ne_mathOverflow :
    reportMinerEpochStats clock st s e m r ≠ .error (.custom .mathOverflow) := by
  intro h
  simp only [reportMinerEpochStats, requireSubmitter, bind_eq_error, require_eq_error,
    require_eq_ok, exists_unit, pure_ne_error, or_false, Failure.custom.injEq, reduceCtorEq,
    and_false, false_or, exists_false] at h
  rcases h with hvacant | h
  · unfold vacant at hvacant
    split at hvacant
    · cases hvacant
    · cases hvacant
  · obtain ⟨-, -, -, -, ⟨hu, hc⟩, -, hscores⟩ := h
    rw [scoresOf_eq hu hc] at hscores
    cases hscores

end Reports

/-- **The score of a report.** A report never fails for its arithmetic and divides by nothing that
may be zero; the scores of an accepted one are within their ranges, and an accepted report that is
no worse has no smaller score. -/
theorem report_scores (clock clock' : Clock) (st : State) (s s' : Signer) (e : UInt64) (m : Pubkey)
    (r r' : Report) :
    reportMinerEpochStats clock st s e m r ≠ .error (.custom .mathOverflow) ∧
    0 < max st.config.epochLenSlots.toNat 1 ∧ 0 < st.config.diversityTarget.toNat ∧
    ∀ st₁, reportMinerEpochStats clock st s e m r = .ok st₁ →
      ∃ x, st₁.minerEpoch e m = some x ∧ x.diversityComponent ≤ 10000 ∧
        x.timelinessComponent ≤ 10000 ∧ x.rawScore ≤ r.stakeWeight.toNat * 10000 ∧
        (NoWorse r r' → ∀ st₂, reportMinerEpochStats clock' st s' e m r' = .ok st₂ →
          ∃ y, st₂.minerEpoch e m = some y ∧ x.rawScore ≤ y.rawScore) := by
  refine ⟨reportMinerEpochStats_ne_mathOverflow, by omega, st.config.admitted.2.1,
    fun st₁ h₁ => ?_⟩
  obtain ⟨hu, hc, x, hx, hscores⟩ := reportMinerEpochStats_ok h₁
  refine ⟨x, hx, ?_, ?_, ?_, fun hle st₂ h₂ => ?_⟩
  · rw [hscores]
    exact diversity_le ..
  · rw [hscores]
    exact timeliness_le ..
  · rw [hscores]
    exact (keptOf_le ..).trans (Nat.mul_le_mul_left _ (componentFor_le hu hc))
  · obtain ⟨-, -, y, hy, hscores'⟩ := reportMinerEpochStats_ok h₂
    refine ⟨y, hy, ?_⟩
    rw [hscores, hscores']
    exact rawScore_mono hle

/-- A report and a later one with twice the stake, in front of the example accounts. -/
theorem exampleReport_scores : ∃ st₁ st₂ x y,
    reportMinerEpochStats ⟨0, 0⟩ exampleGenesis.accounts exampleSubmitter 0 2 exampleReport =
      .ok st₁ ∧
    reportMinerEpochStats ⟨5, 0⟩ exampleGenesis.accounts exampleSubmitter 0 2
      { exampleReport with stakeWeight := 2 } = .ok st₂ ∧
    st₁.minerEpoch 0 2 = some x ∧ st₂.minerEpoch 0 2 = some y ∧ x.rawScore ≤ 1 * 10000 ∧
    x.rawScore ≤ y.rawScore := by
  obtain ⟨st₁, h₁⟩ : ∃ st₁, reportMinerEpochStats ⟨0, 0⟩ exampleGenesis.accounts exampleSubmitter 0
    2 exampleReport = .ok st₁ := ⟨_, rfl⟩
  obtain ⟨st₂, h₂⟩ : ∃ st₂, reportMinerEpochStats ⟨5, 0⟩ exampleGenesis.accounts exampleSubmitter 0
    2 { exampleReport with stakeWeight := 2 } = .ok st₂ := ⟨_, rfl⟩
  obtain ⟨-, -, -, hscores⟩ := report_scores ⟨0, 0⟩ ⟨5, 0⟩ exampleGenesis.accounts exampleSubmitter
    exampleSubmitter 0 2 exampleReport { exampleReport with stakeWeight := 2 }
  obtain ⟨x, hx, -, -, hraw, hmono⟩ := hscores st₁ h₁
  obtain ⟨y, hy, hle⟩ := hmono ⟨by decide, by decide, by decide, by decide, by decide, by decide⟩
    st₂ h₂
  exact ⟨st₁, st₂, x, y, h₁, h₂, hx, hy, hraw, hle⟩

end Ddns.MinerScore
