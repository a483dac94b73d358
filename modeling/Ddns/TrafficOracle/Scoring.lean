import Ddns.Lib.Js
import Mathlib.Data.Rat.Floor
import Mathlib.Tactic.Linarith

/-!
# Scores of the traffic oracle

`scoreSignals` (`services/traffic-oracle/src/scoring.ts`) adds up what a crawl found of a domain and
takes off what is missing. A score is between 0 and 100, and no signal that gets better lowers it; but
the parts that are scored make up 55 points, so no domain reaches the tiers that the treasury pays for
(`scores_bounded`). Numbers are exact rationals. A definition without a docstring is the item of the
source with the same words in its name.
-/

namespace Ddns.TrafficOracle

/-! ## Model -/

/-- The signals that are scored; the domain, the time and the entities are not. -/
structure DomainSignals where
  dnsResolves : Bool
  httpOk : Bool
  statusCode : Option ℚ
  contentLength : ℚ
  title : JsText
  h1s : List JsText
  keywords : List JsText
  reasonCodes : List String

inductive Tier where
  | gold
  | silver
  | bronze
  | verifyOnly
  deriving DecidableEq, Repr

inductive TrafficSignal where
  | real
  | low
  | none
  deriving DecidableEq, Repr

inductive Confidence where
  | low
  | medium
  | high
  deriving DecidableEq, Repr

structure Components where
  rankSignal : ℤ
  trafficEstimate : ℤ
  authority : ℤ
  footprint : ℤ
  riskPenalty : ℤ
  deriving DecidableEq

structure ScoreDecision where
  score : ℤ
  tier : Tier
  trafficSignal : TrafficSignal
  treasuryRenewalAllowed : Bool
  confidence : Confidence
  subsidyEstimate : ℕ
  reasons : List String
  nextSteps : List String
  components : Components
  deriving DecidableEq

def clamp (value lo hi : ℤ) : ℤ := min hi (max lo value)

def mapTier (score : ℤ) : Tier :=
  if 80 ≤ score then .gold
  else if 60 ≤ score then .silver
  else if 40 ≤ score then .bronze
  else .verifyOnly

def mapTrafficSignal : Tier → TrafficSignal
  | .gold | .silver => .real
  | .bronze => .low
  | .verifyOnly => .none

/-- The status code says that the page was found. -/
def DomainSignals.Found (signals : DomainSignals) : Prop :=
  200 ≤ signals.statusCode.getD 0 ∧ signals.statusCode.getD 0 < 400

instance (signals : DomainSignals) : Decidable signals.Found :=
  inferInstanceAs (Decidable (_ ∧ _))

/-- `title.length` -/
def DomainSignals.titleLength (signals : DomainSignals) : ℕ := signals.title.codeUnits.length

def footprint (signals : DomainSignals) : ℤ :=
  let keywordCount : ℤ := signals.keywords.length
  let h1Count : ℤ := signals.h1s.length
  clamp ((if signals.dnsResolves then 20 else 0) + (if signals.httpOk then 25 else 0) +
    (if signals.Found then 15 else 0) + clamp ⌊signals.contentLength / 2500⌋ 0 15 +
    clamp (keywordCount * 2) 0 15 + clamp (h1Count * 4) 0 10 +
    (if 5 < signals.titleLength then 5 else 0)) 0 100

def riskPenalty (signals : DomainSignals) : ℤ :=
  clamp ((if signals.dnsResolves then 0 else 40) + (if signals.httpOk then 0 else 25) +
    (if signals.contentLength < 250 then 15 else 0) +
    (if signals.titleLength = 0 then 10 else 0)) 0 100

/-- The three signals that are not available yet. -/
def rankSignal : ℤ := 0

def trafficEstimate : ℤ := 0

def authority : ℤ := 0

/-- The weighted sum. -/
def raw (signals : DomainSignals) : ℚ :=
  trafficEstimate * (2 / 10) + authority * (15 / 100) + footprint signals * (55 / 100) -
    riskPenalty signals * (1 / 10)

/-- `Math.round` -/
def round (q : ℚ) : ℤ := ⌊q + 1 / 2⌋

def score (signals : DomainSignals) : ℤ := clamp (round (raw signals)) 0 100

def tierReason : Tier → String
  | .gold => "TIER_GOLD_HEALTHY_SITE"
  | .silver => "TIER_SILVER_HEALTHY_SITE"
  | .bronze => "TIER_BRONZE_PARTIAL_SIGNAL"
  | .verifyOnly => "TIER_VERIFY_ONLY_LOW_CONFIDENCE"

def confidence (signals : DomainSignals) : Confidence :=
  if signals.dnsResolves && signals.httpOk && (1000 < signals.contentLength : Bool) then .high
  else if signals.httpOk then .medium
  else .low

def subsidyEstimate : Tier → ℕ
  | .gold => 25
  | .silver => 12
  | .bronze => 4
  | .verifyOnly => 0

def treasuryAllowed : Tier → Bool
  | .gold | .silver => true
  | .bronze | .verifyOnly => false

def nextSteps : Tier → List String
  | .verifyOnly => ["Improve crawlable content and title/H1 structure",
      "Re-run verification after DNS + content updates"]
  | .bronze => ["Increase discoverable content footprint", "Run SERP enrichment in v2"]
  | .gold | .silver => ["Eligible for continuity policy checks", "Proceed with NS onboarding"]

def scoreSignals (signals : DomainSignals) : ScoreDecision :=
  let tier := mapTier (score signals)
  { score := score signals
    tier := tier
    trafficSignal := mapTrafficSignal tier
    treasuryRenewalAllowed := treasuryAllowed tier
    confidence := confidence signals
    subsidyEstimate := subsidyEstimate tier
    reasons := signals.reasonCodes ++ [tierReason tier]
    nextSteps := nextSteps tier
    components :=
      ⟨rankSignal, trafficEstimate, authority, footprint signals, riskPenalty signals⟩ }

/-! ## The law -/

/-- The second signals are as good as the first ones. -/
structure AsGood (signals better : DomainSignals) : Prop where
  dns : signals.dnsResolves → better.dnsResolves
  http : signals.httpOk → better.httpOk
  status : signals.Found → better.Found
  content : signals.contentLength ≤ better.contentLength
  keywords : signals.keywords.length ≤ better.keywords.length
  h1s : signals.h1s.length ≤ better.h1s.length
  title : signals.titleLength ≤ better.titleLength

/-- Nothing that is scored can be better. -/
structure AtMaximum (signals : DomainSignals) : Prop where
  dns : signals.dnsResolves
  http : signals.httpOk
  status : signals.Found
  content : 15 * 2500 ≤ signals.contentLength
  keywords : 15 ≤ signals.keywords.length * 2
  h1s : 10 ≤ signals.h1s.length * 4
  title : 5 < signals.titleLength

/-- **The scale is graded and fully used.** -/
structure Graded : Prop where
  range : ∀ signals, 0 ≤ (scoreSignals signals).score ∧ (scoreSignals signals).score ≤ 100
  mono : ∀ signals better, AsGood signals better →
    (scoreSignals signals).score ≤ (scoreSignals better).score
  maximum : ∀ signals, AtMaximum signals → 80 ≤ (scoreSignals signals).score
  silver : ∃ signals, (scoreSignals signals).tier = .silver
  gold : ∃ signals, (scoreSignals signals).tier = .gold
  treasury : ∃ signals, (scoreSignals signals).treasuryRenewalAllowed = true

/-! ## Parts of a score -/

section Parts

variable {signals better : DomainSignals} {v w : ℤ}

theorem le_clamp {lo hi : ℤ} (h : lo ≤ hi) : lo ≤ clamp v lo hi := le_min h (le_max_left lo v)

theorem clamp_le {lo hi : ℤ} : clamp v lo hi ≤ hi := min_le_left _ _

theorem clamp_mono (lo hi : ℤ) (h : v ≤ w) : clamp v lo hi ≤ clamp w lo hi :=
  min_le_min_left hi (max_le_max_left lo h)

/-- What is added where something holds grows with it. -/
theorem ite_le_ite {P Q : Prop} [Decidable P] [Decidable Q] (h : P → Q) {n : ℤ} (hn : 0 ≤ n) :
    (if P then n else 0) ≤ if Q then n else 0 := by
  by_cases hP : P
  · rw [if_pos hP, if_pos (h hP)]
  · rw [if_neg hP]
    split
    · exact hn
    · exact le_refl 0

theorem footprint_mono (h : AsGood signals better) : footprint signals ≤ footprint better := by
  have hdns := ite_le_ite h.dns (n := 20) (by decide)
  have hhttp := ite_le_ite h.http (n := 25) (by decide)
  have hstatus := ite_le_ite h.status (n := 15) (by decide)
  have hlong : 5 < signals.titleLength → 5 < better.titleLength := fun hlt => hlt.trans_le h.title
  have htitle := ite_le_ite hlong (n := 5) (by decide)
  have hcontent : ⌊signals.contentLength / 2500⌋ ≤ ⌊better.contentLength / 2500⌋ :=
    Int.floor_le_floor (div_le_div_of_nonneg_right h.content (by norm_num))
  have hkeywords : (signals.keywords.length : ℤ) * 2 ≤ better.keywords.length * 2 := by
    have hle := h.keywords
    omega
  have hh1s : (signals.h1s.length : ℤ) * 4 ≤ better.h1s.length * 4 := by
    have hle := h.h1s
    omega
  have hparts := clamp_mono 0 15 hcontent
  have hwords := clamp_mono 0 15 hkeywords
  have hheads := clamp_mono 0 10 hh1s
  unfold footprint
  dsimp only
  refine clamp_mono 0 100 ?_
  omega

theorem riskPenalty_anti (h : AsGood signals better) : riskPenalty better ≤ riskPenalty signals := by
  have hmissing {b b' : Bool} (hb : b → b') {n : ℤ} (hn : 0 ≤ n) :
      (if b' then (0 : ℤ) else n) ≤ if b then 0 else n := by
    cases b
    · split
      · exact hn
      · exact le_refl n
    · rw [if_pos (hb rfl), if_pos rfl]
  have hdns := hmissing h.dns (n := 40) (by decide)
  have hhttp := hmissing h.http (n := 25) (by decide)
  have hcontent := ite_le_ite (fun hlt : better.contentLength < 250 => h.content.trans_lt hlt)
    (n := 15) (by decide)
  have hempty : better.titleLength = 0 → signals.titleLength = 0 := fun hzero => by
    have hle := h.title
    omega
  have htitle := ite_le_ite hempty (n := 10) (by decide)
  refine clamp_mono 0 100 ?_
  omega

theorem raw_mono (h : AsGood signals better) : raw signals ≤ raw better := by
  have hfootprint : (footprint signals : ℚ) ≤ footprint better :=
    Int.cast_le.2 (footprint_mono h)
  have hrisk : (riskPenalty better : ℚ) ≤ riskPenalty signals := Int.cast_le.2 (riskPenalty_anti h)
  unfold raw
  linarith

/-- The parts that are scored make up 55 points. -/
theorem raw_le (signals : DomainSignals) : raw signals ≤ 55 := by
  have hfootprint : (footprint signals : ℚ) ≤ 100 := by
    have hle : footprint signals ≤ 100 := clamp_le
    exact_mod_cast hle
  have hrisk : (0 : ℚ) ≤ riskPenalty signals := by
    have hle : 0 ≤ riskPenalty signals := le_clamp (by decide)
    exact_mod_cast hle
  have htraffic : (trafficEstimate : ℚ) = 0 := Int.cast_zero
  have hauthority : (authority : ℚ) = 0 := Int.cast_zero
  unfold raw
  rw [htraffic, hauthority]
  linarith

theorem score_mono (h : AsGood signals better) : score signals ≤ score better := by
  refine clamp_mono 0 100 (Int.floor_le_floor ?_)
  have hraw := raw_mono h
  linarith

theorem score_le (signals : DomainSignals) : score signals ≤ 55 := by
  have hround : round (raw signals) ≤ 55 := by
    have hlt : round (raw signals) < 56 := by
      refine Int.floor_lt.2 ?_
      have hraw := raw_le signals
      push_cast
      linarith
    omega
  unfold score clamp
  omega

end Parts

/-- **Scores are graded, and the upper half is not used**: no domain has more than 55 points, so none
reaches Silver or Gold, and the treasury pays for none. -/
theorem scores_bounded (signals : DomainSignals) :
    (0 ≤ (scoreSignals signals).score ∧ (scoreSignals signals).score ≤ 100) ∧
      (∀ better, AsGood signals better →
        (scoreSignals signals).score ≤ (scoreSignals better).score) ∧
      (scoreSignals signals).score ≤ 55 ∧ (scoreSignals signals).tier ≠ .silver ∧
        (scoreSignals signals).tier ≠ .gold ∧
        (scoreSignals signals).treasuryRenewalAllowed = false := by
  refine ⟨⟨le_clamp (by decide), clamp_le⟩, fun better => score_mono, ?_⟩
  have hle := score_le signals
  have htier : (scoreSignals signals).tier = .bronze ∨ (scoreSignals signals).tier = .verifyOnly := by
    show mapTier (score signals) = _ ∨ mapTier (score signals) = _
    unfold mapTier
    rw [if_neg (by omega), if_neg (by omega)]
    split
    · exact .inl rfl
    · exact .inr rfl
  have htreasury : (scoreSignals signals).treasuryRenewalAllowed =
    treasuryAllowed (scoreSignals signals).tier := rfl
  refine ⟨hle, ?_⟩
  rw [htreasury]
  rcases htier with h | h <;> rw [h] <;> decide

/-- Signals with every part at its maximum. -/
def exampleSignals : DomainSignals where
  dnsResolves := true
  httpOk := true
  statusCode := some 200
  contentLength := 40000
  title := ['M', 'a', 'r', 'k', 'e', 't']
  h1s := [['A'], ['B'], ['C']]
  keywords := List.replicate 8 ['a', 'b', 'c']
  reasonCodes := []

/-- The best signals make Bronze. -/
theorem exampleSignals_not_graded : ¬Graded := by
  intro h
  have hmaximum : AtMaximum exampleSignals :=
    ⟨rfl, rfl, by decide +kernel, by decide +kernel, by decide, by decide, by decide⟩
  have hscore := h.maximum exampleSignals hmaximum
  revert hscore
  decide +kernel

end Ddns.TrafficOracle
