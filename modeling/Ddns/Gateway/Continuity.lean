import Ddns.Core.Continuity

/-!
# The continuity policy in the gateway

The gateway has a copy of the policy (`gateway/src/lib/domain_continuity_policy.ts`), which is the
one of the core (`evaluate_eq`). The phase never moves backwards, but a domain with real traffic is
held for ever: `continuity_iff` says where the bounds of the policy hold. A definition without a
docstring is the item of the source with the same words in its name.
-/

namespace Ddns.Gateway.Continuity

open Ddns.Core.Continuity (Platform TrafficSignal ContinuityPhase DomainContinuityPolicyInput
  DomainContinuityPolicyOutput stripFinalDot orZero pushIf overdue holdEligible dueAt phaseAt)

/-! ## The copy -/

def dayMs : ℤ := 24 * 60 * 60 * 1000

def normalizeDomain (rt : Platform) (value : JsText) : JsText :=
  stripFinalDot (rt.toLowerCase value.trim)

def daysUntil (rt : Platform) (dateMaybe : Option JsText) (nowMs : ℤ) : Option ℤ :=
  match dateMaybe with
  | none => none
  | some [] => none
  | some date => (rt.dateParse date).map fun ts => (ts - nowMs) / dayMs

def basePhaseFor (daysUntilDue : Option ℤ) : ContinuityPhase :=
  match daysUntilDue with
  | none => .softWarning
  | some days =>
    if 7 ≤ days then .softWarning
    else if 0 ≤ days then .hardWarning
    else if -30 ≤ days then .safeParked
    else .registryFinalization

def creditsEstimateFor (traffic : TrafficSignal) (nsStatus verified : Bool) : ℕ :=
  if !nsStatus && !verified then 0
  else match traffic with
    | .real => 40
    | .low => 15
    | .none => 5

def evaluateDomainContinuityPolicy (rt : Platform) (input : DomainContinuityPolicyInput)
    (nowMs : ℤ) : DomainContinuityPolicyOutput :=
  let domain := normalizeDomain rt input.domain
  let noControl := !input.nsStatus && !input.verifiedControl
  let noTraffic : Bool := input.trafficSignal = .none
  let dueInDays := daysUntil rt input.renewalDueDate nowMs
  let hold := overdue dueInDays && holdEligible input
  let phase := if hold then .holdBanner else basePhaseFor dueInDays
  let renewalCoveredByCredits :=
    (orZero input.renewalCostEstimate).le (orZero input.creditBalance)
  let reasonCodes :=
    pushIf domain.isEmpty "INVALID_DOMAIN" ++
    pushIf input.abuseFlag "ABUSE_FLAGGED" ++
    pushIf noControl "NO_CONTROL_PATH" ++
    pushIf noTraffic "NO_TRAFFIC_SIGNAL" ++
    pushIf hold "TRAFFIC_HOLD_ELIGIBLE"
  let renewal :=
    if phase = .holdBanner ∧ overdue dueInDays then
      if renewalCoveredByCredits then
        "Renew now to exit traffic-based hold; credits can fully cover the renewal"
      else
        "Renew now to exit traffic-based hold using available credits + fallback payment method"
    else if renewalCoveredByCredits then "Renewal can be fully covered by credits"
    else "Renew with available credits + fallback payment method"
  let nextSteps :=
    pushIf domain.isEmpty "Provide a valid ICANN domain" ++
    pushIf input.abuseFlag "Resolve abuse flag before continuity protection" ++
    pushIf noControl "Point NS to TollDNS or complete ownership verification" ++
    pushIf noTraffic "Serve active content to establish real traffic signal" ++
    pushIf hold "Traffic-based hold active: keep service online while renewal is pending" ++
    [renewal] ++
    (match phase with
      | .hardWarning => ["Renew soon to avoid hold/banner or parked mode"]
      | .safeParked => ["Renew during grace window to restore full serving"]
      | .registryFinalization =>
        ["Registry finalization window reached; immediate manual renewal required"]
      | _ => [])
  { eligible := !reasonCodes.contains "INVALID_DOMAIN" && !reasonCodes.contains "ABUSE_FLAGGED" &&
      !reasonCodes.contains "NO_CONTROL_PATH"
    phase
    holdBannerActive := phase = .holdBanner
    reasonCodes := reasonCodes.eraseDups
    nextSteps := nextSteps.eraseDups
    creditsEstimate :=
      creditsEstimateFor input.trafficSignal input.nsStatus input.verifiedControl
    renewalCoveredByCredits }

/-- The two policies are one. -/
theorem evaluate_eq (rt : Platform) (input : DomainContinuityPolicyInput) (nowMs : ℤ) :
    evaluateDomainContinuityPolicy rt input nowMs =
      Core.Continuity.evaluateDomainContinuityPolicy rt input nowMs := by
  have hbase : ∀ days, basePhaseFor days = Core.Continuity.basePhaseFor days := by
    intro days
    cases days <;> rfl
  have hdays : ∀ date, daysUntil rt date nowMs = Core.Continuity.daysUntil rt date nowMs := by
    intro date
    rcases date with _ | _ | _ <;> rfl
  have hcredits : ∀ traffic ns verified, creditsEstimateFor traffic ns verified =
      Core.Continuity.creditsEstimateFor traffic ns verified := by
    intro traffic ns verified
    cases traffic <;> rfl
  unfold evaluateDomainContinuityPolicy Core.Continuity.evaluateDomainContinuityPolicy
  simp only [hbase, hdays, hcredits]
  rfl

/-! ## The law -/

/-- What the policy promises for an input and a time: both copies answer the same, the phase does
not move backwards from there, an input that is not eligible has no banner, and 30 days after the
renewal was due the registry finalizes. -/
structure PolicyLaw (rt : Platform) (input : DomainContinuityPolicyInput) (nowMs : ℤ) : Prop where
  same : evaluateDomainContinuityPolicy rt input nowMs =
    Core.Continuity.evaluateDomainContinuityPolicy rt input nowMs
  forward : ∀ nowMs', nowMs ≤ nowMs' →
    (evaluateDomainContinuityPolicy rt input nowMs).phase.rank ≤
      (evaluateDomainContinuityPolicy rt input nowMs').phase.rank
  banner : (evaluateDomainContinuityPolicy rt input nowMs).eligible = false →
    (evaluateDomainContinuityPolicy rt input nowMs).holdBannerActive = false
  bounded : ∀ ts, dueAt rt input = some ts → ts + 30 * dayMs < nowMs →
    (evaluateDomainContinuityPolicy rt input nowMs).phase = .registryFinalization

section

variable {rt : Platform} {input : DomainContinuityPolicyInput} {nowMs ts : ℤ}

theorem holdBannerActive_iff (rt : Platform) (input : DomainContinuityPolicyInput) (nowMs : ℤ) :
    (evaluateDomainContinuityPolicy rt input nowMs).holdBannerActive = true ↔
      (evaluateDomainContinuityPolicy rt input nowMs).phase = .holdBanner := decide_eq_true_iff

theorem eligible_iff (rt : Platform) (input : DomainContinuityPolicyInput) (nowMs : ℤ) :
    (evaluateDomainContinuityPolicy rt input nowMs).eligible = true ↔
      normalizeDomain rt input.domain ≠ [] ∧ input.abuseFlag = false ∧
        (input.nsStatus = true ∨ input.verifiedControl = true) := by
  rw [evaluate_eq]
  exact Core.Continuity.eligible_iff rt input nowMs

theorem holdEligible_iff (input : DomainContinuityPolicyInput) : holdEligible input = true ↔
    input.trafficSignal = .real ∧ input.abuseFlag = false ∧
      (input.nsStatus = true ∨ input.verifiedControl = true) := by
  unfold holdEligible
  rw [Bool.and_eq_true, Bool.and_eq_true, decide_eq_true_eq, Bool.or_eq_true, Bool.not_eq_true',
    and_assoc, and_comm (a := _ ∨ _)]

/-- A domain is held once its renewal is overdue and it has real traffic, a control path and no
abuse. -/
theorem phaseAt_eq_hold (hold : Bool) (ms : ℤ) :
    phaseAt hold ms = .holdBanner ↔ ms < 0 ∧ hold = true := by
  have hday := Core.Continuity.dayMs_pos
  unfold phaseAt
  split_ifs with h7 h0 hhold hparked
  · exact ⟨nofun, fun h => by omega⟩
  · exact ⟨nofun, fun h => by omega⟩
  · exact ⟨fun _ => ⟨not_le.1 h0, hhold⟩, fun _ => rfl⟩
  · exact ⟨nofun, fun h => absurd h.2 hhold⟩
  · exact ⟨nofun, fun h => absurd h.2 hhold⟩

theorem phaseAt_eq_finalization (hold : Bool) {ms : ℤ} (h : ms < -30 * dayMs) :
    phaseAt hold ms = .registryFinalization ↔ hold = false := by
  have hday := Core.Continuity.dayMs_pos
  have hlate : ms < -30 * Core.Continuity.dayMs := h
  unfold phaseAt
  rw [if_neg (by omega), if_neg (by omega)]
  cases hold
  · rw [if_neg Bool.false_ne_true, if_neg (not_le.2 hlate)]
    exact ⟨fun _ => rfl, fun _ => rfl⟩
  · exact ⟨nofun, nofun⟩

theorem phase_of_date (h : dueAt rt input = some ts) (nowMs : ℤ) :
    (evaluateDomainContinuityPolicy rt input nowMs).phase =
      phaseAt (holdEligible input) (ts - nowMs) := by
  rw [evaluate_eq]
  exact Core.Continuity.phase_of_date h nowMs

/-- **The policy keeps its promises exactly where it does not hold a domain for ever**: a domain
that a hold is for is at most 30 days overdue, and not overdue if it has no name. -/
theorem continuity_iff (rt : Platform) (input : DomainContinuityPolicyInput) (nowMs : ℤ) :
    PolicyLaw rt input nowMs ↔ (holdEligible input = true → ∀ ts, dueAt rt input = some ts →
      nowMs ≤ ts + 30 * dayMs ∧ (nowMs ≤ ts ∨ normalizeDomain rt input.domain ≠ [])) := by
  constructor
  · intro hlaw hhold ts hdue
    constructor
    · by_contra hlate
      have hphase := hlaw.bounded ts hdue (not_le.1 hlate)
      rw [phase_of_date hdue, phaseAt_eq_finalization _ (by omega), hhold] at hphase
      cases hphase
    · by_contra hheld
      rw [not_or, not_le, not_not] at hheld
      have hbanner := hlaw.banner (by
        rw [Bool.eq_false_iff, Ne, eligible_iff]
        exact fun heligible => heligible.1 hheld.2)
      rw [Bool.eq_false_iff, Ne, holdBannerActive_iff, phase_of_date hdue, phaseAt_eq_hold] at hbanner
      exact hbanner ⟨by omega, hhold⟩
  · intro hbound
    refine ⟨evaluate_eq rt input nowMs, fun nowMs' hle => ?_, fun hnot => ?_, fun ts hdue hlate => ?_⟩
    · rw [evaluate_eq, evaluate_eq]
      exact Core.Continuity.phase_mono rt input hle
    · rw [Bool.eq_false_iff, Ne, holdBannerActive_iff]
      intro hphase
      cases hdue : dueAt rt input with
      | none =>
        rw [evaluate_eq, Core.Continuity.phase_of_no_date hdue] at hphase
        cases hphase
      | some ts =>
        rw [phase_of_date hdue, phaseAt_eq_hold] at hphase
        have hname := (hbound hphase.2 ts hdue).2.resolve_left (by omega)
        rw [Bool.eq_false_iff, Ne, eligible_iff] at hnot
        exact hnot ⟨hname, (holdEligible_iff input).1 hphase.2 |>.2⟩
    · rw [phase_of_date hdue, phaseAt_eq_finalization _ (by omega), Bool.eq_false_iff]
      intro hhold
      exact not_le.2 hlate (hbound hhold ts hdue).1

end

/-! ## A domain that is held -/

def examplePlatform : Platform where
  toLowerCase := id
  dateParse := fun _ => some 0

/-- A domain with real traffic, due at the start of time. -/
def heldInput : DomainContinuityPolicyInput where
  domain := "example.com".toList
  nsStatus := true
  verifiedControl := true
  trafficSignal := .real
  creditBalance := .fin 0
  renewalCostEstimate := .fin 110
  renewalDueDate := some "1970-01-01".toList
  abuseFlag := false

/-- After 31 days it is still held. -/
theorem continuity_broken : ¬PolicyLaw examplePlatform heldInput (31 * dayMs) := by
  intro h
  have hphase := h.bounded 0 rfl (by decide)
  exact absurd hphase (by decide)

end Ddns.Gateway.Continuity
