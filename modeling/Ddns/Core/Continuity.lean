import Ddns.Lib.Js
import Mathlib.Data.Int.Basic

/-!
# The continuity policy of a domain

Which warnings a domain shows around the day its renewal is due (`core/src/
domain_continuity_policy.ts`). Times are whole milliseconds; the day count is the floor of the exact
quotient, from which the double of the source does not differ where a phase changes. The inputs that
the policy does not read are left out. A definition without a docstring is the item of the source
with the same words in its name.
-/

namespace Ddns.Core.Continuity

/-- What the policy takes from the platform; `Date.parse` gives no time for a text that is no
date. -/
structure Platform where
  toLowerCase : JsText → JsText
  dateParse : JsText → Option ℤ

inductive TrafficSignal where
  | none
  | low
  | real
  deriving DecidableEq

inductive ContinuityPhase where
  | softWarning
  | hardWarning
  | holdBanner
  | safeParked
  | registryFinalization
  deriving DecidableEq

structure DomainContinuityPolicyInput where
  domain : JsText
  nsStatus : Bool
  verifiedControl : Bool
  trafficSignal : TrafficSignal
  creditBalance : JsNum
  renewalCostEstimate : JsNum
  renewalDueDate : Option JsText
  abuseFlag : Bool

structure DomainContinuityPolicyOutput where
  eligible : Bool
  phase : ContinuityPhase
  holdBannerActive : Bool
  reasonCodes : List String
  nextSteps : List String
  creditsEstimate : ℕ
  renewalCoveredByCredits : Bool
  deriving DecidableEq

def dayMs : ℤ := 24 * 60 * 60 * 1000

/-- `replace(/\.$/, "")` -/
def stripFinalDot (t : JsText) : JsText := if t.getLast? = some '.' then t.dropLast else t

def normalizeDomain (rt : Platform) (value : JsText) : JsText :=
  stripFinalDot (rt.toLowerCase value.trim)

def daysUntil (rt : Platform) (dateMaybe : Option JsText) (nowMs : ℤ) : Option ℤ :=
  match dateMaybe with
  | none => none
  | some [] => none
  | some date => (rt.dateParse date).map fun ts => (ts - nowMs) / dayMs

def basePhaseFor (daysUntilDue : Option ℤ) : ContinuityPhase :=
  match daysUntilDue with
  | none => .softWarning
  | some days =>
    if 7 ≤ days then .softWarning
    else if 0 ≤ days then .hardWarning
    else if -30 ≤ days then .safeParked
    else .registryFinalization

def creditsEstimateFor (traffic : TrafficSignal) (nsStatus verified : Bool) : ℕ :=
  if !nsStatus && !verified then 0
  else match traffic with
    | .real => 40
    | .low => 15
    | .none => 5

/-- `Number(x || 0)` -/
def orZero (x : JsNum) : JsNum := if x.truthy then x else .fin 0

/-- A text that is pushed under a condition. -/
def pushIf (c : Bool) (text : String) : List String := if c then [text] else []

def holdEligible (input : DomainContinuityPolicyInput) : Bool :=
  decide (input.trafficSignal = .real) && (input.nsStatus || input.verifiedControl) &&
    !input.abuseFlag

/-- `dueInDays !== null && dueInDays < 0` -/
def overdue (dueInDays : Option ℤ) : Bool := dueInDays.any fun days => days < 0

def evaluateDomainContinuityPolicy (rt : Platform) (input : DomainContinuityPolicyInput)
    (nowMs : ℤ) : DomainContinuityPolicyOutput :=
  let domain := normalizeDomain rt input.domain
  let noControl := !input.nsStatus && !input.verifiedControl
  let noTraffic : Bool := input.trafficSignal = .none
  let dueInDays := daysUntil rt input.renewalDueDate nowMs
  let hold := overdue dueInDays && holdEligible input
  let phase := if hold then .holdBanner else basePhaseFor dueInDays
  let renewalCoveredByCredits :=
    (orZero input.renewalCostEstimate).le (orZero input.creditBalance)
  let reasonCodes :=
    pushIf domain.isEmpty "INVALID_DOMAIN" ++
    pushIf input.abuseFlag "ABUSE_FLAGGED" ++
    pushIf noControl "NO_CONTROL_PATH" ++
    pushIf noTraffic "NO_TRAFFIC_SIGNAL" ++
    pushIf hold "TRAFFIC_HOLD_ELIGIBLE"
  let renewal :=
    if phase = .holdBanner ∧ overdue dueInDays then
      if renewalCoveredByCredits then
        "Renew now to exit traffic-based hold; credits can fully cover the renewal"
      else
        "Renew now to exit traffic-based hold using available credits + fallback payment method"
    else if renewalCoveredByCredits then "Renewal can be fully covered by credits"
    else "Renew with available credits + fallback payment method"
  let nextSteps :=
    pushIf domain.isEmpty "Provide a valid ICANN domain" ++
    pushIf input.abuseFlag "Resolve abuse flag before continuity protection" ++
    pushIf noControl "Point NS to TollDNS or complete ownership verification" ++
    pushIf noTraffic "Serve active content to establish real traffic signal" ++
    pushIf hold "Traffic-based hold active: keep service online while renewal is pending" ++
    [renewal] ++
    (match phase with
      | .hardWarning => ["Renew soon to avoid hold/banner or parked mode"]
      | .safeParked => ["Renew during grace window to restore full serving"]
      | .registryFinalization =>
        ["Registry finalization window reached; immediate manual renewal required"]
      | _ => [])
  { eligible := !reasonCodes.contains "INVALID_DOMAIN" && !reasonCodes.contains "ABUSE_FLAGGED" &&
      !reasonCodes.contains "NO_CONTROL_PATH"
    phase
    holdBannerActive := phase = .holdBanner
    reasonCodes := reasonCodes.eraseDups
    nextSteps := nextSteps.eraseDups
    creditsEstimate :=
      creditsEstimateFor input.trafficSignal input.nsStatus input.verifiedControl
    renewalCoveredByCredits }

/-! ## The phases -/

section

variable {rt : Platform} {input : DomainContinuityPolicyInput} {nowMs nowMs' : ℤ}

/-- The time at which the renewal is due, where the input has a valid date. -/
def dueAt (rt : Platform) (input : DomainContinuityPolicyInput) : Option ℤ :=
  match input.renewalDueDate with
  | none => none
  | some [] => none
  | some date => rt.dateParse date

theorem daysUntil_eq (rt : Platform) (input : DomainContinuityPolicyInput) (nowMs : ℤ) :
    daysUntil rt input.renewalDueDate nowMs =
      (dueAt rt input).map fun ts => (ts - nowMs) / dayMs := by
  unfold daysUntil dueAt
  split <;> rfl

theorem dayMs_pos : 0 < dayMs := by decide

/-- A number of whole days is left exactly if as many milliseconds are. -/
theorem le_days_iff (n ms : ℤ) : n ≤ ms / dayMs ↔ n * dayMs ≤ ms :=
  Int.le_ediv_iff_mul_le dayMs_pos

/-- The phase, by the milliseconds until the renewal is due. -/
def phaseAt (hold : Bool) (ms : ℤ) : ContinuityPhase :=
  if 7 * dayMs ≤ ms then .softWarning
  else if 0 ≤ ms then .hardWarning
  else if hold then .holdBanner
  else if -30 * dayMs ≤ ms then .safeParked
  else .registryFinalization

theorem overdue_iff (ms : ℤ) : overdue (some (ms / dayMs)) = true ↔ ms < 0 := by
  rw [overdue, Option.any_some, decide_eq_true_eq, ← not_le, le_days_iff, zero_mul, not_le]

theorem phase_eq (rt : Platform) (input : DomainContinuityPolicyInput) (nowMs : ℤ) :
    (evaluateDomainContinuityPolicy rt input nowMs).phase =
      if overdue (daysUntil rt input.renewalDueDate nowMs) && holdEligible input then .holdBanner
      else basePhaseFor (daysUntil rt input.renewalDueDate nowMs) := rfl

theorem phase_of_no_date (h : dueAt rt input = none) (nowMs : ℤ) :
    (evaluateDomainContinuityPolicy rt input nowMs).phase = .softWarning := by
  rw [phase_eq, daysUntil_eq, h]
  rfl

theorem phase_of_date {ts : ℤ} (h : dueAt rt input = some ts) (nowMs : ℤ) :
    (evaluateDomainContinuityPolicy rt input nowMs).phase =
      phaseAt (holdEligible input) (ts - nowMs) := by
  have hoverdue := overdue_iff (ts - nowMs)
  rw [phase_eq, daysUntil_eq, h, Option.map_some, basePhaseFor, phaseAt]
  simp only [le_days_iff, zero_mul]
  by_cases h0 : 0 ≤ ts - nowMs
  · have hnot : overdue (some ((ts - nowMs) / dayMs)) = false :=
      Bool.eq_false_iff.2 fun ht => not_lt.2 h0 (hoverdue.1 ht)
    rw [hnot, Bool.false_and, if_neg Bool.false_ne_true, if_pos h0, if_pos h0]
  · have h7 : ¬7 * dayMs ≤ ts - nowMs := by
      have hday := dayMs_pos
      omega
    rw [hoverdue.2 (not_le.1 h0), Bool.true_and, if_neg h7, if_neg h7, if_neg h0, if_neg h0]

/-- How far a phase has gone; a hold is as far as the parked mode. -/
def ContinuityPhase.rank : ContinuityPhase → ℕ
  | .softWarning => 0
  | .hardWarning => 1
  | .holdBanner => 2
  | .safeParked => 2
  | .registryFinalization => 3

theorem rank_phaseAt (hold : Bool) (ms : ℤ) : (phaseAt hold ms).rank =
    if 7 * dayMs ≤ ms then 0 else if 0 ≤ ms then 1
    else if hold ∨ -30 * dayMs ≤ ms then 2 else 3 := by
  cases hold
  · unfold phaseAt
    split_ifs <;> simp_all [ContinuityPhase.rank]; omega
  · unfold phaseAt
    split_ifs <;> simp_all [ContinuityPhase.rank]

/-- Less time left is no earlier phase. -/
theorem phaseAt_mono (hold : Bool) {ms ms' : ℤ} (h : ms' ≤ ms) :
    (phaseAt hold ms).rank ≤ (phaseAt hold ms').rank := by
  have hday := dayMs_pos
  rw [rank_phaseAt, rank_phaseAt]
  cases hold
  · split_ifs <;> simp_all <;> omega
  · split_ifs <;> simp_all <;> omega

/-- The phase never moves backwards. -/
theorem phase_mono (rt : Platform) (input : DomainContinuityPolicyInput) (h : nowMs ≤ nowMs') :
    (evaluateDomainContinuityPolicy rt input nowMs).phase.rank ≤
      (evaluateDomainContinuityPolicy rt input nowMs').phase.rank := by
  cases hdue : dueAt rt input with
  | none => rw [phase_of_no_date hdue, phase_of_no_date hdue]
  | some ts =>
    rw [phase_of_date hdue, phase_of_date hdue]
    exact phaseAt_mono _ (by omega)

/-! ## Eligibility -/

theorem mem_pushIf {c : Bool} {text text' : String} :
    text' ∈ pushIf c text ↔ c = true ∧ text' = text := by
  cases c
  · simp [pushIf]
  · simp [pushIf]

theorem eligible_iff (rt : Platform) (input : DomainContinuityPolicyInput) (nowMs : ℤ) :
    (evaluateDomainContinuityPolicy rt input nowMs).eligible = true ↔
      normalizeDomain rt input.domain ≠ [] ∧ input.abuseFlag = false ∧
        (input.nsStatus = true ∨ input.verifiedControl = true) := by
  simp [evaluateDomainContinuityPolicy, mem_pushIf, and_assoc]

end

end Ddns.Core.Continuity
