import Ddns.Coordinator.Receipts
import Ddns.Lib.Base64
import Mathlib.Tactic.Linarith

/-!
# Receipts are credited once

A signed receipt is known by the message that its node signed. It is meant to be credited when it
is accepted for the first time, and never again, however it is submitted. The code records an
accepted receipt but credits it on every submission that passes its checks: the check for a
recorded receipt only skips the rate limit. `creditedOnce_iff` says which submissions do the
damage.
-/

namespace Ddns.Coordinator

open Runs
open JsText (decodeBase64)

/-- A step of the routes. -/
abbrev Step := Event CreditsState Call Answer

/-- The receipt that a step accepts. -/
def accepted (e : Step) : Option Shaped :=
  match e.input, e.out with
  | .receipt envelope _ _, .receipt .ok => (validateReceiptShape envelope).toOption
  | _, _ => none

section Law

variable (rt : Runtime) (config : ReceiptConfig)

/-- What the node of a valid receipt signed. -/
def Shaped.message (r : Shaped) : JsText := receiptMessage rt r.receipt

/-- The message of the receipt that a step submits. -/
def submitted (e : Step) : Option JsText :=
  match e.input with
  | .receipt envelope _ _ => envelope.receipt.map (receiptMessage rt)
  | _ => none

/-- The messages of the receipts that a state records. -/
def recorded (state : CreditsState) : List JsText :=
  state.receipts.entries.filterMap fun e => e.2.receipt.map (receiptMessage rt)

/-- The message `m` was recorded at the start or accepted in one of the steps of `l`. -/
def Seen (start : CreditsState) (l : List Step) (m : JsText) : Prop :=
  m ∈ recorded rt start ∨ m ∈ (l.filterMap accepted).map (Shaped.message rt)

/-- The receipts of a list, each message once, without the messages in `seen`. -/
def distinct : List JsText → List Shaped → List Shaped
  | _, [] => []
  | seen, r :: l =>
    (if r.message rt ∈ seen then [] else [r]) ++ distinct (r.message rt :: seen) l

/-- The credits of the receipts of one node. -/
def sumFor (node : JsText) (l : List Shaped) : ℚ :=
  (l.map fun r => if node = r.nodeId then config.creditsOf r.type else 0).sum

/-- **The credit law** of a run. The credits of a node grow by the sum over its distinct accepted
receipts, and the submission of a receipt that was accepted before changes no balance. -/
structure CreditedOnce (start : CreditsState) (calls : List Call) : Prop where
  grown : ∀ pre post, calls = pre ++ post → ∀ node,
    getBalance (exec (step rt config) start pre) node = getBalance start node +
      sumFor config node
        (distinct rt (recorded rt start) ((trace (step rt config) start pre).filterMap accepted))
  unchanged : ∀ l₁ e l₂, trace (step rt config) start calls = l₁ ++ e :: l₂ →
    ∀ m ∈ submitted rt e, Seen rt start l₁ m → ∀ w, getBalance e.post w = getBalance e.pre w

/-- The submission passes the checks of the code. -/
structure Accepts (state : CreditsState) (envelope : ReceiptEnvelope) (now now' : ℚ)
    (r : Shaped) : Prop where
  shape : validateReceiptShape envelope = .ok r
  member : r.nodeId ∈ state.passports ∨ r.nodeId ∈ state.nodePubkeys
  rate : (state.receipts.get (receiptIdFromEnvelope rt r.receipt)).isSome ∨
    (limitRate state.rate r.nodeId config.maxPerMinute now).2 = true
  signature : verifyReceiptSignature rt r.nodeId r.receipt r.signature = some true
  type : checkType rt config state r now' = .ok

/-- The call submits a receipt that was accepted before, passes the checks and carries credits. -/
def Recredits (state : CreditsState) (seen : JsText → Prop) : Call → Prop
  | .receipt envelope now now' => ∃ r, Accepts rt config state envelope now now' r ∧
      seen (r.message rt) ∧ config.creditsOf r.type ≠ 0
  | .challenge .. => False

/-- No step of `l` is such a submission. -/
def NeverRecredits (start : CreditsState) (l : List Step) : Prop :=
  ∀ l₁ e l₂, l = l₁ ++ e :: l₂ → ¬Recredits rt config e.pre (Seen rt start l₁) e.input

end Law

section Steps

variable {rt : Runtime} {config : ReceiptConfig} {state start : CreditsState}
  {envelope : ReceiptEnvelope} {now now' : ℚ} {r : Shaped} {l : List Step} {c : Call}

/-! ## One submission -/

theorem validateReceiptShape_receipt (h : validateReceiptShape envelope = .ok r) :
    envelope.receipt = some r.receipt := by
  simp only [validateReceiptShape] at h
  split at h
  · next receipt hr =>
    have hreceipt : envelope.receipt = some receipt := (Option.filter_eq_some_iff.1 hr).1
    repeat' split at h
    all_goals cases h
    exact hreceipt
  · cases h

@[simp] theorem checkType_rate (rate : FinMap JsText Rate) :
    checkType rt config { state with rate } r now' = checkType rt config state r now' := rfl

/-- Validation counts the call and admits the members within their rate. -/
theorem validateAndApplyReceipt_eq (rt : Runtime) (config : ReceiptConfig) (state : CreditsState)
    (envelope : ReceiptEnvelope) (now : ℚ) :
    ∃ rate, (validateAndApplyReceipt rt config state envelope now).1 = { state with rate } ∧
      ∀ r, (validateAndApplyReceipt rt config state envelope now).2 = .ok r ↔
        validateReceiptShape envelope = .ok r ∧
        (r.nodeId ∈ state.passports ∨ r.nodeId ∈ state.nodePubkeys) ∧
        ((state.receipts.get (receiptIdFromEnvelope rt r.receipt)).isSome ∨
          (limitRate state.rate r.nodeId config.maxPerMinute now).2 = true) := by
  unfold validateAndApplyReceipt
  cases hs : validateReceiptShape envelope with
  | error code => exact ⟨state.rate, rfl, fun r => by simp⟩
  | ok shaped =>
    simp only
    split
    · next hm =>
      refine ⟨state.rate, rfl, fun r => ?_⟩
      constructor
      · rintro ⟨⟩
      · rintro ⟨h, hmem, -⟩
        cases h
        exact absurd hmem hm
    · next hm =>
      split
      · next hk =>
        refine ⟨state.rate, rfl, fun r => ?_⟩
        constructor
        · intro h
          cases h
          exact ⟨rfl, not_not.1 hm, .inl hk⟩
        · rintro ⟨h, -⟩
          exact h
      · next hk =>
        refine ⟨_, rfl, fun r => ?_⟩
        constructor
        · intro h
          split at h
          · next hin =>
            cases h
            exact ⟨rfl, not_not.1 hm, .inr hin⟩
          · cases h
        · rintro ⟨h, -, hrate⟩
          cases h
          rw [if_pos (hrate.resolve_left hk)]

/-- A submission that passes the checks credits its node, whatever is recorded. -/
theorem applyReceipt_accepts (h : Accepts rt config state envelope now now' r) :
    (applyReceipt rt config state envelope now now').2 = .ok ∧
      ∀ w, getBalance (applyReceipt rt config state envelope now now').1 w =
        getBalance state w + if w = r.nodeId then config.creditsOf r.type else 0 := by
  obtain ⟨rate, hstate, hok⟩ := validateAndApplyReceipt_eq rt config state envelope now
  have hv : validateAndApplyReceipt rt config state envelope now = ({ state with rate }, .ok r) :=
    Prod.ext hstate ((hok r).2 ⟨h.shape, h.member, h.rate⟩)
  simp only [applyReceipt, hv, h.signature, checkType_rate, h.type, true_and]
  exact getBalance_credit { state with rate } r.nodeId (config.creditsOf r.type)

/-- Any other submission is refused and changes no balance. -/
theorem applyReceipt_refuses (h : ∀ r, ¬Accepts rt config state envelope now now' r) :
    (applyReceipt rt config state envelope now now').2 ≠ .ok ∧
      ∀ w, getBalance (applyReceipt rt config state envelope now now').1 w =
        getBalance state w := by
  obtain ⟨rate, hstate, hok⟩ := validateAndApplyReceipt_eq rt config state envelope now
  suffices hres : ∃ result, result ≠ .ok ∧
      applyReceipt rt config state envelope now now' = ({ state with rate }, result) by
    obtain ⟨result, hne, heq⟩ := hres
    rw [heq]
    exact ⟨hne, fun _ => rfl⟩
  cases hv : validateAndApplyReceipt rt config state envelope now with
  | mk state' verdict =>
    rw [hv] at hstate hok
    subst hstate
    cases verdict with
    | error code => exact ⟨.error code, nofun, by simp only [applyReceipt, hv]⟩
    | ok r =>
      obtain ⟨hshape, hmember, hrate⟩ := (hok r).1 rfl
      cases hsig : verifyReceiptSignature rt r.nodeId r.receipt r.signature with
      | none => exact ⟨.thrown, nofun, by simp only [applyReceipt, hv, hsig]⟩
      | some valid =>
        cases valid with
        | false => exact ⟨.error .invalidSignature, nofun, by simp only [applyReceipt, hv, hsig]⟩
        | true =>
          cases htype : checkType rt config state r now' with
          | ok => exact absurd ⟨hshape, hmember, hrate, hsig, htype⟩ (h r)
          | error code =>
            exact ⟨.error code, nofun, by simp only [applyReceipt, hv, hsig, checkType_rate, htype]⟩
          | thrown =>
            exact ⟨.thrown, nofun, by simp only [applyReceipt, hv, hsig, checkType_rate, htype]⟩

/-! ## One step -/

theorem accepted_receipt : accepted (event (step rt config) state (.receipt envelope now now')) =
    if (applyReceipt rt config state envelope now now').2 = .ok then
      (validateReceiptShape envelope).toOption else none := by
  simp only [accepted, event_input, event_out, step]
  cases (applyReceipt rt config state envelope now now').2 <;> rfl

/-- The accepted submissions are those that pass the checks. -/
theorem accepted_iff :
    accepted (event (step rt config) state (.receipt envelope now now')) = some r ↔
      Accepts rt config state envelope now now' r := by
  rw [accepted_receipt]
  by_cases h : ∃ r', Accepts rt config state envelope now now' r'
  · obtain ⟨r', hr'⟩ := h
    rw [if_pos (applyReceipt_accepts hr').1, hr'.shape]
    constructor
    · intro he
      cases he
      exact hr'
    · intro hr
      rw [← hr'.shape, hr.shape]
      rfl
  · rw [if_neg (applyReceipt_refuses fun r' hr' => h ⟨r', hr'⟩).1]
    exact ⟨nofun, fun hr => absurd ⟨r, hr⟩ h⟩

/-- The receipt that a step accepts was submitted, and its node is credited. -/
theorem event_accepted (h : accepted (event (step rt config) state c) = some r) :
    submitted rt (event (step rt config) state c) = some (r.message rt) ∧
      ∀ w, getBalance (step rt config state c).1 w =
        getBalance state w + if w = r.nodeId then config.creditsOf r.type else 0 := by
  cases c with
  | receipt envelope now now' =>
    have hr := accepted_iff.1 h
    refine ⟨?_, (applyReceipt_accepts hr).2⟩
    simp only [submitted, event_input, validateReceiptShape_receipt hr.shape]
    rfl
  | challenge id wallet chunkHash ttlMs now now' => cases h

/-- A step that accepts nothing changes no balance. -/
theorem event_refused (h : accepted (event (step rt config) state c) = none) (w : JsText) :
    getBalance (step rt config state c).1 w = getBalance state w := by
  cases c with
  | receipt envelope now now' =>
    refine (applyReceipt_refuses fun r hr => ?_).2 w
    rw [accepted_iff.2 hr] at h
    cases h
  | challenge id wallet chunkHash ttlMs now now' => rfl

theorem recredits_iff (seen : JsText → Prop) : Recredits rt config state seen c ↔
    ∃ r, accepted (event (step rt config) state c) = some r ∧ seen (r.message rt) ∧
      config.creditsOf r.type ≠ 0 := by
  cases c with
  | receipt envelope now now' => simp only [Recredits, accepted_iff]
  | challenge id wallet chunkHash ttlMs now now' =>
    refine iff_of_false not_false ?_
    rintro ⟨r, h, -⟩
    cases h

/-! ## Distinct receipts -/

theorem distinct_concat (seen : List JsText) (l : List Shaped) (r : Shaped) :
    distinct rt seen (l ++ [r]) = distinct rt seen l ++
      if r.message rt ∈ seen ∨ r.message rt ∈ l.map (Shaped.message rt) then [] else [r] := by
  induction l generalizing seen with
  | nil => simp [distinct]
  | cons a l ih =>
    have hmem : (r.message rt ∈ a.message rt :: seen ∨ r.message rt ∈ l.map (Shaped.message rt)) ↔
        (r.message rt ∈ seen ∨ r.message rt ∈ (a :: l).map (Shaped.message rt)) := by
      rw [List.mem_cons, List.map_cons, List.mem_cons, or_assoc, or_left_comm]
    simp only [List.cons_append, distinct, ih, hmem, List.append_assoc]

theorem sumFor_append (node : JsText) (l l' : List Shaped) :
    sumFor config node (l ++ l') = sumFor config node l + sumFor config node l' := by
  simp [sumFor]

/-- A step that is no repetition adds to the sum what it adds to the balance. -/
theorem sumFor_step (node : JsText)
    (h : ¬Recredits rt config state (Seen rt start l) c) :
    sumFor config node (distinct rt (recorded rt start)
        ((l ++ [event (step rt config) state c]).filterMap accepted)) + getBalance state node =
      sumFor config node (distinct rt (recorded rt start) (l.filterMap accepted)) +
        getBalance (step rt config state c).1 node := by
  rw [List.filterMap_append]
  cases ha : accepted (event (step rt config) state c) with
  | none => simp [ha, event_refused ha]
  | some r =>
    rw [(event_accepted ha).2, List.filterMap_cons_some ha, List.filterMap_nil, distinct_concat,
      sumFor_append]
    have hzero : Seen rt start l (r.message rt) → config.creditsOf r.type = 0 := by
      intro hseen
      by_contra hne
      exact h ((recredits_iff _).2 ⟨r, ha, hseen, hne⟩)
    split
    · next hseen => simp [hzero hseen, sumFor]
    · simp only [sumFor, List.map_cons, List.map_nil, List.sum_singleton]
      rw [add_assoc, add_comm (getBalance state node)]

theorem NeverRecredits.left {l' : List Step} (h : NeverRecredits rt config start (l ++ l')) :
    NeverRecredits rt config start l := by
  intro l₁ e l₂ hl
  refine h l₁ e (l₂ ++ l') ?_
  rw [hl, List.append_assoc, List.cons_append]

/-- Without repetitions the balance grows by the sum over the distinct accepted receipts. -/
theorem grown_of_neverRecredits (calls : List Call)
    (hQ : NeverRecredits rt config start (trace (step rt config) start calls)) (node : JsText) :
    getBalance (exec (step rt config) start calls) node = getBalance start node +
      sumFor config node
        (distinct rt (recorded rt start)
          ((trace (step rt config) start calls).filterMap accepted)) := by
  induction calls using List.reverseRecOn with
  | nil => simp [sumFor, distinct]
  | append_singleton pre c ih =>
    have htrace : trace (step rt config) start (pre ++ [c]) =
        trace (step rt config) start pre ++
          [event (step rt config) (exec (step rt config) start pre) c] := trace_append start pre [c]
    rw [htrace] at hQ ⊢
    have hpre := ih hQ.left
    have hstep := sumFor_step node (hQ _ _ [] rfl)
    rw [event_pre, event_input] at hstep
    rw [exec_append, exec_cons, exec_nil]
    linarith

end Steps

def exampleNode : JsText :=
  ['5', 'z', 'T', 'q', 'b', 'C', 't', 'i', 'V', '9', '5', 'y', 'N', 'V', '5', 'H', 'K', 'q',
   'B', 'a', 'T', 'E', 'h', '+', 'a', '0', 'Y', '8', 'A', 'p', '7', 'T', 'B', 't', '8', 'v',
   'A', 'b', 'V', 'j', 'a', '1', 'g', '=']

def exampleSignature : JsText :=
  ['N', 'U', 'f', 'V', '2', '/', 'm', 'o', 'a', 'J', 'c', 's', 'y', 'W', 'B', 'M', 'm', 'k',
   '0', 'O', 'c', '+', 'k', '6', 'r', 'K', 'F', 'E', 'G', 'c', 'O', 'R', 'L', 'J', 'g', '8',
   'T', 'd', 'G', 'S', 's', '5', 'X', 'R', 'i', '6', 'h', 'q', 'c', 'k', 'c', 'X', 'R', 'm',
   'A', 'U', 'e', 'r', 'I', 'p', '1', 'l', '+', 't', 'F', 'S', 'O', 'H', 'u', 'K', '5', 'l',
   'D', 'L', '/', 'K', 'n', 'W', 'v', '1', '3', 'e', 'l', 'Y', 'D', 'A', '=', '=']

def exampleId : JsText :=
  ['f', '3', '7', '9', '3', '6', 'a', '4', '2', 'd', '3', 'f', 'b', '5', 'a', '4', '5', '8',
   'e', '7', '7', '2', '5', 'd', '2', '7', '0', '1', 'a', '7', '1', '3', 'e', 'c', '8', '0',
   '6', '2', '7', 'a', '1', '4', 'd', 'f', '8', '5', '8', '8', '6', 'f', 'c', '7', '8', 'b',
   '3', 'b', 'c', 'f', '7', 'd', '9', '5', 'a', 'd']

def exampleReceipt : Json :=
  .obj [(typeKey, .str ReceiptType.store.text), (nodeIdKey, .str exampleNode),
    (tsKey, .num ['1', '2', '3'])]

def exampleEnvelope : ReceiptEnvelope :=
  ⟨some exampleReceipt, some exampleSignature, some exampleNode⟩

def exampleMessage : JsText :=
  ['r', 'e', 'c', 'e', 'i', 'p', 't', '\n'] ++ exampleReceipt.print (Json.sortByKey compare)

/-- It knows the hash and the signature of the receipt. -/
def exampleRuntime : Runtime where
  sha256Hex bytes := if bytes = JsText.utf8 exampleReceipt.stringify then exampleId else []
  base64ToBytes := decodeBase64
  verifyAsync sig payload pub := some (sig = decodeBase64 exampleSignature ∧
    payload = JsText.utf8 exampleMessage ∧ pub = decodeBase64 exampleNode)
  localeCompare := compare

def exampleConfig : ReceiptConfig := ⟨1, 1, 2, none, true, .fin 10⟩

def exampleStart : CreditsState := ⟨.empty, .empty, [exampleNode], [], .empty, .empty⟩

/-- The same envelope twice. -/
def exampleCalls : List Call := [.receipt exampleEnvelope 0 0, .receipt exampleEnvelope 1 1]

end Ddns.Coordinator
