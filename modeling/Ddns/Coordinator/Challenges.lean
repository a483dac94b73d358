import Ddns.Coordinator.ReceiptLaw

/-!
# Storage challenges

An audit challenge asks one wallet for the hash of a chunk, and the `VERIFY` receipt that answers it
is meant to be credited once. The code checks that the challenge is open, belongs to the node of the
receipt and asks for its hash, but it leaves the challenge open. `challengeLaw_iff` says which receipts
are credited on a challenge that was used before.
-/

namespace Ddns.Coordinator

open Runs
open JsText (decodeBase64)

/-- The id of the challenge that a receipt quotes. -/
def quotedId (receipt : Json) : Option JsText :=
  match (detail challengeIdKey receipt).filter Json.truthy with
  | some (.str id) => some id
  | _ => none

/-- The challenge that a step issues, under its id. -/
def issuedAs (e : Step) : Option (JsText × Challenge) :=
  match e.input with
  | .challenge id wallet chunkHash ttlMs now _ =>
    some (id, ⟨wallet, chunkHash, (JsNum.fin now).add ttlMs⟩)
  | .receipt .. => none

/-- The challenge that was issued last under an id. -/
def lastIssued (start : CreditsState) (l : List Step) (id : JsText) : Option Challenge :=
  l.foldl (fun c e =>
    match issuedAs e with
    | some (id', c') => if id = id' then some c' else c
    | none => c) (start.challenges.get id)

/-- The receipt of a step that gives a `VERIFY` credit, and the id of the challenge that it quotes. -/
def redeemed (e : Step) : Option (JsText × Shaped) :=
  ((accepted e).filter fun r => r.type = .verify).bind fun r =>
    (quotedId r.receipt).map fun id => (id, r)

/-- The time at which the expiry of a challenge is checked. -/
def Call.checkedAt : Call → ℚ
  | .receipt _ _ now' => now'
  | .challenge _ _ _ _ _ now' => now'

/-- A `VERIFY` credit goes to the wallet of the challenge, for its hash and before it expires. -/
structure Redeems (config : ReceiptConfig) (e : Step) (r : Shaped) (c : Challenge) : Prop where
  wallet : c.wallet = r.nodeId
  unexpired : c.expiresAt.lt (.fin e.input.checkedAt) = false
  chunkHash : ∃ hash, detail chunkHashKey r.receipt = some hash ∧ hash.isText c.chunkHash = true
  credited : ∀ w, getBalance e.post w =
    getBalance e.pre w + if w = c.wallet then config.verifyCredits else 0

/-- **The challenge law** of a run: a `VERIFY` credit goes to an open challenge, and between two of
one id the challenge is issued again. -/
structure ChallengeLaw (rt : Runtime) (config : ReceiptConfig) (start : CreditsState)
    (calls : List Call) : Prop where
  redeems : ∀ l₁ e l₂, trace (step rt config) start calls = l₁ ++ e :: l₂ →
    ∀ id r, redeemed e = some (id, r) →
      ∃ c, lastIssued start l₁ id = some c ∧ Redeems config e r c
  once : ∀ l₁ e l₂ e' l₃, trace (step rt config) start calls = l₁ ++ e :: (l₂ ++ e' :: l₃) →
    ∀ id r r', redeemed e = some (id, r) → redeemed e' = some (id, r') →
      ∃ x ∈ l₂, ∃ c, issuedAs x = some (id, c)

/-- The challenge was redeemed since it was issued last. -/
def UsedUp (l : List Step) (id : JsText) : Prop :=
  ∃ l₁ e l₂ r, l = l₁ ++ e :: l₂ ∧ redeemed e = some (id, r) ∧
    ∀ x ∈ l₂, ∀ c, issuedAs x ≠ some (id, c)

/-- The call submits a `VERIFY` receipt that passes the checks and quotes a challenge that is used
up. -/
def Reuses (rt : Runtime) (config : ReceiptConfig) (state : CreditsState) (usedUp : JsText → Prop) :
    Call → Prop
  | .receipt envelope now now' => ∃ r id, Accepts rt config state envelope now now' r ∧
      r.type = .verify ∧ quotedId r.receipt = some id ∧ usedUp id
  | .challenge .. => False

section Steps

variable {rt : Runtime} {config : ReceiptConfig} {state start : CreditsState}
  {envelope : ReceiptEnvelope} {now now' : ℚ} {r : Shaped} {l : List Step} {call : Call}
  {id : JsText}

theorem challengeOf_eq (state : CreditsState) (receipt : Json) :
    challengeOf state receipt = (quotedId receipt).bind state.challenges.get := by
  unfold challengeOf quotedId
  cases (detail challengeIdKey receipt).filter Json.truthy with
  | none => rfl
  | some value => cases value <;> rfl

theorem redeemed_eq_some {e : Step} : redeemed e = some (id, r) ↔
    accepted e = some r ∧ r.type = .verify ∧ quotedId r.receipt = some id := by
  simp only [redeemed, Option.bind_eq_some_iff, Option.filter_eq_some_iff, Option.map_eq_some_iff,
    decide_eq_true_eq, Prod.mk.injEq]
  constructor
  · rintro ⟨r', ⟨haccepted, htype⟩, id', hid, rfl, rfl⟩
    exact ⟨haccepted, htype, hid⟩
  · rintro ⟨haccepted, htype, hid⟩
    exact ⟨r, ⟨haccepted, htype⟩, id, hid, rfl, rfl⟩

/-- A receipt opens and closes no challenge. -/
theorem applyReceipt_challenges (rt : Runtime) (config : ReceiptConfig) (state : CreditsState)
    (envelope : ReceiptEnvelope) (now now' : ℚ) :
    (applyReceipt rt config state envelope now now').1.challenges = state.challenges := by
  obtain ⟨rate, hstate, -⟩ := validateAndApplyReceipt_eq rt config state envelope now
  unfold applyReceipt
  generalize validateAndApplyReceipt rt config state envelope now = validated at hstate
  obtain ⟨state', verdict⟩ := validated
  obtain rfl : state' = { state with rate } := hstate
  cases verdict with
  | error code => rfl
  | ok r =>
    simp only
    split
    · rfl
    · rfl
    · split <;> rfl

/-- The open challenges are those issued last. -/
theorem challenges_exec (rt : Runtime) (config : ReceiptConfig) (start : CreditsState)
    (calls : List Call) (id : JsText) :
    (exec (step rt config) start calls).challenges.get id =
      lastIssued start (trace (step rt config) start calls) id := by
  refine history_of_step (J := fun s l => s.challenges.get id = lastIssued start l id)
    (fun s l call ih => ?_) rfl calls
  have hlast : lastIssued start (l ++ [event (step rt config) s call]) id =
      match issuedAs (event (step rt config) s call) with
      | some (id', c') => if id = id' then some c' else lastIssued start l id
      | none => lastIssued start l id := by
    simp [lastIssued]
  rw [hlast, ← ih]
  cases call with
  | receipt envelope now now' =>
    exact congrArg (·.get id) (applyReceipt_challenges rt config s envelope now now')
  | challenge id' wallet chunkHash ttlMs now now' =>
    exact FinMap.get_set ..

/-- An accepted `VERIFY` receipt redeems the open challenge that it quotes. -/
theorem redeems_of_redeemed (h : redeemed (event (step rt config) state call) = some (id, r)) :
    ∃ c, state.challenges.get id = some c ∧
      Redeems config (event (step rt config) state call) r c := by
  obtain ⟨haccepted, htype, hid⟩ := redeemed_eq_some.1 h
  have hcredited := (event_accepted haccepted).2
  cases call with
  | challenge => cases haccepted
  | receipt envelope now now' =>
    have hverify := (accepted_iff.1 haccepted).type
    rw [checkType, htype] at hverify
    simp only [checkVerify, challengeOf_eq, hid, Option.bind_some] at hverify
    cases hc : state.challenges.get id with
    | none =>
      rw [hc] at hverify
      cases hverify
    | some c =>
      rw [hc] at hverify
      simp only at hverify
      split at hverify
      · cases hverify
      · next hwallet =>
        split at hverify
        · cases hverify
        · next hexpired =>
          split at hverify
          · next hhash =>
            refine ⟨c, rfl, not_not.1 hwallet, Bool.eq_false_of_not_eq_true hexpired, ?_, ?_⟩
            · cases hdetail : detail chunkHashKey r.receipt with
              | none =>
                rw [hdetail] at hhash
                cases hhash
              | some hash =>
                rw [hdetail] at hhash
                exact ⟨hash, rfl, hhash⟩
            · intro w
              rw [not_not.1 hwallet]
              rw [htype] at hcredited
              exact hcredited w
          · cases hverify

theorem reuses_iff (usedUp : JsText → Prop) : Reuses rt config state usedUp call ↔
    ∃ id r, redeemed (event (step rt config) state call) = some (id, r) ∧ usedUp id := by
  simp only [redeemed_eq_some]
  cases call with
  | receipt envelope now now' =>
    simp only [Reuses, accepted_iff]
    constructor
    · rintro ⟨r, id, haccepts, htype, hid, hused⟩
      exact ⟨id, r, ⟨haccepts, htype, hid⟩, hused⟩
    · rintro ⟨id, r, ⟨haccepts, htype, hid⟩, hused⟩
      exact ⟨r, id, haccepts, htype, hid, hused⟩
  | challenge id wallet chunkHash ttlMs now now' =>
    refine iff_of_false not_false ?_
    rintro ⟨id, r, ⟨h, -⟩, -⟩
    cases h

end Steps

/-- **Exactly when a challenge is credited once.** A run keeps the challenge law if and only if no
`VERIFY` receipt that passes the checks quotes a challenge that is used up. -/
theorem challengeLaw_iff (rt : Runtime) (config : ReceiptConfig) (start : CreditsState)
    (calls : List Call) :
    ChallengeLaw rt config start calls ↔ ∀ pre call post, calls = pre ++ call :: post →
      ¬Reuses rt config (exec (step rt config) start pre)
        (UsedUp (trace (step rt config) start pre)) call := by
  constructor
  · rintro hlaw pre call post rfl hreuses
    obtain ⟨id, r', hredeemed', l₁, e, l₂, r, hpre, hredeemed, hnone⟩ := (reuses_iff _).1 hreuses
    have htrace : trace (step rt config) start (pre ++ call :: post) = l₁ ++ e :: (l₂ ++
        event (step rt config) (exec (step rt config) start pre) call ::
          trace (step rt config) (step rt config (exec (step rt config) start pre) call).1 post) := by
      rw [trace_append, trace_cons, hpre, List.append_assoc, List.cons_append]
    obtain ⟨x, hx, c, hissued⟩ := hlaw.once _ _ _ _ _ htrace id r r' hredeemed hredeemed'
    exact hnone x hx c hissued
  · intro hno
    refine ⟨fun l₁ e l₂ htrace id r hredeemed => ?_,
      fun l₁ e l₂ e' l₃ htrace id r r' hredeemed hredeemed' => ?_⟩
    · obtain ⟨pre, call, post, rfl, rfl, rfl, -⟩ := trace_split htrace
      rw [← challenges_exec]
      exact redeems_of_redeemed hredeemed
    · by_contra hnone
      rw [← List.cons_append, ← List.append_assoc] at htrace
      obtain ⟨pre, call, post, rfl, hpre, rfl, -⟩ := trace_split htrace
      refine hno pre call post rfl ((reuses_iff _).2 ⟨id, r', hredeemed', ?_⟩)
      refine ⟨l₁, e, l₂, r, hpre.symm, hredeemed, fun x hx c hissued => ?_⟩
      exact hnone ⟨x, hx, c, hissued⟩

/-! ## One challenge answered twice -/

def exampleAuditor : JsText :=
  ['e', 'b', 'V', 'W', 'L', 'o', '/', 'm', 'V', 'P', 'l', 'A', 'e', 'L', 'E', 'S', '6', 'K', 'm',
   'L', 'p', '5', 'A', 'f', 'h', 'T', 'r', 'm', 'l', 'b', '7', 'X', '4', 'O', 'O', 'R', 'C', '6',
   '0', 'E', 'l', 'm', 'Q', '=']

def exampleChallengeId : JsText :=
  ['7', 'd', '9', 'f', '2', 'c', '1', 'a', '-', '3', 'b', '5', '4', '-', '4', 'e', '0', 'f', '-',
   '9', 'a', '6', 'd', '-', '1', 'c', '2', 'b', '3', 'a', '4', 'd', '5', 'e', '6', 'f']

def exampleChunk : JsText := ['c', '1']

/-- The answer to the challenge, at a time of one digit. -/
def exampleVerify (ts : Char) : Json :=
  .obj [(typeKey, .str ReceiptType.verify.text), (nodeIdKey, .str exampleAuditor), (tsKey, .num [ts]),
    (detailsKey, .obj [(challengeIdKey, .str exampleChallengeId), (chunkHashKey, .str exampleChunk)])]

def exampleVerifySignature (ts : Char) : JsText :=
  if ts = '1' then
    ['N', '7', 'q', 'L', 'O', 'x', '6', 'q', 'J', '4', 'b', 'F', 'R', 'L', '/', 'P', 'K', 'E', 'U',
   'e', 'v', 'Q', 'L', 'K', 'e', 'F', 'v', 'm', 'r', '3', 'E', 'l', '7', 'U', 'o', 'H', 'l', '6',
   'o', 'x', 'f', 'b', 'f', 't', 'L', 'F', '+', 'l', 'j', 'm', 'T', '4', 'O', 'F', 'h', 'm', 'D',
   'G', '1', '0', '2', '7', 'V', 'P', 'D', 'q', 'z', 'I', 'Z', 'c', 'v', 'V', 'F', '7', 'y', '4',
   '9', 'D', 'X', 'J', 'Z', 'u', 'C', '4', 'B', 'A', '=', '=']
  else
    ['z', '6', 'v', '/', 'W', 'h', '5', '6', 'o', 'w', '9', 'j', 'u', 'Z', 'X', 'J', 'd', 'b', 't',
   'K', 'r', '0', 'a', 'F', '+', 'w', 'K', '/', '8', 'd', 'q', 'k', 'p', 'S', 'R', '+', 'R', '7',
   'r', 'M', 'y', 'Z', 'F', 'K', 'j', 'L', 'W', 'U', 'J', 'd', 'J', 'l', 'U', 'U', 'L', 'X', 'i',
   'y', 'z', 'L', 'z', 'T', 'y', 'E', 'z', '2', 'J', 'o', '+', 'Q', 'S', '3', 'W', 'r', '7', 'k',
   'P', 'l', '4', 'A', 'h', 'H', 'z', 'j', 'C', 'Q', '=', '=']

def exampleVerifyId (ts : Char) : JsText :=
  if ts = '1' then
    ['2', '4', '9', '3', '2', 'd', '2', '5', 'd', '6', 'c', 'c', 'f', '5', '2', 'b', '2', '3', '6',
   '9', '1', 'c', '8', 'd', '6', '1', 'c', 'e', '6', '3', 'd', '7', '3', 'f', 'b', '3', 'c', '4',
   '0', '9', 'c', '1', '0', '0', '0', 'c', '0', '0', 'a', 'e', 'c', '2', '9', '6', 'a', '8', 'e',
   'f', '0', '1', 'b', '5', 'e', '5']
  else
    ['1', '9', 'd', '3', 'e', 'a', '5', '0', 'd', 'a', 'c', '0', '7', '0', 'c', '7', '4', '2', 'd',
   '5', 'c', '7', '7', 'd', '5', 'e', '4', '1', 'f', '7', 'e', '9', 'a', '2', '4', '8', 'a', '6',
   '5', 'c', '7', 'b', '7', '1', '6', '4', 'e', '2', 'c', 'a', 'e', '9', '7', '5', 'd', 'f', '2',
   '9', '7', 'd', '4', 'a', 'd', '7']

/-- It knows the hashes and the signatures of the answers at the times 1 and 2. -/
def exampleAuditRuntime : Runtime where
  sha256Hex bytes :=
    if bytes = JsText.utf8 (exampleVerify '1').stringify then exampleVerifyId '1'
    else if bytes = JsText.utf8 (exampleVerify '2').stringify then exampleVerifyId '2' else []
  base64ToBytes := decodeBase64
  verifyAsync sig payload pub := some (decide (pub = decodeBase64 exampleAuditor) &&
    ['1', '2'].any fun ts => sig = decodeBase64 (exampleVerifySignature ts) ∧
      payload = JsText.utf8 (['r', 'e', 'c', 'e', 'i', 'p', 't', '\n'] ++
        (exampleVerify ts).print (Json.sortByKey compare)))
  localeCompare := compare

def exampleAuditStart : CreditsState := ⟨.empty, .empty, [exampleAuditor], [], .empty, .empty⟩

def exampleAnswer (ts : Char) (now : ℚ) : Call :=
  .receipt ⟨some (exampleVerify ts), some (exampleVerifySignature ts), some exampleAuditor⟩ now now

/-- A challenge and two receipts that answer it. -/
def exampleAudit : List Call :=
  [.challenge exampleChallengeId exampleAuditor exampleChunk (.fin 300000) 0 0,
    exampleAnswer '1' 1, exampleAnswer '2' 2]

/-- Both receipts are credited. -/
theorem exampleAudit_not_challengeLaw :
    ¬ChallengeLaw exampleAuditRuntime exampleConfig exampleAuditStart exampleAudit := by
  intro h
  let after (n : ℕ) := exec (step exampleAuditRuntime exampleConfig) exampleAuditStart
    (exampleAudit.take n)
  let first := event (step exampleAuditRuntime exampleConfig) (after 1) (exampleAnswer '1' 1)
  let second := event (step exampleAuditRuntime exampleConfig) (after 2) (exampleAnswer '2' 2)
  have hfirst : (redeemed first).map Prod.fst = some exampleChallengeId := by decide +kernel
  have hsecond : (redeemed second).map Prod.fst = some exampleChallengeId := by decide +kernel
  obtain ⟨⟨id, r⟩, hr, rfl⟩ := Option.map_eq_some_iff.1 hfirst
  obtain ⟨⟨id, r'⟩, hr', rfl⟩ := Option.map_eq_some_iff.1 hsecond
  obtain ⟨x, hx, -⟩ := h.once (trace (step exampleAuditRuntime exampleConfig) exampleAuditStart
    (exampleAudit.take 1)) first [] second [] rfl exampleChallengeId r r' hr hr'
  cases hx

end Ddns.Coordinator
