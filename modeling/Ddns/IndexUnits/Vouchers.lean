import Ddns.IndexUnits.SpendEscrow
import Ddns.Lib.FinMap
import Ddns.Lib.JsonText
import Ddns.Lib.NumberText
import Ddns.Lib.Replay

/-!
# The voucher verifiers

The contract `VoucherVerifier` takes a voucher from anyone who submits it; `VoucherVerifierMemory`
asks for a signature and an expiry too. Both take tickets once: a voucher is taken exactly if its id
is new and its nonce is larger than all that were taken of its user. In the memory verifier the id
is the hash of what is signed, so an id that was used comes with a nonce that was used, and the
answer `replay` is never given unless two payloads have one hash.
-/

namespace Ddns.IndexUnits

open Evm Replay

/-! ## The contract -/

structure VoucherVerifier where
  owner : Address
  lastNonce : Address → Word
  voucherUsed : Word → Bool

/-- Why a voucher is refused; the memory verifier has two reasons more. -/
inductive Refusal where
  | replay | nonce | badSignature | expired
  deriving DecidableEq, Repr

def Refusal.text : Refusal → String
  | .replay => "replay"
  | .nonce => "nonce"
  | .badSignature => "bad_signature"
  | .expired => "expired"

inductive VoucherEvent where
  | accepted (user : Address) (voucherId amount settlementId : Word)
  | rejected (user : Address) (voucherId : Word) (reason : Refusal)
  deriving DecidableEq

inductive VoucherCall where
  | submitVoucher (user : Address) (nonce amount voucherId settlementId : Word)
  | setOwner (nextOwner : Address)

namespace VoucherVerifier

/-- `constructor`. -/
def deploy (sender : Caller) : VoucherVerifier := ⟨sender.address, fun _ => 0, fun _ => false⟩

def submitVoucher (c : VoucherVerifier) (user : Address) (nonce amount voucherId settlementId : Word) :
    VoucherVerifier × VoucherEvent :=
  if c.voucherUsed voucherId = true then (c, .rejected user voucherId .replay)
  else if nonce.toNat ≤ (c.lastNonce user).toNat then (c, .rejected user voucherId .nonce)
  else
    ({ c with
        voucherUsed := Function.update c.voucherUsed voucherId true
        lastNonce := Function.update c.lastNonce user nonce },
      .accepted user voucherId amount settlementId)

def setOwner (c : VoucherVerifier) (sender nextOwner : Address) :
    Except (Failure Reason) VoucherVerifier := do
  require (sender = c.owner) .notOwner
  pure { c with owner := nextOwner }

/-- One transaction, with the event that a voucher causes. -/
def step (c : VoucherVerifier) (i : Caller × VoucherCall) :
    VoucherVerifier × Except (Failure Reason) (Option VoucherEvent) :=
  match i.2 with
  | .submitVoucher user nonce amount voucherId settlementId =>
    let r := c.submitVoucher user nonce amount voucherId settlementId
    (r.1, .ok (some r.2))
  | .setOwner nextOwner =>
    match c.setOwner i.1.address nextOwner with
    | .ok c' => (c', .ok none)
    | .error f => (c, .error f)

/-- The voucher an event takes. -/
def taken (e : Runs.Event VoucherVerifier (Caller × VoucherCall)
    (Except (Failure Reason) (Option VoucherEvent))) : Option (Ticket Address ℕ Word) :=
  match e.input.2, e.out with
  | .submitVoucher user nonce _ voucherId _, .ok (some (.accepted _ _ _ _)) =>
    some ⟨user, nonce.toNat, voucherId⟩
  | _, _ => none

section Laws

variable {c : VoucherVerifier} {user : Address} {nonce amount voucherId settlementId : Word}

/-- A voucher is taken if it passes both tests. -/
theorem submitVoucher_taken (amount settlementId : Word) (hused : c.voucherUsed voucherId ≠ true)
    (hnonce : (c.lastNonce user).toNat < nonce.toNat) :
    c.submitVoucher user nonce amount voucherId settlementId =
      ({ c with
          voucherUsed := Function.update c.voucherUsed voucherId true
          lastNonce := Function.update c.lastNonce user nonce },
        .accepted user voucherId amount settlementId) := by
  rw [submitVoucher, if_neg hused, if_neg (Nat.not_le.2 hnonce)]

/-- Otherwise it is refused and nothing changes. -/
theorem submitVoucher_refused (amount settlementId : Word)
    (h : ¬((c.lastNonce user).toNat < nonce.toNat ∧ c.voucherUsed voucherId ≠ true)) :
    ∃ reason, c.submitVoucher user nonce amount voucherId settlementId =
      (c, .rejected user voucherId reason) := by
  unfold submitVoucher
  by_cases hused : c.voucherUsed voucherId = true
  · rw [if_pos hused]
    exact ⟨.replay, rfl⟩
  · have hle : nonce.toNat ≤ (c.lastNonce user).toNat := Nat.not_lt.1 fun hlt => h ⟨hlt, hused⟩
    rw [if_neg hused, if_pos hle]
    exact ⟨.nonce, rfl⟩

theorem setOwner_same {sender nextOwner : Address} {c' : VoucherVerifier}
    (h : c.setOwner sender nextOwner = .ok c') :
    c'.lastNonce = c.lastNonce ∧ c'.voucherUsed = c.voucherUsed := by
  simp only [setOwner, bind_eq_ok, require_eq_ok, exists_unit, pure_eq_ok] at h
  obtain ⟨-, rfl⟩ := h
  exact ⟨rfl, rfl⟩

theorem keeper : Keeper step taken (fun c user => (c.lastNonce user).toNat)
    fun c id => c.voucherUsed id = true where
  take {c i v} h := by
    obtain ⟨sender, call⟩ := i
    cases call with
    | setOwner nextOwner => simp [taken] at h
    | submitVoucher user nonce amount voucherId settlementId =>
      by_cases htest : (c.lastNonce user).toNat < nonce.toNat ∧ c.voucherUsed voucherId ≠ true
      · have hsubmit := submitVoucher_taken amount settlementId
          htest.2 htest.1
        have hv : v = ⟨user, nonce.toNat, voucherId⟩ := by
          simp only [taken, Runs.event_input, Runs.event_out, step, hsubmit, Option.some.injEq] at h
          exact h.symm
        subst hv
        refine ⟨htest.1, htest.2, ?_, fun k hk => ?_, fun id => ?_⟩
        · simp [step, hsubmit]
        · simp only [step, hsubmit, Function.update_of_ne hk]
        · by_cases hid : id = voucherId
          · simp [step, hsubmit, hid]
          · simp [step, hsubmit, hid]
      · obtain ⟨reason, hsubmit⟩ :=
          submitVoucher_refused amount settlementId htest
        simp [taken, step, hsubmit] at h
  skip {c i} h := by
    obtain ⟨sender, call⟩ := i
    cases call with
    | setOwner nextOwner =>
      cases hset : c.setOwner sender.address nextOwner with
      | error f => simp [step, hset]
      | ok c' =>
        obtain ⟨hlast, hused⟩ := setOwner_same hset
        simp [step, hset, hlast, hused]
    | submitVoucher user nonce amount voucherId settlementId =>
      by_cases htest : (c.lastNonce user).toNat < nonce.toNat ∧ c.voucherUsed voucherId ≠ true
      · have hsubmit := submitVoucher_taken amount settlementId
          htest.2 htest.1
        simp [taken, step, hsubmit] at h
      · obtain ⟨reason, hsubmit⟩ :=
          submitVoucher_refused amount settlementId htest
        simp [step, hsubmit]

/-- The vouchers taken in a run. -/
def takenBy (owner : Caller) (is : List (Caller × VoucherCall)) : List (Ticket Address ℕ Word) :=
  (Runs.trace step (deploy owner) is).filterMap taken

theorem covers (owner : Caller) (is : List (Caller × VoucherCall)) :
    Covers 0 (fun user => ((Runs.exec step (deploy owner) is).lastNonce user).toNat)
      (fun id => (Runs.exec step (deploy owner) is).voucherUsed id = true) (takenBy owner is) ∧
    (takenBy owner is).Pairwise Ticket.Before := by
  refine keeper.covers ⟨fun i => ?_, fun _ => Nat.zero_le _, fun u hu => ?_, fun _ => .inl rfl⟩ is
  · simp [deploy]
  · exact absurd hu List.not_mem_nil

/-- **The contract takes a voucher once.** After every run of calls, by anyone and in any order, a
voucher that is submitted next is taken exactly if no voucher taken so far has its id and those of
its user have smaller nonces. So the vouchers taken in a run have different ids, and those of one
user have increasing nonces. -/
theorem voucher_accepted_iff (owner : Caller) (before : List (Caller × VoucherCall))
    (sender : Caller) (user : Address) (nonce amount voucherId settlementId : Word) :
    ((step (Runs.exec step (deploy owner) before)
        (sender, .submitVoucher user nonce amount voucherId settlementId)).2 =
          .ok (some (.accepted user voucherId amount settlementId)) ↔
      Fresh 0 (takenBy owner before) ⟨user, nonce.toNat, voucherId⟩) ∧
    (takenBy owner before).Pairwise Ticket.Before := by
  obtain ⟨hcovers, hpairwise⟩ := covers owner before
  refine ⟨?_, hpairwise⟩
  rw [← hcovers.fresh_iff]
  constructor
  · intro hout
    by_contra hnot
    obtain ⟨reason, hsubmit⟩ :=
      submitVoucher_refused amount settlementId hnot
    simp [step, hsubmit] at hout
  · rintro ⟨hnonce, hused⟩
    have hsubmit := submitVoucher_taken amount settlementId hused hnonce
    simp only [step, hsubmit]

theorem number_lt {e : Runs.Event VoucherVerifier (Caller × VoucherCall)
    (Except (Failure Reason) (Option VoucherEvent))} {v : Ticket Address ℕ Word}
    (h : taken e = some v) : v.number < 2 ^ 256 := by
  unfold taken at h
  split at h
  · cases h
    exact BitVec.isLt _
  · cases h

/-- After the largest nonce of a user, none is taken of it. -/
theorem number_of_taken {owner : Caller} {is : List (Caller × VoucherCall)} {u : Ticket Address ℕ Word}
    (hlast : u.number = 2 ^ 256 - 1) {l l' : List (Ticket Address ℕ Word)}
    (h : takenBy owner is = l ++ l') (hu : u ∈ l) : ∀ v ∈ l', v.holder ≠ u.holder := by
  intro v hv hholder
  have hpairwise := (covers owner is).2
  rw [h, List.pairwise_append] at hpairwise
  have hlt := (hpairwise.2.2 u hu v hv).2 hholder.symm
  have hmem : v ∈ takenBy owner is := h ▸ List.mem_append_right l hv
  obtain ⟨e, -, he⟩ := List.mem_filterMap.1 hmem
  have hbound := number_lt he
  omega

/-- **Anyone can lock a user out.** Nothing is asked of who submits a voucher: after any run, one
call of anybody with an unused id and the largest nonce is the last that the contract takes of a
user, unless that nonce was taken already. -/
theorem anyone_locks_out (owner : Caller) (before : List (Caller × VoucherCall)) (anyone : Caller)
    (user : Address) (amount voucherId settlementId : Word)
    (hid : ∀ v ∈ takenBy owner before, v.id ≠ voucherId)
    (after : List (Caller × VoucherCall)) :
    ∀ v ∈ takenBy owner (before ++ (anyone, .submitVoucher user (BitVec.allOnes 256) amount voucherId
        settlementId) :: after),
      v.holder = user → v ∈ takenBy owner before ∨ v = ⟨user, 2 ^ 256 - 1, voucherId⟩ := by
  intro v hv hholder
  obtain ⟨hcovers, -⟩ := covers owner before
  let i : Caller × VoucherCall :=
    (anyone, .submitVoucher user (BitVec.allOnes 256) amount voucherId settlementId)
  let c := Runs.exec step (deploy owner) before
  let later := (Runs.trace step (step c i).1 after).filterMap taken
  have hmax : (BitVec.allOnes 256).toNat = 2 ^ 256 - 1 := BitVec.toNat_allOnes
  have hunused : c.voucherUsed voucherId ≠ true := by
    intro hused
    obtain ⟨u, hu, huid⟩ := (hcovers.used_iff voucherId).1 hused
    exact hid u hu huid
  have hsplit : takenBy owner (before ++ i :: after) =
      takenBy owner before ++ ((taken (Runs.event step c i)).toList ++ later) := by
    unfold takenBy
    rw [Runs.trace_append, Runs.trace_cons, List.filterMap_append, List.filterMap_cons]
    cases taken (Runs.event step c i) with
    | none => rfl
    | some u => rfl
  by_cases hnonce : (c.lastNonce user).toNat < (BitVec.allOnes 256).toNat
  · -- The call is taken, and it is the last of the user.
    have hsubmit := submitVoucher_taken amount settlementId hunused
      hnonce
    have htaken : taken (Runs.event step c i) =
        some ⟨user, (BitVec.allOnes 256).toNat, voucherId⟩ := by
      simp only [i, taken, Runs.event_input, Runs.event_out, step, hsubmit]
    rw [htaken, Option.toList_some, ← List.append_assoc] at hsplit
    have hnone := number_of_taken hmax hsplit
      (List.mem_append_right _ (List.mem_singleton_self _))
    rw [hsplit, List.append_assoc, List.mem_append, List.mem_append, List.mem_singleton] at hv
    rcases hv with hv | rfl | hv
    · exact .inl hv
    · exact .inr (by rw [hmax])
    · exact absurd hholder (hnone v hv)
  · -- The largest nonce was taken before.
    rcases hcovers.last_mem user with hzero | ⟨u, hu, huser, hnumber⟩
    · have hc : (c.lastNonce user).toNat = 0 := hzero
      omega
    · have hnumber' : u.number = (c.lastNonce user).toNat := hnumber
      have hlt := (c.lastNonce user).isLt
      have hnone := number_of_taken (u := u) (by omega) hsplit hu
      rw [hsplit, List.mem_append] at hv
      rcases hv with hv | hv
      · exact .inl hv
      · exact absurd (hholder.trans huser.symm) (hnone v hv)

theorem anyone_locks_out_at_once :
    ∀ v ∈ takenBy ⟨1, one_ne_nobody⟩ ([] ++ (⟨2, two_ne_nobody⟩,
        .submitVoucher 5 (BitVec.allOnes 256) 1 7 0) :: [(⟨1, one_ne_nobody⟩,
          .submitVoucher 5 1 1 8 0)]),
      v.holder = 5 → v ∈ takenBy ⟨1, one_ne_nobody⟩ [] ∨ v = ⟨5, 2 ^ 256 - 1, 7⟩ :=
  anyone_locks_out ⟨1, one_ne_nobody⟩ [] ⟨2, two_ne_nobody⟩ 5 1 7 0
    (fun _ hv => absurd hv List.not_mem_nil) [(⟨1, one_ne_nobody⟩, .submitVoucher 5 1 1 8 0)]

end Laws

end VoucherVerifier

end Ddns.IndexUnits

/-!
## The voucher verifier in memory

`VoucherVerifierMemory` takes vouchers that are signed with its secret. The signature and the id of
a voucher are hashes of the text of its payload, here two functions of that text. A voucher is taken
exactly if it is signed, its nonce is an integer larger than all that were taken of its user, its id
is new and it has not expired. As the id hashes the nonce too, a used id comes with a used nonce,
and nonces are looked at first: the answer `replay` betrays two payloads with one hash.
-/

namespace Ddns.IndexUnits

open Replay

def userKey : JsText := ['u', 's', 'e', 'r']

def nonceKey : JsText := ['n', 'o', 'n', 'c', 'e']

/-- A payload as it was parsed, with the properties that are read. -/
structure VoucherPayload where
  json : Json
  user : JsText
  nonce : JsText
  /-- `scope.exp`. -/
  exp : ℚ
  numeric : json.numeric
  user_eq : json.field userKey = some (.str user)
  nonce_eq : json.field nonceKey = some (.str nonce)

structure SignedVoucher where
  payload : VoucherPayload
  signature : JsText

/-- The hashes: the HMAC with the secret, and SHA-256, both in hexadecimal digits. -/
structure Hashes where
  hmac : JsText → JsText
  sha256 : JsText → JsText

/-- `JSON.stringify(payload)`. -/
def VoucherPayload.body (p : VoucherPayload) : JsText := p.json.stringify

/-- The text of a payload has its user and its nonce. -/
theorem VoucherPayload.eq_of_body {p q : VoucherPayload} (h : p.body = q.body) :
    p.user = q.user ∧ p.nonce = q.nonce := by
  have hjson := Json.stringify_inj p.numeric q.numeric h
  have huser := p.user_eq.symm.trans (hjson ▸ q.user_eq)
  have hnonce := p.nonce_eq.symm.trans (hjson ▸ q.nonce_eq)
  simp only [Option.some.injEq, Json.str.injEq] at huser hnonce
  exact ⟨huser, hnonce⟩

structure VoucherVerifierMemory where
  lastNonce : FinMap JsText ℤ
  used : List JsText

/-- The answer to a voucher; `syntaxError` is what `BigInt` throws. -/
inductive Verdict where
  | ok
  | refused (reason : Refusal)
  | syntaxError
  deriving DecidableEq, Repr

namespace VoucherVerifierMemory

variable (H : Hashes)

/-- `constructor`. -/
def init : VoucherVerifierMemory := ⟨FinMap.empty, []⟩

/-- `sign`. -/
def sign (payload : VoucherPayload) : SignedVoucher := ⟨payload, H.hmac payload.body⟩

def voucherId (payload : VoucherPayload) : JsText := H.sha256 payload.body

/-- `this.lastNonce.get(user) || 0n`. -/
def last (m : VoucherVerifierMemory) (user : JsText) : ℤ := (m.lastNonce.get user).getD 0

/-- The end of `verify`: the nonce, the id and the expiry of a payload. -/
def admitVoucher (m : VoucherVerifierMemory) (now : ℚ) (payload : VoucherPayload) (nonce : ℤ) :
    VoucherVerifierMemory × Verdict :=
  if nonce ≤ m.last payload.user then (m, .refused .nonce)
  else if voucherId H payload ∈ m.used then (m, .refused .replay)
  else if payload.exp ≠ 0 ∧ payload.exp < now then (m, .refused .expired)
  else (⟨m.lastNonce.set payload.user nonce, m.used ++ [voucherId H payload]⟩, .ok)

/-- `verify`, at the given time in seconds. -/
def verify (m : VoucherVerifierMemory) (now : ℚ) (voucher : SignedVoucher) :
    VoucherVerifierMemory × Verdict :=
  if voucher.signature ≠ H.hmac voucher.payload.body then (m, .refused .badSignature)
  else match NumberText.bigInt voucher.payload.nonce with
    | none => (m, .syntaxError)
    | some nonce => admitVoucher H m now voucher.payload nonce

/-- One voucher that arrives at some time. -/
def step (m : VoucherVerifierMemory) (i : ℚ × SignedVoucher) : VoucherVerifierMemory × Verdict :=
  verify H m i.1 i.2

/-- The voucher an event takes. -/
def taken (e : Runs.Event VoucherVerifierMemory (ℚ × SignedVoucher) Verdict) :
    Option (Ticket JsText ℤ JsText) :=
  if e.out = .ok then
    (NumberText.bigInt e.input.2.payload.nonce).map fun nonce =>
      ⟨e.input.2.payload.user, nonce, voucherId H e.input.2.payload⟩
  else none

/-- The vouchers taken in a run. -/
def takenBy (is : List (ℚ × SignedVoucher)) : List (Ticket JsText ℤ JsText) :=
  (Runs.trace (step H) init is).filterMap (taken H)

section Laws

variable {H} {m : VoucherVerifierMemory} {now : ℚ} {voucher : SignedVoucher}

/-- What is asked of a voucher apart from its nonce and id. -/
def Valid (H : Hashes) (now : ℚ) (voucher : SignedVoucher) : Prop :=
  voucher.signature = H.hmac voucher.payload.body ∧
    ¬(voucher.payload.exp ≠ 0 ∧ voucher.payload.exp < now)

theorem verify_badSignature (h : voucher.signature ≠ H.hmac voucher.payload.body) :
    verify H m now voucher = (m, .refused .badSignature) := if_pos h

theorem verify_syntaxError (h : voucher.signature = H.hmac voucher.payload.body)
    (hnonce : NumberText.bigInt voucher.payload.nonce = none) :
    verify H m now voucher = (m, .syntaxError) := by
  rw [verify, if_neg (not_not.2 h), hnonce]

theorem verify_admitVoucher (h : voucher.signature = H.hmac voucher.payload.body) {nonce : ℤ}
    (hnonce : NumberText.bigInt voucher.payload.nonce = some nonce) :
    verify H m now voucher = admitVoucher H m now voucher.payload nonce := by
  rw [verify, if_neg (not_not.2 h), hnonce]

/-- A voucher is taken and remembered, or refused and nothing changes. -/
theorem verify_cases (H : Hashes) (m : VoucherVerifierMemory) (now : ℚ) (voucher : SignedVoucher) :
    (∃ nonce, Valid H now voucher ∧ NumberText.bigInt voucher.payload.nonce = some nonce ∧
      m.last voucher.payload.user < nonce ∧ voucherId H voucher.payload ∉ m.used ∧
      verify H m now voucher = (⟨m.lastNonce.set voucher.payload.user nonce,
        m.used ++ [voucherId H voucher.payload]⟩, .ok)) ∨
    (verify H m now voucher).1 = m ∧ (verify H m now voucher).2 ≠ .ok ∧
      ((verify H m now voucher).2 = .refused .replay → ∃ nonce,
        NumberText.bigInt voucher.payload.nonce = some nonce ∧
        m.last voucher.payload.user < nonce ∧ voucherId H voucher.payload ∈ m.used) := by
  by_cases hsig : voucher.signature = H.hmac voucher.payload.body
  · cases hnonce : NumberText.bigInt voucher.payload.nonce with
    | none =>
      rw [verify_syntaxError hsig hnonce]
      exact .inr ⟨rfl, by simp, by simp⟩
    | some nonce =>
      rw [verify_admitVoucher hsig hnonce, admitVoucher]
      by_cases hlast : nonce ≤ m.last voucher.payload.user
      · rw [if_pos hlast]
        exact .inr ⟨rfl, by simp, by simp⟩
      rw [if_neg hlast]
      by_cases hused : voucherId H voucher.payload ∈ m.used
      · rw [if_pos hused]
        exact .inr ⟨rfl, by simp, fun _ => ⟨nonce, rfl, not_le.1 hlast, hused⟩⟩
      rw [if_neg hused]
      by_cases hexp : voucher.payload.exp ≠ 0 ∧ voucher.payload.exp < now
      · rw [if_pos hexp]
        exact .inr ⟨rfl, by simp, by simp⟩
      · rw [if_neg hexp]
        exact .inl ⟨nonce, ⟨hsig, hexp⟩, rfl, not_le.1 hlast, hused, rfl⟩
  · rw [verify_badSignature hsig]
    exact .inr ⟨rfl, by simp, by simp⟩

theorem taken_of_not_ok {i : ℚ × SignedVoucher} (h : (verify H m i.1 i.2).2 ≠ .ok) :
    taken H (Runs.event (step H) m i) = none := if_neg h

theorem taken_of_ok {i : ℚ × SignedVoucher} {nonce : ℤ}
    (hnonce : NumberText.bigInt i.2.payload.nonce = some nonce)
    (h : (verify H m i.1 i.2).2 = .ok) : taken H (Runs.event (step H) m i) =
      some ⟨i.2.payload.user, nonce, voucherId H i.2.payload⟩ := by
  have hout : (Runs.event (step H) m i).out = .ok := h
  unfold taken
  rw [if_pos hout, Runs.event_input, hnonce]
  rfl

theorem keeper (H : Hashes) :
    Keeper (step H) (taken H) last fun m id => id ∈ m.used where
  take {m i v} h := by
    rcases verify_cases H m i.1 i.2 with ⟨nonce, -, hnonce, hlast, hused, hv⟩ | ⟨-, hnot, -⟩
    · have htaken := taken_of_ok (H := H) (m := m) hnonce (by rw [hv])
      rw [htaken, Option.some.injEq] at h
      subst h
      have hstep : (step H m i).1 = ⟨m.lastNonce.set i.2.payload.user nonce,
        m.used ++ [voucherId H i.2.payload]⟩ := by rw [step, hv]
      refine ⟨hlast, hused, ?_, fun k hk => ?_, fun id => ?_⟩
      · rw [hstep, last, FinMap.get_set_self]
        rfl
      · rw [hstep, last, FinMap.get_set_ne _ _ hk]
        rfl
      · rw [hstep, List.mem_append, List.mem_singleton]
    · rw [taken_of_not_ok hnot] at h
      cases h
  skip {m i} h := by
    rcases verify_cases H m i.1 i.2 with ⟨nonce, -, hnonce, -, -, hv⟩ | ⟨hsame, -, -⟩
    · rw [taken_of_ok (H := H) (m := m) hnonce (by rw [hv])] at h
      cases h
    · rw [step, hsame]
      exact ⟨fun _ => rfl, fun _ => Iff.rfl⟩

theorem covers (H : Hashes) (is : List (ℚ × SignedVoucher)) :
    Covers 0 (last (Runs.exec (step H) init is)) (fun id => id ∈ (Runs.exec (step H) init is).used)
      (takenBy H is) ∧ (takenBy H is).Pairwise Ticket.Before := by
  refine (keeper H).covers ⟨fun i => ?_, fun _ => le_rfl, fun u hu => ?_, fun _ => .inl rfl⟩ is
  · simp [init]
  · exact absurd hu List.not_mem_nil

/-- **The memory verifier takes a voucher once.** After every run of vouchers, in any order and at
any times, a voucher is taken next exactly if its signature is that of its payload, it has not
expired, its nonce is an integer, and among the vouchers taken so far none has its id and those of
its user have smaller nonces. -/
theorem voucher_ok_iff (H : Hashes) (before : List (ℚ × SignedVoucher)) (now : ℚ)
    (voucher : SignedVoucher) :
    ((verify H (Runs.exec (step H) init before) now voucher).2 = .ok ↔
      Valid H now voucher ∧ ∃ nonce, NumberText.bigInt voucher.payload.nonce = some nonce ∧
        Fresh 0 (takenBy H before)
          ⟨voucher.payload.user, nonce, voucherId H voucher.payload⟩) ∧
    (takenBy H before).Pairwise Ticket.Before := by
  obtain ⟨hcovers, hpairwise⟩ := covers H before
  refine ⟨?_, hpairwise⟩
  constructor
  · intro hok
    rcases verify_cases H (Runs.exec (step H) init before) now voucher with
      ⟨nonce, hvalid, hnonce, hlast, hused, -⟩ | ⟨-, hnot, -⟩
    · exact ⟨hvalid, nonce, hnonce, hcovers.fresh_iff.1 ⟨hlast, hused⟩⟩
    · exact absurd hok hnot
  · rintro ⟨⟨hsig, hexp⟩, nonce, hnonce, hfresh⟩
    obtain ⟨hlast, hused⟩ := hcovers.fresh_iff.2 hfresh
    rw [verify_admitVoucher hsig hnonce, admitVoucher, if_neg (not_le.2 hlast), if_neg hused,
      if_neg hexp]

/-- **`replay` is never the reason**, short of a collision: if a verifier gives it, at the end of any
run, an earlier payload with another text has the same hash. -/
theorem replay_needs_collision (H : Hashes) (before : List (ℚ × SignedVoucher)) (now : ℚ)
    (voucher : SignedVoucher)
    (h : (verify H (Runs.exec (step H) init before) now voucher).2 = .refused .replay) :
    ∃ i ∈ before, i.2.payload.body ≠ voucher.payload.body ∧
      H.sha256 i.2.payload.body = H.sha256 voucher.payload.body := by
  obtain ⟨nonce, hnonce, hlast, hused⟩ : ∃ nonce,
      NumberText.bigInt voucher.payload.nonce = some nonce ∧
      (Runs.exec (step H) init before).last voucher.payload.user < nonce ∧
      voucherId H voucher.payload ∈ (Runs.exec (step H) init before).used := by
    rcases verify_cases H (Runs.exec (step H) init before) now voucher with
      ⟨nonce, -, -, -, -, hv⟩ | ⟨-, -, hreplay⟩
    · rw [hv] at h
      cases h
    · exact hreplay h
  obtain ⟨hcovers, -⟩ := covers H before
  obtain ⟨u, hu, huid⟩ := (hcovers.used_iff _).1 hused
  obtain ⟨e, he, hue⟩ := List.mem_filterMap.1 hu
  obtain ⟨pre, i, post, rfl, rfl⟩ := Runs.mem_trace he
  refine ⟨i, List.mem_append_right _ List.mem_cons_self, fun hbody => ?_, ?_⟩
  · -- With one text the nonces are one, and it was used.
    unfold taken at hue
    split at hue
    · obtain ⟨n, hn, rfl⟩ := Option.map_eq_some_iff.1 hue
      obtain ⟨huser, hsame⟩ := VoucherPayload.eq_of_body hbody
      rw [Runs.event_input] at hn
      have hnumber := hcovers.number_le _ hu
      rw [hsame, hnonce, Option.some.injEq] at hn
      simp only [Runs.event_input, huser] at hnumber
      omega
    · cases hue
  · unfold taken at hue
    split at hue
    · obtain ⟨n, hn, rfl⟩ := Option.map_eq_some_iff.1 hue
      exact huid
    · cases hue

/-- A payload without expiry. -/
def examplePayload (user nonce : JsText) : VoucherPayload where
  json := .obj [(userKey, .str user), (nonceKey, .str nonce)]
  user := user
  nonce := nonce
  exp := 0
  numeric := rfl
  user_eq := rfl
  nonce_eq := rfl

/-- A hash that tells nothing apart. -/
def blind : Hashes := ⟨fun _ => [], fun _ => []⟩

theorem replay_needs_collision_example :
    ∃ i ∈ [((0 : ℚ), sign blind (examplePayload ['a'] ['1']))],
      i.2.payload.body ≠ (examplePayload ['b'] ['1']).body ∧
        blind.sha256 i.2.payload.body = blind.sha256 (examplePayload ['b'] ['1']).body :=
  replay_needs_collision blind [(0, sign blind (examplePayload ['a'] ['1']))] 0
    (sign blind (examplePayload ['b'] ['1'])) (by decide)

end Laws

end VoucherVerifierMemory

end Ddns.IndexUnits
