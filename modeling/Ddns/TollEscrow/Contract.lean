import Ddns.Lib.Evm
import Ddns.Lib.FinMap
import Ddns.Lib.Reentry

/-!
# The escrow of the comment tolls

The contract `TollCommentsEscrow`. A payer deposits Ether under an intent; later the refund operator
sends it back with a bonus, or it is forfeited to the treasury, by the forfeit operator or, once the
delay has passed, by anyone. Sending Ether hands control to the recipient, so the contract is a
component that hands control away: `refund` and `forfeit` hold a lock meanwhile and emit their event
afterwards, `deposit` takes no notice of the lock.

A `World` is the contract with what the chain keeps about it: its Ether, its event log, the Ether it
has sent, and the Ether that was forced upon it without a call.
-/

namespace Ddns.TollEscrow

open Evm Reentry

/-- `Deposit`. -/
structure Deposit where
  payer : Address
  amount : Word
  depositedAt : Uint64
  refunded : Bool
  forfeited : Bool
  deriving DecidableEq

/-- What a mapping reads where nothing was written. -/
def Deposit.unset : Deposit := ⟨0, 0, 0, false, false⟩

/-- Neither refunded nor forfeited. -/
def Deposit.isOpen (d : Deposit) : Bool := !d.refunded && !d.forfeited

/-- The storage of the contract. -/
structure TollCommentsEscrow where
  deposits : FinMap Word Deposit
  treasury : Address
  refundOperator : Address
  forfeitOperator : Address
  forfeitDelay : Uint64
  owner : Address
  locked : Bool

/-- `deposits[intentId]`. -/
def TollCommentsEscrow.read (c : TollCommentsEscrow) (intentId : Word) : Deposit :=
  (c.deposits.get intentId).getD Deposit.unset

inductive Event where
  | deposited (intentId : Word) (payer : Address) (amount : Word)
  | refunded (intentId : Word) (payer : Address) (amount bonus : Word)
  | forfeited (intentId : Word) (payer : Address) (amount : Word)
  deriving DecidableEq

/-- What the checks say. -/
inductive Reason where
  | notOwner | notRefundOperator | reentrancy
  | treasuryRequired | refundOperatorRequired | forfeitOperatorRequired
  | amountRequired | intentAlreadyDeposited | depositMissing | alreadyProcessed
  | refundFailed | notAuthorized | forfeitFailed
  deriving DecidableEq, Repr

def Reason.text : Reason → String
  | .notOwner => "Not owner"
  | .notRefundOperator => "Not refund operator"
  | .reentrancy => "Reentrancy"
  | .treasuryRequired => "Treasury required"
  | .refundOperatorRequired => "Refund operator required"
  | .forfeitOperatorRequired => "Forfeit operator required"
  | .amountRequired => "Amount required"
  | .intentAlreadyDeposited => "Intent already deposited"
  | .depositMissing => "Deposit missing"
  | .alreadyProcessed => "Already processed"
  | .refundFailed => "Refund failed"
  | .notAuthorized => "Not authorized"
  | .forfeitFailed => "Forfeit failed"

/-- A transfer of Ether out of the contract. -/
structure Transfer where
  recipient : Address
  amount : Nat
  deriving DecidableEq

structure World where
  contract : TollCommentsEscrow
  balance : Nat
  logs : List Event
  transfers : List Transfer
  forced : Nat

/-- The calls that wait for the recipient of Ether, with what they read afterwards. -/
inductive Pending where
  | refund (intentId value : Word)
  | forfeit (intentId : Word)

inductive Function where
  | deposit (intentId : Word)
  | refund (intentId : Word)
  | forfeit (intentId : Word)
  | updateOperators (refundOperator forfeitOperator : Address)
  | updateForfeitDelay (forfeitDelay : Uint64)

/-- A call with its Ether, or Ether that a self-destructing contract leaves behind. -/
inductive Input where
  | call (sender : Caller) (value : Word) (f : Function)
  | force (amount : Nat)

/-- An outcome of a call's first part. -/
abbrev Outcome := Except (Failure Reason) (Entry (Failure Reason) World Pending)

/-- `constructor`. -/
def deploy (sender : Caller) (treasury refundOperator forfeitOperator : Address)
    (forfeitDelay : Uint64) : Except (Failure Reason) World := do
  require (treasury ≠ 0) .treasuryRequired
  require (refundOperator ≠ 0) .refundOperatorRequired
  require (forfeitOperator ≠ 0) .forfeitOperatorRequired
  pure ⟨⟨FinMap.empty, treasury, refundOperator, forfeitOperator, forfeitDelay, sender.address, false⟩,
    0, [], [], 0⟩

namespace World

def write (w : World) (intentId : Word) (d : Deposit) : World :=
  { w with contract := { w.contract with deposits := w.contract.deposits.set intentId d } }

def setLocked (w : World) (locked : Bool) : World :=
  { w with contract := { w.contract with locked := locked } }

def emit (w : World) (e : Event) : World :=
  { w with logs := w.logs ++ [e] }

def receive (w : World) (value : Word) : World :=
  { w with balance := w.balance + value.toNat }

def send (w : World) (recipient : Address) (amount : Word) : World :=
  { w with
    balance := w.balance - amount.toNat
    transfers := w.transfers ++ [⟨recipient, amount.toNat⟩] }

/-- `recipient.call{value: amount}("")` with `require(ok, reason)`: without the Ether the call fails
at once. -/
def pay (w : World) (recipient : Address) (amount : Word) (reason : Reason) (k : Pending) : Outcome :=
  if amount.toNat ≤ w.balance then pure (.handedOver w (w.send recipient amount) k)
  else .error (.revert reason)

end World

section Functions

variable (timestamp : Word) (w : World) (sender : Caller) (value : Word)

/-- `deposit`. -/
def deposit (intentId : Word) : Outcome := do
  let w := w.receive value
  require (0 < value.toNat) .amountRequired
  let existing := w.contract.read intentId
  require (existing.payer = 0) .intentAlreadyDeposited
  let record : Deposit := ⟨sender.address, value, timestamp.setWidth 64, false, false⟩
  pure (.finished ((w.write intentId record).emit (.deposited intentId sender.address value)))

/-- `refund`, up to the transfer. -/
def refund (intentId : Word) : Outcome := do
  let w := w.receive value
  require (sender.address = w.contract.refundOperator) .notRefundOperator
  require (w.contract.locked = false) .reentrancy
  let w := w.setLocked true
  let record := w.contract.read intentId
  require (record.payer ≠ 0) .depositMissing
  require (record.isOpen = true) .alreadyProcessed
  let w := w.write intentId { record with refunded := true }
  let payout ← add record.amount value
  w.pay record.payer payout .refundFailed (.refund intentId value)

/-- `forfeit`, up to the transfer. The deadline is computed before the sender is looked at. -/
def forfeit (intentId : Word) : Outcome := do
  nonPayable value
  require (w.contract.locked = false) .reentrancy
  let w := w.setLocked true
  let record := w.contract.read intentId
  require (record.payer ≠ 0) .depositMissing
  require (record.isOpen = true) .alreadyProcessed
  let deadline ← add record.depositedAt w.contract.forfeitDelay
  require (sender.address = w.contract.forfeitOperator ∨ deadline.toNat ≤ timestamp.toNat)
    .notAuthorized
  let w := w.write intentId { record with forfeited := true }
  w.pay w.contract.treasury record.amount .forfeitFailed (.forfeit intentId)

/-- `updateOperators`. -/
def updateOperators (refundOperator forfeitOperator : Address) : Outcome := do
  nonPayable value
  require (sender.address = w.contract.owner) .notOwner
  require (refundOperator ≠ 0) .refundOperatorRequired
  require (forfeitOperator ≠ 0) .forfeitOperatorRequired
  pure (.finished { w with contract := { w.contract with
    refundOperator := refundOperator
    forfeitOperator := forfeitOperator } })

/-- `updateForfeitDelay`. -/
def updateForfeitDelay (forfeitDelay : Uint64) : Outcome := do
  nonPayable value
  require (sender.address = w.contract.owner) .notOwner
  pure (.finished { w with contract := { w.contract with forfeitDelay := forfeitDelay } })

/-- The start of a call in a block of this time. -/
def enter : Input → Outcome
  | .call sender value (.deposit intentId) => deposit timestamp w sender value intentId
  | .call sender value (.refund intentId) => refund w sender value intentId
  | .call sender value (.forfeit intentId) => forfeit timestamp w sender value intentId
  | .call sender value (.updateOperators r f) => updateOperators w sender value r f
  | .call sender value (.updateForfeitDelay d) => updateForfeitDelay w sender value d
  | .force amount =>
    pure (.finished { w with balance := w.balance + amount, forced := w.forced + amount })

/-- The rest of `refund` and `forfeit`, once the recipient has answered. The events read the record
again. -/
def resume (k : Pending) (ok : Bool) (w : World) : Except (Failure Reason) World :=
  match k with
  | .refund intentId value => do
    require (ok = true) .refundFailed
    let record := w.contract.read intentId
    pure ((w.emit (.refunded intentId record.payer record.amount value)).setLocked false)
  | .forfeit intentId => do
    require (ok = true) .forfeitFailed
    let record := w.contract.read intentId
    pure ((w.emit (.forfeited intentId record.payer record.amount)).setLocked false)

end Functions

/-- The contract in a block of the given time. -/
def escrow (timestamp : Word) : Component (Failure Reason) World Input Pending where
  enter w i := .checked (enter timestamp w i)
  resume := resume

end Ddns.TollEscrow

/-!
## The escrow covers its deposits

`Finishes` and `HandsOver` say once what the start of a call can do. The Ether of the contract is
the sum of the open deposits and what was forced upon it, in every state in which other code has
control: a deposit is marked before its Ether leaves, so also the recipient of a payment finds the
books in order, however deep it calls back into the contract.
-/

namespace Ddns.TollEscrow

open Evm Reentry

variable {timestamp : Word} {w w' : World}

/-! ## What a call starts with -/

theorem World.pay_eq_ok {w : World} {recipient : Address} {amount : Word} {reason : Reason}
    {k : Pending} {e : Entry (Failure Reason) World Pending} :
    w.pay recipient amount reason k = .ok e ↔
      amount.toNat ≤ w.balance ∧ .handedOver w (w.send recipient amount) k = e := by
  unfold World.pay
  split
  · next h => simp [h]
  · next h => simp [h]

/-- The calls that end without handing control away. -/
inductive Finishes (timestamp : Word) (w : World) : Input → World → Prop where
  | deposit {sender : Caller} {value intentId : Word} (hpos : 0 < value.toNat)
      (hvacant : (w.contract.read intentId).payer = 0) :
      Finishes timestamp w (.call sender value (.deposit intentId))
        (((w.receive value).write intentId
          ⟨sender.address, value, timestamp.setWidth 64, false, false⟩).emit
            (.deposited intentId sender.address value))
  | updateOperators {sender : Caller} {r f : Address} (howner : sender.address = w.contract.owner) :
      Finishes timestamp w (.call sender 0 (.updateOperators r f))
        { w with contract := { w.contract with refundOperator := r, forfeitOperator := f } }
  | updateForfeitDelay {sender : Caller} {d : Uint64}
      (howner : sender.address = w.contract.owner) :
      Finishes timestamp w (.call sender 0 (.updateForfeitDelay d))
        { w with contract := { w.contract with forfeitDelay := d } }
  | force {amount : Nat} :
      Finishes timestamp w (.force amount)
        { w with balance := w.balance + amount, forced := w.forced + amount }

/-- The world in which a payment is about to leave: the lock is taken, the record marked. -/
def World.marked (w : World) (intentId : Word) (d : Deposit) : World :=
  (w.setLocked true).write intentId d

/-- The calls that hand control to the recipient of Ether. -/
inductive HandsOver (timestamp : Word) (w : World) : Input → World → World → Pending → Prop where
  | refund {sender : Caller} {value intentId payout : Word} {b : World}
      (hoperator : sender.address = w.contract.refundOperator)
      (hunlocked : w.contract.locked = false)
      (hpayer : (w.contract.read intentId).payer ≠ 0)
      (hopen : (w.contract.read intentId).isOpen = true)
      (hpayout : (w.contract.read intentId).amount.toNat + value.toNat = payout.toNat)
      (hcovered : payout.toNat ≤ w.balance + value.toNat)
      (hb : b = (w.receive value).marked intentId
        { w.contract.read intentId with refunded := true }) :
      HandsOver timestamp w (.call sender value (.refund intentId)) b
        (b.send (w.contract.read intentId).payer payout) (.refund intentId value)
  | forfeit {sender : Caller} {intentId : Word} {b : World}
      (hunlocked : w.contract.locked = false)
      (hpayer : (w.contract.read intentId).payer ≠ 0)
      (hopen : (w.contract.read intentId).isOpen = true)
      (hdeadline : (w.contract.read intentId).depositedAt.toNat + w.contract.forfeitDelay.toNat <
        2 ^ 64)
      (hauthorized : sender.address = w.contract.forfeitOperator ∨
        (w.contract.read intentId).depositedAt.toNat + w.contract.forfeitDelay.toNat ≤
          timestamp.toNat)
      (hcovered : (w.contract.read intentId).amount.toNat ≤ w.balance)
      (hb : b = w.marked intentId { w.contract.read intentId with forfeited := true }) :
      HandsOver timestamp w (.call sender 0 (.forfeit intentId)) b
        (b.send w.contract.treasury (w.contract.read intentId).amount) (.forfeit intentId)

theorem add_eq_ok_of_lt {n : Nat} {ρ : Type} {a b : BitVec n} {c : BitVec n}
    (h : (add a b : Except (Failure ρ) (BitVec n)) = .ok c) : a.toNat + b.toNat < 2 ^ n :=
  (add_eq_ok.1 h).symm ▸ c.isLt

theorem enter_finished {i : Input} (h : enter timestamp w i = .ok (.finished w')) :
    Finishes timestamp w i w' := by
  cases i with
  | force amount =>
    simp only [enter, pure_eq_ok, Entry.finished.injEq] at h
    subst h
    exact .force
  | call sender value f =>
    cases f with
    | deposit intentId =>
      simp only [enter, deposit, bind_eq_ok, require_eq_ok, exists_unit, pure_eq_ok,
        Entry.finished.injEq] at h
      obtain ⟨hpos, hvacant, rfl⟩ := h
      exact .deposit hpos hvacant
    | refund intentId =>
      simp only [enter, refund, bind_eq_ok, World.pay_eq_ok, reduceCtorEq, and_false,
        exists_false] at h
    | forfeit intentId =>
      simp only [enter, forfeit, bind_eq_ok, World.pay_eq_ok, reduceCtorEq, and_false,
        exists_false] at h
    | updateOperators r f =>
      simp only [enter, updateOperators, bind_eq_ok, require_eq_ok, nonPayable_eq_ok, exists_unit,
        pure_eq_ok, Entry.finished.injEq] at h
      obtain ⟨rfl, howner, -, -, rfl⟩ := h
      exact .updateOperators howner
    | updateForfeitDelay d =>
      simp only [enter, updateForfeitDelay, bind_eq_ok, require_eq_ok, nonPayable_eq_ok,
        exists_unit, pure_eq_ok, Entry.finished.injEq] at h
      obtain ⟨rfl, howner, rfl⟩ := h
      exact .updateForfeitDelay howner

theorem enter_handedOver {i : Input} {b a : World} {k : Pending}
    (h : enter timestamp w i = .ok (.handedOver b a k)) : HandsOver timestamp w i b a k := by
  cases i with
  | force amount => simp [enter] at h
  | call sender value f =>
    cases f with
    | deposit intentId =>
      simp only [enter, deposit, bind_eq_ok, pure_eq_ok, reduceCtorEq, and_false, exists_false] at h
    | refund intentId =>
      simp only [enter, refund, bind_eq_ok, require_eq_ok, exists_unit, World.pay_eq_ok,
        Entry.handedOver.injEq, add_eq_ok] at h
      obtain ⟨hoperator, hunlocked, hpayer, hopen, payout, hpayout, hcovered, rfl, rfl, rfl⟩ := h
      exact .refund hoperator hunlocked hpayer hopen hpayout hcovered rfl
    | forfeit intentId =>
      simp only [enter, forfeit, bind_eq_ok, require_eq_ok, nonPayable_eq_ok, exists_unit,
        World.pay_eq_ok, Entry.handedOver.injEq] at h
      obtain ⟨rfl, hunlocked, hpayer, hopen, deadline, hsum, hauth, hcovered, rfl, rfl, rfl⟩ := h
      have hdeadline := add_eq_ok.1 hsum
      rw [← hdeadline] at hauth
      exact .forfeit hunlocked hpayer hopen (add_eq_ok_of_lt hsum) hauth hcovered rfl
    | updateOperators r f =>
      simp only [enter, updateOperators, bind_eq_ok, pure_eq_ok, reduceCtorEq, and_false, exists_false] at h
    | updateForfeitDelay d =>
      simp only [enter, updateForfeitDelay, bind_eq_ok, pure_eq_ok, reduceCtorEq, and_false, exists_false] at h

/-! ## Solvency -/

/-- The Ether a record still stands for. -/
def Deposit.held (d : Deposit) : Nat := if d.isOpen then d.amount.toNat else 0

/-- The Ether of the open deposits. -/
def TollCommentsEscrow.held (c : TollCommentsEscrow) : Nat :=
  c.deposits.total fun _ d => d.held

theorem Deposit.held_open {d : Deposit} (h : d.isOpen = true) : d.held = d.amount.toNat :=
  if_pos h

theorem Deposit.held_closed {d : Deposit} (h : d.isOpen = false) : d.held = 0 :=
  if_neg (h ▸ Bool.false_ne_true)

/-- The Ether is that of the open deposits and what was forced upon the contract, and no record
belongs to nobody. -/
structure Funded (w : World) : Prop where
  balance_eq : w.balance = w.contract.held + w.forced
  payer_ne : ∀ {intentId d}, w.contract.deposits.get intentId = some d → d.payer ≠ 0

namespace Funded

/-- Where nobody is the payer, nothing was written. -/
theorem get_eq_none (h : Funded w) {intentId : Word}
    (hvacant : (w.contract.read intentId).payer = 0) : w.contract.deposits.get intentId = none := by
  cases hget : w.contract.deposits.get intentId with
  | none => rfl
  | some d =>
    have hread : w.contract.read intentId = d := by simp [TollCommentsEscrow.read, hget]
    exact absurd (hread ▸ hvacant) (h.payer_ne hget)

end Funded

/-- Where somebody is the payer, there is a record. -/
theorem get_eq_some {c : TollCommentsEscrow} {intentId : Word} (h : (c.read intentId).payer ≠ 0) :
    c.deposits.get intentId = some (c.read intentId) := by
  unfold TollCommentsEscrow.read at h ⊢
  cases hget : c.deposits.get intentId with
  | none =>
    rw [hget] at h
    exact absurd rfl h
  | some d => rfl

/-- Marking an open record frees its Ether. -/
theorem held_marked {w : World} {intentId : Word} {d : Deposit}
    (hget : w.contract.deposits.get intentId = some d) (hopen : d.isOpen = true) (d' : Deposit)
    (hclosed : d'.isOpen = false) :
    (w.marked intentId d').contract.held + d.amount.toNat = w.contract.held := by
  have hset := FinMap.total_set (fun _ (d : Deposit) => d.held) hget d'
  rw [Deposit.held_open hopen, Deposit.held_closed hclosed, Nat.add_zero] at hset
  exact hset

/-- Records that are written belong to somebody. -/
theorem payer_ne_write {w : World} {intentId : Word} (d : Deposit) (hd : d.payer ≠ 0)
    (h : ∀ {i d}, w.contract.deposits.get i = some d → d.payer ≠ 0) {i : Word} {d' : Deposit}
    (hget : (w.write intentId d).contract.deposits.get i = some d') : d'.payer ≠ 0 := by
  rw [World.write, FinMap.get_set] at hget
  split at hget
  · cases hget
    exact hd
  · exact h hget

theorem Finishes.funded {i : Input} (h : Finishes timestamp w i w') (hw : Funded w) :
    Funded w' := by
  cases h with
  | @deposit sender value intentId hpos hvacant =>
    have hnew := FinMap.total_set_new (fun _ (d : Deposit) => d.held) (hw.get_eq_none hvacant)
      ⟨sender.address, value, timestamp.setWidth 64, false, false⟩
    rw [Deposit.held_open rfl] at hnew
    refine ⟨?_, payer_ne_write (w := w.receive value) _ sender.ne_zero hw.payer_ne⟩
    have hbalance := hw.balance_eq
    simp only [TollCommentsEscrow.held] at hbalance ⊢
    simp only [World.emit, World.write, World.receive, hnew, hbalance]
    omega
  | updateOperators howner => exact ⟨hw.balance_eq, hw.payer_ne⟩
  | updateForfeitDelay howner => exact ⟨hw.balance_eq, hw.payer_ne⟩
  | @force amount =>
    refine ⟨?_, hw.payer_ne⟩
    have hbalance := hw.balance_eq
    show w.balance + amount = w.contract.held + (w.forced + amount)
    omega

/-- The recipient of a payment finds the books in order. -/
theorem HandsOver.funded {i : Input} {b a : World} {k : Pending} (h : HandsOver timestamp w i b a k)
    (hw : Funded w) : Funded a := by
  have hbalance := hw.balance_eq
  cases h with
  | @refund sender value intentId payout _ _ _ hpayer hopen hpayout hcovered hb =>
    have hheld := held_marked (w := w.receive value) (get_eq_some hpayer) hopen
      { w.contract.read intentId with refunded := true } rfl
    subst hb
    refine ⟨?_, payer_ne_write (w := (w.receive value).setLocked true)
      { w.contract.read intentId with refunded := true } hpayer hw.payer_ne⟩
    simp only [World.send, World.marked, World.write, World.setLocked, World.receive] at hheld ⊢
    omega
  | @forfeit sender intentId _ _ hpayer hopen _ _ hcovered hb =>
    have hheld := held_marked (get_eq_some hpayer) hopen
      { w.contract.read intentId with forfeited := true } (Bool.and_false _)
    subst hb
    refine ⟨?_, payer_ne_write (w := w.setLocked true)
      { w.contract.read intentId with forfeited := true } hpayer hw.payer_ne⟩
    simp only [World.send, World.marked, World.write, World.setLocked] at hheld ⊢
    omega

/-- After a payment the contract emits its event and gives the lock back. -/
theorem resume_eq_ok {k : Pending} {ok : Bool} (h : resume k ok w = .ok w') :
    ok = true ∧ ∃ e, w' = (w.emit e).setLocked false := by
  cases k with
  | refund intentId value =>
    simp only [resume, bind_eq_ok, require_eq_ok, exists_unit, pure_eq_ok] at h
    exact ⟨h.1, _, h.2.symm⟩
  | forfeit intentId =>
    simp only [resume, bind_eq_ok, require_eq_ok, exists_unit, pure_eq_ok] at h
    exact ⟨h.1, _, h.2.symm⟩

/-- Every call keeps the books in order, whatever the recipients of payments do. -/
theorem funded_guarantee (timestamp : Word) :
    Component.Guarantee (escrow timestamp) (fun _ => True) Funded fun _ _ => True where
  refl _ := trivial
  trans _ _ := trivial
  finished _ hw h := ⟨(enter_finished (Entry.checked_eq_finished.1 h)).funded hw, trivial⟩
  handedOver _ hw h := (enter_handedOver (Entry.checked_eq_handedOver.1 h)).funded hw
  resumed _ _ _ ht _ h := by
    obtain ⟨-, e, rfl⟩ := resume_eq_ok h
    exact ⟨⟨ht.balance_eq, ht.payer_ne⟩, trivial⟩
  failed _ _ _ h := absurd (resume_eq_ok h).1 Bool.false_ne_true

/-- A contract that was deployed. -/
theorem deploy_eq_ok {sender : Caller} {treasury refundOperator forfeitOperator : Address}
    {forfeitDelay : Uint64}
    (h : deploy sender treasury refundOperator forfeitOperator forfeitDelay = .ok w) :
    w = ⟨⟨FinMap.empty, treasury, refundOperator, forfeitOperator, forfeitDelay, sender.address,
      false⟩, 0, [], [], 0⟩ := by
  simp only [deploy, bind_eq_ok, require_eq_ok, exists_unit, pure_eq_ok] at h
  exact h.2.2.2.symm

theorem deploy_funded {sender : Caller} {treasury refundOperator forfeitOperator : Address}
    {forfeitDelay : Uint64}
    (h : deploy sender treasury refundOperator forfeitOperator forfeitDelay = .ok w) :
    Funded w := by
  rw [deploy_eq_ok h]
  exact ⟨rfl, fun hget => absurd hget (Option.some_ne_none _).symm⟩

/-- **Solvency under reentrancy.** From deployment on, whatever transactions come and however the
recipients of its payments call back: whenever other code has control, also in the middle of a
payment, the contract has the Ether of all its open deposits and what was forced upon it. -/
theorem balance_covers_deposits {sender : Caller}
    {treasury refundOperator forfeitOperator : Address} {forfeitDelay : Uint64} {w₀ : World}
    (hdeploy : deploy sender treasury refundOperator forfeitOperator forfeitDelay = .ok w₀)
    (before : List (Word × Script Input)) (timestamp : Word) (p : Script Input) :
    ∀ w ∈ (escrow timestamp).visited p (Runs.exec (Component.chain escrow) w₀ before),
      w.balance = w.contract.held + w.forced := by
  intro w hw
  have hall : ∀ t ∈ before ++ [(timestamp, p)], t.2.All fun _ => True :=
    fun t _ => t.2.all_true
  exact (Component.chain_visited funded_guarantee hall (deploy_funded hdeploy) rfl w hw).balance_eq

/-- The owner, who is also both operators. -/
def exampleOwner : Caller := ⟨1, one_ne_nobody⟩

def examplePayer : Caller := ⟨2, two_ne_nobody⟩

/-- An escrow with a delay of a hundred seconds. -/
def exampleEscrow : World := ⟨⟨FinMap.empty, 9, 1, 1, 100, 1, false⟩, 0, [], [], 0⟩

theorem exampleEscrow_deployed : deploy exampleOwner 9 1 1 100 = .ok exampleEscrow := rfl

/-- The payer deposits four wei for intent 5. -/
def exampleDeposit : Word × Script Input :=
  (7, .call (.call examplePayer 4 (.deposit 5)) (.done true) (.done true))

/-- The owner refunds intent 5, and the payer makes another deposit on receiving the Ether. -/
def exampleRefund : Script Input :=
  .call (.call exampleOwner 3 (.refund 5)) (.call (.call examplePayer 6 (.deposit 8)) (.done true)
    (.done true)) (.done true)

theorem balance_covers_deposits_refund :
    ∀ w ∈ (escrow 9).visited exampleRefund
      (Runs.exec (Component.chain escrow) exampleEscrow [exampleDeposit]),
      w.balance = w.contract.held + w.forced :=
  balance_covers_deposits exampleEscrow_deployed [exampleDeposit] 9 exampleRefund

end Ddns.TollEscrow
