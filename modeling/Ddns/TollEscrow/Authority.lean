import Ddns.TollEscrow.Payouts

/-!
# Who can move a deposit, and when

A deposit is open to its refund operator at any time, and to a forfeiture as soon as its deadline
fits into 64 bits: the sum of time and delay is checked before the sender is, so with a delay near
the largest one also the forfeit operator is refused. Nothing else can go wrong between two
transactions: the lock is free and the Ether is there. Before the deadline nobody but the operators
and the owner moves a deposit, however many calls they nest.
-/

namespace Ddns.TollEscrow

open Evm Reentry

variable {sender : Caller} {treasury refundOperator forfeitOperator : Address}
  {forfeitDelay : Uint64} {w₀ : World}

/-! ## What an open deposit is open to -/

/-- The Ether of an open deposit is there. -/
theorem Funded.covered {w : World} (h : Funded w) {intentId : Word} {d : Deposit}
    (hget : w.contract.deposits.get intentId = some d) (hopen : d.isOpen = true) :
    d.amount.toNat ≤ w.balance := by
  have hle := FinMap.le_total (f := fun _ (d : Deposit) => d.held) hget
  rw [Deposit.held_open hopen] at hle
  have hbalance := h.balance_eq
  have hheld : w.contract.held = w.contract.deposits.total fun _ d => d.held := rfl
  omega

theorem add_of_lt {n : Nat} {a b : BitVec n} (h : a.toNat + b.toNat < 2 ^ n) :
    (add a b : Except (Failure Reason) (BitVec n)) = .ok (a + b) := by
  rw [add_eq_ok, BitVec.toNat_add, Nat.mod_eq_of_lt h]

theorem refund_enter {w : World} (hw : Funded w) (hunlocked : w.contract.locked = false)
    {sender : Caller} {value intentId : Word} {d : Deposit}
    (hoperator : sender.address = w.contract.refundOperator)
    (hget : w.contract.deposits.get intentId = some d) (hopen : d.isOpen = true)
    (hsum : d.amount.toNat + value.toNat < 2 ^ 256) {b : World}
    (hb : b = (w.receive value).marked intentId { d with refunded := true }) :
    refund w sender value intentId =
      .ok (.handedOver b (b.send d.payer (d.amount + value)) (.refund intentId value)) := by
  have hread := read_eq hget
  have hcovered := hw.covered hget hopen
  rw [← hread] at hb
  simp only [refund, bind_eq_ok, require_eq_ok, exists_unit, World.pay_eq_ok, Entry.handedOver.injEq]
  refine ⟨hoperator, hunlocked, ?_, ?_, d.amount + value, ?_, ?_, hb.symm, ?_, trivial⟩
  · show (w.contract.read intentId).payer ≠ 0
    rw [hread]
    exact hw.payer_ne hget
  · show (w.contract.read intentId).isOpen = true
    rw [hread]
    exact hopen
  · show add (w.contract.read intentId).amount value = .ok (d.amount + value)
    rw [hread]
    exact add_of_lt hsum
  · show (d.amount + value).toNat ≤ w.balance + value.toNat
    rw [BitVec.toNat_add, Nat.mod_eq_of_lt hsum]
    omega
  · rw [← hread, hb]
    rfl

theorem forfeit_enter {timestamp : Word} {w : World} (hw : Funded w)
    (hunlocked : w.contract.locked = false) {sender : Caller} {intentId : Word} {d : Deposit}
    (hget : w.contract.deposits.get intentId = some d) (hopen : d.isOpen = true)
    (hsum : d.depositedAt.toNat + w.contract.forfeitDelay.toNat < 2 ^ 64)
    (hauth : sender.address = w.contract.forfeitOperator ∨
      d.depositedAt.toNat + w.contract.forfeitDelay.toNat ≤ timestamp.toNat) {b : World}
    (hb : b = w.marked intentId { d with forfeited := true }) :
    forfeit timestamp w sender 0 intentId =
      .ok (.handedOver b (b.send w.contract.treasury d.amount) (.forfeit intentId)) := by
  have hread := read_eq hget
  rw [← hread] at hb
  simp only [forfeit, bind_eq_ok, require_eq_ok, nonPayable_eq_ok, exists_unit, World.pay_eq_ok,
    Entry.handedOver.injEq]
  refine ⟨trivial, hunlocked, ?_, ?_, d.depositedAt + w.contract.forfeitDelay, ?_, ?_, ?_, hb.symm,
    ?_, trivial⟩
  · show (w.contract.read intentId).payer ≠ 0
    rw [hread]
    exact hw.payer_ne hget
  · show (w.contract.read intentId).isOpen = true
    rw [hread]
    exact hopen
  · show add (w.contract.read intentId).depositedAt w.contract.forfeitDelay = _
    rw [hread]
    exact add_of_lt hsum
  · show sender.address = w.contract.forfeitOperator ∨ _
    rw [BitVec.toNat_add, Nat.mod_eq_of_lt hsum]
    exact hauth
  · show (w.contract.read intentId).amount.toNat ≤ w.balance
    rw [hread]
    exact hw.covered hget hopen
  · rw [← hread, hb]
    rfl

/-- Once the recipient has accepted the Ether, a payment goes through. -/
theorem resume_ok (k : Pending) (w : World) : ∃ w', resume k true w = .ok w' := by
  cases k with
  | refund intentId value => exact ⟨_, rfl⟩
  | forfeit intentId => exact ⟨_, rfl⟩

section Calls

variable {timestamp : Word} {w : World} {callee : Script Input} {i : Input}

/-- A call that hands control away succeeds if its recipient accepts. -/
theorem succeeds_of_enter {b a : World} {k : Pending}
    (h : enter timestamp w i = .ok (.handedOver b a k)) (hcallee : callee.succeeds = true) :
    ∃ w', (escrow timestamp).complete ((escrow timestamp).frame callee) w i = .ok w' := by
  rw [Component.complete_handedOver (Entry.checked_eq_handedOver.2 h), Component.frame_snd,
    if_pos hcallee]
  exact resume_ok k _

/-- A payment that succeeded started as one, and its recipient accepted. -/
theorem handsOver_of_succeeds {w' : World} (hnot : ∀ w', ¬Finishes timestamp w i w')
    (h : (escrow timestamp).complete ((escrow timestamp).frame callee) w i = .ok w') :
    callee.succeeds = true ∧ ∃ b a k, HandsOver timestamp w i b a k := by
  rcases Component.complete_cases h with hfin | ⟨b, a, k, hover, hok, -⟩ | ⟨b, a, k, hover, -, hres⟩
  · exact absurd (enter_finished (Entry.checked_eq_finished.1 hfin)) (hnot w')
  · rw [Component.frame_snd] at hok
    exact ⟨hok, b, a, k, enter_handedOver (Entry.checked_eq_handedOver.1 hover)⟩
  · exact absurd (resume_eq_ok hres).1 Bool.false_ne_true

end Calls

/-- The refund operator asks, the deposit is open, the bonus does not overflow, the payer accepts. -/
def Refundable (w : World) (caller : Caller) (value intentId : Word) (payer : Script Input) : Prop :=
  caller.address = w.contract.refundOperator ∧
  ∃ d, w.contract.deposits.get intentId = some d ∧ d.isOpen = true ∧
    d.amount.toNat + value.toNat < 2 ^ 256 ∧ payer.succeeds = true

/-- No Ether comes along, the deposit is open, its deadline fits into 64 bits, the forfeit operator
asks or the deadline has come, the treasury accepts. -/
def Forfeitable (timestamp : Word) (w : World) (caller : Caller) (value intentId : Word)
    (treasury : Script Input) : Prop :=
  value = 0 ∧
  ∃ d, w.contract.deposits.get intentId = some d ∧ d.isOpen = true ∧
    d.depositedAt.toNat + w.contract.forfeitDelay.toNat < 2 ^ 64 ∧
    (caller.address = w.contract.forfeitOperator ∨
      d.depositedAt.toNat + w.contract.forfeitDelay.toNat ≤ timestamp.toNat) ∧
    treasury.succeeds = true

/-- **An open deposit is never stuck, but for its deadline.** Between any two transactions of any
run, a refund goes through exactly if it is `Refundable` and a forfeiture exactly if it is
`Forfeitable`: the lock is free and the Ether is there. -/
theorem payout_succeeds_iff
    (hdeploy : deploy sender treasury refundOperator forfeitOperator forfeitDelay = .ok w₀)
    (txs : List (Word × Script Input)) {w : World}
    (hw : w = Runs.exec (Component.chain escrow) w₀ txs) (timestamp : Word) (caller : Caller)
    (value intentId : Word) (callee : Script Input) :
    ((∃ w', (escrow timestamp).complete ((escrow timestamp).frame callee) w
      (.call caller value (.refund intentId)) = .ok w') ↔
        Refundable w caller value intentId callee) ∧
    ((∃ w', (escrow timestamp).complete ((escrow timestamp).frame callee) w
      (.call caller value (.forfeit intentId)) = .ok w') ↔
        Forfeitable timestamp w caller value intentId callee) := by
  have hfunded : Funded w := hw ▸ (booked_of_run hdeploy txs).1.funded
  have hunlocked : w.contract.locked = false := hw ▸ unlocked_of_run hdeploy txs
  refine ⟨⟨?_, ?_⟩, ?_, ?_⟩
  · rintro ⟨w', h⟩
    obtain ⟨hcallee, b, a, k, hover⟩ := handsOver_of_succeeds (fun _ h => by cases h) h
    cases hover with
    | @refund _ _ _ payout _ hoperator _ hpayer hopen hpayout _ _ =>
      exact ⟨hoperator, _, get_eq_some hpayer, hopen, hpayout.symm ▸ payout.isLt, hcallee⟩
  · rintro ⟨hoperator, d, hget, hopen, hsum, hcallee⟩
    have hstart := refund_enter hfunded hunlocked hoperator hget hopen hsum rfl
    exact succeeds_of_enter (i := .call caller value (.refund intentId)) hstart hcallee
  · rintro ⟨w', h⟩
    obtain ⟨hcallee, b, a, k, hover⟩ := handsOver_of_succeeds (fun _ h => by cases h) h
    cases hover with
    | forfeit _ hpayer hopen hdeadline hauthorized _ _ =>
      exact ⟨rfl, _, get_eq_some hpayer, hopen, hdeadline, hauthorized, hcallee⟩
  · rintro ⟨rfl, d, hget, hopen, hsum, hauth, hcallee⟩
    have hstart := forfeit_enter hfunded hunlocked hget hopen hsum hauth rfl
    exact succeeds_of_enter (i := .call caller 0 (.forfeit intentId)) hstart hcallee

theorem payout_succeeds_iff_example :
    ((∃ w', (escrow 9).complete ((escrow 9).frame (.done true))
      (Runs.exec (Component.chain escrow) exampleEscrow [exampleDeposit])
      (.call exampleOwner 3 (.refund 5)) = .ok w') ↔
        Refundable (Runs.exec (Component.chain escrow) exampleEscrow [exampleDeposit])
          exampleOwner 3 5 (.done true)) ∧
    ((∃ w', (escrow 9).complete ((escrow 9).frame (.done true))
      (Runs.exec (Component.chain escrow) exampleEscrow [exampleDeposit])
      (.call exampleOwner 3 (.forfeit 5)) = .ok w') ↔
        Forfeitable 9 (Runs.exec (Component.chain escrow) exampleEscrow [exampleDeposit])
          exampleOwner 3 5 (.done true)) :=
  payout_succeeds_iff exampleEscrow_deployed [exampleDeposit] rfl 9 exampleOwner 3 5 (.done true)

/-! ## Outsiders -/

/-- The call comes from nobody whom the contract trusts. -/
def Outsider (c : TollCommentsEscrow) : Input → Prop
  | .call sender _ _ => sender.address ≠ c.refundOperator ∧ sender.address ≠ c.forfeitOperator ∧
      sender.address ≠ c.owner
  | .force _ => True

/-- The deposit and those who may move it are as they were. -/
structure Kept (c : TollCommentsEscrow) (intentId : Word) (d : Deposit) (w : World) : Prop where
  get_eq : w.contract.deposits.get intentId = some d
  refundOperator_eq : w.contract.refundOperator = c.refundOperator
  forfeitOperator_eq : w.contract.forfeitOperator = c.forfeitOperator
  owner_eq : w.contract.owner = c.owner
  forfeitDelay_eq : w.contract.forfeitDelay = c.forfeitDelay

namespace Kept

variable {c : TollCommentsEscrow} {intentId : Word} {d : Deposit} {timestamp : Word} {w w' : World}
  {i : Input}

/-- A record of another intent was written. -/
theorem of_get {t : World} (h : Kept c intentId d w)
    (hget : t.contract.deposits.get intentId = w.contract.deposits.get intentId)
    (hcontract : t.contract = { w.contract with
      deposits := t.contract.deposits, locked := t.contract.locked }) : Kept c intentId d t := by
  refine ⟨hget.trans h.get_eq, ?_, ?_, ?_, ?_⟩
  · rw [hcontract]
    exact h.refundOperator_eq
  · rw [hcontract]
    exact h.forfeitOperator_eq
  · rw [hcontract]
    exact h.owner_eq
  · rw [hcontract]
    exact h.forfeitDelay_eq

theorem finishes (h : Kept c intentId d w) (hpayer : d.payer ≠ 0) (hi : Outsider c i)
    (hfin : Finishes timestamp w i w') : Kept c intentId d w' := by
  cases hfin with
  | @deposit sender value intentId' _ hvacant =>
    have hne : intentId ≠ intentId' := by
      rintro rfl
      rw [read_eq h.get_eq] at hvacant
      exact hpayer hvacant
    exact h.of_get (FinMap.get_set_ne w.contract.deposits _ hne) rfl
  | updateOperators howner => exact absurd (howner.trans h.owner_eq) hi.2.2
  | updateForfeitDelay howner => exact absurd (howner.trans h.owner_eq) hi.2.2
  | force => exact ⟨h.1, h.2, h.3, h.4, h.5⟩

theorem handsOver (h : Kept c intentId d w) (hi : Outsider c i)
    (hearly : timestamp.toNat < d.depositedAt.toNat + c.forfeitDelay.toNat) {b a : World}
    {k : Pending} (hover : HandsOver timestamp w i b a k) : Kept c intentId d a := by
  cases hover with
  | refund hoperator => exact absurd (hoperator.trans h.refundOperator_eq) hi.1
  | @forfeit sender intentId' _ _ _ _ _ hauthorized _ hb =>
    have hne : intentId ≠ intentId' := by
      rintro rfl
      rcases hauthorized with hoperator | hdeadline
      · exact absurd (hoperator.trans h.forfeitOperator_eq) hi.2.1
      · rw [read_eq h.get_eq, h.forfeitDelay_eq] at hdeadline
        omega
    subst hb
    exact h.of_get (FinMap.get_set_ne w.contract.deposits _ hne) rfl

theorem guarantee (c : TollCommentsEscrow) (intentId : Word) {d : Deposit} (hpayer : d.payer ≠ 0)
    (timestamp : Word) :
    Component.Guarantee (escrow timestamp)
      (fun i => Outsider c i ∧ timestamp.toNat < d.depositedAt.toNat + c.forfeitDelay.toNat)
      (Kept c intentId d) fun _ _ => True where
  refl _ := trivial
  trans _ _ := trivial
  finished hi hw h :=
    ⟨hw.finishes hpayer hi.1 (enter_finished (Entry.checked_eq_finished.1 h)), trivial⟩
  handedOver hi hw h := hw.handsOver hi.1 hi.2 (enter_handedOver (Entry.checked_eq_handedOver.1 h))
  resumed _ _ _ ht _ h := by
    obtain ⟨-, e, rfl⟩ := resume_eq_ok h
    exact ⟨ht.of_get rfl rfl, trivial⟩
  failed _ _ _ h := absurd (resume_eq_ok h).1 Bool.false_ne_true

end Kept

/-- **Before the deadline a deposit is in nobody else's hands.** After any run, while no call of the
transactions that follow comes from an operator or the owner, at whatever depth, and their blocks
come before the deadline, an open deposit stays as it is. -/
theorem deposit_stays
    (hdeploy : deploy sender treasury refundOperator forfeitOperator forfeitDelay = .ok w₀)
    (txs : List (Word × Script Input)) {w : World}
    (hw : w = Runs.exec (Component.chain escrow) w₀ txs) {intentId : Word} {d : Deposit}
    (hget : w.contract.deposits.get intentId = some d) (later : List (Word × Script Input))
    (hlater : ∀ t ∈ later, t.2.All fun i => Outsider w.contract i ∧
      t.1.toNat < d.depositedAt.toNat + w.contract.forfeitDelay.toNat) :
    (Runs.exec (Component.chain escrow) w later).contract.deposits.get intentId = some d := by
  have hfunded : Funded w := hw ▸ (booked_of_run hdeploy txs).1.funded
  have hkept : Kept w.contract intentId d w := ⟨hget, rfl, rfl, rfl, rfl⟩
  exact (Component.chain_guarantee (Kept.guarantee w.contract intentId (hfunded.payer_ne hget))
    (fun _ => trivial) hlater hkept).1.get_eq

/-- The payer asks for a forfeiture a second later. -/
def exampleForfeit : Word × Script Input :=
  (8, .call (.call examplePayer 0 (.forfeit 5)) (.done true) (.done true))

theorem exampleForfeit_early : exampleForfeit.2.All fun i => Outsider
    (Runs.exec (Component.chain escrow) exampleEscrow [exampleDeposit]).contract i ∧
      exampleForfeit.1.toNat < (7 : Uint64).toNat +
        (Runs.exec (Component.chain escrow) exampleEscrow
          [exampleDeposit]).contract.forfeitDelay.toNat := by
  refine ⟨⟨⟨?_, ?_, ?_⟩, ?_⟩, trivial, trivial⟩ <;> decide

theorem deposit_stays_example :
    (Runs.exec (Component.chain escrow)
      (Runs.exec (Component.chain escrow) exampleEscrow [exampleDeposit])
      [exampleForfeit]).contract.deposits.get 5 = some ⟨2, 4, 7, false, false⟩ :=
  deposit_stays exampleEscrow_deployed [exampleDeposit] rfl rfl [exampleForfeit]
    fun _ ht => List.mem_singleton.1 ht ▸ exampleForfeit_early

end Ddns.TollEscrow
