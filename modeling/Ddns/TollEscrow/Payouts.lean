import Ddns.TollEscrow.Contract

/-!
# What the escrow pays, and to whom

The event log of the escrow is its account. `Tells` says what the log tells of one intent: nothing,
a deposit, or a deposit and one payout of the same amount, as the record has it. Between two
transactions this holds of every intent, and the Ether that was sent is what the payouts of the log
say, in their order. A payment is in the log only after its recipient has given control back, so the
argument is one of rely and guarantee: while the lock is held, only new deposits are made
(`Frozen`).
-/

namespace Ddns.TollEscrow

open Evm Reentry

variable {timestamp : Word} {w w' : World}

/-! ## The log -/

def Event.intentId : Event → Word
  | .deposited intentId _ _ => intentId
  | .refunded intentId _ _ _ => intentId
  | .forfeited intentId _ _ => intentId

/-- The payment an event speaks of. -/
def Event.payment (treasury : Address) : Event → Option Transfer
  | .deposited _ _ _ => none
  | .refunded _ payer amount bonus => some ⟨payer, amount.toNat + bonus.toNat⟩
  | .forfeited _ _ amount => some ⟨treasury, amount.toNat⟩

/-- The events about an intent. -/
def World.history (w : World) (intentId : Word) : List Event :=
  w.logs.filter fun e => e.intentId = intentId

/-- The payments of the log. -/
def World.payments (w : World) : List Transfer :=
  w.logs.filterMap (Event.payment w.contract.treasury)

/-- What the log tells of an intent with this record. -/
inductive Tells (intentId : Word) : Option Deposit → List Event → Prop where
  | vacant : Tells intentId none []
  | held {d : Deposit} (hrefunded : d.refunded = false) (hforfeited : d.forfeited = false) :
      Tells intentId (some d) [.deposited intentId d.payer d.amount]
  | refunded {d : Deposit} {bonus : Word} (hrefunded : d.refunded = true)
      (hforfeited : d.forfeited = false) :
      Tells intentId (some d)
        [.deposited intentId d.payer d.amount, .refunded intentId d.payer d.amount bonus]
  | forfeited {d : Deposit} (hrefunded : d.refunded = false) (hforfeited : d.forfeited = true) :
      Tells intentId (some d)
        [.deposited intentId d.payer d.amount, .forfeited intentId d.payer d.amount]

theorem Tells.of_none {intentId : Word} {h : List Event} (ht : Tells intentId none h) : h = [] := by
  cases ht
  rfl

theorem Deposit.isOpen_iff {d : Deposit} :
    d.isOpen = true ↔ d.refunded = false ∧ d.forfeited = false := by
  simp [Deposit.isOpen]

/-- Of an open record the log tells the deposit. -/
theorem Tells.of_open {intentId : Word} {d : Deposit} {h : List Event}
    (ht : Tells intentId (some d) h) (hopen : d.isOpen = true) :
    h = [.deposited intentId d.payer d.amount] := by
  obtain ⟨hr, hf⟩ := Deposit.isOpen_iff.1 hopen
  cases ht with
  | held => rfl
  | refunded hrefunded => exact absurd (hr.symm.trans hrefunded) Bool.false_ne_true
  | forfeited _ hforfeited => exact absurd (hf.symm.trans hforfeited) Bool.false_ne_true

section Writes

variable (w)

@[simp] theorem World.emit_contract (e : Event) : (w.emit e).contract = w.contract := rfl

@[simp] theorem World.setLocked_deposits (b : Bool) :
    (w.setLocked b).contract.deposits = w.contract.deposits := rfl

@[simp] theorem World.setLocked_treasury (b : Bool) :
    (w.setLocked b).contract.treasury = w.contract.treasury := rfl

theorem World.history_emit (e : Event) (intentId : Word) :
    (w.emit e).history intentId =
      if e.intentId = intentId then w.history intentId ++ [e] else w.history intentId := by
  unfold history emit
  rw [List.filter_append, List.filter_singleton]
  by_cases h : e.intentId = intentId
  · simp [h]
  · simp [h]

@[simp] theorem World.history_setLocked (b : Bool) (intentId : Word) :
    (w.setLocked b).history intentId = w.history intentId := rfl

@[simp] theorem World.history_write (i : Word) (d : Deposit) (intentId : Word) :
    (w.write i d).history intentId = w.history intentId := rfl

@[simp] theorem World.history_receive (value : Word) (intentId : Word) :
    (w.receive value).history intentId = w.history intentId := rfl

@[simp] theorem World.payments_setLocked (b : Bool) : (w.setLocked b).payments = w.payments := rfl

theorem World.payments_emit (e : Event) :
    (w.emit e).payments = w.payments ++ (e.payment w.contract.treasury).toList := by
  have hone : [e].filterMap (Event.payment w.contract.treasury) =
      (e.payment w.contract.treasury).toList := by
    cases e <;> rfl
  show (w.logs ++ [e]).filterMap (Event.payment w.contract.treasury) = _
  rw [List.filterMap_append, hone]
  rfl

end Writes

/-! ## The guarantee -/

/-- Between two payments the log tells everything, and its payments are those that were made. -/
structure Settled (w : World) : Prop where
  tells : ∀ intentId, Tells intentId (w.contract.deposits.get intentId) (w.history intentId)
  transfers_eq : w.transfers = w.payments

/-- What holds whenever other code has control. -/
structure Booked (w : World) : Prop where
  funded : Funded w
  vacant : ∀ {intentId}, w.contract.deposits.get intentId = none → w.history intentId = []
  settled : w.contract.locked = false → Settled w

/-- While the lock is held nothing is paid, and the only news is that of new deposits. -/
structure Frozen (s t : World) : Prop where
  transfers_eq : t.transfers = s.transfers
  payments_eq : t.payments = s.payments
  records : ∀ intentId,
    (t.contract.deposits.get intentId = s.contract.deposits.get intentId ∧
      t.history intentId = s.history intentId) ∨
    (s.contract.deposits.get intentId = none ∧
      Tells intentId (t.contract.deposits.get intentId) (t.history intentId))

/-- How calls change the world. -/
structure Within (s t : World) : Prop where
  treasury_eq : t.contract.treasury = s.contract.treasury
  locked_eq : t.contract.locked = s.contract.locked
  frozen : s.contract.locked = true → Frozen s t

theorem Within.refl (w : World) : Within w w :=
  ⟨rfl, rfl, fun _ => ⟨rfl, rfl, fun _ => .inl ⟨rfl, rfl⟩⟩⟩

theorem Frozen.trans {s t u : World} (h : Frozen s t) (h' : Frozen t u) : Frozen s u := by
  refine ⟨h'.transfers_eq.trans h.transfers_eq, h'.payments_eq.trans h.payments_eq, fun i => ?_⟩
  rcases h.records i with ⟨hget, hhist⟩ | ⟨hnone, htells⟩
  · rcases h'.records i with ⟨hget', hhist'⟩ | ⟨hnone', htells'⟩
    · exact .inl ⟨hget'.trans hget, hhist'.trans hhist⟩
    · exact .inr ⟨hget ▸ hnone', htells'⟩
  · rcases h'.records i with ⟨hget', hhist'⟩ | ⟨-, htells'⟩
    · exact .inr ⟨hnone, hget' ▸ hhist' ▸ htells⟩
    · exact .inr ⟨hnone, htells'⟩

theorem Within.trans {s t u : World} (h : Within s t) (h' : Within t u) : Within s u where
  treasury_eq := h'.treasury_eq.trans h.treasury_eq
  locked_eq := h'.locked_eq.trans h.locked_eq
  frozen hs := (h.frozen hs).trans (h'.frozen (h.locked_eq.trans hs))

/-- A change that leaves the records, the log and the payments alone. -/
theorem Within.of_same {s t : World} (hdeposits : t.contract.deposits = s.contract.deposits)
    (htreasury : t.contract.treasury = s.contract.treasury)
    (hlocked : t.contract.locked = s.contract.locked) (hlogs : t.logs = s.logs)
    (htransfers : t.transfers = s.transfers) : Within s t := by
  refine ⟨htreasury, hlocked, fun _ => ⟨htransfers, ?_, fun i => .inl ⟨?_, ?_⟩⟩⟩
  · rw [World.payments, World.payments, hlogs, htreasury]
  · rw [hdeposits]
  · rw [World.history, World.history, hlogs]

/-- What leaves the records, the log and the payments alone keeps the books. -/
theorem Booked.of_same {s t : World} (h : Booked s) (hfunded : Funded t)
    (hdeposits : t.contract.deposits = s.contract.deposits)
    (htreasury : t.contract.treasury = s.contract.treasury)
    (hlocked : t.contract.locked = s.contract.locked) (hlogs : t.logs = s.logs)
    (htransfers : t.transfers = s.transfers) : Booked t := by
  have hhistory (i : Word) : t.history i = s.history i := by rw [World.history, World.history, hlogs]
  refine ⟨hfunded, fun {i} hget => ?_, fun hl => ?_⟩
  · rw [hhistory]
    exact h.vacant (hdeposits ▸ hget)
  · obtain ⟨htells, htransfers'⟩ := h.settled (hlocked ▸ hl)
    refine ⟨fun i => ?_, ?_⟩
    · rw [hdeposits, hhistory]
      exact htells i
    · rw [htransfers, htransfers', World.payments, World.payments, hlogs, htreasury]

/-- A new deposit is told at once, under the lock too. -/
theorem deposit_booked {sender : Caller} {value intentId : Word} {record : Deposit}
    (hvacant : (w.contract.read intentId).payer = 0) (hpayer : record.payer = sender.address)
    (hamount : record.amount = value) (hrefunded : record.refunded = false)
    (hforfeited : record.forfeited = false)
    (hw' : w' = ((w.receive value).write intentId record).emit
      (.deposited intentId sender.address value))
    (hfunded : Funded w') (h : Booked w) : Booked w' ∧ Within w w' := by
  have hnone := h.funded.get_eq_none hvacant
  have hget (i : Word) : w'.contract.deposits.get i =
      if i = intentId then some record else w.contract.deposits.get i := by
    rw [hw']
    exact FinMap.get_set w.contract.deposits intentId i record
  have hhistory (i : Word) : w'.history i =
      if i = intentId then [.deposited intentId sender.address value] else w.history i := by
    rw [hw', World.history_emit, Event.intentId, World.history_write, World.history_receive]
    by_cases hi : i = intentId
    · rw [if_pos hi.symm, if_pos hi, hi, h.vacant hnone, List.nil_append]
    · rw [if_neg (Ne.symm hi), if_neg hi]
  have hpayments : w'.payments = w.payments := by
    rw [hw', World.payments_emit]
    exact List.append_nil _
  have htransfers : w'.transfers = w.transfers := by rw [hw']; rfl
  have hnew : Tells intentId (some record) [.deposited intentId sender.address value] := by
    rw [← hpayer, ← hamount]
    exact .held hrefunded hforfeited
  have htells (i : Word)
      (hi : i ≠ intentId → Tells i (w.contract.deposits.get i) (w.history i)) :
      Tells i (w'.contract.deposits.get i) (w'.history i) := by
    rw [hget, hhistory]
    split
    · next he =>
      subst he
      exact hnew
    · next he => exact hi he
  refine ⟨⟨hfunded, fun {i} hi => ?_, fun hl => ⟨fun i => htells i fun _ => ?_, ?_⟩⟩, ?_, ?_, ?_⟩
  · rw [hget] at hi
    rw [hhistory]
    split at hi
    · cases hi
    · next he =>
      rw [if_neg he]
      exact h.vacant hi
  · rw [hw'] at hl
    exact (h.settled hl).tells i
  · rw [hw'] at hl
    rw [htransfers, hpayments, (h.settled hl).transfers_eq]
  · rw [hw']; rfl
  · rw [hw']; rfl
  · intro _
    refine ⟨htransfers, hpayments, fun i => ?_⟩
    by_cases hi : i = intentId
    · exact .inr ⟨hi ▸ hnone, htells i fun hne => absurd hi hne⟩
    · exact .inl ⟨by rw [hget, if_neg hi], by rw [hhistory, if_neg hi]⟩

theorem Finishes.booked {i : Input} (h : Finishes timestamp w i w') (hw : Booked w) :
    Booked w' ∧ Within w w' := by
  have hfunded := h.funded hw.funded
  cases h with
  | deposit hpos hvacant => exact deposit_booked hvacant rfl rfl rfl rfl rfl hfunded hw
  | updateOperators howner =>
    exact ⟨hw.of_same hfunded rfl rfl rfl rfl rfl, .of_same rfl rfl rfl rfl rfl⟩
  | updateForfeitDelay howner =>
    exact ⟨hw.of_same hfunded rfl rfl rfl rfl rfl, .of_same rfl rfl rfl rfl rfl⟩
  | force => exact ⟨hw.of_same hfunded rfl rfl rfl rfl rfl, .of_same rfl rfl rfl rfl rfl⟩

/-! ## Payments -/

/-- A payment under way: the lock was free, is taken, and the record of the intent was open. What
follows it is `e`, read from the record then. -/
structure Paying (w a : World) (k : Pending) (intentId : Word) (d : Deposit) (x : Transfer) :
    Prop where
  unlocked : w.contract.locked = false
  locked : a.contract.locked = true
  treasury_eq : a.contract.treasury = w.contract.treasury
  transfers_eq : a.transfers = w.transfers ++ [x]
  logs_eq : a.logs = w.logs
  opened : ∃ o : Deposit, w.contract.deposits.get intentId = some o ∧ o.isOpen = true ∧
    o.payer = d.payer ∧ o.amount = d.amount
  marked : ∀ i, a.contract.deposits.get i =
    if i = intentId then some d else w.contract.deposits.get i
  resumed : ∀ {t u}, t.contract.deposits.get intentId = some d →
    t.contract.treasury = a.contract.treasury → resume k true t = .ok u →
    ∃ e, u = (t.emit e).setLocked false ∧ e.intentId = intentId ∧
      e.payment t.contract.treasury = some x ∧
      Tells intentId (some d) [.deposited intentId d.payer d.amount, e]

theorem resume_refund {t u : World} {intentId value : Word}
    (h : resume (.refund intentId value) true t = .ok u) :
    u = (t.emit (.refunded intentId (t.contract.read intentId).payer
      (t.contract.read intentId).amount value)).setLocked false := by
  simp only [resume, bind_eq_ok, require_eq_ok, exists_unit, pure_eq_ok] at h
  exact h.2.symm

theorem resume_forfeit {t u : World} {intentId : Word}
    (h : resume (.forfeit intentId) true t = .ok u) :
    u = (t.emit (.forfeited intentId (t.contract.read intentId).payer
      (t.contract.read intentId).amount)).setLocked false := by
  simp only [resume, bind_eq_ok, require_eq_ok, exists_unit, pure_eq_ok] at h
  exact h.2.symm

theorem read_eq {c : TollCommentsEscrow} {intentId : Word} {d : Deposit}
    (h : c.deposits.get intentId = some d) : c.read intentId = d := by
  rw [TollCommentsEscrow.read, h, Option.getD_some]

theorem World.get_marked (w : World) (intentId : Word) (d : Deposit) (i : Word) :
    (w.marked intentId d).contract.deposits.get i =
      if i = intentId then some d else w.contract.deposits.get i :=
  FinMap.get_set w.contract.deposits intentId i d

theorem HandsOver.paying {i : Input} {b a : World} {k : Pending}
    (h : HandsOver timestamp w i b a k) : ∃ intentId d x, Paying w a k intentId d x := by
  cases h with
  | @refund sender value intentId payout _ _ hunlocked hpayer hopen hpayout _ hb =>
    obtain ⟨-, hforfeited⟩ := Deposit.isOpen_iff.1 hopen
    refine ⟨intentId, { w.contract.read intentId with refunded := true },
      ⟨(w.contract.read intentId).payer, payout.toNat⟩, ?_⟩
    subst hb
    refine ⟨hunlocked, rfl, rfl, rfl, rfl, ⟨_, get_eq_some hpayer, hopen, rfl, rfl⟩,
      World.get_marked (w.receive value) intentId _, fun {t u} hget _ hres => ?_⟩
    have hu := resume_refund hres
    rw [read_eq hget] at hu
    refine ⟨_, hu, rfl, ?_, .refunded rfl hforfeited⟩
    simp only [Event.payment, hpayout]
  | @forfeit sender intentId _ hunlocked hpayer hopen _ _ _ hb =>
    obtain ⟨hrefunded, -⟩ := Deposit.isOpen_iff.1 hopen
    refine ⟨intentId, { w.contract.read intentId with forfeited := true },
      ⟨w.contract.treasury, (w.contract.read intentId).amount.toNat⟩, ?_⟩
    subst hb
    refine ⟨hunlocked, rfl, rfl, rfl, rfl, ⟨_, get_eq_some hpayer, hopen, rfl, rfl⟩,
      World.get_marked w intentId _, fun {t u} hget htreasury hres => ?_⟩
    have hu := resume_forfeit hres
    rw [read_eq hget] at hu
    refine ⟨_, hu, rfl, ?_, .forfeited hrefunded rfl⟩
    simp only [Event.payment, htreasury]
    rfl

namespace Paying

variable {a : World} {k : Pending} {intentId : Word} {d : Deposit} {x : Transfer}

theorem history_eq (h : Paying w a k intentId d x) (i : Word) : a.history i = w.history i := by
  rw [World.history, World.history, h.logs_eq]

/-- The recipient of a payment finds every vacant intent untold. -/
theorem booked (h : Paying w a k intentId d x) (hw : Booked w) (hfunded : Funded a) : Booked a where
  funded := hfunded
  vacant {i} hget := by
    rw [h.marked] at hget
    split at hget
    · cases hget
    · exact (h.history_eq i).trans (hw.vacant hget)
  settled hl := absurd (hl.symm.trans h.locked) Bool.false_ne_true

/-- After a payment the log has caught up. What the recipient did meanwhile froze the rest. -/
theorem settled (h : Paying w a k intentId d x) (hw : Booked w) {t u : World} (hat : Within a t)
    (hres : resume k true t = .ok u) : Settled u ∧ Within w u := by
  obtain ⟨o, ho, hopen, hpayer, hamount⟩ := h.opened
  obtain ⟨htells, htransfers⟩ := hw.settled h.unlocked
  have hfrozen := hat.frozen h.locked
  have haid : a.contract.deposits.get intentId = some d := by rw [h.marked, if_pos rfl]
  -- The record of the intent is the one that was marked: it was there, so it is frozen.
  have htid : t.contract.deposits.get intentId = some d ∧
      t.history intentId = [.deposited intentId d.payer d.amount] := by
    rcases hfrozen.records intentId with ⟨hget, hhist⟩ | ⟨hnone, -⟩
    · refine ⟨hget.trans haid, ?_⟩
      have hheld := (ho ▸ htells intentId).of_open hopen
      rw [hhist, h.history_eq, hheld, hpayer, hamount]
    · rw [haid] at hnone
      cases hnone
  obtain ⟨e, rfl, hid, hpayment, htold⟩ := h.resumed htid.1 hat.treasury_eq hres
  refine ⟨⟨fun i => ?_, ?_⟩, hat.treasury_eq.trans h.treasury_eq, h.unlocked.symm, fun hl => ?_⟩
  · rw [World.setLocked_deposits, World.emit_contract, World.history_setLocked, World.history_emit,
      hid]
    by_cases hi : intentId = i
    · rw [if_pos hi, ← hi, htid.1, htid.2]
      exact htold
    · rw [if_neg hi]
      rcases hfrozen.records i with ⟨hget, hhist⟩ | ⟨-, hnew⟩
      · rw [hget, hhist, h.marked, if_neg (Ne.symm hi), h.history_eq]
        exact htells i
      · exact hnew
  · have hpaid : t.payments = w.transfers := by
      rw [hfrozen.payments_eq, htransfers, World.payments, World.payments, h.logs_eq, h.treasury_eq]
    rw [World.payments_setLocked, World.payments_emit, hpayment, hpaid]
    exact hfrozen.transfers_eq.trans h.transfers_eq
  · exact absurd (h.unlocked.symm.trans hl) Bool.false_ne_true

end Paying

/-- Every call keeps the account, whatever the recipients of payments do. -/
theorem booked_guarantee (timestamp : Word) :
    Component.Guarantee (escrow timestamp) (fun _ => True) Booked Within where
  refl := Within.refl
  trans := Within.trans
  finished _ hw h := (enter_finished (Entry.checked_eq_finished.1 h)).booked hw
  handedOver _ hw h := by
    have hover := enter_handedOver (Entry.checked_eq_handedOver.1 h)
    obtain ⟨intentId, d, x, hpay⟩ := hover.paying
    exact hpay.booked hw (hover.funded hw.funded)
  resumed {s b a i k t u} _ hw h ht hat hres := by
    have hover := enter_handedOver (Entry.checked_eq_handedOver.1 h)
    obtain ⟨intentId, d, x, hpay⟩ := hover.paying
    obtain ⟨hsettled, hwithin⟩ := hpay.settled hw hat hres
    obtain ⟨-, e, rfl⟩ := resume_eq_ok hres
    refine ⟨⟨⟨ht.funded.balance_eq, ht.funded.payer_ne⟩, fun {i} hget => ?_, fun _ => hsettled⟩,
      hwithin⟩
    exact (hget ▸ hsettled.tells i).of_none
  failed _ _ _ h := absurd (resume_eq_ok h).1 Bool.false_ne_true

section Deployed

variable {sender : Caller} {treasury refundOperator forfeitOperator : Address}
  {forfeitDelay : Uint64} {w₀ : World}

theorem deploy_booked
    (h : deploy sender treasury refundOperator forfeitOperator forfeitDelay = .ok w) :
    Booked w := by
  have hfunded := deploy_funded h
  rw [deploy_eq_ok h] at hfunded ⊢
  exact ⟨hfunded, fun _ => rfl, fun _ => ⟨fun _ => .vacant, rfl⟩⟩

/-- From deployment on, between two transactions the contract is booked and unlocked. -/
theorem booked_of_run
    (hdeploy : deploy sender treasury refundOperator forfeitOperator forfeitDelay = .ok w₀)
    (txs : List (Word × Script Input)) :
    Booked (Runs.exec (Component.chain escrow) w₀ txs) ∧
      Within w₀ (Runs.exec (Component.chain escrow) w₀ txs) :=
  Component.chain_guarantee booked_guarantee Within.refl (fun t _ => t.2.all_true)
    (deploy_booked hdeploy)

/-- The lock is free between two transactions. -/
theorem unlocked_of_run
    (hdeploy : deploy sender treasury refundOperator forfeitOperator forfeitDelay = .ok w₀)
    (txs : List (Word × Script Input)) :
    (Runs.exec (Component.chain escrow) w₀ txs).contract.locked = false := by
  rw [(booked_of_run hdeploy txs).2.locked_eq, deploy_eq_ok hdeploy]

/-- **The log is the account.** After every run of transactions, whatever the recipients of payments
did meanwhile: of each intent the log tells nothing, or a deposit, or a deposit and then one payout,
just as the record has it; and the Ether that left the contract is, payment for payment, what the
payouts of the log say: the deposit and its bonus to the payer, or the deposit to the treasury. -/
theorem log_accounts_for_transfers
    (hdeploy : deploy sender treasury refundOperator forfeitOperator forfeitDelay = .ok w₀)
    (txs : List (Word × Script Input)) (w : World)
    (hw : w = Runs.exec (Component.chain escrow) w₀ txs) :
    (∀ intentId, Tells intentId (w.contract.deposits.get intentId)
      (w.logs.filter fun e => e.intentId = intentId)) ∧
    w.transfers = w.logs.filterMap (Event.payment treasury) := by
  subst hw
  obtain ⟨htells, htransfers⟩ :=
    (booked_of_run hdeploy txs).1.settled (unlocked_of_run hdeploy txs)
  refine ⟨htells, ?_⟩
  rw [htransfers, World.payments, (booked_of_run hdeploy txs).2.treasury_eq, deploy_eq_ok hdeploy]

theorem log_accounts_for_transfers_refund :
    (∀ intentId, Tells intentId
      ((Runs.exec (Component.chain escrow) exampleEscrow
        [exampleDeposit, (9, exampleRefund)]).contract.deposits.get intentId)
      ((Runs.exec (Component.chain escrow) exampleEscrow
        [exampleDeposit, (9, exampleRefund)]).logs.filter fun e => e.intentId = intentId)) ∧
    (Runs.exec (Component.chain escrow) exampleEscrow
      [exampleDeposit, (9, exampleRefund)]).transfers =
        (Runs.exec (Component.chain escrow) exampleEscrow
          [exampleDeposit, (9, exampleRefund)]).logs.filterMap (Event.payment 9) :=
  log_accounts_for_transfers exampleEscrow_deployed [exampleDeposit, (9, exampleRefund)] _ rfl

example : (Runs.exec (Component.chain escrow) exampleEscrow
    [exampleDeposit, (9, exampleRefund)]).transfers = [⟨2, 7⟩] := by decide

end Deployed

end Ddns.TollEscrow
