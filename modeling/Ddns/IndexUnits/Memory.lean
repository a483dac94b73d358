import Ddns.IndexUnits.SpendEscrow
import Ddns.Lib.FinMap
import Ddns.Lib.Js

/-!
# The escrow in memory

`SpendEscrowMemory` is the escrow that the demo server runs on. Users are texts and amounts are
integers without a bound. It answers as the contract does, with the texts of the same errors, except
where the contract has a check that is missing here: anyone may set settlers and limits, nobody may
be a user, and no deposit overflows. The two run in lockstep exactly as long as no call meets one
of these (`Common`).
-/

namespace Ddns.IndexUnits

open Evm

structure SettlementRecord where
  settlementId : JsText
  user : JsText
  amount : JsText
  createdAt : JsText
  deriving DecidableEq

structure SpendEscrowMemory where
  balances : FinMap JsText Int
  spendLimits : FinMap JsText Int
  settlers : List JsText
  settlements : List SettlementRecord

inductive MemoryError where
  | invalidAmount | insufficientBalance | invalidLimit | notSettler | spendLimitExceeded
  deriving DecidableEq, Repr

def MemoryError.message : MemoryError → String
  | .invalidAmount => "invalid_amount"
  | .insufficientBalance => "insufficient_balance"
  | .invalidLimit => "invalid_limit"
  | .notSettler => "not_settler"
  | .spendLimitExceeded => "spend_limit_exceeded"

inductive MemoryCall where
  | setSettler (address : JsText) (allowed : Bool)
  | deposit (user : JsText) (amount : Int)
  | withdraw (user : JsText) (amount : Int)
  | setSpendLimit (user : JsText) (limit : Int)
  | debitForSettlement (settler user : JsText) (amount : Int) (settlementId : JsText)

/-- The new state and the record that a debit returns. -/
abbrev MemoryOutcome := Except MemoryError (SpendEscrowMemory × Option SettlementRecord)

namespace SpendEscrowMemory

variable (m : SpendEscrowMemory)

/-- A new escrow. -/
def init : SpendEscrowMemory := ⟨FinMap.empty, FinMap.empty, [], []⟩

def balanceOf (user : JsText) : Int := (m.balances.get user).getD 0

def limitOf (user : JsText) : Int := (m.spendLimits.get user).getD 0

def setBalance (user : JsText) (amount : Int) : SpendEscrowMemory :=
  { m with balances := m.balances.set user amount }

def setSettler (address : JsText) (allowed : Bool) : SpendEscrowMemory :=
  { m with settlers := if allowed then
      if address ∈ m.settlers then m.settlers else m.settlers ++ [address]
    else m.settlers.filter fun s => s ≠ address }

def deposit (user : JsText) (amount : Int) : MemoryOutcome :=
  if amount ≤ 0 then .error .invalidAmount
  else .ok (m.setBalance user (m.balanceOf user + amount), none)

def withdraw (user : JsText) (amount : Int) : MemoryOutcome :=
  if amount ≤ 0 then .error .invalidAmount
  else if m.balanceOf user < amount then .error .insufficientBalance
  else .ok (m.setBalance user (m.balanceOf user - amount), none)

def setSpendLimit (user : JsText) (limit : Int) : MemoryOutcome :=
  if limit < 0 then .error .invalidLimit
  else .ok ({ m with spendLimits := m.spendLimits.set user limit }, none)

def debitForSettlement (now settler user : JsText) (amount : Int) (settlementId : JsText) :
    MemoryOutcome :=
  if settler ∉ m.settlers then .error .notSettler
  else if amount ≤ 0 then .error .invalidAmount
  else if m.balanceOf user < amount then .error .insufficientBalance
  else if 0 < m.limitOf user ∧ m.limitOf user < amount then .error .spendLimitExceeded
  else
    let record : SettlementRecord := ⟨settlementId, user, (toString amount).toList, now⟩
    .ok ({ m.setBalance user (m.balanceOf user - amount) with
      settlements := m.settlements ++ [record] }, some record)

def call (now : JsText) : MemoryCall → MemoryOutcome
  | .setSettler address allowed => .ok (m.setSettler address allowed, none)
  | .deposit user amount => m.deposit user amount
  | .withdraw user amount => m.withdraw user amount
  | .setSpendLimit user limit => m.setSpendLimit user limit
  | .debitForSettlement settler user amount id => m.debitForSettlement now settler user amount id

/-- One call at the given time: a call that throws changes nothing. -/
def step (m : SpendEscrowMemory) (i : JsText × MemoryCall) :
    SpendEscrowMemory × Except MemoryError (Option SettlementRecord) :=
  match m.call i.1 i.2 with
  | .ok (m', r) => (m', .ok r)
  | .error e => (m, .error e)

end SpendEscrowMemory

/-! ## In lockstep with the contract -/

/-- How accounts are written in the calls of the memory escrow. -/
structure Naming where
  address : Address → JsText
  id : Word → JsText
  injective : Function.Injective address

namespace Naming

variable (N : Naming)

/-- A call of the contract as one of the memory escrow. -/
def call (sender : Address) : Call → MemoryCall
  | .setSettler settler allowed => .setSettler (N.address settler) allowed
  | .setSpendLimit user limit => .setSpendLimit (N.address user) limit.toNat
  | .deposit user amount => .deposit (N.address user) amount.toNat
  | .withdraw amount => .withdraw (N.address sender) amount.toNat
  | .debitForSettlement user amount id =>
    .debitForSettlement (N.address sender) (N.address user) amount.toNat (N.id id)

/-- And with the time at which it is made. -/
def timed (i : JsText × Caller × Call) : JsText × MemoryCall :=
  (i.1, N.call i.2.1.address i.2.2)

/-- The memory escrow holds what the contract holds. -/
structure Holds (c : SpendEscrow) (m : SpendEscrowMemory) : Prop where
  balance_eq : ∀ a, m.balanceOf (N.address a) = ((c.balanceOf a).toNat : Int)
  limit_eq : ∀ a, m.limitOf (N.address a) = ((c.spendLimit a).toNat : Int)
  settler_iff : ∀ a, N.address a ∈ m.settlers ↔ c.isSettler a = true

/-- The record that belongs to an event. -/
def record (now : JsText) : Event → Option SettlementRecord
  | .debited user amount id =>
    some ⟨N.id id, N.address user, (toString (amount.toNat : Int)).toList, now⟩
  | _ => none

/-- Both succeed, the memory escrow with the record of the event, or both fail with one text. -/
inductive Agree :
    Except (Failure Reason) Event → Except MemoryError (Option SettlementRecord) → Prop where
  | ok (e : Event) (now : JsText) : Agree (.ok e) (.ok (N.record now e))
  | error {r : Reason} {e : MemoryError} (h : r.text = e.message) :
      Agree (.error (.revert r)) (.error e)

/-- The same of the outcomes, with states that hold the same. -/
inductive Same (now : JsText) : Outcome → MemoryOutcome → Prop where
  | ok {c : SpendEscrow} {m : SpendEscrowMemory} {e : Event} (h : N.Holds c m) :
      Same now (.ok (c, e)) (.ok (m, N.record now e))
  | error {r : Reason} {e : MemoryError} (h : r.text = e.message) :
      Same now (.error (.revert r)) (.error e)

variable {N} {now : JsText} {c : SpendEscrow} {m : SpendEscrowMemory}

theorem Same.cases {x : Outcome} {y : MemoryOutcome} (h : N.Same now x y) :
    (∃ c m e, x = .ok (c, e) ∧ y = .ok (m, N.record now e) ∧ N.Holds c m) ∨
    ∃ r e, x = .error (.revert r) ∧ y = .error e ∧ r.text = e.message := by
  cases h with
  | @ok c m e h => exact .inl ⟨c, m, e, rfl, rfl, h⟩
  | @error r e htext => exact .inr ⟨r, e, rfl, rfl, htext⟩

/-- A check that both make. -/
theorem Same.check {p q : Prop} [Decidable p] [Decidable q] {r : Reason} {e : MemoryError}
    {x : Outcome} {y : MemoryOutcome} (hpq : q ↔ ¬p) (htext : r.text = e.message)
    (h : p → N.Same now x y) :
    N.Same now (require p r >>= fun _ => x) (if q then .error e else y) := by
  by_cases hp : p
  · rw [if_neg (fun hq => hpq.1 hq hp), require, if_pos hp]
    exact h hp
  · rw [if_pos (hpq.2 hp), require, if_neg hp]
    exact .error htext

theorem Holds.setBalance (h : N.Holds c m) (user : Address) {amount : Word} {n : Int}
    (hn : n = (amount.toNat : Int)) :
    N.Holds (c.setBalance user amount) (m.setBalance (N.address user) n) := by
  refine ⟨fun a => ?_, h.limit_eq, h.settler_iff⟩
  unfold SpendEscrowMemory.balanceOf SpendEscrowMemory.setBalance
  by_cases ha : a = user
  · rw [ha, FinMap.get_set_self, setBalance_self, hn]
    rfl
  · rw [FinMap.get_set_ne _ _ fun he => ha (N.injective he), setBalance_ne ha]
    exact h.balance_eq a

theorem Holds.setSpendLimit (h : N.Holds c m) (user : Address) (limit : Word) :
    N.Holds { c with spendLimit := Function.update c.spendLimit user limit }
      { m with spendLimits := m.spendLimits.set (N.address user) (limit.toNat : Int) } := by
  refine ⟨h.balance_eq, fun a => ?_, h.settler_iff⟩
  unfold SpendEscrowMemory.limitOf
  by_cases ha : a = user
  · rw [ha, FinMap.get_set_self]
    simp
  · rw [FinMap.get_set_ne _ _ fun he => ha (N.injective he)]
    show _ = ((Function.update c.spendLimit user limit a).toNat : Int)
    rw [Function.update_of_ne ha]
    exact h.limit_eq a

theorem mem_setSettler (m : SpendEscrowMemory) (address s : JsText) (allowed : Bool) :
    s ∈ (m.setSettler address allowed).settlers ↔
      if s = address then allowed = true else s ∈ m.settlers := by
  unfold SpendEscrowMemory.setSettler
  cases allowed with
  | true =>
    by_cases hs : s = address
    · subst hs
      by_cases hmem : s ∈ m.settlers <;> simp [hmem]
    · by_cases hmem : address ∈ m.settlers <;> simp [hmem, hs]
  | false =>
    by_cases hs : s = address
    · simp [hs]
    · simp [hs]

theorem Holds.setSettler (h : N.Holds c m) (settler : Address) (allowed : Bool) :
    N.Holds { c with isSettler := Function.update c.isSettler settler allowed }
      (m.setSettler (N.address settler) allowed) := by
  refine ⟨h.balance_eq, h.limit_eq, fun a => ?_⟩
  rw [mem_setSettler]
  by_cases ha : a = settler
  · simp [ha]
  · rw [if_neg fun he => ha (N.injective he)]
    simpa [ha] using h.settler_iff a

/-- The checks that the contract makes alone let the call pass. -/
def Common (c : SpendEscrow) (i : Caller × Call) : Prop :=
  match i.2 with
  | .setSettler _ _ => i.1.address = c.owner
  | .setSpendLimit _ _ => i.1.address = c.owner
  | .deposit user amount =>
    user ≠ 0 ∧ (c.balanceOf user).toNat + amount.toNat < 2 ^ 256
  | .withdraw _ => True
  | .debitForSettlement user _ _ => user ≠ 0 ∨ c.isSettler i.1.address = false

section Calls

variable {sender : Caller}

theorem amount_check (amount : Word) : (amount.toNat : Int) ≤ 0 ↔ ¬0 < amount.toNat := by
  omega

theorem Holds.balance_check (h : N.Holds c m) (user : Address) (amount : Word) :
    m.balanceOf (N.address user) < (amount.toNat : Int) ↔
      ¬amount.toNat ≤ (c.balanceOf user).toNat := by
  rw [h.balance_eq]
  omega

theorem Holds.sub (h : N.Holds c m) {user : Address} {amount : Word}
    (hcovered : amount.toNat ≤ (c.balanceOf user).toNat) :
    N.Holds (c.setBalance user (c.balanceOf user - amount))
      (m.setBalance (N.address user) (m.balanceOf (N.address user) - (amount.toNat : Int))) := by
  refine h.setBalance user ?_
  have hsub := toNat_sub_of_le hcovered
  rw [h.balance_eq]
  omega

theorem Holds.deposit (h : N.Holds c m) {user : Address} {amount : Word} (huser : user ≠ 0)
    (hsum : (c.balanceOf user).toNat + amount.toNat < 2 ^ 256) :
    N.Same now (c.deposit user amount) (m.deposit (N.address user) amount.toNat) := by
  have hadd : (add (c.balanceOf user) amount : Except (Failure Reason) Word) =
      .ok (c.balanceOf user + amount) := by
    rw [add_eq_ok, BitVec.toNat_add, Nat.mod_eq_of_lt hsum]
  unfold SpendEscrow.deposit SpendEscrowMemory.deposit
  rw [require, if_pos huser]
  refine Same.check (amount_check amount) rfl fun _ => ?_
  rw [hadd]
  refine .ok (e := .deposited user amount) (h.setBalance user ?_)
  rw [h.balance_eq, BitVec.toNat_add, Nat.mod_eq_of_lt hsum]
  rfl

theorem Holds.withdraw (h : N.Holds c m) (sender : Address) (amount : Word) :
    N.Same now (c.withdraw sender amount) (m.withdraw (N.address sender) amount.toNat) := by
  refine Same.check (amount_check amount) rfl fun _ => ?_
  refine Same.check (h.balance_check sender amount) rfl fun hcovered => ?_
  exact .ok (e := .withdrawn sender amount) (h.sub hcovered)

theorem Holds.debitForSettlement (h : N.Holds c m) (sender : Address) {user : Address}
    (amount id : Word) (hcommon : user ≠ 0 ∨ c.isSettler sender = false) :
    N.Same now (c.debitForSettlement sender user amount id)
      (m.debitForSettlement now (N.address sender) (N.address user) amount.toNat (N.id id)) := by
  refine Same.check (not_congr (h.settler_iff sender)) rfl fun hsettler => ?_
  have huser : user ≠ 0 := by
    rcases hcommon with huser | hnot
    · exact huser
    · exact absurd (hnot.symm.trans hsettler) Bool.false_ne_true
  rw [require, if_pos huser]
  refine Same.check (amount_check amount) rfl fun _ => ?_
  refine Same.check (h.balance_check user amount) rfl fun hcovered => ?_
  refine Same.check ?_ rfl fun _ => ?_
  · rw [h.limit_eq]
    omega
  · have hsub := h.sub hcovered
    exact .ok (e := .debited user amount id) ⟨hsub.balance_eq, hsub.limit_eq, hsub.settler_iff⟩

/-- A common call has the same outcome. -/
theorem Holds.same (h : N.Holds c m) {i : Caller × Call} (hi : Common c i) :
    N.Same now (c.call i.1.address i.2) (m.call now (N.call i.1.address i.2)) := by
  obtain ⟨sender, call⟩ := i
  cases call with
  | setSettler settler allowed =>
    have howner : sender.address = c.owner := hi
    show N.Same now (require _ _ >>= _) _
    rw [require, if_pos howner]
    exact .ok (e := .settlerUpdated settler allowed) (h.setSettler settler allowed)
  | setSpendLimit user limit =>
    have howner : sender.address = c.owner := hi
    have hnonneg : ¬(limit.toNat : Int) < 0 := by omega
    show N.Same now (require _ _ >>= _) (m.setSpendLimit (N.address user) limit.toNat)
    rw [require, if_pos howner, SpendEscrowMemory.setSpendLimit, if_neg hnonneg]
    exact .ok (e := .spendLimitUpdated user limit) (h.setSpendLimit user limit)
  | deposit user amount => exact h.deposit hi.1 hi.2
  | withdraw amount => exact h.withdraw sender.address amount
  | debitForSettlement user amount id => exact h.debitForSettlement sender.address amount id hi

end Calls

/-! ## Where they part -/

/-- The failures that only the contract knows. -/
def IsOwn (f : Failure Reason) : Prop :=
  f = .arithmetic ∨ f = .revert .notOwner ∨ f = .revert .invalidUser

/-- The memory escrow has no error with these texts. -/
theorem not_agree_of_own {f : Failure Reason} (hf : IsOwn f)
    (y : Except MemoryError (Option SettlementRecord)) : ¬N.Agree (.error f) y := by
  intro h
  cases h with
  | @error r e htext =>
    rcases hf with hf | hf | hf
    · cases hf
    · cases hf
      cases e <;> exact absurd htext (by decide)
    · cases hf
      cases e <;> exact absurd htext (by decide)

/-- A call that is not common fails in the contract in a way of its own. -/
theorem own_of_not_common {i : Caller × Call} (h : ¬Common c i) :
    ∃ f, c.call i.1.address i.2 = .error f ∧ IsOwn f := by
  obtain ⟨sender, call⟩ := i
  cases call with
  | setSettler settler allowed =>
    have howner : ¬sender.address = c.owner := h
    refine ⟨.revert .notOwner, ?_, .inr (.inl rfl)⟩
    show require _ _ >>= _ = _
    rw [require, if_neg howner]
    rfl
  | setSpendLimit user limit =>
    have howner : ¬sender.address = c.owner := h
    refine ⟨.revert .notOwner, ?_, .inr (.inl rfl)⟩
    show require _ _ >>= _ = _
    rw [require, if_neg howner]
    rfl
  | deposit user amount =>
    by_cases huser : user ≠ 0
    · have hover : ¬(c.balanceOf user).toNat + amount.toNat < 2 ^ 256 := fun hsum => h ⟨huser, hsum⟩
      have hlt := (c.balanceOf user).isLt
      refine ⟨.arithmetic, ?_, .inl rfl⟩
      show c.deposit user amount = _
      unfold SpendEscrow.deposit
      rw [require, if_pos huser, require, if_pos (by omega), add, Checked.add, if_neg hover]
      rfl
    · refine ⟨.revert .invalidUser, ?_, .inr (.inr rfl)⟩
      show require _ _ >>= _ = _
      rw [require, if_neg huser]
      rfl
  | withdraw amount => exact absurd trivial h
  | debitForSettlement user amount id =>
    obtain ⟨huser, hsettler⟩ := not_or.1 h
    refine ⟨.revert .invalidUser, ?_, .inr (.inr rfl)⟩
    show require _ _ >>= _ = _
    rw [require, if_pos (Bool.not_eq_false _ ▸ hsettler)]
    show require _ _ >>= _ = _
    rw [require, if_neg huser]
    rfl

/-! ## Runs -/

/-- The contract reads no clock. -/
def timedStep (c : SpendEscrow) (i : JsText × Caller × Call) :
    SpendEscrow × Except (Failure Reason) Event :=
  step c i.2

theorem agree_iff (h : N.Holds c m) (i : JsText × Caller × Call) :
    N.Agree (timedStep c i).2 (m.step (N.timed i)).2 ↔ Common c i.2 := by
  unfold timedStep SpendEscrowMemory.step Ddns.IndexUnits.step timed
  constructor
  · intro hagree
    by_contra hnot
    obtain ⟨f, hf, hown⟩ := own_of_not_common hnot
    rw [hf] at hagree
    exact not_agree_of_own hown _ hagree
  · intro hi
    rcases (h.same hi).cases with ⟨c', m', e, hc, hm, -⟩ | ⟨r, e, hc, hm, htext⟩
    · rw [hc, hm]
      exact .ok e i.1
    · rw [hc, hm]
      exact .error htext

theorem holds_step (h : N.Holds c m) (i : JsText × Caller × Call) (hi : Common c i.2) :
    N.Holds (timedStep c i).1 (m.step (N.timed i)).1 := by
  unfold timedStep SpendEscrowMemory.step Ddns.IndexUnits.step timed
  rcases (h.same hi).cases with ⟨c', m', e, hc, hm, hnext⟩ | ⟨r, e, hc, hm, -⟩
  · rw [hc, hm]
    exact hnext
  · rw [hc, hm]
    exact h

theorem holds_init (sender : Caller) :
    N.Holds (SpendEscrow.deploy sender) SpendEscrowMemory.init := by
  refine ⟨fun _ => rfl, fun _ => rfl, fun a => ?_⟩
  simp [SpendEscrowMemory.init, SpendEscrow.deploy]

/-- **The memory escrow refines the contract up to its missing checks.** Two runs of the same calls
give answers that agree, success for success, record for event and error text for error text,
exactly if every call is `Common`: the owner sets settlers and limits, nobody is not a user, and no
deposit overflows. Then also all balances agree. -/
theorem memory_agrees_iff (N : Naming) (owner : Caller) (is : List (JsText × Caller × Call)) :
    (List.Forall₂ N.Agree (Runs.outs timedStep (SpendEscrow.deploy owner) is)
      (Runs.outs SpendEscrowMemory.step SpendEscrowMemory.init (is.map N.timed)) ↔
        Runs.Each timedStep (fun c i => Common c i.2) (SpendEscrow.deploy owner) is) ∧
    (Runs.Each timedStep (fun c i => Common c i.2) (SpendEscrow.deploy owner) is → ∀ user,
      (Runs.exec SpendEscrowMemory.step SpendEscrowMemory.init (is.map N.timed)).balanceOf
        (N.address user) =
          (((Runs.exec timedStep (SpendEscrow.deploy owner) is).balanceOf user).toNat : Int)) := by
  have hstart : N.Holds (SpendEscrow.deploy owner) SpendEscrowMemory.init := holds_init owner
  constructor
  · exact Runs.outs_agree_iff (R := N.Holds) (fun _ _ i h => agree_iff h i)
      (fun _ _ i h hi => holds_step h i hi) hstart is
  · intro hall user
    have hend := Runs.exec_lockstep (R := N.Holds) (fun _ _ i h hi => holds_step h i hi) hstart hall
    exact hend.balance_eq user

end Naming

end Ddns.IndexUnits
