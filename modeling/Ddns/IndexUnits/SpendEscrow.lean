import Ddns.Lib.Evm
import Ddns.Lib.Run
import Mathlib.Algebra.BigOperators.Group.List.Basic
import Mathlib.Algebra.Order.Floor.Div
import Mathlib.Logic.Function.Basic

/-!
# The escrow of the index units

The contract `SpendEscrow` holds index units for its users. Settlers that the owner admits debit
them; a spend limit, where one is set, bounds a debit. Every call that succeeds emits one event, so
the log of a run is the list of its answers.
-/

namespace Ddns.IndexUnits

open Evm

structure SpendEscrow where
  owner : Address
  balanceOf : Address → Word
  spendLimit : Address → Word
  isSettler : Address → Bool

inductive Event where
  | deposited (user : Address) (amount : Word)
  | withdrawn (user : Address) (amount : Word)
  | debited (user : Address) (amount settlementId : Word)
  | settlerUpdated (settler : Address) (allowed : Bool)
  | spendLimitUpdated (user : Address) (limit : Word)
  deriving DecidableEq

inductive Reason where
  | notOwner | notSettler | invalidUser | invalidAmount | insufficientBalance | spendLimitExceeded
  deriving DecidableEq, Repr

def Reason.text : Reason → String
  | .notOwner => "not_owner"
  | .notSettler => "not_settler"
  | .invalidUser => "invalid_user"
  | .invalidAmount => "invalid_amount"
  | .insufficientBalance => "insufficient_balance"
  | .spendLimitExceeded => "spend_limit_exceeded"

/-- `constructor`. -/
def SpendEscrow.deploy (sender : Caller) : SpendEscrow :=
  ⟨sender.address, fun _ => 0, fun _ => 0, fun _ => false⟩

inductive Call where
  | setSettler (settler : Address) (allowed : Bool)
  | setSpendLimit (user : Address) (limit : Word)
  | deposit (user : Address) (amount : Word)
  | withdraw (amount : Word)
  | debitForSettlement (user : Address) (amount settlementId : Word)

/-- The new storage and the event of a call. -/
abbrev Outcome := Except (Failure Reason) (SpendEscrow × Event)

namespace SpendEscrow

variable (c : SpendEscrow) (sender : Address)

def setBalance (user : Address) (amount : Word) : SpendEscrow :=
  { c with balanceOf := Function.update c.balanceOf user amount }

def setSettler (settler : Address) (allowed : Bool) : Outcome := do
  require (sender = c.owner) .notOwner
  pure ({ c with isSettler := Function.update c.isSettler settler allowed },
    .settlerUpdated settler allowed)

def setSpendLimit (user : Address) (limit : Word) : Outcome := do
  require (sender = c.owner) .notOwner
  pure ({ c with spendLimit := Function.update c.spendLimit user limit },
    .spendLimitUpdated user limit)

def deposit (user : Address) (amount : Word) : Outcome := do
  require (user ≠ 0) .invalidUser
  require (0 < amount.toNat) .invalidAmount
  let sum ← add (c.balanceOf user) amount
  pure (c.setBalance user sum, .deposited user amount)

def withdraw (amount : Word) : Outcome := do
  require (0 < amount.toNat) .invalidAmount
  let current := c.balanceOf sender
  require (amount.toNat ≤ current.toNat) .insufficientBalance
  pure (c.setBalance sender (current - amount), .withdrawn sender amount)

def debitForSettlement (user : Address) (amount settlementId : Word) : Outcome := do
  require (c.isSettler sender = true) .notSettler
  require (user ≠ 0) .invalidUser
  require (0 < amount.toNat) .invalidAmount
  let current := c.balanceOf user
  require (amount.toNat ≤ current.toNat) .insufficientBalance
  let limit := c.spendLimit user
  require (0 < limit.toNat → amount.toNat ≤ limit.toNat) .spendLimitExceeded
  pure (c.setBalance user (current - amount), .debited user amount settlementId)

def call : Call → Outcome
  | .setSettler settler allowed => c.setSettler sender settler allowed
  | .setSpendLimit user limit => c.setSpendLimit sender user limit
  | .deposit user amount => c.deposit user amount
  | .withdraw amount => c.withdraw sender amount
  | .debitForSettlement user amount id => c.debitForSettlement sender user amount id

end SpendEscrow

/-- One transaction: a call that reverts changes nothing. -/
def step (c : SpendEscrow) (i : Caller × Call) : SpendEscrow × Except (Failure Reason) Event :=
  match c.call i.1.address i.2 with
  | .ok (c', e) => (c', .ok e)
  | .error f => (c, .error f)

/-- The event log of a run. -/
def logs (c : SpendEscrow) (is : List (Caller × Call)) : List Event :=
  (Runs.trace step c is).filterMap fun e => e.out.toOption

/-! ## What a call does -/

theorem step_ok {c c' : SpendEscrow} {i : Caller × Call} {e : Event}
    (h : c.call i.1.address i.2 = .ok (c', e)) : step c i = (c', .ok e) := by
  simp [step, h]

theorem step_error {c : SpendEscrow} {i : Caller × Call} {f : Failure Reason}
    (h : c.call i.1.address i.2 = .error f) : step c i = (c, .error f) := by
  simp [step, h]

/-- A call reverts and changes nothing, or succeeds and emits its event. -/
theorem step_cases (c : SpendEscrow) (i : Caller × Call) :
    (∃ f, c.call i.1.address i.2 = .error f ∧ step c i = (c, .error f)) ∨
    ∃ c' e, c.call i.1.address i.2 = .ok (c', e) ∧ step c i = (c', .ok e) := by
  cases h : c.call i.1.address i.2 with
  | error f => exact .inl ⟨f, rfl, step_error h⟩
  | ok r => exact .inr ⟨r.1, r.2, rfl, step_ok h⟩

/-- What a call that succeeds has checked and written. -/
inductive Succeeds (c : SpendEscrow) (sender : Address) : Call → SpendEscrow → Event → Prop where
  | setSettler {settler : Address} {allowed : Bool} (howner : sender = c.owner) :
      Succeeds c sender (.setSettler settler allowed)
        { c with isSettler := Function.update c.isSettler settler allowed }
        (.settlerUpdated settler allowed)
  | setSpendLimit {user : Address} {limit : Word} (howner : sender = c.owner) :
      Succeeds c sender (.setSpendLimit user limit)
        { c with spendLimit := Function.update c.spendLimit user limit }
        (.spendLimitUpdated user limit)
  | deposit {user : Address} {amount sum : Word} (huser : user ≠ 0) (hpos : 0 < amount.toNat)
      (hsum : (c.balanceOf user).toNat + amount.toNat = sum.toNat) :
      Succeeds c sender (.deposit user amount) (c.setBalance user sum) (.deposited user amount)
  | withdraw {amount : Word} (hpos : 0 < amount.toNat)
      (hcovered : amount.toNat ≤ (c.balanceOf sender).toNat) :
      Succeeds c sender (.withdraw amount) (c.setBalance sender (c.balanceOf sender - amount))
        (.withdrawn sender amount)
  | debit {user : Address} {amount settlementId : Word} (hsettler : c.isSettler sender = true)
      (huser : user ≠ 0) (hpos : 0 < amount.toNat)
      (hcovered : amount.toNat ≤ (c.balanceOf user).toNat)
      (hlimit : 0 < (c.spendLimit user).toNat → amount.toNat ≤ (c.spendLimit user).toNat) :
      Succeeds c sender (.debitForSettlement user amount settlementId)
        (c.setBalance user (c.balanceOf user - amount)) (.debited user amount settlementId)

theorem call_eq_ok_iff {c c' : SpendEscrow} {sender : Address} {i : Call} {e : Event} :
    c.call sender i = .ok (c', e) ↔ Succeeds c sender i c' e := by
  constructor
  · intro h
    cases i with
    | setSettler settler allowed =>
      simp only [SpendEscrow.call, SpendEscrow.setSettler, bind_eq_ok, require_eq_ok, exists_unit,
        pure_eq_ok, Prod.mk.injEq] at h
      obtain ⟨howner, rfl, rfl⟩ := h
      exact .setSettler howner
    | setSpendLimit user limit =>
      simp only [SpendEscrow.call, SpendEscrow.setSpendLimit, bind_eq_ok, require_eq_ok,
        exists_unit, pure_eq_ok, Prod.mk.injEq] at h
      obtain ⟨howner, rfl, rfl⟩ := h
      exact .setSpendLimit howner
    | deposit user amount =>
      simp only [SpendEscrow.call, SpendEscrow.deposit, bind_eq_ok, require_eq_ok, exists_unit,
        pure_eq_ok, Prod.mk.injEq, add_eq_ok] at h
      obtain ⟨huser, hpos, sum, hsum, rfl, rfl⟩ := h
      exact .deposit huser hpos hsum
    | withdraw amount =>
      simp only [SpendEscrow.call, SpendEscrow.withdraw, bind_eq_ok, require_eq_ok, exists_unit,
        pure_eq_ok, Prod.mk.injEq] at h
      obtain ⟨hpos, hcovered, rfl, rfl⟩ := h
      exact .withdraw hpos hcovered
    | debitForSettlement user amount id =>
      simp only [SpendEscrow.call, SpendEscrow.debitForSettlement, bind_eq_ok, require_eq_ok,
        exists_unit, pure_eq_ok, Prod.mk.injEq] at h
      obtain ⟨hsettler, huser, hpos, hcovered, hlimit, rfl, rfl⟩ := h
      exact .debit hsettler huser hpos hcovered hlimit
  · intro h
    cases h with
    | setSettler howner =>
      simp only [SpendEscrow.call, SpendEscrow.setSettler, bind_eq_ok, require_eq_ok, exists_unit,
        pure_eq_ok]
      exact ⟨howner, trivial⟩
    | setSpendLimit howner =>
      simp only [SpendEscrow.call, SpendEscrow.setSpendLimit, bind_eq_ok, require_eq_ok,
        exists_unit, pure_eq_ok]
      exact ⟨howner, trivial⟩
    | @deposit user amount sum huser hpos hsum =>
      simp only [SpendEscrow.call, SpendEscrow.deposit, bind_eq_ok, require_eq_ok, exists_unit,
        pure_eq_ok, add_eq_ok]
      exact ⟨huser, hpos, sum, hsum, rfl⟩
    | withdraw hpos hcovered =>
      simp only [SpendEscrow.call, SpendEscrow.withdraw, bind_eq_ok, require_eq_ok, exists_unit,
        pure_eq_ok]
      exact ⟨hpos, hcovered, trivial⟩
    | debit hsettler huser hpos hcovered hlimit =>
      simp only [SpendEscrow.call, SpendEscrow.debitForSettlement, bind_eq_ok, require_eq_ok,
        exists_unit, pure_eq_ok]
      exact ⟨hsettler, huser, hpos, hcovered, hlimit, trivial⟩

end Ddns.IndexUnits

/-!
## The accounts of the index units

The log accounts for every balance: what a user has is what was deposited for it less what it
withdrew and was debited. The spend limit bounds one debit and no more, and a settlement id is never
used up: a settler can take all that a user has under one id, in as many debits as the limit goes
into the balance.
-/

namespace Ddns.IndexUnits

open Evm

variable {c c' : SpendEscrow}

/-- What an event adds to the account of a user. -/
def Event.credit (user : Address) : Event → Nat
  | .deposited u amount => if u = user then amount.toNat else 0
  | _ => 0

/-- What an event takes from the account of a user. -/
def Event.charge (user : Address) : Event → Nat
  | .withdrawn u amount => if u = user then amount.toNat else 0
  | .debited u amount _ => if u = user then amount.toNat else 0
  | _ => 0

/-! ## One call -/

theorem setBalance_self (user : Address) (amount : Word) :
    (c.setBalance user amount).balanceOf user = amount := by
  simp [SpendEscrow.setBalance]

theorem setBalance_ne {user user' : Address} (h : user' ≠ user) (amount : Word) :
    (c.setBalance user amount).balanceOf user' = c.balanceOf user' := by
  simp [SpendEscrow.setBalance, h]

/-- Taking out what is there. -/
theorem toNat_sub_of_le {a b : Word} (h : b.toNat ≤ a.toNat) : (a - b).toNat + b.toNat = a.toNat := by
  rw [BitVec.toNat_sub_of_le (BitVec.le_def.2 h)]
  omega

/-- An account moves by what the event says. -/
theorem Succeeds.balance {sender : Address} {i : Call} {e : Event}
    (h : Succeeds c sender i c' e) (user : Address) :
    (c'.balanceOf user).toNat + e.charge user = (c.balanceOf user).toNat + e.credit user := by
  cases h with
  | setSettler => rfl
  | setSpendLimit => rfl
  | @deposit u amount sum _ _ hsum =>
    by_cases hu : u = user
    · subst hu
      simp only [setBalance_self, Event.charge, Event.credit, if_true, hsum, Nat.add_zero]
    · simp only [setBalance_ne (Ne.symm hu), Event.charge, Event.credit, if_neg hu]
  | @withdraw amount _ hcovered =>
    by_cases hu : sender = user
    · subst hu
      have hsub := toNat_sub_of_le hcovered
      simp only [setBalance_self, Event.charge, Event.credit, if_true, hsub, Nat.add_zero]
    · simp only [setBalance_ne (Ne.symm hu), Event.charge, Event.credit, if_neg hu]
  | @debit u amount id _ _ _ hcovered _ =>
    by_cases hu : u = user
    · subst hu
      have hsub := toNat_sub_of_le hcovered
      simp only [setBalance_self, Event.charge, Event.credit, if_true, hsub, Nat.add_zero]
    · simp only [setBalance_ne (Ne.symm hu), Event.charge, Event.credit, if_neg hu]

theorem logs_cons (c : SpendEscrow) (i : Caller × Call) (is : List (Caller × Call)) :
    logs c (i :: is) = (step c i).2.toOption.toList ++ logs (step c i).1 is := by
  unfold logs
  rw [Runs.trace_cons, List.filterMap_cons]
  simp only [Runs.event_out]
  cases (step c i).2.toOption <;> rfl

/-! ## Every run -/

theorem balance_of_run (user : Address) (c : SpendEscrow) (is : List (Caller × Call)) :
    ((Runs.exec step c is).balanceOf user).toNat + ((logs c is).map (Event.charge user)).sum =
      (c.balanceOf user).toNat + ((logs c is).map (Event.credit user)).sum := by
  induction is generalizing c with
  | nil => rfl
  | cons i is ih =>
    rw [Runs.exec_cons, logs_cons]
    have hrest := ih (step c i).1
    rcases step_cases c i with ⟨f, -, hs⟩ | ⟨c', e, hcall, hs⟩
    · rw [hs] at hrest ⊢
      exact hrest
    · have hbalance := (call_eq_ok_iff.1 hcall).balance user
      rw [hs] at hrest ⊢
      simp only [Except.toOption, Option.toList_some, List.singleton_append, List.map_cons,
        List.sum_cons] at hrest ⊢
      omega

/-- **The log accounts for every balance.** After every run of calls from deployment on, what a user
has and what it withdrew and was debited add up to what was deposited for it. -/
theorem deposits_account_for_balance (sender : Caller) (is : List (Caller × Call))
    (user : Address) :
    ((Runs.exec step (SpendEscrow.deploy sender) is).balanceOf user).toNat +
      ((logs (SpendEscrow.deploy sender) is).map (Event.charge user)).sum =
      ((logs (SpendEscrow.deploy sender) is).map (Event.credit user)).sum := by
  have h := balance_of_run user (SpendEscrow.deploy sender) is
  rw [show ((SpendEscrow.deploy sender).balanceOf user).toNat = 0 from rfl, Nat.zero_add] at h
  exact h

/-! ## The limit of a debit -/

/-- The largest debit that the limit allows. -/
def SpendEscrow.portion (c : SpendEscrow) (user : Address) : Word :=
  if 0 < (c.spendLimit user).toNat ∧ (c.spendLimit user).toNat < (c.balanceOf user).toNat then
    c.spendLimit user
  else c.balanceOf user

/-- The debits that take all a user has: the limit goes that often into the balance. -/
def SpendEscrow.debitsNeeded (c : SpendEscrow) (user : Address) : Nat :=
  if (c.spendLimit user).toNat = 0 then min (c.balanceOf user).toNat 1
  else (c.balanceOf user).toNat ⌈/⌉ (c.spendLimit user).toNat

theorem portion_le (c : SpendEscrow) (user : Address) :
    (c.portion user).toNat ≤ (c.balanceOf user).toNat := by
  unfold SpendEscrow.portion
  split
  · next h => exact h.2.le
  · exact le_rfl

theorem portion_le_limit (c : SpendEscrow) (user : Address) (h : 0 < (c.spendLimit user).toNat) :
    (c.portion user).toNat ≤ (c.spendLimit user).toNat := by
  unfold SpendEscrow.portion
  split
  · exact le_rfl
  · next hnot =>
    rw [not_and, not_lt] at hnot
    exact hnot h

theorem portion_pos {user : Address} (h : 0 < (c.balanceOf user).toNat) :
    0 < (c.portion user).toNat := by
  unfold SpendEscrow.portion
  split
  · next hlimit => exact hlimit.1
  · exact h

/-- After the largest debit one less is needed. -/
theorem debitsNeeded_debit {user : Address} (h : 0 < (c.balanceOf user).toNat) :
    c.debitsNeeded user =
      (c.setBalance user (c.balanceOf user - c.portion user)).debitsNeeded user + 1 := by
  have hleft := toNat_sub_of_le (portion_le c user)
  have hlimit : (c.setBalance user (c.balanceOf user - c.portion user)).spendLimit user =
    c.spendLimit user := rfl
  unfold SpendEscrow.debitsNeeded
  rw [hlimit, setBalance_self]
  by_cases hzero : (c.spendLimit user).toNat = 0
  · have hall : c.portion user = c.balanceOf user := by
      rw [SpendEscrow.portion, if_neg (by omega)]
    rw [if_pos hzero, if_pos hzero]
    rw [hall] at hleft ⊢
    omega
  · rw [if_neg hzero, if_neg hzero]
    have hpos : 0 < (c.spendLimit user).toNat := Nat.pos_of_ne_zero hzero
    by_cases hlt : (c.spendLimit user).toNat < (c.balanceOf user).toNat
    · have hportion : c.portion user = c.spendLimit user := if_pos ⟨hpos, hlt⟩
      rw [hportion] at hleft ⊢
      rw [← hleft, Nat.ceilDiv_eq_add_pred_div, Nat.ceilDiv_eq_add_pred_div,
        show (c.balanceOf user - c.spendLimit user).toNat + (c.spendLimit user).toNat +
          (c.spendLimit user).toNat - 1 = (c.balanceOf user - c.spendLimit user).toNat +
          (c.spendLimit user).toNat - 1 + (c.spendLimit user).toNat by omega,
        Nat.add_div_right _ hpos]
    · have hportion : c.portion user = c.balanceOf user := if_neg fun hboth => hlt hboth.2
      rw [hportion] at hleft ⊢
      have hrest : (c.balanceOf user - c.balanceOf user).toNat = 0 := by omega
      rw [hrest, Nat.ceilDiv_eq_add_pred_div, Nat.ceilDiv_eq_add_pred_div]
      have hone : ((c.balanceOf user).toNat + (c.spendLimit user).toNat - 1) /
          (c.spendLimit user).toNat = 1 := by
        rw [Nat.div_eq_iff hpos]
        omega
      have hnone : (0 + (c.spendLimit user).toNat - 1) / (c.spendLimit user).toNat = 0 :=
        Nat.div_eq_of_lt (by omega)
      rw [hone, hnone]

/-- A user whom no debit is needed for has nothing. -/
theorem balance_of_debitsNeeded {user : Address} (h : c.debitsNeeded user = 0) :
    (c.balanceOf user).toNat = 0 := by
  by_contra hne
  rw [debitsNeeded_debit (Nat.pos_of_ne_zero hne)] at h
  omega

/-- A debit that takes at most the limit leaves at most one debit less to do. -/
theorem debitsNeeded_le_of_debit {user : Address} {amount : Word}
    (hcovered : amount.toNat ≤ (c.balanceOf user).toNat)
    (hlimit : 0 < (c.spendLimit user).toNat → amount.toNat ≤ (c.spendLimit user).toNat) :
    c.debitsNeeded user ≤
      (c.setBalance user (c.balanceOf user - amount)).debitsNeeded user + 1 := by
  have hleft := toNat_sub_of_le hcovered
  have hsame : (c.setBalance user (c.balanceOf user - amount)).spendLimit user =
    c.spendLimit user := rfl
  unfold SpendEscrow.debitsNeeded
  rw [hsame, setBalance_self]
  by_cases hzero : (c.spendLimit user).toNat = 0
  · rw [if_pos hzero, if_pos hzero]
    omega
  · have hpos : 0 < (c.spendLimit user).toNat := Nat.pos_of_ne_zero hzero
    have hle := hlimit hpos
    rw [if_neg hzero, if_neg hzero, ceilDiv_le_iff_le_mul hpos]
    have hrest : (c.balanceOf user - amount).toNat ≤ (c.spendLimit user).toNat *
        ((c.balanceOf user - amount).toNat ⌈/⌉ (c.spendLimit user).toNat) :=
      le_smul_ceilDiv hpos
    rw [Nat.mul_add, Nat.mul_one]
    omega

/-- A debit of a user, whoever asks for it. -/
def IsDebit (user : Address) (i : Caller × Call) : Prop :=
  ∃ amount id, i.2 = .debitForSettlement user amount id

theorem debitsNeeded_step {user : Address} {i : Caller × Call} (hi : IsDebit user i) :
    c.debitsNeeded user ≤ (step c i).1.debitsNeeded user + 1 := by
  obtain ⟨amount, id, hcall⟩ := hi
  rcases step_cases c i with ⟨f, -, hs⟩ | ⟨c', e, hok, hs⟩
  · rw [hs]
    exact Nat.le_succ _
  · rw [hs]
    have hsucceeds := call_eq_ok_iff.1 hok
    rw [hcall] at hsucceeds
    cases hsucceeds with
    | debit _ _ _ hcovered hlimit => exact debitsNeeded_le_of_debit hcovered hlimit

theorem debitsNeeded_run {user : Address} {is : List (Caller × Call)}
    (h : ∀ i ∈ is, IsDebit user i) :
    c.debitsNeeded user ≤ (Runs.exec step c is).debitsNeeded user + is.length := by
  induction is generalizing c with
  | nil => exact le_rfl
  | cons i is ih =>
    have hfirst := debitsNeeded_step (c := c) (h i List.mem_cons_self)
    have hrest := ih (c := (step c i).1) fun j hj => h j (List.mem_cons_of_mem i hj)
    rw [Runs.exec_cons, List.length_cons]
    omega

/-- Nothing is needed where nothing is left. -/
theorem debitsNeeded_of_balance {user : Address} (h : c.balanceOf user = 0) :
    c.debitsNeeded user = 0 := by
  unfold SpendEscrow.debitsNeeded
  rw [h]
  split
  · rfl
  · next hzero =>
    have hpos := Nat.pos_of_ne_zero hzero
    refine Nat.div_eq_of_lt ?_
    show 0 + (c.spendLimit user).toNat - 1 < (c.spendLimit user).toNat
    omega

/-- The debits of a settler under one id that take all. -/
theorem exists_debits (settler : Caller) {user : Address} (huser : user ≠ 0) (id : Word) (n : Nat)
    (c : SpendEscrow) (hsettler : c.isSettler settler.address = true)
    (hn : c.debitsNeeded user = n) :
    ∃ is : List (Caller × Call), is.length = n ∧
      (∀ i ∈ is, ∃ amount, i = (settler, .debitForSettlement user amount id)) ∧
      (∀ o ∈ Runs.outs step c is, ∃ e, o = .ok e) ∧
      (Runs.exec step c is).balanceOf user = 0 := by
  induction n generalizing c with
  | zero =>
    exact ⟨[], rfl, by simp, by simp [Runs.outs], BitVec.eq_of_toNat_eq (balance_of_debitsNeeded hn)⟩
  | succ n ih =>
    have hpos : 0 < (c.balanceOf user).toNat := by
      by_contra hnot
      have hzero : c.balanceOf user = 0 := BitVec.eq_of_toNat_eq (by
        show (c.balanceOf user).toNat = 0
        omega)
      rw [debitsNeeded_of_balance hzero] at hn
      omega
    have hdebit : Succeeds c settler.address (.debitForSettlement user (c.portion user) id) _ _ :=
      .debit hsettler huser (portion_pos hpos) (portion_le c user) (portion_le_limit c user)
    have hstep := step_ok (i := (settler, _)) (call_eq_ok_iff.2 hdebit)
    have hleft := debitsNeeded_debit hpos
    obtain ⟨is, hlen, hcalls, houts, hend⟩ :=
      ih (c.setBalance user (c.balanceOf user - c.portion user)) hsettler (by omega)
    refine ⟨(settler, .debitForSettlement user (c.portion user) id) :: is, ?_, ?_, ?_, ?_⟩
    · rw [List.length_cons, hlen]
    · intro i hi
      rcases List.mem_cons.1 hi with rfl | hi
      · exact ⟨_, rfl⟩
      · exact hcalls i hi
    · rw [Runs.outs_cons, hstep]
      intro o ho
      rcases List.mem_cons.1 ho with rfl | ho
      · exact ⟨_, rfl⟩
      · exact houts o ho
    · rw [Runs.exec_cons, hstep]
      exact hend

/-- **The limit bounds one debit, not what a settler takes.** In every state, a settler can take all
that a user has by debits under one settlement id which all succeed, as many as the limit goes into
the balance (one, where no limit is set), and no run of debits takes all in fewer. -/
theorem limit_bounds_one_debit (c : SpendEscrow) (settler : Caller)
    (hsettler : c.isSettler settler.address = true) {user : Address} (huser : user ≠ 0) (id : Word) :
    (∃ is : List (Caller × Call), is.length = c.debitsNeeded user ∧
      (∀ i ∈ is, ∃ amount, i = (settler, .debitForSettlement user amount id)) ∧
      (∀ o ∈ Runs.outs step c is, ∃ e, o = .ok e) ∧
      (Runs.exec step c is).balanceOf user = 0) ∧
    ∀ is : List (Caller × Call), (∀ i ∈ is, IsDebit user i) →
      (Runs.exec step c is).balanceOf user = 0 → c.debitsNeeded user ≤ is.length := by
  refine ⟨exists_debits settler huser id _ c hsettler rfl, fun is his hend => ?_⟩
  have h := debitsNeeded_run (c := c) his
  rw [debitsNeeded_of_balance hend] at h
  omega

/-- A settler, a user with twenty units and a limit of eight. -/
def exampleSettler : Caller := ⟨1, one_ne_nobody⟩

def exampleEscrow : SpendEscrow :=
  ⟨1, fun _ => 20, fun _ => 8, fun a => a == 1⟩

theorem limit_bounds_one_debit_example :
    (∃ is : List (Caller × Call), is.length = exampleEscrow.debitsNeeded 1 ∧
      (∀ i ∈ is, ∃ amount, i = (exampleSettler, .debitForSettlement 1 amount 0)) ∧
      (∀ o ∈ Runs.outs step exampleEscrow is, ∃ e, o = .ok e) ∧
      (Runs.exec step exampleEscrow is).balanceOf 1 = 0) ∧
    ∀ is : List (Caller × Call), (∀ i ∈ is, IsDebit 1 i) →
      (Runs.exec step exampleEscrow is).balanceOf 1 = 0 →
        exampleEscrow.debitsNeeded 1 ≤ is.length :=
  limit_bounds_one_debit exampleEscrow exampleSettler rfl one_ne_nobody 0

example : exampleEscrow.debitsNeeded 1 = 3 := by decide

end Ddns.IndexUnits
