import Ddns.Lib.Run
import Mathlib.Data.List.Range

/-!
# Atomic transactions on a chain

A transaction reads the clock and the accounts and either fails, changing nothing, or commits new
accounts and an effect. `Result` is its outcome: an error of the program itself (`custom`) or one
of the runtime that executes it. `chainStep` runs transactions against a clock that moves forward
only, so slots never decrease along a run.

The lemmas `bind_eq_ok`, `require_eq_ok` and so on turn the equation "this transaction succeeded"
into the conjunction of its checks.
-/

namespace Tx

/-- Why a transaction fails. The last constructors are failures of the runtime. -/
inductive Failure (ε : Type) where
  | custom (e : ε)
  | accountInUse
  | accountMissing
  | constraint
  | insufficientFunds
  | rentState
  | numericOverflow
  | unsigned
  deriving DecidableEq, Repr

/-- The outcome of a transaction whose program has the errors `ε`. -/
abbrev Result (ε α : Type) := Except (Failure ε) α

section Results

variable {ε α β : Type}

/-- `require!`: fail with an error of the program unless `c` holds. -/
def require (c : Prop) [Decidable c] (e : ε) : Result ε Unit :=
  if c then .ok () else .error (.custom e)

/-- A check that the runtime makes. -/
def demand (c : Prop) [Decidable c] (f : Failure ε) : Result ε Unit :=
  if c then .ok () else .error f

/-- Read an account that has to exist. -/
def load (o : Option α) : Result ε α :=
  match o with
  | some a => .ok a
  | none => .error .accountMissing

/-- `init`: the account must not exist yet. -/
def vacant (o : Option α) : Result ε Unit :=
  match o with
  | some _ => .error .accountInUse
  | none => .ok ()

/-- `ok_or`: the value of a checked operation, or an error of the program. -/
def okOr (o : Option α) (e : ε) : Result ε α :=
  match o with
  | some a => .ok a
  | none => .error (.custom e)

@[simp] theorem bind_eq_ok {x : Result ε α} {f : α → Result ε β} {b : β} :
    (x >>= f) = .ok b ↔ ∃ a, x = .ok a ∧ f a = .ok b := by
  cases x with
  | error e => simp [bind, Except.bind]
  | ok a => simp [bind, Except.bind]

@[simp] theorem map_eq_ok {x : Result ε α} {f : α → β} {b : β} :
    f <$> x = .ok b ↔ ∃ a, x = .ok a ∧ f a = b := by
  cases x with
  | error e => simp [Functor.map, Except.map]
  | ok a => simp [Functor.map, Except.map]

@[simp] theorem pure_eq_ok {a b : α} : (pure a : Result ε α) = .ok b ↔ a = b := by
  simp [pure, Except.pure]

@[simp] theorem require_eq_ok {c : Prop} [Decidable c] {e : ε} {u : Unit} :
    require c e = .ok u ↔ c := by
  unfold require
  split <;> simp_all

@[simp] theorem demand_eq_ok {c : Prop} [Decidable c] {f : Failure ε} {u : Unit} :
    demand c f = .ok u ↔ c := by
  unfold demand
  split <;> simp_all

@[simp] theorem load_eq_ok {o : Option α} {a : α} : (load o : Result ε α) = .ok a ↔ o = some a := by
  cases o <;> simp [load]

@[simp] theorem vacant_eq_ok {o : Option α} {u : Unit} :
    (vacant o : Result ε Unit) = .ok u ↔ o = none := by
  cases o <;> simp [vacant]

@[simp] theorem okOr_eq_ok {o : Option α} {e : ε} {a : α} : okOr o e = .ok a ↔ o = some a := by
  cases o <;> simp [okOr]

theorem bind_eq_error {x : Result ε α} {f : α → Result ε β} {e : Failure ε} :
    (x >>= f) = .error e ↔ x = .error e ∨ ∃ a, x = .ok a ∧ f a = .error e := by
  cases x with
  | error e' => simp [bind, Except.bind]
  | ok a => simp [bind, Except.bind]

theorem pure_ne_error {a : α} {e : Failure ε} : (pure a : Result ε α) ≠ .error e := by
  simp [pure, Except.pure]

theorem require_eq_error {c : Prop} [Decidable c] {e : ε} {f : Failure ε} :
    require c e = .error f ↔ ¬c ∧ Failure.custom e = f := by
  unfold require
  split <;> simp_all

theorem demand_eq_error {c : Prop} [Decidable c] {e f : Failure ε} :
    demand c e = .error f ↔ ¬c ∧ e = f := by
  unfold demand
  split <;> simp_all

theorem load_eq_error {o : Option α} {f : Failure ε} :
    (load o : Result ε α) = .error f ↔ o = none ∧ Failure.accountMissing = f := by
  cases o <;> simp [load]

theorem okOr_eq_error {o : Option α} {e : ε} {f : Failure ε} :
    okOr o e = .error f ↔ o = none ∧ Failure.custom e = f := by
  cases o <;> simp [okOr]

@[simp] theorem exists_unit {p : Unit → Prop} : (∃ u, p u) ↔ p () :=
  ⟨fun ⟨_, h⟩ => h, fun h => ⟨(), h⟩⟩

end Results

/-! ## Chains -/

/-- The clock a transaction reads. -/
structure Clock where
  slot : Nat
  unixTimestamp : Int
  deriving DecidableEq, Repr

/-- A clock and the accounts. -/
structure Chain (σ : Type) where
  clock : Clock
  accounts : σ

/-- What happens next: time passes, or a transaction is submitted. -/
inductive Action (ι : Type) where
  | elapse (slots : Nat) (unixTimestamp : Int)
  | submit (i : ι)
  deriving DecidableEq, Repr

section Chains

variable {σ ι ε ω : Type}

/-- Time passes: the slot moves forward by `slots`. -/
def Clock.elapse (c : Clock) (slots : Nat) (unixTimestamp : Int) : Clock :=
  ⟨c.slot + slots, unixTimestamp⟩

/-- One action of a chain. A failed transaction leaves the accounts as they were; the answer is
`none` for the passing of time. -/
def chainStep (process : Clock → σ → ι → Result ε (σ × ω)) (c : Chain σ) :
    Action ι → Chain σ × Option (Result ε ω)
  | .elapse slots ts => (⟨c.clock.elapse slots ts, c.accounts⟩, none)
  | .submit i =>
    match process c.clock c.accounts i with
    | .ok (s, w) => (⟨c.clock, s⟩, some (.ok w))
    | .error e => (c, some (.error e))

variable {process : Clock → σ → ι → Result ε (σ × ω)}

theorem chainStep_ok {c : Chain σ} {i : ι} {s : σ} {w : ω}
    (h : process c.clock c.accounts i = .ok (s, w)) :
    chainStep process c (.submit i) = (⟨c.clock, s⟩, some (.ok w)) := by
  simp [chainStep, h]

/-- The event of a transaction that commits. -/
theorem event_ok {c : Chain σ} {i : ι} {s : σ} {w : ω}
    (h : process c.clock c.accounts i = .ok (s, w)) :
    Runs.event (chainStep process) c (.submit i) = ⟨c, .submit i, some (.ok w), ⟨c.clock, s⟩⟩ := by
  unfold Runs.event
  rw [chainStep_ok h]

theorem chainStep_error {c : Chain σ} {i : ι} {e : Failure ε}
    (h : process c.clock c.accounts i = .error e) :
    chainStep process c (.submit i) = (c, some (.error e)) := by
  simp [chainStep, h]

/-- What one action does: time passes, a transaction commits, or it fails and changes nothing. -/
theorem chainStep_cases (process : Clock → σ → ι → Result ε (σ × ω)) (c : Chain σ)
    (a : Action ι) :
    (∃ n ts, a = .elapse n ts ∧
      chainStep process c a = (⟨c.clock.elapse n ts, c.accounts⟩, none)) ∨
    (∃ i s w, a = .submit i ∧ process c.clock c.accounts i = .ok (s, w) ∧
      chainStep process c a = (⟨c.clock, s⟩, some (.ok w))) ∨
    (∃ i e, a = .submit i ∧ process c.clock c.accounts i = .error e ∧
      chainStep process c a = (c, some (.error e))) := by
  cases a with
  | elapse n ts => exact .inl ⟨n, ts, rfl, rfl⟩
  | submit i =>
    cases h : process c.clock c.accounts i with
    | ok r => exact .inr (.inl ⟨i, r.1, r.2, rfl, h, chainStep_ok h⟩)
    | error e => exact .inr (.inr ⟨i, e, rfl, h, chainStep_error h⟩)

/-- A transaction that was answered with `w` committed. -/
theorem chainStep_out {c : Chain σ} {i : ι} {w : ω}
    (h : (chainStep process c (.submit i)).2 = some (.ok w)) :
    ∃ s, process c.clock c.accounts i = .ok (s, w) ∧
      (chainStep process c (.submit i)).1 = ⟨c.clock, s⟩ := by
  cases hp : process c.clock c.accounts i with
  | error e =>
    rw [chainStep_error hp] at h
    cases h
  | ok r =>
    rw [chainStep_ok hp] at h ⊢
    cases h
    exact ⟨r.1, rfl, rfl⟩

/-- Seen from the accounts: an action leaves them alone, or a transaction commits. -/
theorem chainStep_commits (process : Clock → σ → ι → Result ε (σ × ω)) (c : Chain σ)
    (a : Action ι) :
    ((chainStep process c a).1.accounts = c.accounts ∧
      ∀ w, (chainStep process c a).2 ≠ some (.ok w)) ∨
    ∃ i s w, a = .submit i ∧ process c.clock c.accounts i = .ok (s, w) ∧
      chainStep process c a = (⟨c.clock, s⟩, some (.ok w)) := by
  rcases chainStep_cases process c a with ⟨n, ts, -, hs⟩ | hcommit | ⟨i, e, -, -, hs⟩
  · rw [hs]
    exact .inl ⟨rfl, nofun⟩
  · exact .inr hcommit
  · rw [hs]
    exact .inl ⟨rfl, nofun⟩

/-- What every transaction that commits keeps of the accounts, every action keeps. -/
theorem accounts_invariant {P : σ → Prop}
    (hCommit : ∀ clock s i s' w, P s → process clock s i = .ok (s', w) → P s')
    (c : Chain σ) (a : Action ι) (h : P c.accounts) : P (chainStep process c a).1.accounts := by
  rcases chainStep_commits process c a with ⟨hsame, -⟩ | ⟨i, s, w, -, hok, hs⟩
  · rw [hsame]
    exact h
  · rw [hs]
    exact hCommit _ _ i s w h hok

/-- And so does every run. -/
theorem exec_accounts {P : σ → Prop}
    (hCommit : ∀ clock s i s' w, P s → process clock s i = .ok (s', w) → P s')
    {c : Chain σ} (is : List (Action ι)) (h : P c.accounts) :
    P (Runs.exec (chainStep process) c is).accounts :=
  Runs.exec_induction (P := fun c : Chain σ => P c.accounts)
    (fun c a h => accounts_invariant hCommit c a h) h is

end Chains

end Tx

/-!
## Loops that may fail

`forRange n init body` is `for i in 0..n` over an accumulator, inside a transaction: the first
iteration that fails ends it. `forRange_inv` is the loop rule.
-/

namespace Tx

variable {ε α : Type}

/-- `for i in 0..n` over an accumulator. -/
def forRange (n : Nat) (init : α) (body : Nat → α → Result ε α) : Result ε α :=
  (List.range n).foldlM (fun acc i => body i acc) init

@[simp] theorem forRange_zero (init : α) (body : Nat → α → Result ε α) :
    forRange 0 init body = pure init := rfl

/-- The last iteration comes after the others. -/
theorem forRange_succ (n : Nat) (init : α) (body : Nat → α → Result ε α) :
    forRange (n + 1) init body = forRange n init body >>= body n := by
  unfold forRange
  rw [List.range_succ, List.foldlM_append]
  simp only [List.foldlM_cons, List.foldlM_nil, bind_pure]

/-- **The loop rule**: what holds at first and is kept by every iteration holds at the end of a
loop that did not fail. -/
theorem forRange_inv {n : Nat} {init r : α} {body : Nat → α → Result ε α} (J : Nat → α → Prop)
    (h : forRange n init body = .ok r) (hinit : J 0 init)
    (hstep : ∀ i a b, i < n → J i a → body i a = .ok b → J (i + 1) b) : J n r := by
  induction n generalizing r with
  | zero =>
    rw [forRange_zero, pure_eq_ok] at h
    rw [← h]
    exact hinit
  | succ n ih =>
    rw [forRange_succ, bind_eq_ok] at h
    obtain ⟨a, ha, hb⟩ := h
    refine hstep n a r (Nat.lt_succ_self n) (ih ha ?_) hb
    exact fun i x y hi => hstep i x y (Nat.lt_succ_of_lt hi)

end Tx
