import Mathlib.Data.List.Basic
import Mathlib.Data.List.Forall2
import Mathlib.Data.List.Induction
import Mathlib.Data.List.Nodup

/-!
# Runs of a deterministic system

A system is a step function `σ → ι → σ × ω`: an input changes the state and is answered. A run
is a start state and a list of inputs. `exec` is the state a run ends in and `trace` the list of
its events; `Always P` says that every state on the way satisfies `P`, and `Each Q` that every
step, seen from the state before it, satisfies `Q`.

Two rules carry the inductions over runs. `Always.of_each` is the invariant rule. `always_iff_each`
is its sharp form: when, inside `P`, a step keeps `P` exactly if it meets `Q`, the states of a run
all satisfy `P` exactly if its steps all meet `Q`.

A monitor folds the events of a run into a value of its own. `monitored` runs a system next to a
monitor; it changes nothing in the system (`exec_monitored`).
-/

namespace Runs

variable {σ ι ω γ : Type*}

/-- One executed step: the state before, the input, the answer and the state after. -/
structure Event (σ ι ω : Type*) where
  pre : σ
  input : ι
  out : ω
  post : σ

section Defs

variable (step : σ → ι → σ × ω)

/-- The event of the step that input `i` causes at state `s`. -/
def event (s : σ) (i : ι) : Event σ ι ω :=
  ⟨s, i, (step s i).2, (step s i).1⟩

/-- The state a run ends in. -/
def exec : σ → List ι → σ
  | s, [] => s
  | s, i :: is => exec (step s i).1 is

/-- The events of a run, in order. -/
def trace : σ → List ι → List (Event σ ι ω)
  | _, [] => []
  | s, i :: is => event step s i :: trace (step s i).1 is

/-- `P` holds in every state of the run, the first and the last included. -/
def Always (P : σ → Prop) : σ → List ι → Prop
  | s, [] => P s
  | s, i :: is => P s ∧ Always P (step s i).1 is

/-- Every step of the run meets `Q`, a condition on the state before it and its input. -/
def Each (Q : σ → ι → Prop) : σ → List ι → Prop
  | _, [] => True
  | s, i :: is => Q s i ∧ Each Q (step s i).1 is

/-- The system next to a monitor that folds each event into its own value. -/
def monitored (obs : γ → Event σ ι ω → γ) (sg : σ × γ) (i : ι) : (σ × γ) × ω :=
  (((step sg.1 i).1, obs sg.2 (event step sg.1 i)), (step sg.1 i).2)

end Defs

variable {step : σ → ι → σ × ω}

@[simp] theorem event_pre (s : σ) (i : ι) : (event step s i).pre = s := rfl

@[simp] theorem event_input (s : σ) (i : ι) : (event step s i).input = i := rfl

@[simp] theorem event_out (s : σ) (i : ι) : (event step s i).out = (step s i).2 := rfl

@[simp] theorem event_post (s : σ) (i : ι) : (event step s i).post = (step s i).1 := rfl

@[simp] theorem exec_nil (s : σ) : exec step s [] = s := rfl

@[simp] theorem exec_cons (s : σ) (i : ι) (is : List ι) :
    exec step s (i :: is) = exec step (step s i).1 is := rfl

@[simp] theorem trace_nil (s : σ) : trace step s [] = [] := rfl

@[simp] theorem trace_cons (s : σ) (i : ι) (is : List ι) :
    trace step s (i :: is) = event step s i :: trace step (step s i).1 is := rfl

@[simp] theorem each_nil (Q : σ → ι → Prop) (s : σ) : Each step Q s [] := trivial

@[simp] theorem each_cons {Q : σ → ι → Prop} {s : σ} {i : ι} {is : List ι} :
    Each step Q s (i :: is) ↔ Q s i ∧ Each step Q (step s i).1 is := Iff.rfl

@[simp] theorem always_nil {P : σ → Prop} {s : σ} : Always step P s [] ↔ P s := Iff.rfl

@[simp] theorem always_cons {P : σ → Prop} {s : σ} {i : ι} {is : List ι} :
    Always step P s (i :: is) ↔ P s ∧ Always step P (step s i).1 is := Iff.rfl

/-! ## Appending runs -/

theorem exec_append (s : σ) (is js : List ι) :
    exec step s (is ++ js) = exec step (exec step s is) js := by
  induction is generalizing s with
  | nil => rfl
  | cons i is ih => exact ih (step s i).1

theorem trace_append (s : σ) (is js : List ι) :
    trace step s (is ++ js) = trace step s is ++ trace step (exec step s is) js := by
  induction is generalizing s with
  | nil => rfl
  | cons i is ih => simp [ih]

theorem each_append {Q : σ → ι → Prop} (s : σ) (is js : List ι) :
    Each step Q s (is ++ js) ↔ Each step Q s is ∧ Each step Q (exec step s is) js := by
  induction is generalizing s with
  | nil => simp
  | cons i is ih => simp [ih, and_assoc]

/-! ## Events, states and steps -/

/-- An event of a run is the step some input takes after the inputs before it. -/
theorem mem_trace {s : σ} {is : List ι} {e : Event σ ι ω} (h : e ∈ trace step s is) :
    ∃ pre i post, is = pre ++ i :: post ∧ e = event step (exec step s pre) i := by
  induction is generalizing s with
  | nil => cases h
  | cons i is ih =>
    rcases List.mem_cons.1 h with rfl | h
    · exact ⟨[], i, is, rfl, rfl⟩
    · obtain ⟨pre, j, post, rfl, he⟩ := ih h
      exact ⟨i :: pre, j, post, rfl, he⟩

/-- The step that an input of a run takes is an event of the run. -/
theorem event_mem_trace {s : σ} {is : List ι} (pre : List ι) {i : ι} (post : List ι)
    (h : is = pre ++ i :: post) :
    event step (exec step s pre) i ∈ trace step s is := by
  rw [h, trace_append, trace_cons]
  exact List.mem_append_right _ List.mem_cons_self

/-- Cutting a trace cuts the inputs. -/
theorem trace_cut {s : σ} {is : List ι} {l₁ l₂ : List (Event σ ι ω)}
    (h : trace step s is = l₁ ++ l₂) :
    ∃ pre post, is = pre ++ post ∧ l₁ = trace step s pre ∧
      l₂ = trace step (exec step s pre) post := by
  induction l₁ generalizing s is with
  | nil => exact ⟨[], is, rfl, rfl, h.symm⟩
  | cons x l₁ ih =>
    cases is with
    | nil => cases h
    | cons i is =>
      rw [trace_cons, List.cons_append, List.cons.injEq] at h
      obtain ⟨rfl, h⟩ := h
      obtain ⟨pre, post, rfl, rfl, rfl⟩ := ih h
      exact ⟨i :: pre, post, rfl, rfl, rfl⟩

/-- Cutting a trace at an event cuts the inputs at its input. -/
theorem trace_split {s : σ} {is : List ι} {l₁ l₂ : List (Event σ ι ω)} {e : Event σ ι ω}
    (h : trace step s is = l₁ ++ e :: l₂) :
    ∃ pre i post, is = pre ++ i :: post ∧ l₁ = trace step s pre ∧
      e = event step (exec step s pre) i ∧ l₂ = trace step (exec step s (pre ++ [i])) post := by
  obtain ⟨pre, rest, rfl, rfl, hrest⟩ := trace_cut h
  cases rest with
  | nil => cases hrest
  | cons i post =>
    rw [trace_cons, List.cons.injEq] at hrest
    obtain ⟨rfl, rfl⟩ := hrest
    exact ⟨pre, i, post, rfl, rfl, rfl, by rw [exec_append]; rfl⟩

/-- One event more, which carries nothing. -/
theorem filterMap_concat_none {ε α : Type*} {f : ε → Option α} {x : ε} (h : f x = none)
    (l : List ε) : (l ++ [x]).filterMap f = l.filterMap f := by
  rw [List.filterMap_append, List.filterMap_cons_none h, List.filterMap_nil, List.append_nil]

/-- One event more, which carries `a`. -/
theorem filterMap_concat_some {ε α : Type*} {f : ε → Option α} {x : ε} {a : α} (h : f x = some a)
    (l : List ε) : (l ++ [x]).filterMap f = l.filterMap f ++ [a] := by
  rw [List.filterMap_append, List.filterMap_cons_some h, List.filterMap_nil]

/-- What the events of a run carry is carried once, exactly if no step carries what an earlier one
did. -/
theorem nodup_filterMap_trace {α : Type*} (f : Event σ ι ω → Option α) {s : σ} {is : List ι} :
    ((trace step s is).filterMap f).Nodup ↔ ∀ pre i post, is = pre ++ i :: post → ∀ a,
      f (event step (exec step s pre) i) = some a → a ∉ (trace step s pre).filterMap f := by
  constructor
  · rintro hnodup pre i post rfl a ha hmem
    rw [trace_append, trace_cons, List.filterMap_append, List.filterMap_cons_some ha] at hnodup
    exact (List.nodup_append.1 hnodup).2.2 a hmem a List.mem_cons_self rfl
  · induction is using List.reverseRecOn with
    | nil => exact fun _ => List.nodup_nil
    | append_singleton is i ih =>
      intro hnew
      have hbefore : ((trace step s is).filterMap f).Nodup := by
        refine ih fun pre j post his a ha => ?_
        exact hnew pre j (post ++ [i]) (by rw [his, List.append_assoc, List.cons_append]) a ha
      rw [trace_append, trace_cons, trace_nil]
      cases ha : f (event step (exec step s is) i) with
      | none =>
        rw [filterMap_concat_none ha]
        exact hbefore
      | some a =>
        rw [filterMap_concat_some ha]
        refine List.nodup_append.2 ⟨hbefore, List.nodup_singleton a, ?_⟩
        rintro b hb c hc rfl
        exact hnew is i [] rfl a ha (List.mem_singleton.1 hc ▸ hb)

theorem each_iff_mem_trace {Q : σ → ι → Prop} {s : σ} {is : List ι} :
    Each step Q s is ↔ ∀ e ∈ trace step s is, Q e.pre e.input := by
  induction is generalizing s with
  | nil => simp
  | cons i is ih => simp [ih]

/-- What holds of every event of a run holds of what every step does. -/
theorem forall_mem_trace_iff {P : Event σ ι ω → Prop} {s : σ} {is : List ι} :
    (∀ e ∈ trace step s is, P e) ↔ Each step (fun s i => P (event step s i)) s is := by
  induction is generalizing s with
  | nil => simp
  | cons i is ih => simp [ih]

theorem Each.imp {Q Q' : σ → ι → Prop} {s : σ} {is : List ι}
    (himp : ∀ s i, Q s i → Q' s i) (h : Each step Q s is) : Each step Q' s is := by
  rw [each_iff_mem_trace] at h ⊢
  exact fun e he => himp _ _ (h e he)

/-- `Each` reads every prefix of the run and the input after it. -/
theorem each_iff_initial {Q : σ → ι → Prop} {s : σ} {is : List ι} :
    Each step Q s is ↔ ∀ pre i post, is = pre ++ i :: post → Q (exec step s pre) i := by
  constructor
  · rintro h pre i post rfl
    exact ((each_append _ _ _).1 h).2.1
  · intro h
    refine each_iff_mem_trace.2 fun e he => ?_
    obtain ⟨pre, i, post, his, rfl⟩ := mem_trace he
    exact h pre i post his

theorem Always.head {P : σ → Prop} {s : σ} {is : List ι} (h : Always step P s is) : P s := by
  cases is with
  | nil => exact h
  | cons i is => exact h.1

theorem Always.imp {P P' : σ → Prop} {s : σ} {is : List ι}
    (himp : ∀ s, P s → P' s) (h : Always step P s is) : Always step P' s is := by
  induction is generalizing s with
  | nil => exact himp s h
  | cons i is ih => exact ⟨himp s h.1, ih h.2⟩

/-- `Always` reads every prefix of the run. -/
theorem always_iff_initial {P : σ → Prop} {s : σ} {is : List ι} :
    Always step P s is ↔ ∀ pre post, is = pre ++ post → P (exec step s pre) := by
  induction is generalizing s with
  | nil =>
    constructor
    · intro h pre post he
      obtain ⟨rfl, -⟩ := List.append_eq_nil_iff.1 he.symm
      exact h
    · intro h
      exact h [] [] rfl
  | cons i is ih =>
    constructor
    · rintro ⟨hs, ht⟩ pre post he
      cases pre with
      | nil => exact hs
      | cons j pre =>
        rw [List.cons_append, List.cons.injEq] at he
        obtain ⟨rfl, he⟩ := he
        exact ih.1 ht pre post he
    · intro h
      refine ⟨h [] (i :: is) rfl, ih.2 fun pre post he => ?_⟩
      exact h (i :: pre) post (by rw [he]; rfl)

theorem Always.exec {P : σ → Prop} {s : σ} {is : List ι} (h : Always step P s is) :
    P (exec step s is) :=
  always_iff_initial.1 h is [] (List.append_nil is).symm

/-! ## Invariants -/

/-- **The invariant rule**: what every step meeting `Q` keeps holds in every state of a run whose
steps all meet `Q`. -/
theorem Always.of_each {P : σ → Prop} {Q : σ → ι → Prop}
    (hstep : ∀ s i, P s → Q s i → P (step s i).1) {s : σ} {is : List ι} (hs : P s)
    (hQ : Each step Q s is) : Always step P s is := by
  induction is generalizing s with
  | nil => exact hs
  | cons i is ih => exact ⟨hs, ih (hstep s i hs hQ.1) hQ.2⟩

/-- What every step keeps holds in every state of every run. -/
theorem Always.of_step {P : σ → Prop} (hstep : ∀ s i, P s → P (step s i).1) {s : σ} (hs : P s)
    (is : List ι) : Always step P s is :=
  Always.of_each (Q := fun _ _ => True) (fun s i h _ => hstep s i h) hs
    (each_iff_mem_trace.2 fun _ _ => trivial)

/-- What every step keeps holds where every run ends. -/
theorem exec_induction {P : σ → Prop} (hstep : ∀ s i, P s → P (step s i).1) {s : σ} (hs : P s)
    (is : List ι) : P (exec step s is) :=
  (Always.of_step hstep hs is).exec

/-- What holds where a run ends, and not where it starts, came about in one of its steps. -/
theorem exists_event_of_exec {P : σ → Prop} {s : σ} {is : List ι} (hs : ¬P s)
    (h : P (exec step s is)) : ∃ e ∈ trace step s is, ¬P e.pre ∧ P e.post := by
  induction is generalizing s with
  | nil => exact absurd h hs
  | cons i is ih =>
    by_cases hnext : P (step s i).1
    · exact ⟨event step s i, List.mem_cons_self, hs, hnext⟩
    · obtain ⟨e, he, hpre, hpost⟩ := ih hnext h
      exact ⟨e, List.mem_cons_of_mem _ he, hpre, hpost⟩

/-- What holds after an event and is kept by every step holds before every later event. -/
theorem stays_after {P : σ → Prop} (hstep : ∀ s i, P s → P (step s i).1) {s : σ} {is : List ι}
    {l₁ l₂ : List (Event σ ι ω)} {e e' : Event σ ι ω} (hsplit : trace step s is = l₁ ++ e :: l₂)
    (hpost : P e.post) (he' : e' ∈ l₂) : P e'.pre := by
  obtain ⟨pre, i, post, -, -, rfl, rfl⟩ := trace_split hsplit
  obtain ⟨pre', j, post', -, rfl⟩ := mem_trace he'
  have hstart : P (exec step s (pre ++ [i])) := by
    rw [exec_append]
    exact hpost
  exact exec_induction hstep hstart pre'

/-- **The history rule**: what relates the state to the events so far, and is kept by every step
meeting `Q`, relates them at the end of a run whose steps all meet `Q`. -/
theorem history_induction {J : σ → List (Event σ ι ω) → Prop} {Q : σ → ι → Prop}
    (hstep : ∀ s l i, J s l → Q s i → J (step s i).1 (l ++ [event step s i])) {s : σ}
    {l : List (Event σ ι ω)} {is : List ι} (hJ : J s l) (hQ : Each step Q s is) :
    J (exec step s is) (l ++ trace step s is) := by
  induction is generalizing s l with
  | nil => simpa using hJ
  | cons i is ih =>
    have hnext := ih (hstep s l i hJ hQ.1) hQ.2
    rw [List.append_assoc] at hnext
    exact hnext

/-- What relates the state to the events so far, and is kept by every step, relates them at the end
of every run. -/
theorem history_of_step {J : σ → List (Event σ ι ω) → Prop}
    (hstep : ∀ s l i, J s l → J (step s i).1 (l ++ [event step s i])) {s : σ} (hJ : J s [])
    (is : List ι) : J (exec step s is) (trace step s is) :=
  history_induction (Q := fun _ _ => True) (fun s l i h _ => hstep s l i h) hJ
    (each_iff_mem_trace.2 fun _ _ => trivial)

/-- A step condition that an invariant guarantees holds along every run. -/
theorem Each.of_always {P : σ → Prop} {Q : σ → ι → Prop} (hPQ : ∀ s i, P s → Q s i)
    {s : σ} {is : List ι} (h : Always step P s is) : Each step Q s is := by
  induction is generalizing s with
  | nil => trivial
  | cons i is ih => exact ⟨hPQ s i h.1, ih h.2⟩

/-- Step conditions that agree inside an invariant agree along every run. -/
theorem each_congr {J : σ → Prop} {Q Q' : σ → ι → Prop} (hJ : ∀ s i, J s → J (step s i).1)
    (hQ : ∀ s i, J s → (Q s i ↔ Q' s i)) {s : σ} (hs : J s) (is : List ι) :
    Each step Q s is ↔ Each step Q' s is := by
  induction is generalizing s with
  | nil => exact Iff.rfl
  | cons i is ih => exact and_congr (hQ s i hs) (ih (hJ s i hs))

/-- **The sharp rule**, in runs whose steps all meet an assumption `A`. `J` is kept by the steps
meeting `Q`; inside `J` and `P`, a step keeps `P` exactly if it meets `Q`. Then a run stays in `P`
exactly if all its steps meet `Q`. -/
theorem always_iff_each_of {J P : σ → Prop} {A Q : σ → ι → Prop}
    (hJ : ∀ s i, J s → P s → A s i → Q s i → J (step s i).1)
    (hP : ∀ s i, J s → P s → A s i → (P (step s i).1 ↔ Q s i)) {s : σ} (hJs : J s) (hPs : P s)
    {is : List ι} (hA : Each step A s is) : Always step P s is ↔ Each step Q s is := by
  induction is generalizing s with
  | nil => exact ⟨fun _ => trivial, fun _ => hPs⟩
  | cons i is ih =>
    constructor
    · rintro ⟨-, h⟩
      have hQ : Q s i := (hP s i hJs hPs hA.1).1 h.head
      exact ⟨hQ, (ih (hJ s i hJs hPs hA.1 hQ) h.head hA.2).1 h⟩
    · rintro ⟨hQ, h⟩
      have hPs' : P (step s i).1 := (hP s i hJs hPs hA.1).2 hQ
      exact ⟨hPs, (ih (hJ s i hJs hPs hA.1 hQ) hPs' hA.2).2 h⟩

/-- The sharp rule without an assumption. -/
theorem always_iff_each {J P : σ → Prop} {Q : σ → ι → Prop}
    (hJ : ∀ s i, J s → P s → Q s i → J (step s i).1)
    (hP : ∀ s i, J s → P s → (P (step s i).1 ↔ Q s i)) {s : σ} (hJs : J s) (hPs : P s)
    (is : List ι) : Always step P s is ↔ Each step Q s is :=
  always_iff_each_of (A := fun _ _ => True) (fun s i hJs hPs _ => hJ s i hJs hPs)
    (fun s i hJs hPs _ => hP s i hJs hPs) hJs hPs (Each.of_always (P := fun _ => True)
      (fun _ _ _ => trivial) (always_iff_initial.2 fun _ _ _ => trivial))

/-- The sharp rule with the events so far: `J` relates them to the state after every run. Inside `J`
and `P`, a step keeps `P` exactly if it meets `Q`. Then every prefix of a run is in `P` exactly if
all steps meet `Q`. -/
theorem history_iff {J P : σ → List (Event σ ι ω) → Prop} {Q : σ → List (Event σ ι ω) → ι → Prop}
    (hJ : ∀ s l i, J s l → J (step s i).1 (l ++ [event step s i]))
    (hP : ∀ s l i, J s l → P s l → (P (step s i).1 (l ++ [event step s i]) ↔ Q s l i)) {s : σ}
    (hJs : J s []) (hPs : P s []) {is : List ι} :
    (∀ pre post, is = pre ++ post → P (exec step s pre) (trace step s pre)) ↔
      ∀ pre i post, is = pre ++ i :: post → Q (exec step s pre) (trace step s pre) i := by
  have hJ' (pre : List ι) : J (exec step s pre) (trace step s pre) := history_of_step hJ hJs pre
  constructor
  · rintro h pre i post rfl
    have hnext := h (pre ++ [i]) post (by rw [List.append_assoc, List.singleton_append])
    rw [exec_append, trace_append] at hnext
    exact (hP _ _ i (hJ' pre) (h pre (i :: post) rfl)).1 hnext
  · intro h pre
    induction pre using List.reverseRecOn with
    | nil => exact fun _ _ => hPs
    | append_singleton pre i ih =>
      intro post his
      rw [List.append_assoc, List.singleton_append] at his
      rw [exec_append, trace_append]
      exact (hP _ _ i (hJ' pre) (ih (i :: post) his)).2 (h pre i post his)

/-! ## Two runs of the same inputs -/

/-- The same output, and states in a relation. -/
def SameOut {σ τ ω : Type*} (R : σ → τ → Prop) (a : σ × ω) (b : τ × ω) : Prop :=
  a.2 = b.2 ∧ R a.1 b.1

namespace SameOut

variable {σ τ ω : Type*} {R : σ → τ → Prop}

theorem mk {s : σ} {t : τ} (out : ω) (h : R s t) : SameOut R (s, out) (t, out) := ⟨rfl, h⟩

theorem cases {a : σ × ω} {b : τ × ω} (h : SameOut R a b) :
    ∃ s t out, a = (s, out) ∧ b = (t, out) ∧ R s t :=
  ⟨a.1, b.1, a.2, rfl, Prod.ext rfl h.1.symm, h.2⟩

/-- Two steps that branch on the same condition. -/
theorem ite {c : Prop} [Decidable c] {a b : σ × ω} {a' b' : τ × ω}
    (hpos : c → SameOut R a a') (hneg : ¬c → SameOut R b b') :
    SameOut R (if c then a else b) (if c then a' else b') := by
  by_cases hc : c
  · rw [if_pos hc, if_pos hc]
    exact hpos hc
  · rw [if_neg hc, if_neg hc]
    exact hneg hc

end SameOut

/-- **The simulation rule**: a relation that every admitted input keeps, with the same output, is
kept by every run of admitted inputs. -/
theorem exec_related {R : σ → σ → Prop} {A : ι → Prop}
    (hstep : ∀ s s' i, A i → R s s' → SameOut R (step s i) (step s' i)) {s s' : σ} {is : List ι}
    (hA : ∀ i ∈ is, A i) (h : R s s') : R (exec step s is) (exec step s' is) := by
  induction is generalizing s s' with
  | nil => exact h
  | cons i is ih =>
    refine ih (fun j hj => hA j (List.mem_cons_of_mem i hj)) ?_
    exact (hstep s s' i (hA i List.mem_cons_self) h).2

/-! ## Two systems in lockstep -/

section Lockstep

variable {τ κ ω' : Type*} {step' : τ → κ → τ × ω'}

/-- The answers of a run, in order. -/
def outs (step : σ → ι → σ × ω) (s : σ) (is : List ι) : List ω := (trace step s is).map Event.out

@[simp] theorem outs_cons (step : σ → ι → σ × ω) (s : σ) (i : ι) (is : List ι) :
    outs step s (i :: is) = (step s i).2 :: outs step (step s i).1 is := rfl

/-- **The lockstep rule**: two systems whose states are in `R` give answers that agree exactly if
the step meets `Q`, and then their states stay in `R`. So the answers of two runs all agree exactly
if every step meets `Q`. -/
theorem outs_agree_iff {R : σ → τ → Prop} {Agree : ω → ω' → Prop} {Q : σ → ι → Prop} {f : ι → κ}
    (hagree : ∀ s t i, R s t → (Agree (step s i).2 (step' t (f i)).2 ↔ Q s i))
    (hkeep : ∀ s t i, R s t → Q s i → R (step s i).1 (step' t (f i)).1) {s : σ} {t : τ}
    (h : R s t) (is : List ι) :
    List.Forall₂ Agree (outs step s is) (outs step' t (is.map f)) ↔ Each step Q s is := by
  induction is generalizing s t with
  | nil => exact ⟨fun _ => trivial, fun _ => .nil⟩
  | cons i is ih =>
    rw [List.map_cons, outs_cons, outs_cons, List.forall₂_cons, hagree s t i h]
    exact and_congr_right fun hq => ih (hkeep s t i h hq)

/-- The states in which two such runs end are in `R`. -/
theorem exec_lockstep {R : σ → τ → Prop} {Q : σ → ι → Prop} {f : ι → κ}
    (hkeep : ∀ s t i, R s t → Q s i → R (step s i).1 (step' t (f i)).1) {s : σ} {t : τ}
    (h : R s t) {is : List ι} (hQ : Each step Q s is) :
    R (exec step s is) (exec step' t (is.map f)) := by
  induction is generalizing s t with
  | nil => exact h
  | cons i is ih => exact ih (hkeep s t i h hQ.1) hQ.2

end Lockstep

/-! ## Monitors -/

/-- A monitor leaves the system alone; its own value is the fold of the events. -/
theorem exec_monitored (obs : γ → Event σ ι ω → γ) (s : σ) (g : γ) (is : List ι) :
    exec (monitored step obs) (s, g) is = (exec step s is, (trace step s is).foldl obs g) := by
  induction is generalizing s g with
  | nil => rfl
  | cons i is ih => exact ih (step s i).1 (obs g (event step s i))

/-- What always holds of a monitored run holds after every prefix, of the state and the fold. -/
theorem always_monitored (obs : γ → Event σ ι ω → γ) {P : σ × γ → Prop} {s : σ} {g : γ}
    {is : List ι} : Always (monitored step obs) P (s, g) is ↔
      ∀ pre post, is = pre ++ post → P (exec step s pre, (trace step s pre).foldl obs g) := by
  simp only [always_iff_initial, exec_monitored]

/-- What each step of a monitored run meets is met after every prefix, by state and fold. -/
theorem each_monitored_iff (obs : γ → Event σ ι ω → γ) {Q : σ × γ → ι → Prop} {s : σ} {g : γ}
    {is : List ι} : Each (monitored step obs) Q (s, g) is ↔
      ∀ pre i post, is = pre ++ i :: post →
        Q (exec step s pre, (trace step s pre).foldl obs g) i := by
  simp only [each_iff_initial, exec_monitored]

/-- A condition that does not read the monitor is a condition on the plain run. -/
theorem each_monitored (obs : γ → Event σ ι ω → γ) {Q : σ → ι → Prop} {s : σ} {g : γ}
    {is : List ι} :
    Each (monitored step obs) (fun sg i => Q sg.1 i) (s, g) is ↔ Each step Q s is := by
  induction is generalizing s g with
  | nil => exact Iff.rfl
  | cons i is ih => exact and_congr_right fun _ => ih

@[simp] theorem monitored_fst (obs : γ → Event σ ι ω → γ) (sg : σ × γ) (i : ι) :
    (monitored step obs sg i).1.1 = (step sg.1 i).1 := rfl

@[simp] theorem monitored_snd (obs : γ → Event σ ι ω → γ) (sg : σ × γ) (i : ι) :
    (monitored step obs sg i).1.2 = obs sg.2 (event step sg.1 i) := rfl

end Runs
