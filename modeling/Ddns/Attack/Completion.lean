import Ddns.Attack.Recovery

/-!
# The end of the recovery

After an attack the mode is `recovery` until things have been quiet for `recoveryStableSecs`. But
each quiet evaluation overwrites the one time that is remembered, so what is compared with
`recoveryStableSecs` is the time since the evaluation before, however long the quiet series is.
A gateway that evaluates more often than that stays in `recovery` for ever. `completes_iff` says
which evaluations end it: those that come `recoveryStableSecs` after the one before them.
-/

namespace Ddns.Attack

open Runs

/-- The times of a run are positive and increase. -/
structure Clocked (l : List Step) : Prop where
  positive : ∀ e ∈ l, 0 < timeOf e
  increasing : l.Pairwise (timeOf · < timeOf ·)

/-- An evaluation that enters `recovery`. It is quiet itself. -/
def Enters (e : Step) : Prop := e.pre.mode ≠ .recovery ∧ e.post.mode = .recovery

/-- The evaluation `x` lies at least `recoveryStableSecs` after `e`. -/
def Due (thr : AttackThresholds) (e x : Step) : Prop :=
  thr.recoveryStableSecs.le (.fin (timeOf x - timeOf e)) = true

/-- The evaluations `q` and then `x` are quiet. The first of them enters `recovery`, and `x` is the
first one that is due since. -/
structure Awaited (thr : AttackThresholds) (first : Step) (q : List Step) (x : Step) : Prop where
  head : (q ++ [x]).head? = some first
  enters : Enters first
  quiet : ∀ y ∈ q ++ [x], Quiet y
  early : ∀ y ∈ q, ¬Due thr first y
  due : Due thr first x

/-- **The completion law** of a run: once `recovery` is entered and everything stays quiet, the
first evaluation that is due returns to `normal`. -/
def Completes (text : JsNum → String) (thr : AttackThresholds) (s : State) (is : List Input) :
    Prop :=
  ∀ l₁ first q x l₂, trace (step text thr) s is = l₁ ++ (q ++ x :: l₂) →
    Awaited thr first q x → x.post.mode = .normal

section Steps

variable {text : JsNum → String} {thr : AttackThresholds} {c : State} {i : Input}
  {first x : Step} {q : List Step}

/-- What is due since a later evaluation is due since an earlier one. -/
theorem Due.since_earlier {e y : Step} (h : Due thr y x) (hle : timeOf e ≤ timeOf y) :
    Due thr e x := by
  unfold Due at *
  cases hsecs : thr.recoveryStableSecs with
  | fin secs =>
    rw [hsecs] at h
    have h : secs ≤ timeOf x - timeOf y := of_decide_eq_true h
    have hspan : timeOf x - timeOf y ≤ timeOf x - timeOf e := sub_le_sub_left hle _
    exact decide_eq_true (h.trans hspan)
  | nan =>
    rw [hsecs] at h
    cases h
  | posInf =>
    rw [hsecs] at h
    cases h
  | negInf => rfl

/-- A quiet evaluation in `recovery` returns to `normal` exactly if it is due since the time that
is remembered. -/
theorem event_recovery {y : Step} (hmode : c.mode = .recovery)
    (hmem : c.memory = ⟨some (timeOf y)⟩) (hpos : 0 < timeOf y)
    (hq : Quiet (event (step text thr) c i)) :
    (event (step text thr) c i).post.mode = .normal ↔ Due thr y (event (step text thr) c i) := by
  have hsince : remembered ⟨some (timeOf y)⟩ = some (timeOf y) := by
    simp [remembered, Option.filter, hpos.ne']
  rw [event_normal, hmode, if_neg (by decide), stableLongEnough, stableFor, hmem, hsince]
  have hagree : i.signals.rpcDisagreement ≠ some true := hq.2
  simp only [hagree, hq.1, Option.isSome_some, Bool.true_and, true_and, ne_eq, not_false_eq_true,
    Due]

/-- Before anything is due, `recovery` goes on, and the last time is remembered. -/
theorem waits {js : List Input} (hclock : Clocked (trace (step text thr) c js))
    (hhead : (trace (step text thr) c js).head? = some first) (henters : Enters first)
    (hquiet : ∀ y ∈ trace (step text thr) c js, Quiet y)
    (hearly : ∀ y ∈ trace (step text thr) c js, ¬Due thr first y) :
    ∃ y, (trace (step text thr) c js).getLast? = some y ∧ timeOf first ≤ timeOf y ∧
      (exec (step text thr) c js).mode = .recovery ∧
      (exec (step text thr) c js).memory = ⟨some (timeOf y)⟩ := by
  induction js using List.reverseRecOn with
  | nil => cases hhead
  | append_singleton js i ih =>
    rw [trace_append, trace_cons, trace_nil] at *
    rw [exec_append, exec_cons, exec_nil]
    have hlast := List.mem_append_right (trace (step text thr) c js)
      (List.mem_singleton.2 (rfl : event (step text thr) (exec (step text thr) c js) i = _))
    have hq := hquiet _ hlast
    refine ⟨_, List.getLast?_concat, ?_⟩
    rcases eq_or_ne (trace (step text thr) c js) [] with hnil | hne
    · -- The series is the entering evaluation alone.
      rw [hnil] at hhead
      obtain rfl := Option.some.inj hhead
      exact ⟨le_rfl, henters.2, (event_quiet hq).1⟩
    · rw [List.head?_append_of_ne_nil _ hne] at hhead
      obtain ⟨y, hy, hle, hmode, hmem⟩ := ih
        ⟨fun e he => hclock.positive e (List.mem_append_left _ he),
          (List.pairwise_append.1 hclock.increasing).1⟩ hhead
        (fun y hy => hquiet y (List.mem_append_left _ hy))
        (fun y hy => hearly y (List.mem_append_left _ hy))
      have hyt := List.mem_of_getLast? hy
      have hlt : timeOf y < timeOf (event (step text thr) (exec (step text thr) c js) i) :=
        (List.pairwise_append.1 hclock.increasing).2.2 y hyt _ (List.mem_singleton_self _)
      have hpos := hclock.positive y (List.mem_append_left _ hyt)
      refine ⟨hle.trans hlt.le, ?_, (event_quiet hq).1⟩
      refine (event_quiet hq).2.resolve_left fun hnormal => ?_
      exact hearly _ hlast (((event_recovery hmode hmem hpos hq).1 hnormal).since_earlier hle)

/-- **The end of one recovery**: the first evaluation that is due returns to `normal` exactly if it
is due since the one before it. -/
theorem awaited_normal {js : List Input} (hclock : Clocked (trace (step text thr) c js))
    (h : Awaited thr first (trace (step text thr) c js)
      (event (step text thr) (exec (step text thr) c js) i)) :
    (event (step text thr) (exec (step text thr) c js) i).post.mode = .normal ↔
      ∃ y, (trace (step text thr) c js).getLast? = some y ∧
        Due thr y (event (step text thr) (exec (step text thr) c js) i) := by
  have hhead := h.head
  rcases eq_or_ne (trace (step text thr) c js) [] with hnil | hne
  · -- The evaluation that enters `recovery` does not end it.
    rw [hnil] at hhead ⊢
    rw [Option.some.inj hhead, h.enters.2]
    exact iff_of_false nofun (fun ⟨y, hy, _⟩ => nomatch hy)
  · rw [List.head?_append_of_ne_nil _ hne] at hhead
    obtain ⟨y, hy, -, hmode, hmem⟩ := waits hclock hhead h.enters
      (fun y hy => h.quiet y (List.mem_append_left _ hy)) h.early
    have hpos := hclock.positive y (List.mem_of_getLast? hy)
    have hq := h.quiet _ (List.mem_append_right _ (List.mem_singleton_self _))
    rw [event_recovery hmode hmem hpos hq, hy]
    simp only [Option.some.injEq, exists_eq_left']

end Steps

/-- **Exactly when the recovery completes in time.** In a run at increasing positive times, the
first evaluation due since the one that enters `recovery` returns to `normal`, if and only if it is
due since the evaluation right before it. -/
theorem completes_iff (text : JsNum → String) (thr : AttackThresholds) (s : State)
    (is : List Input) (hclock : Clocked (trace (step text thr) s is)) :
    Completes text thr s is ↔
      ∀ l₁ first q x l₂, trace (step text thr) s is = l₁ ++ (q ++ x :: l₂) →
        Awaited thr first q x → ∃ y, q.getLast? = some y ∧ Due thr y x := by
  have hlaw : ∀ l₁ first q x l₂, trace (step text thr) s is = l₁ ++ (q ++ x :: l₂) →
      Awaited thr first q x →
      (x.post.mode = .normal ↔ ∃ y, q.getLast? = some y ∧ Due thr y x) := by
    intro l₁ first q x l₂ htr h
    obtain ⟨pre, rest, rfl, rfl, hrest⟩ := trace_cut htr
    obtain ⟨js, i, post, rfl, rfl, rfl, -⟩ := trace_split hrest.symm
    rw [trace_append, trace_append] at hclock
    refine awaited_normal ⟨fun e he => ?_, ?_⟩ h
    · exact hclock.positive e (List.mem_append_right _ (List.mem_append_left _ he))
    · exact (List.pairwise_append.1 (List.pairwise_append.1 hclock.increasing).2.1).1
  constructor
  · intro hcomplete l₁ first q x l₂ htr h
    exact (hlaw l₁ first q x l₂ htr h).1 (hcomplete l₁ first q x l₂ htr h)
  · intro hgap l₁ first q x l₂ htr h
    exact (hlaw l₁ first q x l₂ htr h).2 (hgap l₁ first q x l₂ htr h)

/-! ## Two schedules -/

/-- Two quiet evaluations after an attack, far enough from each other. -/
def exampleSparse : List Input := [attackAt 1000, quietAt 1001, quietAt 1700]

theorem exampleSparse_completes :
    Completes exampleText defaultThresholds exampleStart exampleSparse := by
  refine (completes_iff exampleText defaultThresholds exampleStart exampleSparse
    ⟨by decide +kernel, by decide +kernel⟩).2 fun l₁ first q x l₂ htr h => ?_
  have hhead := h.head
  rcases l₁ with _ | ⟨e₁, _ | ⟨e₂, l₁⟩⟩
  · -- The attack is not quiet.
    rcases q with _ | ⟨y, q⟩ <;> obtain ⟨rfl, -⟩ := List.cons.inj htr <;>
      exact absurd (h.quiet _ List.mem_cons_self).1 (by decide +kernel)
  · obtain ⟨-, htr⟩ := List.cons.inj htr
    rcases q with _ | ⟨y, _ | ⟨z, q⟩⟩
    · -- The evaluation that enters `recovery` is not due.
      obtain ⟨rfl, -⟩ := List.cons.inj htr
      obtain rfl := Option.some.inj hhead
      exact absurd h.due (by unfold Due; decide +kernel)
    · obtain ⟨rfl, htr'⟩ := List.cons.inj htr
      obtain ⟨rfl, -⟩ := List.cons.inj htr'
      exact ⟨_, rfl, by unfold Due; decide +kernel⟩
    · cases q <;> cases htr
  · -- The last evaluation does not enter `recovery`.
    obtain ⟨-, htr⟩ := List.cons.inj htr
    obtain ⟨-, htr⟩ := List.cons.inj htr
    have hlast : first.post.mode = .normal := by
      rcases l₁ with _ | ⟨e₃, l₁⟩
      · rcases q with _ | ⟨y, q⟩ <;> obtain ⟨rfl, -⟩ := List.cons.inj htr <;>
          obtain rfl := Option.some.inj hhead <;> decide +kernel
      · cases l₁ <;> cases q <;> cases htr
    rw [h.enters.2] at hlast
    cases hlast

/-- After the attack there is an evaluation every minute, for ten minutes. -/
def exampleMinutes : List Input :=
  attackAt 1000 ::
    [1060, 1120, 1180, 1240, 1300, 1360, 1420, 1480, 1540, 1600, 1660].map quietAt

/-- Ten minutes after the first of them the mode is still `recovery`. -/
theorem exampleMinutes_not_completes :
    ¬Completes exampleText defaultThresholds exampleStart exampleMinutes := by
  intro h
  let run := trace (step exampleText defaultThresholds) exampleStart exampleMinutes
  have hnormal := h (run.take 1)
    (event (step exampleText defaultThresholds)
      (exec (step exampleText defaultThresholds) exampleStart (exampleMinutes.take 1))
      (quietAt 1060))
    ((run.drop 1).take 10)
    (event (step exampleText defaultThresholds)
      (exec (step exampleText defaultThresholds) exampleStart (exampleMinutes.take 11))
      (quietAt 1660)) [] rfl
    ⟨rfl, by unfold Enters; decide +kernel, by unfold Quiet; decide +kernel,
      by unfold Due; decide +kernel, by unfold Due; decide +kernel⟩
  exact absurd hnormal (by decide +kernel)

end Ddns.Attack
