import Ddns.Attack.Model

/-!
# Recovery from an attack

After an attack the mode is meant to stay away from `normal` until a series of quiet evaluations
has lasted `recoveryStableSecs`. The clock of this wait is one remembered time: each quiet
evaluation overwrites it and the others keep it. So it is the time of the last quiet evaluation
(`Remembers`), whenever that was, and an evaluation that begins a quiet series can find it old
enough. `honours_iff` lists the evaluations that end the wait too early.
-/

namespace Ddns.Attack

open Runs

/-- A step of the evaluation. -/
abbrev Step := Event State Input Decision

/-- The time of an evaluation. -/
def timeOf (e : Step) : ℚ := nowOf e.input.signals e.input.dateNow

/-- An evaluation of score 0, without a disagreement. -/
def Quiet (e : Step) : Prop := e.out.score = 0 ∧ e.input.signals.rpcDisagreement ≠ some true

def AttackMode.Severe (m : AttackMode) : Prop := m = .underAttack ∨ m = .isolated

/-- A severe mode was reached, and `normal` was not reached since. -/
def Pending (start : AttackMode) (l : List Step) : Prop :=
  l.foldl (fun p e => e.post.mode.Severe ∨ p ∧ e.post.mode ≠ .normal) start.Severe

/-- The evaluation `e`, after those in `l`, ends an unbroken series of quiet evaluations that spans
the time `recoveryStableSecs`. -/
def EndsQuietSeries (thr : AttackThresholds) (l : List Step) (e : Step) : Prop :=
  ∃ l₁ q first, l = l₁ ++ q ∧ (∀ x ∈ q ++ [e], Quiet x) ∧ (q ++ [e]).head? = some first ∧
    thr.recoveryStableSecs.le (.fin (timeOf e - timeOf first)) = true

/-- **The recovery law** of a run: an evaluation that returns to `normal` after a severe mode ends
a quiet series that is long enough. -/
def HonoursWait (text : JsNum → String) (thr : AttackThresholds) (s : State) (is : List Input) :
    Prop :=
  ∀ l₁ e l₂, trace (step text thr) s is = l₁ ++ e :: l₂ → Pending s.mode l₁ →
    e.post.mode = .normal → EndsQuietSeries thr l₁ e

/-- The evaluation before the next one was quiet. -/
def AfterQuiet (l : List Step) : Prop := ∃ x, l.getLast? = some x ∧ Quiet x

/-- The evaluation `e` ends the wait although no quiet series does: it is quiet and the one before
it was not, but it remembers a time that is long enough ago; or it leaves `suspicious` with a score
below 20. Where no wait is asked for, only the second with a score other than 0 does. -/
def EndsEarly (thr : AttackThresholds) (l : List Step) (e : Step) : Prop :=
  (e.pre.mode ≠ .normal ∧ e.pre.mode ≠ .suspicious ∧ Quiet e ∧ ¬AfterQuiet l ∧
    stableLongEnough thr e.pre.memory (timeOf e) = true ∧
    thr.recoveryStableSecs.le (.fin 0) = false) ∨
  (e.pre.mode = .suspicious ∧ e.input.signals.rpcDisagreement ≠ some true ∧ e.out.score < 20 ∧
    (thr.recoveryStableSecs.le (.fin 0) = false ∨ e.out.score ≠ 0))

section Steps

variable {text : JsNum → String} {thr : AttackThresholds} {c : State} {i : Input}
  {start : AttackMode} {l : List Step} {e : Step} {now : ℚ} {score : Nat} {memory : Memory}

/-! ## One evaluation -/

theorem modeForScore_eq_normal (score : Nat) : modeForScore score = .normal ↔ score < 20 := by
  unfold modeForScore
  split
  · simp only [reduceCtorEq, false_iff]
    omega
  · split
    · simp only [reduceCtorEq, false_iff]
      omega
    · simp only [true_iff]
      omega

/-- Which evaluations lead to `normal`. -/
theorem nextMode_eq_normal {prev : AttackMode} :
    nextMode prev score thr memory now = .normal ↔
      if prev = .normal ∨ prev = .suspicious then score < 20
      else score = 0 ∧ stableLongEnough thr memory now = true := by
  cases prev with
  | normal => simpa only [nextMode, true_or, if_true] using modeForScore_eq_normal score
  | suspicious => simpa only [nextMode, or_true, if_true] using modeForScore_eq_normal score
  | underAttack => by_cases hz : score = 0 <;> simp [nextMode, hz]
  | isolated => by_cases hz : score = 0 <;> simp [nextMode, hz]
  | recovery =>
    simp only [nextMode, reduceCtorEq, or_self, if_false]
    split
    · next h => simpa using h
    · next h =>
      have hno : ¬(score = 0 ∧ stableLongEnough thr memory now = true) := by simpa using h
      split
      · simp [hno]
      · split <;> simp [hno]

/-- A score of 0 leads to `normal` or to `recovery`. -/
theorem nextMode_zero (prev : AttackMode) :
    nextMode prev 0 thr memory now = .normal ∨ nextMode prev 0 thr memory now = .recovery := by
  cases prev with
  | normal => exact .inl rfl
  | suspicious => exact .inl rfl
  | underAttack => by_cases h : stableLongEnough thr memory now = true <;> simp [nextMode, h]
  | isolated => by_cases h : stableLongEnough thr memory now = true <;> simp [nextMode, h]
  | recovery => by_cases h : stableLongEnough thr memory now = true <;> simp [nextMode, h]

/-- An evaluation with a disagreement isolates and forgets. -/
theorem event_disagreement (h : i.signals.rpcDisagreement = some true) :
    event (step text thr) c i =
      ⟨c, i, ⟨.isolated, 100, ["rpc_disagreement"], ⟨none⟩⟩, ⟨.isolated, ⟨none⟩⟩⟩ := by
  simp [event, step, evaluateAttackMode, h]

/-- What any other evaluation does. -/
theorem event_agreement (text : JsNum → String) (thr : AttackThresholds) (c : State)
    (h : i.signals.rpcDisagreement ≠ some true) :
    let e := event (step text thr) c i
    e.out.score = scoreOf i.signals thr ∧
      e.post.mode = nextMode c.mode e.out.score thr c.memory (timeOf e) ∧
      e.post.memory = ⟨if e.out.score = 0 then some (timeOf e) else c.memory.lastStableUnix⟩ := by
  simp [event, step, evaluateAttackMode, h, timeOf]

/-- A quiet evaluation remembers its time, and leads to `normal` or to `recovery`. -/
theorem event_quiet (hq : Quiet (event (step text thr) c i)) :
    (event (step text thr) c i).post.memory = ⟨some (timeOf (event (step text thr) c i))⟩ ∧
      ((event (step text thr) c i).post.mode = .normal ∨
        (event (step text thr) c i).post.mode = .recovery) := by
  have hagree : i.signals.rpcDisagreement ≠ some true := hq.2
  obtain ⟨-, hmode, hmem⟩ := event_agreement text thr c hagree
  rw [hq.1] at hmode hmem
  exact ⟨hmem, by rw [hmode]; exact nextMode_zero c.mode⟩

/-- Which evaluations lead to `normal`, by the mode before. -/
theorem event_normal :
    (event (step text thr) c i).post.mode = .normal ↔
      i.signals.rpcDisagreement ≠ some true ∧
        if c.mode = .normal ∨ c.mode = .suspicious then
          (event (step text thr) c i).out.score < 20
        else (event (step text thr) c i).out.score = 0 ∧
          stableLongEnough thr c.memory (timeOf (event (step text thr) c i)) = true := by
  by_cases hd : i.signals.rpcDisagreement = some true
  · rw [event_disagreement hd]
    simp [hd]
  · obtain ⟨-, hmode, -⟩ := event_agreement text thr c hd
    rw [hmode, nextMode_eq_normal]
    simp only [ne_eq, hd, not_false_eq_true, true_and]

/-! ## The series that an evaluation ends -/

/-- A series that begins with the evaluation itself spans no time. -/
theorem endsQuietSeries_of_not_afterQuiet (hl : ¬AfterQuiet l) :
    EndsQuietSeries thr l e ↔ Quiet e ∧ thr.recoveryStableSecs.le (.fin 0) = true := by
  constructor
  · rintro ⟨l₁, q, first, rfl, hquiet, hfirst, hspan⟩
    rcases List.eq_nil_or_concat q with rfl | ⟨q', x, rfl⟩
    · obtain rfl : e = first := Option.some.inj hfirst
      rw [sub_self] at hspan
      exact ⟨hquiet e (by simp), hspan⟩
    · refine absurd ⟨x, ?_, hquiet x (by simp)⟩ hl
      simp
  · rintro ⟨hq, hspan⟩
    refine ⟨l, [], e, (List.append_nil l).symm, ?_, rfl, by rw [sub_self]; exact hspan⟩
    intro x hx
    rw [List.nil_append, List.mem_singleton] at hx
    rw [hx]
    exact hq

/-- A quiet evaluation goes on with the series of the one before. -/
theorem endsQuietSeries_of_quiet {x : Step} (hlast : l.getLast? = some x) (hx : Quiet x)
    (he : Quiet e) (hspan : thr.recoveryStableSecs.le (.fin (timeOf e - timeOf x)) = true) :
    EndsQuietSeries thr l e := by
  obtain ⟨l₁, rfl⟩ := List.getLast?_eq_some_iff.1 hlast
  refine ⟨l₁, [x], x, rfl, ?_, rfl, hspan⟩
  intro y hy
  simp only [List.cons_append, List.nil_append, List.mem_cons, List.not_mem_nil, or_false] at hy
  rcases hy with rfl | rfl
  · exact hx
  · exact he

/-! ## What the state says about the history -/

theorem pending_append (start : AttackMode) (l : List Step) (e : Step) :
    Pending start (l ++ [e]) ↔ e.post.mode.Severe ∨ Pending start l ∧ e.post.mode ≠ .normal := by
  simp [Pending]

/-- While a wait is pending the mode is not `normal`; after a quiet evaluation the memory holds its
time, and the mode is `normal` or `recovery`. -/
structure Remembers (start : AttackMode) (c : State) (l : List Step) : Prop where
  pending : Pending start l → c.mode ≠ .normal
  quiet : ∀ x, l.getLast? = some x → Quiet x →
    c.memory = ⟨some (timeOf x)⟩ ∧ (c.mode = .normal ∨ c.mode = .recovery)

theorem remembers_start (s : State) : Remembers s.mode s [] := by
  refine ⟨?_, fun x hx => by cases hx⟩
  rintro (h | h)
  · rw [h]
    nofun
  · rw [h]
    nofun

theorem remembers_step :
    Remembers start (step text thr c i).1 (l ++ [event (step text thr) c i]) := by
  refine ⟨?_, ?_⟩
  · intro hp hnormal
    have hnormal : (event (step text thr) c i).post.mode = .normal := hnormal
    rw [pending_append, hnormal] at hp
    rcases hp with (h | h) | ⟨-, h⟩
    · cases h
    · cases h
    · exact h rfl
  · intro x hx hq
    rw [List.getLast?_concat, Option.some.injEq] at hx
    subst hx
    exact event_quiet hq

/-- A returning evaluation ends a long enough quiet series unless it ends the wait early. -/
theorem endsQuietSeries_iff (hr : Remembers start c l) (hp : Pending start l)
    (hn : (event (step text thr) c i).post.mode = .normal) :
    EndsQuietSeries thr l (event (step text thr) c i) ↔
      ¬EndsEarly thr l (event (step text thr) c i) := by
  have hne := hr.pending hp
  obtain ⟨hagree, hmode⟩ := event_normal.1 hn
  by_cases hsus : c.mode = .suspicious
  · -- `suspicious` is not the mode after a quiet evaluation, so the series begins here.
    have hno : ¬AfterQuiet l := by
      rintro ⟨x, hx, hq⟩
      rcases (hr.quiet x hx hq).2 with h | h
      · exact hne h
      · rw [hsus] at h
        cases h
    rw [if_pos (.inr hsus)] at hmode
    rw [endsQuietSeries_of_not_afterQuiet hno]
    simp only [EndsEarly, Quiet, event_pre, event_input, hsus, hagree, hmode, ne_eq,
      not_false_eq_true, not_true_eq_false, false_and, and_false, false_or, and_true, true_and,
      not_or, Bool.not_eq_false, not_not]
    exact and_comm
  · rw [if_neg (not_or.2 ⟨hne, hsus⟩)] at hmode
    have hquiet : Quiet (event (step text thr) c i) := ⟨hmode.1, hagree⟩
    by_cases hafter : AfterQuiet l
    · -- The remembered time is that of the evaluation before.
      obtain ⟨x, hx, hq⟩ := hafter
      have hspan := hmode.2
      rw [stableLongEnough, (hr.quiet x hx hq).1, Bool.and_eq_true] at hspan
      have hpos : remembered ⟨some (timeOf x)⟩ = some (timeOf x) := by
        have hsome := hspan.1
        simp only [remembered, Option.filter] at hsome ⊢
        split at hsome
        · next h => simp only [h, if_true]
        · cases hsome
      rw [stableFor, hpos] at hspan
      refine iff_of_true (endsQuietSeries_of_quiet hx hq hquiet hspan.2) ?_
      rintro (⟨-, -, -, hno, -⟩ | ⟨h, -⟩)
      · exact hno ⟨x, hx, hq⟩
      · exact hsus h
    · rw [endsQuietSeries_of_not_afterQuiet hafter]
      simp only [EndsEarly, event_pre, hne, hsus, hquiet, hafter, hmode.2, ne_eq,
        not_false_eq_true, true_and, false_and, or_false, Bool.not_eq_false]

/-- An evaluation that ends the wait early leads to `normal`. -/
theorem endsEarly_normal (h : EndsEarly thr l (event (step text thr) c i)) :
    (event (step text thr) c i).post.mode = .normal := by
  rw [event_normal]
  unfold EndsEarly at h
  rw [event_pre] at h
  rcases h with ⟨hnormal, hsus, hq, -, hlong, -⟩ | ⟨hsus, hagree, hlt, -⟩
  · refine ⟨hq.2, ?_⟩
    rw [if_neg (not_or.2 ⟨hnormal, hsus⟩)]
    exact ⟨hq.1, hlong⟩
  · refine ⟨hagree, ?_⟩
    rw [if_pos (.inr hsus)]
    exact hlt

end Steps

/-- **Exactly when the wait is honoured.** A run returns to `normal` after a severe mode only at the
end of a quiet series of `recoveryStableSecs`, if and only if none of its evaluations ends a
pending wait early. -/
theorem honours_iff (text : JsNum → String) (thr : AttackThresholds) (s : State)
    (is : List Input) :
    HonoursWait text thr s is ↔
      ∀ l₁ e l₂, trace (step text thr) s is = l₁ ++ e :: l₂ → Pending s.mode l₁ →
        ¬EndsEarly thr l₁ e := by
  have hr : ∀ pre, Remembers s.mode (exec (step text thr) s pre) (trace (step text thr) s pre) :=
    fun pre => history_of_step (fun _ _ _ _ => remembers_step) (remembers_start s) pre
  constructor
  · intro hlaw l₁ e l₂ htr hp hearly
    obtain ⟨pre, i, post, rfl, rfl, rfl, -⟩ := trace_split htr
    have hn := endsEarly_normal hearly
    exact (endsQuietSeries_iff (hr pre) hp hn).1 (hlaw _ _ _ htr hp hn) hearly
  · intro hQ l₁ e l₂ htr hp hn
    obtain ⟨pre, i, post, rfl, rfl, rfl, -⟩ := trace_split htr
    exact (endsQuietSeries_iff (hr pre) hp hn).2 (hQ _ _ _ htr hp)

/-! ## An attack shortly after a quiet evaluation -/

/-- Prints whole numbers. -/
def exampleText : JsNum → String
  | .fin q => toString q.num
  | .nan => "NaN"
  | .posInf => "Infinity"
  | .negInf => "-Infinity"

/-- Nothing is wrong. -/
def quietAt (t : ℚ) : Input := ⟨{ nowUnix := some t }, 0⟩

/-- One receipt in ten of a large sample is invalid. -/
def attackAt (t : ℚ) : Input :=
  ⟨{ invalidReceiptPct := some (.fin 10), receiptSampleSize := some (.fin 1000)
     nowUnix := some t }, 0⟩

/-- The attack lasts for ten minutes, up to the second before the last evaluation. -/
def exampleRun : List Input := [quietAt 1000, attackAt 1001, attackAt 1600, quietAt 1601]

def exampleStart : State := ⟨.normal, ⟨none⟩⟩

/-- The first quiet evaluation after the attack returns to `normal`, where 600 seconds are asked
for. -/
theorem exampleRun_not_honoured :
    ¬HonoursWait exampleText defaultThresholds exampleStart exampleRun := by
  intro h
  have hpending : Pending exampleStart.mode
      (trace (step exampleText defaultThresholds) exampleStart (exampleRun.take 3)) :=
    .inl (.inl (by decide +kernel))
  have hends := h _ (event (step exampleText defaultThresholds)
    (exec (step exampleText defaultThresholds) exampleStart (exampleRun.take 3)) (quietAt 1601)) []
    rfl hpending (by decide +kernel)
  have hbegins : ¬AfterQuiet
      (trace (step exampleText defaultThresholds) exampleStart (exampleRun.take 3)) := by
    rintro ⟨x, hx, hq⟩
    obtain rfl := Option.some.inj hx
    exact absurd hq.1 (by decide +kernel)
  rw [endsQuietSeries_of_not_afterQuiet hbegins] at hends
  exact absurd hends.2 (by decide +kernel)

end Ddns.Attack
