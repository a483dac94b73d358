import Ddns.WatchdogPolicy.Submissions

/-!
# The order of submissions

The policy of a name after a list of attestations is a function of what they add up to: counters
that saturate, flags that are joined, and how many marks looked new (`tallyAfter`). The status is
rewritten at every step, from the counters at that step, but the gate of the quorum only opens, and
with it open the last rewriting alone decides (`submitAll_outcome`). All of this is symmetric in the
attestations. It fails for the zero name hash only, whose policy looks new at every submission, so
that the last one alone counts (`orderIndependent_iff`).
-/

namespace Ddns.WatchdogPolicy

open Tx

/-! ## What attestations add up to -/

/-- What an attestation observes: `is_mismatch`, `is_ok`, or else a failure. -/
inductive Observation where
  | ok
  | fail
  | mismatch
  deriving DecidableEq, Repr

def Digest.observation (d : Digest) : Observation :=
  if d.kind = 2 then .mismatch else if d.kind = 1 ∧ d.outcome = 0 then .ok else .fail

/-- The counters and the flags of a policy. -/
structure Tally where
  ok : Nat
  fail : Nat
  mismatch : Nat
  flags : Nat
  distinct : Nat
  deriving DecidableEq, Repr

def NamePolicyState.tally (ps : NamePolicyState) : Tally :=
  ⟨ps.rollingOk, ps.rollingFail, ps.rollingMismatch, ps.reasonFlags, ps.distinctWatchdogsLastEpoch⟩

/-- The fields that the order of attestations could change. -/
structure Outcome where
  tally : Tally
  confidenceBps : Nat
  status : PolicyStatus
  deriving DecidableEq, Repr

def NamePolicyState.outcome (ps : NamePolicyState) : Outcome :=
  ⟨ps.tally, ps.confidenceBps, ps.status⟩

def State.outcome (st : State) (n : Hash) : Option Outcome :=
  (st.policy n).map NamePolicyState.outcome

/-- The policy that the next submission in the epoch `e` adds to. -/
def State.standing (st : State) (e : Nat) (n : Hash) : NamePolicyState :=
  openPolicy ((st.policy n).getD NamePolicyState.zero) n e

/-- A saturating counter of width `w` after `k` more. -/
def counted (w a k : Nat) : Nat := if k = 0 then a else min (a + k) (2 ^ w - 1)

/-- The tally after one attestation more, by a watchdog whose mark looks new or not. -/
def Tally.record (t : Tally) (markNew : Bool) (d : Digest) : Tally where
  ok := counted 32 t.ok (if d.observation = .ok then 1 else 0)
  fail := counted 32 t.fail (if d.observation = .fail then 1 else 0)
  mismatch := counted 32 t.mismatch (if d.observation = .mismatch then 1 else 0)
  flags := t.flags ||| d.reasonFlags
  distinct := counted 16 t.distinct (if markNew then 1 else 0)

/-- How many of the submissions find a mark that looks new. -/
def newMarks (st : State) (e : Nat) (n : Hash) (l : List Submission) : Nat :=
  if e = 0 then l.countP fun x => st.markNew e n x.watchdog
  else ((l.map Submission.watchdog).toFinset.filter fun w => st.markNew e n w = true).card

/-- What the submissions add up to. -/
def tallyAfter (st : State) (e : Nat) (n : Hash) (l : List Submission) : Tally :=
  let t := (st.standing e n).tally
  { ok := counted 32 t.ok (l.countP fun x => x.digest.observation = .ok)
    fail := counted 32 t.fail (l.countP fun x => x.digest.observation = .fail)
    mismatch := counted 32 t.mismatch (l.countP fun x => x.digest.observation = .mismatch)
    flags := l.foldl (fun a x => a ||| x.digest.reasonFlags) t.flags
    distinct := counted 16 t.distinct (newMarks st e n l) }

/-! ## The status of a tally -/

/-- The weight of everything observed. -/
def Tally.weight (t : Tally) : Nat := t.ok + 2 * t.fail + 3 * t.mismatch

/-- The risk over unbounded integers, in basis points. -/
def Tally.riskBps (t : Tally) : Nat := 10000 * (2 * t.fail + 3 * t.mismatch) / t.weight

/-- The status that the thresholds give a risk. -/
def classify (cfg : PolicyConfig) (t : Tally) : PolicyStatus :=
  if cfg.quarantineThresholdBps ≤ t.riskBps then .quarantine
  else if cfg.warnThresholdBps ≤ t.riskBps then .warn
  else .ok

/-- The status after a step: with the quorum and an observation that of the risk, else the old
one. -/
def settle (cfg : PolicyConfig) (t : Tally) (old : PolicyStatus) : PolicyStatus :=
  if cfg.minWatchdogs ≤ t.distinct ∧ 0 < t.weight then classify cfg t else old

/-- The confidence of a tally. -/
def Tally.confidence (t : Tally) : Nat := min ((t.ok + t.fail + t.mismatch) * 500) 10000

/-- What the submissions leave of a policy whose name is not zero. -/
def outcomeAfter (st : State) (e : Nat) (n : Hash) (l : List Submission) : Outcome :=
  let t := tallyAfter st e n l
  ⟨t, t.confidence, settle st.config t (st.standing e n).status⟩

/-- The counters are within their widths. -/
structure Tally.Fits (t : Tally) : Prop where
  ok : t.ok < 2 ^ 32
  fail : t.fail < 2 ^ 32
  mismatch : t.mismatch < 2 ^ 32
  distinct : t.distinct < 2 ^ 16

section Tallies

variable {cfg : PolicyConfig} {t : Tally} {ps : NamePolicyState} {d : Digest} {b : Bool} {now : Int}

theorem counted_zero (w a : Nat) : counted w a 0 = a := rfl

theorem counted_add (w a j k : Nat) : counted w (counted w a j) k = counted w a (j + k) := by
  unfold counted
  split
  · next hk => rw [hk, Nat.add_zero]
  · split
    · next hk hj => rw [hj, Nat.zero_add, if_neg hk]
    · rw [if_neg (by omega)]
      omega

theorem counted_lt {w a : Nat} (k : Nat) (h : a < 2 ^ w) : counted w a k < 2 ^ w := by
  unfold counted
  split
  · exact h
  · omega

theorem Tally.Fits.record (h : t.Fits) (b : Bool) (d : Digest) : (t.record b d).Fits :=
  ⟨counted_lt _ h.ok, counted_lt _ h.fail, counted_lt _ h.mismatch, counted_lt _ h.distinct⟩

/-- Every attestation weighs something. -/
theorem record_weight_pos (t : Tally) (b : Bool) (d : Digest) : 0 < (t.record b d).weight := by
  unfold Tally.weight Tally.record
  cases hd : d.observation with
  | ok => simp only [counted, reduceCtorEq, if_true, if_false]; omega
  | fail => simp only [counted, reduceCtorEq, if_true, if_false]; omega
  | mismatch => simp only [counted, reduceCtorEq, if_true, if_false]; omega

theorem record_distinct_ge (h : t.Fits) (b : Bool) (d : Digest) :
    t.distinct ≤ (t.record b d).distinct := by
  have hlt := h.distinct
  cases b with
  | false => exact le_refl t.distinct
  | true =>
    show t.distinct ≤ min (t.distinct + 1) (2 ^ 16 - 1)
    omega

theorem record_tally (ps : NamePolicyState) (b : Bool) (d : Digest) (now : Int) :
    (ps.record b d now).tally = ps.tally.record b d := by
  have hsat (a : Nat) : Checked.satAdd 16 a 1 = counted 16 a 1 := rfl
  have hsat' (a : Nat) : Checked.satAdd 32 a 1 = counted 32 a 1 := rfl
  unfold NamePolicyState.record NamePolicyState.tally Tally.record Digest.observation
  cases b with
  | false =>
    by_cases hm : d.kind = 2
    · simp [hm, hsat', counted_zero]
    · by_cases ho : d.kind = 1 ∧ d.outcome = 0
      · simp [ho, hsat', counted_zero]
      · simp [hm, ho, hsat', counted_zero]
  | true =>
    by_cases hm : d.kind = 2
    · simp [hm, hsat, hsat', counted_zero]
    · by_cases ho : d.kind = 1 ∧ d.outcome = 0
      · simp [ho, hsat, hsat', counted_zero]
      · simp [hm, ho, hsat, hsat', counted_zero]

theorem riskBps_le (t : Tally) : t.riskBps ≤ 10000 := by
  refine Nat.div_le_of_le_mul ?_
  unfold Tally.weight
  omega

/-- The program weighs counters of their widths without saturating. -/
theorem nextStatus_eq_settle (h : ps.tally.Fits) :
    nextStatus cfg ps = settle cfg ps.tally ps.status := by
  have hok : ps.rollingOk < 2 ^ 32 := h.ok
  have hfail : ps.rollingFail < 2 ^ 32 := h.fail
  have hmismatch : ps.rollingMismatch < 2 ^ 32 := h.mismatch
  have hfw : Checked.satMul 64 ps.rollingFail 2 = 2 * ps.rollingFail := by
    unfold Checked.satMul
    omega
  have hmw : Checked.satMul 64 ps.rollingMismatch 3 = 3 * ps.rollingMismatch := by
    unfold Checked.satMul
    omega
  have hweight : Checked.satAdd 64 (Checked.satAdd 64 ps.rollingOk (2 * ps.rollingFail))
      (3 * ps.rollingMismatch) = ps.tally.weight := by
    simp only [Checked.satAdd, Tally.weight, NamePolicyState.tally]
    omega
  have hnum : Checked.satMul 64 (Checked.satAdd 64 (2 * ps.rollingFail)
      (3 * ps.rollingMismatch)) 10000 = 10000 * (2 * ps.tally.fail + 3 * ps.tally.mismatch) := by
    simp only [Checked.satMul, Checked.satAdd, NamePolicyState.tally]
    omega
  have hcast : Checked.cast 16 (10000 * (2 * ps.tally.fail + 3 * ps.tally.mismatch) /
      ps.tally.weight) = ps.tally.riskBps :=
    Checked.cast_of_lt (Nat.lt_of_le_of_lt (riskBps_le ps.tally) (by decide))
  simp only [nextStatus, hfw, hmw, hweight, hnum, hcast]
  unfold settle
  by_cases hgate : cfg.minWatchdogs ≤ ps.tally.distinct
  · by_cases hpos : 0 < ps.tally.weight
    · rw [if_pos (And.intro hgate hpos), if_pos hpos]
      exact if_pos hgate
    · rw [if_neg (fun h => hpos (And.right h)), if_neg hpos]
      exact if_pos hgate
  · rw [if_neg (fun h => hgate (And.left h))]
    exact if_neg hgate

theorem confidence_eq (ps : NamePolicyState) (h : ps.tally.Fits) :
    confidence ps = ps.tally.confidence := by
  obtain ⟨hok, hfail, hmismatch, -⟩ := h
  unfold confidence Tally.confidence
  simp only [NamePolicyState.tally] at *
  rw [Checked.cast_of_lt (Nat.lt_of_le_of_lt (Nat.min_le_right ..) (by decide))]
  unfold Checked.satMul Checked.satAdd
  omega

/-- The gate only opens: what the step before settled does not matter. -/
theorem settle_settle (h : t.Fits) (b : Bool) (d : Digest) (old : PolicyStatus) :
    settle cfg (t.record b d) (settle cfg t old) = settle cfg (t.record b d) old := by
  have hle := record_distinct_ge h b d
  have hpos := record_weight_pos t b d
  unfold settle
  by_cases hgate : cfg.minWatchdogs ≤ (t.record b d).distinct
  · rw [if_pos ⟨hgate, hpos⟩, if_pos ⟨hgate, hpos⟩]
  · rw [if_neg fun h => hgate h.1, if_neg fun h => hgate (h.1.trans hle),
      if_neg fun h => hgate h.1]

end Tallies

/-! ## Submissions -/

section Submissions

variable {st st' : State} {e : Nat} {n : Hash} {x : Submission} {l : List Submission}

/-- A policy that is of the name and the widths of its fields. -/
structure Filed (n : Hash) (ps : NamePolicyState) : Prop where
  name : ps.nameHash = n
  fits : ps.tally.Fits

theorem zero_fits : NamePolicyState.zero.tally.Fits :=
  ⟨by decide, by decide, by decide, by decide⟩

theorem standing_fits (h : ∀ ps, st.policy n = some ps → Filed n ps) :
    (st.standing e n).tally.Fits := by
  have hold : ((st.policy n).getD NamePolicyState.zero).tally.Fits := by
    cases hps : st.policy n with
    | none => exact zero_fits
    | some ps => exact (h ps hps).fits
  unfold State.standing
  generalize (st.policy n).getD NamePolicyState.zero = ps at hold ⊢
  by_cases hz : ps.nameHash = 0
  · rw [openPolicy_of_new hz]
    exact zero_fits
  · by_cases he : ps.lastEpochId = e
    · rw [openPolicy_of_same hz he]
      exact hold
    · rw [openPolicy_of_older hz he]
      exact zero_fits

theorem standing_name (h : ∀ ps, st.policy n = some ps → Filed n ps) :
    (st.standing e n).nameHash = n := by
  refine openPolicy_nameHash ?_
  cases hps : st.policy n with
  | none => exact .inl rfl
  | some ps => exact .inr (h ps hps).name

theorem publish_outcome (ps : NamePolicyState) : ps.publish.outcome = ps.outcome := by
  unfold NamePolicyState.publish
  split
  · rfl
  · rfl
  · rfl

/-- What a submission leaves of the policy that it finds. -/
theorem nextPolicy_outcome (he : currentEpoch st.config x.clock = e) (hn : x.digest.nameHash = n)
    (hfits : (st.standing e n).tally.Fits) :
    let t := (st.standing e n).tally.record (st.markNew e n x.watchdog) x.digest
    (nextPolicy x.clock st x.watchdog x.digest).outcome =
      ⟨t, t.confidence, settle st.config t (st.standing e n).status⟩ := by
  subst he hn
  intro t
  let recorded := (st.standing (currentEpoch st.config x.clock) x.digest.nameHash).record
    (st.markNew (currentEpoch st.config x.clock) x.digest.nameHash x.watchdog) x.digest
    x.clock.unixTimestamp
  have htally : recorded.tally = t := record_tally ..
  have hstatus : recorded.status = _ := (policyRecord_eq ..).2.2.2
  have hrecorded : recorded.tally.Fits := htally ▸ hfits.record _ _
  have hnext : nextStatus st.config recorded = settle st.config t
      (st.standing (currentEpoch st.config x.clock) x.digest.nameHash).status := by
    rw [nextStatus_eq_settle hrecorded, htally, hstatus]
  have hconfidence : confidence recorded = t.confidence := by
    rw [confidence_eq recorded hrecorded, htally]
  unfold nextPolicy
  rw [publish_outcome, ← hnext, ← hconfidence, ← htally]
  rfl

/-- The next submission in the epoch adds to the policy that the last one left. -/
theorem Submitted.standing (h : Submitted st st' e n x) (he : currentEpoch st.config x.clock = e)
    (hn : x.digest.nameHash = n) (hname : (st.standing e n).nameHash ≠ 0) :
    st'.standing e n = nextPolicy x.clock st x.watchdog x.digest := by
  subst he hn
  obtain ⟨hlast, hfound, -⟩ := nextPolicy_eq x.clock st x.watchdog x.digest
  rw [State.standing, h.policy, Option.getD_some]
  exact openPolicy_of_same (hfound.trans_ne hname) hlast

theorem newMarks_concat (st : State) (e : Nat) (n : Hash) (l : List Submission) (x : Submission) :
    newMarks st e n (l ++ [x]) = newMarks st e n l +
      if (st.markNew e n x.watchdog &&
        (decide (e = 0) || decide (x.watchdog ∉ l.map Submission.watchdog))) = true then 1 else 0 := by
  unfold newMarks
  by_cases he : e = 0
  · rw [if_pos he, if_pos he, List.countP_append, List.countP_singleton]
    simp [he]
  · rw [if_neg he, if_neg he, List.map_append, List.toFinset_append, Finset.union_comm]
    show ((insert x.watchdog (l.map Submission.watchdog).toFinset).filter _).card = _
    rw [Finset.filter_insert]
    by_cases hnew : st.markNew e n x.watchdog = true
    · rw [if_pos hnew]
      by_cases hw : x.watchdog ∈ l.map Submission.watchdog
      · have hmem : x.watchdog ∈ (l.map Submission.watchdog).toFinset.filter
            fun w => st.markNew e n w = true :=
          Finset.mem_filter.2 ⟨List.mem_toFinset.2 hw, hnew⟩
        rw [Finset.insert_eq_of_mem hmem]
        simp [he, hw]
      · have hmem : x.watchdog ∉ (l.map Submission.watchdog).toFinset.filter
            fun w => st.markNew e n w = true :=
          fun h => hw (List.mem_toFinset.1 (Finset.mem_filter.1 h).1)
        rw [Finset.card_insert_of_notMem hmem]
        simp [hw, hnew]
    · rw [if_neg hnew]
      simp [hnew]

/-- What the submissions add up to, with one more. -/
theorem tallyAfter_concat (st : State) (e : Nat) (n : Hash) (l : List Submission)
    (x : Submission) : tallyAfter st e n (l ++ [x]) = (tallyAfter st e n l).record
      (st.markNew e n x.watchdog &&
        (decide (e = 0) || decide (x.watchdog ∉ l.map Submission.watchdog))) x.digest := by
  simp only [tallyAfter, Tally.record, List.countP_append, List.countP_singleton,
    List.foldl_append, List.foldl_cons, List.foldl_nil, newMarks_concat, counted_add, decide_eq_true_eq]

/-- What relates the policy after the submissions `l` to the one before. -/
structure Adds (st st' : State) (e : Nat) (n : Hash) (l : List Submission) : Prop where
  name : (st'.standing e n).nameHash = n
  fits : (st'.standing e n).tally.Fits
  tally : (st'.standing e n).tally = tallyAfter st e n l
  status : (st'.standing e n).status = if l = [] then (st.standing e n).status
    else settle st.config (tallyAfter st e n l) (st.standing e n).status
  written : l ≠ [] → st'.outcome n = some (outcomeAfter st e n l)

/-- **What accepted submissions leave** of a policy whose name is not zero. -/
theorem submitAll_adds (hn : n ≠ 0) (hfiled : ∀ ps, st.policy n = some ps → Filed n ps)
    (hl : Concern st.config e n l) (h : submitAll st l = .ok st') : Adds st st' e n l := by
  induction l using List.reverseRecOn generalizing st' with
  | nil =>
    obtain rfl := pure_eq_ok.1 h
    have htally : tallyAfter st e n [] = (st.standing e n).tally := by
      simp [tallyAfter, newMarks, counted_zero, NamePolicyState.tally]
    exact ⟨standing_name hfiled, standing_fits hfiled, htally.symm, rfl, fun hne => absurd rfl hne⟩
  | append_singleton l x ih =>
    obtain ⟨mid, hmid, r, hr, rfl⟩ := submitAll_concat.1 h
    have hnew := submitAll_markNew hl.of_append.1 hmid x.watchdog
    obtain ⟨hl, hx⟩ := hl.of_append
    obtain ⟨he, hxn⟩ := hx x (List.mem_singleton_self x)
    have hmiddle := ih hl hmid
    have hconfig := submitAll_config hmid
    rw [← hconfig] at he
    have hsubmitted := submitted_of_ok hr he hxn
    have hname : (mid.standing e n).nameHash ≠ 0 := hmiddle.name.trans_ne hn
    have hstanding := hsubmitted.standing he hxn hname
    have houtcome := nextPolicy_outcome he hxn hmiddle.fits
    dsimp only at houtcome
    -- One more record, and the last settling decides.
    have hrecord : (mid.standing e n).tally.record (mid.markNew e n x.watchdog) x.digest =
        tallyAfter st e n (l ++ [x]) := by
      rw [hmiddle.tally, hnew, tallyAfter_concat]
    have hsettle : settle st.config (tallyAfter st e n (l ++ [x])) (mid.standing e n).status =
        settle st.config (tallyAfter st e n (l ++ [x])) (st.standing e n).status := by
      rw [hmiddle.status]
      split
      · rfl
      · rw [tallyAfter_concat]
        exact settle_settle (hmiddle.tally ▸ hmiddle.fits) ..
    rw [hrecord, hconfig, hsettle] at houtcome
    have hfits := hmiddle.fits.record (mid.markNew e n x.watchdog) x.digest
    rw [hrecord] at hfits
    rw [← hstanding] at houtcome
    have htally : (r.1.standing e n).tally = tallyAfter st e n (l ++ [x]) :=
      congrArg Outcome.tally houtcome
    refine ⟨?_, htally ▸ hfits, htally, ?_, fun _ => ?_⟩
    · rw [hstanding, (nextPolicy_eq x.clock mid x.watchdog x.digest).2.1, he, hxn]
      exact hmiddle.name
    · rw [if_neg (List.append_ne_nil_of_right_ne_nil l (List.cons_ne_nil x []))]
      exact congrArg Outcome.status houtcome
    · rw [State.outcome, hsubmitted.policy, ← hstanding, Option.map_some, houtcome]
      rfl

/-- What submissions add up to does not depend on their order. -/
theorem tallyAfter_perm {l' : List Submission} (hperm : l'.Perm l) :
    tallyAfter st e n l' = tallyAfter st e n l := by
  have hnew : newMarks st e n l' = newMarks st e n l := by
    unfold newMarks
    split
    · exact hperm.countP_eq _
    · rw [List.toFinset_eq_of_perm _ _ (hperm.map Submission.watchdog)]
  have hflags (a : Nat) : l'.foldl (fun a x => a ||| x.digest.reasonFlags) a =
      l.foldl (fun a x => a ||| x.digest.reasonFlags) a := by
    refine hperm.foldl_eq' (fun x _ y _ z => ?_) a
    rw [Nat.lor_assoc, Nat.lor_comm x.digest.reasonFlags, ← Nat.lor_assoc]
  unfold tallyAfter
  simp only [hperm.countP_eq, hnew, hflags]

/-! ## The zero name hash -/

/-- What one attestation leaves of a new policy. -/
def aloneOutcome (cfg : PolicyConfig) (markNew : Bool) (d : Digest) : Outcome :=
  let t := NamePolicyState.zero.tally.record markNew d
  ⟨t, t.confidence, settle cfg t .ok⟩

/-- Whether the mark of a submission looks new when it comes last. -/
def lastNew (st : State) (e : Nat) (l : List Submission) (x : Submission) : Bool :=
  st.markNew e 0 x.watchdog &&
    (decide (e = 0) || decide ((l.map Submission.watchdog).count x.watchdog = 1))

/-- Any of the submissions leaves the same when it comes last: they observe the same, with the same
flags, and their marks look new or not alike. -/
def Alike (st : State) (e : Nat) (l : List Submission) : Prop :=
  ∀ x ∈ l, ∀ y ∈ l, x.digest.observation = y.digest.observation ∧
    x.digest.reasonFlags = y.digest.reasonFlags ∧ lastNew st e l x = lastNew st e l y

theorem aloneOutcome_eq_iff {cfg : PolicyConfig} {b b' : Bool} {d d' : Digest} :
    aloneOutcome cfg b d = aloneOutcome cfg b' d' ↔
      d.observation = d'.observation ∧ d.reasonFlags = d'.reasonFlags ∧ b = b' := by
  constructor
  · intro h
    have htally := congrArg Outcome.tally h
    simp only [aloneOutcome, Tally.record, NamePolicyState.tally, NamePolicyState.zero,
      Nat.zero_or, Tally.mk.injEq] at htally
    obtain ⟨hok, hfail, -, hflags, hnew⟩ := htally
    refine ⟨?_, hflags, ?_⟩
    · cases hd : d.observation <;> cases hd' : d'.observation <;> simp_all [counted]
    · cases b <;> cases b' <;> simp_all [counted]
  · rintro ⟨hobservation, hflags, rfl⟩
    unfold aloneOutcome Tally.record
    rw [hobservation, hflags]

/-- The policy of the zero name looks new at every submission. -/
theorem standing_zero (h : ∀ ps, st.policy 0 = some ps → ps.nameHash = 0) (e : Nat) :
    st.standing e 0 = { NamePolicyState.zero with lastEpochId := e } := by
  refine openPolicy_of_new ?_
  cases hps : st.policy 0 with
  | none => rfl
  | some ps => exact h ps hps

theorem submitAll_zero_name (hfiled : ∀ ps, st.policy 0 = some ps → ps.nameHash = 0)
    (hl : Concern st.config e 0 l) (h : submitAll st l = .ok st') (ps : NamePolicyState)
    (hps : st'.policy 0 = some ps) : ps.nameHash = 0 := by
  induction l using List.reverseRecOn generalizing st' ps with
  | nil =>
    obtain rfl := pure_eq_ok.1 h
    exact hfiled ps hps
  | append_singleton l x ih =>
    obtain ⟨mid, hmid, r, hr, rfl⟩ := submitAll_concat.1 h
    obtain ⟨hl, hx⟩ := hl.of_append
    obtain ⟨he, hxn⟩ := hx x (List.mem_singleton_self x)
    rw [← submitAll_config hmid] at he
    have hzero := standing_zero (ih hl hmid) e
    rw [(submitted_of_ok hr he hxn).policy, Option.some.injEq] at hps
    rw [← hps, (nextPolicy_eq x.clock mid x.watchdog x.digest).2.1, he, hxn]
    show (mid.standing e 0).nameHash = 0
    rw [hzero]
    rfl

/-- Of the submissions for the zero name the last one alone counts. -/
theorem submitAll_zero (hfiled : ∀ ps, st.policy 0 = some ps → ps.nameHash = 0)
    (hl : Concern st.config e 0 (l ++ [x])) (h : submitAll st (l ++ [x]) = .ok st') :
    st'.outcome 0 =
      some (aloneOutcome st.config (lastNew st e (l ++ [x]) x) x.digest) := by
  obtain ⟨mid, hmid, r, hr, rfl⟩ := submitAll_concat.1 h
  have hnew := submitAll_markNew hl.of_append.1 hmid x.watchdog
  obtain ⟨hl, hx⟩ := hl.of_append
  obtain ⟨he, hxn⟩ := hx x (List.mem_singleton_self x)
  have hconfig := submitAll_config hmid
  rw [← hconfig] at he
  have hzero := standing_zero (submitAll_zero_name hfiled hl hmid) e
  have hfits : (mid.standing e 0).tally.Fits := by
    rw [hzero]
    exact zero_fits
  have hlast : lastNew st e (l ++ [x]) x = mid.markNew e 0 x.watchdog := by
    have hcount : (l.map Submission.watchdog).count x.watchdog + 1 = 1 ↔
        x.watchdog ∉ l.map Submission.watchdog := by
      rw [Nat.add_eq_right, List.count_eq_zero]
    rw [hnew, lastNew, List.map_append, List.count_append]
    simp only [List.map_cons, List.map_nil, List.count_singleton_self, hcount]
  have houtcome := nextPolicy_outcome he hxn hfits
  dsimp only at houtcome
  rw [hzero, hconfig] at houtcome
  rw [State.outcome, (submitted_of_ok hr he hxn).policy, Option.map_some, houtcome, hlast]
  rfl

theorem lastNew_perm {l' : List Submission} (hperm : l'.Perm l) :
    lastNew st e l' x = lastNew st e l x := by
  unfold lastNew
  rw [(hperm.map Submission.watchdog).count_eq]

/-- **When the order of submissions does not matter**: the name is not zero, or any of the
submissions could come last. -/
theorem orderIndependent_iff (hfiled : ∀ ps, st.policy n = some ps → Filed n ps)
    (hl : Concern st.config e n l) (h : submitAll st l = .ok st') :
    (∀ l', l'.Perm l → ∃ st'', submitAll st l' = .ok st'' ∧ st''.outcome n = st'.outcome n) ↔
      n ≠ 0 ∨ Alike st e l := by
  by_cases hn : n = 0
  · subst hn
    have hname : ∀ ps, st.policy 0 = some ps → ps.nameHash = 0 := fun ps hps => (hfiled ps hps).name
    have hfinal (l' : List Submission) (hperm : l'.Perm l) (y : Submission) (front)
        (hl' : l' = front ++ [y]) (s : State) (hs : submitAll st l' = .ok s) :
        s.outcome 0 = some (aloneOutcome st.config (lastNew st e l y) y.digest) := by
      subst hl'
      rw [submitAll_zero hname (hl.of_perm hperm) hs, lastNew_perm hperm]
    rw [or_iff_right (not_not.2 rfl)]
    constructor
    · intro hsame x hx y hy
      have hany (z : Submission) (hz : z ∈ l) :
          st'.outcome 0 = some (aloneOutcome st.config (lastNew st e l z) z.digest) := by
        obtain ⟨l₁, l₂, rfl⟩ := List.append_of_mem hz
        have hperm : (l₁ ++ l₂ ++ [z]).Perm (l₁ ++ z :: l₂) := by
          rw [List.append_assoc]
          exact (show (l₂ ++ [z]).Perm ([z] ++ l₂) from List.perm_append_comm).append_left l₁
        obtain ⟨s, hs, heq⟩ := hsame _ hperm
        rw [← heq]
        exact hfinal _ hperm z _ rfl s hs
      exact aloneOutcome_eq_iff.1 (Option.some.inj ((hany x hx).symm.trans (hany y hy)))
    · intro halike l' hperm
      obtain ⟨s, hs⟩ := submitAll_perm h hperm
      refine ⟨s, hs, ?_⟩
      rcases List.eq_nil_or_concat' l with rfl | ⟨front, x, hx⟩
      · obtain rfl := hperm.eq_nil
        rw [Except.ok.inj (hs.symm.trans h)]
      · rcases List.eq_nil_or_concat' l' with rfl | ⟨front', y, hy⟩
        · rw [hx] at hperm
          exact absurd hperm.symm.eq_nil (List.append_ne_nil_of_right_ne_nil _ (List.cons_ne_nil x []))
        · have hxl : x ∈ l := hx ▸ List.mem_append_right _ (List.mem_singleton_self x)
          have hyl : y ∈ l :=
            hperm.mem_iff.1 (hy ▸ List.mem_append_right _ (List.mem_singleton_self y))
          rw [hfinal l' hperm y front' hy s hs, hfinal l (.refl l) x front hx st' h,
            aloneOutcome_eq_iff.2 (halike y hyl x hxl)]
  · refine iff_of_true (fun l' hperm => ?_) (.inl hn)
    obtain ⟨s, hs⟩ := submitAll_perm h hperm
    refine ⟨s, hs, ?_⟩
    by_cases hnil : l = []
    · subst hnil
      obtain rfl := hperm.eq_nil
      rw [Except.ok.inj (hs.symm.trans h)]
    · have hnil' : l' ≠ [] := fun he => hnil (he ▸ hperm).symm.eq_nil
      rw [(submitAll_adds hn hfiled (hl.of_perm hperm) hs).written hnil',
        (submitAll_adds hn hfiled hl h).written hnil, outcomeAfter, outcomeAfter,
        tallyAfter_perm hperm]

end Submissions

end Ddns.WatchdogPolicy
