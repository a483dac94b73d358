import Ddns.WatchdogPolicy.Order

/-!
# The status with a quorum

Once `min_watchdogs` different watchdogs have attested for a name in an epoch, each attestation
leaves the status that the thresholds give the risk of the counters. The counter behind the gate may
count too many (at the epoch 0) and stops at `2 ^ 16 - 1`, but for a name that is not zero it never
counts too few (`Gated`). The policy of the zero name starts anew at every attestation, and its gate
may stay closed (`classified_iff`).
-/

namespace Ddns.WatchdogPolicy

open Tx Runs

/-- The step `x` after the steps `l`, an attestation for the name `n`, leaves the status of the risk
once enough different watchdogs have attested. -/
def Classified (l : List Step) (x : Step) (n : Hash) : Prop :=
  x.pre.accounts.config.minWatchdogs ≤ (attesters (chainEpoch x.pre) n (l ++ [x])).card →
    ∃ ps, x.post.accounts.policy n = some ps ∧
      ps.status = classify x.pre.accounts.config ps.tally ∧ ps.tally.riskBps ≤ 10000

/-- An attestation for the zero name, by `w` when the watchdogs `A` have attested already, leaves the
right status: one watchdog is a quorum and its mark looks new, or the status of this attestation
alone is `Ok`. -/
def ClassifiedAlone (cfg : PolicyConfig) (A : Finset Pubkey) (e : Nat) (w : Pubkey) (d : Digest) :
    Prop :=
  cfg.minWatchdogs ≤ (insert w A).card →
    (cfg.minWatchdogs = 1 ∧ (w ∉ A ∨ e = 0)) ∨
      classify cfg (NamePolicyState.zero.tally.record true d) = .ok

/-- What holds of the policies in every run: their fields fit, and those of names that are not zero
count no fewer than the different watchdogs, as far as the counter goes. -/
structure Gated (c : Chain State) (l : List Step) : Prop where
  kept : Kept c l
  width : c.accounts.config.minWatchdogs < 2 ^ 16
  fits : ∀ n ps, c.accounts.policy n = some ps → ps.tally.Fits
  enough : ∀ n ps, n ≠ 0 → c.accounts.policy n = some ps →
    min (attesters ps.lastEpochId n l).card (2 ^ 16 - 1) ≤ ps.tally.distinct

section Steps

variable {c : Chain State} {l : List Step} {x : Step} {w : Pubkey} {d : Digest} {n : Hash}
  {a : Action Instr}

theorem Gated.filed (h : Gated c l) (n : Hash) (ps : NamePolicyState)
    (hps : c.accounts.policy n = some ps) : Filed n ps :=
  ⟨h.kept.policyName n ps hps, h.fits n ps hps⟩

/-- What the policy that a submission finds counts, at least. -/
theorem Gated.standing (h : Gated c l) (hn : n ≠ 0) :
    min (attesters (chainEpoch c) n l).card (2 ^ 16 - 1) ≤
      (c.accounts.standing (chainEpoch c) n).tally.distinct := by
  by_cases hempty : attesters (chainEpoch c) n l = ∅
  · rw [hempty, Finset.card_empty, Nat.zero_min]
    exact Nat.zero_le _
  · obtain ⟨ps, hps, hle⟩ := h.kept.latest (chainEpoch c) n hempty
    have he : ps.lastEpochId = chainEpoch c := Nat.le_antisymm (h.kept.policyEpoch n ps hps) hle
    have hz : ps.nameHash ≠ 0 := (h.kept.policyName n ps hps).trans_ne hn
    have henough := h.enough n ps hn hps
    rw [State.standing, hps, Option.getD_some, openPolicy_of_same hz he, ← he]
    exact henough

/-- What an attestation leaves of the policy of its name. -/
theorem Gated.outcome (h : Gated x.pre l) :
    let t := (x.pre.accounts.standing (chainEpoch x.pre) d.nameHash).tally.record
      (x.pre.accounts.markNew (chainEpoch x.pre) d.nameHash w) d
    (nextPolicy x.pre.clock x.pre.accounts w d).outcome = ⟨t, t.confidence,
      settle x.pre.accounts.config t
        (x.pre.accounts.standing (chainEpoch x.pre) d.nameHash).status⟩ :=
  nextPolicy_outcome (x := ⟨x.pre.clock, exampleWatchdog, w, d⟩) rfl rfl
    (standing_fits (h.filed d.nameHash))

theorem Gated.tally (h : Gated x.pre l) : (nextPolicy x.pre.clock x.pre.accounts w d).tally =
    (x.pre.accounts.standing (chainEpoch x.pre) d.nameHash).tally.record
      (x.pre.accounts.markNew (chainEpoch x.pre) d.nameHash w) d :=
  congrArg Outcome.tally h.outcome

theorem Gated.status (h : Gated x.pre l) : (nextPolicy x.pre.clock x.pre.accounts w d).status =
    settle x.pre.accounts.config (nextPolicy x.pre.clock x.pre.accounts w d).tally
      (x.pre.accounts.standing (chainEpoch x.pre) d.nameHash).status := by
  rw [h.tally]
  exact congrArg Outcome.status h.outcome

/-- The counter after an attestation for a name that is not zero. -/
theorem Gated.counter (h : Gated x.pre l) (hx : Attests x w d) (hn : d.nameHash ≠ 0) :
    min (attesters (chainEpoch x.pre) d.nameHash (l ++ [x])).card (2 ^ 16 - 1) ≤
      (nextPolicy x.pre.clock x.pre.accounts w d).tally.distinct := by
  have hstanding := h.standing hn
  have hfits := standing_fits (e := chainEpoch x.pre) (h.filed d.nameHash)
  rw [attesters_self hx, h.tally, h.kept.markNew]
  by_cases hw : w ∈ attesters (chainEpoch x.pre) d.nameHash l
  · rw [Finset.insert_eq_of_mem hw]
    exact hstanding.trans (record_distinct_ge hfits _ d)
  · rw [Finset.card_insert_of_notMem hw, decide_eq_true (.inl hw)]
    show _ ≤ min ((x.pre.accounts.standing (chainEpoch x.pre) d.nameHash).tally.distinct + 1)
      (2 ^ 16 - 1)
    omega

theorem Gated.attests (h : Gated x.pre l) (hx : Attests x w d) : Gated x.post (l ++ [x]) := by
  refine ⟨h.kept.attests hx, by rw [hx.config]; exact h.width, fun n ps hps => ?_,
    fun n ps hn hps => ?_⟩
  · rcases hx.policy_some hps with ⟨-, rfl⟩ | ⟨-, hold⟩
    · rw [h.tally]
      exact (standing_fits (h.filed d.nameHash)).record _ _
    · exact h.fits n ps hold
  · rcases hx.policy_some hps with ⟨rfl, rfl⟩ | ⟨hne, hold⟩
    · rw [(nextPolicy_eq x.pre.clock x.pre.accounts w d).1]
      exact h.counter hx hn
    · rw [attesters_other hx fun hkey => hne hkey.2]
      exact h.enough n ps hn hold

theorem Gated.quiet (h : Gated x.pre l) (hx : Quiet x) : Gated x.post (l ++ [x]) := by
  refine ⟨h.kept.quiet hx, by rw [hx.minWatchdogs]; exact h.width, ?_, fun n ps hn hps => ?_⟩
  · rw [hx.policy]
    exact h.fits
  · rw [hx.policy] at hps
    rw [attesters_quiet hx]
    exact h.enough n ps hn hps

/-- **Step lemma**: every step keeps the gates. -/
theorem step_gated (h : Gated c l) (a : Action Instr) :
    Gated (step c a).1 (l ++ [event step c a]) := by
  rcases step_cases c a with ⟨w, d, hpass⟩ | ⟨hquiet, -⟩
  · exact Gated.attests (x := event step c a) h (event_attests hpass)
  · exact Gated.quiet (x := event step c a) h hquiet

/-- The status that is settled is that of the risk, if the gate is open or the old one is the same. -/
theorem settle_eq_classify_iff {cfg : PolicyConfig} {t : Tally} {old : PolicyStatus}
    (hpos : 0 < t.weight) :
    settle cfg t old = classify cfg t ↔ cfg.minWatchdogs ≤ t.distinct ∨ classify cfg t = old := by
  unfold settle
  by_cases hgate : cfg.minWatchdogs ≤ t.distinct
  · rw [if_pos ⟨hgate, hpos⟩]
    exact iff_of_true rfl (.inl hgate)
  · rw [if_neg fun h => hgate h.1, or_iff_right hgate, eq_comm]

/-- One attestation opens the gate of a new policy if it is a quorum. -/
theorem alone_gate_iff {cfg : PolicyConfig} (b : Bool) (d : Digest) :
    cfg.minWatchdogs ≤ (NamePolicyState.zero.tally.record b d).distinct ↔
      cfg.minWatchdogs = 1 ∧ b = true := by
  have hpos := cfg.minWatchdogs_pos
  cases b with
  | false =>
    show cfg.minWatchdogs ≤ 0 ↔ _
    exact iff_of_false (by omega) (fun h => Bool.false_ne_true h.2)
  | true =>
    show cfg.minWatchdogs ≤ 1 ↔ _
    rw [and_iff_left rfl]
    omega

/-- **Which attestations are classified right.** -/
theorem attests_classified (h : Gated x.pre l) (hx : Attests x w d) :
    Classified l x d.nameHash ↔ d.nameHash ≠ 0 ∨ ClassifiedAlone x.pre.accounts.config
      (attesters (chainEpoch x.pre) d.nameHash l) (chainEpoch x.pre) w d := by
  have hpolicy : x.post.accounts.policy d.nameHash =
      some (nextPolicy x.pre.clock x.pre.accounts w d) := by
    rw [hx.policy]
    exact Function.update_self ..
  have hpos : 0 < (nextPolicy x.pre.clock x.pre.accounts w d).tally.weight := by
    rw [h.tally]
    exact record_weight_pos ..
  have hclassified : Classified l x d.nameHash ↔
      (x.pre.accounts.config.minWatchdogs ≤
        (attesters (chainEpoch x.pre) d.nameHash (l ++ [x])).card →
      x.pre.accounts.config.minWatchdogs ≤
          (nextPolicy x.pre.clock x.pre.accounts w d).tally.distinct ∨
        classify x.pre.accounts.config (nextPolicy x.pre.clock x.pre.accounts w d).tally =
          (x.pre.accounts.standing (chainEpoch x.pre) d.nameHash).status) := by
    rw [← settle_eq_classify_iff hpos, ← h.status]
    constructor
    · intro hlaw hquorum
      obtain ⟨ps, hps, heq, -⟩ := hlaw hquorum
      obtain rfl := Option.some.inj (hpolicy.symm.trans hps)
      exact heq
    · exact fun hlaw hquorum => ⟨_, hpolicy, hlaw hquorum, riskBps_le _⟩
  rw [hclassified]
  by_cases hn : d.nameHash = 0
  · have hstanding : x.pre.accounts.standing (chainEpoch x.pre) d.nameHash =
        { NamePolicyState.zero with lastEpochId := chainEpoch x.pre } := by
      rw [hn]
      exact standing_zero (h.kept.policyName 0) _
    have hnew : x.pre.accounts.markNew (chainEpoch x.pre) d.nameHash w = true ↔
        w ∉ attesters (chainEpoch x.pre) d.nameHash l ∨ chainEpoch x.pre = 0 := by
      rw [h.kept.markNew, decide_eq_true_iff]
    rw [or_iff_right (not_not.2 hn), h.tally, hstanding, attesters_self hx]
    unfold ClassifiedAlone
    rw [← hnew, ← alone_gate_iff _ d]
    exact Iff.rfl
  · refine iff_of_true (fun hquorum => .inl ?_) (.inl hn)
    have hcounter := h.counter hx hn
    have hwidth := h.width
    omega

end Steps

/-! ## Every run -/

theorem genesis_gated (config : PolicyConfig) (hwidth : config.minWatchdogs < 2 ^ 16)
    (clock : Clock) : Gated ⟨clock, State.genesis config⟩ [] :=
  ⟨genesis_kept config clock, hwidth, nofun, nofun⟩

/-- **Order and risk.** A list of attestations for one name, accepted in one epoch, leaves the same
counters, flags, confidence and status in every order exactly if the name is not zero or all of them
are alike. And an attestation in a run, once enough different watchdogs have attested, leaves the
status of the risk exactly if the name is not zero or it is classified right alone. -/
theorem order_and_risk_iff (st st' : State) (e : ℕ) (n : Hash) (l : List Submission)
    (config : PolicyConfig) (clock : Clock) (pre : List (Action Instr)) (a : Action Instr)
    (w : Pubkey) (d : Digest) :
    ((∀ ps, st.policy n = some ps → Filed n ps) → Concern st.config e n l →
      submitAll st l = .ok st' →
      ((∀ l', l'.Perm l → ∃ st'', submitAll st l' = .ok st'' ∧ st''.outcome n = st'.outcome n) ↔
        n ≠ 0 ∨ Alike st e l)) ∧
    (config.minWatchdogs < 2 ^ 16 →
      let c := exec step ⟨clock, State.genesis config⟩ pre
      let l := trace step ⟨clock, State.genesis config⟩ pre
      Passes c a w d → (Classified l (event step c a) d.nameHash ↔
        d.nameHash ≠ 0 ∨ ClassifiedAlone c.accounts.config (attesters (chainEpoch c) d.nameHash l)
          (chainEpoch c) w d)) := by
  refine ⟨orderIndependent_iff, ?_⟩
  intro hwidth c l hpass
  have hgated : Gated c l := history_of_step (J := Gated) (fun _ _ a h => step_gated h a)
    (genesis_gated config hwidth clock) pre
  exact attests_classified (x := event step c a) hgated (event_attests hpass)

/-! ## Two attestations -/

/-- Another watchdog. -/
def exampleOther : Signer := ⟨3, three_ne_default⟩

/-- In the epoch 1 one watchdog observes that the name resolves, and the other a mismatch. -/
def exampleSubmissions (n : Hash) : List Submission :=
  [⟨⟨10, 0⟩, exampleWatchdog, 2, ⟨1, n, 1, 0, 0, 10000, 0, 0, 0⟩⟩,
    ⟨⟨10, 0⟩, exampleOther, 3, ⟨1, n, 2, 1, 0, 10000, 0, 0, 0⟩⟩]

/-- What submissions leave of a name in a fresh deployment. -/
def exampleOutcome (n : Hash) (l : List Submission) : Option Outcome :=
  match submitAll (State.genesis exampleConfig) l with
  | .ok st => st.outcome n
  | .error _ => none

theorem exampleOutcome_of_ok {n : Hash} {l : List Submission} {st : State}
    (h : submitAll (State.genesis exampleConfig) l = .ok st) : exampleOutcome n l = st.outcome n := by
  unfold exampleOutcome
  rw [h]

theorem exampleSubmissions_isOk {n : Hash}
    (h : (exampleOutcome n (exampleSubmissions n)).isSome = true) :
    ∃ st, submitAll (State.genesis exampleConfig) (exampleSubmissions n) = .ok st := by
  unfold exampleOutcome at h
  split at h
  · next st hst => exact ⟨st, hst⟩
  · cases h

theorem exampleSubmissions_concern (n : Hash) : Concern exampleConfig 1 n (exampleSubmissions n) := by
  simp [Concern, exampleSubmissions, currentEpoch, exampleConfig]

/-- For the name 7 the two attestations may come in any order. -/
theorem exampleSubmissions_order : ∃ st', submitAll (State.genesis exampleConfig)
      (exampleSubmissions 7) = .ok st' ∧
    ∀ l', l'.Perm (exampleSubmissions 7) →
      ∃ st'', submitAll (State.genesis exampleConfig) l' = .ok st'' ∧
        st''.outcome 7 = st'.outcome 7 := by
  obtain ⟨st', h⟩ := exampleSubmissions_isOk (n := 7) (by decide +kernel)
  have horder := (order_and_risk_iff (State.genesis exampleConfig) st' 1 7 (exampleSubmissions 7)
    exampleConfig ⟨10, 0⟩ [] (.elapse 0 0) 2 ⟨1, 7, 1, 0, 0, 10000, 0, 0, 0⟩).1
  exact ⟨st', h, (horder nofun (exampleSubmissions_concern 7) h).2 (.inl (by decide))⟩

/-- For the zero name the last of the two decides: the failing name looks fine if the mismatch came
first. -/
theorem exampleSubmissions_zero :
    ¬∀ st e n l st', (∀ ps, st.policy n = some ps → Filed n ps) → Concern st.config e n l →
      submitAll st l = .ok st' → ∀ l', l'.Perm l →
        ∃ st'', submitAll st l' = .ok st'' ∧ st''.outcome n = st'.outcome n := by
  intro hlaw
  obtain ⟨st', h⟩ := exampleSubmissions_isOk (n := 0) (by decide +kernel)
  obtain ⟨st'', h', heq⟩ := hlaw (State.genesis exampleConfig) 1 0 (exampleSubmissions 0) st' nofun
    (exampleSubmissions_concern 0) h _ (List.reverse_perm _)
  rw [← exampleOutcome_of_ok h, ← exampleOutcome_of_ok h'] at heq
  exact absurd heq (by decide +kernel)

end Ddns.WatchdogPolicy
