import Ddns.WatchdogPolicy.Quorum

/-!
# Submissions for one name

A list of attestations for one name in one epoch, submitted one after the other. Which of them are
accepted does not depend on their order (`submitAll_isOk`), and neither does which marks look new
after them (`submitAll_markNew`).
-/

namespace Ddns.WatchdogPolicy

open Tx

/-- An attestation, with the clock that its transaction reads. -/
structure Submission where
  clock : Clock
  submitter : Signer
  watchdog : Pubkey
  digest : Digest

/-- Submissions, one after the other; all of them have to be accepted. -/
def submitAll (st : State) : List Submission → Result WatchdogError State
  | [] => pure st
  | x :: xs => do
    let r ← submitAttestationDigest x.clock st x.submitter x.watchdog x.digest
    submitAll r.1 xs

/-- The submissions are attestations for one name in one epoch. -/
def Concern (cfg : PolicyConfig) (e : Nat) (n : Hash) (l : List Submission) : Prop :=
  ∀ x ∈ l, currentEpoch cfg x.clock = e ∧ x.digest.nameHash = n

/-- The submission passes the checks. -/
def Acceptable (st : State) (x : Submission) : Prop :=
  ∃ ws, checkDigest x.clock st x.submitter x.watchdog x.digest = .ok ws

section Lists

variable {st st' st'' : State} {x y : Submission} {l : List Submission} {e : Nat} {n : Hash}
  {w : Pubkey}

theorem submitAll_concat : submitAll st (l ++ [x]) = .ok st'' ↔
    ∃ st', submitAll st l = .ok st' ∧
      ∃ r, submitAttestationDigest x.clock st' x.submitter x.watchdog x.digest = .ok r ∧
        r.1 = st'' := by
  induction l generalizing st with
  | nil =>
    simp only [List.nil_append, submitAll, bind_eq_ok, pure_eq_ok]
    constructor
    · rintro ⟨r, hr, hpost⟩
      exact ⟨st, rfl, r, hr, hpost⟩
    · rintro ⟨_, rfl, r, hr, hpost⟩
      exact ⟨r, hr, hpost⟩
  | cons y l ih =>
    simp only [List.cons_append, submitAll, bind_eq_ok, ih]
    constructor
    · rintro ⟨r, hr, st', hst', hx⟩
      exact ⟨st', ⟨r, hr, hst'⟩, hx⟩
    · rintro ⟨st', ⟨r, hr, hst'⟩, hx⟩
      exact ⟨r, hr, st', hst', hx⟩

theorem Concern.of_append {cfg : PolicyConfig} {l₁ l₂ : List Submission}
    (h : Concern cfg e n (l₁ ++ l₂)) : Concern cfg e n l₁ ∧ Concern cfg e n l₂ :=
  ⟨fun x hx => h x (List.mem_append_left _ hx), fun x hx => h x (List.mem_append_right _ hx)⟩

theorem Concern.of_perm {cfg : PolicyConfig} {l' : List Submission} (h : Concern cfg e n l)
    (hperm : l'.Perm l) : Concern cfg e n l' :=
  fun x hx => h x (hperm.mem_iff.1 hx)

/-! ## One submission -/

/-- What an accepted submission for the name `n` in the epoch `e` writes. -/
structure Submitted (st st' : State) (e : Nat) (n : Hash) (x : Submission) : Prop where
  config : st'.config = st.config
  policy : st'.policy n = some (nextPolicy x.clock st x.watchdog x.digest)
  watchdog : ∃ ws, checkDigest x.clock st x.submitter x.watchdog x.digest = .ok ws ∧
    st'.watchdog = Function.update st.watchdog x.watchdog (some ws)
  mark : ∀ w, st'.mark e n w = if w = x.watchdog then
    some (openMark ((st.mark e n w).getD AttestationMark.zero) n e w x.clock.unixTimestamp)
    else st.mark e n w

theorem submitted_of_ok {r : State × AttestationDigestAccepted}
    (h : submitAttestationDigest x.clock st x.submitter x.watchdog x.digest = .ok r)
    (he : currentEpoch st.config x.clock = e) (hn : x.digest.nameHash = n) :
    Submitted st r.1 e n x := by
  subst he hn
  simp only [submitAttestationDigest, bind_eq_ok, pure_eq_ok] at h
  obtain ⟨ws, hws, rfl⟩ := h
  refine ⟨rfl, Function.update_self .., ⟨ws, hws, rfl⟩, fun w => ?_⟩
  simp only [Updates.update₃_apply, true_and]
  split
  · next heq => rw [heq]
  · rfl

theorem acceptable_iff : Acceptable st x ↔
    ∃ r, submitAttestationDigest x.clock st x.submitter x.watchdog x.digest = .ok r := by
  simp only [Acceptable, submitAttestationDigest, bind_eq_ok, pure_eq_ok]
  constructor
  · rintro ⟨ws, hws⟩
    exact ⟨_, ws, hws, rfl⟩
  · rintro ⟨_, ws, hws, -⟩
    exact ⟨ws, hws⟩

/-- A watchdog that was seen enabled stays so. -/
theorem openWatchdog_again {ws ws' : WatchdogState} {now now' : Int}
    (h : openWatchdog ws w now = .ok ws') : ∃ ws'', openWatchdog ws' w now' = .ok ws'' := by
  simp only [openWatchdog, bind_eq_ok, require_eq_ok, exists_unit, pure_eq_ok] at h ⊢
  obtain ⟨henabled, rfl⟩ := h
  generalize (if ws.watchdog = Pubkey.default then _ else ws) = opened at henabled ⊢
  refine ⟨_, ?_, rfl⟩
  split
  · rfl
  · exact henabled

/-- Whether a watchdog is enabled does not depend on the time. -/
theorem openWatchdog_any {ws ws' : WatchdogState} {now : Int} (now' : Int)
    (h : openWatchdog ws w now = .ok ws') : ∃ ws'', openWatchdog ws w now' = .ok ws'' := by
  simp only [openWatchdog, bind_eq_ok, require_eq_ok, exists_unit, pure_eq_ok] at h ⊢
  exact ⟨_, h.1, rfl⟩

/-- An accepted submission does not change which others are acceptable. -/
theorem Submitted.acceptable (h : Submitted st st' e n x) : Acceptable st' y ↔ Acceptable st y := by
  obtain ⟨ws, hws, hwatchdog⟩ := h.watchdog
  simp only [checkDigest, bind_eq_ok, require_eq_ok, exists_unit] at hws
  obtain ⟨-, -, -, -, -, -, hopen⟩ := hws
  simp only [Acceptable, checkDigest, bind_eq_ok, require_eq_ok, exists_unit, h.config, hwatchdog,
    exists_and_left]
  by_cases hw : y.watchdog = x.watchdog
  · have hboth : (∃ u, openWatchdog ws x.watchdog y.clock.unixTimestamp = .ok u) ↔
        ∃ u, openWatchdog ((st.watchdog x.watchdog).getD WatchdogState.zero) x.watchdog
          y.clock.unixTimestamp = .ok u :=
      iff_of_true (openWatchdog_again hopen) (openWatchdog_any _ hopen)
    rw [hw, Function.update_self, Option.getD_some, hboth]
  · rw [Function.update_of_ne hw]

/-! ## Lists of submissions -/

/-- **Which lists are accepted**: those whose submissions are all acceptable in the beginning. -/
theorem submitAll_isOk : (∃ st', submitAll st l = .ok st') ↔ ∀ x ∈ l, Acceptable st x := by
  induction l generalizing st with
  | nil => exact iff_of_true ⟨st, rfl⟩ nofun
  | cons x l ih =>
    simp only [submitAll, bind_eq_ok, List.forall_mem_cons]
    constructor
    · rintro ⟨st'', r, hr, hrest⟩
      refine ⟨acceptable_iff.2 ⟨r, hr⟩, fun y hy => ?_⟩
      exact (submitted_of_ok hr rfl rfl).acceptable.1 (ih.1 ⟨st'', hrest⟩ y hy)
    · rintro ⟨hx, hl⟩
      obtain ⟨r, hr⟩ := acceptable_iff.1 hx
      obtain ⟨st'', hrest⟩ := ih.2 fun y hy =>
        (submitted_of_ok hr rfl rfl).acceptable.2 (hl y hy)
      exact ⟨st'', r, hr, hrest⟩

/-- So the submissions are accepted in every order. -/
theorem submitAll_perm {l' : List Submission} (h : submitAll st l = .ok st') (hperm : l'.Perm l) :
    ∃ st'', submitAll st l' = .ok st'' :=
  submitAll_isOk.2 fun x hx => submitAll_isOk.1 ⟨st', h⟩ x (hperm.mem_iff.1 hx)

theorem submitAll_config (h : submitAll st l = .ok st') : st'.config = st.config := by
  induction l using List.reverseRecOn generalizing st' with
  | nil => rw [pure_eq_ok.1 h]
  | append_singleton l x ih =>
    obtain ⟨mid, hmid, r, hr, rfl⟩ := submitAll_concat.1 h
    rw [(submitted_of_ok hr rfl rfl).config, ih hmid]

/-- A mark still looks new after a submission if it did before and is another watchdog's, or the
epoch is the zero one. -/
theorem Submitted.markNew (h : Submitted st st' e n x) (w : Pubkey) :
    st'.markNew e n w = (st.markNew e n w && (decide (e = 0) || decide (w ≠ x.watchdog))) := by
  unfold State.markNew
  rw [h.mark]
  by_cases hw : w = x.watchdog
  · rw [if_pos hw, Option.getD_some]
    unfold openMark
    cases hnew : ((st.mark e n w).getD AttestationMark.zero).isNew with
    | true => simp [AttestationMark.isNew, hw]
    | false => simp [hnew]
  · rw [if_neg hw]
    simp [hw]

/-- The marks that look new after accepted submissions. -/
theorem submitAll_markNew (hl : Concern st.config e n l) (h : submitAll st l = .ok st')
    (w : Pubkey) :
    st'.markNew e n w =
      (st.markNew e n w && (decide (e = 0) || decide (w ∉ l.map Submission.watchdog))) := by
  induction l using List.reverseRecOn generalizing st' with
  | nil =>
    rw [← pure_eq_ok.1 h]
    simp
  | append_singleton l x ih =>
    obtain ⟨mid, hmid, r, hr, rfl⟩ := submitAll_concat.1 h
    obtain ⟨hl, hx⟩ := hl.of_append
    obtain ⟨he, hn⟩ := hx x (List.mem_singleton_self x)
    rw [← submitAll_config hmid] at he
    rw [(submitted_of_ok hr he hn).markNew, ih hl hmid, List.map_append, List.map_cons,
      List.map_nil]
    by_cases hz : e = 0
    · simp [hz]
    · simp [hz, not_or, Bool.and_assoc]

end Lists

end Ddns.WatchdogPolicy
