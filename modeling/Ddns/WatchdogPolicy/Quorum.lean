import Ddns.WatchdogPolicy.Program
import Ddns.Lib.Run
import Ddns.Lib.Updates
import Mathlib.Data.Finset.Card

/-!
# Counting the watchdogs of a name

The log of an epoch and the policy of a name count the different watchdogs, by marks that exist once
a watchdog has attested. The zero of an account doubles as "new", and so the counts go wrong at the
epoch 0, whose marks and log always look new, and at the name hash 0, whose policy does; both
counters also stop at `2 ^ 16 - 1`. `counts_iff` says exactly which attestation miscounts, and
`quorum_iff` lifts it to runs: without one, both counters are the number of different watchdogs,
and no status changes before `min_watchdogs` of them have attested.
-/

namespace Ddns.WatchdogPolicy

open Tx Runs

/-- A step of the program. -/
abbrev Step :=
  Event (Chain State) (Action Instr) (Option (Result WatchdogError (Option AttestationDigestAccepted)))

/-- The watchdog whose attestation for the name and the epoch a step accepts. -/
def acceptedBy (e : Nat) (n : Hash) (x : Step) : Option Pubkey :=
  match x.out with
  | some (.ok (some ev)) => if ev.epochId = e ∧ ev.nameHash = n then some ev.watchdog else none
  | _ => none

/-- The watchdogs whose attestations for the name were accepted in the epoch. -/
def attesters (e : Nat) (n : Hash) (l : List Step) : Finset Pubkey :=
  (l.filterMap (acceptedBy e n)).toFinset

/-- The epoch of a chain. -/
def chainEpoch (c : Chain State) : Nat := currentEpoch c.accounts.config c.clock

/-- The status of a name, `Ok` before its policy exists. -/
def State.status (st : State) (n : Hash) : PolicyStatus :=
  ((st.policy n).map NamePolicyState.status).getD .ok

/-- The counters are the numbers of different watchdogs, the policy's those of its last epoch. -/
structure Counted (st : State) (l : List Step) : Prop where
  policy : ∀ n ps, st.policy n = some ps →
    ps.distinctWatchdogsLastEpoch = (attesters ps.lastEpochId n l).card
  log : ∀ e n al, st.log e n = some al → al.distinctWatchdogs = (attesters e n l).card

/-- The step `x` after the steps `l` changes the status of a name only with enough different
watchdogs, its own included. -/
def Quorum (l : List Step) (x : Step) : Prop :=
  ∀ n, x.post.accounts.status n ≠ x.pre.accounts.status n →
    x.pre.accounts.config.minWatchdogs ≤ (attesters (chainEpoch x.pre) n (l ++ [x])).card

/-- **The quorum law** of a run: in each of its states the counters are right, and no step changes a
status without the quorum. -/
def QuorumLaw (c : Chain State) (is : List (Action Instr)) : Prop :=
  (∀ pre post, is = pre ++ post →
    Counted (exec step c pre).accounts (trace step c pre)) ∧
  ∀ pre a post, is = pre ++ a :: post →
    Quorum (trace step c pre) (event step (exec step c pre) a)

/-- An attestation by `w` for the name `n` in the epoch `e`, when the watchdogs `A` have attested
already, counts right: it is the first, or neither the epoch nor the name is zero and the counter
has room, or both are zero and `w` is the only one. -/
def CountsRight (A : Finset Pubkey) (e : Nat) (n : Hash) (w : Pubkey) : Prop :=
  A = ∅ ∨ (e ≠ 0 ∧ n ≠ 0 ∧ (w ∈ A ∨ A.card < 2 ^ 16 - 1)) ∨ (e = 0 ∧ n = 0 ∧ A = {w})

/-- The action is an attestation that passes the checks and is not counted right. -/
def Miscounts (c : Chain State) (l : List Step) (a : Action Instr) : Prop :=
  ∃ s w d ws, a = .submit (.submitAttestationDigest s w d) ∧
    checkDigest c.clock c.accounts s w d = .ok ws ∧
    ¬CountsRight (attesters (chainEpoch c) d.nameHash l) (chainEpoch c) d.nameHash w

/-! ## What a submission writes -/

section Writes

variable {ps : NamePolicyState} {al : AttestationLog} {n : Hash} {e : Nat}

theorem openPolicy_of_new (h : ps.nameHash = 0) : openPolicy ps n e =
    { NamePolicyState.zero with nameHash := n, lastEpochId := e } := by
  unfold openPolicy
  dsimp only
  rw [if_pos h]
  exact if_neg (not_not.2 rfl)

theorem openPolicy_of_same (hz : ps.nameHash ≠ 0) (he : ps.lastEpochId = e) :
    openPolicy ps n e = ps := by
  unfold openPolicy
  dsimp only
  rw [if_neg hz]
  exact if_neg (not_not.2 he)

theorem openPolicy_of_older (hz : ps.nameHash ≠ 0) (he : ps.lastEpochId ≠ e) :
    openPolicy ps n e = { ps with
      rollingOk := 0
      rollingFail := 0
      rollingMismatch := 0
      distinctWatchdogsLastEpoch := 0
      reasonFlags := 0
      lastEpochId := e } := by
  unfold openPolicy
  dsimp only
  rw [if_neg hz]
  exact if_pos he

theorem openPolicy_lastEpochId (ps : NamePolicyState) (n : Hash) (e : Nat) :
    (openPolicy ps n e).lastEpochId = e := by
  by_cases hz : ps.nameHash = 0
  · rw [openPolicy_of_new hz]
  · by_cases he : ps.lastEpochId = e
    · rw [openPolicy_of_same hz he]
      exact he
    · rw [openPolicy_of_older hz he]

theorem openPolicy_nameHash (h : ps.nameHash = 0 ∨ ps.nameHash = n) :
    (openPolicy ps n e).nameHash = n := by
  by_cases hz : ps.nameHash = 0
  · rw [openPolicy_of_new hz]
  · have hn : ps.nameHash = n := h.resolve_left hz
    by_cases he : ps.lastEpochId = e
    · rw [openPolicy_of_same hz he]
      exact hn
    · rw [openPolicy_of_older hz he]
      exact hn

/-- A new policy starts from `Ok`. -/
theorem openPolicy_status (ps : NamePolicyState) (n : Hash) (e : Nat) :
    (openPolicy ps n e).status = if ps.nameHash = 0 then .ok else ps.status := by
  by_cases hz : ps.nameHash = 0
  · rw [openPolicy_of_new hz, if_pos hz]
    rfl
  · rw [if_neg hz]
    by_cases he : ps.lastEpochId = e
    · rw [openPolicy_of_same hz he]
    · rw [openPolicy_of_older hz he]

/-- A new policy, and one of an older epoch, count from zero. -/
theorem openPolicy_distinct (ps : NamePolicyState) (n : Hash) (e : Nat) :
    (openPolicy ps n e).distinctWatchdogsLastEpoch =
      if ps.nameHash = 0 ∨ ps.lastEpochId ≠ e then 0 else ps.distinctWatchdogsLastEpoch := by
  by_cases hz : ps.nameHash = 0
  · rw [openPolicy_of_new hz, if_pos (.inl hz)]
    rfl
  · by_cases he : ps.lastEpochId = e
    · rw [openPolicy_of_same hz he, if_neg (not_or.2 ⟨hz, not_not.2 he⟩)]
    · rw [openPolicy_of_older hz he, if_pos (.inr he)]

/-- The counter of a record, one higher for a new mark. -/
def bump (markNew : Bool) (k : Nat) : Nat := if markNew then Checked.satAdd 16 k 1 else k

theorem policyRecord_eq (ps : NamePolicyState) (b : Bool) (d : Digest) (now : Int) :
    (ps.record b d now).distinctWatchdogsLastEpoch = bump b ps.distinctWatchdogsLastEpoch ∧
      (ps.record b d now).lastEpochId = ps.lastEpochId ∧
      (ps.record b d now).nameHash = ps.nameHash ∧ (ps.record b d now).status = ps.status := by
  unfold NamePolicyState.record bump
  cases b <;> dsimp only <;> split <;> try split
  all_goals exact ⟨rfl, rfl, rfl, rfl⟩

theorem logRecord_eq (al : AttestationLog) (b : Bool) (d : Digest) :
    (al.record b d).distinctWatchdogs = bump b al.distinctWatchdogs ∧
      (al.record b d).epochId = al.epochId := by
  unfold AttestationLog.record bump
  cases b <;> dsimp only <;> split <;> try split
  all_goals exact ⟨rfl, rfl⟩

theorem publish_eq (ps : NamePolicyState) :
    ps.publish.distinctWatchdogsLastEpoch = ps.distinctWatchdogsLastEpoch ∧
      ps.publish.lastEpochId = ps.lastEpochId ∧ ps.publish.nameHash = ps.nameHash ∧
      ps.publish.status = ps.status := by
  unfold NamePolicyState.publish
  split <;> exact ⟨rfl, rfl, rfl, rfl⟩

/-- Below the quorum the status stays. -/
theorem nextStatus_eq {cfg : PolicyConfig} (h : ps.distinctWatchdogsLastEpoch < cfg.minWatchdogs) :
    nextStatus cfg ps = ps.status := by
  unfold nextStatus
  rw [if_neg (by omega)]

end Writes

section Next

variable {clock : Clock} {st : State} {w : Pubkey} {d : Digest}

/-- Whether the mark of the watchdog looks new. -/
def State.markNew (st : State) (e : Nat) (n : Hash) (w : Pubkey) : Bool :=
  ((st.mark e n w).getD AttestationMark.zero).isNew

theorem nextPolicy_eq (clock : Clock) (st : State) (w : Pubkey) (d : Digest) :
    let e := currentEpoch st.config clock
    let old := (st.policy d.nameHash).getD NamePolicyState.zero
    (nextPolicy clock st w d).lastEpochId = e ∧
      (nextPolicy clock st w d).nameHash = (openPolicy old d.nameHash e).nameHash ∧
      (nextPolicy clock st w d).distinctWatchdogsLastEpoch =
        bump (st.markNew e d.nameHash w)
          (openPolicy old d.nameHash e).distinctWatchdogsLastEpoch := by
  intro e old
  obtain ⟨hdistinct, hlast, hname, -⟩ := policyRecord_eq (openPolicy old d.nameHash e)
    (st.markNew e d.nameHash w) d clock.unixTimestamp
  unfold nextPolicy
  dsimp only
  refine ⟨?_, ?_, ?_⟩
  · rw [(publish_eq _).2.1]
    exact hlast.trans (openPolicy_lastEpochId ..)
  · rw [(publish_eq _).2.2.1]
    exact hname
  · rw [(publish_eq _).1]
    exact hdistinct

/-- A submission changes the status only with enough watchdogs, unless the policy is new. -/
theorem nextPolicy_status (h : (nextPolicy clock st w d).distinctWatchdogsLastEpoch <
      st.config.minWatchdogs) :
    (nextPolicy clock st w d).status =
      (openPolicy ((st.policy d.nameHash).getD NamePolicyState.zero) d.nameHash
        (currentEpoch st.config clock)).status := by
  unfold nextPolicy at h ⊢
  dsimp only at h ⊢
  rw [(publish_eq _).1] at h
  rw [(publish_eq _).2.2.2]
  generalize hopened : openPolicy ((st.policy d.nameHash).getD NamePolicyState.zero) d.nameHash
    (currentEpoch st.config clock) = opened at h ⊢
  have hbelow : (opened.record (st.markNew (currentEpoch st.config clock) d.nameHash w) d
    clock.unixTimestamp).distinctWatchdogsLastEpoch < st.config.minWatchdogs := h
  exact (nextStatus_eq hbelow).trans (policyRecord_eq ..).2.2.2

theorem nextLog_eq (clock : Clock) (st : State) (w : Pubkey) (d : Digest) :
    let e := currentEpoch st.config clock
    let old := (st.log e d.nameHash).getD AttestationLog.zero
    (nextLog clock st w d).epochId = (openLog old d.nameHash e).epochId ∧
      (nextLog clock st w d).distinctWatchdogs =
        bump (st.markNew e d.nameHash w) (openLog old d.nameHash e).distinctWatchdogs := by
  intro e old
  obtain ⟨hdistinct, hepoch⟩ := logRecord_eq (openLog old d.nameHash e)
    (st.markNew e d.nameHash w) d
  exact ⟨hepoch, hdistinct⟩

end Next

/-! ## One step -/

/-- The step accepts an attestation by `w`. -/
structure Attests (x : Step) (w : Pubkey) (d : Digest) : Prop where
  out : ∃ ev, x.out = some (.ok (some ev)) ∧ ev.epochId = chainEpoch x.pre ∧
    ev.nameHash = d.nameHash ∧ ev.watchdog = w
  epoch : chainEpoch x.post = chainEpoch x.pre
  config : x.post.accounts.config = x.pre.accounts.config
  policy : x.post.accounts.policy = Function.update x.pre.accounts.policy d.nameHash
    (some (nextPolicy x.pre.clock x.pre.accounts w d))
  log : x.post.accounts.log = Function.update x.pre.accounts.log (chainEpoch x.pre)
    (Function.update (x.pre.accounts.log (chainEpoch x.pre)) d.nameHash
      (some (nextLog x.pre.clock x.pre.accounts w d)))
  mark : x.post.accounts.mark = Function.update x.pre.accounts.mark (chainEpoch x.pre)
    (Function.update (x.pre.accounts.mark (chainEpoch x.pre)) d.nameHash
      (Function.update (x.pre.accounts.mark (chainEpoch x.pre) d.nameHash) w
        (some (openMark ((x.pre.accounts.mark (chainEpoch x.pre) d.nameHash w).getD
          AttestationMark.zero) d.nameHash (chainEpoch x.pre) w x.pre.clock.unixTimestamp))))

/-- The step accepts nothing. -/
structure Quiet (x : Step) : Prop where
  out : ∀ ev, x.out ≠ some (.ok (some ev))
  epoch : chainEpoch x.pre ≤ chainEpoch x.post
  minWatchdogs : x.post.accounts.config.minWatchdogs = x.pre.accounts.config.minWatchdogs
  policy : x.post.accounts.policy = x.pre.accounts.policy
  log : x.post.accounts.log = x.pre.accounts.log
  mark : x.post.accounts.mark = x.pre.accounts.mark

/-- The action is an attestation by `w` that passes the checks. -/
def Passes (c : Chain State) (a : Action Instr) (w : Pubkey) (d : Digest) : Prop :=
  ∃ s ws, a = .submit (.submitAttestationDigest s w d) ∧
    checkDigest c.clock c.accounts s w d = .ok ws

section Steps

variable {c : Chain State} {l : List Step} {x : Step} {w : Pubkey} {d : Digest} {e : Nat} {n : Hash}

theorem event_attests {a : Action Instr} (h : Passes c a w d) : Attests (event step c a) w d := by
  obtain ⟨s, ws, rfl, hws⟩ := h
  have hok : ∃ r, process c.clock c.accounts (.submitAttestationDigest s w d) = .ok r := by
    simp only [process, submitAttestationDigest, map_eq_ok, bind_eq_ok, hws, pure_eq_ok]
    exact ⟨_, _, ⟨_, rfl, rfl⟩, rfl⟩
  obtain ⟨⟨st', ev⟩, hok⟩ := hok
  have hpost := chainStep_ok hok
  simp only [process, submitAttestationDigest, map_eq_ok, bind_eq_ok, hws, Except.ok.injEq,
    pure_eq_ok, exists_eq_left', Prod.mk.injEq] at hok
  obtain ⟨rfl, rfl⟩ := hok
  refine ⟨⟨_, by rw [event_out, step, hpost], rfl, rfl, rfl⟩, ?_, ?_, ?_, ?_, ?_⟩
  all_goals
    rw [event_post, step, hpost]
    rfl

/-- **What a step does**: it accepts an attestation that passes the checks, or nothing. -/
theorem step_cases (c : Chain State) (a : Action Instr) :
    (∃ w d, Passes c a w d) ∨ (Quiet (event step c a) ∧ ∀ w d, ¬Passes c a w d) := by
  by_cases hpass : ∃ w d, Passes c a w d
  · exact .inl hpass
  · refine .inr ⟨?_, fun w d h => hpass ⟨w, d, h⟩⟩
    rcases chainStep_cases process c a with ⟨k, ts, rfl, hs⟩ | ⟨i, st', ev, rfl, hok, hs⟩ |
      ⟨i, err, rfl, -, hs⟩
    · have hle : chainEpoch c ≤ chainEpoch ⟨c.clock.elapse k ts, c.accounts⟩ :=
        Nat.div_le_div_right (Nat.le_add_right ..)
      unfold event step
      rw [hs]
      exact ⟨by rintro _ ⟨⟩, hle, rfl, rfl, rfl, rfl⟩
    · unfold event step
      rw [hs]
      cases i with
      | submitAttestationDigest s w d =>
        simp only [process, submitAttestationDigest, map_eq_ok, bind_eq_ok] at hok
        obtain ⟨-, ⟨ws, hws, -⟩, -⟩ := hok
        exact absurd ⟨w, d, s, ws, rfl, hws⟩ hpass
      | setWatchdogEnabled s k w b =>
        simp only [process, setWatchdogEnabled, map_eq_ok, bind_eq_ok, require_eq_ok, exists_unit,
          pure_eq_ok, Prod.mk.injEq] at hok
        obtain ⟨st', ⟨-, -, rfl⟩, rfl, rfl⟩ := hok
        exact ⟨by rintro _ ⟨⟩, Nat.le_refl _, rfl, rfl, rfl, rfl⟩
      | updateThresholds s warn quarantine =>
        simp only [process, updateThresholds, map_eq_ok, bind_eq_ok, require_eq_ok, exists_unit,
          pure_eq_ok, Prod.mk.injEq] at hok
        obtain ⟨st', ⟨-, -, -, rfl⟩, rfl, rfl⟩ := hok
        exact ⟨by rintro _ ⟨⟩, Nat.le_refl _, rfl, rfl, rfl, rfl⟩
      | setAllowlists s ws ss =>
        simp only [process, setAllowlists, map_eq_ok, bind_eq_ok, require_eq_ok, exists_unit,
          pure_eq_ok, Prod.mk.injEq] at hok
        obtain ⟨st', ⟨-, -, rfl⟩, rfl, rfl⟩ := hok
        exact ⟨by rintro _ ⟨⟩, Nat.le_refl _, rfl, rfl, rfl, rfl⟩
    · unfold event step
      rw [hs]
      exact ⟨by rintro _ ⟨⟩, Nat.le_refl _, rfl, rfl, rfl, rfl⟩

/-! ## The watchdogs so far -/

theorem attesters_quiet (h : Quiet x) (e : Nat) (n : Hash) (l : List Step) :
    attesters e n (l ++ [x]) = attesters e n l := by
  have hnone : acceptedBy e n x = none := by
    unfold acceptedBy
    split
    · next ev hout => exact absurd hout (h.out ev)
    · rfl
  unfold attesters
  rw [filterMap_concat_none hnone]

theorem attesters_self (h : Attests x w d) (l : List Step) :
    attesters (chainEpoch x.pre) d.nameHash (l ++ [x]) =
      insert w (attesters (chainEpoch x.pre) d.nameHash l) := by
  have hsome : acceptedBy (chainEpoch x.pre) d.nameHash x = some w := by
    obtain ⟨ev, hout, he, hn, hw⟩ := h.out
    unfold acceptedBy
    rw [hout]
    exact (if_pos ⟨he, hn⟩).trans (by rw [hw])
  unfold attesters
  rw [filterMap_concat_some hsome, List.toFinset_append, Finset.union_comm]
  rfl

theorem attesters_other (h : Attests x w d) (hne : ¬(e = chainEpoch x.pre ∧ n = d.nameHash))
    (l : List Step) : attesters e n (l ++ [x]) = attesters e n l := by
  have hnone : acceptedBy e n x = none := by
    obtain ⟨ev, hout, he, hn, hw⟩ := h.out
    unfold acceptedBy
    rw [hout]
    refine if_neg fun heq => hne ?_
    rw [← heq.1, ← heq.2]
    exact ⟨he, hn⟩
  unfold attesters
  rw [filterMap_concat_none hnone]

/-- What relates the accounts to the attestations so far, in every run. -/
structure Kept (c : Chain State) (l : List Step) : Prop where
  mark : ∀ e n w, c.accounts.mark e n w ≠ none ↔ w ∈ attesters e n l
  markEpoch : ∀ e n w m, c.accounts.mark e n w = some m → m.epochId = e
  log : ∀ e n, c.accounts.log e n = none ↔ attesters e n l = ∅
  logEpoch : ∀ e n al, c.accounts.log e n = some al → al.epochId = e
  policyName : ∀ n ps, c.accounts.policy n = some ps → ps.nameHash = n
  policyEpoch : ∀ n ps, c.accounts.policy n = some ps → ps.lastEpochId ≤ chainEpoch c
  latest : ∀ e n, attesters e n l ≠ ∅ → ∃ ps, c.accounts.policy n = some ps ∧ e ≤ ps.lastEpochId
  zero : ∀ ps, c.accounts.policy 0 = some ps →
    ps.status = .ok ∨ c.accounts.config.minWatchdogs ≤ 1

theorem Kept.quiet (h : Kept x.pre l) (hx : Quiet x) : Kept x.post (l ++ [x]) := by
  refine ⟨?_, ?_, ?_, ?_, ?_, ?_, ?_, ?_⟩
  · intro e n w
    rw [hx.mark, attesters_quiet hx]
    exact h.mark e n w
  · rw [hx.mark]
    exact h.markEpoch
  · intro e n
    rw [hx.log, attesters_quiet hx]
    exact h.log e n
  · rw [hx.log]
    exact h.logEpoch
  · rw [hx.policy]
    exact h.policyName
  · intro n ps hps
    rw [hx.policy] at hps
    exact Nat.le_trans (h.policyEpoch n ps hps) hx.epoch
  · intro e n hne
    rw [attesters_quiet hx] at hne
    rw [hx.policy]
    exact h.latest e n hne
  · intro ps hps
    rw [hx.policy] at hps
    rw [hx.minWatchdogs]
    exact h.zero ps hps

/-- The name of the policy that a submission finds. -/
theorem Kept.oldName (h : Kept c l) (n : Hash) :
    ((c.accounts.policy n).getD NamePolicyState.zero).nameHash = 0 ∨
      ((c.accounts.policy n).getD NamePolicyState.zero).nameHash = n := by
  cases hps : c.accounts.policy n with
  | none => exact .inl rfl
  | some ps => exact .inr (h.policyName n ps hps)

/-- The epoch of the log that a submission finds. -/
theorem Kept.oldLog (h : Kept c l) (e : Nat) (n : Hash)
    (hne : ((c.accounts.log e n).getD AttestationLog.zero).epochId ≠ 0) :
    ((c.accounts.log e n).getD AttestationLog.zero).epochId = e := by
  cases hlog : c.accounts.log e n with
  | none =>
    rw [hlog] at hne
    exact absurd rfl hne
  | some al => exact h.logEpoch e n al hlog

/-- The policy of the zero name never counts more than one watchdog. -/
theorem zero_distinct_le (h : Kept c l) (hd : d.nameHash = 0) :
    (nextPolicy c.clock c.accounts w d).distinctWatchdogsLastEpoch ≤ 1 := by
  have hzero : ((c.accounts.policy d.nameHash).getD NamePolicyState.zero).nameHash = 0 := by
    rcases h.oldName d.nameHash with hz | hn
    · exact hz
    · rw [hn, hd]
  rw [(nextPolicy_eq c.clock c.accounts w d).2.2, openPolicy_of_new hzero]
  show bump _ 0 ≤ 1
  unfold bump Checked.satAdd
  split
  · omega
  · omega

/-- A mark that is set up belongs to its epoch. -/
theorem openMark_epochId {m : AttestationMark} {now : Int} (h : m.isNew = false → m.epochId = e) :
    (openMark m n e w now).epochId = e := by
  unfold openMark
  cases hm : m.isNew with
  | true => rfl
  | false => exact h hm

theorem openLog_epochId {al : AttestationLog} (h : al.epochId ≠ 0 → al.epochId = e) :
    (openLog al n e).epochId = e := by
  unfold openLog
  split
  · rfl
  · next hz => exact h hz

/-- The policy that a step leaves is the one that it wrote, or an old one of another name. -/
theorem Attests.policy_some (hx : Attests x w d) {ps : NamePolicyState}
    (hps : x.post.accounts.policy n = some ps) :
    n = d.nameHash ∧ nextPolicy x.pre.clock x.pre.accounts w d = ps ∨
      n ≠ d.nameHash ∧ x.pre.accounts.policy n = some ps :=
  Updates.update_eq_some (hx.policy ▸ hps)

theorem Attests.log_some (hx : Attests x w d) {al : AttestationLog}
    (hal : x.post.accounts.log e n = some al) :
    (e = chainEpoch x.pre ∧ n = d.nameHash) ∧ nextLog x.pre.clock x.pre.accounts w d = al ∨
      ¬(e = chainEpoch x.pre ∧ n = d.nameHash) ∧ x.pre.accounts.log e n = some al :=
  Updates.update₂_eq_some (hx.log ▸ hal)

/-- The marks are the old ones and that of the watchdog. -/
theorem Attests.mark_ne_none (hx : Attests x w d) (v : Pubkey) :
    x.post.accounts.mark e n v ≠ none ↔
      (e = chainEpoch x.pre ∧ n = d.nameHash ∧ v = w) ∨ x.pre.accounts.mark e n v ≠ none := by
  rw [hx.mark, Updates.update₃_apply]
  split
  · next hkey => simp [hkey]
  · next hkey => simp [hkey]

/-- Each mark of the step is dated with its epoch. -/
theorem Kept.mark_epochId (h : Kept x.pre l) (hx : Attests x w d) {v : Pubkey}
    {m : AttestationMark} (hm : x.post.accounts.mark e n v = some m) : m.epochId = e := by
  rw [hx.mark, Updates.update₃_apply] at hm
  split at hm
  · next hkey =>
    obtain ⟨rfl, rfl, rfl⟩ := hkey
    rw [← Option.some.inj hm]
    refine openMark_epochId fun hold => ?_
    cases hmark : x.pre.accounts.mark (chainEpoch x.pre) d.nameHash v with
    | none =>
      rw [hmark] at hold
      cases hold
    | some m' => exact h.markEpoch _ _ _ _ hmark
  · exact h.markEpoch _ _ _ _ hm

/-- Whoever attested in an epoch, the policy of the name is not of an older one. -/
theorem Kept.latest_attests (h : Kept x.pre l) (hx : Attests x w d)
    (hne : attesters e n (l ++ [x]) ≠ ∅) :
    ∃ ps, x.post.accounts.policy n = some ps ∧ e ≤ ps.lastEpochId := by
  rw [hx.policy]
  by_cases hn : n = d.nameHash
  · subst hn
    refine ⟨_, Function.update_self .., ?_⟩
    rw [(nextPolicy_eq x.pre.clock x.pre.accounts w d).1]
    by_cases he : e = chainEpoch x.pre
    · exact he.le
    · rw [attesters_other hx fun hkey => he hkey.1] at hne
      obtain ⟨ps, hps, hle⟩ := h.latest e d.nameHash hne
      exact Nat.le_trans hle (h.policyEpoch _ _ hps)
  · rw [attesters_other hx fun hkey => hn hkey.2] at hne
    obtain ⟨ps, hps, hle⟩ := h.latest e n hne
    exact ⟨ps, (Function.update_of_ne hn ..).trans hps, hle⟩

/-- The policy of the zero name keeps its status unless one watchdog is a quorum. -/
theorem Kept.zero_attests (h : Kept x.pre l) (hx : Attests x w d) {ps : NamePolicyState}
    (hps : x.post.accounts.policy 0 = some ps) :
    ps.status = .ok ∨ x.post.accounts.config.minWatchdogs ≤ 1 := by
  rw [hx.config]
  rcases hx.policy_some hps with ⟨hn, rfl⟩ | ⟨-, hold⟩
  · by_cases hmin : x.pre.accounts.config.minWatchdogs ≤ 1
    · exact .inr hmin
    · left
      have hle := zero_distinct_le (w := w) h hn.symm
      have hzero : ((x.pre.accounts.policy d.nameHash).getD NamePolicyState.zero).nameHash = 0 := by
        rcases h.oldName d.nameHash with hz | hd
        · exact hz
        · rw [hd, ← hn]
      rw [nextPolicy_status (by omega), openPolicy_status, if_pos hzero]
  · exact h.zero ps hold

/-- **Step lemma**: an attestation keeps the relation between the accounts and the history. -/
theorem Kept.attests (h : Kept x.pre l) (hx : Attests x w d) : Kept x.post (l ++ [x]) := by
  obtain ⟨hlast, hname, -⟩ := nextPolicy_eq x.pre.clock x.pre.accounts w d
  refine ⟨?_, fun e n v m => h.mark_epochId hx, ?_, ?_, ?_, ?_,
    fun e n => h.latest_attests hx, fun ps => h.zero_attests hx⟩
  · intro e n v
    rw [hx.mark_ne_none, h.mark]
    by_cases hkey : e = chainEpoch x.pre ∧ n = d.nameHash
    · obtain ⟨rfl, rfl⟩ := hkey
      rw [attesters_self hx, Finset.mem_insert]
      simp only [true_and]
    · rw [attesters_other hx hkey]
      exact or_iff_right fun hv => hkey ⟨hv.1, hv.2.1⟩
  · intro e n
    rw [hx.log]
    by_cases hkey : e = chainEpoch x.pre ∧ n = d.nameHash
    · obtain ⟨rfl, rfl⟩ := hkey
      rw [attesters_self hx, Updates.update₂_self]
      simp
    · rw [attesters_other hx hkey, Updates.update₂_ne _ hkey]
      exact h.log e n
  · intro e n al hal
    rcases hx.log_some hal with ⟨⟨rfl, rfl⟩, rfl⟩ | ⟨-, hold⟩
    · rw [(nextLog_eq x.pre.clock x.pre.accounts w d).1]
      exact openLog_epochId (h.oldLog _ _)
    · exact h.logEpoch _ _ _ hold
  · intro n ps hps
    rcases hx.policy_some hps with ⟨rfl, rfl⟩ | ⟨-, hold⟩
    · exact hname.trans (openPolicy_nameHash (h.oldName d.nameHash))
    · exact h.policyName n ps hold
  · intro n ps hps
    rw [hx.epoch]
    rcases hx.policy_some hps with ⟨rfl, rfl⟩ | ⟨-, hold⟩
    · exact hlast.le
    · exact h.policyEpoch n ps hold

/-! ## Which attestations count right -/

/-- The counters after an attestation of `w` that finds `A`, in the epoch `e` and for a name that is
zero or not: when they are right. -/
theorem counts_iff (A : Finset Pubkey) (e : Nat) (zero : Prop) [Decidable zero] (w : Pubkey) :
    (bump (decide (w ∉ A ∨ e = 0)) (if A = ∅ ∨ e = 0 then 0 else A.card) = (insert w A).card ∧
      bump (decide (w ∉ A ∨ e = 0)) (if A = ∅ ∨ zero then 0 else A.card) = (insert w A).card) ↔
    A = ∅ ∨ (e ≠ 0 ∧ ¬zero ∧ (w ∈ A ∨ A.card < 2 ^ 16 - 1)) ∨ (e = 0 ∧ zero ∧ A = {w}) := by
  unfold bump Checked.satAdd
  by_cases hA : A = ∅
  · simp [hA]
  · have hpos : 0 < A.card := Finset.card_pos.2 (Finset.nonempty_iff_ne_empty.2 hA)
    by_cases hw : w ∈ A
    · have hone : A = {w} ↔ A.card = 1 := by
        refine ⟨fun h => by rw [h, Finset.card_singleton], fun h => ?_⟩
        obtain ⟨v, rfl⟩ := Finset.card_eq_one.1 h
        rw [Finset.mem_singleton.1 hw]
      rw [Finset.insert_eq_of_mem hw, hone]
      -- The mark of `w` looks new again at the epoch zero only.
      by_cases he : e = 0
      · by_cases hz : zero
        · simp [hA, hw, he, hz]
          omega
        · simp [hA, hw, he, hz]
          omega
      · by_cases hz : zero
        · simp [hA, hw, he, hz]
          omega
        · simp [hA, hw, he, hz]
    · have hne : A ≠ {w} := by
        rintro rfl
        exact hw (Finset.mem_singleton_self w)
      rw [Finset.card_insert_of_notMem hw]
      by_cases he : e = 0
      · simp [hA, hw, he, hne]
      · by_cases hz : zero
        · simp [hA, hw, he, hz]
        · -- A new watchdog is counted as long as the counter has room.
          have hroom : min (A.card + 1) (2 ^ 16 - 1) = A.card + 1 ↔ A.card < 2 ^ 16 - 1 := by
            omega
          simp only [hA, hw, he, hz, hroom, not_false_eq_true, or_self, or_false, false_or,
            decide_true, if_true, if_false, and_self, false_and, true_and, ne_eq]

/-- When the mark of a watchdog looks new. -/
theorem Kept.markNew (h : Kept c l) (e : Nat) (n : Hash) (w : Pubkey) :
    c.accounts.markNew e n w = decide (w ∉ attesters e n l ∨ e = 0) := by
  have hmark := h.mark e n w
  unfold State.markNew AttestationMark.isNew
  cases hm : c.accounts.mark e n w with
  | none =>
    have hnew : w ∉ attesters e n l := fun hw => hmark.2 hw hm
    simp [hnew, AttestationMark.zero]
  | some m =>
    have hold : w ∈ attesters e n l := hmark.1 (by rw [hm]; exact nofun)
    simp [hold, h.markEpoch e n w m hm]

/-- What the log that a submission finds counts. -/
theorem Kept.openLog (h : Kept c l) (hc : Counted c.accounts l) (e : Nat) (n : Hash) :
    (openLog ((c.accounts.log e n).getD AttestationLog.zero) n e).distinctWatchdogs =
      if attesters e n l = ∅ ∨ e = 0 then 0 else (attesters e n l).card := by
  have hlog := h.log e n
  unfold WatchdogPolicy.openLog
  cases hal : c.accounts.log e n with
  | none =>
    rw [hlog.1 hal, if_pos (show (∅ : Finset Pubkey) = ∅ ∨ e = 0 from .inl rfl)]
    rfl
  | some al =>
    have hne : attesters e n l ≠ ∅ := fun hempty => by
      rw [hlog.2 hempty] at hal
      cases hal
    rw [Option.getD_some, h.logEpoch e n al hal]
    by_cases he : e = 0
    · rw [if_pos he, if_pos (.inr he)]
      rfl
    · rw [if_neg he, if_neg (not_or.2 ⟨hne, he⟩)]
      exact hc.log e n al hal

/-- Nobody has attested in this epoch, if the policy does not exist or is of another epoch. -/
theorem Kept.attesters_empty (h : Kept c l)
    (hps : ∀ ps, c.accounts.policy n = some ps → ps.lastEpochId ≠ chainEpoch c) :
    attesters (chainEpoch c) n l = ∅ := by
  by_contra hne
  obtain ⟨ps, hsome, hle⟩ := h.latest (chainEpoch c) n hne
  exact hps ps hsome (Nat.le_antisymm (h.policyEpoch n ps hsome) hle)

/-- What the policy that a submission finds counts. -/
theorem Kept.openPolicy (h : Kept c l) (hc : Counted c.accounts l) (n : Hash) :
    (openPolicy ((c.accounts.policy n).getD NamePolicyState.zero) n
        (chainEpoch c)).distinctWatchdogsLastEpoch =
      if attesters (chainEpoch c) n l = ∅ ∨ n = 0 then 0
      else (attesters (chainEpoch c) n l).card := by
  rw [openPolicy_distinct]
  cases hps : c.accounts.policy n with
  | none =>
    have hempty : attesters (chainEpoch c) n l = ∅ :=
      h.attesters_empty fun ps hsome => by rw [hps] at hsome; cases hsome
    rw [hempty, if_pos (show (∅ : Finset Pubkey) = ∅ ∨ n = 0 from .inl rfl)]
    exact if_pos (.inl rfl)
  | some ps =>
    rw [Option.getD_some, h.policyName n ps hps]
    by_cases hn : n = 0
    · rw [if_pos (.inl hn), if_pos (.inr hn)]
    · by_cases he : ps.lastEpochId = chainEpoch c
      · rw [if_neg (not_or.2 ⟨hn, not_not.2 he⟩), hc.policy n ps hps, he]
        split
        · next hempty => rw [hempty.resolve_right hn, Finset.card_empty]
        · rfl
      · -- The policy is of an older epoch, so nobody has attested in this one.
        have hempty : attesters (chainEpoch c) n l = ∅ := h.attesters_empty fun ps' hps' => by
          obtain rfl : ps = ps' := Option.some.inj (hps.symm.trans hps')
          exact he
        rw [if_pos (.inr he), if_pos (.inl hempty)]

/-- **Which attestations count right**: after an attestation the counters are right exactly if it
meets `CountsRight`. -/
theorem attests_counted (h : Kept x.pre l) (hc : Counted x.pre.accounts l) (hx : Attests x w d) :
    Counted x.post.accounts (l ++ [x]) ↔
      CountsRight (attesters (chainEpoch x.pre) d.nameHash l) (chainEpoch x.pre) d.nameHash w := by
  obtain ⟨hlast, -, hdistinct⟩ := nextPolicy_eq x.pre.clock x.pre.accounts w d
  have hlogd := (nextLog_eq x.pre.clock x.pre.accounts w d).2
  have hnew := h.markNew (chainEpoch x.pre) d.nameHash w
  have hlog : (nextLog x.pre.clock x.pre.accounts w d).distinctWatchdogs = _ :=
    hlogd.trans (congrArg₂ bump hnew (h.openLog hc (chainEpoch x.pre) d.nameHash))
  have hpolicy : (nextPolicy x.pre.clock x.pre.accounts w d).distinctWatchdogsLastEpoch = _ :=
    hdistinct.trans (congrArg₂ bump hnew (h.openPolicy hc d.nameHash))
  have hiff := counts_iff (attesters (chainEpoch x.pre) d.nameHash l) (chainEpoch x.pre)
    (d.nameHash = 0) w
  rw [← hlog, ← hpolicy, ← attesters_self hx] at hiff
  refine Iff.trans ?_ hiff
  constructor
  · intro hpost
    have hcount := hpost.policy d.nameHash (nextPolicy x.pre.clock x.pre.accounts w d) (by
      rw [hx.policy]
      exact Function.update_self ..)
    rw [hlast] at hcount
    refine ⟨hpost.log (chainEpoch x.pre) d.nameHash _ ?_, hcount⟩
    rw [hx.log]
    exact Updates.update₂_self ..
  · rintro ⟨hl, hp⟩
    refine ⟨fun n ps hps => ?_, fun e n al hal => ?_⟩
    · rcases hx.policy_some hps with ⟨rfl, rfl⟩ | ⟨hn, hold⟩
      · rw [hlast]
        exact hp
      · rw [attesters_other hx fun hkey => hn hkey.2]
        exact hc.policy n ps hold
    · rcases hx.log_some hal with ⟨⟨rfl, rfl⟩, rfl⟩ | ⟨hkey, hold⟩
      · exact hl
      · rw [attesters_other hx hkey]
        exact hc.log e n al hold

theorem quiet_counted (hc : Counted x.pre.accounts l) (hx : Quiet x) :
    Counted x.post.accounts (l ++ [x]) := by
  refine ⟨fun n ps hps => ?_, fun e n al hal => ?_⟩
  · rw [hx.policy] at hps
    rw [attesters_quiet hx]
    exact hc.policy n ps hps
  · rw [hx.log] at hal
    rw [attesters_quiet hx]
    exact hc.log e n al hal

/-- Where the counters are right after an attestation, it changes no status without the quorum. -/
theorem attests_quorum (h : Kept x.pre l) (hx : Attests x w d)
    (hc : Counted x.post.accounts (l ++ [x])) : Quorum l x := by
  intro n hchange
  by_contra hlt
  apply hchange
  unfold State.status
  rw [hx.policy]
  by_cases hn : n = d.nameHash
  · subst hn
    have hcount := hc.policy d.nameHash (nextPolicy x.pre.clock x.pre.accounts w d) (by
      rw [hx.policy]
      exact Function.update_self ..)
    rw [(nextPolicy_eq x.pre.clock x.pre.accounts w d).1] at hcount
    have hbelow : (nextPolicy x.pre.clock x.pre.accounts w d).distinctWatchdogsLastEpoch <
        x.pre.accounts.config.minWatchdogs := by
      rw [hcount]
      exact Nat.lt_of_not_le hlt
    rw [Function.update_self, Option.map_some, Option.getD_some, nextPolicy_status hbelow,
      openPolicy_status]
    cases hps : x.pre.accounts.policy d.nameHash with
    | none => rfl
    | some ps =>
      rw [Option.getD_some, Option.map_some, Option.getD_some, h.policyName _ ps hps]
      split
      · next hzero =>
        -- The policy of the zero name was set up anew, and its status was `Ok` already.
        rw [hzero] at hps
        refine ((h.zero ps hps).resolve_right fun hmin => hlt ?_).symm
        rw [attesters_self hx]
        exact Nat.le_trans hmin (Finset.card_pos.2 (Finset.insert_nonempty ..))
      · rfl
  · rw [Function.update_of_ne hn]

theorem quiet_quorum (hx : Quiet x) : Quorum l x := by
  intro n hchange
  exact absurd (by unfold State.status; rw [hx.policy]) hchange

end Steps

/-! ## Every run -/

section Runs

variable {c : Chain State} {l : List Step} {a : Action Instr}

theorem step_kept (h : Kept c l) (a : Action Instr) :
    Kept (step c a).1 (l ++ [event step c a]) := by
  rcases step_cases c a with ⟨w, d, hpass⟩ | ⟨hquiet, -⟩
  · exact Kept.attests (x := event step c a) h (event_attests hpass)
  · exact Kept.quiet (x := event step c a) h hquiet

theorem genesis_kept (config : PolicyConfig) (clock : Clock) :
    Kept ⟨clock, State.genesis config⟩ [] := by
  refine ⟨?_, nofun, ?_, nofun, nofun, nofun, ?_, nofun⟩
  · intro e n w
    exact ⟨fun h => absurd rfl h, fun h => absurd h (Finset.notMem_empty w)⟩
  · exact fun e n => ⟨fun _ => rfl, fun _ => rfl⟩
  · exact fun e n h => absurd rfl h

/-- **One step** keeps the counters right exactly if it is no attestation that miscounts. -/
theorem step_counted (h : Kept c l) (hc : Counted c.accounts l) :
    Counted (step c a).1.accounts (l ++ [event step c a]) ↔ ¬Miscounts c l a := by
  rcases step_cases c a with ⟨w, d, hpass⟩ | ⟨hquiet, hnone⟩
  · rw [← event_post, attests_counted (x := event step c a) h hc (event_attests hpass)]
    obtain ⟨s, ws, rfl, hws⟩ := hpass
    constructor
    · rintro hright ⟨s', w', d', ws', he, -, hwrong⟩
      cases he
      exact hwrong hright
    · intro hno
      by_contra hwrong
      exact hno ⟨s, w, d, ws, rfl, hws, hwrong⟩
  · refine iff_of_true (quiet_counted (x := event step c a) hc hquiet) ?_
    rintro ⟨s, w, d, ws, he, hws, -⟩
    exact hnone w d ⟨s, ws, he, hws⟩

end Runs

/-- **Exactly when the quorum law holds.** In every state of a run both counters are the numbers of
different watchdogs, and no status changes before the quorum, if and only if no step of the run is
an attestation that miscounts. -/
theorem quorum_iff (config : PolicyConfig) (clock : Clock) (is : List (Action Instr)) :
    QuorumLaw ⟨clock, State.genesis config⟩ is ↔ ∀ pre a post, is = pre ++ a :: post →
      ¬Miscounts (exec step ⟨clock, State.genesis config⟩ pre)
        (trace step ⟨clock, State.genesis config⟩ pre) a := by
  have hcounted : (∀ pre post, is = pre ++ post →
      Counted (exec step ⟨clock, State.genesis config⟩ pre).accounts
        (trace step ⟨clock, State.genesis config⟩ pre)) ↔
      ∀ pre a post, is = pre ++ a :: post → ¬Miscounts (exec step ⟨clock, State.genesis config⟩ pre)
        (trace step ⟨clock, State.genesis config⟩ pre) a :=
    history_iff (J := Kept) (P := fun c l => Counted c.accounts l)
      (fun _ _ a h => step_kept h a) (fun _ _ _ h hc => step_counted h hc)
      (genesis_kept config clock) ⟨nofun, nofun⟩
  refine ⟨fun hlaw => hcounted.1 hlaw.1, fun hno => ?_⟩
  have hall := hcounted.2 hno
  refine ⟨hall, fun pre a post his => ?_⟩
  have hkept : Kept (exec step ⟨clock, State.genesis config⟩ pre)
      (trace step ⟨clock, State.genesis config⟩ pre) :=
    history_of_step (J := Kept) (fun _ _ a h => step_kept h a) (genesis_kept config clock) pre
  have hpost := (step_counted hkept (hall pre (a :: post) his)).2 (hno pre a post his)
  rcases step_cases (exec step ⟨clock, State.genesis config⟩ pre) a with
    ⟨w, d, hpass⟩ | ⟨hquiet, -⟩
  · exact attests_quorum (x := event step _ a) hkept (event_attests hpass) hpost
  · exact quiet_quorum hquiet

/-! ## One watchdog that makes a quorum -/

/-- A watchdog. -/
def exampleWatchdog : Signer := ⟨2, two_ne_default⟩

/-- A config that asks for two watchdogs. -/
def exampleConfig : PolicyConfig where
  authority := 1
  epochLenSlots := 10
  attestationMaxAgeSecs := 0
  minWatchdogs := 2
  warnThresholdBps := 2000
  quarantineThresholdBps := 5000
  allowlistedWatchdogs := [2, 3]
  allowlistedSubmitters := []
  epochLen_pos := tenSlots_pos
  minWatchdogs_pos := by decide

/-- A mismatch for the name 7 in the epoch 0. -/
def exampleDigest : Digest := ⟨0, 7, 2, 1, 0, 10000, 0, 0, 0⟩

/-- A fresh deployment. -/
def exampleGenesis : Chain State := ⟨⟨0, 0⟩, State.genesis exampleConfig⟩

/-- One watchdog reports the mismatch twice. -/
def exampleRun : List (Action Instr) :=
  [.submit (.submitAttestationDigest exampleWatchdog 2 exampleDigest),
    .submit (.submitAttestationDigest exampleWatchdog 2 exampleDigest)]

/-- The second report of the one watchdog quarantines the name. -/
theorem exampleRun_not_quorum : ¬QuorumLaw exampleGenesis exampleRun := by
  rintro ⟨-, hquorum⟩
  have hlast := hquorum [exampleRun[0]] exampleRun[1] [] rfl 7 (by decide)
  exact absurd hlast (by decide)

end Ddns.WatchdogPolicy
