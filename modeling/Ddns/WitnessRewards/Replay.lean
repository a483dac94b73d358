import Ddns.WitnessRewards.Budget

/-!
# Replayed batches

The statistics of a miner remember the root of its last batch only. A batch with the root before
the last is accepted again: after the roots A and B the root A counts a second time
(`exampleRun_replays`). `no_replay_iff` is the exact condition on a run: no batch that passes the
other checks repeats an accepted root behind the last one.
-/

namespace Ddns.WitnessRewards

open Tx Runs

/-- The root that a step has accepted for the miner and the epoch. -/
def acceptedRoot (e : Nat) (m : Pubkey) (x : Step) : Option Hash :=
  match x.input, x.out with
  | .submit (.submitReceiptBatch s f root _ _ _), some (.ok _) =>
    if f = e ∧ s.key = m then some root else none
  | _, _ => none

/-- The roots accepted for the miner and the epoch, in order. -/
def accepted (e : Nat) (m : Pubkey) (l : List Step) : List Hash := l.filterMap (acceptedRoot e m)

/-- **The replay law** of a run: no root is accepted twice for one miner and epoch. -/
def NoReplay (run : List Step) : Prop := ∀ e m, (accepted e m run).Nodup

/-- A batch of `count` receipts of the miner passes every check but the one of its root. -/
structure Passes (c : Chain State) (m : Pubkey) (e count : Nat) : Prop where
  enabled : c.accounts.config.enabled = true
  count_pos : 0 < count
  epoch : e = c.clock.slot / c.accounts.config.epochLenSlots
  bond : ∃ b, c.accounts.bond m = some b ∧ b.miner = m ∧
    c.accounts.config.minBondLamports ≤ b.bondLamports
  unclaimed : ∀ x, c.accounts.stats e m = some x → x.claimed = false

/-- The action submits, after the steps `l`, a batch that passes the other checks and whose root was
accepted before, but not last. -/
def Replays (l : List Step) (c : Chain State) (a : Action Instr) : Prop :=
  ∃ (s : Signer) (e : Nat) (root : Hash) (count names colos : Nat),
    a = .submit (.submitReceiptBatch s e root count names colos) ∧
      root ∈ accepted e s.key l ∧ (accepted e s.key l).getLast? ≠ some root ∧
      Passes c s.key e count

section Steps

variable {dep : Deployment} {clock : Clock} {st : State} {s : Signer} {e : Nat} {root : Hash}
  {count names colos : Nat}

/-- The reward of a batch never overflows. -/
theorem batchReward_isOk (cfg : WitnessRewardsConfig) {n : Nat}
    (hn : n ≤ cfg.maxRewardableReceiptsPerMinerPerEpoch) (names colos : Nat) :
    ∃ r, batchReward cfg n (computeDiversityBonusBps names colos) = .ok r := by
  have hbonus : computeDiversityBonusBps names colos ≤ 2000 := Nat.min_le_right ..
  have hcap := cfg.maxReceipts_lt
  have hreward := cfg.reward_lt
  generalize computeDiversityBonusBps names colos = bonus at hbonus
  have hbase : n * cfg.rewardPerReceipt ≤ 2 ^ 32 * 2 ^ 64 :=
    Nat.mul_le_mul (by omega) (by omega)
  have hscaled : n * cfg.rewardPerReceipt * (10000 + bonus) ≤ 2 ^ 32 * 2 ^ 64 * 12000 :=
    Nat.mul_le_mul hbase (by omega)
  simp only [batchReward, bind_eq_ok, okOr_eq_ok, Checked.add_eq_some, Checked.mul_eq_some,
    pure_eq_ok]
  exact ⟨_, _, ⟨by omega, rfl⟩, _, ⟨by omega, rfl⟩, _, ⟨by omega, rfl⟩, rfl⟩

/-- The account of an epoch is always open to a batch. -/
theorem openEpoch_isOk (ha : Addressed st) (e : Nat) :
    ∃ es, openEpoch ((st.epochState e).getD EpochState.zero) e = .ok es := by
  unfold openEpoch
  split
  · exact ⟨_, rfl⟩
  · next hne =>
    cases hes : st.epochState e with
    | none => rw [hes] at hne; exact absurd rfl hne
    | some es =>
      refine ⟨es, ?_⟩
      simp only [Option.getD_some, bind_eq_ok, require_eq_ok, exists_unit, pure_eq_ok, and_true]
      exact ha.epochState e es hes

/-- **When a batch is accepted**, once its miner has statistics for the epoch. -/
theorem submitReceiptBatch_isOk (ha : Addressed st) {x : EpochMinerStats}
    (hx : st.stats e s.key = some x) :
    (∃ r, submitReceiptBatch clock st s e root count names colos = .ok r) ↔
      Passes ⟨clock, st⟩ s.key e count ∧ x.lastReceiptsRoot ≠ root := by
  have hminer : x.miner ≠ Pubkey.default := by
    rw [(ha.stats e s.key x hx).1]
    exact s.ne_default
  constructor
  · rintro ⟨r, h⟩
    simp only [submitReceiptBatch, bind_eq_ok, ownBond_eq_ok, require_eq_ok, exists_unit, hx,
      Option.getD_some] at h
    obtain ⟨bond, ⟨hbond, hm⟩, henabled, hcount, hepoch, hmin, y, hy, -⟩ := h
    obtain ⟨hroot, hunclaimed⟩ := openStats_of_miner hy hminer
    refine ⟨⟨henabled, hcount, hepoch, ⟨bond, hbond, hm, hmin⟩, fun x' hx' => ?_⟩, hroot⟩
    obtain rfl : x = x' := Option.some.inj (hx.symm.trans hx')
    exact hunclaimed
  · rintro ⟨⟨henabled, hcount, hepoch, ⟨bond, hbond, hm, hmin⟩, hunclaimed⟩, hroot⟩
    obtain ⟨hxm, hxe⟩ := ha.stats e s.key x hx
    have hopen : openStats x s.key e root = .ok x := by
      unfold openStats
      rw [if_neg hminer]
      simp only [bind_eq_ok, require_eq_ok, exists_unit, pure_eq_ok, and_true]
      exact ⟨hxm, hxe, hroot, hunclaimed x hx⟩
    obtain ⟨es, hes⟩ := openEpoch_isOk ha e
    obtain ⟨delta, hdelta⟩ := batchReward_isOk st.config
      (n := min count (st.config.maxRewardableReceiptsPerMinerPerEpoch - x.rewardableReceipts))
      (by omega) names colos
    simp only [submitReceiptBatch, bind_eq_ok, ownBond_eq_ok, require_eq_ok, exists_unit, hx,
      Option.getD_some, pure_eq_ok]
    exact ⟨_, bond, ⟨hbond, hm⟩, henabled, hcount, hepoch, hmin, x, hopen, delta, hdelta, es, hes, rfl⟩

end Steps

/-! ## Every run -/

section Runs

variable {dep : Deployment} {c : Chain State} {l : List Step} {a : Action Instr} {x : Step}
  {e : Nat} {m : Pubkey} {root : Hash}

theorem accepted_append (e : Nat) (m : Pubkey) (l : List Step) (x : Step) :
    accepted e m (l ++ [x]) = accepted e m l ++ (acceptedRoot e m x).toList := by
  unfold accepted
  cases h : acceptedRoot e m x with
  | none =>
    rw [filterMap_concat_none h, Option.toList_none, List.append_nil]
  | some r =>
    rw [filterMap_concat_some h, Option.toList_some]

theorem process_submit {s : Signer} {count names colos : Nat} {r : State × BatchSubmitted}
    (h : submitReceiptBatch c.clock c.accounts s e root count names colos = .ok r) :
    process dep c.clock c.accounts (.submitReceiptBatch s e root count names colos) =
      .ok (r.1, some (.batchSubmitted r.2)) :=
  map_eq_ok.2 ⟨r, h, rfl⟩

/-- A step accepts a root exactly if it is a batch of it that succeeds. -/
theorem acceptedRoot_eq_some : acceptedRoot e m (event (step dep) c a) = some root ↔
    ∃ (s : Signer) (count names colos : Nat), a = .submit (.submitReceiptBatch s e root count names colos) ∧
      s.key = m ∧
      ∃ r, submitReceiptBatch c.clock c.accounts s e root count names colos = .ok r := by
  constructor
  · intro h
    simp only [acceptedRoot, event_input, event_out] at h
    split at h
    · next s f r count names colos w hw =>
      split at h
      · next hkey =>
        obtain ⟨rfl, rfl⟩ := hkey
        cases h
        obtain ⟨st', hok, -⟩ := chainStep_out hw
        obtain ⟨r, hr, -⟩ := map_eq_ok.1 hok
        exact ⟨s, count, names, colos, rfl, rfl, r, hr⟩
      · cases h
    · cases h
  · rintro ⟨s, count, names, colos, rfl, rfl, r, hr⟩
    simp only [acceptedRoot, event_input, event_out, step, chainStep_ok (process_submit hr),
      and_self, if_true]

/-- The statistics remember the last accepted root, and nothing else. -/
structure Remembers (c : Chain State) (l : List Step) : Prop where
  addressed : Addressed c.accounts
  fresh : ∀ e m, c.accounts.stats e m = none → accepted e m l = []
  last : ∀ e m x, c.accounts.stats e m = some x →
    (accepted e m l).getLast? = some x.lastReceiptsRoot

/-- A step that leaves the statistics of the miner alone accepts no root for it. -/
theorem Remembers.of_stats (h : Remembers c l) {c' : Chain State} (x : Step)
    (ha : Addressed c'.accounts) (hsame : ∀ e m, acceptedRoot e m x = none →
      (c'.accounts.stats e m).map EpochMinerStats.lastReceiptsRoot =
        (c.accounts.stats e m).map EpochMinerStats.lastReceiptsRoot)
    (hnew : ∀ e m r, acceptedRoot e m x = some r →
      (c'.accounts.stats e m).map EpochMinerStats.lastReceiptsRoot = some r) :
    Remembers c' (l ++ [x]) := by
  refine ⟨ha, fun e m hnone => ?_, fun e m y hy => ?_⟩
  · rw [accepted_append]
    cases hr : acceptedRoot e m x with
    | none =>
      have hsame := hsame e m hr
      rw [hnone, Option.map_none] at hsame
      rw [h.fresh e m (Option.map_eq_none_iff.1 hsame.symm)]
      rfl
    | some r =>
      have hnew := hnew e m r hr
      rw [hnone] at hnew
      cases hnew
  · rw [accepted_append]
    cases hr : acceptedRoot e m x with
    | none =>
      have hsame := hsame e m hr
      rw [hy, Option.map_some] at hsame
      obtain ⟨y', hy', hroot⟩ := Option.map_eq_some_iff.1 hsame.symm
      rw [Option.toList_none, List.append_nil, ← hroot]
      exact h.last e m y' hy'
    | some r =>
      have hnew := hnew e m r hr
      rw [hy, Option.map_some, Option.some.injEq] at hnew
      rw [Option.toList_some, List.getLast?_concat, hnew]

theorem remembers_step (a : Action Instr) (h : Remembers c l) :
    Remembers (step dep c a).1 (l ++ [event (step dep) c a]) := by
  have ha : Addressed (step dep c a).1.accounts :=
    accounts_invariant (P := Addressed)
      (fun _ _ _ _ _ ha hok => (process_effect hok).addressed ha) c a h.addressed
  refine h.of_stats _ ha (fun e m hnone => ?_) fun e m r hr => ?_
  · rcases chainStep_commits (process dep) c a with ⟨hsame, -⟩ | ⟨i, st', ev, rfl, hok, hs⟩
    · rw [hsame]
    · rw [step, hs]
      have heffect := process_effect hok
      cases heffect with
      | batch s f root count names colos b y z delta hacc =>
        have hkey : ¬(e = f ∧ m = s.key) := by
          rintro ⟨rfl, rfl⟩
          obtain ⟨r, hr, -⟩ := map_eq_ok.1 hok
          rw [acceptedRoot_eq_some.2 ⟨s, count, names, colos, rfl, rfl, r, hr⟩] at hnone
          cases hnone
        rw [hacc.post, setEpochState_stats, setStats_ne y hkey]
      | claim s vault ata f old tokens hold hminer hunclaimed hpost =>
        by_cases hkey : e = f ∧ m = s.key
        · obtain ⟨rfl, rfl⟩ := hkey
          rw [hpost, setStats_self, hold]
          rfl
        · rw [hpost, setStats_ne _ hkey]
      | other i hstats => rw [hstats]
  · obtain ⟨s, count, names, colos, rfl, rfl, ⟨st', b⟩, hok⟩ := acceptedRoot_eq_some.1 hr
    obtain ⟨y, z, delta, hacc⟩ := submitReceiptBatch_ok hok
    rw [step, chainStep_ok (process_submit hok), hacc.post, setEpochState_stats, setStats_self, Option.map_some, hacc.root]

theorem genesis_remembers (config : WitnessRewardsConfig) (lamports : Holder → Nat)
    (tokens : Tokens) (clock : Clock) :
    Remembers ⟨clock, State.genesis config lamports tokens⟩ [] := by
  refine ⟨⟨fun e m x hx => ?_, fun e es hes => ?_⟩, fun e m _ => rfl, fun e m x hx => ?_⟩
  · cases hx
  · cases hes
  · cases hx

/-- **One step**: it accepts a root that was accepted before exactly if it is a replay. -/
theorem replays_iff (h : Remembers c l) :
    (∃ e m root, acceptedRoot e m (event (step dep) c a) = some root ∧ root ∈ accepted e m l) ↔
      Replays l c a := by
  constructor
  · rintro ⟨e, m, root, hroot, hmem⟩
    obtain ⟨s, count, names, colos, rfl, rfl, hok⟩ := acceptedRoot_eq_some.1 hroot
    cases hx : c.accounts.stats e s.key with
    | none =>
      rw [h.fresh e s.key hx] at hmem
      cases hmem
    | some x =>
      obtain ⟨hpasses, hne⟩ := (submitReceiptBatch_isOk h.addressed hx).1 hok
      refine ⟨s, e, root, count, names, colos, rfl, hmem, ?_, hpasses⟩
      rw [h.last e s.key x hx]
      exact fun he => hne (Option.some.inj he)
  · rintro ⟨s, e, root, count, names, colos, rfl, hmem, hlast, hpasses⟩
    refine ⟨e, s.key, root, acceptedRoot_eq_some.2 ⟨s, count, names, colos, rfl, rfl, ?_⟩, hmem⟩
    cases hx : c.accounts.stats e s.key with
    | none =>
      rw [h.fresh e s.key hx] at hmem
      cases hmem
    | some x =>
      refine (submitReceiptBatch_isOk h.addressed hx).2 ⟨hpasses, fun he => hlast ?_⟩
      rw [h.last e s.key x hx, he]

end Runs

/-- **Exactly when no batch is replayed.** In a run of the program no root is accepted twice for one
miner and epoch if and only if no step submits, past the other checks, an accepted root behind the
last one. -/
theorem no_replay_iff (dep : Deployment) (config : WitnessRewardsConfig) (lamports : Holder → Nat)
    (tokens : Tokens) (clock : Clock) (is : List (Action Instr)) :
    let start : Chain State := ⟨clock, State.genesis config lamports tokens⟩
    NoReplay (trace (step dep) start is) ↔ ∀ pre a post, is = pre ++ a :: post →
      ¬Replays (trace (step dep) start pre) (exec (step dep) start pre) a := by
  intro start
  have hremembers (pre : List (Action Instr)) :
      Remembers (exec (step dep) start pre) (trace (step dep) start pre) :=
    history_of_step (fun _ _ a h => remembers_step a h)
      (genesis_remembers config lamports tokens clock) pre
  constructor
  · intro hlaw pre a post his hreplays
    obtain ⟨e, m, root, hroot, hmem⟩ := (replays_iff (hremembers pre)).2 hreplays
    exact (nodup_filterMap_trace _).1 (hlaw e m) pre a post his root hroot hmem
  · intro hnone e m
    refine (nodup_filterMap_trace _).2 fun pre a post his root hroot hmem => ?_
    exact hnone pre a post his ((replays_iff (hremembers pre)).1 ⟨e, m, root, hroot, hmem⟩)

/-! ## A batch that is rewarded twice -/

/-- A miner. -/
def exampleMiner : Signer := ⟨1, one_ne_default⟩

/-- A deployment with the rent of the cluster. -/
def exampleDeployment : Deployment := ⟨fun size => (128 + size) * 6960, 2⟩

/-- A fresh deployment whose miners need a bond of 100 lamports and earn 5 tokens a receipt. -/
def exampleGenesis : Chain State where
  clock := ⟨0, 0⟩
  accounts := State.genesis
    { authority := 3, tollMint := 4, rewardVault := 5, epochLenSlots := 10
      maxRewardPerEpoch := 1000, minBondLamports := 100, rewardPerReceipt := 5
      maxRewardableReceiptsPerMinerPerEpoch := 50, cooldownSlots := 0, enabled := true
      epochLen_pos := tenSlots_pos, maxReward_lt := by decide, reward_lt := by decide
      maxReceipts_lt := by decide }
    (fun h => if h = .wallet 1 then 10 ^ 9 else 0) (fun _ => none)

/-- The roots 7, 8 and 7 again, in one epoch. -/
def exampleRun : List (Action Instr) :=
  [.submit (.depositBond exampleMiner 100),
    .submit (.submitReceiptBatch exampleMiner 0 7 10 0 0),
    .submit (.submitReceiptBatch exampleMiner 0 8 10 0 0),
    .submit (.submitReceiptBatch exampleMiner 0 7 10 0 0)]

/-- The batch with the root 7 is accepted and rewarded twice. -/
theorem exampleRun_replays :
    ¬NoReplay (trace (step exampleDeployment) exampleGenesis exampleRun) := by
  intro hlaw
  have haccepted : accepted 0 1 (trace (step exampleDeployment) exampleGenesis exampleRun) =
      [7, 8, 7] := by decide
  have hnodup := hlaw 0 1
  rw [haccepted] at hnodup
  exact absurd hnodup (by decide)

end Ddns.WitnessRewards
