import Ddns.StakeGov.Cooldown
import Ddns.StakeGov.Positions

/-!
# Locks

A position adds all its locks up in one amount, with one end and one multiplier. `lock_held` says
that a lock is held to its own end, whatever the others do, save what a slash takes. The multiplier
is the best of the locks since nothing was locked last, also of those that have run out;
`multiplier_iff` says when this is the best of the locks that run.
-/

namespace Ddns.StakeGov

open Tx Runs

/-- A lock as it was called: its end, its amount and its multiplier. -/
structure LockCall where
  endEpoch : Nat
  amount : Nat
  multiplierBps : Nat
  deriving DecidableEq, Repr

/-- The lock of `w` that a step makes. -/
def lockCall (w : Pubkey) (e : Step) : Option LockCall :=
  match e.input, e.out with
  | .submit (.lock s n k), some (.ok _) =>
    if s.key = w then some ⟨chainEpoch e.pre + k, n,
      chooseMultiplierBps e.pre.accounts.config.lockTiers k⟩
    else none
  | _, _ => none

/-- The locks of `w` in a run. -/
def lockCalls (w : Pubkey) (l : List Step) : List LockCall := l.filterMap (lockCall w)

/-- What the locks with an end after `epoch` amount to. -/
def held (epoch : Nat) (ks : List LockCall) : Nat :=
  ((ks.filter fun k => epoch < k.endEpoch).map LockCall.amount).sum

/-- What the position of `w` counts as locked; nothing if there is none. -/
def State.locked (st : State) (w : Pubkey) : Nat :=
  ((st.position w).map StakePosition.lockedAmount).getD 0

def State.lockEnd (st : State) (w : Pubkey) : Nat :=
  ((st.position w).map StakePosition.lockEndEpoch).getD 0

def State.multiplier (st : State) (w : Pubkey) : Nat :=
  ((st.position w).map StakePosition.lockMultiplierBps).getD bpsDenom

/-- What a step that slashes `w` takes from its locks. -/
def slashedLock (w : Pubkey) (e : Step) : Nat :=
  match e.input with
  | .submit (.applySlash _ o _ _ _ _) =>
    if o = w then e.pre.accounts.locked w - e.post.accounts.locked w else 0
  | _ => 0

def slashedLocks (w : Pubkey) (l : List Step) : Nat := (l.map (slashedLock w)).sum

/-! ## The locks of a position -/

section Effects

variable {dep : Deployment} {clock : Clock} {st st' : State} {i : Instr} {n : Nat} {w : Pubkey}

/-- The lock of `w` is the same in both states. -/
structure SameLock (st st' : State) (w : Pubkey) : Prop where
  locked : st'.locked w = st.locked w
  lockEnd : st'.lockEnd w = st.lockEnd w
  multiplier : st'.multiplier w = st.multiplier w

theorem SameLock.of_eq (h : st'.position w = st.position w) : SameLock st st' w :=
  ⟨by simp only [State.locked, h], by simp only [State.lockEnd, h],
    by simp only [State.multiplier, h]⟩

theorem locked_of_some {p : StakePosition} (h : st.position w = some p) :
    st.locked w = p.lockedAmount ∧ st.lockEnd w = p.lockEndEpoch ∧
      st.multiplier w = p.lockMultiplierBps := by
  simp [State.locked, State.lockEnd, State.multiplier, h]

theorem locked_setPosition (st : State) (k : Pubkey) (p : StakePosition) :
    (st.setPosition k p).locked k = p.lockedAmount ∧
      (st.setPosition k p).lockEnd k = p.lockEndEpoch ∧
      (st.setPosition k p).multiplier k = p.lockMultiplierBps :=
  locked_of_some (by rw [setPosition_position, Function.update_self])

/-- What an instruction does to the lock of `w`. -/
inductive LockEffect (config : StakeGovConfig) (epoch : Nat) (st st' : State) (w : Pubkey) :
    Instr → Prop
  | same {i : Instr} (hlock : ∀ s n e, i = .lock s n e → s.key ≠ w)
    (hslash : ∀ s o e bps r ev, i = .applySlash s o e bps r ev → o ≠ w) (h : SameLock st st' w) :
    LockEffect config epoch st st' w i
  | lock {s : Signer} {n e : Nat} (hkey : s.key = w) (hn : 0 < n) (hlocked : st'.locked w = st.locked w + n)
    (hend : st'.lockEnd w = max (st.lockEnd w) (epoch + e))
    (hmult : st'.multiplier w =
      max (st.multiplier w) (chooseMultiplierBps config.lockTiers e)) :
    LockEffect config epoch st st' w (.lock s n e)
  | unlock {s : Signer} (hover : st.lockEnd w ≤ epoch) (hlocked : st'.locked w = 0)
    (hend : st'.lockEnd w = 0) (hmult : st'.multiplier w = bpsDenom) :
    LockEffect config epoch st st' w (.unlockExpired s)
  | slash {s : Signer} {e bps : Nat} {r ev : Hash} (hle : st'.locked w ≤ st.locked w)
    (hend : st'.lockEnd w = st.lockEnd w ∧ st'.multiplier w = st.multiplier w ∧
        (st'.locked w = 0 → st.locked w = 0) ∨
      st'.lockEnd w = 0 ∧ st'.multiplier w = bpsDenom ∧ st'.locked w = 0) :
    LockEffect config epoch st st' w (.applySlash s w e bps r ev)

/-- A slash takes from the lock, or ends it. -/
theorem slashStake_lock (p : StakePosition) (n : Nat) :
    (slashStake p n).lockedAmount ≤ p.lockedAmount ∧
      ((slashStake p n).lockEndEpoch = p.lockEndEpoch ∧
          (slashStake p n).lockMultiplierBps = p.lockMultiplierBps ∧
          ((slashStake p n).lockedAmount = 0 → p.lockedAmount = 0) ∨
        (slashStake p n).lockEndEpoch = 0 ∧ (slashStake p n).lockMultiplierBps = bpsDenom ∧
          (slashStake p n).lockedAmount = 0) := by
  have hshrink (p : StakePosition) : (shrinkPending p).lockedAmount = p.lockedAmount ∧
      (shrinkPending p).lockEndEpoch = p.lockEndEpoch ∧
      (shrinkPending p).lockMultiplierBps = p.lockMultiplierBps := by
    rcases shrinkPending_cases p with h | ⟨left, -, h⟩ <;> rw [h] <;> exact ⟨rfl, rfl, rfl⟩
  unfold slashStake
  split
  · rw [(hshrink _).1, (hshrink _).2.1, (hshrink _).2.2]
    rcases slashLocked_cases p n with h | ⟨left, hpos, hle, h⟩ | h <;> rw [h]
    · exact ⟨Nat.le_refl _, .inl ⟨rfl, rfl, id⟩⟩
    · exact ⟨hle, .inl ⟨rfl, rfl, fun hzero => absurd hzero hpos.ne'⟩⟩
    · exact ⟨Nat.zero_le _, .inr ⟨rfl, rfl, rfl⟩⟩
  · exact ⟨Nat.le_refl _, .inl ⟨rfl, rfl, id⟩⟩

/-- A write that keeps the lock of the position. -/
theorem SameLock.of_update {k : Pubkey} {p p' : StakePosition}
    (hpos : st'.position = Function.update st.position k (some p')) (hp : st.position k = some p)
    (hsame : p'.lockedAmount = p.lockedAmount ∧ p'.lockEndEpoch = p.lockEndEpoch ∧
      p'.lockMultiplierBps = p.lockMultiplierBps) : SameLock st st' w := by
  by_cases hw : w = k
  · subst hw
    have hp' : st'.position w = some p' := by rw [hpos, Function.update_self]
    obtain ⟨h₁, h₂, h₃⟩ := locked_of_some hp
    obtain ⟨h₁', h₂', h₃'⟩ := locked_of_some hp'
    exact ⟨by rw [h₁, h₁', hsame.1], by rw [h₂, h₂', hsame.2.1], by rw [h₃, h₃', hsame.2.2]⟩
  · refine SameLock.of_eq ?_
    rw [hpos, Function.update_of_ne hw]

theorem SameLock.of_ne {k : Pubkey} {p' : StakePosition} (hw : w ≠ k)
    (hpos : st'.position = Function.update st.position k (some p')) : SameLock st st' w := by
  refine SameLock.of_eq ?_
  rw [hpos, Function.update_of_ne hw]

theorem Effect.lockEffect (he : Effect dep clock st i st' n) (w : Pubkey) :
    LockEffect st.config (currentEpoch st.config clock) st st' w i := by
  cases he with
  | registerVerifier | setVerifierActive | submitSnapshot | splTransfer | unlockNone =>
    exact .same nofun nofun (SameLock.of_eq rfl)
  | @initStakePosition s hnew =>
    refine .same nofun nofun ?_
    by_cases hw : w = s.key
    · subst hw
      have hp' : (st.setPosition s.key (StakePosition.fresh s.key)).position s.key =
          some (StakePosition.fresh s.key) := Function.update_self ..
      obtain ⟨h₁, h₂, h₃⟩ := locked_of_some hp'
      exact ⟨by rw [h₁]; simp [State.locked, hnew, StakePosition.fresh],
        by rw [h₂]; simp [State.lockEnd, hnew, StakePosition.fresh],
        by rw [h₃]; simp [State.multiplier, hnew, StakePosition.fresh]⟩
    · exact SameLock.of_ne hw rfl
  | stake _ hp | requestExit _ hp | finalizeWithdraw hp | setDelegate hp
  | setDelegationSlashable hp =>
    exact .same nofun nofun (SameLock.of_update rfl hp ⟨rfl, rfl, rfl⟩)
  | @lock s n e p hn hp hle hbounds =>
    by_cases hw : w = s.key
    · subst hw
      obtain ⟨h₁, h₂, h₃⟩ := locked_of_some hp
      refine .lock rfl hn ?_ ?_ ?_
      · rw [h₁]
        exact (locked_setPosition ..).1
      · rw [h₂]
        exact (locked_setPosition ..).2.1
      · rw [h₃]
        exact (locked_setPosition ..).2.2
    · refine .same ?_ nofun (SameLock.of_ne hw rfl)
      rintro s' n' e' hi rfl
      cases hi
      exact hw rfl
  | @unlockExpired s p hp hend hover =>
    by_cases hw : w = s.key
    · subst hw
      obtain ⟨h₁, h₂, h₃⟩ := locked_of_some hp
      refine .unlock (h₂ ▸ hover) ?_ ?_ ?_
      · exact (locked_setPosition ..).1
      · exact (locked_setPosition ..).2.1
      · exact (locked_setPosition ..).2.2
    · exact .same nofun nofun (SameLock.of_ne hw rfl)
  | @applySlash s o e bps r ev p vs amount _ hp =>
    by_cases hw : w = o
    · subst hw
      obtain ⟨h₁, h₂, h₃⟩ := locked_of_some hp
      obtain ⟨hle, hend⟩ := slashStake_lock p amount
      have hp' : (({ st with verifiers := vs }.setPosition w
          { slashStake p amount with lastSlashEpoch := currentEpoch st.config clock }).setSlashRecord
            ⟨e, w, bps, amount, r, ev, clock.slot, s.key⟩).position w =
          some { slashStake p amount with lastSlashEpoch := currentEpoch st.config clock } :=
        Function.update_self ..
      obtain ⟨h₁', h₂', h₃'⟩ := locked_of_some hp'
      refine .slash ?_ ?_
      · rw [h₁, h₁']
        exact hle
      · rw [h₁, h₂, h₃, h₁', h₂', h₃']
        exact hend
    · refine .same nofun ?_ (SameLock.of_ne hw rfl)
      rintro s' o' e' bps' r' ev' hi rfl
      cases hi
      exact hw rfl

end Effects

section Steps

variable {dep : Deployment} {w : Pubkey}

/-- What a step does to the lock of `w`, and what it is counted as. -/
inductive LockStep (w : Pubkey) (e : Step) : Prop
  | quiet (hcall : lockCall w e = none) (hslash : slashedLock w e = 0)
    (hepoch : chainEpoch e.pre ≤ chainEpoch e.post)
    (h : SameLock e.pre.accounts e.post.accounts w)
  | lock (k : LockCall) (hcall : lockCall w e = some k) (hslash : slashedLock w e = 0)
    (hepoch : chainEpoch e.post = chainEpoch e.pre) (hn : 0 < k.amount)
    (hlocked : e.post.accounts.locked w = e.pre.accounts.locked w + k.amount)
    (hend : e.post.accounts.lockEnd w = max (e.pre.accounts.lockEnd w) k.endEpoch)
    (hmult : e.post.accounts.multiplier w = max (e.pre.accounts.multiplier w) k.multiplierBps)
  | unlock (hcall : lockCall w e = none) (hslash : slashedLock w e = 0)
    (hepoch : chainEpoch e.post = chainEpoch e.pre)
    (hover : e.pre.accounts.lockEnd w ≤ chainEpoch e.pre)
    (hlocked : e.post.accounts.locked w = 0) (hend : e.post.accounts.lockEnd w = 0)
    (hmult : e.post.accounts.multiplier w = bpsDenom)
  | slash (hcall : lockCall w e = none)
    (hslash : slashedLock w e = e.pre.accounts.locked w - e.post.accounts.locked w)
    (hepoch : chainEpoch e.post = chainEpoch e.pre)
    (hle : e.post.accounts.locked w ≤ e.pre.accounts.locked w)
    (hend : e.post.accounts.lockEnd w = e.pre.accounts.lockEnd w ∧
        e.post.accounts.multiplier w = e.pre.accounts.multiplier w ∧
        (e.post.accounts.locked w = 0 → e.pre.accounts.locked w = 0) ∨
      e.post.accounts.lockEnd w = 0 ∧ e.post.accounts.multiplier w = bpsDenom ∧
        e.post.accounts.locked w = 0)

theorem lockCall_error {c c' : Chain State} {i : Instr} {err : Failure StakeGovError} :
    lockCall w ⟨c, .submit i, some (.error err), c'⟩ = none := by
  cases i <;> rfl

theorem slashedLock_same {c : Chain State} {a : Action Instr}
    {out : Option (Result StakeGovError Nat)} : slashedLock w ⟨c, a, out, c⟩ = 0 := by
  unfold slashedLock
  split
  · split
    · exact Nat.sub_self _
    · rfl
  · rfl

theorem lockStep (dep : Deployment) (w : Pubkey) (c : Chain State) (a : Action Instr) :
    LockStep w (event (step dep) c a) := by
  unfold event
  rcases chainStep_cases (process dep) c a with
    ⟨k, ts, rfl, hs⟩ | ⟨i, st', n, rfl, hok, hs⟩ | ⟨i, err, rfl, -, hs⟩
  · rw [step, hs]
    exact .quiet rfl rfl (Nat.div_le_div_right (Nat.le_add_right ..)) (SameLock.of_eq rfl)
  · rw [step, hs]
    have he := (process_effect hok).2
    have hepoch : chainEpoch ⟨c.clock, st'⟩ = chainEpoch c := by
      simp only [chainEpoch, he.config_eq]
    cases he.lockEffect w with
    | same hlock hslash h =>
      refine .quiet ?_ ?_ (Nat.le_of_eq hepoch.symm) h
      · unfold lockCall
        split
        · next s n e _ hi _ =>
          have hne : s.key ≠ w := hlock s n e (Action.submit.inj hi)
          exact if_neg hne
        · rfl
      · unfold slashedLock
        split
        · next s o e bps r ev hi =>
          have hne : o ≠ w := hslash s o e bps r ev (Action.submit.inj hi)
          exact if_neg hne
        · rfl
    | @lock s n e hkey hn hlocked hend hmult =>
      exact .lock _ (if_pos hkey) rfl hepoch hn hlocked hend hmult
    | unlock hover hlocked hend hmult => exact .unlock rfl rfl hepoch hover hlocked hend hmult
    | slash hle hend => exact .slash rfl (if_pos rfl) hepoch hle hend
  · rw [step, hs]
    exact .quiet lockCall_error slashedLock_same (Nat.le_refl _) (SameLock.of_eq rfl)

end Steps

/-! ## Locks are held -/

section Held

variable {dep : Deployment} {w : Pubkey} {c c' : Chain State} {l : List Step} {e : Step}
  {ks : List LockCall} {k : LockCall}

theorem held_anti {m n : Nat} (h : m ≤ n) (ks : List LockCall) : held n ks ≤ held m ks := by
  induction ks with
  | nil => exact Nat.le_refl _
  | cons k ks ih =>
    unfold held at ih ⊢
    by_cases hn : n < k.endEpoch
    · rw [List.filter_cons_of_pos (by simpa using hn),
        List.filter_cons_of_pos (by simpa using Nat.lt_of_le_of_lt h hn)]
      exact Nat.add_le_add_left ih _
    · rw [List.filter_cons_of_neg (by simpa using hn)]
      by_cases hm : m < k.endEpoch
      · rw [List.filter_cons_of_pos (by simpa using hm)]
        exact Nat.le_trans ih (Nat.le_add_left ..)
      · rw [List.filter_cons_of_neg (by simpa using hm)]
        exact ih

theorem held_append (n : Nat) (ks ks' : List LockCall) :
    held n (ks ++ ks') = held n ks + held n ks' := by
  simp [held]

theorem held_single (n : Nat) (k : LockCall) :
    held n [k] = if n < k.endEpoch then k.amount else 0 := by
  unfold held
  by_cases h : n < k.endEpoch <;> simp [h]

theorem slashedLocks_append (w : Pubkey) (l : List Step) (e : Step) :
    slashedLocks w (l ++ [e]) = slashedLocks w l + slashedLock w e := by
  simp [slashedLocks]

/-- The locks of `w` that run are locked, save what was slashed; those that end after the lock of
the position were slashed. -/
structure LocksHeld (w : Pubkey) (c : Chain State) (l : List Step) : Prop where
  running : held (chainEpoch c) (lockCalls w l) ≤ c.accounts.locked w + slashedLocks w l
  beyond : held (max (chainEpoch c) (c.accounts.lockEnd w)) (lockCalls w l) ≤ slashedLocks w l

theorem LockStep.keepsHeld (hs : LockStep w e) (h : LocksHeld w e.pre l) :
    LocksHeld w e.post (l ++ [e]) := by
  have hanti {m n : Nat} (hle : m ≤ n) := held_anti hle (lockCalls w l)
  have hrunning := h.running
  have hbeyond := h.beyond
  cases hs with
  | quiet hcall hslash hepoch hsame =>
    have hcalls : lockCalls w (l ++ [e]) = lockCalls w l := filterMap_concat_none hcall l
    constructor
    · rw [hcalls, slashedLocks_append, hslash, hsame.locked]
      exact Nat.le_trans (hanti hepoch) hrunning
    · rw [hcalls, slashedLocks_append, hslash, hsame.lockEnd]
      exact Nat.le_trans (hanti (max_le_max_right _ hepoch)) hbeyond
  | lock k hcall hslash hepoch hn hlocked hend hmult =>
    have hcalls : lockCalls w (l ++ [e]) = lockCalls w l ++ [k] := filterMap_concat_some hcall l
    constructor
    · have hnew : held (chainEpoch e.pre) [k] ≤ k.amount := by
        rw [held_single]
        split <;> omega
      rw [hcalls, slashedLocks_append, hslash, held_append, hlocked, hepoch]
      omega
    · -- the new lock does not end after the lock of the position
      have hnew : held (max (chainEpoch e.pre) (max (e.pre.accounts.lockEnd w) k.endEpoch)) [k] = 0 := by
        rw [held_single]
        exact if_neg (by omega)
      have hold := hanti (m := max (chainEpoch e.pre) (e.pre.accounts.lockEnd w))
        (n := max (chainEpoch e.pre) (max (e.pre.accounts.lockEnd w) k.endEpoch)) (by omega)
      rw [hcalls, slashedLocks_append, hslash, held_append, hend, hepoch, hnew]
      omega
  | unlock hcall hslash hepoch hover hlocked hend hmult =>
    have hcalls : lockCalls w (l ++ [e]) = lockCalls w l := filterMap_concat_none hcall l
    rw [Nat.max_eq_left hover] at hbeyond
    constructor
    · rw [hcalls, slashedLocks_append, hslash, hlocked, hepoch]
      omega
    · rw [hcalls, slashedLocks_append, hslash, hend, hepoch, Nat.max_eq_left (Nat.zero_le _)]
      omega
  | slash hcall hslash hepoch hle hend =>
    have hcalls : lockCalls w (l ++ [e]) = lockCalls w l := filterMap_concat_none hcall l
    constructor
    · rw [hcalls, slashedLocks_append, hslash, hepoch]
      omega
    · rw [hcalls, slashedLocks_append, hslash, hepoch]
      rcases hend with ⟨hsame, -, -⟩ | ⟨hnone, -, hzero⟩
      · rw [hsame]
        omega
      · -- nothing is locked any more, so all that ran was slashed
        rw [hnone, Nat.max_eq_left (Nat.zero_le _)]
        omega

/-- **Locks are held.** From any point of a run on, the locks of a staker that have not reached their
own ends are counted as locked, save what slashes took from the locks since; and what is locked is
not liquid. -/
theorem lock_held (dep : Deployment) (config : StakeGovConfig) (tokens : Tokens) (clock : Clock)
    (pre post : List (Action Instr)) (w : Pubkey) :
    let start := exec (step dep) ⟨clock, State.genesis config tokens⟩ pre
    let c := exec (step dep) start post
    let l := trace (step dep) start post
    held (chainEpoch c) (lockCalls w l) ≤ c.accounts.locked w + slashedLocks w l ∧
      ∀ p, c.accounts.position w = some p →
        p.availableLiquid + p.lockedAmount + p.pendingWithdrawAmount = p.stakedAmount := by
  intro start c l
  constructor
  · have hheld : LocksHeld w c l := history_of_step (J := LocksHeld w)
      (fun c l a h => (lockStep dep w c a).keepsHeld h) ⟨Nat.zero_le _, Nat.zero_le _⟩ post
    exact hheld.running
  · have hcovered : start.accounts.Covered := exec_induction chain_covered
      (fun _ _ h => by cases h) pre
    intro p hp
    have hp' : p.Covered := exec_induction chain_covered hcovered post w p hp
    unfold StakePosition.Covered at hp'
    unfold StakePosition.availableLiquid
    omega

end Held

/-! ## The multiplier -/

section Multiplier

variable {dep : Deployment} {w : Pubkey} {l : List Step} {e : Step} {ks ks' : List LockCall}
  {k : LockCall} {epoch : Nat}

/-- The best multiplier of locks, and the one without a lock if there are none. -/
def best (ks : List LockCall) : Nat := ks.foldl (fun m k => max m k.multiplierBps) bpsDenom

/-- The locks of `w` that make up what is locked: those since nothing was locked last. -/
def observeLock (w : Pubkey) (ks : List LockCall) (e : Step) : List LockCall :=
  if e.post.accounts.locked w = 0 then []
  else ks ++ (lockCall w e).toList

def standing (w : Pubkey) (l : List Step) : List LockCall := l.foldl (observeLock w) []

/-- The locks that end after `epoch`. -/
def running (epoch : Nat) (ks : List LockCall) : List LockCall :=
  ks.filter fun k => epoch < k.endEpoch

/-- At the lock `k`, made in `epoch` after the steps `l`, every standing lock that has run out is
worth no more than a running one, and so is every running lock that does not stand any more. -/
structure Current (w : Pubkey) (l : List Step) (epoch : Nat) (k : LockCall) : Prop where
  expired : ∀ x ∈ standing w l ++ [k], x.endEpoch ≤ epoch →
    x.multiplierBps ≤ bpsDenom ∨
      ∃ y ∈ lockCalls w l ++ [k], epoch < y.endEpoch ∧ x.multiplierBps ≤ y.multiplierBps
  slashed : ∀ y ∈ lockCalls w l ++ [k], epoch < y.endEpoch → y ∉ standing w l ++ [k] →
    y.multiplierBps ≤ bpsDenom ∨ ∃ x ∈ standing w l ++ [k], y.multiplierBps ≤ x.multiplierBps

theorem best_append (ks ks' : List LockCall) :
    best (ks ++ ks') = ks'.foldl (fun m k => max m k.multiplierBps) (best ks) := List.foldl_append

theorem best_concat (ks : List LockCall) (k : LockCall) :
    best (ks ++ [k]) = max (best ks) k.multiplierBps := best_append ks [k]

theorem best_le_iff {m : Nat} :
    best ks ≤ m ↔ bpsDenom ≤ m ∧ ∀ k ∈ ks, k.multiplierBps ≤ m := by
  induction ks using List.reverseRecOn with
  | nil => exact ⟨fun h => ⟨h, nofun⟩, And.left⟩
  | append_singleton ks k ih =>
    rw [best_concat, Nat.max_le, ih, List.forall_mem_append, List.forall_mem_singleton, and_assoc]

theorem le_best_iff {m : Nat} :
    m ≤ best ks ↔ m ≤ bpsDenom ∨ ∃ k ∈ ks, m ≤ k.multiplierBps := by
  induction ks using List.reverseRecOn with
  | nil => exact ⟨Or.inl, fun h => h.resolve_right fun ⟨_, hk, _⟩ => nomatch hk⟩
  | append_singleton ks k ih =>
    rw [best_concat, le_max_iff, ih]
    simp only [List.mem_append, List.mem_singleton, or_and_right, exists_or, exists_eq_left, or_assoc]

theorem best_eq_iff : best ks = best ks' ↔
    (∀ k ∈ ks, k.multiplierBps ≤ bpsDenom ∨ ∃ k' ∈ ks', k.multiplierBps ≤ k'.multiplierBps) ∧
      ∀ k' ∈ ks', k'.multiplierBps ≤ bpsDenom ∨
        ∃ k ∈ ks, k'.multiplierBps ≤ k.multiplierBps := by
  have hbase (ks : List LockCall) : bpsDenom ≤ best ks := le_best_iff.2 (.inl (Nat.le_refl _))
  constructor
  · intro h
    constructor
    · intro k hk
      exact le_best_iff.1 (h ▸ (best_le_iff.1 (Nat.le_refl _)).2 k hk)
    · intro k' hk'
      exact le_best_iff.1 (h ▸ (best_le_iff.1 (Nat.le_refl _)).2 k' hk')
  · rintro ⟨h, h'⟩
    apply Nat.le_antisymm
    · exact best_le_iff.2 ⟨hbase ks', fun k hk => le_best_iff.2 (h k hk)⟩
    · exact best_le_iff.2 ⟨hbase ks, fun k' hk' => le_best_iff.2 (h' k' hk')⟩

theorem standing_append (w : Pubkey) (l : List Step) (e : Step) :
    standing w (l ++ [e]) = observeLock w (standing w l) e := by
  simp [standing]

/-- The position of `w` has the multiplier of its standing locks, and none if nothing is locked. -/
structure Earned (w : Pubkey) (c : Chain State) (l : List Step) : Prop where
  multiplier : c.accounts.multiplier w = best (standing w l)
  none : c.accounts.locked w = 0 → standing w l = []
  made : ∀ k ∈ standing w l, k ∈ lockCalls w l

/-- A step that makes no lock leaves the standing locks alone, or none. -/
theorem observeLock_none (hcall : lockCall w e = none) (h : Earned w e.pre l)
    (hzero : e.post.accounts.locked w = 0 → e.pre.accounts.locked w = 0) :
    standing w (l ++ [e]) = standing w l := by
  rw [standing_append, observeLock, hcall]
  split
  · next hnone => exact (h.none (hzero hnone)).symm
  · exact List.append_nil _

theorem LockStep.keepsEarned (hs : LockStep w e) (h : Earned w e.pre l) :
    Earned w e.post (l ++ [e]) := by
  cases hs with
  | quiet hcall hslash hepoch hsame =>
    have hzero : e.post.accounts.locked w = 0 → e.pre.accounts.locked w = 0 :=
      fun hnone => hsame.locked ▸ hnone
    refine ⟨?_, ?_, ?_⟩
    · rw [observeLock_none hcall h hzero, hsame.multiplier]
      exact h.multiplier
    · rw [observeLock_none hcall h hzero]
      exact fun hnone => h.none (hzero hnone)
    · rw [observeLock_none hcall h hzero, lockCalls, filterMap_concat_none hcall]
      exact h.made
  | lock k hcall hslash hepoch hn hlocked hend hmult =>
    have hsome : e.post.accounts.locked w ≠ 0 := by omega
    have hstanding : standing w (l ++ [e]) = standing w l ++ [k] := by
      rw [standing_append, observeLock, if_neg hsome, hcall]
      rfl
    refine ⟨?_, fun hnone => absurd hnone hsome, ?_⟩
    · rw [hstanding, best_concat, hmult, h.multiplier]
    · rw [hstanding, lockCalls, filterMap_concat_some hcall]
      intro x hx
      exact List.mem_append.2 ((List.mem_append.1 hx).imp_left (h.made x))
  | unlock hcall hslash hepoch hover hlocked hend hmult =>
    have hstanding : standing w (l ++ [e]) = [] := by
      rw [standing_append, observeLock, if_pos hlocked]
    refine ⟨?_, fun _ => hstanding, ?_⟩
    · rw [hstanding, hmult]
      rfl
    · rw [hstanding]
      exact nofun
  | slash hcall hslash hepoch hle hend =>
    rcases hend with ⟨-, hmult, hzero⟩ | ⟨-, hmult, hnone⟩
    · refine ⟨?_, ?_, ?_⟩
      · rw [observeLock_none hcall h hzero, hmult]
        exact h.multiplier
      · rw [observeLock_none hcall h hzero]
        exact fun hnone => h.none (hzero hnone)
      · rw [observeLock_none hcall h hzero, lockCalls, filterMap_concat_none hcall]
        exact h.made
    · have hstanding : standing w (l ++ [e]) = [] := by
        rw [standing_append, observeLock, if_pos hnone]
      refine ⟨?_, fun _ => hstanding, ?_⟩
      · rw [hstanding, hmult]
        rfl
      · rw [hstanding]
        exact nofun

/-- A step that makes a lock raises the multiplier to it. -/
theorem LockStep.multiplier_eq (hs : LockStep w e) (hcall : lockCall w e = some k) :
    e.post.accounts.multiplier w = max (e.pre.accounts.multiplier w) k.multiplierBps := by
  cases hs with
  | quiet hnone | unlock hnone | slash hnone => exact nomatch hcall.symm.trans hnone
  | lock k' hsome _ _ _ _ _ hmult =>
    cases hcall.symm.trans hsome
    exact hmult

theorem mem_running {x : LockCall} : x ∈ running epoch ks ↔ x ∈ ks ∧ epoch < x.endEpoch := by
  simp [running]

/-- After a lock, the multiplier is the best of the running locks exactly if the lock is current. -/
theorem Earned.multiplier_eq_iff (h : Earned w e.pre l) (hs : LockStep w e)
    (hcall : lockCall w e = some k) :
    e.post.accounts.multiplier w = best (running (chainEpoch e.pre) (lockCalls w l ++ [k])) ↔
      Current w l (chainEpoch e.pre) k := by
  have hmade : ∀ x ∈ standing w l ++ [k], x ∈ lockCalls w l ++ [k] :=
    fun x hx => List.mem_append.2 ((List.mem_append.1 hx).imp_left (h.made x))
  rw [hs.multiplier_eq hcall, h.multiplier, ← best_concat, best_eq_iff]
  constructor
  · rintro ⟨hstanding, hrunning⟩
    constructor
    · intro x hx _
      obtain hone | ⟨y, hy, hle⟩ := hstanding x hx
      · exact .inl hone
      · obtain ⟨hy, hlt⟩ := mem_running.1 hy
        exact .inr ⟨y, hy, hlt, hle⟩
    · intro y hy hlt _
      exact hrunning y (mem_running.2 ⟨hy, hlt⟩)
  · intro hc
    constructor
    · intro x hx
      by_cases hlt : chainEpoch e.pre < x.endEpoch
      · -- a lock that runs is its own bound
        exact .inr ⟨x, mem_running.2 ⟨hmade x hx, hlt⟩, Nat.le_refl _⟩
      · obtain hone | ⟨y, hy, hylt, hle⟩ := hc.expired x hx (Nat.le_of_not_lt hlt)
        · exact .inl hone
        · exact .inr ⟨y, mem_running.2 ⟨hy, hylt⟩, hle⟩
    · intro y hy
      obtain ⟨hy, hlt⟩ := mem_running.1 hy
      by_cases hin : y ∈ standing w l ++ [k]
      · exact .inr ⟨y, hin, Nat.le_refl _⟩
      · exact hc.slashed y hy hlt hin

end Multiplier

/-- After every lock of a run, the multiplier is the best of the locks that run. -/
def MultiplierLaw (dep : Deployment) (start : Chain State) (is : List (Action Instr)) : Prop :=
  ∀ pre a post w k, is = pre ++ a :: post →
    let c := exec (step dep) start pre
    let l := trace (step dep) start pre
    lockCall w (event (step dep) c a) = some k →
    (step dep c a).1.accounts.multiplier w =
      best (running (chainEpoch c) (lockCalls w l ++ [k]))

/-- **The multiplier** after every lock of a run is the best of the locks that run, exactly if every
lock of the run is current. -/
theorem multiplier_iff (dep : Deployment) (config : StakeGovConfig) (tokens : Tokens)
    (clock : Clock) (is : List (Action Instr)) :
    MultiplierLaw dep ⟨clock, State.genesis config tokens⟩ is ↔
    ∀ pre a post w k, is = pre ++ a :: post →
      let c := exec (step dep) ⟨clock, State.genesis config tokens⟩ pre
      let l := trace (step dep) ⟨clock, State.genesis config tokens⟩ pre
      lockCall w (event (step dep) c a) = some k → Current w l (chainEpoch c) k := by
  have hearned (w : Pubkey) (pre : List (Action Instr)) :
      Earned w (exec (step dep) ⟨clock, State.genesis config tokens⟩ pre)
        (trace (step dep) ⟨clock, State.genesis config tokens⟩ pre) :=
    history_of_step (J := Earned w) (fun c l a h => (lockStep dep w c a).keepsEarned h)
      ⟨rfl, fun _ => rfl, nofun⟩ pre
  have hiff (pre : List (Action Instr)) (a : Action Instr) (w : Pubkey) (k : LockCall)
      (hcall : lockCall w (event (step dep)
        (exec (step dep) ⟨clock, State.genesis config tokens⟩ pre) a) = some k) :=
    (hearned w pre).multiplier_eq_iff (e := event (step dep) _ a)
      (lockStep dep w _ a) hcall
  constructor
  · intro h pre a post w k his c l hcall
    exact (hiff pre a w k hcall).1 (h pre a post w k his hcall)
  · intro h pre a post w k his c l hcall
    exact (hiff pre a w k hcall).2 (h pre a post w k his hcall)

/-! ## A lock extended after its end -/

/-- A lock of five epochs or more counts twice. -/
def tieredConfig : StakeGovConfig where
  __ := exampleConfig
  lockTiers := ⟨0, 10000⟩ :: List.replicate 5 ⟨5, 20000⟩
  tiers_ok := by decide

def tieredGenesis : Chain State where
  clock := ⟨0, 0⟩
  accounts := State.genesis tieredConfig exampleGenesis.accounts.tokens

/-- One token is locked for five epochs; six epochs later another is locked for one. -/
def extendedRun : List (Action Instr) :=
  [.submit (.initStakePosition exampleStaker), .submit (.stake exampleStaker 8 11 100),
    .submit (.lock exampleStaker 1 5), .elapse 60 0, .submit (.lock exampleStaker 1 1)]

/-- The short lock has the multiplier of the long one, which has run out. -/
theorem extendedRun_not_multiplier :
    ¬MultiplierLaw exampleDeployment tieredGenesis extendedRun := by
  intro h
  have hmult := h (extendedRun.take 4) (.submit (.lock exampleStaker 1 1)) [] 1 ⟨7, 1, 10000⟩ rfl
    (by decide)
  exact absurd hmult (by decide)

end Ddns.StakeGov
