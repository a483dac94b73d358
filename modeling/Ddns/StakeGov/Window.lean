import Mathlib.Order.Interval.Finset.Nat
import Ddns.StakeGov.Sentinels

/-!
# The dispute window

A slash is for an epoch, and is applied within the dispute window after it. The records make sure
that it is applied once for each epoch, offender and reason. `applySlash` does not look whether the
epoch has come; `slash_window_iff` says that this is all that is missing for a bound on the slashes
of an offender for one reason in one epoch.
-/

namespace Ddns.StakeGov

open Tx Runs

/-- A slash that was applied, and the epoch it was applied in. -/
structure Slash where
  epochId : Nat
  offender : Pubkey
  reasonHash : Hash
  appliedIn : Nat
  deriving DecidableEq, Repr

/-- The seeds of the record of a slash. -/
def Slash.seeds (x : Slash) : Nat × Pubkey × Hash := (x.epochId, x.offender, x.reasonHash)

/-- The slash that a step applies. -/
def slashOf (e : Step) : Option Slash :=
  match e.input, e.out with
  | .submit (.applySlash _ o epochId _ r _), some (.ok _) => some ⟨epochId, o, r, chainEpoch e.pre⟩
  | _, _ => none

/-- The slashes of a run. -/
def slashes (l : List Step) : List Slash := l.filterMap slashOf

/-- The slashes of an offender for one reason in one epoch. -/
def slashesIn (o : Pubkey) (r : Hash) (epoch : Nat) (l : List Step) : List Slash :=
  (slashes l).filter fun x => x.offender = o ∧ x.reasonHash = r ∧ x.appliedIn = epoch

/-- Slashes are applied within the window after their epoch, once each; so an offender suffers for
one reason in one epoch at most one slash for every epoch of the window, and for this one. -/
structure SlashLaw (window : Nat) (l : List Step) : Prop where
  within : ∀ x ∈ slashes l, x.epochId ≤ x.appliedIn ∧ x.appliedIn ≤ x.epochId + window
  once : ((slashes l).map Slash.seeds).Nodup
  bounded : ∀ o r epoch, (slashesIn o r epoch l).length ≤ window + 1

/-- The checks of `applySlash`. -/
structure Slashable (dep : Deployment) (clock : Clock) (st : State) (s : Signer) (o : Pubkey)
    (epochId bps : Nat) (r : Hash) : Prop where
  signer : s.key ≠ dep.vaultAuthority
  vacant : st.slashRecord epochId o r = none
  position : st.position o ≠ none
  authority : s.key ∈ st.config.slashAuthorities
  capped : bps ≤ st.config.maxSlashBpsPerEvent
  within : currentEpoch st.config clock ≤ Checked.satAdd 64 epochId st.config.disputeWindowEpochs
  jail : findIndex st.verifiers o ≠ none →
    currentEpoch st.config clock + st.config.jailEpochsAfterSlash < 2 ^ 64

/-- A slash that passes the checks is for an epoch that has come. -/
def Elapsed (dep : Deployment) (c : Chain State) (a : Action Instr) : Prop :=
  ∀ s o epochId bps r ev, a = .submit (.applySlash s o epochId bps r ev) →
    Slashable dep c.clock c.accounts s o epochId bps r → epochId ≤ chainEpoch c

section Effects

variable {dep : Deployment} {clock : Clock} {st st' : State} {i : Instr} {n : Nat}

def State.Recorded (st : State) (x : Slash) : Prop :=
  st.slashRecord x.epochId x.offender x.reasonHash ≠ none

theorem setSlashRecord_recorded (st : State) (r : SlashRecord) (x : Slash) :
    (st.setSlashRecord r).Recorded x ↔
      x.seeds = (r.epochId, r.offender, r.reasonHash) ∨ st.Recorded x := by
  simp only [State.Recorded, State.setSlashRecord, Slash.seeds, Prod.mk.injEq]
  by_cases he : x.epochId = r.epochId
  · by_cases ho : x.offender = r.offender
    · by_cases hr : x.reasonHash = r.reasonHash
      · simp [he, ho, hr]
      · simp [he, ho, hr]
    · simp [he, ho]
  · simp [he]

theorem recorded_of_seeds {x y : Slash} (hseeds : x.seeds = y.seeds) (h : st.Recorded x) :
    st.Recorded y := by
  simp only [Slash.seeds, Prod.mk.injEq] at hseeds
  obtain ⟨he, ho, hr⟩ := hseeds
  rw [State.Recorded, ← he, ← ho, ← hr]
  exact h

/-- No instruction drops a record. -/
theorem Effect.recorded (he : Effect dep clock st i st' n) {x : Slash} (h : st.Recorded x) :
    st'.Recorded x := by
  cases he with
  | applySlash => exact (setSlashRecord_recorded ..).2 (.inr h)
  | _ => exact h

/-- Jailing fails only where a verifier would be jailed past the end of time. -/
theorem jail_ok_iff {vs : List VerifierInfo} {o : Pubkey} {jailUntil : Option Nat} :
    (∃ vs', jail vs o jailUntil = .ok vs') ↔ (findIndex vs o ≠ none → jailUntil ≠ none) := by
  unfold jail
  cases findIndex vs o with
  | none => exact ⟨fun _ hidx => absurd rfl hidx, fun _ => ⟨vs, rfl⟩⟩
  | some idx =>
    cases jailUntil with
    | none =>
      constructor
      · rintro ⟨vs', h⟩
        cases h
      · intro h
        exact absurd rfl (h (Option.some_ne_none idx))
    | some n => exact ⟨fun _ _ => Option.some_ne_none n, fun _ => ⟨_, rfl⟩⟩

theorem jail_epoch_iff {vs : List VerifierInfo} {o : Pubkey} {epoch k : Nat} :
    (∃ vs', jail vs o (Checked.add 64 epoch k) = .ok vs') ↔
      (findIndex vs o ≠ none → epoch + k < 2 ^ 64) := by
  rw [jail_ok_iff]
  refine imp_congr_right fun _ => ?_
  rw [Option.ne_none_iff_exists']
  constructor
  · rintro ⟨m, hm⟩
    exact (Checked.add_eq_some.1 hm).1
  · intro hfit
    exact ⟨_, Checked.add_eq_some.2 ⟨hfit, rfl⟩⟩

/-- A slash is applied exactly if it passes the checks. -/
theorem applySlash_ok_iff (hreg : st.Regular) {s : Signer} {o : Pubkey} {e bps : Nat} {r ev : Hash} :
    (∃ out, process dep clock st (.applySlash s o e bps r ev) = .ok out) ↔
      Slashable dep clock st s o e bps r := by
  simp only [process, bind_eq_ok, demand_eq_ok, exists_unit, execute, map_eq_ok, applySlash,
    require_eq_ok, load_eq_ok, vacant_eq_ok, pure_eq_ok]
  constructor
  · rintro ⟨out, hsigner, -, ⟨hnew, p, hp, hauth, hbps, hwindow, -, -, -, vs, hvs, -⟩, -⟩
    exact ⟨hsigner, hnew, by simp [hp], hauth, hbps, hwindow, jail_epoch_iff.1 ⟨vs, hvs⟩⟩
  · rintro ⟨hsigner, hnew, hp, hauth, hbps, hwindow, hjail⟩
    obtain ⟨p, hp⟩ := Option.ne_none_iff_exists'.1 hp
    obtain ⟨vs, hvs⟩ := jail_epoch_iff.2 hjail
    have hamount : mulBps p.stakedAmount bps =
        .ok (Checked.cast 64 (p.stakedAmount * bps / bpsDenom)) := by
      refine mulBps_eq_ok.2 ⟨?_, rfl⟩
      calc p.stakedAmount * bps
        _ ≤ 2 ^ 64 * bpsDenom := Nat.mul_le_mul (Nat.le_of_lt (hreg o p hp).bounded)
            (Nat.le_trans hbps st.config.slash_le)
        _ < 2 ^ 128 := by decide
    exact ⟨_, hsigner, _, ⟨hnew, p, hp, hauth, hbps, hwindow, (hreg o p hp).owner, _, hamount, vs,
      hvs, rfl⟩, rfl⟩

end Effects

section Steps

variable {dep : Deployment} {c : Chain State} {a : Action Instr} {l : List Step} {e : Step}
  {window : Nat}

/-- What a step does to the records. -/
inductive SlashStep (e : Step) : Prop
  | other (hslash : slashOf e = none)
    (hkeep : ∀ x, e.pre.accounts.Recorded x → e.post.accounts.Recorded x)
  | slash (x : Slash) (hslash : slashOf e = some x)
    (hlate : x.appliedIn ≤ x.epochId + e.pre.accounts.config.disputeWindowEpochs)
    (hnew : ¬e.pre.accounts.Recorded x)
    (hkeep : ∀ y, y.seeds = x.seeds ∨ e.pre.accounts.Recorded y → e.post.accounts.Recorded y)

theorem slashOf_error {c c' : Chain State} {i : Instr} {err : Failure StakeGovError} :
    slashOf ⟨c, .submit i, some (.error err), c'⟩ = none := by
  cases i <;> rfl

theorem slashStep (dep : Deployment) (c : Chain State) (a : Action Instr) :
    SlashStep (event (step dep) c a) := by
  unfold event
  rcases chainStep_cases (process dep) c a with
    ⟨k, ts, rfl, hs⟩ | ⟨i, st', n, rfl, hok, hs⟩ | ⟨i, err, rfl, -, hs⟩
  · rw [step, hs]
    exact .other rfl fun _ h => h
  · rw [step, hs]
    have he := (process_effect hok).2
    cases he with
    | @applySlash s o epochId bps r ev p vs amount hnew hp hbps hamount hwindow =>
      refine .slash ⟨epochId, o, r, chainEpoch c⟩ rfl ?_ (fun h => h hnew) fun y hy => ?_
      · exact Nat.le_trans hwindow (Nat.min_le_left ..)
      · exact (setSlashRecord_recorded ..).2 hy
    | _ => exact .other rfl fun _ h => h
  · rw [step, hs]
    exact .other slashOf_error fun _ h => h

theorem step_config (c : Chain State) (a : Action Instr) :
    (step dep c a).1.accounts.config = c.accounts.config := by
  rcases chainStep_cases (process dep) c a with
    ⟨k, ts, rfl, hs⟩ | ⟨i, st', n, rfl, hok, hs⟩ | ⟨i, err, rfl, -, hs⟩ <;> rw [step, hs]
  exact (process_effect hok).2.config_eq

/-- What the records tell of the slashes so far. -/
structure Disputed (window : Nat) (c : Chain State) (l : List Step) : Prop where
  config : c.accounts.config.disputeWindowEpochs = window
  late : ∀ x ∈ slashes l, x.appliedIn ≤ x.epochId + window
  once : ((slashes l).map Slash.seeds).Nodup
  recorded : ∀ x ∈ slashes l, c.accounts.Recorded x

theorem SlashStep.keepsDisputed (hs : SlashStep e)
    (hconfig : e.post.accounts.config = e.pre.accounts.config) (h : Disputed window e.pre l) :
    Disputed window e.post (l ++ [e]) := by
  have hwindow : e.post.accounts.config.disputeWindowEpochs = window := by rw [hconfig, h.config]
  cases hs with
  | other hslash hkeep =>
    have hslashes : slashes (l ++ [e]) = slashes l := filterMap_concat_none hslash l
    refine ⟨hwindow, ?_, ?_, ?_⟩ <;> rw [hslashes]
    · exact h.late
    · exact h.once
    · exact fun x hx => hkeep x (h.recorded x hx)
  | slash x hslash hlate hnew hkeep =>
    have hslashes : slashes (l ++ [e]) = slashes l ++ [x] := filterMap_concat_some hslash l
    refine ⟨hwindow, ?_, ?_, ?_⟩ <;> rw [hslashes]
    · rw [h.config] at hlate
      exact List.forall_mem_append.2 ⟨h.late, List.forall_mem_singleton.2 hlate⟩
    · rw [List.map_append]
      refine List.nodup_append.2 ⟨h.once, List.nodup_singleton _, ?_⟩
      rintro k hk k' hk' rfl
      -- an earlier slash with these seeds has left a record
      obtain ⟨y, hy, hyk⟩ := List.mem_map.1 hk
      have hseeds : y.seeds = x.seeds := hyk.trans (List.mem_singleton.1 hk')
      exact hnew (recorded_of_seeds hseeds (h.recorded y hy))
    · refine List.forall_mem_append.2 ⟨fun y hy => hkeep y (.inr (h.recorded y hy)), ?_⟩
      exact List.forall_mem_singleton.2 (hkeep x (.inl rfl))

theorem disputed_trace (dep : Deployment) (c : Chain State) (is : List (Action Instr)) :
    Disputed c.accounts.config.disputeWindowEpochs (exec (step dep) c is)
      (trace (step dep) c is) := by
  refine history_of_step (J := Disputed c.accounts.config.disputeWindowEpochs) (fun c l a h => ?_)
    ⟨rfl, nofun, List.nodup_nil, nofun⟩ is
  exact (slashStep dep c a).keepsDisputed (step_config c a) h

/-- Slashes of one offender for one reason in one epoch differ in the epoch they are for, and this
lies in the window. -/
theorem slashesIn_length_le (h : Disputed window c l)
    (hpast : ∀ x ∈ slashes l, x.epochId ≤ x.appliedIn) (o : Pubkey) (r : Hash) (epoch : Nat) :
    (slashesIn o r epoch l).length ≤ window + 1 := by
  have hmem {x : Slash} (hx : x ∈ slashesIn o r epoch l) :
      x ∈ slashes l ∧ x.offender = o ∧ x.reasonHash = r ∧ x.appliedIn = epoch := by
    simpa [slashesIn] using hx
  have hnodup : ((slashesIn o r epoch l).map Slash.epochId).Nodup := by
    refine List.Nodup.map_on ?_ ((List.Nodup.of_map _ h.once).filter _)
    intro x hx y hy heq
    obtain ⟨-, rfl, rfl, rfl⟩ := hmem hx
    obtain ⟨-, ho, hr, happlied⟩ := hmem hy
    cases x
    cases y
    simp_all
  have hsub : (slashesIn o r epoch l).map Slash.epochId ⊆
      (Finset.Icc (epoch - window) epoch).toList := by
    intro e he
    obtain ⟨x, hx, rfl⟩ := List.mem_map.1 he
    obtain ⟨hslash, -, -, rfl⟩ := hmem hx
    have hlate := h.late x hslash
    have hle := hpast x hslash
    rw [Finset.mem_toList, Finset.mem_Icc]
    omega
  calc (slashesIn o r epoch l).length
    _ = ((slashesIn o r epoch l).map Slash.epochId).length := (List.length_map _).symm
    _ ≤ (Finset.Icc (epoch - window) epoch).toList.length := (hnodup.subperm hsub).length_le
    _ = epoch + 1 - (epoch - window) := by rw [Finset.length_toList, Nat.card_Icc]
    _ ≤ window + 1 := by omega

theorem slashLaw_iff (h : Disputed window c l) :
    SlashLaw window l ↔ ∀ x ∈ slashes l, x.epochId ≤ x.appliedIn := by
  constructor
  · exact fun hlaw x hx => (hlaw.within x hx).1
  · exact fun hpast => ⟨fun x hx => ⟨hpast x hx, h.late x hx⟩, h.once, slashesIn_length_le h hpast⟩

/-- The slash that a step applies is for an epoch that has come, exactly if the step meets the
condition. -/
theorem elapsed_iff (hreg : c.accounts.Regular) :
    (∀ x, slashOf (event (step dep) c a) = some x → x.epochId ≤ x.appliedIn) ↔ Elapsed dep c a := by
  constructor
  · rintro h s o epochId bps r ev rfl hok
    obtain ⟨⟨st', n⟩, hst⟩ : ∃ out, process dep c.clock c.accounts
        (.applySlash s o epochId bps r ev) = .ok out := (applySlash_ok_iff hreg).2 hok
    exact h ⟨epochId, o, r, chainEpoch c⟩ (by rw [event, step, chainStep_ok hst]; rfl)
  · intro h x hx
    rcases chainStep_cases (process dep) c a with
      ⟨k, ts, rfl, hs⟩ | ⟨i, st', n, rfl, hok, hs⟩ | ⟨i, err, rfl, -, hs⟩
    · cases hx
    · rw [event, step, hs] at hx
      cases i with
      | applySlash s o epochId bps r ev =>
        cases hx
        exact h s o epochId bps r ev rfl ((applySlash_ok_iff hreg).1 ⟨_, hok⟩)
      | _ => cases hx
    · rw [event, step, hs, slashOf_error] at hx
      cases hx

end Steps

/-- **The dispute window.** In every run the slashes are within the window, once each and bounded for
an offender, a reason and an epoch, exactly if every slash that passes the checks is for an epoch that
has come. -/
theorem slash_window_iff (dep : Deployment) (config : StakeGovConfig) (tokens : Tokens)
    (clock : Clock) (is : List (Action Instr)) :
    SlashLaw config.disputeWindowEpochs
      (trace (step dep) ⟨clock, State.genesis config tokens⟩ is) ↔
      Each (step dep) (Elapsed dep) ⟨clock, State.genesis config tokens⟩ is := by
  have hdisputed : Disputed config.disputeWindowEpochs _ _ :=
    disputed_trace dep ⟨clock, State.genesis config tokens⟩ is
  have hregular : (State.genesis config tokens).Regular := nofun
  rw [slashLaw_iff hdisputed, ← each_congr (J := fun c => c.accounts.Regular)
    (fun c a h => step_regular c a h) (fun c a h => elapsed_iff h) hregular is, each_iff_mem_trace]
  constructor
  · intro h e he x hx
    obtain ⟨pre, a, post, his, rfl⟩ := mem_trace he
    exact h x (List.mem_filterMap.2 ⟨_, he, hx⟩)
  · intro h x hx
    obtain ⟨e, he, hx⟩ := List.mem_filterMap.1 hx
    have hpast := h e he
    obtain ⟨pre, a, post, his, rfl⟩ := mem_trace he
    exact hpast x hx

/-! ## A slash for a later epoch -/

/-- A slasher is allowed, and there is no time for disputes. -/
def promptConfig : StakeGovConfig where
  __ := exampleConfig
  disputeWindowEpochs := 0
  slashAuthorities := [2]

def promptGenesis : Chain State where
  clock := ⟨0, 0⟩
  accounts := State.genesis promptConfig exampleGenesis.accounts.tokens

/-- The staker is slashed for this epoch and for the next. -/
def repeatedRun : List (Action Instr) :=
  [.submit (.initStakePosition exampleStaker), .submit (.stake exampleStaker 8 11 100),
    .submit (.applySlash ⟨2, two_ne_default⟩ 1 0 5000 0 0),
    .submit (.applySlash ⟨2, two_ne_default⟩ 1 1 5000 0 0)]

/-- Two slashes for one reason are applied in epoch 0. -/
theorem repeatedRun_not_slashLaw :
    ¬SlashLaw 0 (trace (step exampleDeployment) promptGenesis repeatedRun) := by
  intro h
  exact absurd (h.bounded 1 0 0) (by decide)

end Ddns.StakeGov
