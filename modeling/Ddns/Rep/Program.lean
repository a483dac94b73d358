import Ddns.Lib.Balances
import Ddns.Lib.Updates
import Ddns.Solana.Keys
import Mathlib.Data.UInt

/-!
# The reputation program

The authority awards reputation points to contributors, by epoch (`ddns_rep`). The points of an award
are computed in `u128` from the accepted entries, a multiplier and two bonuses; they are added to
what the contributor has in the epoch, up to a cap. The account of a contributor is addressed by
`["rep_epoch", epoch_id, contributor]`; its rent is left out. A definition without a docstring is the
item of the source with the same words in its name.
-/

namespace Ddns.Rep

open Tx

inductive RepError where
  | unauthorized
  | disabled
  | invalidInput
  | mathOverflow
  | epochMismatch
  | contributorMismatch
  deriving DecidableEq, Repr

/-! ## Accounts -/

structure RepConfig where
  authority : Pubkey
  epochLenSlots : UInt64
  basePointsPerEntry : UInt64
  highConfMultiplierBps : UInt16
  medConfMultiplierBps : UInt16
  lowConfMultiplierBps : UInt16
  dailyCapPoints : UInt64
  minUniqueSubdomains : UInt32
  minUniqueSources : UInt16
  enabled : Bool
  deriving DecidableEq

structure EpochRep where
  epochId : UInt64
  contributor : Pubkey
  acceptedEntries : Nat
  uniqueSubdomains : Nat
  uniqueSources : Nat
  repPoints : Nat
  lastUpdatedSlot : Nat
  deriving DecidableEq, Repr

/-- A freshly initialised `EpochRep` account. -/
def EpochRep.zero : EpochRep := ⟨0, Pubkey.default, 0, 0, 0, 0, 0⟩

structure State where
  config : RepConfig
  epochRep : UInt64 → Pubkey → Option EpochRep

/-- The arguments of an award, the account it is for apart. -/
structure Award where
  acceptedEntries : UInt32
  uniqueSubdomains : UInt32
  uniqueSources : UInt16
  confidenceLevel : UInt8
  deriving DecidableEq, Repr

/-- Write the account of a contributor in an epoch. -/
def State.setEpochRep (st : State) (e : UInt64) (m : Pubkey) (x : EpochRep) : State :=
  { st with epochRep := Function.update st.epochRep e (Function.update (st.epochRep e) m (some x)) }

/-! ## Instructions -/

/-- The accounts after `init_rep_config`. -/
def initRepConfig (authority : Signer) (epochLenSlots basePointsPerEntry : UInt64)
    (highConfMultiplierBps medConfMultiplierBps lowConfMultiplierBps : UInt16)
    (dailyCapPoints : UInt64) (minUniqueSubdomains : UInt32) (minUniqueSources : UInt16) :
    State where
  config := {
    authority := authority.key
    epochLenSlots, basePointsPerEntry, highConfMultiplierBps, medConfMultiplierBps
    lowConfMultiplierBps, dailyCapPoints, minUniqueSubdomains, minUniqueSources
    enabled := true }
  epochRep := fun _ _ => none

def setRepEnabled (st : State) (authority : Signer) (enabled : Bool) : Result RepError State := do
  require (st.config.authority = authority.key) .unauthorized
  pure { st with config := { st.config with enabled } }

/-- The multiplier of a confidence level: 2 high, 1 medium, else low. -/
def multiplier (cfg : RepConfig) (confidenceLevel : UInt8) : Nat :=
  match confidenceLevel with
  | 2 => cfg.highConfMultiplierBps.toNat
  | 1 => cfg.medConfMultiplierBps.toNat
  | _ => cfg.lowConfMultiplierBps.toNat

/-- `points * 11 / 10`, where a minimum is reached. -/
def bonus (reached : Bool) (points : Nat) : Result RepError Nat :=
  if reached then do
    let raised ← okOr (Checked.mul 128 points 11) .mathOverflow
    pure (raised / 10)
  else pure points

/-- The points of an award. -/
def awardPoints (cfg : RepConfig) (a : Award) : Result RepError Nat := do
  let points ← okOr (Checked.mul 128 a.acceptedEntries.toNat cfg.basePointsPerEntry.toNat)
    .mathOverflow
  let scaled ← okOr (Checked.mul 128 points (multiplier cfg a.confidenceLevel)) .mathOverflow
  let points := scaled / 10000
  let points ← bonus (decide (cfg.minUniqueSubdomains ≤ a.uniqueSubdomains)) points
  bonus (decide (cfg.minUniqueSources ≤ a.uniqueSources)) points

/-- The account of a contributor, as an award finds it or sets it up. -/
def openEpochRep (x : EpochRep) (epochId : UInt64) (contributor : Pubkey) : EpochRep :=
  if x.contributor = Pubkey.default then { x with epochId, contributor } else x

def awardRep (clock : Clock) (st : State) (authority : Signer) (epochId : UInt64)
    (contributor : Pubkey) (a : Award) : Result RepError State := do
  let cfg := st.config
  require (cfg.enabled = true) .disabled
  require (cfg.authority = authority.key) .unauthorized
  require (0 < a.acceptedEntries.toNat) .invalidInput
  let points ← awardPoints cfg a
  let stats := openEpochRep ((st.epochRep epochId contributor).getD EpochRep.zero) epochId contributor
  require (stats.epochId = epochId) .epochMismatch
  require (stats.contributor = contributor) .contributorMismatch
  let proposed ← okOr (Checked.add 128 stats.repPoints points) .mathOverflow
  pure (st.setEpochRep epochId contributor { stats with
    acceptedEntries := Checked.satAdd 32 stats.acceptedEntries a.acceptedEntries.toNat
    uniqueSubdomains := max stats.uniqueSubdomains a.uniqueSubdomains.toNat
    uniqueSources := max stats.uniqueSources a.uniqueSources.toNat
    repPoints := min (Checked.cast 64 proposed) cfg.dailyCapPoints.toNat
    lastUpdatedSlot := clock.slot })

/-- The instructions, with the accounts and arguments they are called with. -/
inductive Instr where
  | setRepEnabled (authority : Signer) (enabled : Bool)
  | awardRep (authority : Signer) (epochId : UInt64) (contributor : Pubkey) (a : Award)

/-- A transaction of one instruction. -/
def process (clock : Clock) (st : State) : Instr → Result RepError (State × Unit)
  | .setRepEnabled s b => (·, ()) <$> setRepEnabled st s b
  | .awardRep s e m a => (·, ()) <$> awardRep clock st s e m a

/-- One action on the chain. -/
abbrev step : Chain State → Action Instr → Chain State × Option (Result RepError Unit) :=
  chainStep process

end Ddns.Rep

/-!
## The accrual of points

An award should raise the points of a contributor to `min(cap, points + award)`. The program narrows
the sum to `u64` before it meets the cap, so a sum of `2 ^ 64` or more wraps around, and the points
can fall (`exampleRun_not_accrues`). `accrues_iff` says of a run exactly when that does not show.
-/

namespace Ddns.Rep

open Tx Runs

/-! ## Points over unbounded integers -/

/-- A tenth more, rounded down, where a minimum is reached. -/
def raised (reached : Bool) (points : Nat) : Nat := if reached then points * 11 / 10 else points

/-- The floored points of an award over unbounded integers. -/
def pointsOf (cfg : RepConfig) (a : Award) : Nat :=
  raised (decide (cfg.minUniqueSources ≤ a.uniqueSources))
    (raised (decide (cfg.minUniqueSubdomains ≤ a.uniqueSubdomains))
      (a.acceptedEntries.toNat * cfg.basePointsPerEntry.toNat * multiplier cfg a.confidenceLevel /
        10000))

/-- The points of a contributor in an epoch. -/
def State.points (st : State) (e : UInt64) (m : Pubkey) : Nat :=
  Totals.weight EpochRep.repPoints (st.epochRep e m)

/-- The cap of the config. -/
def State.cap (st : State) : Nat := st.config.dailyCapPoints.toNat

theorem raised_le (reached : Bool) (points : Nat) : raised reached points ≤ points * 11 := by
  unfold raised
  split
  · exact Nat.div_le_self ..
  · omega

theorem multiplier_lt (cfg : RepConfig) (level : UInt8) : multiplier cfg level < 2 ^ 16 := by
  unfold multiplier
  split
  · exact cfg.highConfMultiplierBps.toNat_lt
  · exact cfg.medConfMultiplierBps.toNat_lt
  · exact cfg.lowConfMultiplierBps.toNat_lt

theorem bonus_eq {points : Nat} (reached : Bool) (h : points * 11 < 2 ^ 128) :
    bonus reached points = .ok (raised reached points) := by
  unfold bonus raised
  split
  · simp only [bind_eq_ok, okOr_eq_ok, Checked.mul_eq_some, pure_eq_ok]
    exact ⟨_, ⟨h, rfl⟩, rfl⟩
  · rfl

/-- The product of an award before its bonuses. -/
theorem product_le (cfg : RepConfig) (a : Award) :
    a.acceptedEntries.toNat * cfg.basePointsPerEntry.toNat * multiplier cfg a.confidenceLevel ≤
      2 ^ 32 * 2 ^ 64 * 2 ^ 16 :=
  Nat.mul_le_mul (Nat.mul_le_mul (Nat.le_of_lt a.acceptedEntries.toNat_lt)
    (Nat.le_of_lt cfg.basePointsPerEntry.toNat_lt)) (Nat.le_of_lt (multiplier_lt ..))

theorem pointsOf_le (cfg : RepConfig) (a : Award) : pointsOf cfg a ≤ 2 ^ 120 := by
  have hproduct := product_le cfg a
  have hfirst := raised_le (decide (cfg.minUniqueSubdomains ≤ a.uniqueSubdomains))
    (a.acceptedEntries.toNat * cfg.basePointsPerEntry.toNat * multiplier cfg a.confidenceLevel /
      10000)
  have hsecond := raised_le (decide (cfg.minUniqueSources ≤ a.uniqueSources))
    (raised (decide (cfg.minUniqueSubdomains ≤ a.uniqueSubdomains))
      (a.acceptedEntries.toNat * cfg.basePointsPerEntry.toNat * multiplier cfg a.confidenceLevel /
        10000))
  unfold pointsOf
  omega

/-- The points of an award never overflow. -/
theorem awardPoints_eq (cfg : RepConfig) (a : Award) : awardPoints cfg a = .ok (pointsOf cfg a) := by
  have hbase : a.acceptedEntries.toNat * cfg.basePointsPerEntry.toNat ≤ 2 ^ 32 * 2 ^ 64 :=
    Nat.mul_le_mul (Nat.le_of_lt a.acceptedEntries.toNat_lt)
      (Nat.le_of_lt cfg.basePointsPerEntry.toNat_lt)
  have hproduct := product_le cfg a
  have hfirst := raised_le (decide (cfg.minUniqueSubdomains ≤ a.uniqueSubdomains))
    (a.acceptedEntries.toNat * cfg.basePointsPerEntry.toNat * multiplier cfg a.confidenceLevel /
      10000)
  simp only [awardPoints, bind_eq_ok, okOr_eq_ok, Checked.mul_eq_some]
  exact ⟨_, ⟨by omega, rfl⟩, _, ⟨by omega, rfl⟩, _, bonus_eq _ (by omega), bonus_eq _ (by omega)⟩

/-! ## One award -/

section Steps

variable {clock : Clock} {st st' : State} {s : Signer} {e : UInt64} {m : Pubkey} {a : Award}

/-- An award passes the checks of its config. -/
structure Admitted (st : State) (s : Signer) (a : Award) : Prop where
  enabled : st.config.enabled = true
  authority : st.config.authority = s.key
  entries : 0 < a.acceptedEntries.toNat

/-- The narrowing of a sum of points does not show: the sum fits `u64`, or its low bits reach the
cap. -/
def NarrowingHarmless (cap sum : Nat) : Prop := sum < 2 ^ 64 ∨ cap ≤ sum % 2 ^ 64

/-- The accounts are those of their seeds, and the points within the cap. -/
structure Sound (st : State) : Prop where
  addressed : ∀ e m x, st.epochRep e m = some x → x.contributor = m ∧ x.epochId = e
  capped : ∀ e m, st.points e m ≤ st.cap

theorem openEpochRep_ok (h : Sound st) (e : UInt64) (m : Pubkey) :
    let x := openEpochRep ((st.epochRep e m).getD EpochRep.zero) e m
    x.epochId = e ∧ x.contributor = m ∧ x.repPoints = st.points e m := by
  have hpoints := Totals.weight_getD EpochRep.repPoints (st.epochRep e m) (v := EpochRep.zero) rfl
  unfold openEpochRep
  split
  · exact ⟨rfl, rfl, hpoints⟩
  · next hne =>
    cases hx : st.epochRep e m with
    | none =>
      rw [hx] at hne
      exact absurd rfl hne
    | some x =>
      rw [hx] at hpoints
      obtain ⟨hm, he⟩ := h.addressed e m x hx
      exact ⟨he, hm, hpoints.trans (by rw [State.points, hx])⟩

/-- The account that an award leaves. -/
def awarded (clock : Clock) (st : State) (e : UInt64) (m : Pubkey) (a : Award) : EpochRep :=
  let x := openEpochRep ((st.epochRep e m).getD EpochRep.zero) e m
  { x with
    acceptedEntries := Checked.satAdd 32 x.acceptedEntries a.acceptedEntries.toNat
    uniqueSubdomains := max x.uniqueSubdomains a.uniqueSubdomains.toNat
    uniqueSources := max x.uniqueSources a.uniqueSources.toNat
    repPoints := min (Checked.cast 64 (x.repPoints + pointsOf st.config a))
      st.config.dailyCapPoints.toNat
    lastUpdatedSlot := clock.slot }

/-- **When an award is accepted, and what it leaves.** -/
theorem awardRep_eq_ok (h : Sound st) : awardRep clock st s e m a = .ok st' ↔
    Admitted st s a ∧ st.setEpochRep e m (awarded clock st e m a) = st' := by
  obtain ⟨hepoch, hminer, hpoints⟩ := openEpochRep_ok h e m
  have hcap := h.capped e m
  have hwidth := st.config.dailyCapPoints.toNat_lt
  have hle := pointsOf_le st.config a
  unfold State.cap at hcap
  simp only [awardRep, bind_eq_ok, require_eq_ok, exists_unit, okOr_eq_ok, Checked.add_eq_some,
    pure_eq_ok, awardPoints_eq, Except.ok.injEq]
  constructor
  · rintro ⟨henabled, hauthority, hentries, _, rfl, -, -, _, ⟨-, rfl⟩, hpost⟩
    exact ⟨⟨henabled, hauthority, hentries⟩, hpost⟩
  · rintro ⟨⟨henabled, hauthority, hentries⟩, hpost⟩
    exact ⟨henabled, hauthority, hentries, _, rfl, hepoch, hminer, _, ⟨by omega, rfl⟩, hpost⟩

theorem awarded_points (h : Sound st) : (awarded clock st e m a).repPoints =
    min ((st.points e m + pointsOf st.config a) % 2 ^ 64) st.cap := by
  obtain ⟨-, -, hpoints⟩ := openEpochRep_ok h e m
  simp only [awarded, hpoints]
  rfl

theorem setEpochRep_points (st : State) (e f : UInt64) (m k : Pubkey) (x : EpochRep) :
    (st.setEpochRep e m x).points f k = if f = e ∧ k = m then x.repPoints else st.points f k := by
  simp only [State.points, State.setEpochRep, Updates.update₂_apply]
  split
  · rfl
  · rfl

/-- The sum that the cap meets is the one over unbounded integers exactly if the narrowing does not
show. -/
theorem narrowed_eq_iff {cap sum : Nat} (hcap : cap < 2 ^ 64) :
    min (sum % 2 ^ 64) cap = min cap sum ↔ NarrowingHarmless cap sum := by
  unfold NarrowingHarmless
  have hmod := Nat.mod_lt sum (show 0 < 2 ^ 64 by decide)
  constructor
  · intro heq
    omega
  · rintro (hlt | hle)
    · rw [Nat.mod_eq_of_lt hlt, Nat.min_comm]
    · have hsum := Nat.mod_le sum (2 ^ 64)
      omega

/-! ## Every step -/

variable {c : Chain State} {i : Action Instr}

/-- What an instruction does: an award, or nothing to the accounts and the cap. -/
theorem process_cases {j : Instr} {w : Unit} (hok : process clock st j = .ok (st', w)) :
    st'.epochRep = st.epochRep ∧ st'.cap = st.cap ∨
      ∃ s e m a, j = .awardRep s e m a ∧ awardRep clock st s e m a = .ok st' := by
  cases j with
  | setRepEnabled s b =>
    simp only [process, setRepEnabled, bind_eq_ok, require_eq_ok, exists_unit, pure_eq_ok,
      map_eq_ok, Prod.mk.injEq] at hok
    obtain ⟨x, ⟨-, rfl⟩, rfl, -⟩ := hok
    exact .inl ⟨rfl, rfl⟩
  | awardRep s e m a =>
    simp only [process, map_eq_ok, Prod.mk.injEq] at hok
    obtain ⟨x, hx, rfl, -⟩ := hok
    exact .inr ⟨s, e, m, a, rfl, hx⟩

theorem process_sound {j : Instr} {w : Unit} (h : Sound st)
    (hok : process clock st j = .ok (st', w)) : Sound st' := by
  rcases process_cases hok with ⟨hrep, hcap⟩ | ⟨s, e, m, a, -, hx⟩
  · refine ⟨fun f k y hy => h.addressed f k y (hrep ▸ hy), fun f k => ?_⟩
    rw [State.points, hrep, hcap]
    exact h.capped f k
  · obtain ⟨-, rfl⟩ := (awardRep_eq_ok h).1 hx
    obtain ⟨hepoch, hminer, -⟩ := openEpochRep_ok h e m
    refine ⟨fun f k y hy => ?_, fun f k => ?_⟩
    · rcases Updates.update₂_eq_some hy with ⟨⟨rfl, rfl⟩, rfl⟩ | ⟨-, hold⟩
      · exact ⟨hminer, hepoch⟩
      · exact h.addressed f k y hold
    · rw [setEpochRep_points]
      split
      · rw [awarded_points h]
        exact Nat.min_le_right ..
      · exact h.capped f k

theorem step_sound (c : Chain State) (i : Action Instr) (h : Sound c.accounts) :
    Sound (step c i).1.accounts :=
  accounts_invariant (P := Sound) (fun _ _ _ _ _ h hok => process_sound h hok) c i h

theorem step_cap (c : Chain State) (i : Action Instr) (h : Sound c.accounts) :
    (step c i).1.accounts.cap = c.accounts.cap := by
  have hinv : Sound (step c i).1.accounts ∧ (step c i).1.accounts.cap = c.accounts.cap :=
    accounts_invariant (P := fun st => Sound st ∧ st.cap = c.accounts.cap)
      (fun clock st j st' w hst hok => ?_) c i ⟨h, rfl⟩
  · exact hinv.2
  · refine ⟨process_sound hst.1 hok, ?_⟩
    rcases process_cases hok with ⟨-, hcap⟩ | ⟨s, e, m, a, -, hx⟩
    · exact hcap.trans hst.2
    · obtain ⟨-, rfl⟩ := (awardRep_eq_ok hst.1).1 hx
      exact hst.2

/-- **The accrual law** of a step: nobody's points fall or pass the cap, and those that an accepted
award is for become the lesser of the cap and the sum over unbounded integers. -/
structure Accrues (c : Chain State) (i : Action Instr) : Prop where
  grows : ∀ e m, c.accounts.points e m ≤ (step c i).1.accounts.points e m
  capped : ∀ e m, (step c i).1.accounts.points e m ≤ c.accounts.cap
  sum : ∀ s e m a st', i = .submit (.awardRep s e m a) →
    awardRep c.clock c.accounts s e m a = .ok st' →
    st'.points e m = min c.accounts.cap (c.accounts.points e m + pointsOf c.accounts.config a)

/-- The narrowing does not show in a step: an award that passes the checks has a sum below `2 ^ 64`,
or one whose low bits reach the cap. -/
def Harmless (c : Chain State) (i : Action Instr) : Prop :=
  ∀ s e m a, i = .submit (.awardRep s e m a) → Admitted c.accounts s a →
    NarrowingHarmless c.accounts.cap (c.accounts.points e m + pointsOf c.accounts.config a)

/-- **Step lemma**: a step accrues by the law exactly if the narrowing does not show in it. -/
theorem step_accrues_iff (h : Sound c.accounts) : Accrues c i ↔ Harmless c i := by
  have hcap : c.accounts.cap < 2 ^ 64 := c.accounts.config.dailyCapPoints.toNat_lt
  constructor
  · rintro hlaw s e m a rfl hadmitted
    have hpoints := hlaw.sum s e m a _ rfl ((awardRep_eq_ok h).2 ⟨hadmitted, rfl⟩)
    rw [setEpochRep_points, if_pos ⟨rfl, rfl⟩, awarded_points h] at hpoints
    exact (narrowed_eq_iff hcap).1 hpoints
  · intro hharmless
    have hsum : ∀ s e m a st', i = .submit (.awardRep s e m a) →
        awardRep c.clock c.accounts s e m a = .ok st' →
        st'.points e m =
          min c.accounts.cap (c.accounts.points e m + pointsOf c.accounts.config a) := by
      intro s e m a st' hi hok
      obtain ⟨hadmitted, rfl⟩ := (awardRep_eq_ok h).1 hok
      rw [setEpochRep_points, if_pos ⟨rfl, rfl⟩, awarded_points h]
      exact (narrowed_eq_iff hcap).2 (hharmless s e m a hi hadmitted)
    refine ⟨fun f k => ?_, fun f k => ?_, hsum⟩
    · rcases chainStep_commits process c i with ⟨hsame, -⟩ | ⟨j, st', w, hj, hok, hs⟩
      · rw [step, hsame]
      · rw [step, hs]
        rcases process_cases hok with ⟨hrep, -⟩ | ⟨s, e, m, a, rfl, hx⟩
        · show c.accounts.points f k ≤ st'.points f k
          rw [State.points, State.points, hrep]
        · have hpoints := hsum s e m a st' hj hx
          have hle := h.capped e m
          obtain ⟨-, rfl⟩ := (awardRep_eq_ok h).1 hx
          show c.accounts.points f k ≤ (c.accounts.setEpochRep e m _).points f k
          by_cases hkey : f = e ∧ k = m
          · obtain ⟨rfl, rfl⟩ := hkey
            rw [hpoints]
            omega
          · rw [setEpochRep_points, if_neg hkey]
    · rw [← step_cap c i h]
      exact (step_sound c i h).capped f k

end Steps

/-- **When points accrue as they should.** In a run of the program every step accrues by the law if
and only if in no step the narrowing shows. -/
theorem accrues_iff (authority : Signer) (epochLenSlots basePointsPerEntry : UInt64)
    (highConfMultiplierBps medConfMultiplierBps lowConfMultiplierBps : UInt16)
    (dailyCapPoints : UInt64) (minUniqueSubdomains : UInt32) (minUniqueSources : UInt16)
    (clock : Clock) (is : List (Action Instr)) :
    let start : Chain State := ⟨clock, initRepConfig authority epochLenSlots basePointsPerEntry
      highConfMultiplierBps medConfMultiplierBps lowConfMultiplierBps dailyCapPoints
      minUniqueSubdomains minUniqueSources⟩
    Each step Accrues start is ↔ Each step Harmless start is := by
  intro start
  refine each_congr (J := fun c => Sound c.accounts) step_sound (fun c i h => step_accrues_iff h)
    ⟨fun e m x hx => ?_, fun e m => Nat.zero_le _⟩ is
  cases hx

/-! ## Points that fall -/

/-- The authority of the example. -/
def exampleAuthority : Signer := ⟨1, one_ne_default⟩

/-- `2 ^ 63` points for an entry, and the same cap. -/
def exampleStart : Chain State where
  clock := ⟨0, 0⟩
  accounts := initRepConfig exampleAuthority 100 (2 ^ 63) 10000 8000 5000 (2 ^ 63) 1 1

/-- An award of one entry of high confidence, twice. -/
def exampleRun : List (Action Instr) :=
  [.submit (.awardRep exampleAuthority 0 2 ⟨1, 0, 0, 2⟩),
    .submit (.awardRep exampleAuthority 0 2 ⟨1, 0, 0, 2⟩)]

/-- The first award reaches the cap and the second takes all points away. -/
theorem exampleRun_not_accrues :
    (exec step exampleStart (exampleRun.take 1)).accounts.points 0 2 = 2 ^ 63 ∧
    (exec step exampleStart exampleRun).accounts.points 0 2 = 0 ∧
    ¬Each step Accrues exampleStart exampleRun := by
  refine ⟨by decide +kernel, by decide +kernel, fun hlaw => ?_⟩
  exact absurd (hlaw.2.1.grows 0 2) (by decide +kernel)

end Ddns.Rep
