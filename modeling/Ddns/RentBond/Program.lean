import Ddns.Solana.Keys
import Mathlib.Data.UInt

/-!
# The rent bond program

The reserve that bonds the rent of the deployed programs (`ddns_rent_bond`): one config and one
reserve, at the seeds `["rent_bond_config"]` and `["program_reserve"]`. Whoever initialises them is the
authority from then on. The reserve records its lamports whenever an instruction touches them, and
anyone may send it more. Its accounts add up over every run (`reserve_accounts`). The target that the
config keeps binds no one: the authority may withdraw down to the rent exemption, and nobody else takes
anything (`reserve_withdrawals`). A definition without a docstring is the item of the source with the
same words in its name.
-/

namespace Ddns.RentBond

open Tx Runs

inductive RentBondError where
  | unauthorized
  | invalidAmount
  | mathOverflow
  | reserveRentViolation
  deriving DecidableEq, Repr

/-! ## Accounts -/

def minReserveLamports : Nat := 5000000000

def bufferLamports : Nat := 1000000000

structure RentBondConfig where
  authority : Pubkey
  trackedProgramsHash : Hash
  trackedProgramsCount : UInt16
  validatorVoteAllowlistHash : Hash
  validatorVoteAllowlistCount : UInt16
  reserveTargetLamports : Nat
  deriving DecidableEq

structure ProgramReserve where
  lamportsBalance : Nat
  lastRecalcSlot : Nat
  deriving DecidableEq, Repr

/-- `8 + RentBondConfig::SIZE`. -/
def configSpace : Nat := 8 + (32 + 32 + 2 + 32 + 2 + 8 + 1)

/-- `8 + ProgramReserve::SIZE`. -/
def reserveSpace : Nat := 8 + (8 + 8 + 1)

/-- The holders of lamports: wallets and the two accounts of the program. -/
inductive Holder where
  | wallet (k : Pubkey)
  | config
  | reserve
  deriving DecidableEq, Repr

structure State where
  config : Option RentBondConfig
  reserve : Option ProgramReserve
  lamports : Holder → Nat

/-- What the program is deployed with: the rent exemption of a size. -/
structure Deployment where
  rent : Nat → Nat

/-- The digests and counts that `init_config` and `set_tracked_programs` set. -/
structure Tracked where
  programsHash : Hash
  programsCount : UInt16
  allowlistHash : Hash
  allowlistCount : UInt16

/-! ## Instructions -/

/-- The config with other digests and counts. -/
def RentBondConfig.track (cfg : RentBondConfig) (t : Tracked) : RentBondConfig :=
  { cfg with
    trackedProgramsHash := t.programsHash
    trackedProgramsCount := t.programsCount
    validatorVoteAllowlistHash := t.allowlistHash
    validatorVoteAllowlistCount := t.allowlistCount }

/-- The config that `init_config` writes. -/
def RentBondConfig.opened (authority : Pubkey) (reserveTargetLamports : UInt64) (t : Tracked) :
    RentBondConfig where
  authority := authority
  trackedProgramsHash := t.programsHash
  trackedProgramsCount := t.programsCount
  validatorVoteAllowlistHash := t.allowlistHash
  validatorVoteAllowlistCount := t.allowlistCount
  reserveTargetLamports := max reserveTargetLamports.toNat minReserveLamports

/-- What the reserve records of its lamports. -/
def ProgramReserve.recorded (clock : Clock) (lamports : Holder → Nat) : ProgramReserve :=
  ⟨lamports .reserve, clock.slot⟩

/-- `init`: the payer fills the new account up to its rent exemption. -/
def fund (lamports : Holder → Nat) (payer : Pubkey) (account : Holder) (rent : Nat) :
    Result RentBondError (Holder → Nat) :=
  transferLamports lamports (.wallet payer) account (rent - lamports account)

def initConfig (dep : Deployment) (clock : Clock) (st : State) (authority : Signer)
    (reserveTargetLamports : UInt64) (t : Tracked) : Result RentBondError State := do
  vacant st.config
  let lamports ← fund st.lamports authority.key .config (dep.rent configSpace)
  vacant st.reserve
  let lamports ← fund lamports authority.key .reserve (dep.rent reserveSpace)
  pure ⟨some (.opened authority.key reserveTargetLamports t), some (.recorded clock lamports),
    lamports⟩

def setTrackedPrograms (st : State) (authority : Signer) (t : Tracked) :
    Result RentBondError State := do
  let cfg ← load st.config
  require (cfg.authority = authority.key) .unauthorized
  pure { st with config := some (cfg.track t) }

def computeReserveTarget (largestProgramLamports optionalExtraLamports : Nat) :
    Result RentBondError Nat := do
  let twoX ← okOr (Checked.mul 64 largestProgramLamports 2) .mathOverflow
  let withBuffer ← okOr (Checked.add 64 twoX bufferLamports) .mathOverflow
  let withExtra ← okOr (Checked.add 64 withBuffer optionalExtraLamports) .mathOverflow
  pure (max withExtra minReserveLamports)

def recalcTargets (clock : Clock) (st : State) (authority : Signer)
    (largestProgramLamports optionalExtraLamports : UInt64) : Result RentBondError State := do
  let cfg ← load st.config
  let _ ← load st.reserve
  require (cfg.authority = authority.key) .unauthorized
  let target ← computeReserveTarget largestProgramLamports.toNat optionalExtraLamports.toNat
  pure { st with
    config := some { cfg with reserveTargetLamports := target }
    reserve := some (.recorded clock st.lamports) }

def depositReserve (clock : Clock) (st : State) (authority : Signer) (lamports : UInt64) :
    Result RentBondError State := do
  let cfg ← load st.config
  let _ ← load st.reserve
  require (0 < lamports.toNat) .invalidAmount
  require (cfg.authority = authority.key) .unauthorized
  let after ← transferLamports st.lamports (.wallet authority.key) .reserve lamports.toNat
  pure { st with reserve := some (.recorded clock after), lamports := after }

def withdrawReserve (dep : Deployment) (clock : Clock) (st : State) (authority : Signer)
    (recipient : Holder) (lamports : UInt64) : Result RentBondError State := do
  let cfg ← load st.config
  let _ ← load st.reserve
  require (0 < lamports.toNat) .invalidAmount
  require (cfg.authority = authority.key) .unauthorized
  let current := st.lamports .reserve
  require (dep.rent reserveSpace ≤ current - lamports.toNat) .reserveRentViolation
  let after ← transferLamports st.lamports .reserve recipient lamports.toNat
  pure { st with reserve := some (.recorded clock after), lamports := after }

/-- A transfer of the System program, outside of the program. -/
def systemTransfer (st : State) (payer : Signer) (recipient : Holder) (lamports : Nat) :
    Result RentBondError State := do
  let after ← transferLamports st.lamports (.wallet payer.key) recipient lamports
  pure { st with lamports := after }

/-- The instructions, with the accounts and arguments they are called with. -/
inductive Instr where
  | initConfig (authority : Signer) (reserveTargetLamports : UInt64) (t : Tracked)
  | setTrackedPrograms (authority : Signer) (t : Tracked)
  | recalcTargets (authority : Signer) (largestProgramLamports optionalExtraLamports : UInt64)
  | depositReserve (authority : Signer) (lamports : UInt64)
  | withdrawReserve (authority : Signer) (recipient : Holder) (lamports : UInt64)
  | systemTransfer (payer : Signer) (recipient : Holder) (lamports : Nat)

/-- A transaction of one instruction. -/
def handle (dep : Deployment) (clock : Clock) (st : State) : Instr → Result RentBondError State
  | .initConfig s target t => initConfig dep clock st s target t
  | .setTrackedPrograms s t => setTrackedPrograms st s t
  | .recalcTargets s largest extra => recalcTargets clock st s largest extra
  | .depositReserve s n => depositReserve clock st s n
  | .withdrawReserve s r n => withdrawReserve dep clock st s r n
  | .systemTransfer s r n => systemTransfer st s r n

def process (dep : Deployment) (clock : Clock) (st : State) (i : Instr) :
    Result RentBondError (State × Unit) := (·, ()) <$> handle dep clock st i

/-- One action on the chain. -/
abbrev step (dep : Deployment) : Chain State → Action Instr →
    Chain State × Option (Result RentBondError Unit) := chainStep (process dep)

abbrev Step := Event (Chain State) (Action Instr) (Option (Result RentBondError Unit))

theorem process_eq_ok {dep : Deployment} {clock : Clock} {st st' : State} {i : Instr} {u : Unit} :
    process dep clock st i = .ok (st', u) ↔ handle dep clock st i = .ok st' := by
  simp [process]

/-! ## What an instruction does -/

/-- The target for the largest program, with the buffer and what is added. -/
def targetOf (largest extra : Nat) : Nat := max (largest * 2 + bufferLamports + extra) minReserveLamports

/-- What the transactions that commit do to the accounts. -/
inductive Effect (dep : Deployment) (clock : Clock) (st : State) : Instr → State → Prop
  | initConfig {s : Signer} {target : UInt64} {t : Tracked} {opened lamports : Holder → Nat}
      (hconfig : st.config = none) (hreserve : st.reserve = none)
      (hopened : Balances.move 64 st.lamports (.wallet s.key) .config
        (dep.rent configSpace - st.lamports .config) = some opened)
      (hfunded : Balances.move 64 opened (.wallet s.key) .reserve
        (dep.rent reserveSpace - opened .reserve) = some lamports) :
      Effect dep clock st (.initConfig s target t)
        ⟨some (.opened s.key target t), some (.recorded clock lamports), lamports⟩
  | setTrackedPrograms {s : Signer} {t : Tracked} {cfg : RentBondConfig}
      (hconfig : st.config = some cfg) (hauth : cfg.authority = s.key) :
      Effect dep clock st (.setTrackedPrograms s t) { st with config := some (cfg.track t) }
  | recalcTargets {s : Signer} {largest extra : UInt64} {cfg : RentBondConfig} {r : ProgramReserve}
      (hconfig : st.config = some cfg) (hreserve : st.reserve = some r)
      (hauth : cfg.authority = s.key)
      (hfits : largest.toNat * 2 + bufferLamports + extra.toNat < 2 ^ 64) :
      Effect dep clock st (.recalcTargets s largest extra)
        ⟨some { cfg with reserveTargetLamports := targetOf largest.toNat extra.toNat },
          some (.recorded clock st.lamports), st.lamports⟩
  | depositReserve {s : Signer} {n : UInt64} {cfg : RentBondConfig} {r : ProgramReserve}
      {after : Holder → Nat} (hconfig : st.config = some cfg) (hreserve : st.reserve = some r)
      (hauth : cfg.authority = s.key) (hpos : 0 < n.toNat)
      (hmove : Balances.move 64 st.lamports (.wallet s.key) .reserve n.toNat = some after) :
      Effect dep clock st (.depositReserve s n)
        { st with reserve := some (.recorded clock after), lamports := after }
  | withdrawReserve {s : Signer} {recipient : Holder} {n : UInt64} {cfg : RentBondConfig}
      {r : ProgramReserve} {after : Holder → Nat} (hconfig : st.config = some cfg)
      (hreserve : st.reserve = some r) (hauth : cfg.authority = s.key) (hpos : 0 < n.toNat)
      (hrent : dep.rent reserveSpace ≤ st.lamports .reserve - n.toNat)
      (hmove : Balances.move 64 st.lamports .reserve recipient n.toNat = some after) :
      Effect dep clock st (.withdrawReserve s recipient n)
        { st with reserve := some (.recorded clock after), lamports := after }
  | systemTransfer {s : Signer} {recipient : Holder} {n : Nat} {after : Holder → Nat}
      (hmove : Balances.move 64 st.lamports (.wallet s.key) recipient n = some after) :
      Effect dep clock st (.systemTransfer s recipient n) { st with lamports := after }

theorem computeReserveTarget_eq_ok {largest extra n : Nat} :
    computeReserveTarget largest extra = .ok n ↔
      largest * 2 + bufferLamports + extra < 2 ^ 64 ∧ targetOf largest extra = n := by
  simp only [computeReserveTarget, bind_eq_ok, okOr_eq_ok, Checked.mul_eq_some, Checked.add_eq_some,
    pure_eq_ok]
  constructor
  · rintro ⟨_, ⟨-, rfl⟩, _, ⟨-, rfl⟩, _, ⟨hfits, rfl⟩, rfl⟩
    exact ⟨hfits, rfl⟩
  · rintro ⟨hfits, rfl⟩
    exact ⟨_, ⟨by omega, rfl⟩, _, ⟨by omega, rfl⟩, _, ⟨hfits, rfl⟩, rfl⟩

/-- **Inversion**: a transaction commits exactly with its effect. -/
theorem handle_eq_ok_iff {dep : Deployment} {clock : Clock} {st st' : State} {i : Instr} :
    handle dep clock st i = .ok st' ↔ Effect dep clock st i st' := by
  constructor
  · intro h
    cases i with
    | initConfig s target t =>
      simp only [handle, initConfig, fund, bind_eq_ok, vacant_eq_ok, transferLamports_eq_ok,
        exists_unit, pure_eq_ok] at h
      obtain ⟨hconfig, opened, hopened, hreserve, lamports, hfunded, rfl⟩ := h
      exact .initConfig hconfig hreserve hopened hfunded
    | setTrackedPrograms s t =>
      simp only [handle, setTrackedPrograms, bind_eq_ok, load_eq_ok, require_eq_ok, exists_unit,
        pure_eq_ok] at h
      obtain ⟨cfg, hconfig, hauth, rfl⟩ := h
      exact .setTrackedPrograms hconfig hauth
    | recalcTargets s largest extra =>
      simp only [handle, recalcTargets, bind_eq_ok, load_eq_ok, require_eq_ok, exists_unit,
        computeReserveTarget_eq_ok, pure_eq_ok] at h
      obtain ⟨cfg, hconfig, r, hreserve, hauth, _, ⟨hfits, rfl⟩, rfl⟩ := h
      exact .recalcTargets hconfig hreserve hauth hfits
    | depositReserve s n =>
      simp only [handle, depositReserve, bind_eq_ok, load_eq_ok, require_eq_ok, exists_unit,
        transferLamports_eq_ok, pure_eq_ok] at h
      obtain ⟨cfg, hconfig, r, hreserve, hpos, hauth, after, hmove, rfl⟩ := h
      exact .depositReserve hconfig hreserve hauth hpos hmove
    | withdrawReserve s recipient n =>
      simp only [handle, withdrawReserve, bind_eq_ok, load_eq_ok, require_eq_ok, exists_unit,
        transferLamports_eq_ok, pure_eq_ok] at h
      obtain ⟨cfg, hconfig, r, hreserve, hpos, hauth, hrent, after, hmove, rfl⟩ := h
      exact .withdrawReserve hconfig hreserve hauth hpos hrent hmove
    | systemTransfer s recipient n =>
      simp only [handle, systemTransfer, bind_eq_ok, transferLamports_eq_ok, pure_eq_ok] at h
      obtain ⟨after, hmove, rfl⟩ := h
      exact .systemTransfer hmove
  · intro h
    cases h with
    | initConfig hconfig hreserve hopened hfunded =>
      simp [handle, initConfig, fund, hconfig, hreserve, hopened, hfunded]
    | setTrackedPrograms hconfig hauth => simp [handle, setTrackedPrograms, hconfig, hauth]
    | recalcTargets hconfig hreserve hauth hfits =>
      have htarget := computeReserveTarget_eq_ok.2 ⟨hfits, rfl⟩
      simp [handle, recalcTargets, hconfig, hreserve, hauth, htarget]
    | depositReserve hconfig hreserve hauth hpos hmove =>
      simp [handle, depositReserve, hconfig, hreserve, hauth, hpos, hmove]
    | withdrawReserve hconfig hreserve hauth hpos hrent hmove =>
      simp [handle, withdrawReserve, hconfig, hreserve, hauth, hpos, hrent, hmove]
    | systemTransfer hmove => simp [handle, systemTransfer, hmove]

/-! ## The ledger of the reserve -/

/-- The lamports that an instruction brings to the reserve. -/
def Instr.received (dep : Deployment) (lamports : Holder → Nat) : Instr → Nat
  | .initConfig .. => dep.rent reserveSpace - lamports .reserve
  | .depositReserve _ n => n.toNat
  | .withdrawReserve _ .reserve n => n.toNat
  | .systemTransfer _ .reserve n => n
  | _ => 0

/-- The lamports that it takes from the reserve. -/
def Instr.withdrawn : Instr → Nat
  | .withdrawReserve _ _ n => n.toNat
  | _ => 0

/-- The instruction records the lamports of the reserve. -/
def Instr.records : Instr → Bool
  | .setTrackedPrograms .. | .systemTransfer .. => false
  | _ => true

/-- The instruction of an event, if it committed. -/
def committed (e : Step) : Option Instr :=
  match e.input, e.out with
  | .submit i, some (.ok _) => some i
  | _, _ => none

def received (dep : Deployment) (e : Step) : Nat :=
  ((committed e).map (Instr.received dep e.pre.accounts.lamports)).getD 0

def withdrawn (e : Step) : Nat := ((committed e).map Instr.withdrawn).getD 0

/-- What the reserve has received and not recorded. -/
def unrecorded (dep : Deployment) (n : Nat) (e : Step) : Nat :=
  match committed e with
  | none => n
  | some i => if i.records then 0 else n + i.received dep e.pre.accounts.lamports

/-- **The accounts of the reserve**: its lamports are what it had and received, less what was
withdrawn, and the record lags behind them by what is not recorded. An open reserve has its rent
exemption. -/
structure Balanced (dep : Deployment) (c₀ c : Chain State) (l : List Step) : Prop where
  open_iff : c.accounts.config = none ↔ c.accounts.reserve = none
  ledger : c.accounts.lamports .reserve + (l.map withdrawn).sum =
    c₀.accounts.lamports .reserve + (l.map (received dep)).sum
  record : ∀ r, c.accounts.reserve = some r →
    r.lamportsBalance + l.foldl (unrecorded dep) 0 = c.accounts.lamports .reserve
  floor : c.accounts.reserve ≠ none → dep.rent reserveSpace ≤ c.accounts.lamports .reserve

section Steps

variable {dep : Deployment} {clock : Clock} {st st' : State} {i : Instr}

/-- A transfer from a wallet brings the reserve what is sent to it. -/
theorem reserve_of_move {lamports after : Holder → Nat} {k : Pubkey} {dst : Holder} {n : Nat}
    (h : Balances.move 64 lamports (.wallet k) dst n = some after) :
    after .reserve = lamports .reserve + if dst = .reserve then n else 0 := by
  have hmove := Balances.move_apply h .reserve
  simp only [reduceCtorEq, if_false, Nat.add_zero] at hmove
  rw [hmove]
  simp only [eq_comm]

theorem Effect.moved (h : Effect dep clock st i st') :
    st'.lamports .reserve + i.withdrawn =
      st.lamports .reserve + i.received dep st.lamports := by
  cases h with
  | initConfig hconfig hreserve hopened hfunded =>
    have hconf := reserve_of_move hopened
    have hres := reserve_of_move hfunded
    simp only [reduceCtorEq, if_false, if_true, Nat.add_zero] at hconf hres
    rw [hconf] at hres
    exact hres
  | setTrackedPrograms => rfl
  | recalcTargets => rfl
  | depositReserve hconfig hreserve hauth hpos hmove =>
    have hres := reserve_of_move hmove
    rw [if_pos rfl] at hres
    exact hres
  | @withdrawReserve s recipient n cfg r after hconfig hreserve hauth hpos hrent hmove =>
    have hres := Balances.move_apply hmove .reserve
    rw [if_pos rfl] at hres
    cases recipient <;> exact hres
  | @systemTransfer s recipient n after hmove =>
    have hres := reserve_of_move hmove
    cases recipient <;> exact hres

/-- An instruction that records leaves the record up to date, and others leave it alone. -/
theorem Effect.reserve_eq (h : Effect dep clock st i st') :
    st'.reserve = if i.records then some (.recorded clock st'.lamports) else st.reserve := by
  cases h <;> rfl

/-- Only a withdrawal lowers the reserve, and it leaves the rent exemption. -/
theorem Effect.floor (h : Effect dep clock st i st')
    (hfloor : st.reserve ≠ none → dep.rent reserveSpace ≤ st.lamports .reserve)
    (hopen : st'.reserve ≠ none) : dep.rent reserveSpace ≤ st'.lamports .reserve := by
  have hmoved := h.moved
  cases h with
  | initConfig =>
    simp only [Instr.withdrawn, Instr.received] at hmoved
    dsimp only
    omega
  | withdrawReserve hconfig hreserve hauth hpos hrent hmove =>
    have hres := Balances.move_apply hmove .reserve
    have hle := Balances.move_le hmove
    rw [if_pos rfl] at hres
    dsimp only
    omega
  | setTrackedPrograms => exact hfloor hopen
  | recalcTargets _ hreserve => exact hfloor (by simp [hreserve])
  | depositReserve _ hreserve =>
    have hold := hfloor (by simp [hreserve])
    simp only [Instr.withdrawn] at hmoved ⊢
    omega
  | systemTransfer =>
    have hold := hfloor hopen
    simp only [Instr.withdrawn] at hmoved ⊢
    omega

theorem Effect.open_iff (h : Effect dep clock st i st')
    (hopen : st.config = none ↔ st.reserve = none) : st'.config = none ↔ st'.reserve = none := by
  cases h with
  | initConfig => simp
  | setTrackedPrograms hconfig =>
    simp only [hconfig, reduceCtorEq, false_iff] at hopen
    simp [hopen]
  | recalcTargets => simp
  | depositReserve hconfig => simp [hconfig]
  | withdrawReserve hconfig => simp [hconfig]
  | systemTransfer => exact hopen

end Steps

/-- What a step does: it leaves the accounts alone, or an instruction commits. -/
theorem step_cases (dep : Deployment) (c : Chain State) (a : Action Instr) :
    ((step dep c a).1.accounts = c.accounts ∧ committed (event (step dep) c a) = none) ∨
      ∃ i st', a = .submit i ∧ Effect dep c.clock c.accounts i st' ∧
        (step dep c a).1.accounts = st' ∧ committed (event (step dep) c a) = some i := by
  rcases chainStep_cases (process dep) c a with ⟨n, ts, rfl, hs⟩ | ⟨i, st', u, rfl, hok, hs⟩ |
    ⟨i, f, rfl, -, hs⟩
  · exact .inl ⟨rfl, rfl⟩
  · exact .inr ⟨i, st', rfl, handle_eq_ok_iff.1 (process_eq_ok.1 hok), by rw [step, hs],
      by simp only [committed, event, step, hs]⟩
  · exact .inl ⟨by rw [step, hs], by simp only [committed, event, step, hs]⟩

/-- **Step lemma**: every action keeps the accounts. -/
theorem balanced_step {dep : Deployment} {c₀ c : Chain State} {l : List Step}
    (h : Balanced dep c₀ c l) (a : Action Instr) :
    Balanced dep c₀ (step dep c a).1 (l ++ [event (step dep) c a]) := by
  have hpre : (event (step dep) c a).pre = c := rfl
  rcases step_cases dep c a with ⟨hsame, hnone⟩ | ⟨i, st', rfl, heffect, hpost, hsome⟩
  · have hreceived : received dep (event (step dep) c a) = 0 := by simp [received, hnone]
    have hwithdrawn : withdrawn (event (step dep) c a) = 0 := by simp [withdrawn, hnone]
    refine ⟨by rw [hsame]; exact h.open_iff, ?_, fun r hr => ?_, by rw [hsame]; exact h.floor⟩
    · rw [hsame]
      simp [hreceived, hwithdrawn, h.ledger]
    · rw [hsame] at hr ⊢
      rw [List.foldl_concat, unrecorded, hnone]
      exact h.record r hr
  · have hmoved := heffect.moved
    have hledger := h.ledger
    refine ⟨by rw [hpost]; exact heffect.open_iff h.open_iff, ?_, fun r hr => ?_, ?_⟩
    · rw [hpost]
      simp only [List.map_append, List.sum_append, List.map_cons, List.map_nil, List.sum_singleton,
        received, withdrawn, hsome, Option.map_some, Option.getD_some, hpre]
      omega
    · rw [hpost] at hr ⊢
      rw [heffect.reserve_eq] at hr
      rw [List.foldl_concat, unrecorded, hsome, hpre]
      dsimp only
      split at hr
      · next hrecords =>
        rw [if_pos hrecords, ← Option.some.inj hr]
        rfl
      · next hrecords =>
        have hrecord := h.record r hr
        have hnone : i.withdrawn = 0 := by
          cases i <;> first | rfl | exact absurd rfl hrecords
        rw [if_neg hrecords]
        omega
    · rw [hpost]
      exact heffect.floor h.floor

/-- **The accounts add up** over every run of a program that is not initialised at first. -/
theorem reserve_accounts (dep : Deployment) (c : Chain State) (hconfig : c.accounts.config = none)
    (hreserve : c.accounts.reserve = none) (is : List (Action Instr)) :
    Balanced dep c (exec (step dep) c is) (trace (step dep) c is) := by
  refine history_of_step (J := fun c' l => Balanced dep c c' l) (fun _ _ a h => balanced_step h a) ?_ is
  exact ⟨by simp [hconfig, hreserve], rfl, fun r hr => by simp [hreserve] at hr,
    fun h => absurd hreserve h⟩

section Example

/-- The wallet of the key `1` has a thousand lamports, and nothing is initialised. -/
def exampleChain : Chain State :=
  ⟨⟨0, 0⟩, none, none, fun h => if h = .wallet 1 then 1000 else 0⟩

/-- The rent exemption is the size. -/
def exampleDeployment : Deployment := ⟨id⟩

/-- It is initialised, filled, paid into from outside, and drawn from. -/
def exampleRun : List (Action Instr) :=
  let s : Signer := ⟨1, one_ne_default⟩
  [.submit (.initConfig s 7 ⟨0, 0, 0, 0⟩), .elapse 3 0, .submit (.depositReserve s 100),
    .submit (.systemTransfer s .reserve 50), .submit (.withdrawReserve s (.wallet 2) 120)]

theorem reserve_accounts_example : Balanced exampleDeployment exampleChain
    (exec (step exampleDeployment) exampleChain exampleRun)
    (trace (step exampleDeployment) exampleChain exampleRun) :=
  reserve_accounts exampleDeployment exampleChain rfl rfl exampleRun

/-- The reserve is left with what it needs and 30 lamports. -/
example : (exec (step exampleDeployment) exampleChain exampleRun).accounts.lamports .reserve =
    reserveSpace + 30 := by
  decide

end Example

/-! ## Authority and target -/

/-- The target that an instruction sets. -/
def Instr.target : Instr → Option Nat
  | .initConfig _ target _ => some (max target.toNat minReserveLamports)
  | .recalcTargets _ largest extra => some (targetOf largest.toNat extra.toNat)
  | _ => none

def Instr.founder : Instr → Option Pubkey
  | .initConfig s _ _ => some s.key
  | _ => none

/-- Who initialised the program. -/
def founder (l : List Step) : Option Pubkey :=
  l.findSome? fun e => (committed e).bind Instr.founder

/-- The target that was set last. -/
def lastTarget (l : List Step) : Option Nat :=
  (l.filterMap fun e => (committed e).bind Instr.target).getLast?

/-- The config knows who initialised the program, and the last target. -/
structure Governed (c : Chain State) (l : List Step) : Prop where
  authority : c.accounts.config.map RentBondConfig.authority = founder l
  target : c.accounts.config.map RentBondConfig.reserveTargetLamports = lastTarget l

section Steps

variable {dep : Deployment} {clock : Clock} {st st' : State} {i : Instr}

theorem Effect.authority (h : Effect dep clock st i st') :
    st'.config.map RentBondConfig.authority =
      (st.config.map RentBondConfig.authority).or i.founder := by
  cases h with
  | initConfig hconfig => simp [hconfig, Instr.founder, RentBondConfig.opened]
  | setTrackedPrograms hconfig => simp [hconfig, RentBondConfig.track]
  | recalcTargets hconfig => simp [hconfig]
  | depositReserve => simp [Instr.founder]
  | withdrawReserve => simp [Instr.founder]
  | systemTransfer => simp [Instr.founder]

theorem Effect.target (h : Effect dep clock st i st') :
    st'.config.map RentBondConfig.reserveTargetLamports =
      i.target.or (st.config.map RentBondConfig.reserveTargetLamports) := by
  cases h with
  | initConfig => rfl
  | setTrackedPrograms hconfig => simp [hconfig, Instr.target, RentBondConfig.track]
  | recalcTargets => rfl
  | depositReserve => rfl
  | withdrawReserve => rfl
  | systemTransfer => rfl

end Steps

theorem founder_concat (l : List Step) (e : Step) :
    founder (l ++ [e]) = (founder l).or ((committed e).bind Instr.founder) := by
  unfold founder
  rw [List.findSome?_append]
  cases h : (committed e).bind Instr.founder <;> simp [List.findSome?, h]

theorem lastTarget_concat (l : List Step) (e : Step) :
    lastTarget (l ++ [e]) = ((committed e).bind Instr.target).or (lastTarget l) := by
  unfold lastTarget
  rw [List.filterMap_append]
  cases h : (committed e).bind Instr.target with
  | none => simp [h]
  | some n => simp [h]

/-- **Step lemma**: every action keeps them. -/
theorem governed_step {dep : Deployment} {c : Chain State} {l : List Step} (h : Governed c l)
    (a : Action Instr) : Governed (step dep c a).1 (l ++ [event (step dep) c a]) := by
  have hauthority := h.authority
  have htarget := h.target
  constructor
  · rw [founder_concat]
    rcases step_cases dep c a with ⟨hsame, hnone⟩ | ⟨i, st', rfl, heffect, hpost, hsome⟩
    · rw [hsame, hnone, hauthority]
      simp
    · rw [hpost, hsome, heffect.authority, hauthority]
      rfl
  · rw [lastTarget_concat]
    rcases step_cases dep c a with ⟨hsame, hnone⟩ | ⟨i, st', rfl, heffect, hpost, hsome⟩
    · rw [hsame, hnone, htarget]
      rfl
    · rw [hpost, hsome, heffect.target, htarget]
      rfl

theorem governed_run (dep : Deployment) {c : Chain State} (hconfig : c.accounts.config = none)
    (is : List (Action Instr)) : Governed (exec (step dep) c is) (trace (step dep) c is) := by
  refine history_of_step (J := Governed) (fun _ _ a h => governed_step h a) ?_ is
  exact ⟨by simp [hconfig, founder], by simp [hconfig, lastTarget]⟩

/-- Who initialised the program stays. -/
theorem founder_append {l : List Step} {k : Pubkey} (h : founder l = some k) (l' : List Step) :
    founder (l ++ l') = some k := by
  unfold founder at h ⊢
  rw [List.findSome?_append, h, Option.some_or]

/-- Only a withdrawal takes lamports from the reserve. -/
theorem Effect.of_lowered {dep : Deployment} {clock : Clock} {st st' : State} {i : Instr}
    (h : Effect dep clock st i st') (hlow : st'.lamports .reserve < st.lamports .reserve) :
    ∃ s r n, i = .withdrawReserve s r n ∧
      st.config.map RentBondConfig.authority = some s.key := by
  have hmoved := h.moved
  cases h with
  | @withdrawReserve s r n _ _ _ hconfig _ hauth =>
    exact ⟨s, r, n, rfl, by rw [hconfig, Option.map_some, hauth]⟩
  | initConfig | setTrackedPrograms | recalcTargets | depositReserve | systemTransfer =>
    simp only [Instr.withdrawn] at hmoved hlow
    omega

/-- **Withdrawals**: over every run of a program that is not initialised at first, the reserve is
lowered by nobody but the one who initialised it, who may withdraw down to the rent exemption: the
target of the config does not matter. -/
theorem reserve_withdrawals (dep : Deployment) (c : Chain State)
    (hconfig : c.accounts.config = none) (hreserve : c.accounts.reserve = none)
    (is : List (Action Instr)) :
    (∀ e ∈ trace (step dep) c is,
      e.post.accounts.lamports .reserve < e.pre.accounts.lamports .reserve →
        ∃ s r n, e.input = .submit (.withdrawReserve s r n) ∧
          founder (trace (step dep) c is) = some s.key) ∧
      Governed (exec (step dep) c is) (trace (step dep) c is) ∧
      ∀ (s : Signer) (r : Holder) (n : UInt64),
        (∃ st', handle dep (exec (step dep) c is).clock (exec (step dep) c is).accounts
            (.withdrawReserve s r n) = .ok st') ↔
          founder (trace (step dep) c is) = some s.key ∧ 0 < n.toNat ∧
            dep.rent reserveSpace + n.toNat ≤ (exec (step dep) c is).accounts.lamports .reserve ∧
            (exec (step dep) c is).accounts.lamports r + (if r = .reserve then 0 else n.toNat) <
              2 ^ 64 := by
  have hgoverned := governed_run dep hconfig is
  have hbalanced := reserve_accounts dep c hconfig hreserve is
  refine ⟨fun e he hlow => ?_, hgoverned, fun s r n => ?_⟩
  · obtain ⟨pre, a, post, rfl, rfl⟩ := mem_trace he
    rcases step_cases dep (exec (step dep) c pre) a with ⟨hsame, -⟩ |
      ⟨i, st', rfl, heffect, hpost, -⟩
    · rw [event_post, event_pre, hsame] at hlow
      exact absurd hlow (Nat.lt_irrefl _)
    · rw [event_post, event_pre, hpost] at hlow
      obtain ⟨s, r, n, rfl, hauth⟩ := heffect.of_lowered hlow
      rw [(governed_run dep hconfig pre).authority] at hauth
      refine ⟨s, r, n, rfl, ?_⟩
      rw [trace_append]
      exact founder_append hauth _
  · rw [← hgoverned.authority]
    generalize exec (step dep) c is = c' at hbalanced
    constructor
    · rintro ⟨st', h⟩
      cases handle_eq_ok_iff.1 h with
      | withdrawReserve hcfg hres hauth hpos hrent hmove =>
        obtain ⟨hle, hfits, -⟩ := Balances.move_eq_some.1 hmove
        refine ⟨by rw [hcfg, Option.map_some, hauth], hpos, by omega, ?_⟩
        by_cases hr : r = .reserve
        · subst hr
          rw [Function.update_self] at hfits
          rw [if_pos rfl]
          omega
        · rw [Function.update_of_ne hr] at hfits
          rwa [if_neg hr]
    · rintro ⟨hauth, hpos, hrent, hfits⟩
      obtain ⟨cfg, hcfg, hkey⟩ := Option.map_eq_some_iff.1 hauth
      obtain ⟨res, hres⟩ : ∃ res, c'.accounts.reserve = some res := by
        refine Option.ne_none_iff_exists'.1 fun hnone => ?_
        rw [hbalanced.open_iff.2 hnone] at hcfg
        cases hcfg
      obtain ⟨after, hmove⟩ : ∃ after, Balances.move 64 c'.accounts.lamports .reserve r n.toNat =
          some after := by
        refine ⟨_, Balances.move_eq_some.2 ⟨by omega, ?_, rfl⟩⟩
        by_cases hr : r = .reserve
        · subst hr
          rw [if_pos rfl] at hfits
          rw [Function.update_self]
          omega
        · rw [if_neg hr] at hfits
          rwa [Function.update_of_ne hr]
      exact ⟨_, handle_eq_ok_iff.2 (.withdrawReserve hcfg hres hkey hpos (by omega) hmove)⟩

/-- The one who initialised the program draws the rest. -/
theorem reserve_withdrawals_example : ∃ st', handle exampleDeployment
    (exec (step exampleDeployment) exampleChain exampleRun).clock
    (exec (step exampleDeployment) exampleChain exampleRun).accounts
    (.withdrawReserve ⟨1, one_ne_default⟩ .config 30) = .ok st' :=
  ((reserve_withdrawals exampleDeployment exampleChain rfl rfl exampleRun).2.2 _ _ _).2
    (by decide)

end Ddns.RentBond
