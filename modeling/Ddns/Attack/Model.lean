import Ddns.Lib.Js
import Ddns.Lib.Run

/-!
# The attack mode

A gateway evaluates signals of its environment now and then (`evaluateAttackMode`). Each evaluation
maps the mode and the memory of the one before to the next mode and memory. A definition without a
docstring is the item of the source with the same words in its name.
-/

namespace Ddns.Attack

inductive AttackMode where
  | normal
  | suspicious
  | underAttack
  | isolated
  | recovery
  deriving DecidableEq, Repr

structure AttackSignals where
  rpcFailPct : Option JsNum := none
  rpcDisagreement : Option Bool := none
  invalidReceiptPct : Option JsNum := none
  receiptSampleSize : Option JsNum := none
  canonicalFlipCount : Option JsNum := none
  ipfsFailPct : Option JsNum := none
  gatewayErrorPct : Option JsNum := none
  nowUnix : Option ℚ := none
  deriving DecidableEq, Repr

structure AttackThresholds where
  rpcFailPctSuspicious : JsNum
  invalidReceiptPctUnderAttack : JsNum
  invalidReceiptMinSample : JsNum
  canonicalFlipLimit : JsNum
  recoveryStableSecs : JsNum
  deriving DecidableEq, Repr

structure Memory where
  lastStableUnix : Option ℚ
  deriving DecidableEq, Repr

/-- `AttackModeDecision`, with the memory that comes with it. -/
structure Decision where
  nextMode : AttackMode
  score : Nat
  reasons : List String
  memory : Memory
  deriving DecidableEq, Repr

/-- The thresholds of an empty environment. -/
def defaultThresholds : AttackThresholds := ⟨.fin 30, .fin 5, .fin 500, .fin 2, .fin 600⟩

def clampPct : JsNum → ℚ
  | .fin v => max 0 (min 100 v)
  | _ => 0

/-- The percentage of a signal, `0` when it is absent. -/
def pctOf (signal : Option JsNum) : JsNum := .fin (clampPct (signal.getD (.fin 0)))

/-! ## The score -/

def rpcFailHigh (s : AttackSignals) (thr : AttackThresholds) : Bool :=
  thr.rpcFailPctSuspicious.lt (pctOf s.rpcFailPct)

def invalidReceiptsHigh (s : AttackSignals) (thr : AttackThresholds) : Bool :=
  thr.invalidReceiptMinSample.le (s.receiptSampleSize.getD (.fin 0)) &&
    thr.invalidReceiptPctUnderAttack.lt (pctOf s.invalidReceiptPct)

def flipsHigh (s : AttackSignals) (thr : AttackThresholds) : Bool :=
  thr.canonicalFlipLimit.lt (s.canonicalFlipCount.getD (.fin 0))

def ipfsFailHigh (s : AttackSignals) : Bool := JsNum.lt (.fin 50) (pctOf s.ipfsFailPct)

def gatewayErrorHigh (s : AttackSignals) : Bool := JsNum.lt (.fin 20) (pctOf s.gatewayErrorPct)

/-- The score of signals without a disagreement. -/
def scoreOf (s : AttackSignals) (thr : AttackThresholds) : Nat :=
  min 100 ((if rpcFailHigh s thr then 30 else 0) + (if invalidReceiptsHigh s thr then 70 else 0) +
    (if flipsHigh s thr then 40 else 0) + (if ipfsFailHigh s then 10 else 0) +
    (if gatewayErrorHigh s then 10 else 0))

/-- The reasons that go with the score; `text` prints a number. -/
def reasonsOf (text : JsNum → String) (s : AttackSignals) (thr : AttackThresholds) : List String :=
  (if rpcFailHigh s thr then ["rpc_fail_pct>" ++ text thr.rpcFailPctSuspicious] else []) ++
  (if invalidReceiptsHigh s thr then
    ["invalid_receipt_pct>" ++ text thr.invalidReceiptPctUnderAttack ++ "@" ++
      text (s.receiptSampleSize.getD (.fin 0))] else []) ++
  (if flipsHigh s thr then ["canonical_flips>" ++ text thr.canonicalFlipLimit] else []) ++
  (if ipfsFailHigh s then ["ipfs_fail_pct>50"] else []) ++
  (if gatewayErrorHigh s then ["gateway_error_pct>20"] else [])

/-! ## The transition -/

/-- The mode that a score asks for. -/
def modeForScore (score : Nat) : AttackMode :=
  if 60 ≤ score then .underAttack else if 20 ≤ score then .suspicious else .normal

/-- The remembered time, unless it is absent or zero. -/
def remembered (memory : Memory) : Option ℚ := memory.lastStableUnix.filter (· ≠ 0)

/-- `stableFor`, for a stable evaluation at `now`. -/
def stableFor (memory : Memory) (now : ℚ) : ℚ :=
  match remembered memory with
  | some t => now - t
  | none => 0

/-- The time since the remembered one is long enough. -/
def stableLongEnough (thr : AttackThresholds) (memory : Memory) (now : ℚ) : Bool :=
  (remembered memory).isSome && thr.recoveryStableSecs.le (.fin (stableFor memory now))

def nextMode (prev : AttackMode) (score : Nat) (thr : AttackThresholds) (memory : Memory)
    (now : ℚ) : AttackMode :=
  let isStable : Bool := score = 0
  match prev with
  | .underAttack | .isolated =>
    if isStable then if stableLongEnough thr memory now then .normal else .recovery
    else prev
  | .recovery =>
    if isStable && stableLongEnough thr memory now then .normal
    else if 60 ≤ score then .underAttack
    else if 20 ≤ score then .suspicious
    else .recovery
  | .normal | .suspicious => modeForScore score

/-- `now`: the time of the signals, or that of the clock in milliseconds. -/
def nowOf (signals : AttackSignals) (dateNow : Int) : ℚ :=
  signals.nowUnix.getD ((dateNow / 1000 : Int) : ℚ)

def evaluateAttackMode (text : JsNum → String) (prev : AttackMode) (signals : AttackSignals)
    (thr : AttackThresholds) (memory : Memory) (dateNow : Int) : Decision :=
  let now := nowOf signals dateNow
  if signals.rpcDisagreement = some true then ⟨.isolated, 100, ["rpc_disagreement"], ⟨none⟩⟩
  else
    let score := scoreOf signals thr
    { nextMode := nextMode prev score thr memory now
      score
      reasons := reasonsOf text signals thr
      memory := ⟨if score = 0 then some now else memory.lastStableUnix⟩ }

/-! ## Runs -/

/-- What one evaluation hands to the next. -/
structure State where
  mode : AttackMode
  memory : Memory
  deriving DecidableEq, Repr

/-- One evaluation: its signals, and the clock. -/
structure Input where
  signals : AttackSignals
  dateNow : Int := 0
  deriving DecidableEq, Repr

/-- One evaluation of a run, which threads mode and memory through. -/
def step (text : JsNum → String) (thr : AttackThresholds) (s : State) (i : Input) :
    State × Decision :=
  let d := evaluateAttackMode text s.mode i.signals thr s.memory i.dateNow
  (⟨d.nextMode, d.memory⟩, d)

end Ddns.Attack
