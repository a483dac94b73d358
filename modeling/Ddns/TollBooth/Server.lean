import Ddns.Attack.Model
import Ddns.Lib.FinMap
import Ddns.Lib.Run

/-!
# The toll booth

The toll booth stores the routes that enough trusted witnesses signed (`services/toll-booth`). A
submission is checked, awaits the look-up of the owner's toll pass, and is then stored in one go, so
two submissions can only change places at that `await`. Failures of the file system are left out.

The fields of a request are typed here; a route that is not an object is `none`.
-/

namespace Ddns.TollBooth

open Attack (AttackMode AttackThresholds)

/-- What the service takes from its platform. Texts that `bs58` refuses to read throw, and so do keys
and signatures of a wrong length. -/
structure Runtime where
  sha256Hex : List UInt8 → JsText
  hexBytes : JsText → List UInt8
  base64Bytes : JsText → List UInt8
  base58Bytes : JsText → Option (List UInt8)
  verify : (msg sig pubkey : List UInt8) → Option Bool
  numberText : ℚ → JsText

structure RouteRecord where
  v : JsNum
  name : JsText
  dest : JsText
  ttl : JsNum
  issuedAt : JsNum
  expiresAt : JsNum
  owner : JsText
  nonce : JsText
  deriving DecidableEq

structure WitnessAttestation where
  v : JsNum
  routeId : JsText
  witness : JsText
  sig : JsText
  ts : JsNum
  deriving DecidableEq

structure Config where
  quorum : ℚ
  attackModeEnabled : Bool
  attackWindowSecs : JsNum
  attackThresholds : AttackThresholds
  /-- The text of a number in the reasons of a decision. -/
  reasonText : JsNum → String

/-! ## Route ids -/

def canonicalNumber (rt : Runtime) : JsNum → Option Json
  | .fin q => some (.num (rt.numberText q))
  | _ => none

/-- The object that `canonicalize` prints; numbers that are not finite throw. -/
def RouteRecord.toJson (rt : Runtime) (route : RouteRecord) : Option Json := do
  let v ← canonicalNumber rt route.v
  let ttl ← canonicalNumber rt route.ttl
  let issuedAt ← canonicalNumber rt route.issuedAt
  let expiresAt ← canonicalNumber rt route.expiresAt
  return .obj [
    (['v'], v),
    (['n', 'a', 'm', 'e'], .str route.name),
    (['d', 'e', 's', 't'], .str route.dest),
    (['t', 't', 'l'], ttl),
    (['i', 's', 's', 'u', 'e', 'd', '_', 'a', 't'], issuedAt),
    (['e', 'x', 'p', 'i', 'r', 'e', 's', '_', 'a', 't'], expiresAt),
    (['o', 'w', 'n', 'e', 'r'], .str route.owner),
    (['n', 'o', 'n', 'c', 'e'], .str route.nonce)]

def canonicalize (j : Json) : JsText := j.print (Json.sortByKey JsText.compareUnits)

def routeId (rt : Runtime) (route : RouteRecord) : Option JsText :=
  (route.toJson rt).map fun j => rt.sha256Hex (canonicalize j).utf8

/-- The errors with which a submission is refused. -/
inductive SubmitError where
  | attackModeFreezeWrites (mode : AttackMode) (reasons : List String)
  | invalidRouteVersion
  | missingFields
  | invalidTtl
  | missingTimestamps
  | quorumNotMet (valid : ℕ)
  | noTollPass
  deriving DecidableEq

def isFinite : JsNum → Bool
  | .fin _ => true
  | _ => false

/-- The route, unless a check fails. -/
def isValidRoute (route : Option RouteRecord) : Except SubmitError RouteRecord :=
  match route with
  | none => .error .invalidRouteVersion
  | some route =>
    if route.v ≠ .fin 1 then .error .invalidRouteVersion
    else if route.name = [] ∨ route.dest = [] ∨ route.owner = [] then .error .missingFields
    else if isFinite route.ttl = false ∨ route.ttl.le (.fin 0) then .error .invalidTtl
    else if route.issuedAt.truthy = false ∨ route.expiresAt.truthy = false then
      .error .missingTimestamps
    else .ok route

/-! ## Witnesses -/

def verifyWitness (rt : Runtime) (routeHashHex : JsText) (att : WitnessAttestation)
    (trusted : List JsText) : Option Bool :=
  if att.v ≠ .fin 1 then some false
  else if att.witness ∉ trusted then some false
  else do
    let pubkey ← rt.base58Bytes att.witness
    rt.verify (rt.hexBytes routeHashHex) (rt.base64Bytes att.sig) pubkey

/-- `validWitnesses` after the attestations, from `valid` on. -/
def collectWitnesses (rt : Runtime) (computedId : JsText) (trusted : List JsText) :
    (valid : List JsText) → List WitnessAttestation → Option (List JsText)
  | valid, [] => some valid
  | valid, w :: ws =>
    if w.routeId ≠ computedId then collectWitnesses rt computedId trusted valid ws
    else
      match verifyWitness rt computedId w trusted with
      | none => none
      | some false => collectWitnesses rt computedId trusted valid ws
      | some true =>
        let valid := if w.witness ∈ valid then valid else valid ++ [w.witness]
        collectWitnesses rt computedId trusted valid ws

/-! ## The attack mode -/

/-- The counters of writes, and what the evaluations of the attack mode hand on. -/
structure Guard where
  windowStartUnix : ℤ
  totalWrites : ℕ
  writeErrors : ℕ
  mode : AttackMode
  memory : Attack.Memory
  reasons : List String

def freezeWrites : AttackMode → Bool
  | .underAttack => true
  | .isolated => true
  | _ => false

def Guard.resetAttackWindow (config : Config) (g : Guard) (nowUnix : ℤ) : Guard :=
  if config.attackWindowSecs.le (.fin (nowUnix - g.windowStartUnix : ℤ)) then
    { g with windowStartUnix := nowUnix, totalWrites := 0, writeErrors := 0 }
  else g

def Guard.writeErrPct (g : Guard) : ℚ :=
  if g.totalWrites ≠ 0 then g.writeErrors * 100 / g.totalWrites else 0

def Guard.currentAttackPolicy (config : Config) (g : Guard) (nowUnix : ℤ) : Guard :=
  let g := g.resetAttackWindow config nowUnix
  if config.attackModeEnabled = false then { g with mode := .normal, reasons := ["disabled"] }
  else
    let decision := Attack.evaluateAttackMode config.reasonText g.mode
      { gatewayErrorPct := some (.fin g.writeErrPct), nowUnix := some nowUnix }
      config.attackThresholds g.memory 0
    { g with mode := decision.nextMode, memory := decision.memory, reasons := decision.reasons }

/-! ## Submissions -/

/-- A submission that passed the checks, next to the trusted keys and the clock of these checks. -/
structure Submission where
  route : RouteRecord
  witnesses : List WitnessAttestation
  trusted : List JsText
  submittedAt : ℤ
  deriving DecidableEq

/-- A submission under its route id. -/
structure Pending where
  computedId : JsText
  submission : Submission
  deriving DecidableEq

structure Booth where
  guard : Guard
  /-- The submissions that await the look-up of a toll pass. -/
  pending : List Pending
  routes : FinMap JsText Submission
  credits : FinMap JsText ℕ

/-- The booth when it starts with empty directories. -/
def Booth.start (now : ℤ) : Booth where
  guard := ⟨now, 0, 0, .normal, ⟨none⟩, []⟩
  pending := []
  routes := .empty
  credits := .empty

inductive Response where
  | ok (routeId : JsText)
  | refused (error : SubmitError)
  | serverError
  deriving DecidableEq

inductive Input where
  /-- A submission arrives, at a time and with the trusted keys of the file. -/
  | submit (route : Option RouteRecord) (witnesses : List WitnessAttestation)
      (trusted : List JsText) (now : ℤ)
  /-- A look-up of a toll pass is over; it throws if the list of owners is no JSON. -/
  | passLookedUp (k : ℕ) (hasPass : Option Bool)

/-- The handler throws. -/
def Booth.serverError (s : Booth) : Booth × Option Response :=
  ({ s with guard := { s.guard with writeErrors := s.guard.writeErrors + 1 } }, some .serverError)

/-- The route that a submission is about, its id and the witnesses whose signatures are valid. -/
def checkSubmission (rt : Runtime) (config : Config) (route : Option RouteRecord)
    (witnesses : List WitnessAttestation) (trusted : List JsText) :
    Option (Except SubmitError (JsText × RouteRecord)) :=
  match isValidRoute route with
  | .error e => some (.error e)
  | .ok route => do
    let computedId ← routeId rt route
    let valid ← collectWitnesses rt computedId trusted [] witnesses
    if (valid.length : ℚ) < config.quorum then some (.error (.quorumNotMet valid.length))
    else some (.ok (computedId, route))

/-- The handler up to its `await`. -/
def Booth.submit (rt : Runtime) (config : Config) (s : Booth) (route : Option RouteRecord)
    (witnesses : List WitnessAttestation) (trusted : List JsText) (now : ℤ) :
    Booth × Option Response :=
  let guard := s.guard.currentAttackPolicy config now
  let s := { s with guard := { guard with totalWrites := guard.totalWrites + 1 } }
  if freezeWrites guard.mode then
    (s, some (.refused (.attackModeFreezeWrites guard.mode guard.reasons)))
  else
    match checkSubmission rt config route witnesses trusted with
    | none => s.serverError
    | some (.error e) => (s, some (.refused e))
    | some (.ok (computedId, route)) =>
      ({ s with pending := s.pending ++ [⟨computedId, ⟨route, witnesses, trusted, now⟩⟩] }, none)

/-- The route is stored, and its owner gets a point. -/
def Booth.store (s : Booth) (p : Pending) : Booth :=
  let owner := p.submission.route.owner
  { s with
    routes := s.routes.set p.computedId p.submission
    credits := s.credits.set owner ((s.credits.get owner).getD 0 + 1) }

/-- The handler after its `await`. -/
def Booth.passLookedUp (s : Booth) (k : ℕ) (hasPass : Option Bool) : Booth × Option Response :=
  match s.pending[k]? with
  | none => (s, none)
  | some p =>
    let s := { s with pending := s.pending.eraseIdx k }
    match hasPass with
    | none => s.serverError
    | some false => (s, some (.refused .noTollPass))
    | some true => (s.store p, some (.ok p.computedId))

def Booth.step (rt : Runtime) (config : Config) (s : Booth) : Input → Booth × Option Response
  | .submit route witnesses trusted now => s.submit rt config route witnesses trusted now
  | .passLookedUp k hasPass => s.passLookedUp k hasPass

end Ddns.TollBooth
