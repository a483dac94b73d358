import Ddns.Hosting.Points
import Ddns.Lib.Run

/-!
# The hosting control plane

A connection links a user to a zone and a domain. Its zone is selected in one go. A verification of
its domain reads the row of the connection, looks up DNS, and writes the row back when the answers
are there; DNS actions wait for the provider in the same way. What waits is lost with a restart, and
the rest is read back from files.

The texts of a body are given as `String(body?.field || "")`; a domain that is not a text is refused
as a blank one is. Failures of the file system, the DNS records that go to the provider, and the
pages and requests that read neither connections nor points are left out.
-/

namespace Ddns.Hosting

/-- A random text: it is not empty. -/
abbrev Token := {t : JsText // t ≠ []}

structure Config where
  tokenRef : JsText → JsText
  /-- `CF_TOKEN_STORE_KEY` is configured. -/
  tokenStoreKey : Bool
  providerNs1 : JsText
  providerNs2 : JsText
  pointsInstallWebHost : ℚ
  pointsNsVerified : ℚ
  pointsDnsActions : ℚ
  pointsWorkerTemplate : ℚ

/-! ## Connections -/

structure Verification where
  txtName : JsText
  txtValue : JsText
  txtPresent : Bool
  delegated : Bool
  nameservers : List JsText
  expectedNameservers : List JsText
  lastCheckedAt : ℤ
  deriving DecidableEq

structure Connection where
  connectionId : JsText
  userId : JsText
  zoneId : Option JsText
  zoneName : Option JsText
  domain : Option JsText
  tokenRef : JsText
  createdAt : ℤ
  scopes : List JsText
  lastVerifiedAt : Option ℤ
  verification : Option Verification
  deriving DecidableEq

/-- `t || null` -/
def orNull (t : Option JsText) : Option JsText := t.filter (· ≠ [])

def serializeConnection (row : Connection) : Connection :=
  { row with zoneName := orNull row.zoneName, domain := orNull row.domain }

/-- The TXT value that a row holds already. -/
def Connection.txtValue (row : Connection) : Option JsText :=
  orNull (row.verification.map (·.txtValue))

/-- A row without its verification. -/
def toPublicConnection (row : Connection) : Connection :=
  { serializeConnection row with verification := none }

/-- A row of the file, as it is read back. -/
def loadConnection (row : Connection) : Connection :=
  { row with zoneId := orNull row.zoneId, zoneName := orNull row.zoneName, domain := orNull row.domain }

/-- The part of `loadStore` that reads the connections file. -/
def loadConnections (rows : List Connection) : FinMap JsText Connection :=
  .ofList ((rows.filter fun row => row.connectionId ≠ []).map fun row =>
    (row.connectionId, loadConnection row))

/-! ## Requests and answers -/

inductive VerifyStatus where
  | verified
  | pendingDelegation
  | pendingVerification
  deriving DecidableEq, Repr

inductive ServerError where
  | missingUserId
  | provideExactlyOneOauthTokenOrApiToken
  | connectionNotFound
  | missingZoneId
  | missingDomain
  | missingZoneSelection
  | missingConnectionToken
  | cloudflareError
  deriving DecidableEq, Repr

/-- What `pointsBalanceResponse` returns. -/
structure PointsMeter where
  userId : JsText
  totalPoints : ℚ
  domain : Option JsText
  domainPoints : Option ℚ
  domains : List (JsText × ℚ)
  deriving DecidableEq

/-- What a verification answers. -/
structure Checked where
  connectionId : JsText
  domain : JsText
  verification : Verification
  status : VerifyStatus
  lastVerifiedAt : Option ℤ
  pointsGrant : Grant
  deriving DecidableEq

/-- What DNS actions answer. -/
structure Applied where
  connectionId : JsText
  zoneId : Option JsText
  domain : JsText
  actionsAwarded : ℚ
  workerAwarded : ℚ
  totalPoints : ℚ
  domainPoints : ℚ
  deriving DecidableEq

/-- What an install answers. -/
structure Installed where
  userId : JsText
  domain : JsText
  pointsAwarded : ℚ
  totalPoints : ℚ
  domainPoints : Option ℚ
  alreadyRecorded : Bool
  deriving DecidableEq

inductive Answer where
  | error (e : ServerError)
  | connected (row : Connection) (points : PointsMeter)
  | selected (row : Connection)
  | checked (a : Checked)
  | applied (a : Applied)
  | installed (a : Installed)
  | status (row : Connection) (points : PointsMeter) (verification : Option Verification)
  deriving DecidableEq

inductive Input where
  | connect (userId apiToken oauthToken : JsText) (scopes : List JsText) (uuid : Token) (now : ℤ)
  | zone (connectionId zoneId zoneName : JsText)
  /-- A verification reads the row; `token` is drawn if there is no TXT value yet. -/
  | verifyDomain (connectionId domain : JsText) (token : Token)
  /-- The DNS answers for the verification at `k` are there; an answer that fails is `none`. -/
  | resolved (k : ℕ) (txt : Option (List (List JsText))) (ns : Option (List JsText)) (uuid : Token)
    (now : ℤ)
  | actions (connectionId domain headerToken : JsText) (deployWorker : Bool)
  /-- The provider has answered the actions at `k`. -/
  | upserted (k : ℕ) (ok : Bool) (uuid uuid' : Token) (now : ℤ)
  | install (connectionId userId domain installId : JsText) (uuid : Token) (now : ℤ)
  | status (connectionId : JsText)
  | restart

/-- A verification that waits for DNS. -/
structure PendingCheck where
  connectionId : JsText
  row : Connection
  domain : JsText
  verificationValue : JsText
  txtName : JsText

/-- Actions that wait for the provider. -/
structure PendingActions where
  connectionId : JsText
  row : Connection
  domain : JsText
  deployWorker : Bool

structure Server where
  connections : FinMap JsText Connection
  tokenSecrets : FinMap JsText JsText
  points : PointsStore
  checks : List PendingCheck
  actions : List PendingActions
  connectionsFile : List Connection
  pointsFile : PointsFile

/-! ## The handlers -/

/-- `_tolldns-verification.${domain}` -/
def txtNameOf (domain : JsText) : JsText :=
  ['_', 't', 'o', 'l', 'l', 'd', 'n', 's', '-', 'v', 'e', 'r', 'i', 'f', 'i', 'c', 'a', 't', 'i',
    'o', 'n', '.'] ++ domain

/-- The values of TXT records; each record is in chunks. -/
def resolveTxtRecords (rows : Option (List (List JsText))) : List JsText :=
  ((rows.getD []).map List.flatten).filter (· ≠ [])

def resolveNsRecords (rt : Runtime) (rows : Option (List JsText)) : List JsText :=
  ((rows.getD []).map (normalizeDomain rt)).filter (· ≠ [])

def expectedProviderNameservers (config : Config) : List JsText :=
  [config.providerNs1, config.providerNs2].filter (· ≠ [])

/-- `a || b` -/
def orElse (a b : JsText) : JsText := if a = [] then b else a

def pointsBalanceResponse (rt : Runtime) (p : PointsStore) (userId maybeDomain : JsText) :
    PointsMeter where
  userId := userId
  totalPoints := p.userBalance userId
  domain := orNull (some (normalizeDomain rt maybeDomain))
  domainPoints := (orNull (some (normalizeDomain rt maybeDomain))).map (p.userDomainBalance userId)
  domains := ((p.balancesByUserDomain.get userId).map FinMap.entries).getD []

/-- What a look-up finds. -/
def PendingCheck.verification (rt : Runtime) (config : Config) (p : PendingCheck)
    (txt : Option (List (List JsText))) (ns : Option (List JsText)) (now : ℤ) : Verification where
  txtName := p.txtName
  txtValue := p.verificationValue
  txtPresent := p.verificationValue ∈ resolveTxtRecords txt
  delegated := ∀ ns' ∈ expectedProviderNameservers config, ns' ∈ resolveNsRecords rt ns
  nameservers := resolveNsRecords rt ns
  expectedNameservers := expectedProviderNameservers config
  lastCheckedAt := now

def Verification.status (v : Verification) : VerifyStatus :=
  if v.txtPresent ∧ v.delegated then .verified
  else if v.txtPresent then .pendingDelegation
  else .pendingVerification

/-- The row that a verification writes: the row it read, and what it found. -/
def PendingCheck.updated (p : PendingCheck) (v : Verification) (now : ℤ) : Connection :=
  { p.row with
    domain := some p.domain
    lastVerifiedAt := if v.status = .verified then some now else p.row.lastVerifiedAt
    verification := some v }

/-- The award for a verified domain. -/
def PendingCheck.award (config : Config) (p : PendingCheck) : Award where
  userId := p.row.userId
  domain := p.domain
  points := config.pointsNsVerified
  reason := .nsDelegationVerified
  idempotencyKey := awardKey .nsDelegationVerified p.row.userId p.domain

/-- The answer where nothing is awarded. -/
def noGrant (p : PointsStore) (userId domain : JsText) : Grant where
  awarded := false
  reason := none
  pointsAwarded := 0
  eventId := none
  totalPoints := p.userBalance userId
  domainPoints := some (p.userDomainBalance userId domain)

def PendingActions.award (config : Config) (p : PendingActions) : Award where
  userId := p.row.userId
  domain := p.domain
  points := config.pointsDnsActions
  reason := .dnsActionsApplied
  idempotencyKey := awardKey .dnsActionsApplied p.row.userId p.domain

def PendingActions.workerAward (config : Config) (p : PendingActions) : Award where
  userId := p.row.userId
  domain := p.domain
  points := config.pointsWorkerTemplate
  reason := .workerTemplateRequested
  idempotencyKey := awardKey .workerTemplateRequested p.row.userId p.domain

def installAward (config : Config) (userId domain installId : JsText) : Award where
  userId := userId
  domain := domain
  points := config.pointsInstallWebHost
  reason := .webHostInstall
  idempotencyKey := installKey userId domain installId

namespace Server

variable (rt : Runtime) (config : Config)

/-- The server before its first request: the files are not there. -/
def start : Server where
  connections := .empty
  tokenSecrets := .empty
  points := .empty
  checks := []
  actions := []
  connectionsFile := []
  pointsFile := pointsSnapshot .empty

def saveConnection (s : Server) (row : Connection) : Server :=
  let connections := s.connections.set row.connectionId row
  { s with
    connections := connections
    connectionsFile := connections.entries.map fun e => serializeConnection e.2
    pointsFile := pointsSnapshot s.points }

/-- `addPoints` of the server: an award that is recorded is written to the file. -/
def addPoints (s : Server) (a : Award) (eventId : Token) (now : ℤ) : Server × Grant :=
  let (points, grant) := s.points.addPoints rt a eventId now
  ({ s with
      points := points
      pointsFile := if grant.awarded then pointsSnapshot points else s.pointsFile }, grant)

def connect (s : Server) (userId apiToken oauthToken : JsText) (scopes : List JsText) (uuid : Token)
    (now : ℤ) : Server × Answer :=
  let userId := JsText.trim userId
  let apiToken := JsText.trim apiToken
  let oauthToken := JsText.trim oauthToken
  if userId = [] then (s, .error .missingUserId)
  else if (apiToken = [] ∧ oauthToken = []) ∨ (apiToken ≠ [] ∧ oauthToken ≠ []) then
    (s, .error .provideExactlyOneOauthTokenOrApiToken)
  else
    let token := orElse apiToken oauthToken
    let row : Connection := {
      connectionId := uuid, userId := userId, zoneId := none, zoneName := none, domain := none,
      tokenRef := config.tokenRef token, createdAt := now,
      scopes := (scopes.map JsText.trim).filter (· ≠ []), lastVerifiedAt := none,
      verification := none }
    let s := { s with tokenSecrets := s.tokenSecrets.set (config.tokenRef token) token }
    let s := s.saveConnection row
    (s, .connected (toPublicConnection row) (pointsBalanceResponse rt s.points userId []))

def zone (s : Server) (connectionId zoneId zoneName : JsText) : Server × Answer :=
  match s.connections.get connectionId with
  | none => (s, .error .connectionNotFound)
  | some row =>
    let zoneId := JsText.trim zoneId
    let zoneName := orNull (some (JsText.trim zoneName))
    if zoneId = [] then (s, .error .missingZoneId)
    else
      let updated := { row with zoneId := some zoneId, zoneName := zoneName }
      (s.saveConnection updated, .selected (toPublicConnection updated))

/-- The row that a verification reads, with what it is going to look up. -/
def verifyDomain (s : Server) (connectionId domain : JsText) (token : Token) :
    Server × Option Answer :=
  match s.connections.get connectionId with
  | none => (s, some (.error .connectionNotFound))
  | some row =>
    let domain := normalizeDomain rt (orElse domain (row.domain.getD []))
    if domain = [] then (s, some (.error .missingDomain))
    else
      ({ s with
          checks := s.checks ++ [{
            connectionId := connectionId, row := row, domain := domain,
            verificationValue := row.txtValue.getD token, txtName := txtNameOf domain }] }, none)

/-- A verification writes its row and awards the points of a verified domain. -/
def check (s : Server) (p : PendingCheck) (v : Verification) (uuid : Token) (now : ℤ) :
    Server × Answer :=
  let updated := p.updated v now
  let s := s.saveConnection updated
  let (s, pointsGrant) := if v.status = .verified then s.addPoints rt (p.award config) uuid now
    else (s, noGrant s.points updated.userId p.domain)
  (s, .checked {
    connectionId := p.connectionId, domain := p.domain, verification := v, status := v.status,
    lastVerifiedAt := updated.lastVerifiedAt, pointsGrant := pointsGrant })

def resolved (s : Server) (k : ℕ) (txt : Option (List (List JsText))) (ns : Option (List JsText))
    (uuid : Token) (now : ℤ) : Server × Option Answer :=
  match s.checks[k]? with
  | none => (s, none)
  | some p =>
    let s := { s with checks := s.checks.eraseIdx k }
    (s.check rt config p (p.verification rt config txt ns now) uuid now).map id some

def readConnectionToken (s : Server) (headerToken : JsText) (row : Connection) : JsText :=
  orElse (JsText.trim headerToken) ((s.tokenSecrets.get row.tokenRef).getD [])

def applyActions (s : Server) (connectionId domain headerToken : JsText) (deployWorker : Bool) :
    Server × Option Answer :=
  match s.connections.get connectionId with
  | none => (s, some (.error .connectionNotFound))
  | some row =>
    let domain := normalizeDomain rt (orElse domain (row.domain.getD []))
    if orNull row.zoneId = none then (s, some (.error .missingZoneSelection))
    else if domain = [] then (s, some (.error .missingDomain))
    else if s.readConnectionToken headerToken row = [] then
      (s, some (.error .missingConnectionToken))
    else ({ s with actions := s.actions ++ [⟨connectionId, row, domain, deployWorker⟩] }, none)

/-- The awards for actions that the provider has applied. -/
def apply (s : Server) (p : PendingActions) (uuid uuid' : Token) (now : ℤ) : Server × Answer :=
  let (s, actionPoints) := s.addPoints rt (p.award config) uuid now
  let (s, workerPoints) := if p.deployWorker then s.addPoints rt (p.workerAward config) uuid' now
    else (s, noGrant s.points p.row.userId p.domain)
  (s, .applied {
    connectionId := p.connectionId, zoneId := p.row.zoneId, domain := p.domain,
    actionsAwarded := actionPoints.pointsAwarded, workerAwarded := workerPoints.pointsAwarded,
    totalPoints := s.points.userBalance p.row.userId,
    domainPoints := s.points.userDomainBalance p.row.userId p.domain })

def upserted (s : Server) (k : ℕ) (ok : Bool) (uuid uuid' : Token) (now : ℤ) :
    Server × Option Answer :=
  match s.actions[k]? with
  | none => (s, none)
  | some p =>
    let s := { s with actions := s.actions.eraseIdx k }
    if ok then (s.apply rt config p uuid uuid' now).map id some
    else (s, some (.error .cloudflareError))

/-- `connectionId ? rowById(connectionId) : null` -/
def linked (s : Server) (connectionId : JsText) : Option Connection :=
  if connectionId = [] then none else s.connections.get connectionId

/-- The user of an install; the one of the connection stands in. -/
def installUser (s : Server) (connectionId userId : JsText) : JsText :=
  JsText.trim (orElse userId (((s.linked (JsText.trim connectionId)).map (·.userId)).getD []))

/-- The domain of an install; the one of the connection stands in. -/
def installDomain (s : Server) (connectionId domain : JsText) : JsText :=
  normalizeDomain rt
    (orElse domain (((s.linked (JsText.trim connectionId)).bind (·.domain)).getD []))

def install (s : Server) (connectionId userId domain installId : JsText) (uuid : Token) (now : ℤ) :
    Server × Answer :=
  let userId := s.installUser connectionId userId
  let domain := s.installDomain rt connectionId domain
  if userId = [] then (s, .error .missingUserId)
  else if domain = [] then (s, .error .missingDomain)
  else
    let (s, grant) := s.addPoints rt
      (installAward config userId domain (JsText.trim installId)) uuid now
    (s, .installed {
      userId := userId, domain := domain, pointsAwarded := grant.pointsAwarded,
      totalPoints := grant.totalPoints, domainPoints := grant.domainPoints,
      alreadyRecorded := grant.awarded = false ∧ grant.reason = some .duplicateEvent })

def statusOf (s : Server) (connectionId : JsText) : Answer :=
  match s.connections.get connectionId with
  | none => .error .connectionNotFound
  | some row => .status (toPublicConnection row)
      (pointsBalanceResponse rt s.points row.userId (row.domain.getD [])) row.verification

/-- The server stops, and `loadStore` reads its files. Tokens are in a file only if there is a key. -/
def restart (s : Server) : Server where
  connections := loadConnections s.connectionsFile
  tokenSecrets := if config.tokenStoreKey then s.tokenSecrets else .empty
  points := loadPoints rt s.pointsFile
  checks := []
  actions := []
  connectionsFile := s.connectionsFile
  pointsFile := s.pointsFile

def step (s : Server) : Input → Server × Option Answer
  | .connect userId apiToken oauthToken scopes uuid now =>
    (s.connect rt config userId apiToken oauthToken scopes uuid now).map id some
  | .zone connectionId zoneId zoneName => (s.zone connectionId zoneId zoneName).map id some
  | .verifyDomain connectionId domain token => s.verifyDomain rt connectionId domain token
  | .resolved k txt ns uuid now => s.resolved rt config k txt ns uuid now
  | .actions connectionId domain headerToken deployWorker =>
    s.applyActions rt connectionId domain headerToken deployWorker
  | .upserted k ok uuid uuid' now => s.upserted rt config k ok uuid uuid' now
  | .install connectionId userId domain installId uuid now =>
    (s.install rt config connectionId userId domain installId uuid now).map id some
  | .status connectionId => (s, some (s.statusOf rt connectionId))
  | .restart => (s.restart rt config, none)

end Server

/-! ## What a step does -/

section Steps

variable (rt : Runtime) (config : Config)

/-- The row of a new connection. -/
def newConnection (connectionId userId tokenRef : JsText) (scopes : List JsText) (now : ℤ) :
    Connection where
  connectionId := connectionId
  userId := userId
  zoneId := none
  zoneName := none
  domain := none
  tokenRef := tokenRef
  createdAt := now
  scopes := scopes
  lastVerifiedAt := none
  verification := none

/-- The requests of a server, by what they change. -/
inductive Effect (s : Server) : Input → Server × Option Answer → Prop
  | idle {i : Input} {e : ServerError} : Effect s i (s, some (.error e))
  | late {i : Input} : Effect s i (s, none)
  | status {c : JsText} : Effect s (.status c) (s, some (s.statusOf rt c))
  | connected {u t t' : JsText} {scopes : List JsText} {uuid : Token} {now : ℤ}
      {tokenSecrets : FinMap JsText JsText} {tokenRef userId : JsText} {scopes' : List JsText}
      {points : PointsMeter} (huser : userId ≠ []) :
      Effect s (.connect u t t' scopes uuid now)
        ({ s with tokenSecrets := tokenSecrets }.saveConnection
            (newConnection uuid userId tokenRef scopes' now),
          some (.connected (newConnection uuid userId tokenRef scopes' now) points))
  | selected {c z n : JsText} {row : Connection} (hrow : s.connections.get c = some row)
      (hzone : JsText.trim z ≠ []) :
      Effect s (.zone c z n)
        (s.saveConnection { row with
            zoneId := some (JsText.trim z), zoneName := orNull (some (JsText.trim n)) },
          some (.selected (toPublicConnection { row with
            zoneId := some (JsText.trim z), zoneName := orNull (some (JsText.trim n)) })))
  | started {c d : JsText} {token : Token} {row : Connection} {domain : JsText}
      (hrow : s.connections.get c = some row) (hdomain : domain ≠ []) :
      Effect s (.verifyDomain c d token)
        ({ s with
            checks := s.checks ++ [⟨c, row, domain, row.txtValue.getD token, txtNameOf domain⟩] },
          none)
  | checked {k : ℕ} {txt : Option (List (List JsText))} {ns : Option (List JsText)} {uuid : Token}
      {now : ℤ} {p : PendingCheck} (hp : s.checks[k]? = some p) :
      Effect s (.resolved k txt ns uuid now)
        (({ s with checks := s.checks.eraseIdx k }.check rt config p
          (p.verification rt config txt ns now) uuid now).map id some)
  | acting {c d t : JsText} {deployWorker : Bool} {p : PendingActions} :
      Effect s (.actions c d t deployWorker) ({ s with actions := s.actions ++ [p] }, none)
  | failed {k : ℕ} {uuid uuid' : Token} {now : ℤ} {e : ServerError} :
      Effect s (.upserted k false uuid uuid' now)
        ({ s with actions := s.actions.eraseIdx k }, some (.error e))
  | applied {k : ℕ} {uuid uuid' : Token} {now : ℤ} {p : PendingActions}
      (hp : s.actions[k]? = some p) :
      Effect s (.upserted k true uuid uuid' now)
        (({ s with actions := s.actions.eraseIdx k }.apply rt config p uuid uuid' now).map id some)
  | installed {c u d n : JsText} {uuid : Token} {now : ℤ} {a : Installed} :
      Effect s (.install c u d n uuid now)
        ((s.addPoints rt (installAward config (s.installUser c u) (s.installDomain rt c d)
          (JsText.trim n)) uuid now).1, some (.installed a))
  | restarted : Effect s .restart (s.restart rt config, none)

theorem step_effect (s : Server) (i : Input) : Effect rt config s i (s.step rt config i) := by
  cases i with
  | connect u t t' scopes uuid now =>
    have hstep : s.step rt config (.connect u t t' scopes uuid now) =
      (s.connect rt config u t t' scopes uuid now).map id some := rfl
    rw [hstep]
    unfold Server.connect
    dsimp only
    split
    · exact .idle
    · next huser =>
      split
      · exact .idle
      · exact .connected huser
  | zone c z n =>
    have hstep : s.step rt config (.zone c z n) = (s.zone c z n).map id some := rfl
    rw [hstep]
    unfold Server.zone
    cases hrow : s.connections.get c with
    | none => exact .idle
    | some row =>
      dsimp only
      split
      · exact .idle
      · next hzone => exact .selected hrow hzone
  | verifyDomain c d token =>
    have hstep : s.step rt config (.verifyDomain c d token) = s.verifyDomain rt c d token := rfl
    rw [hstep]
    unfold Server.verifyDomain
    cases hrow : s.connections.get c with
    | none => exact .idle
    | some row =>
      dsimp only
      split
      · exact .idle
      · next hdomain => exact .started hrow hdomain
  | resolved k txt ns uuid now =>
    have hstep : s.step rt config (.resolved k txt ns uuid now) =
      s.resolved rt config k txt ns uuid now := rfl
    rw [hstep]
    unfold Server.resolved
    cases hp : s.checks[k]? with
    | none => exact .late
    | some p => exact .checked hp
  | actions c d t deployWorker =>
    have hstep : s.step rt config (.actions c d t deployWorker) =
      s.applyActions rt c d t deployWorker := rfl
    rw [hstep]
    unfold Server.applyActions
    cases s.connections.get c with
    | none => exact .idle
    | some row =>
      dsimp only
      split
      · exact .idle
      · split
        · exact .idle
        · split
          · exact .idle
          · exact .acting
  | upserted k ok uuid uuid' now =>
    have hstep : s.step rt config (.upserted k ok uuid uuid' now) =
      s.upserted rt config k ok uuid uuid' now := rfl
    rw [hstep]
    unfold Server.upserted
    cases hp : s.actions[k]? with
    | none => exact .late
    | some p =>
      cases ok with
      | false => exact .failed
      | true => exact .applied hp
  | install c u d n uuid now =>
    have hstep : s.step rt config (.install c u d n uuid now) =
      (s.install rt config c u d n uuid now).map id some := rfl
    rw [hstep]
    unfold Server.install
    dsimp only
    split
    · exact .idle
    · split
      · exact .idle
      · exact .installed
  | status c => exact .status
  | restart => exact .restarted

end Steps

/-! ## What a step awards -/

/-- The awards of a step. -/
def Server.awards (rt : Runtime) (config : Config) (s : Server) : Input → List Award
  | .resolved k txt ns _ now =>
    match s.checks[k]? with
    | none => []
    | some p =>
      if (p.verification rt config txt ns now).status = .verified then [p.award config] else []
  | .upserted k ok _ _ _ =>
    match s.actions[k]? with
    | none => []
    | some p =>
      if ok then p.award config :: if p.deployWorker then [p.workerAward config] else [] else []
  | .install c u d n _ _ =>
    [installAward config (s.installUser c u) (s.installDomain rt c d) (JsText.trim n)]
  | _ => []

section Books

variable {rt : Runtime} {config : Config} {s : Server}

@[simp] theorem points_saveConnection (row : Connection) :
    (s.saveConnection row).points = s.points := rfl

@[simp] theorem pointsFile_saveConnection (row : Connection) :
    (s.saveConnection row).pointsFile = pointsSnapshot s.points := rfl

/-- An award keeps the keys that are set. -/
theorem unused_of_addPoints {a : Award} {uuid : Token} {now : ℤ} {key : JsText}
    (h : (s.addPoints rt a uuid now).1.points.idempotency.get key = none) :
    s.points.idempotency.get key = none := by
  unfold Server.addPoints at h
  dsimp only at h
  rcases addPoints_cases rt s.points a uuid now with hrefused | ⟨evt, -, hrecorded⟩
  · rw [hrefused.store] at h
    exact h
  · rw [hrecorded.store] at h
    unfold PointsStore.record at h
    dsimp only at h
    split at h
    · exact h
    · rw [FinMap.get_set] at h
      split at h
      · cases h
      · exact h

/-- **The rule for the books**: what saving, each award of the step and reading back keep is kept by
the step. An award finds the keys of the state before the step, and an install finds that state. -/
theorem books_step (rt : Runtime) (config : Config) (s : Server) (i : Input)
    (P : PointsStore → PointsFile → Prop)
    (hsave : ∀ p f, P p f → P p (pointsSnapshot p))
    (haward : ∀ a ∈ s.awards rt config i, ∀ p f evt r, evt.eventId ≠ [] → Recorded rt p a evt r →
      (∀ key, p.idempotency.get key = none → s.points.idempotency.get key = none) →
      (a.reason = .webHostInstall → p = s.points) → P p f →
        P (p.record evt a.idempotencyKey) (pointsSnapshot (p.record evt a.idempotencyKey)))
    (hload : ∀ p f, P p f → P (loadPoints rt f) f) (h : P s.points s.pointsFile) :
    P (s.step rt config i).1.points (s.step rt config i).1.pointsFile := by
  have hadd (s' : Server) (a : Award) (uuid : Token) (now : ℤ) (ha : a ∈ s.awards rt config i)
      (hused : ∀ key, s'.points.idempotency.get key = none → s.points.idempotency.get key = none)
      (hinstall : a.reason = .webHostInstall → s'.points = s.points)
      (h : P s'.points s'.pointsFile) :
      P (s'.addPoints rt a uuid now).1.points (s'.addPoints rt a uuid now).1.pointsFile := by
    unfold Server.addPoints
    dsimp only
    rcases addPoints_cases rt s'.points a uuid now with hrefused | ⟨evt, hid, hrecorded⟩
    · rw [hrefused.awarded, hrefused.store]
      exact h
    · rw [hrecorded.awarded, hrecorded.store, if_pos rfl]
      exact haward a ha s'.points s'.pointsFile evt _ (hid ▸ uuid.2) hrecorded hused hinstall h
  have heffect := step_effect rt config s i
  revert heffect
  generalize s.step rt config i = r
  intro heffect
  cases heffect with
  | idle | late | status | started | acting | failed => exact h
  | connected | selected => exact hsave _ _ h
  | @checked k txt ns uuid now p hp =>
    show P (Server.check rt config _ p _ uuid now).1.points
      (Server.check rt config _ p _ uuid now).1.pointsFile
    unfold Server.check
    dsimp only
    split
    · next hverified =>
      refine hadd _ _ uuid now ?_ (fun _ => id) (fun _ => rfl) (hsave _ _ h)
      simp [Server.awards, hp, hverified]
    · exact hsave _ _ h
  | @applied k uuid uuid' now p hp =>
    show P (Server.apply rt config _ p uuid uuid' now).1.points
      (Server.apply rt config _ p uuid uuid' now).1.pointsFile
    unfold Server.apply
    dsimp only
    have hactions := hadd { s with actions := s.actions.eraseIdx k } (p.award config) uuid now
      (by simp [Server.awards, hp]) (fun _ => id) (fun _ => rfl) h
    split
    · next hworker =>
      refine hadd _ _ uuid' now ?_ (fun _ => unused_of_addPoints) nofun hactions
      simp [Server.awards, hp, hworker]
    · exact hactions
  | installed => exact hadd s _ _ _ (by simp [Server.awards]) (fun _ => id) (fun _ => rfl) h
  | restarted => exact hload _ _ h

/-! ## Keys and files -/

/-- The key of an award; an install may add its id. -/
structure Glued (a : Award) : Prop where
  colon : ':' ∈ a.idempotencyKey
  eq_awardKey : a.reason ≠ .webHostInstall → a.idempotencyKey = awardKey a.reason a.userId a.domain

theorem colon_mem_awardKey (reason : Reason) (u d : JsText) : ':' ∈ awardKey reason u d :=
  List.mem_append_right _ List.mem_cons_self

theorem glued_awards {i : Input} {a : Award} (h : a ∈ s.awards rt config i) : Glued a := by
  unfold Server.awards at h
  cases i with
  | resolved k txt ns uuid now =>
    dsimp only at h
    split at h
    · cases h
    · split at h
      · obtain rfl := List.mem_singleton.1 h
        exact ⟨colon_mem_awardKey _ _ _, fun _ => rfl⟩
      · cases h
  | upserted k ok uuid uuid' now =>
    dsimp only at h
    split at h
    · cases h
    · split at h
      · rcases List.mem_cons.1 h with rfl | h
        · exact ⟨colon_mem_awardKey _ _ _, fun _ => rfl⟩
        · split at h
          · obtain rfl := List.mem_singleton.1 h
            exact ⟨colon_mem_awardKey _ _ _, fun _ => rfl⟩
          · cases h
      · cases h
  | install c u d n uuid now =>
    obtain rfl := List.mem_singleton.1 h
    refine ⟨?_, fun hne => absurd rfl hne⟩
    show ':' ∈ installKey _ _ _
    unfold installKey
    split
    · exact colon_mem_awardKey _ _ _
    · exact List.mem_append_left _ (colon_mem_awardKey _ _ _)
  | _ => cases h

theorem Glued.ne_protoKey {a : Award} (h : Glued a) : a.idempotencyKey ≠ protoKey := by
  intro hkey
  have hcolon := h.colon
  rw [hkey] at hcolon
  revert hcolon
  decide

theorem Glued.ne_nil {a : Award} (h : Glued a) : a.idempotencyKey ≠ [] := List.ne_nil_of_mem h.colon

/-- The file holds the events and the keys of the store. -/
structure Saved (rt : Runtime) (p : PointsStore) (file : PointsFile) : Prop where
  keyed : Keyed p
  events : (loadPoints rt file).events = p.events
  idempotency : ∀ key, (loadPoints rt file).idempotency.get key = p.idempotency.get key

theorem Saved.snapshot {p : PointsStore} (h : Keyed p) : Saved rt p (pointsSnapshot p) :=
  ⟨h, events_load h, idempotency_load h⟩

theorem Saved.load {p : PointsStore} {file : PointsFile} (h : Saved rt p file) :
    Saved rt (loadPoints rt file) file := by
  refine ⟨⟨?_, ?_⟩, rfl, fun _ => rfl⟩
  · rw [h.events]
    exact h.keyed.events
  · intro key id hget
    rw [h.idempotency] at hget
    exact h.keyed.keys key id hget

theorem Recorded.keyed {p : PointsStore} {a : Award} {evt : PointsEvent} {r : PointsStore × Grant}
    (h : Recorded rt p a evt r) (ha : Glued a) (hid : evt.eventId ≠ []) (hp : Keyed p) :
    Keyed (p.record evt a.idempotencyKey) :=
  hp.record hid (h.userId ▸ h.userId_ne) ha.ne_protoKey

/-- The events of a reason have their keys. -/
def Held (reason : Reason) (p : PointsStore) : Prop :=
  ∀ evt ∈ p.events, evt.reason = reason →
    p.idempotency.get (awardKey reason evt.userId evt.domain) ≠ none

section Recorded

variable {p : PointsStore} {a : Award} {evt : PointsEvent} {r : PointsStore × Grant}

/-- A recorded award sets its key, and keeps the keys that are set. -/
theorem idempotency_record (hne : a.idempotencyKey ≠ []) {key : JsText}
    (h : key = a.idempotencyKey ∨ p.idempotency.get key ≠ none) :
    (p.record evt a.idempotencyKey).idempotency.get key ≠ none := by
  unfold PointsStore.record
  dsimp only
  rw [if_neg hne, FinMap.get_set]
  split
  · exact Option.some_ne_none _
  · next hkey => exact h.resolve_left hkey

theorem Recorded.held (h : Recorded rt p a evt r) (ha : Glued a) {reason : Reason}
    (hreason : reason ≠ .webHostInstall)
    (hstable : a.reason = reason → normalizeDomain rt a.domain = a.domain) (hp : Held reason p) :
    Held reason (p.record evt a.idempotencyKey) := by
  intro e he hr
  refine idempotency_record ha.ne_nil ?_
  rcases List.mem_append.1 he with he | he
  · exact .inr (hp e he hr)
  · left
    obtain rfl := List.mem_singleton.1 he
    have har : a.reason = reason := h.reason.symm.trans hr
    rw [ha.eq_awardKey (har ▸ hreason), har, h.userId, h.domain, hstable har]

/-- An award that is recorded has no event yet. -/
theorem Recorded.unrecorded (h : Recorded rt p a evt r) (ha : Glued a)
    (hreason : a.reason ≠ .webHostInstall) (hstable : normalizeDomain rt a.domain = a.domain)
    (hp : Held a.reason p) :
    ∀ e ∈ p.events, ¬(e.reason = a.reason ∧ e.userId = a.userId ∧ e.domain = evt.domain) := by
  rintro e he ⟨hr, hu, hd⟩
  have hheld := hp e he hr
  rw [hu, hd, h.domain, hstable, ← ha.eq_awardKey hreason] at hheld
  exact hheld (h.unused ha.ne_nil)

end Recorded

theorem Held.load {p : PointsStore} {file : PointsFile} {reason : Reason} (h : Held reason p)
    (hsaved : Saved rt p file) : Held reason (loadPoints rt file) := by
  intro evt hevt hreason
  rw [hsaved.events] at hevt
  rw [hsaved.idempotency]
  exact h evt hevt hreason

theorem saved_start : Saved rt Server.start.points Server.start.pointsFile :=
  Saved.snapshot ⟨nofun, nofun⟩

theorem saved_step (s : Server) (i : Input) (h : Saved rt s.points s.pointsFile) :
    Saved rt (s.step rt config i).1.points (s.step rt config i).1.pointsFile :=
  books_step rt config s i (Saved rt) (fun _ _ h => .snapshot h.keyed)
    (fun _ ha _ _ _ _ hid hrecorded _ _ h =>
      .snapshot (hrecorded.keyed (glued_awards ha) hid h.keyed))
    (fun _ _ h => h.load) h

end Books

end Ddns.Hosting
