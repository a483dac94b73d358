import Ddns.Coordinator.Comments
import Ddns.Coordinator.Receipts

/-!
# The server of the coordinator

`Server` is what the process keeps in memory together with what it last wrote to its directory.
A handler is a function of the server, the body of the request and the reads of the clock; `today`
is the date of a read, as a text.

`POST /receipts` awaits the verification of signatures. Its call is cut at the awaits: a `Flight`
is a call that waits, with what it read before. The other handlers read the body first and then run
to their end.
-/

namespace Ddns.Coordinator

open Comments (CommentState CommentConfig CommentError CommentHold HoldPayload HoldTimes
  SubmitPayload FinalizePayload Finalized createHold submitHold finalizeHold amountOf textOf)

/-- What the server takes from its platform besides. Bytes of a wrong length throw;
`verifyMessage` recovers the address that signed a message. -/
structure ServerRuntime extends Runtime where
  bs58Decode : JsText → Option (List UInt8)
  toLowerCase : JsText → JsText
  toASCII : JsText → JsText
  naclVerify : (message sig pub : List UInt8) → Option Bool
  verifyMessage : (message signature : JsText) → Option JsText

structure Session where
  nodeId : JsText
  expiresAt : JsNum

structure AuthChallenge where
  challenge : JsText
  expiresAt : JsNum

structure PassportEntry where
  ok : Bool
  expiresAt : ℚ

/-- What was counted on a day. -/
structure Window where
  date : JsText
  credited : JsNum
  deriving DecidableEq

structure NodeVerification where
  siteId : JsText
  expiresAt : ℚ

/-- An entry of the public log of a site. -/
inductive SiteReceipt where
  | commentFinalized (ts : ℚ) (ticketId : JsText) (result : Option JsText) (amount : ℚ)
      (wallet : JsText)
  | nodeReceipt (ts : ℚ) (payload : Json)

/-- The files of the directory. -/
structure Disk where
  ledger : FinMap JsText ℚ
  passports : List JsText
  receipts : List ReceiptEnvelope
  windows : List (JsText × Window)
  holds : List CommentHold
  pools : FinMap JsText ℚ
  treasury : ℚ
  siteReceipts : FinMap JsText (List SiteReceipt)

structure Server where
  credits : CreditsState
  nodeRegistryLoadedAt : ℚ
  sessions : FinMap JsText Session
  authChallenges : FinMap JsText AuthChallenge
  passportCache : FinMap JsText PassportEntry
  creditWindows : FinMap JsText Window
  comments : CommentState
  sitePools : FinMap JsText ℚ
  poolWindows : FinMap JsText Window
  bonusWindows : FinMap JsText Window
  nodeVerifications : FinMap JsText NodeVerification
  treasuryBalance : ℚ
  siteReceipts : FinMap JsText (List SiteReceipt)
  disk : Disk

structure ServerConfig where
  receipts : ReceiptConfig
  comments : CommentConfig
  adminToken : JsText
  sessionTtlMs : JsNum
  authChain : JsText
  passportAllowlist : List JsText
  passportEnabled : Bool
  dailyCreditCap : JsNum
  commentsBonusMax : JsNum
  bonusDailyCap : JsNum
  poolDailyCap : JsNum
  poolForfeitSplit : JsNum
  commentsSiteToken : JsText

inductive ServerError where
  | missingFields
  | invalidWalletFormat
  | authChainMismatch
  | challengeExpired
  | invalidSignature
  | missingEvmBinding
  | invalidEvmAddress
  | invalidEvmSignature
  | passportRequired
  | notAuthenticated
  | invalidAmount
  | insufficientCredits
  | missingNodeId
  | receipt (code : ReceiptError)
  | creditCapExceeded
  | unauthorized
  | comment (error : CommentError)
  | bonusCapExceeded
  | missingNodeIdentity
  | verificationRequired
  | nodePubkeyMismatch
  | poolCapExceeded
  deriving DecidableEq

inductive ServerAnswer where
  | refused (error : ServerError)
  /-- The handler throws. -/
  | thrown
  | balance (wallet : JsText) (balance : ℚ)
  | held (ticketId : JsText) (expiresAt : JsNum)
  | submitted
  | finalized (result : Finalized)
  | pool (balance : ℚ)
  | issued
  | session (token : JsText)

/-- The credits of a wallet. -/
def Server.balance (s : Server) (wallet : JsText) : ℚ := getBalance s.credits wallet

/-- The credits of the pool of a site. -/
def Server.pool (s : Server) (siteId : JsText) : ℚ := (s.sitePools.get siteId).getD 0

/-! ## Saving -/

/-- The key that an assignment takes for the prototype of the object. -/
def protoKey : JsText := ['_', '_', 'p', 'r', 'o', 't', 'o', '_', '_']

/-- The object whose properties are the entries of a map, one assignment for each. Nothing reads
the order of the properties, so it stays. -/
def asRecord {ν : Type*} (m : FinMap JsText ν) : FinMap JsText ν := m.erase protoKey

/-- A number that is not finite is written as `null`, which compares as zero. -/
def writtenNum : JsNum → JsNum
  | .fin q => .fin q
  | _ => .fin 0

def writtenHold (hold : CommentHold) : CommentHold :=
  { hold with expiresAt := writtenNum hold.expiresAt }

def saveState (s : Server) : Server :=
  { s with
    disk :=
      { ledger := asRecord s.credits.credits
        passports := s.credits.passports
        receipts := s.credits.receipts.entries.map Prod.snd
        windows := s.creditWindows.entries.map fun e =>
          (e.1, { e.2 with credited := writtenNum e.2.credited })
        holds := s.comments.holds.entries.map fun e => writtenHold e.2
        pools := asRecord s.sitePools
        treasury := s.treasuryBalance
        siteReceipts := asRecord s.siteReceipts } }

/-! ## Windows -/

/-- A window of another date is emptied, also when the amount is refused; a window that was not
there is stored only when the amount is counted. -/
def applyCap (windows : FinMap JsText Window) (key : JsText) (delta cap : JsNum)
    (today : JsText) : FinMap JsText Window × Bool :=
  let entry := (windows.get key).getD ⟨today, .fin 0⟩
  let entry := if entry.date ≠ today then ⟨today, .fin 0⟩ else entry
  if cap.lt (entry.credited.add delta) then
    (if (windows.get key).isSome then windows.set key entry else windows, false)
  else (windows.set key { entry with credited := entry.credited.add delta }, true)

def applyDailyCap (config : ServerConfig) (s : Server) (wallet : JsText) (delta : JsNum)
    (today : JsText) : Server × Bool :=
  let (creditWindows, within) := applyCap s.creditWindows wallet delta config.dailyCreditCap today
  ({ s with creditWindows }, within)

def applyPoolCap (config : ServerConfig) (s : Server) (siteId : JsText) (delta : JsNum)
    (today : JsText) : Server × Bool :=
  let (poolWindows, within) := applyCap s.poolWindows siteId delta config.poolDailyCap today
  ({ s with poolWindows }, within)

def applyBonusCap (config : ServerConfig) (s : Server) (wallet : JsText) (delta : JsNum)
    (today : JsText) : Server × Bool :=
  let (bonusWindows, within) := applyCap s.bonusWindows wallet delta config.bonusDailyCap today
  ({ s with bonusWindows }, within)

/-! ## Wallets and the registry -/

def isHexDigit (c : Char) : Bool := (hexValue c).isSome

def isEvmAddress (value : JsText) : Bool :=
  value.take 2 = ['0', 'x'] && value.length = 42 && (value.drop 2).all isHexDigit

def isSolPubkey (rt : ServerRuntime) (value : JsText) : Bool :=
  (rt.bs58Decode value).any fun decoded => decoded.length = 32

def walletAllowedForChain (rt : ServerRuntime) (config : ServerConfig) (wallet : JsText) : Bool :=
  if config.authChain = ['a', 'u', 't', 'o'] then isEvmAddress wallet || isSolPubkey rt wallet
  else if config.authChain = ['e', 'v', 'm'] then isEvmAddress wallet
  else if config.authChain = ['s', 'o', 'l', 'a', 'n', 'a'] then isSolPubkey rt wallet
  else false

structure RegistryValue where
  type : JsText
  value : JsText

structure RegistryRecord where
  name : JsText
  records : List RegistryValue

/-- The records of the snapshot of the registry, unless it cannot be read. -/
abbrev Snapshot := Option (List RegistryRecord)

def normalizeRegistryName (rt : ServerRuntime) (name : JsText) : JsText :=
  let trimmed := name.trim
  let trimmed := if trimmed.getLast? = some '.' then trimmed.dropLast else trimmed
  rt.toASCII (rt.toLowerCase trimmed)

def nodePubkeyType : JsText := ['N', 'O', 'D', 'E', '_', 'P', 'U', 'B', 'K', 'E', 'Y']

def RegistryRecord.nodePubkey (entry : RegistryRecord) : Option JsText :=
  ((entry.records.find? fun r => r.type.map Char.toUpper = nodePubkeyType).map
    RegistryValue.value).filter (· ≠ [])

def ed25519Prefix : JsText := ['e', 'd', '2', '5', '5', '1', '9', ':']

/-- A key without the name of its scheme. -/
def cleanedKey (value : JsText) : JsText :=
  if ed25519Prefix.isPrefixOf value then value.drop ed25519Prefix.length else value

def normalizeNodePubkey (rt : ServerRuntime) (value : JsText) : Option JsText :=
  if (rt.base64ToBytes (cleanedKey value)).length = 32 then some (cleanedKey value) else none

def getRegistryNodePubkey (rt : ServerRuntime) (records : List RegistryRecord)
    (nodeName : JsText) : Option JsText :=
  let normalized := normalizeRegistryName rt nodeName
  (records.find? fun r => normalizeRegistryName rt r.name = normalized).bind
    RegistryRecord.nodePubkey

def matchesRegistryPubkey (rt : ServerRuntime) (receiptPubkey registryPubkey : JsText) : Bool :=
  match normalizeNodePubkey rt receiptPubkey, normalizeNodePubkey rt registryPubkey with
  | some a, some b => a ≠ [] && b ≠ [] && a = b
  | _, _ => false

/-- The keys of the nodes that the registry knows. -/
def registryPubkeys (rt : ServerRuntime) (snapshot : Snapshot) : List JsText :=
  (snapshot.getD []).filterMap fun entry =>
    (entry.nodePubkey.bind (normalizeNodePubkey rt)).filter (· ≠ [])

/-- The snapshot is read again a minute after the last time. -/
def refreshNodePubkeys (rt : ServerRuntime) (s : Server) (snapshot : Snapshot) (now : ℚ) : Server :=
  if now - s.nodeRegistryLoadedAt < 60000 then s
  else
    { s with
      nodeRegistryLoadedAt := now
      credits := { s.credits with nodePubkeys := registryPubkeys rt snapshot } }

/-! ## POST /credits/spend -/

def spendCredits (s : Server) (wallet : JsText) (amount : JsNum) : Server × Bool :=
  match amount with
  | .fin amount =>
    if s.balance wallet < amount then (s, false)
    else
      ({ s with
          credits :=
            { s.credits with credits := s.credits.credits.set wallet (s.balance wallet - amount) } },
        true)
  -- The handler admits no other amount than `posInf`, which is above every balance.
  | _ => (s, false)

def postSpend (s : Server) (token : Option JsText) (amount : Option JsNum) (now : ℚ) :
    Server × ServerAnswer :=
  match (token.filter (· ≠ [])).bind s.sessions.get with
  | none => (s, .refused .notAuthenticated)
  | some session =>
    if session.expiresAt.lt (.fin now) then (s, .refused .notAuthenticated)
    else
      let wallet := session.nodeId
      let amount := amountOf amount
      if !amount.truthy || amount.le (.fin 0) then (s, .refused .invalidAmount)
      else
        match spendCredits s wallet amount with
        | (s, false) => (s, .refused .insufficientCredits)
        | (s, true) => (saveState s, .balance wallet (s.balance wallet))

/-! ## POST /receipts -/

/-- What a call of `POST /receipts` awaits. -/
inductive Phase where
  | signature
  | authority
  /-- The receipt is credited and `applyReceipt` has returned. -/
  | credited
  deriving DecidableEq

/-- A call of `POST /receipts` that waits, with the balance that it read at its start. -/
structure Flight where
  envelope : ReceiptEnvelope
  shaped : Shaped
  before : ℚ
  phase : Phase

/-- A part of a call ends with an answer or at an await. -/
inductive Outcome where
  | answered (answer : ServerAnswer)
  | awaits (flight : Flight)

/-- The times of one part of a call. -/
structure Times where
  now : ℚ
  today : JsText

def creditDelta (config : ServerConfig) (flight : Flight) : ℚ :=
  config.receipts.creditsOf flight.shaped.type

/-- The code goes on to await the signature of the resolver. -/
def awaitsAuthority (config : ReceiptConfig) (shaped : Shaped) : Bool :=
  shaped.type = .serve && (config.resolverPubkeyHex.filter (· ≠ [])).isSome &&
    ((detail authoritySigKey shaped.receipt).filter Json.truthy).isSome &&
    (truthyField resultHashKey shaped.receipt).isSome

/-- The balance under `node_id`; only texts have one. -/
def balanceBefore (s : Server) : Json → ℚ
  | .str wallet => s.balance wallet
  | _ => 0

/-- Up to the first await. -/
def beginReceipt (rt : ServerRuntime) (config : ServerConfig) (s : Server)
    (envelope : ReceiptEnvelope) (snapshot : Snapshot) (now : ℚ) : Server × Outcome :=
  match envelope.receipt.bind (truthyField nodeIdKey) with
  | none => (s, .answered (.refused .missingNodeId))
  | some nodeId =>
    let s := refreshNodePubkeys rt s snapshot now
    let before := balanceBefore s nodeId
    match validateAndApplyReceipt rt.toRuntime config.receipts s.credits envelope now with
    | (credits, .error code) => ({ s with credits }, .answered (.refused (.receipt code)))
    | (credits, .ok shaped) =>
      ({ s with credits }, .awaits ⟨envelope, shaped, before, .signature⟩)

/-- The checks of the type of the receipt, and the credit. -/
def creditReceipt (rt : ServerRuntime) (config : ServerConfig) (s : Server) (flight : Flight)
    (now : ℚ) : Server × Outcome :=
  match checkType rt.toRuntime config.receipts s.credits flight.shaped now with
  | .ok =>
    let credits := credit s.credits flight.shaped.nodeId (creditDelta config flight)
    let id := receiptIdFromEnvelope rt.toRuntime flight.shaped.receipt
    ({ s with credits := { credits with receipts := credits.receipts.set id flight.envelope } },
      .awaits { flight with phase := .credited })
  | .error code => (s, .answered (.refused (.receipt code)))
  | .thrown => (s, .answered .thrown)

/-- Without room under the cap, the balance read at the start is written back. -/
def finishReceipt (rt : ServerRuntime) (config : ServerConfig) (s : Server) (flight : Flight)
    (today : JsText) : Server × ServerAnswer :=
  let nodeId := flight.shaped.nodeId
  match applyDailyCap config s nodeId (.fin (creditDelta config flight)) today with
  | (s, false) =>
    let id := receiptIdFromEnvelope rt.toRuntime flight.shaped.receipt
    ({ s with
        credits :=
          { s.credits with
            credits := s.credits.credits.set nodeId flight.before
            receipts := s.credits.receipts.erase id } },
      .refused .creditCapExceeded)
  | (s, true) => (saveState s, .balance nodeId (s.balance nodeId))

/-- From an await to the next one or to the answer. -/
def resumeReceipt (rt : ServerRuntime) (config : ServerConfig) (s : Server) (flight : Flight)
    (times : Times) : Server × Outcome :=
  match flight.phase with
  | .signature =>
    let shaped := flight.shaped
    match verifyReceiptSignature rt.toRuntime shaped.nodeId shaped.receipt shaped.signature with
    | none => (s, .answered .thrown)
    | some false => (s, .answered (.refused (.receipt .invalidSignature)))
    | some true =>
      if awaitsAuthority config.receipts shaped then
        (s, .awaits { flight with phase := .authority })
      else creditReceipt rt config s flight times.now
  | .authority => creditReceipt rt config s flight times.now
  | .credited =>
    let (s, answer) := finishReceipt rt config s flight times.today
    (s, .answered answer)

/-- The call goes on until it is answered. It waits at most three times. -/
def settleReceipt (rt : ServerRuntime) (config : ServerConfig) (times : Times) :
    ℕ → Server × Outcome → Server × ServerAnswer
  | _, (s, .answered answer) => (s, answer)
  | 0, (s, .awaits _) => (s, .thrown)
  | n + 1, (s, .awaits flight) =>
    settleReceipt rt config times n (resumeReceipt rt config s flight times)

def postReceipts (rt : ServerRuntime) (config : ServerConfig) (s : Server)
    (envelope : ReceiptEnvelope) (snapshot : Snapshot) (now : ℚ) (times : Times) :
    Server × ServerAnswer :=
  settleReceipt rt config times 3 (beginReceipt rt config s envelope snapshot now)

/-! ## Comments -/

def authorized (config : ServerConfig) (token : Option JsText) : Bool :=
  config.commentsSiteToken ≠ [] && token = some config.commentsSiteToken

/-- The server with the credits and the comments that a route leaves. -/
def Server.withComments (s : Server) (st : Comments.State) : Server :=
  { s with credits := st.credits, comments := st.comments }

def postHold (rt : ServerRuntime) (config : ServerConfig) (s : Server) (token : Option JsText)
    (body : HoldPayload) (times : HoldTimes) (random : JsText) : Server × ServerAnswer :=
  if !authorized config token then (s, .refused .unauthorized)
  else if (body.wallet.filter (· ≠ [])).any fun wallet => !walletAllowedForChain rt config wallet
  then (s, .refused .invalidWalletFormat)
  else
    match createHold config.comments ⟨s.credits, s.comments⟩ body times random with
    | (st, .error error) => (s.withComments st, .refused (.comment error))
    | (st, .ok (ticketId, expiresAt)) =>
      (saveState (s.withComments st), .held ticketId expiresAt)

def postSubmit (config : ServerConfig) (s : Server) (token : Option JsText)
    (body : SubmitPayload) (now : ℚ) : Server × ServerAnswer :=
  if !authorized config token then (s, .refused .unauthorized)
  else
    match submitHold ⟨s.credits, s.comments⟩ body now with
    | (st, .error error) => (s.withComments st, .refused (.comment error))
    | (st, .ok _) => (saveState (s.withComments st), .submitted)

structure FinalizeBody extends FinalizePayload where
  siteId : Option JsText
  bonusMultiplier : Option JsNum

def approvedText : JsText := ['a', 'p', 'p', 'r', 'o', 'v', 'e', 'd']
def spamText : JsText := ['s', 'p', 'a', 'm']
def trashText : JsText := ['t', 'r', 'a', 's', 'h']

/-- A site that the body names takes the place of the hold's own. -/
def renameSite (body : FinalizeBody) (hold : CommentHold) : CommentHold :=
  match body.siteId.filter (· ≠ []) with
  | some siteId => { hold with siteId }
  | none => hold

/-- `Math.min(Number(body.bonus_multiplier || 1), commentsBonusMax)`. -/
def bonusMultiplier (config : ServerConfig) (body : FinalizeBody) : JsNum :=
  ((body.bonusMultiplier.filter JsNum.truthy).getD (.fin 1)).min config.commentsBonusMax

def bonusOf (config : ServerConfig) (body : FinalizeBody) (amount : ℚ) : JsNum :=
  let multiplier := bonusMultiplier config body
  if (JsNum.fin 1).lt multiplier then (JsNum.fin amount).mul (multiplier.add (.fin (-1)))
  else .fin 0

/-- A pool that has the bonus pays it; none has an infinite one. -/
def payFromPool (s : Server) (wallet siteId : JsText) (bonus : JsNum) : Server :=
  match bonus with
  | .fin bonus =>
    if bonus ≤ s.pool siteId then
      { s with
        sitePools := s.sitePools.set siteId (s.pool siteId - bonus)
        credits := credit s.credits wallet bonus }
    else s
  | _ => s

/-- The bonus is counted under the cap even if the pool does not have it. -/
def payBonus (config : ServerConfig) (s : Server) (body : FinalizeBody) (result : Finalized)
    (today : JsText) : Server × Bool :=
  let bonus := bonusOf config body result.hold.amount
  if (JsNum.fin 0).lt bonus then
    match applyBonusCap config s result.wallet bonus today with
    | (s, false) => (s, false)
    | (s, true) => (payFromPool s result.wallet result.hold.siteId bonus, true)
  else (s, true)

/-- The part of a forfeited amount that the pool gets. -/
def forfeitSplit (config : ServerConfig) : ℚ :=
  match config.poolForfeitSplit with
  | .fin split => max 0 (min split 1)
  | _ => 1 / 2

def forfeit (config : ServerConfig) (s : Server) (hold : CommentHold) : Server :=
  let poolShare := hold.amount * forfeitSplit config
  let treasuryShare := hold.amount - poolShare
  { s with
    sitePools := s.sitePools.set hold.siteId (s.pool hold.siteId + poolShare)
    treasuryBalance := s.treasuryBalance + treasuryShare }

/-- The newest 200 entries of a site are kept. -/
def logReceipt (s : Server) (siteId : JsText) (entry : SiteReceipt) : Server :=
  let entries := (s.siteReceipts.get siteId).getD []
  { s with siteReceipts := s.siteReceipts.set siteId ((entry :: entries).take 200) }

/-- The times of a call that is logged: the check of an expiry, and the log. -/
structure LoggedTimes extends Times where
  logged : ℚ

/-- The texts of the result are compared here without trimming. -/
def postFinalize (config : ServerConfig) (s : Server) (token : Option JsText)
    (body : FinalizeBody) (times : LoggedTimes) : Server × ServerAnswer :=
  if !authorized config token then (s, .refused .unauthorized)
  else
    match finalizeHold ⟨s.credits, s.comments⟩ body.toFinalizePayload times.now with
    | (st, .error error) => (s.withComments st, .refused (.comment error))
    | (st, .ok result) =>
      let hold := renameSite body result.hold
      let result := { result with hold }
      let holds := st.comments.holds.set (textOf body.ticketId) hold
      let s := s.withComments { st with comments := { st.comments with holds } }
      match if body.result = some approvedText then payBonus config s body result times.today
        else (s, true) with
      | (s, false) => (s, .refused .bonusCapExceeded)
      | (s, true) =>
        let s := if body.result = some spamText ∨ body.result = some trashText
          then forfeit config s hold else s
        let s := logReceipt s hold.siteId
          (.commentFinalized times.logged hold.ticketId body.result hold.amount hold.wallet)
        (saveState s, .finalized result)

/-! ## POST /node/receipts -/

structure NodeReceiptBody where
  receipt : Option Json
  signature : Option JsText
  siteId : Option JsText

def nodeNameKey : JsText := ['n', 'o', 'd', 'e', '_', 'n', 'a', 'm', 'e']
def nodePubkeyKey : JsText := ['n', 'o', 'd', 'e', '_', 'p', 'u', 'b', 'k', 'e', 'y']
def verificationIdKey : JsText :=
  ['v', 'e', 'r', 'i', 'f', 'i', 'c', 'a', 't', 'i', 'o', 'n', '_', 'i', 'd']

/-- What the node signs. -/
def nodeReceiptMessage (rt : ServerRuntime) (receipt : Json) : JsText :=
  ['n', 'o', 'd', 'e', '_', 'r', 'e', 'c', 'e', 'i', 'p', 't', '\n'] ++
    stableStringify rt.toRuntime receipt

def verifyNodeReceiptSignature (rt : ServerRuntime) (receipt : Json)
    (signatureB64 nodePubkey : JsText) : Option Bool :=
  rt.naclVerify (nodeReceiptMessage rt receipt).utf8 (rt.base64ToBytes signatureB64)
    (rt.base64ToBytes (cleanedKey nodePubkey))

/-- A verification of the site that is not over. -/
def verifiedFor (s : Server) (receipt : Json) (siteId : JsText) (now : ℚ) : Bool :=
  let id := match (receipt.field verificationIdKey).filter Json.truthy with
    | some (.str id) => some id
    | some _ => none
    | none => some []
  (id.bind s.nodeVerifications.get).any fun verification =>
    !decide (verification.expiresAt < now) && verification.siteId = siteId

/-- The key under which the registry knows the node of a receipt; `none` is a throw. -/
def registeredPubkey (rt : ServerRuntime) (snapshot : Snapshot) (nodeName : Json) :
    Except (Option ServerError) JsText := do
  let some records := snapshot | .error (some .nodePubkeyMismatch)
  let .str nodeName := nodeName | .error none
  let some registryPubkey := getRegistryNodePubkey rt records nodeName
    | .error (some .nodePubkeyMismatch)
  return registryPubkey

/-- The checks of a node receipt, and the receipt and the site that pass them. The error `none` is a
throw: the name or the key of the node is not a text, or the signature has a wrong length. -/
def checkNodeReceipt (rt : ServerRuntime) (config : ServerConfig) (s : Server)
    (token : Option JsText) (body : NodeReceiptBody) (snapshot : Snapshot) (now : ℚ) :
    Except (Option ServerError) (Json × JsText) := do
  if !authorized config token then .error (some .unauthorized)
  let some receipt := body.receipt.filter Json.truthy | .error (some .missingFields)
  let some signature := body.signature.filter (· ≠ []) | .error (some .missingFields)
  let some siteId := body.siteId.filter (· ≠ []) | .error (some .missingFields)
  let some nodeName := truthyField nodeNameKey receipt | .error (some .missingNodeIdentity)
  let some nodePubkey := truthyField nodePubkeyKey receipt | .error (some .missingNodeIdentity)
  if !verifiedFor s receipt siteId now then .error (some .verificationRequired)
  let registryPubkey ← registeredPubkey rt snapshot nodeName
  let .str nodePubkey := nodePubkey | .error none
  if !matchesRegistryPubkey rt nodePubkey registryPubkey then .error (some .nodePubkeyMismatch)
  match verifyNodeReceiptSignature rt receipt signature nodePubkey with
  | none => .error none
  | some false => .error (some .invalidSignature)
  | some true => return (receipt, siteId)

/-- The answer to a call that a check stops. -/
def stopped : Option ServerError → ServerAnswer
  | none => .thrown
  | some error => .refused error

/-- An accepted receipt adds one credit to the pool of the site. -/
def postNodeReceipts (rt : ServerRuntime) (config : ServerConfig) (s : Server)
    (token : Option JsText) (body : NodeReceiptBody) (snapshot : Snapshot)
    (times : LoggedTimes) : Server × ServerAnswer :=
  match checkNodeReceipt rt config s token body snapshot times.now with
  | .error error => (s, stopped error)
  | .ok (receipt, siteId) =>
    match applyPoolCap config s siteId (.fin 1) times.today with
    | (s, false) => (s, .refused .poolCapExceeded)
    | (s, true) =>
      let s := { s with sitePools := s.sitePools.set siteId (s.pool siteId + 1) }
      let s := logReceipt s siteId (.nodeReceipt times.logged receipt)
      (saveState s, .pool (s.pool siteId))

end Ddns.Coordinator
