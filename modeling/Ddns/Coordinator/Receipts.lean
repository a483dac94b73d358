import Ddns.Coordinator.Credits
import Ddns.Lib.Run

/-!
# Receipts of the coordinator

A node signs a receipt and submits it in an envelope; `applyReceipt` checks the envelope and
credits the node. What the node signs is `receiptMessage`, which sorts the properties of each
object; the id under which an accepted receipt is recorded hashes `JSON.stringify` of the receipt,
which does not.

A step is one call, run to its end. The clock is read twice in a submission: for the rate window
and for the expiry of a challenge.
-/

namespace Ddns.Coordinator

/-- What the code takes from its platform. Bytes that `verifyAsync` refuses to read throw. -/
structure Runtime where
  sha256Hex : List UInt8 → JsText
  base64ToBytes : JsText → List UInt8
  verifyAsync : (sig payload pub : List UInt8) → Option Bool
  localeCompare : JsText → JsText → Ordering

inductive ReceiptType where
  | serve
  | verify
  | store
  deriving DecidableEq

/-- The codes with which a receipt is refused. -/
inductive ReceiptError where
  | invalidSignature
  | missingFields
  | unknownType
  | nodeIdMismatch
  | passportRequired
  | rateLimited
  | authoritySigRequired
  | authoritySigInvalid
  | challengeInvalid
  deriving DecidableEq

inductive ReceiptResult where
  | ok
  | error (code : ReceiptError)
  /-- The call throws. -/
  | thrown
  deriving DecidableEq

structure ReceiptConfig where
  serveCredits : ℚ
  verifyCredits : ℚ
  storeCredits : ℚ
  resolverPubkeyHex : Option JsText
  allowUnverifiedServe : Bool
  maxPerMinute : JsNum

/-! ## The properties of a receipt -/

def typeKey : JsText := ['t', 'y', 'p', 'e']
def nodeIdKey : JsText := ['n', 'o', 'd', 'e', '_', 'i', 'd']
def tsKey : JsText := ['t', 's']
def resultHashKey : JsText := ['r', 'e', 's', 'u', 'l', 't', '_', 'h', 'a', 's', 'h']
def detailsKey : JsText := ['d', 'e', 't', 'a', 'i', 'l', 's']
def authoritySigKey : JsText := ['a', 'u', 't', 'h', 'o', 'r', 'i', 't', 'y', 'S', 'i', 'g']
def challengeIdKey : JsText := ['c', 'h', 'a', 'l', 'l', 'e', 'n', 'g', 'e', 'I', 'd']
def chunkHashKey : JsText := ['c', 'h', 'u', 'n', 'k', 'H', 'a', 's', 'h']

def ReceiptType.text : ReceiptType → JsText
  | .serve => ['S', 'E', 'R', 'V', 'E']
  | .verify => ['V', 'E', 'R', 'I', 'F', 'Y']
  | .store => ['S', 'T', 'O', 'R', 'E']

def receiptType (type : Json) : Option ReceiptType :=
  [.serve, .verify, .store].find? fun t => type.isText t.text

/-- A property, unless it counts as false. -/
def truthyField (key : JsText) (value : Json) : Option Json := (value.field key).filter Json.truthy

/-- `receipt.details?.[key]`. -/
def detail (key : JsText) (receipt : Json) : Option Json :=
  (receipt.field detailsKey).bind (·.field key)

/-! ## Signatures -/

def stableStringify (rt : Runtime) (value : Json) : JsText :=
  value.print (Json.sortByKey rt.localeCompare)

def receiptMessage (rt : Runtime) (receipt : Json) : JsText :=
  ['r', 'e', 'c', 'e', 'i', 'p', 't', '\n'] ++ stableStringify rt receipt

/-- Where `localeCompare` is a linear order, the order of the properties does not matter. -/
theorem receiptMessage_perm {rt : Runtime} [Std.TransCmp rt.localeCompare]
    [Std.LawfulEqCmp rt.localeCompare] {fields fields' : List (JsText × Json)}
    (hp : fields.Perm fields') (hn : (fields.map Prod.fst).Nodup) :
    receiptMessage rt (.obj fields) = receiptMessage rt (.obj fields') := by
  rw [receiptMessage, stableStringify, Json.print_perm hp hn]
  rfl

/-- It throws for a key or a signature of a wrong length. -/
def ed25519Verify (rt : Runtime) (pub payload sig : List UInt8) : Option Bool :=
  if pub.length ≠ 32 then none
  else if sig.length ≠ 64 then none
  else rt.verifyAsync sig payload pub

def verifyReceiptSignature (rt : Runtime) (pubKeyB64 : JsText) (receipt : Json)
    (signatureB64 : JsText) : Option Bool :=
  ed25519Verify rt (rt.base64ToBytes pubKeyB64) (receiptMessage rt receipt).utf8
    (rt.base64ToBytes signatureB64)

def hexValue (c : Char) : Option Nat :=
  let n := c.toNat
  if 48 ≤ n ∧ n ≤ 57 then some (n - 48)
  else if 65 ≤ n ∧ n ≤ 70 then some (n - 55)
  else if 97 ≤ n ∧ n ≤ 102 then some (n - 87)
  else none

def hexPairs : JsText → Option (List UInt8)
  | [] => some []
  | [_] => none
  | a :: b :: t => do
    let high ← hexValue a
    let low ← hexValue b
    let bytes ← hexPairs t
    return UInt8.ofNat (16 * high + low) :: bytes

/-- It throws for an odd length or another character than a hexadecimal digit. -/
def hexToBytes (hex : JsText) : Option (List UInt8) :=
  hexPairs (if ['0', 'x'].isPrefixOf hex then hex.drop 2 else hex)

/-- It throws for a signature that is not a text. -/
def verifyEd25519Message (rt : Runtime) (pubKeyHex message : JsText) (signatureHex : Json) :
    Option Bool := do
  let pub ← hexToBytes pubKeyHex
  let sig ← match signatureHex with
    | .str s => hexToBytes s
    | _ => none
  ed25519Verify rt pub message.utf8 sig

/-! ## Validation -/

/-- An envelope whose shape is valid. -/
structure Shaped where
  receipt : Json
  type : ReceiptType
  nodeId : JsText
  signature : JsText

def validateReceiptShape (envelope : ReceiptEnvelope) : Except ReceiptError Shaped := do
  let some receipt := envelope.receipt.filter Json.truthy | .error .missingFields
  let some signature := envelope.signature.filter (· ≠ []) | .error .missingFields
  let some publicKey := envelope.publicKey.filter (· ≠ []) | .error .missingFields
  let some type := truthyField typeKey receipt | .error .missingFields
  let some nodeId := truthyField nodeIdKey receipt | .error .missingFields
  let some _ := truthyField tsKey receipt | .error .missingFields
  if !nodeId.isText publicKey then .error .nodeIdMismatch
  let some type := receiptType type | .error .unknownType
  return ⟨receipt, type, publicKey, signature⟩

/-- It reads the receipt only. -/
def receiptIdFromEnvelope (rt : Runtime) (receipt : Json) : JsText :=
  rt.sha256Hex receipt.stringify.utf8

def validateAndApplyReceipt (rt : Runtime) (config : ReceiptConfig) (state : CreditsState)
    (envelope : ReceiptEnvelope) (now : ℚ) : CreditsState × Except ReceiptError Shaped :=
  match validateReceiptShape envelope with
  | .error code => (state, .error code)
  | .ok shaped =>
    if ¬(shaped.nodeId ∈ state.passports ∨ shaped.nodeId ∈ state.nodePubkeys) then
      (state, .error .passportRequired)
    else if (state.receipts.get (receiptIdFromEnvelope rt shaped.receipt)).isSome then
      (state, .ok shaped)
    else
      let (rate, within) := limitRate state.rate shaped.nodeId config.maxPerMinute now
      ({ state with rate }, if within then .ok shaped else .error .rateLimited)

/-! ## The checks of each type -/

/-- `resolve` and the hash on two lines; the hash is converted to a text. -/
def resolveMessage (resultHash : Json) : Option JsText :=
  resultHash.toText.map (['r', 'e', 's', 'o', 'l', 'v', 'e', '\n'] ++ ·)

def checkServe (rt : Runtime) (config : ReceiptConfig) (receipt : Json) : ReceiptResult :=
  match config.resolverPubkeyHex.filter (· ≠ []) with
  | none => if config.allowUnverifiedServe then .ok else .error .authoritySigRequired
  | some resolver =>
    match (detail authoritySigKey receipt).filter Json.truthy, truthyField resultHashKey receipt with
    | some sig, some hash =>
      match (resolveMessage hash).bind fun msg => verifyEd25519Message rt resolver msg sig with
      | none => .thrown
      | some false => .error .authoritySigInvalid
      | some true => .ok
    | _, _ => if config.allowUnverifiedServe then .ok else .error .authoritySigRequired

/-- The open challenge that a receipt names. -/
def challengeOf (state : CreditsState) (receipt : Json) : Option Challenge :=
  match (detail challengeIdKey receipt).filter Json.truthy with
  | some (.str id) => state.challenges.get id
  | _ => none

def checkVerify (state : CreditsState) (receipt : Json) (nodeId : JsText) (now : ℚ) :
    ReceiptResult :=
  match challengeOf state receipt with
  | none => .error .challengeInvalid
  | some challenge =>
    if challenge.wallet ≠ nodeId then .error .challengeInvalid
    else if challenge.expiresAt.lt (.fin now) then .error .challengeInvalid
    else if ((detail chunkHashKey receipt).map (·.isText challenge.chunkHash)).getD false then .ok
    else .error .challengeInvalid

def checkType (rt : Runtime) (config : ReceiptConfig) (state : CreditsState) (shaped : Shaped)
    (now : ℚ) : ReceiptResult :=
  match shaped.type with
  | .serve => checkServe rt config shaped.receipt
  | .verify => checkVerify state shaped.receipt shaped.nodeId now
  | .store => .ok

/-- The credits that a receipt of a type adds. -/
def ReceiptConfig.creditsOf (config : ReceiptConfig) : ReceiptType → ℚ
  | .serve => config.serveCredits
  | .verify => config.verifyCredits
  | .store => config.storeCredits

/-! ## The routes -/

def applyReceipt (rt : Runtime) (config : ReceiptConfig) (state : CreditsState)
    (envelope : ReceiptEnvelope) (now now' : ℚ) : CreditsState × ReceiptResult :=
  match validateAndApplyReceipt rt config state envelope now with
  | (state, .error code) => (state, .error code)
  | (state, .ok shaped) =>
    match verifyReceiptSignature rt shaped.nodeId shaped.receipt shaped.signature with
    | none => (state, .thrown)
    | some false => (state, .error .invalidSignature)
    | some true =>
      match checkType rt config state shaped now' with
      | .ok =>
        let state := credit state shaped.nodeId (config.creditsOf shaped.type)
        let id := receiptIdFromEnvelope rt shaped.receipt
        ({ state with receipts := state.receipts.set id envelope }, .ok)
      | refused => (state, refused)

/-- The challenge is stored with the expiry of the first read of the clock. -/
def createChallenge (state : CreditsState) (id wallet chunkHash : JsText) (ttlMs : JsNum)
    (now : ℚ) : CreditsState :=
  { state with
    challenges := state.challenges.set id ⟨wallet, chunkHash, (JsNum.fin now).add ttlMs⟩ }

inductive Call where
  | receipt (envelope : ReceiptEnvelope) (now now' : ℚ)
  | challenge (id wallet chunkHash : JsText) (ttlMs : JsNum) (now now' : ℚ)

inductive Answer where
  | receipt (result : ReceiptResult)
  | challenge (id wallet chunkHash : JsText) (expiresAt : JsNum)

def step (rt : Runtime) (config : ReceiptConfig) (state : CreditsState) :
    Call → CreditsState × Answer
  | .receipt envelope now now' =>
    let (state, result) := applyReceipt rt config state envelope now now'
    (state, .receipt result)
  | .challenge id wallet chunkHash ttlMs now now' =>
    (createChallenge state id wallet chunkHash ttlMs now,
      .challenge id wallet chunkHash ((JsNum.fin now').add ttlMs))

end Ddns.Coordinator
