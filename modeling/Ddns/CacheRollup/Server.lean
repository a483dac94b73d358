import Ddns.Lib.Double
import Ddns.Lib.FinMap
import Ddns.Lib.Grouping
import Ddns.Lib.Hex
import Ddns.Lib.Merkle
import Ddns.Lib.Run

/-!
# The cache rollup service

Entries are posted to `/v1/ingest`, which appends the valid ones to a file for each parent.
`/v1/rollup` reads the file of a parent, sorts it, publishes the root of its entries and awards the
witnesses. A definition without a docstring is the item of the source with the same words in its name.
The signature of an entry is not verified; `hashEntryForSignature` is the digest that the gateway
signs.

Left out: the size limit of a body, the text of the summary that a rollup answers, and where its
document is published.
-/

namespace Ddns.CacheRollup

/-- A digest of 32 bytes. -/
abbrev Digest := {bytes : List UInt8 // bytes.length = 32}

/-- How a finite double is printed: other doubles have other texts. -/
structure NumberText where
  text : ℚ → JsText
  isNumText : ∀ q, Json.isNumText (text q)
  text_inj : ∀ p q, text p = text q → p = q

/-- The functions of the platform. Reading a value as a number or a text throws for some objects. -/
structure Platform where
  sha256 : List UInt8 → Digest
  toLowerCase : JsText → JsText
  localeCompare : JsText → JsText → Ordering
  number : Json → Except JsText JsNum
  numberOfText : JsText → JsNum
  text : Json → Except JsText JsText
  numberText : NumberText

/-! ## Entries -/

/-- A positive multiple of 600. -/
abbrev Bucket := {bucket : ℕ // 0 < bucket ∧ 600 ∣ bucket}

/-- An entry with numbers of type `ν`; its version is 1. -/
structure CacheEntryV1 (ν : Type) where
  nameHash : Hex 64
  parentNameHash : Hex 64
  rrsetHash : Hex 64
  ttlS : ν
  confidenceBps : ν
  observedBucket : Bucket
  witnessPubkey : Hex 64
  signature : Hex 128
  deriving DecidableEq

inductive EntryError where
  | invalidHex (len : ℕ)
  | notConvertible (message : JsText)
  deriving DecidableEq

inductive InvalidReason where
  | invalidObject
  | privacyForbiddenField
  | invalidBucket
  deriving DecidableEq

def forbidden : List JsText :=
  [['i', 'p'], ['c', 'l', 'i', 'e', 'n', 't', '_', 'i', 'p'], ['u', 'a'],
   ['u', 's', 'e', 'r', '_', 'a', 'g', 'e', 'n', 't'], ['m', 'a', 'c'],
   ['w', 'a', 'l', 'l', 'e', 't', '_', 'p', 'u', 'b', 'k', 'e', 'y'],
   ['c', 'l', 'i', 'e', 'n', 't', '_', 'i', 'd'],
   ['r', 'o', 'u', 't', 'i', 'n', 'g', '_', 'm', 'e', 't', 'a', 'd', 'a', 't', 'a']]

def versionKey : JsText := ['v', 'e', 'r', 's', 'i', 'o', 'n']

def nameHashKey : JsText := ['n', 'a', 'm', 'e', '_', 'h', 'a', 's', 'h']

def parentNameHashKey : JsText :=
  ['p', 'a', 'r', 'e', 'n', 't', '_', 'n', 'a', 'm', 'e', '_', 'h', 'a', 's', 'h']

def rrsetHashKey : JsText := ['r', 'r', 's', 'e', 't', '_', 'h', 'a', 's', 'h']

def ttlKey : JsText := ['t', 't', 'l', '_', 's']

def confidenceKey : JsText :=
  ['c', 'o', 'n', 'f', 'i', 'd', 'e', 'n', 'c', 'e', '_', 'b', 'p', 's']

def bucketKey : JsText :=
  ['o', 'b', 's', 'e', 'r', 'v', 'e', 'd', '_', 'b', 'u', 'c', 'k', 'e', 't']

def witnessKey : JsText :=
  ['w', 'i', 't', 'n', 'e', 's', 's', '_', 'p', 'u', 'b', 'k', 'e', 'y']

def signatureKey : JsText := ['s', 'i', 'g', 'n', 'a', 't', 'u', 'r', 'e']

/-- The text without a `0x` in front. -/
def strip0x : JsText → JsText
  | '0' :: 'x' :: t => t
  | t => t

/-- `String(v || "")`. -/
def textOrEmpty (rt : Platform) (v : Option Json) : Except JsText JsText :=
  match v with
  | some v => if v.truthy then rt.text v else .ok []
  | none => .ok []

/-- `Number(v || 0)`. -/
def numberOrZero (rt : Platform) (v : Option Json) : Except EntryError JsNum :=
  match v with
  | some v => if v.truthy then (rt.number v).mapError .notConvertible else .ok (.fin 0)
  | none => .ok (.fin 0)

def hexN (rt : Platform) (v : Option Json) (len : ℕ) : Except EntryError (Hex len) :=
  match textOrEmpty rt v with
  | .error message => .error (.notConvertible message)
  | .ok t =>
    let h := rt.toLowerCase (strip0x t)
    if hdigits : h ≠ [] ∧ h.all fun c => ('0' ≤ c ∧ c ≤ '9') ∨ ('a' ≤ c ∧ c ≤ 'f') then
      if hlen : h.length = len then .ok ⟨h, hlen, hdigits.2⟩ else .error (.invalidHex len)
    else .error (.invalidHex len)

def hex32 (rt : Platform) (v : Option Json) : Except EntryError (Hex 64) := hexN rt v 64

/-- `Math.max(1, v)` -/
def atLeastOne (v : JsNum) : JsNum :=
  if v = .nan then .nan else if v.le (.fin 1) then .fin 1 else v

/-- `clamp(v, 0, 10000)` -/
def clampBps (v : JsNum) : JsNum :=
  if v = .nan then .nan
  else if v.le (.fin 0) then .fin 0
  else if (JsNum.fin 10000).le v then .fin 10000
  else v

/-- A bucket passes the check if it is positive and a multiple of 600. -/
def bucketOf : JsNum → Option Bucket
  | .fin q =>
    if h : q.den = 1 ∧ 0 < q.num.toNat ∧ 600 ∣ q.num.toNat then some ⟨q.num.toNat, h.2⟩ else none
  | _ => none

/-- The keys of an object or an array; those of an array are none of the forbidden ones. -/
def keysOf : Json → List JsText
  | .obj fields => fields.map Prod.fst
  | _ => []

/-- `typeof raw === "object"`, and not `null`. -/
def isObject : Json → Bool
  | .obj _ | .arr _ => true
  | _ => false

def validateCacheEntry (rt : Platform) (raw : Json) :
    Except EntryError (Except InvalidReason (CacheEntryV1 JsNum)) := do
  if !isObject raw then return .error .invalidObject
  if (keysOf raw).any (forbidden.contains ·) then return .error .privacyForbiddenField
  let nameHash ← hex32 rt (raw.field nameHashKey)
  let parentNameHash ← hex32 rt (raw.field parentNameHashKey)
  let rrsetHash ← hex32 rt (raw.field rrsetHashKey)
  let ttlS ← numberOrZero rt (raw.field ttlKey)
  let confidenceBps ← numberOrZero rt (raw.field confidenceKey)
  let observedBucket ← numberOrZero rt (raw.field bucketKey)
  let witnessPubkey ← hexN rt (raw.field witnessKey) 64
  let signature ← hexN rt (raw.field signatureKey) 128
  match bucketOf observedBucket with
  | none => return .error .invalidBucket
  | some observedBucket =>
    return .ok
      { nameHash, parentNameHash, rrsetHash, ttlS := atLeastOne ttlS
        confidenceBps := clampBps confidenceBps, observedBucket, witnessPubkey, signature }

/-! ## Files -/

/-- A number as JSON has it: what is not finite is `null`. -/
def written : JsNum → Option ℚ
  | .fin q => some q
  | _ => none

/-- An entry as a line of a file has it. -/
abbrev StoredEntry := CacheEntryV1 (Option ℚ)

/-- An entry, written and read again. -/
def CacheEntryV1.stored (e : CacheEntryV1 JsNum) : StoredEntry :=
  { e with ttlS := written e.ttlS, confidenceBps := written e.confidenceBps }

/-- The entries of the file of each parent. -/
abbrev Files := FinMap (Hex 64) (List StoredEntry)

/-- The entries of a file are appended. -/
def append (files : Files) (parentHash : Hex 64) (group : List StoredEntry) : Files :=
  files.set parentHash ((files.get parentHash).getD [] ++ group)

def entriesKey : JsText := ['e', 'n', 't', 'r', 'i', 'e', 's']

def entriesOf (body : Json) : List Json :=
  match body.field entriesKey with
  | some (.arr items) => items
  | _ => []

/-! ## Roots -/

/-- A number in a document. -/
def printed (rt : Platform) : Option ℚ → Json
  | some q => .num (rt.numberText.text q)
  | none => .null

def StoredEntry.toJson (rt : Platform) (e : StoredEntry) : Json :=
  .obj [(versionKey, .num ['1']), (nameHashKey, .str e.nameHash.text),
    (parentNameHashKey, .str e.parentNameHash.text), (rrsetHashKey, .str e.rrsetHash.text),
    (ttlKey, printed rt e.ttlS), (confidenceKey, printed rt e.confidenceBps),
    (bucketKey, printed rt (some (e.observedBucket.1 : ℚ))),
    (witnessKey, .str e.witnessPubkey.text), (signatureKey, .str e.signature.text)]

def hashEntry (rt : Platform) (e : StoredEntry) : Digest :=
  rt.sha256 (StoredEntry.toJson rt e).stringify.utf8

/-- The digest of two nodes. -/
def hashPair (rt : Platform) (left right : Digest) : Digest := rt.sha256 (left.1 ++ right.1)

def merkleRoot (rt : Platform) (leaves : List Digest) : Digest :=
  (Merkle.top (Merkle.levels (hashPair rt) leaves)).getD ⟨List.replicate 32 0, rfl⟩

/-- The comparator of a rollup. -/
def compareEntries (rt : Platform) : StoredEntry → StoredEntry → Ordering :=
  compareLex (compareOn fun e => e.observedBucket.1)
    (compareLex (fun a b => rt.localeCompare a.nameHash.text b.nameHash.text)
      (fun a b => rt.localeCompare a.rrsetHash.text b.rrsetHash.text))

def sortEntries (rt : Platform) (entries : List StoredEntry) : List StoredEntry :=
  entries.insertionSort fun a b => (compareEntries rt a b).isLE

/-- The root that a rollup of some entries publishes. -/
def cacheRootHex (rt : Platform) (entries : List StoredEntry) : JsText :=
  Hex.ofBytes (merkleRoot rt ((sortEntries rt entries).map (hashEntry rt))).1

/-! ## Awards -/

/-- What a transaction `award_rep` carries; there is always one source. -/
structure Award where
  epochId : ℕ
  contributor : Hex 64
  acceptedEntries : ℕ
  uniqueNames : ℕ
  uniqueSources : ℕ
  confidenceLevel : ℕ
  deriving DecidableEq

/-- `BigInt(epochId)` where it fits 64 bits. -/
def epochU64 : JsNum → Option ℕ
  | .fin q => if q.den = 1 ∧ 0 ≤ q ∧ q < 2 ^ 64 then some q.num.toNat else none
  | _ => none

/-- The rounded sum of the confidences. -/
def confidenceSum (list : List StoredEntry) : JsNum :=
  list.foldl (fun s e =>
    match s with
    | .fin s => Rounding.nearest (s + e.confidenceBps.getD 0)
    | s => s) (.fin 0)

def avgConfidence (list : List StoredEntry) : JsNum :=
  match confidenceSum list with
  | .fin sum =>
    match Rounding.nearest (sum / max 1 list.length) with
    | .fin avg => .fin avg.floor
    | avg => avg
  | sum => sum

def confidenceLevel (list : List StoredEntry) : ℕ :=
  if (JsNum.fin 9000).le (avgConfidence list) then 2
  else if (JsNum.fin 7000).le (avgConfidence list) then 1
  else 0

/-- The call for a contributor, unless its epoch or its count has no encoding. -/
def awardFor (epochId : JsNum) (contributor : Hex 64) (list : List StoredEntry) : Option Award :=
  match epochU64 epochId with
  | some epoch =>
    if list.length < 2 ^ 32 then
      some ⟨epoch, contributor, list.length, (list.map CacheEntryV1.nameHash).eraseDups.length, 1,
        confidenceLevel list⟩
    else none
  | none => none

/-- What is outside the service: whether a document is published, a head set, and a transaction for
a contributor sent. -/
structure Network where
  publishes : Bool
  setsHead : Bool
  sends : Hex 64 → Bool

/-- Each contributor with the call that is sent for it, if one is. -/
def maybeAwardRep (net : Network) (entries : List StoredEntry) (epochId : JsNum) :
    List (Hex 64 × Option Award) :=
  (Grouping.group CacheEntryV1.witnessPubkey entries).map fun g =>
    (g.1, if net.sends g.1 then awardFor epochId g.1 g.2 else none)

/-! ## Requests -/

/-- The configuration: whether heads are set, and whether contributors are awarded. -/
structure Config where
  head : Bool
  rep : Bool

/-- A request; a rollup comes with the texts of its query and the time in milliseconds. -/
inductive Request where
  | ingest (body : Json)
  | rollup (parent epoch : JsText) (now : ℕ) (net : Network)

inductive RequestError where
  | missingEntries
  | noValidEntries
  | missingParent
  | noEntriesForParent
  deriving DecidableEq

structure RollupDoc where
  parent : JsText
  parentNameHash : Hex 64
  epochId : JsNum
  count : ℕ
  cacheRoot : JsText
  entries : List StoredEntry
  generatedAtUnix : ℕ
  deriving DecidableEq

inductive RollupError where
  | publish
  | setHead
  deriving DecidableEq

/-- The answer of a request. A request that crashes has none; a rollup has written its document, and
awarded the contributors if it has not failed. -/
inductive Answer where
  | rejected (status : ℕ) (error : RequestError)
  | crashed (error : EntryError)
  | ingested (accepted parents : ℕ)
  | rolledUp (doc : RollupDoc) (rep : Except RollupError (Option (List (Hex 64 × Option Award))))

/-- The valid ones among the entries of a request. -/
def acceptedOf (rt : Platform) (entries : List Json) :
    Except EntryError (List (CacheEntryV1 JsNum)) :=
  (entries.mapM (validateCacheEntry rt)).map fun results => results.filterMap Except.toOption

def ingest (rt : Platform) (files : Files) (body : Json) : Files × Answer :=
  match entriesOf body with
  | [] => (files, .rejected 400 .missingEntries)
  | entries =>
    match acceptedOf rt entries with
    | .error error => (files, .crashed error)
    | .ok [] => (files, .rejected 400 .noValidEntries)
    | .ok accepted =>
      let byParent := Grouping.group CacheEntryV1.parentNameHash accepted
      (byParent.foldl (fun files g => append files g.1 (g.2.map CacheEntryV1.stored)) files,
        .ingested accepted.length byParent.length)

/-- The name of a parent, without dots at its end. -/
def parentOf (rt : Platform) (query : JsText) : JsText :=
  (rt.toLowerCase query.trim).rdropWhile (· = '.')

def sha256Hex (rt : Platform) (v : JsText) : Hex 64 :=
  Hex.print (rt.sha256 v.utf8).1 (rt.sha256 v.utf8).2

/-- `Number(query || Math.floor(now / 1000 / 600))` -/
def epochOf (rt : Platform) (query : JsText) (now : ℕ) : JsNum :=
  if query = [] then .fin (now / 600000 : ℕ) else rt.numberOfText query

/-- What follows once the document is written. -/
def publishRollup (cfg : Config) (net : Network) (entries : List StoredEntry) (epochId : JsNum) :
    Except RollupError (Option (List (Hex 64 × Option Award))) :=
  if !net.publishes then .error .publish
  else if cfg.head && !(net.setsHead && (epochU64 epochId).isSome) then .error .setHead
  else .ok (if cfg.rep then some (maybeAwardRep net entries epochId) else none)

def rollup (rt : Platform) (cfg : Config) (files : Files) (parentQuery epochQuery : JsText)
    (now : ℕ) (net : Network) : Answer :=
  let parent := parentOf rt parentQuery
  if parent = [] then .rejected 400 .missingParent
  else
    let epochId := epochOf rt epochQuery now
    let parentHash := sha256Hex rt parent
    match files.get parentHash with
    | none => .rejected 404 .noEntriesForParent
    | some lines =>
      let entries := sortEntries rt lines
      .rolledUp
        { parent, parentNameHash := parentHash, epochId, count := entries.length
          cacheRoot := cacheRootHex rt lines, entries, generatedAtUnix := now / 1000 }
        (publishRollup cfg net entries epochId)

def step (rt : Platform) (cfg : Config) (files : Files) : Request → Files × Answer
  | .ingest body => ingest rt files body
  | .rollup parent epoch now net => (files, rollup rt cfg files parent epoch now net)

/-- A step of the service. -/
abbrev Step := Runs.Event Files Request Answer

end Ddns.CacheRollup
