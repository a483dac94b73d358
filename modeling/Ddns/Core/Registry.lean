import Ddns.Lib.Double
import Ddns.Lib.Merkle
import Ddns.Lib.Results

/-!
# The registry and its Merkle tree

Records of the registry, their canonical texts, and the tree over them
(`core/src/registry_merkle.ts`). Hashes are texts of hexadecimal digits, and a node hashes the digits
of its two children.
-/

namespace Ddns.Core.Registry

/-- What the module calls: the cases of a text, `punycode.toASCII`, the protocol that `new URL`
reads, `localeCompare`, and BLAKE3, whose digests have 32 bytes. -/
structure Runtime where
  toLowerCase : JsText → JsText
  toUpperCase : JsText → JsText
  toASCII : JsText → JsText
  urlProtocol : JsText → Option JsText
  localeCompare : JsText → JsText → Ordering
  blake3 : List UInt8 → List UInt8
  length_blake3 : ∀ m, (blake3 m).length = 32

/-- A value: a text, or a key with its value. -/
inductive EntryValue where
  | text (value : JsText)
  | pair (key value : JsText)

/-- An item of `records`. -/
structure RecordEntry where
  type : JsText
  value : EntryValue
  ttl : Option Number

structure RegistryRecord where
  name : JsText
  records : List RecordEntry
  version : Number
  updatedAt : JsText
  owner : Option JsText

inductive RegistryError where
  | ownerRecordRequired
  | unsupportedRecordType (type : JsText)
  | textMustBeKeyValue
  | textRequiresKeyValue
  | endpointMustBeString
  | invalidUrl
  | endpointMustBeHttps
  | nodePubkeyMustBeString
  | nodePubkeyMustBeEd25519
  | capsMustBeString
  | unsupportedCap (cap : JsText)
  | mustBeNonEmptyString (type : JsText)
  deriving DecidableEq

def ownerType : JsText := ['O', 'W', 'N', 'E', 'R']

def nodePubkeyType : JsText := ['N', 'O', 'D', 'E', '_', 'P', 'U', 'B', 'K', 'E', 'Y']

def endpointType : JsText := ['E', 'N', 'D', 'P', 'O', 'I', 'N', 'T']

def capsType : JsText := ['C', 'A', 'P', 'S']

def textType : JsText := ['T', 'E', 'X', 'T']

def allowedTypes : List JsText := [ownerType, nodePubkeyType, endpointType, capsType, textType]

def allowedCaps : List JsText :=
  [['c', 'a', 'c', 'h', 'e'], ['v', 'e', 'r', 'i', 'f', 'y'], ['s', 't', 'o', 'r', 'e'],
    ['p', 'r', 'o', 'x', 'y'], ['t', 'o', 'r']]

/-- `https:` -/
def httpsProtocol : JsText := ['h', 't', 't', 'p', 's', ':']

/-- `ed25519:` -/
def ed25519Prefix : JsText := ['e', 'd', '2', '5', '5', '1', '9', ':']

/-! ## Canonical records -/

/-- `replace(/\.$/, "")` -/
def stripDot (t : JsText) : JsText := if t.getLast? = some '.' then t.dropLast else t

def normalizeRegistryName (rt : Runtime) (name : JsText) : JsText :=
  let trimmed := stripDot (JsText.trim name)
  let lowered := rt.toLowerCase trimmed
  rt.toASCII lowered

/-- A normalized entry. -/
structure Entry where
  type : JsText
  key : JsText
  value : JsText
  ttl : Option Number

/-- The capabilities of a list, as they are checked. -/
def capsOf (rt : Runtime) (value : JsText) : List JsText :=
  ((value.splitOn ',').map fun cap => rt.toLowerCase (JsText.trim cap)).filter (· ≠ [])

/-- A set of capabilities, sorted and joined. -/
def capsText (caps : List JsText) : JsText :=
  JsText.join [','] (caps.eraseDups.insertionSort fun a b => (JsText.compareUnits a b).isLE)

/-- What `normalizeRecordEntries` maps. -/
def normalizeEntry (rt : Runtime) (entry : RecordEntry) : Except RegistryError Entry :=
  let type := rt.toUpperCase entry.type
  if type ∉ allowedTypes then .error (.unsupportedRecordType type)
  else if type = textType then
    match entry.value with
    | .text _ => .error .textMustBeKeyValue
    | .pair key value =>
      if key = [] ∨ value = [] then .error .textRequiresKeyValue
      else .ok ⟨type, key, value, entry.ttl⟩
  else if type = endpointType then
    match entry.value with
    | .pair _ _ => .error .endpointMustBeString
    | .text value => match rt.urlProtocol value with
      | none => .error .invalidUrl
      | some protocol =>
        if protocol ≠ httpsProtocol then .error .endpointMustBeHttps
        else .ok ⟨type, [], value, entry.ttl⟩
  else if type = nodePubkeyType then
    match entry.value with
    | .pair _ _ => .error .nodePubkeyMustBeString
    | .text value =>
      if ¬ed25519Prefix <+: value then .error .nodePubkeyMustBeEd25519
      else .ok ⟨type, [], value, entry.ttl⟩
  else if type = capsType then
    match entry.value with
    | .pair _ _ => .error .capsMustBeString
    | .text value =>
      let caps := capsOf rt value
      match caps.find? (· ∉ allowedCaps) with
      | some cap => .error (.unsupportedCap cap)
      | none => .ok ⟨type, [], capsText caps, entry.ttl⟩
  else match entry.value with
    | .pair _ _ => .error (.mustBeNonEmptyString type)
    | .text value =>
      if value = [] then .error (.mustBeNonEmptyString type)
      else .ok ⟨type, [], value, entry.ttl⟩

/-- The text that entries are sorted by. -/
def sortKey (e : Entry) : JsText := e.type ++ '|' :: e.key ++ '|' :: e.value

/-- `sort` of normalized entries. -/
def sortEntries (rt : Runtime) (entries : List Entry) : List Entry :=
  entries.insertionSort fun a b => (rt.localeCompare (sortKey a) (sortKey b)).isLE

def normalizeRecordEntries (rt : Runtime) (records : List RecordEntry) :
    Except RegistryError (List Entry) :=
  if ¬records.any fun entry => rt.toUpperCase entry.type = ownerType then
    .error .ownerRecordRequired
  else match records.mapM (normalizeEntry rt) with
    | .error e => .error e
    | .ok normalized => .ok (sortEntries rt normalized)

def Entry.toJson (e : Entry) : Json :=
  .obj ([(['t', 'y', 'p', 'e'], .str e.type), (['k', 'e', 'y'], .str e.key),
    (['v', 'a', 'l', 'u', 'e'], .str e.value)] ++
      (e.ttl.map fun ttl => (['t', 't', 'l'], ttl.toJson)).toList)

/-- The object that is printed, with the entries that are given. -/
def payload (rt : Runtime) (record : RegistryRecord) (entries : List Entry) : Json :=
  .obj ([(['n', 'a', 'm', 'e'], .str (normalizeRegistryName rt record.name)),
    (['v', 'e', 'r', 's', 'i', 'o', 'n'], record.version.toJson),
    (['u', 'p', 'd', 'a', 't', 'e', 'd', 'A', 't'], .str record.updatedAt),
    (['r', 'e', 'c', 'o', 'r', 'd', 's'], .arr (entries.map Entry.toJson))] ++
      ((record.owner.filter (· ≠ [])).map fun owner =>
        (['o', 'w', 'n', 'e', 'r'], Json.str owner)).toList)

def canonicalizeRecord (rt : Runtime) (record : RegistryRecord) : Except RegistryError JsText :=
  match normalizeRecordEntries rt record.records with
  | .error e => .error e
  | .ok normalizedRecords => .ok (payload rt record normalizedRecords).stringify

/-! ## The tree -/

/-- Two digits for each byte. -/
def bytesToHex (bytes : List UInt8) : JsText :=
  bytes.flatMap fun b => [Json.hexDigit (b.toNat / 16), Json.hexDigit (b.toNat % 16)]

/-- The digest of a text. -/
def hashText (rt : Runtime) (text : JsText) : JsText := bytesToHex (rt.blake3 (JsText.utf8 text))

/-- The text that a leaf hashes. -/
def leafInput (rt : Runtime) (record : RegistryRecord) (canonical : JsText) : JsText :=
  normalizeRegistryName rt record.name ++ '\n' :: canonical

def hashLeaf (rt : Runtime) (record : RegistryRecord) : Except RegistryError JsText :=
  match canonicalizeRecord rt record with
  | .error e => .error e
  | .ok canonical => .ok (hashText rt (leafInput rt record canonical))

structure Leaf where
  name : JsText
  hash : JsText
  deriving DecidableEq

def leafOf (rt : Runtime) (record : RegistryRecord) : Except RegistryError Leaf :=
  match hashLeaf rt record with
  | .error e => .error e
  | .ok hash => .ok ⟨normalizeRegistryName rt record.name, hash⟩

/-- `sort` of leaves. -/
def sortLeaves (rt : Runtime) (leaves : List Leaf) : List Leaf :=
  leaves.insertionSort fun a b => (rt.localeCompare a.name b.name).isLE

def buildLeaves (rt : Runtime) (records : List RegistryRecord) : Except RegistryError (List Leaf) :=
  match records.mapM (leafOf rt) with
  | .error e => .error e
  | .ok leaves => .ok (sortLeaves rt leaves)

/-- The node above two nodes. -/
def hashPair (rt : Runtime) (left right : JsText) : JsText := hashText rt (left ++ right)

def buildTree (rt : Runtime) (leaves : List Leaf) : List (List JsText) :=
  Merkle.levels (hashPair rt) (leaves.map Leaf.hash)

/-- `tree.at(-1)?.[0] ?? ""` -/
def treeRoot (tree : List (List JsText)) : JsText := (Merkle.top tree).getD []

def buildMerkleRoot (rt : Runtime) (records : List RegistryRecord) : Except RegistryError JsText :=
  match buildLeaves rt records with
  | .error e => .error e
  | .ok leaves =>
    if leaves.length = 0 then .ok (hashText rt [])
    else .ok (treeRoot (buildTree rt leaves))

structure MerkleProof where
  siblings : List JsText
  directions : List Merkle.Side
  deriving DecidableEq

/-- The result of `buildProof`. -/
structure RecordProof where
  leaf : JsText
  proof : MerkleProof
  root : JsText
  deriving DecidableEq

def undefinedText : JsText := ['u', 'n', 'd', 'e', 'f', 'i', 'n', 'e', 'd']

def buildProof (rt : Runtime) (records : List RegistryRecord) (name : JsText) :
    Except RegistryError RecordProof :=
  let normalized := normalizeRegistryName rt name
  match buildLeaves rt records with
  | .error e => .error e
  | .ok leaves =>
    let tree := buildTree rt leaves
    let index := leaves.findIdx fun leaf => leaf.name = normalized
    match leaves[index]? with
    | none => .ok ⟨[], ⟨[], []⟩, treeRoot tree⟩
    | some leaf =>
      let steps := Merkle.path undefinedText tree.dropLast index
      .ok ⟨leaf.hash, ⟨steps.map Prod.snd, steps.map Prod.fst⟩, treeRoot tree⟩

/-- The loop of `verifyProof`; a direction that is not there counts as `right`. -/
def computeRoot (rt : Runtime) : JsText → List JsText → List Merkle.Side → JsText
  | computed, [], _ => computed
  | computed, sibling :: siblings, directions =>
    let combined := if directions.head? = some .left then sibling ++ computed else computed ++ sibling
    computeRoot rt (hashText rt combined) siblings directions.tail

def verifyProof (rt : Runtime) (root leaf : JsText) (proof : MerkleProof) : Bool :=
  computeRoot rt leaf proof.siblings proof.directions = root

end Ddns.Core.Registry
