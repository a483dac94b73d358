import Ddns.Core.Rdata
import Ddns.Lib.Casing
import Ddns.Lib.TextDecoder

/-!
# The wire format of the demo gateway

The demo gateway (`services/cf-demo-gateway/src/index.ts`) reads DNS queries and writes responses.
`decodeName` walks over the labels of a name and follows compression pointers; it neither checks that
a name ends nor that its labels fit. `encodeDnsResponse` repeats the question and adds the answers
whose data it can parse.
-/

namespace Ddns.CfDemo

open JsText Bytes

/-- The lower case of the platform. Of the characters outside ASCII, only `İ` and the sign of the
Kelvin have ASCII characters in their lower case. -/
structure Runtime where
  lower : Casing
  lower_ascii : ∀ c, lower.ascii c = c.toLower
  ascii_of_mem : ∀ b c a, 128 ≤ c.toNat → ∀ d ∈ lower.image b c a, d.toNat < 128 → d = 'i' ∨ d = 'k'

def normalizeName (rt : Runtime) (name : JsText) : JsText :=
  (rt.lower.apply name.trim).rdropWhile (· = '.')

/-! ## Numbers in bytes -/

/-- `getUint16`, inside the bytes. -/
def uint16 (buf : List UInt8) (off : ℕ) : ℕ :=
  (buf.getD off 0).toNat * 256 + (buf.getD (off + 1) 0).toNat

/-- `setUint16` -/
def uint16Bytes (v : ℕ) : List UInt8 := [UInt8.ofNat (v / 256), UInt8.ofNat v]

/-- `setUint32` -/
def uint32Bytes (v : ℕ) : List UInt8 := uint16Bytes (v / 65536) ++ uint16Bytes v

/-! ## Queries -/

inductive ResolveType where
  | a
  | aaaa
  deriving DecidableEq

inductive QueryError where
  | queryTooShort
  | missingQuestion
  | namePointerDepth
  /-- The `RangeError` of a `DataView`. -/
  | outOfRange
  deriving DecidableEq

/-- `type` is `none` for `"OTHER"`. -/
structure ParsedQuestion where
  id : ℕ
  flags : ℕ
  name : JsText
  type : Option ResolveType
  qtypeRaw : ℕ
  deriving DecidableEq

/-- The loop of `decodeName`: the labels, and where the name ends, if it does. A round moves by two
bytes at least, so that there are no more rounds than bytes. -/
def labelsFrom (target : ℕ → Except QueryError JsText) (buf : List UInt8) :
    (rounds : ℕ) → (pos : ℕ) → Except QueryError (List JsText × Option ℕ)
  | 0, _ => .ok ([], none)
  | rounds + 1, pos =>
    match buf[pos]? with
    | none => .ok ([], none)
    | some len =>
      if 0xc0 ≤ len.toNat then
        let ptr := (len.toNat - 0xc0) * 256 + (buf.getD (pos + 1) 0).toNat
        (target ptr).map fun name => ([name], some (pos + 2))
      else if len.toNat = 0 then .ok ([], some (pos + 1))
      else
        (labelsFrom target buf rounds (pos + 1 + len.toNat)).map fun r =>
          (TextDecoder.decode (slice buf (pos + 1) len.toNat) :: r.1, r.2)

/-- A name, and where it ends. `depths` is how deep pointers may still lead. -/
def decodeName (rt : Runtime) (buf : List UInt8) :
    (depths : ℕ) → (offset : ℕ) → Except QueryError (JsText × ℕ)
  | 0, _ => .error .namePointerDepth
  | depths + 1, offset =>
    (labelsFrom (fun ptr => (decodeName rt buf depths ptr).map Prod.fst) buf (buf.length - offset)
      offset).map fun r => (normalizeName rt (join ['.'] (r.1.filter (· ≠ []))), r.2.getD offset)

def typeOf (qtypeRaw : ℕ) : Option ResolveType :=
  if qtypeRaw = 1 then some .a else if qtypeRaw = 28 then some .aaaa else none

def parseDnsQuery (rt : Runtime) (buf : List UInt8) : Except QueryError ParsedQuestion :=
  if buf.length < 12 then .error .queryTooShort
  else if uint16 buf 4 < 1 then .error .missingQuestion
  else
    match decodeName rt buf 9 12 with
    | .error e => .error e
    | .ok (name, nextOffset) =>
      if buf.length < nextOffset + 2 then .error .outOfRange
      else
        let qtypeRaw := uint16 buf nextOffset
        .ok { id := uint16 buf 0, flags := uint16 buf 2, name, type := typeOf qtypeRaw, qtypeRaw }

/-! ## Responses -/

structure Answer where
  type : ResolveType
  data : JsText
  ttl : JsNum

/-- The bytes of a label: its length, as far as a byte holds it, and its text. -/
def labelBytes (label : JsText) : List UInt8 := UInt8.ofNat label.utf8.length :: label.utf8

def encodeDnsName (rt : Runtime) (name : JsText) : List UInt8 :=
  (((normalizeName rt name).splitOn '.').filter (· ≠ [])).flatMap labelBytes ++ [0]

def parseIPv4 (value : JsText) : Option (List UInt8) :=
  let nums := (value.splitOn '.').map NumberText.ofText
  if nums.length ≠ 4 then none
  else if nums.any fun n => n.isUint 255 = false then none
  else some (nums.map fun n => UInt8.ofNat (n.toUint 8))

/-- The two bytes of a block of an IPv6 address. -/
def blockBytes (block : JsText) : Option (List UInt8) :=
  match NumberText.parseHex block with
  | none => none
  | some n =>
    if n < 0 ∨ n > 0xffff then none
    else some [UInt8.ofNat (n.toNat / 256), UInt8.ofNat (n.toNat % 256)]

def parseIPv6 (rt : Runtime) (value : JsText) : Option (List UInt8) :=
  let parts := Core.splitColons (rt.lower.apply value)
  if 2 < parts.length then none
  else
    let head := Core.colonParts (parts.getD 0 [])
    let tail := Core.colonParts (parts.getD 1 [])
    if 8 < head.length + tail.length then none
    else
      let missing := 8 - (head.length + tail.length)
      let blocks := head ++ (List.replicate (if parts.length = 2 then missing else 0) ['0'] ++ tail)
      if blocks.length ≠ 8 then none else (blocks.mapM blockBytes).map List.flatten

def ResolveType.code : ResolveType → ℕ
  | .a => 1
  | .aaaa => 28

def Answer.addr (rt : Runtime) (answer : Answer) : Option (List UInt8) :=
  match answer.type with
  | .a => parseIPv4 answer.data
  | .aaaa => parseIPv6 rt answer.data

/-- A record: a pointer to the name of the question, the type, the class 1, the TTL and the address. -/
def recordBytes (type ttl : ℕ) (addr : List UInt8) : List UInt8 :=
  uint16Bytes 0xc00c ++ (uint16Bytes type ++ (uint16Bytes 1 ++ (uint32Bytes ttl ++
    (uint16Bytes addr.length ++ addr))))

/-- `Math.max(1, ttl)` -/
def ttlSeconds (ttl : JsNum) : JsNum := if ttl.lt (.fin 1) then .fin 1 else ttl

def answerBlock (rt : Runtime) (answer : Answer) : Option (List UInt8) :=
  (answer.addr rt).map fun addr =>
    recordBytes answer.type.code ((ttlSeconds answer.ttl).toUint 32) addr

def responseHeader (query : ParsedQuestion) (rcode answers : ℕ) : List UInt8 :=
  uint16Bytes query.id ++ (uint16Bytes (0x8180 + rcode % 16) ++ (uint16Bytes 1 ++
    (uint16Bytes answers ++ (uint16Bytes 0 ++ uint16Bytes 0))))

def encodeDnsResponse (rt : Runtime) (query : ParsedQuestion) (answers : List Answer) (rcode : ℕ) :
    List UInt8 :=
  let answerBlocks := answers.filterMap (answerBlock rt)
  responseHeader query rcode answerBlocks.length ++ (encodeDnsName rt query.name ++
    (uint16Bytes query.qtypeRaw ++ (uint16Bytes 1 ++ answerBlocks.flatten)))

end Ddns.CfDemo
