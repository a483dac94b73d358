import Ddns.Core.Bytes
import Ddns.Lib.TextDecoder

/-!
# Gateway routes

The gateways below a name and their bytes (`core/src/gateway_routes.ts`). The encoder checks some of
its numbers and brings the others into the range of their fields.

The comparator of the rules encodes their labels, and may throw where the encoder would throw for the
same label afterwards; here it does not. A byte that is not there is read as `undefined`, which is
not a number; where the length of a label is not there, reading goes on at no offset at all, and the
model stops.
-/

namespace Ddns.Core

open Bytes

structure GatewayTarget where
  kind : JsNum
  data : List UInt8
  deriving DecidableEq

structure GatewaySet where
  gatewaySetId : JsNum
  targets : List GatewayTarget
  deriving DecidableEq

inductive PatternLabel where
  | wildcard
  | exact (label : JsText)
  deriving DecidableEq

structure GatewayRule where
  priority : JsNum
  flags : JsNum
  pattern : List PatternLabel
  gatewaySetId : JsNum
  deriving DecidableEq

structure GatewayRoutesV1 where
  nsId : JsNum
  parentNameId : List UInt8
  gSeq : ℤ
  gExp : ℤ
  gatewaySets : List GatewaySet
  rules : List GatewayRule
  ownerPub : List UInt8
  sig : Option (List UInt8)
  deriving DecidableEq

inductive RoutesError where
  | parentNameIdMustBe32Bytes
  | ownerPubMustBe32Bytes
  | nsIdOutOfRange
  | sigMustBe64Bytes
  | gatewaySetIdOutOfRange
  | tooManyTargets
  | invalidTargetKind
  | targetDataTooLong
  | patternTooLong
  | labelLength
  deriving DecidableEq, Repr

/-- `GWRT` -/
def gwMagic : List UInt8 := ascii ['G', 'W', 'R', 'T']

/-! ## Encoding -/

def encodePatternLabel : PatternLabel → Except RoutesError (List UInt8)
  | .wildcard => .ok [2, 0]
  | .exact label =>
    let bytes := ascii label
    if bytes.length < 1 ∨ 63 < bytes.length then .error .labelLength
    else .ok (1 :: UInt8.ofNat bytes.length :: bytes)

/-- The bytes of a pattern. -/
def encodePattern (pattern : List PatternLabel) : Except RoutesError (List UInt8) :=
  match pattern.mapM encodePatternLabel with
  | .error e => .error e
  | .ok parts => .ok parts.flatten

def sortGatewaySetsCanonical (sets : List GatewaySet) : List GatewaySet :=
  jsSort (fun a b => a.gatewaySetId.sub b.gatewaySetId) sets

/-- The comparator of `sortRulesCanonical`. -/
def compareRules (a b : GatewayRule) : JsNum :=
  let aBytes := (encodePattern a.pattern).toOption.getD []
  let bBytes := (encodePattern b.pattern).toOption.getD []
  if a.pattern.length ≠ b.pattern.length then
    .fin ((a.pattern.length : ℤ) - b.pattern.length : ℤ)
  else if compareBytes aBytes bBytes ≠ 0 then .fin (compareBytes aBytes bBytes)
  else if a.gatewaySetId.strictEq b.gatewaySetId = false then a.gatewaySetId.sub b.gatewaySetId
  else a.priority.sub b.priority

def sortRulesCanonical (rules : List GatewayRule) : List GatewayRule := jsSort compareRules rules

def encodeTarget (t : GatewayTarget) : Except RoutesError (List UInt8) :=
  if t.kind.isInteger = false then .error .invalidTargetKind
  else if t.data.length > 0xffff then .error .targetDataTooLong
  else .ok (u8 t.kind ++ (u16le (.fin t.data.length) ++ t.data))

def encodeGatewaySet (set : GatewaySet) : Except RoutesError (List UInt8) :=
  if set.gatewaySetId.isUint 0xffffffff = false then .error .gatewaySetIdOutOfRange
  else if set.targets.length > 255 then .error .tooManyTargets
  else match set.targets.mapM encodeTarget with
    | .error e => .error e
    | .ok targetParts =>
      .ok (u32le set.gatewaySetId ++ (u8 (.fin set.targets.length) ++ targetParts.flatten))

def encodeRule (r : GatewayRule) : Except RoutesError (List UInt8) :=
  if r.pattern.length > 255 then .error .patternTooLong
  else match encodePattern r.pattern with
    | .error e => .error e
    | .ok pattBytes =>
      .ok (u8 r.priority ++ (u8 r.flags ++ (u8 (.fin r.pattern.length) ++
        (pattBytes ++ u32le r.gatewaySetId))))

def encodeGatewayRoutesV1 (gr : GatewayRoutesV1) (canonicalize : Bool) :
    Except RoutesError (List UInt8) :=
  if gr.parentNameId.length ≠ 32 then .error .parentNameIdMustBe32Bytes
  else if gr.ownerPub.length ≠ 32 then .error .ownerPubMustBe32Bytes
  else if gr.nsId.isUint 0xffffffff = false then .error .nsIdOutOfRange
  else if gr.sig.any (·.length ≠ 64) then .error .sigMustBe64Bytes
  else
    let gatewaySets := if canonicalize then sortGatewaySetsCanonical gr.gatewaySets
      else gr.gatewaySets
    let rules := if canonicalize then sortRulesCanonical gr.rules else gr.rules
    match gatewaySets.mapM encodeGatewaySet with
    | .error e => .error e
    | .ok gwParts => match rules.mapM encodeRule with
      | .error e => .error e
      | .ok ruleParts =>
        let header := gwMagic ++ ([1] ++ (u32le gr.nsId ++ (gr.parentNameId ++ (u64le gr.gSeq ++
          (u64le gr.gExp ++ (u16le (.fin gatewaySets.length) ++ u16le (.fin rules.length)))))))
        let body := gwParts.flatten ++ (ruleParts.flatten ++ gr.ownerPub)
        .ok (header ++ body ++ gr.sig.getD [])

/-! ## Decoding -/

/-- A byte, as a number. -/
def byteNum : Option UInt8 → JsNum
  | none => .nan
  | some b => .fin b.toNat

/-- How often a loop up to a byte runs. -/
def byteCount (b : Option UInt8) : ℕ := (b.map UInt8.toNat).getD 0

def decodePatternLabel : Reader DecodeError PatternLabel := do
  let kind ← Reader.byte
  let len ← Reader.byte
  if kind = some 2 then return .wildcard
  else match len with
    | none => throw .rangeError
    | some len =>
      let lbl ← Reader.bytes len.toNat
      return .exact (TextDecoder.decode lbl)

def decodeTarget : Reader DecodeError GatewayTarget := do
  let kind ← Reader.byte
  let dlen ← readU16le
  let data ← Reader.bytes dlen
  return ⟨byteNum kind, data⟩

def decodeGatewaySet : Reader DecodeError GatewaySet := do
  let gatewaySetId ← readU32le
  let targetCount ← Reader.byte
  let targets ← decodeTarget.many (byteCount targetCount)
  return ⟨.fin gatewaySetId, targets⟩

def decodeRule : Reader DecodeError GatewayRule := do
  let priority ← Reader.byte
  let flags ← Reader.byte
  let patternLen ← Reader.byte
  let pattern ← decodePatternLabel.many (byteCount patternLen)
  let gatewaySetId ← readU32le
  return ⟨byteNum priority, byteNum flags, pattern, .fin gatewaySetId⟩

/-- The part before the signature. -/
def decodeUnsignedRoutes : Reader DecodeError GatewayRoutesV1 := do
  readMagic gwMagic
  let nsId ← readU32le
  let parentNameId ← Reader.bytes 32
  let gSeq ← readU64le
  let gExp ← readU64le
  let gwsetCount ← readU16le
  let ruleCount ← readU16le
  let gatewaySets ← decodeGatewaySet.many gwsetCount
  let rules ← decodeRule.many ruleCount
  let ownerPub ← Reader.bytes 32
  return ⟨.fin nsId, parentNameId, gSeq, gExp, gatewaySets, rules, ownerPub, none⟩

def decodeGatewayRoutesV1 (bytes : List UInt8) : Except DecodeError GatewayRoutesV1 :=
  match decodeUnsignedRoutes bytes 0 with
  | .error e => .error e
  | .ok (gr, off) => .ok { gr with sig := readSig bytes off }

end Ddns.Core
