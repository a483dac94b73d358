import Ddns.Core.Bytes
import Ddns.Lib.TextDecoder

/-!
# The wire format

Packets and their payloads (`core/src/wire.ts`, `core/src/wire_safe.ts`). An encoder checks its
numbers and lengths and writes the fields one after the other; a decoder checks the length and reads
every field at its offset.
-/

namespace Ddns.Core

open Bytes

inductive WireError where
  | unsupportedWireVersion
  | msgTypeOutOfRange
  | flagsOutOfRange
  | reqIdOutOfRange
  | nsIdOutOfRange
  | payloadLenOutOfRange
  | shortHeader
  | badMagic
  | badVersion
  | reservedMustBeZero
  | packetTruncated
  | nameIdMustBe32Bytes
  | qtypeOutOfRange
  | statusOutOfRange
  | routesetTooLarge
  | anchorTooLarge
  | codeOutOfRange
  | retryOutOfRange
  | msgTooLong
  | routesetHashMustBe32Bytes
  | hopsOutOfRange
  | hashMustBe32Bytes
  | badQryLength
  | badAnsLength
  | badAncLength
  | badNotLength
  | badGspLength
  | badGetLength
  | badPutLength
  | badRoutesetLen
  | badAnchorLen
  | badMsgLen
  | badGetMode
  | packetExceedsMaxPacketBytes
  | payloadLenExceedsMaxPayloadBytes
  | payloadLengthMismatch
  | routesetExceedsMaxRouteSetBytes
  | anchorExceedsMaxAnchorBytes
  | msgExceedsMaxNotMsgBytes
  | putRoutesetExceedsMaxRouteSetBytes
  | rangeError
  deriving DecidableEq, Repr

/-- `bytes[i]`; the length is checked before. -/
def byteAt (bytes : List UInt8) (i : ℕ) : JsNum := .fin (bytes.getD i 0).toNat

/-- An integer of `n` bytes, at an offset. -/
def uintAt (n : ℕ) (bytes : List UInt8) (off : ℕ) : Except WireError ℕ :=
  (Reader.uint .rangeError n).valueAt bytes off

/-! ## Packets -/

/-- `DDNS` -/
def wireMagic : List UInt8 := ascii ['D', 'D', 'N', 'S']

def wireVersion : JsNum := .fin 1

def wireHeaderLen : ℕ := 24

inductive MsgType where
  | qry
  | ans
  | anc
  | not
  | gsp
  | get
  | put
  deriving DecidableEq, Repr

def MsgType.code : MsgType → JsNum
  | .qry => .fin 1
  | .ans => .fin 2
  | .anc => .fin 3
  | .not => .fin 4
  | .gsp => .fin 5
  | .get => .fin 6
  | .put => .fin 7

structure WireHeader where
  version : JsNum
  msgType : JsNum
  flags : JsNum
  reqId : JsNum
  nsId : JsNum
  payloadLen : JsNum
  reserved : Option JsNum
  deriving DecidableEq, Repr

structure WirePacket where
  header : WireHeader
  payload : List UInt8
  deriving DecidableEq, Repr

def encodeHeader (h : WireHeader) : Except WireError (List UInt8) :=
  if h.version ≠ wireVersion then .error .unsupportedWireVersion
  else if h.msgType.isUint 0xff = false then .error .msgTypeOutOfRange
  else if h.flags.isUint 0xffff = false then .error .flagsOutOfRange
  else if h.reqId.isUint 0xffffffff = false then .error .reqIdOutOfRange
  else if h.nsId.isUint 0xffffffff = false then .error .nsIdOutOfRange
  else if h.payloadLen.isUint 0xffffffff = false then .error .payloadLenOutOfRange
  else .ok (concatBytes [wireMagic, u8 h.version, u8 h.msgType, u16le h.flags, u32le h.reqId,
    u32le h.nsId, u32le h.payloadLen, u32le (.fin 0)])

def decodeHeader (bytes : List UInt8) : Except WireError WireHeader :=
  if bytes.length < wireHeaderLen then .error .shortHeader
  else if slice bytes 0 4 ≠ wireMagic then .error .badMagic
  else if byteAt bytes 4 ≠ wireVersion then .error .badVersion
  else do
    let flags ← uintAt 2 bytes 6
    let reqId ← uintAt 4 bytes 8
    let nsId ← uintAt 4 bytes 12
    let payloadLen ← uintAt 4 bytes 16
    let reserved ← uintAt 4 bytes 20
    if reserved ≠ 0 then .error .reservedMustBeZero
    else .ok {
      version := byteAt bytes 4
      msgType := byteAt bytes 5
      flags := .fin flags
      reqId := .fin reqId
      nsId := .fin nsId
      payloadLen := .fin payloadLen
      reserved := some (.fin reserved) }

/-- The length in the header is replaced by that of the payload. -/
def encodePacket (packet : WirePacket) : Except WireError (List UInt8) := do
  let headerBytes ← encodeHeader { packet.header with payloadLen := .fin packet.payload.length }
  return concatBytes [headerBytes, packet.payload]

/-- The length of a decoded header is an integer of 32 bits. -/
def decodePacket (bytes : List UInt8) : Except WireError WirePacket := do
  let header ← decodeHeader bytes
  let payloadLen := header.payloadLen.toUint 32
  if bytes.length < wireHeaderLen + payloadLen then .error .packetTruncated
  else .ok ⟨header, slice bytes wireHeaderLen payloadLen⟩

/-! ## Payloads -/

structure QryPayload where
  nameId : List UInt8
  qtype : JsNum
  minSeq : ℤ
  deriving DecidableEq, Repr

def encodeQRY (p : QryPayload) : Except WireError (List UInt8) :=
  if p.nameId.length ≠ 32 then .error .nameIdMustBe32Bytes
  else if p.qtype.isUint 0xffff = false then .error .qtypeOutOfRange
  else .ok (concatBytes [p.nameId, u16le p.qtype, u64le p.minSeq])

def decodeQRY (bytes : List UInt8) : Except WireError QryPayload :=
  if bytes.length ≠ 32 + 2 + 8 then .error .badQryLength
  else do
    let nameId := slice bytes 0 32
    let qtype ← uintAt 2 bytes 32
    let minSeq ← uintAt 8 bytes 34
    return ⟨nameId, .fin qtype, minSeq⟩

/-- A status and data of any length. -/
def encodeStatus (tooLarge : WireError) (status : JsNum) (data : List UInt8) :
    Except WireError (List UInt8) :=
  if status.isUint 0xff = false then .error .statusOutOfRange
  else if data.length > 0xffffffff then .error tooLarge
  else .ok (concatBytes [u8 status, u32le (.fin data.length), data])

def decodeStatus (badLength badLen : WireError) (bytes : List UInt8) :
    Except WireError (JsNum × List UInt8) :=
  if bytes.length < 1 + 4 then .error badLength
  else do
    let len ← uintAt 4 bytes 1
    if bytes.length ≠ 1 + 4 + len then .error badLen
    else .ok (byteAt bytes 0, slice bytes 5 len)

structure AnsPayload where
  status : JsNum
  routeset : List UInt8
  deriving DecidableEq, Repr

def encodeANS (p : AnsPayload) : Except WireError (List UInt8) :=
  encodeStatus .routesetTooLarge p.status p.routeset

def decodeANS (bytes : List UInt8) : Except WireError AnsPayload := do
  let (status, routeset) ← decodeStatus .badAnsLength .badRoutesetLen bytes
  return ⟨status, routeset⟩

structure AncPayload where
  status : JsNum
  anchor : List UInt8
  deriving DecidableEq, Repr

def encodeANC (p : AncPayload) : Except WireError (List UInt8) :=
  encodeStatus .anchorTooLarge p.status p.anchor

def decodeANC (bytes : List UInt8) : Except WireError AncPayload := do
  let (status, anchor) ← decodeStatus .badAncLength .badAnchorLen bytes
  return ⟨status, anchor⟩

structure NotPayload where
  code : JsNum
  retry : JsNum
  msg : Option JsText
  deriving DecidableEq, Repr

/-- An empty message counts as none. -/
def msgBytes : Option JsText → List UInt8
  | some msg => if msg ≠ [] then JsText.utf8 msg else []
  | none => []

def encodeNOT (p : NotPayload) : Except WireError (List UInt8) :=
  if p.code.isUint 0xffff = false then .error .codeOutOfRange
  else if p.retry.isUint 0xffffffff = false then .error .retryOutOfRange
  else if (msgBytes p.msg).length > 0xffff then .error .msgTooLong
  else .ok (concatBytes [u16le p.code, u32le p.retry, u16le (.fin (msgBytes p.msg).length),
    msgBytes p.msg])

def decodeNOT (bytes : List UInt8) : Except WireError NotPayload :=
  if bytes.length < 2 + 4 + 2 then .error .badNotLength
  else do
    let code ← uintAt 2 bytes 0
    let retry ← uintAt 4 bytes 2
    let msgLen ← uintAt 2 bytes 6
    if bytes.length ≠ 8 + msgLen then .error .badMsgLen
    else
      let msg := if msgLen ≠ 0 then some (TextDecoder.decode (slice bytes 8 msgLen)) else none
      .ok ⟨.fin code, .fin retry, msg⟩

structure GspPayload where
  nameId : List UInt8
  seq : ℤ
  exp : ℤ
  routesetHash : List UInt8
  hops : JsNum
  deriving DecidableEq, Repr

def encodeGSP (p : GspPayload) : Except WireError (List UInt8) :=
  if p.nameId.length ≠ 32 then .error .nameIdMustBe32Bytes
  else if p.routesetHash.length ≠ 32 then .error .routesetHashMustBe32Bytes
  else if p.hops.isUint 0xff = false then .error .hopsOutOfRange
  else .ok (concatBytes [p.nameId, u64le p.seq, u64le p.exp, p.routesetHash, u8 p.hops,
    List.replicate 7 0])

def decodeGSP (bytes : List UInt8) : Except WireError GspPayload :=
  if bytes.length ≠ 32 + 8 + 8 + 32 + 1 + 7 then .error .badGspLength
  else do
    let nameId := slice bytes 0 32
    let seq ← uintAt 8 bytes 32
    let exp ← uintAt 8 bytes 40
    let routesetHash := slice bytes 48 32
    -- the reserved bytes are not read
    return ⟨nameId, seq, exp, routesetHash, byteAt bytes 80⟩

/-- The constructors are the modes `1` and `2`. -/
inductive GetPayload where
  | byNameSeq (nameId : List UInt8) (seq : ℤ)
  | byHash (hash : List UInt8)
  deriving DecidableEq, Repr

def encodeGET : GetPayload → Except WireError (List UInt8)
  | .byNameSeq nameId seq =>
    if nameId.length ≠ 32 then .error .nameIdMustBe32Bytes
    else .ok (concatBytes [[1], List.replicate 7 0, nameId, u64le seq, List.replicate 32 0])
  | .byHash hash =>
    if hash.length ≠ 32 then .error .hashMustBe32Bytes
    else .ok (concatBytes [[2], List.replicate 7 0, List.replicate 32 0, u64le 0, hash])

def decodeGET (bytes : List UInt8) : Except WireError GetPayload :=
  if bytes.length ≠ 80 then .error .badGetLength
  else if byteAt bytes 0 = .fin 1 then do
    let nameId := slice bytes 8 32
    let seq ← uintAt 8 bytes 40
    return .byNameSeq nameId seq
  else if byteAt bytes 0 = .fin 2 then .ok (.byHash (slice bytes 48 32))
  else .error .badGetMode

structure PutPayload where
  routeset : List UInt8
  deriving DecidableEq, Repr

def encodePUT (p : PutPayload) : Except WireError (List UInt8) :=
  if p.routeset.length > 0xffffffff then .error .routesetTooLarge
  else .ok (concatBytes [u32le (.fin p.routeset.length), p.routeset])

def decodePUT (bytes : List UInt8) : Except WireError PutPayload :=
  if bytes.length < 4 then .error .badPutLength
  else do
    let len ← uintAt 4 bytes 0
    if bytes.length ≠ 4 + len then .error .badRoutesetLen
    else .ok ⟨slice bytes 4 len⟩

/-! ## Limits -/

/-- A limit that a caller may give: a property that is present may be `undefined`. -/
inductive Limit where
  | missing
  | undefined
  | number (n : JsNum)
  deriving DecidableEq, Repr

structure WireLimits where
  maxPacketBytes : Limit := .missing
  maxPayloadBytes : Limit := .missing
  maxRouteSetBytes : Limit := .missing
  maxAnchorBytes : Limit := .missing
  maxNotMsgBytes : Limit := .missing

/-- The limit in force: a property that is present hides the default. -/
def Limit.over (default : ℕ) : Limit → Option JsNum
  | .missing => some (.fin default)
  | .undefined => none
  | .number n => some n

/-- The limits in force. -/
structure InForce where
  maxPacketBytes : Option JsNum
  maxPayloadBytes : Option JsNum
  maxRouteSetBytes : Option JsNum
  maxAnchorBytes : Option JsNum
  maxNotMsgBytes : Option JsNum

/-- `{ ...DEFAULT_LIMITS, ...limits }` -/
def WireLimits.inForce (limits : WireLimits) : InForce where
  maxPacketBytes := limits.maxPacketBytes.over (64 * 1024)
  maxPayloadBytes := limits.maxPayloadBytes.over (60 * 1024)
  maxRouteSetBytes := limits.maxRouteSetBytes.over (48 * 1024)
  maxAnchorBytes := limits.maxAnchorBytes.over 1024
  maxNotMsgBytes := limits.maxNotMsgBytes.over 1024

/-- `n > limit`; nothing is greater than `undefined`. -/
def exceeds (n : JsNum) (limit : Option JsNum) : Bool := limit.any fun m => m.lt n

/-- The checks of a payload by the type of the message. -/
def checkMessage (L : InForce) (pkt : WirePacket) : Except WireError Unit :=
  if pkt.header.msgType = MsgType.ans.code then do
    let ans ← decodeANS pkt.payload
    if exceeds (.fin ans.routeset.length) L.maxRouteSetBytes then
      .error .routesetExceedsMaxRouteSetBytes
    else .ok ()
  else if pkt.header.msgType = MsgType.anc.code then do
    let anc ← decodeANC pkt.payload
    if exceeds (.fin anc.anchor.length) L.maxAnchorBytes then .error .anchorExceedsMaxAnchorBytes
    else .ok ()
  else if pkt.header.msgType = MsgType.not.code then do
    let notp ← decodeNOT pkt.payload
    if notp.msg.any (· ≠ []) ∧ exceeds (.fin (msgBytes notp.msg).length) L.maxNotMsgBytes then
      .error .msgExceedsMaxNotMsgBytes
    else .ok ()
  else if pkt.header.msgType = MsgType.put.code then do
    let put ← decodePUT pkt.payload
    if exceeds (.fin put.routeset.length) L.maxRouteSetBytes then
      .error .putRoutesetExceedsMaxRouteSetBytes
    else .ok ()
  else .ok ()

def parsePacketSafe (bytes : List UInt8) (limits : WireLimits) : Except WireError WirePacket :=
  let L := limits.inForce
  if exceeds (.fin bytes.length) L.maxPacketBytes then .error .packetExceedsMaxPacketBytes
  else do
    let pkt ← decodePacket bytes
    if exceeds pkt.header.payloadLen L.maxPayloadBytes then
      .error .payloadLenExceedsMaxPayloadBytes
    else if JsNum.fin pkt.payload.length ≠ pkt.header.payloadLen then .error .payloadLengthMismatch
    else do
      checkMessage L pkt
      return pkt

end Ddns.Core
