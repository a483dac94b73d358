import Ddns.Core.Wire
import Ddns.Lib.Results

/-!
# What is encoded is decoded

A decoder should return what its encoder was given. Of the seven kinds of payloads six do; a message
loses a byte order mark that it starts with, because the text decoder drops it (`exampleNot_lost`).
`codecs_iff` says exactly which payloads and packets come back, and what `parsePacketSafe` accepts.
-/

namespace Ddns.Core

open Bytes Results

/-! ## Parts -/

section Parts

variable {e : List UInt8} {n v off : ℕ}

theorem concatBytes_append_cons (before after : List (List UInt8)) :
    concatBytes (before ++ e :: after) = concatBytes before ++ (e ++ concatBytes after) := by
  unfold concatBytes
  rw [List.flatten_append, List.flatten_cons]

/-- The bytes of a part stand behind those of the parts before it. -/
theorem slice_part (before after : List (List UInt8)) (hoff : off = (concatBytes before).length)
    (hn : n = e.length) : slice (concatBytes (before ++ e :: after)) off n = e :=
  slice_eq (concatBytes_append_cons before after) hoff hn

theorem uintAt_part (before after : List (List UInt8)) (hv : v < 256 ^ n)
    (hoff : off = (concatBytes before).length) :
    uintAt n (concatBytes (before ++ toLe n v :: after)) off = .ok v :=
  (finds_uint _ hv).valueAt (concatBytes_append_cons before after) hoff

theorem byteAt_part (before after : List (List UInt8)) (hv : v < 256)
    (hoff : off = (concatBytes before).length) :
    byteAt (concatBytes (before ++ toLe 1 v :: after)) off = .fin v := by
  have hbyte : (UInt8.ofNat v).toNat = v := by
    rw [UInt8.toNat_ofNat']
    exact Nat.mod_eq_of_lt hv
  unfold byteAt
  rw [concatBytes_append_cons, hoff, List.getD_eq_getElem?_getD,
    List.getElem?_append_right (Nat.le_refl _), Nat.sub_self]
  exact congrArg (fun m : ℕ => JsNum.fin m) hbyte

end Parts

/-- A number that fits 64 bits. -/
def IsU64 (n : ℤ) : Prop := 0 ≤ n ∧ n < 2 ^ 64

theorem IsU64.exists_eq {n : ℤ} (h : IsU64 n) : ∃ k : ℕ, k < 2 ^ 64 ∧ n = k := by
  obtain ⟨k, rfl⟩ := Int.eq_ofNat_of_zero_le h.1
  exact ⟨k, by exact_mod_cast h.2, rfl⟩

/-! ## Payloads -/

theorem decodeQRY_encodeQRY {p : QryPayload} {bytes : List UInt8} (h : encodeQRY p = .ok bytes)
    (hseq : IsU64 p.minSeq) : decodeQRY bytes = .ok p := by
  obtain ⟨nameId, qtype, minSeq⟩ := p
  simp only [encodeQRY, else_eq_ok_iff, not_not, Bool.not_eq_false, JsNum.isUint_iff,
    Except.ok.injEq] at h
  obtain ⟨hname, ⟨q, hq, rfl⟩, rfl⟩ := h
  obtain ⟨s, hs, rfl⟩ := hseq.exists_eq
  rw [u16le_natCast (Nat.lt_succ_of_le hq), u64le_natCast hs]
  generalize hbytes : concatBytes [nameId, toLe 2 q, toLe 8 s] = bytes
  have hlength : bytes.length = 32 + 2 + 8 := by
    simp [← hbytes, concatBytes, hname, length_toLe]
  have hnameId : slice bytes 0 32 = nameId := hbytes ▸ slice_part [] _ rfl hname.symm
  have hqtype : uintAt 2 bytes 32 = .ok q :=
    hbytes ▸ uintAt_part [nameId] _ (Nat.lt_succ_of_le hq) (by simp [concatBytes, hname])
  have hminSeq : uintAt 8 bytes 34 = .ok s :=
    hbytes ▸ uintAt_part [nameId, toLe 2 q] [] hs (by simp [concatBytes, hname, length_toLe])
  rw [decodeQRY, if_neg (not_not.2 hlength), hnameId, hqtype, hminSeq]
  rfl

theorem decodeStatus_encodeStatus {tooLarge badLength badLen : WireError} {status : JsNum}
    {data bytes : List UInt8} (h : encodeStatus tooLarge status data = .ok bytes) :
    decodeStatus badLength badLen bytes = .ok (status, data) := by
  simp only [encodeStatus, else_eq_ok_iff, Bool.not_eq_false, JsNum.isUint_iff, not_lt,
    Except.ok.injEq] at h
  obtain ⟨⟨s, hs, rfl⟩, hdata, rfl⟩ := h
  rw [u8_natCast (Nat.lt_succ_of_le hs), u32le_natCast (Nat.lt_succ_of_le hdata)]
  generalize hbytes : concatBytes [toLe 1 s, toLe 4 data.length, data] = bytes
  have hlength : bytes.length = 1 + 4 + data.length := by
    simp [← hbytes, concatBytes, length_toLe]
    omega
  have hstatus : byteAt bytes 0 = .fin s := hbytes ▸ byteAt_part [] _ (Nat.lt_succ_of_le hs) rfl
  have hlen : uintAt 4 bytes 1 = .ok data.length :=
    hbytes ▸ uintAt_part [toLe 1 s] [data] (Nat.lt_succ_of_le hdata) rfl
  have hslice : slice bytes 5 data.length = data :=
    hbytes ▸ slice_part [toLe 1 s, toLe 4 data.length] [] (by simp [concatBytes, length_toLe]) rfl
  unfold decodeStatus
  rw [if_neg (by rw [hlength]; omega), hlen, hstatus]
  show (if _ ≠ 1 + 4 + data.length then _ else _) = _
  rw [if_neg (not_not.2 hlength), hslice]

theorem decodeANS_encodeANS {p : AnsPayload} {bytes : List UInt8} (h : encodeANS p = .ok bytes) :
    decodeANS bytes = .ok p := by
  rw [decodeANS, decodeStatus_encodeStatus h]
  rfl

theorem decodeANC_encodeANC {p : AncPayload} {bytes : List UInt8} (h : encodeANC p = .ok bytes) :
    decodeANC bytes = .ok p := by
  rw [decodeANC, decodeStatus_encodeStatus h]
  rfl

/-- The message that is read back: an empty one as none, and without a byte order mark. -/
def received : Option JsText → Option JsText
  | none => none
  | some [] => none
  | some (c :: t) => some (if c = TextDecoder.mark then t else c :: t)

theorem length_msgBytes_eq_zero {msg : Option JsText} (h : (msgBytes msg).length = 0) :
    received msg = none := by
  rcases msg with _ | _ | ⟨c, t⟩
  · rfl
  · rfl
  · have hnil : msgBytes (some (c :: t)) = String.utf8EncodeChar c ++ JsText.utf8 t :=
      List.flatMap_cons ..
    rw [hnil, List.length_append, Nat.add_eq_zero_iff, List.length_eq_zero_iff] at h
    exact absurd h.1 String.utf8EncodeChar_ne_nil

theorem decode_msgBytes {msg : Option JsText} (h : (msgBytes msg).length ≠ 0) :
    some (TextDecoder.decode (msgBytes msg)) = received msg := by
  rcases msg with _ | _ | ⟨c, t⟩
  · exact absurd rfl h
  · exact absurd rfl h
  · have hbytes : msgBytes (some (c :: t)) = JsText.utf8 (c :: t) := rfl
    rw [hbytes, TextDecoder.decode_utf8, received]
    simp

theorem decodeNOT_encodeNOT {p : NotPayload} {bytes : List UInt8} (h : encodeNOT p = .ok bytes) :
    decodeNOT bytes = .ok { p with msg := received p.msg } := by
  obtain ⟨code, retry, msg⟩ := p
  simp only [encodeNOT, else_eq_ok_iff, Bool.not_eq_false, JsNum.isUint_iff, not_lt,
    Except.ok.injEq] at h
  obtain ⟨⟨c, hc, rfl⟩, ⟨r, hr, rfl⟩, hmsg, rfl⟩ := h
  rw [u16le_natCast (Nat.lt_succ_of_le hc), u32le_natCast (Nat.lt_succ_of_le hr),
    u16le_natCast (Nat.lt_succ_of_le hmsg)]
  generalize hl : (msgBytes msg).length = l at hmsg
  generalize hbytes : concatBytes [toLe 2 c, toLe 4 r, toLe 2 l, msgBytes msg] = bytes
  have hlength : bytes.length = 8 + l := by
    simp [← hbytes, concatBytes, length_toLe, hl]
    omega
  have hcode : uintAt 2 bytes 0 = .ok c := hbytes ▸ uintAt_part [] _ (Nat.lt_succ_of_le hc) rfl
  have hretry : uintAt 4 bytes 2 = .ok r :=
    hbytes ▸ uintAt_part [toLe 2 c] _ (Nat.lt_succ_of_le hr) rfl
  have hmsgLen : uintAt 2 bytes 6 = .ok l :=
    hbytes ▸ uintAt_part [toLe 2 c, toLe 4 r] [msgBytes msg] (Nat.lt_succ_of_le hmsg) rfl
  have hslice : slice bytes 8 l = msgBytes msg :=
    hbytes ▸ slice_part [toLe 2 c, toLe 4 r, toLe 2 l] [] (by simp [concatBytes, length_toLe])
      hl.symm
  unfold decodeNOT
  rw [if_neg (by rw [hlength]; omega), hcode, hretry, hmsgLen]
  show (if _ ≠ 8 + l then _ else _) = _
  rw [if_neg (not_not.2 hlength), hslice]
  by_cases hzero : l = 0
  · rw [if_neg (not_not.2 hzero), length_msgBytes_eq_zero (hl.trans hzero)]
  · rw [if_pos hzero, decode_msgBytes (by rw [hl]; exact hzero)]

theorem decodeGSP_encodeGSP {p : GspPayload} {bytes : List UInt8} (h : encodeGSP p = .ok bytes)
    (hseq : IsU64 p.seq) (hexp : IsU64 p.exp) : decodeGSP bytes = .ok p := by
  obtain ⟨nameId, seq, exp, hash, hops⟩ := p
  simp only [encodeGSP, else_eq_ok_iff, not_not, Bool.not_eq_false, JsNum.isUint_iff,
    Except.ok.injEq] at h
  obtain ⟨hname, hhash, ⟨n, hn, rfl⟩, rfl⟩ := h
  obtain ⟨s, hs, rfl⟩ := hseq.exists_eq
  obtain ⟨e, he, rfl⟩ := hexp.exists_eq
  rw [u8_natCast (Nat.lt_succ_of_le hn), u64le_natCast hs, u64le_natCast he]
  generalize hbytes : concatBytes [nameId, toLe 8 s, toLe 8 e, hash, toLe 1 n, List.replicate 7 0] =
    bytes
  have hlength : bytes.length = 32 + 8 + 8 + 32 + 1 + 7 := by
    simp [← hbytes, concatBytes, hname, hhash, length_toLe]
  have hnameId : slice bytes 0 32 = nameId := hbytes ▸ slice_part [] _ rfl hname.symm
  have hseqAt : uintAt 8 bytes 32 = .ok s :=
    hbytes ▸ uintAt_part [nameId] _ hs (by simp [concatBytes, hname])
  have hexpAt : uintAt 8 bytes 40 = .ok e :=
    hbytes ▸ uintAt_part [nameId, toLe 8 s] _ he (by simp [concatBytes, hname, length_toLe])
  have hhashAt : slice bytes 48 32 = hash :=
    hbytes ▸ slice_part [nameId, toLe 8 s, toLe 8 e] _ (by simp [concatBytes, hname, length_toLe])
      hhash.symm
  have hhopsAt : byteAt bytes 80 = .fin n :=
    hbytes ▸ byteAt_part [nameId, toLe 8 s, toLe 8 e, hash] _ (Nat.lt_succ_of_le hn)
      (by simp [concatBytes, hname, hhash, length_toLe])
  rw [decodeGSP, if_neg (not_not.2 hlength), hnameId, hseqAt, hexpAt, hhashAt, hhopsAt]
  rfl

theorem decodeGET_byNameSeq {nameId : List UInt8} {seq : ℤ} {bytes : List UInt8}
    (h : encodeGET (.byNameSeq nameId seq) = .ok bytes) (hseq : IsU64 seq) :
    decodeGET bytes = .ok (.byNameSeq nameId seq) := by
  simp only [encodeGET, else_eq_ok_iff, not_not, Except.ok.injEq] at h
  obtain ⟨hname, rfl⟩ := h
  obtain ⟨s, hs, rfl⟩ := hseq.exists_eq
  rw [u64le_natCast hs]
  generalize hbytes : concatBytes [[1], List.replicate 7 0, nameId, toLe 8 s, List.replicate 32 0] =
    bytes
  have hlength : bytes.length = 80 := by simp [← hbytes, concatBytes, hname, length_toLe]
  have hmode : byteAt bytes 0 = .fin (1 : ℕ) := hbytes ▸ byteAt_part [] _ (by decide) rfl
  have hnameId : slice bytes 8 32 = nameId :=
    hbytes ▸ slice_part [[1], List.replicate 7 0] _ (by simp [concatBytes]) hname.symm
  have hseqAt : uintAt 8 bytes 40 = .ok s :=
    hbytes ▸ uintAt_part [[1], List.replicate 7 0, nameId] _ hs (by simp [concatBytes, hname])
  rw [decodeGET, if_neg (not_not.2 hlength), if_pos (hmode.trans (by simp)), hnameId, hseqAt]
  rfl

theorem decodeGET_byHash {hash bytes : List UInt8} (h : encodeGET (.byHash hash) = .ok bytes) :
    decodeGET bytes = .ok (.byHash hash) := by
  simp only [encodeGET, else_eq_ok_iff, not_not, Except.ok.injEq] at h
  obtain ⟨hhash, rfl⟩ := h
  rw [show u64le 0 = toLe 8 0 from rfl]
  generalize hbytes : concatBytes [[2], List.replicate 7 0, List.replicate 32 0, toLe 8 0, hash] =
    bytes
  have hlength : bytes.length = 80 := by simp [← hbytes, concatBytes, hhash, length_toLe]
  have hmode : byteAt bytes 0 = .fin (2 : ℕ) := hbytes ▸ byteAt_part [] _ (by decide) rfl
  have hhashAt : slice bytes 48 32 = hash :=
    hbytes ▸ slice_part [[2], List.replicate 7 0, List.replicate 32 0, toLe 8 0] []
      (by simp [concatBytes, length_toLe]) hhash.symm
  rw [decodeGET, if_neg (not_not.2 hlength), hmode, if_neg (by simp), if_pos (by simp), hhashAt]

theorem decodePUT_encodePUT {p : PutPayload} {bytes : List UInt8} (h : encodePUT p = .ok bytes) :
    decodePUT bytes = .ok p := by
  obtain ⟨routeset⟩ := p
  simp only [encodePUT, else_eq_ok_iff, not_lt, Except.ok.injEq] at h
  obtain ⟨hrouteset, rfl⟩ := h
  rw [u32le_natCast (Nat.lt_succ_of_le hrouteset)]
  generalize hbytes : concatBytes [toLe 4 routeset.length, routeset] = bytes
  have hlength : bytes.length = 4 + routeset.length := by
    simp [← hbytes, concatBytes, length_toLe]
  have hlen : uintAt 4 bytes 0 = .ok routeset.length :=
    hbytes ▸ uintAt_part [] [routeset] (Nat.lt_succ_of_le hrouteset) rfl
  have hslice : slice bytes 4 routeset.length = routeset :=
    hbytes ▸ slice_part [toLe 4 routeset.length] [] (by simp [concatBytes, length_toLe]) rfl
  unfold decodePUT
  rw [if_neg (by rw [hlength]; omega), hlen]
  show (if _ ≠ 4 + routeset.length then _ else _) = _
  rw [if_neg (not_not.2 hlength), hslice]

/-! ## Packets -/

/-- A header that is written is read back, with a reserved field of zero, whatever follows. -/
theorem decodeHeader_encodeHeader {h : WireHeader} {bytes : List UInt8}
    (hok : encodeHeader h = .ok bytes) (post : List UInt8) :
    bytes.length = wireHeaderLen ∧
      decodeHeader (bytes ++ post) = .ok { h with reserved := some (.fin 0) } := by
  obtain ⟨version, msgType, flags, reqId, nsId, payloadLen, reserved⟩ := h
  simp only [encodeHeader, else_eq_ok_iff, not_not, Bool.not_eq_false, JsNum.isUint_iff,
    Except.ok.injEq] at hok
  obtain ⟨rfl, ⟨t, ht, rfl⟩, ⟨f, hf, rfl⟩, ⟨r, hr, rfl⟩, ⟨n, hn, rfl⟩, ⟨l, hl, rfl⟩, rfl⟩ := hok
  rw [u8_natCast (Nat.lt_succ_of_le ht), u16le_natCast (Nat.lt_succ_of_le hf),
    u32le_natCast (Nat.lt_succ_of_le hr), u32le_natCast (Nat.lt_succ_of_le hn),
    u32le_natCast (Nat.lt_succ_of_le hl)]
  have hversion : u8 wireVersion = toLe 1 1 := by decide +kernel
  have hreserved : u32le (.fin 0) = toLe 4 0 := by decide +kernel
  rw [hversion, hreserved]
  have hconcat : concatBytes [wireMagic, toLe 1 1, toLe 1 t, toLe 2 f, toLe 4 r, toLe 4 n, toLe 4 l,
      toLe 4 0] ++ post = concatBytes [wireMagic, toLe 1 1, toLe 1 t, toLe 2 f, toLe 4 r, toLe 4 n,
        toLe 4 l, toLe 4 0, post] := by
    simp [concatBytes]
  refine ⟨by simp [concatBytes, length_toLe, wireMagic, ascii, JsText.codeUnits, wireHeaderLen], ?_⟩
  rw [hconcat]
  generalize hbytes : concatBytes [wireMagic, toLe 1 1, toLe 1 t, toLe 2 f, toLe 4 r, toLe 4 n,
    toLe 4 l, toLe 4 0, post] = bytes
  have hlength : ¬bytes.length < wireHeaderLen := by
    simp [← hbytes, concatBytes, length_toLe, wireMagic, ascii, JsText.codeUnits, wireHeaderLen]
    omega
  have hmagic : slice bytes 0 4 = wireMagic := hbytes ▸ slice_part [] _ rfl rfl
  have hversionAt : byteAt bytes 4 = .fin (1 : ℕ) :=
    hbytes ▸ byteAt_part [wireMagic] _ (by decide) rfl
  have htypeAt : byteAt bytes 5 = .fin t :=
    hbytes ▸ byteAt_part [wireMagic, toLe 1 1] _ (Nat.lt_succ_of_le ht) rfl
  have hflagsAt : uintAt 2 bytes 6 = .ok f :=
    hbytes ▸ uintAt_part [wireMagic, toLe 1 1, toLe 1 t] _ (Nat.lt_succ_of_le hf) rfl
  have hreqAt : uintAt 4 bytes 8 = .ok r :=
    hbytes ▸ uintAt_part [wireMagic, toLe 1 1, toLe 1 t, toLe 2 f] _ (Nat.lt_succ_of_le hr) rfl
  have hnsAt : uintAt 4 bytes 12 = .ok n :=
    hbytes ▸ uintAt_part [wireMagic, toLe 1 1, toLe 1 t, toLe 2 f, toLe 4 r] _
      (Nat.lt_succ_of_le hn) rfl
  have hlenAt : uintAt 4 bytes 16 = .ok l :=
    hbytes ▸ uintAt_part [wireMagic, toLe 1 1, toLe 1 t, toLe 2 f, toLe 4 r, toLe 4 n] _
      (Nat.lt_succ_of_le hl) rfl
  have hreservedAt : uintAt 4 bytes 20 = .ok 0 :=
    hbytes ▸ uintAt_part [wireMagic, toLe 1 1, toLe 1 t, toLe 2 f, toLe 4 r, toLe 4 n, toLe 4 l] _
      (by decide) rfl
  have hone : byteAt bytes 4 = wireVersion := hversionAt.trans (by simp [wireVersion])
  rw [decodeHeader, if_neg hlength, if_neg (not_not.2 hmagic), if_neg (not_not.2 hone), hflagsAt,
    hreqAt, hnsAt, hlenAt, hreservedAt, hone, htypeAt]
  rfl

/-- What `decodePacket` returns for a packet that is written. -/
theorem decodePacket_encodePacket {pkt : WirePacket} {bytes : List UInt8}
    (h : encodePacket pkt = .ok bytes) : decodePacket bytes = .ok { pkt with
      header := { pkt.header with payloadLen := .fin pkt.payload.length, reserved := some (.fin 0) } }
    := by
  obtain ⟨headerBytes, hheader, heq⟩ := bind_eq_ok_iff.1 h
  obtain rfl := Except.ok.inj heq
  obtain ⟨hlength, hdecode⟩ := decodeHeader_encodeHeader hheader pkt.payload
  have hbytes : concatBytes [headerBytes, pkt.payload] = headerBytes ++ pkt.payload := by
    simp [concatBytes]
  have hlen : pkt.payload.length < 2 ^ 32 := by
    simp only [encodeHeader, else_eq_ok_iff, not_not, Bool.not_eq_false, JsNum.isUint_iff] at hheader
    obtain ⟨-, -, -, -, -, ⟨k, hk, heq⟩, -⟩ := hheader
    have hnat : pkt.payload.length = k := by exact_mod_cast JsNum.fin.inj heq
    omega
  have htotal : ¬(headerBytes ++ pkt.payload).length < wireHeaderLen + pkt.payload.length := by
    rw [List.length_append, hlength]
    exact Nat.lt_irrefl _
  have hslice : slice (headerBytes ++ pkt.payload) wireHeaderLen pkt.payload.length = pkt.payload :=
    slice_eq (by rw [List.append_nil]) hlength.symm rfl
  rw [hbytes, decodePacket, hdecode]
  show (if _ < wireHeaderLen + (JsNum.fin pkt.payload.length).toUint 32 then _
    else Except.ok (WirePacket.mk _ (slice _ _ ((JsNum.fin pkt.payload.length).toUint 32)))) = _
  rw [JsNum.toUint_natCast, Nat.mod_eq_of_lt hlen, if_neg htotal, hslice]

/-! ## The law -/

/-- A payload of one of the seven kinds of messages. -/
inductive Payload where
  | qry (p : QryPayload)
  | ans (p : AnsPayload)
  | anc (p : AncPayload)
  | not (p : NotPayload)
  | gsp (p : GspPayload)
  | get (p : GetPayload)
  | put (p : PutPayload)
  deriving DecidableEq

namespace Payload

def kind : Payload → MsgType
  | .qry _ => .qry
  | .ans _ => .ans
  | .anc _ => .anc
  | .not _ => .not
  | .gsp _ => .gsp
  | .get _ => .get
  | .put _ => .put

def encode : Payload → Except WireError (List UInt8)
  | .qry p => encodeQRY p
  | .ans p => encodeANS p
  | .anc p => encodeANC p
  | .not p => encodeNOT p
  | .gsp p => encodeGSP p
  | .get p => encodeGET p
  | .put p => encodePUT p

def decode (bytes : List UInt8) : MsgType → Except WireError Payload
  | .qry => (decodeQRY bytes).map .qry
  | .ans => (decodeANS bytes).map .ans
  | .anc => (decodeANC bytes).map .anc
  | .not => (decodeNOT bytes).map .not
  | .gsp => (decodeGSP bytes).map .gsp
  | .get => (decodeGET bytes).map .get
  | .put => (decodePUT bytes).map .put

/-- The 64-bit fields are in range. -/
def InRange : Payload → Prop
  | .qry p => IsU64 p.minSeq
  | .gsp p => IsU64 p.seq ∧ IsU64 p.exp
  | .get (.byNameSeq _ seq) => IsU64 seq
  | _ => True

/-- The payload, with an empty message as an absent one. -/
def normal : Payload → Payload
  | .not p => .not { p with msg := p.msg.filter (· ≠ []) }
  | p => p

/-- A message that starts with a byte order mark. -/
def StartsWithMark : Payload → Prop
  | .not p => ∃ t, p.msg = some (TextDecoder.mark :: t)
  | _ => False

end Payload

theorem received_eq_iff (msg : Option JsText) :
    received msg = msg.filter (· ≠ []) ↔ ¬∃ t, msg = some (TextDecoder.mark :: t) := by
  rcases msg with _ | _ | ⟨c, t⟩
  · exact iff_of_true rfl nofun
  · exact iff_of_true rfl nofun
  · have hfilter : (some (c :: t)).filter (· ≠ []) = some (c :: t) := rfl
    rw [hfilter, received]
    by_cases hc : c = TextDecoder.mark
    · rw [if_pos hc, hc]
      refine iff_of_false (fun h => ?_) fun h => h ⟨t, rfl⟩
      have hlength := congrArg List.length (Option.some.inj h)
      rw [List.length_cons] at hlength
      omega
    · rw [if_neg hc]
      exact iff_of_true rfl fun ⟨t', h⟩ => hc (List.cons.inj (Option.some.inj h)).1

/-- A payload comes back exactly if it is not a message with a byte order mark in front. -/
theorem Payload.decode_encode_iff {p : Payload} {bytes : List UInt8} (hrange : p.InRange)
    (h : p.encode = .ok bytes) :
    Payload.decode bytes p.kind = .ok p.normal ↔ ¬p.StartsWithMark := by
  cases p with
  | qry p => exact iff_of_true (by rw [kind, decode, decodeQRY_encodeQRY h hrange]; rfl) id
  | ans p => exact iff_of_true (by rw [kind, decode, decodeANS_encodeANS h]; rfl) id
  | anc p => exact iff_of_true (by rw [kind, decode, decodeANC_encodeANC h]; rfl) id
  | not p =>
    rw [StartsWithMark, ← received_eq_iff, kind, decode, decodeNOT_encodeNOT h, normal]
    constructor
    · intro heq
      exact congrArg NotPayload.msg (Payload.not.inj (Except.ok.inj heq))
    · intro heq
      rw [heq]
      rfl
  | gsp p => exact iff_of_true (by rw [kind, decode, decodeGSP_encodeGSP h hrange.1 hrange.2]; rfl) id
  | get p =>
    cases p with
    | byNameSeq nameId seq =>
      exact iff_of_true (by rw [kind, decode, decodeGET_byNameSeq h hrange]; rfl) id
    | byHash hash => exact iff_of_true (by rw [kind, decode, decodeGET_byHash h]; rfl) id
  | put p => exact iff_of_true (by rw [kind, decode, decodePUT_encodePUT h]; rfl) id

namespace WirePacket

/-- The packet, with zero for an absent reserved field. -/
def normal (pkt : WirePacket) : WirePacket :=
  { pkt with header := { pkt.header with reserved := some (pkt.header.reserved.getD (.fin 0)) } }

/-- The header is as its comments ask for: it has the length of the payload, and zero in the
reserved field if there is one. -/
structure Documented (pkt : WirePacket) : Prop where
  payloadLen : pkt.header.payloadLen = .fin pkt.payload.length
  reserved : pkt.header.reserved.getD (.fin 0) = .fin 0

theorem decode_encode_iff {pkt : WirePacket} {bytes : List UInt8} (h : encodePacket pkt = .ok bytes) :
    decodePacket bytes = .ok pkt.normal ↔ pkt.Documented := by
  rw [decodePacket_encodePacket h]
  constructor
  · intro heq
    have hheader := congrArg WirePacket.header (Except.ok.inj heq)
    exact ⟨(congrArg WireHeader.payloadLen hheader).symm,
      (Option.some.inj (congrArg WireHeader.reserved hheader)).symm⟩
  · rintro ⟨hlength, hreserved⟩
    rw [normal, hreserved, ← hlength]

end WirePacket

/-! ## SafePacket packets -/

/-- `n` is within a limit that is a number. -/
def Within (n : ℕ) (limit : Option JsNum) : Prop :=
  ∀ m, limit = some m → m ≠ .nan → (JsNum.fin n).le m = true

theorem within_of_not_exceeds {n : ℕ} {limit : Option JsNum} (h : ¬exceeds (.fin n) limit = true) :
    Within n limit := by
  rintro m rfl hm
  cases m with
  | nan => exact absurd rfl hm
  | posInf => rfl
  | negInf => exact absurd rfl h
  | fin q => simpa [exceeds, JsNum.lt, JsNum.le] using h

/-- What `parsePacketSafe` promises of a packet: the header has the length of the payload, and
everything is within the limits. -/
structure SafePacket (L : InForce) (bytes : List UInt8) (pkt : WirePacket) : Prop where
  decoded : decodePacket bytes = .ok pkt
  payloadLen : pkt.header.payloadLen = .fin pkt.payload.length
  packet : Within bytes.length L.maxPacketBytes
  payload : Within pkt.payload.length L.maxPayloadBytes
  ans : pkt.header.msgType = MsgType.ans.code →
    ∃ ans, decodeANS pkt.payload = .ok ans ∧ Within ans.routeset.length L.maxRouteSetBytes
  anc : pkt.header.msgType = MsgType.anc.code →
    ∃ anc, decodeANC pkt.payload = .ok anc ∧ Within anc.anchor.length L.maxAnchorBytes
  not : pkt.header.msgType = MsgType.not.code →
    ∃ notp, decodeNOT pkt.payload = .ok notp ∧
      (notp.msg.any (· ≠ []) → Within (msgBytes notp.msg).length L.maxNotMsgBytes)
  put : pkt.header.msgType = MsgType.put.code →
    ∃ put, decodePUT pkt.payload = .ok put ∧ Within put.routeset.length L.maxRouteSetBytes

section Checks

variable {L : InForce} {pkt : WirePacket}

theorem checkMessage_ans (hcheck : checkMessage L pkt = .ok ())
    (htype : pkt.header.msgType = MsgType.ans.code) :
    ∃ ans, decodeANS pkt.payload = .ok ans ∧ Within ans.routeset.length L.maxRouteSetBytes := by
  rw [checkMessage, if_pos htype] at hcheck
  obtain ⟨ans, hans, hwithin⟩ := bind_eq_ok_iff.1 hcheck
  exact ⟨ans, hans, within_of_not_exceeds (else_eq_ok_iff.1 hwithin).1⟩

theorem checkMessage_anc (hcheck : checkMessage L pkt = .ok ())
    (htype : pkt.header.msgType = MsgType.anc.code) :
    ∃ anc, decodeANC pkt.payload = .ok anc ∧ Within anc.anchor.length L.maxAnchorBytes := by
  rw [checkMessage, htype, if_neg (by decide +kernel), if_pos rfl] at hcheck
  obtain ⟨anc, hanc, hwithin⟩ := bind_eq_ok_iff.1 hcheck
  exact ⟨anc, hanc, within_of_not_exceeds (else_eq_ok_iff.1 hwithin).1⟩

theorem checkMessage_not (hcheck : checkMessage L pkt = .ok ())
    (htype : pkt.header.msgType = MsgType.not.code) : ∃ notp, decodeNOT pkt.payload = .ok notp ∧
      (notp.msg.any (· ≠ []) → Within (msgBytes notp.msg).length L.maxNotMsgBytes) := by
  rw [checkMessage, htype, if_neg (by decide +kernel), if_neg (by decide +kernel), if_pos rfl]
    at hcheck
  obtain ⟨notp, hnotp, hwithin⟩ := bind_eq_ok_iff.1 hcheck
  refine ⟨notp, hnotp, fun hmsg => within_of_not_exceeds fun hexceeds => ?_⟩
  exact (else_eq_ok_iff.1 hwithin).1 ⟨hmsg, hexceeds⟩

theorem checkMessage_put (hcheck : checkMessage L pkt = .ok ())
    (htype : pkt.header.msgType = MsgType.put.code) :
    ∃ put, decodePUT pkt.payload = .ok put ∧ Within put.routeset.length L.maxRouteSetBytes := by
  rw [checkMessage, htype, if_neg (by decide +kernel), if_neg (by decide +kernel),
    if_neg (by decide +kernel), if_pos rfl] at hcheck
  obtain ⟨put, hput, hwithin⟩ := bind_eq_ok_iff.1 hcheck
  exact ⟨put, hput, within_of_not_exceeds (else_eq_ok_iff.1 hwithin).1⟩

theorem parsePacketSafe_safe {bytes : List UInt8} {limits : WireLimits}
    (h : parsePacketSafe bytes limits = .ok pkt) : SafePacket limits.inForce bytes pkt := by
  obtain ⟨hpacket, hrest⟩ := else_eq_ok_iff.1 h
  obtain ⟨pkt', hdecoded, hrest⟩ := bind_eq_ok_iff.1 hrest
  obtain ⟨hpayload, hrest⟩ := else_eq_ok_iff.1 hrest
  obtain ⟨hlength, hrest⟩ := else_eq_ok_iff.1 hrest
  obtain ⟨u, hcheck, heq⟩ := bind_eq_ok_iff.1 hrest
  obtain rfl := Except.ok.inj heq
  have hlen := (not_not.1 hlength).symm
  rw [hlen] at hpayload
  exact ⟨hdecoded, hlen, within_of_not_exceeds hpacket, within_of_not_exceeds hpayload,
    checkMessage_ans hcheck, checkMessage_anc hcheck, checkMessage_not hcheck,
    checkMessage_put hcheck⟩

end Checks

/-- **Exactly what comes back.** A payload in range is read back from its bytes, if and only if it
is not a message that starts with a byte order mark; a packet is, if and only if its header is as
documented; a packet that is accepted has the length of its payload and is within the limits. -/
theorem codecs_iff (p : Payload) (pkt parsed : WirePacket) (limits : WireLimits)
    (bytes : List UInt8) :
    (p.InRange → p.encode = .ok bytes →
      (Payload.decode bytes p.kind = .ok p.normal ↔ ¬p.StartsWithMark)) ∧
    (encodePacket pkt = .ok bytes → (decodePacket bytes = .ok pkt.normal ↔ pkt.Documented)) ∧
    (parsePacketSafe bytes limits = .ok parsed → SafePacket limits.inForce bytes parsed) :=
  ⟨fun hrange h => Payload.decode_encode_iff hrange h,
    fun h => WirePacket.decode_encode_iff h, fun h => parsePacketSafe_safe h⟩

/-! ## A message that starts with a byte order mark -/

/-- A message with its code and its retry time. -/
def exampleNot (msg : JsText) : Payload := .not ⟨.fin 3, .fin 15, some msg⟩

/-- A packet without a payload. -/
def examplePacket : WirePacket := ⟨⟨wireVersion, .fin 1, .fin 0, .fin 0, .fin 0, .fin 0, none⟩, []⟩

/-- Without the mark, the message comes back. -/
theorem exampleNot_decoded : ∃ bytes, (exampleNot ['A']).encode = .ok bytes ∧
    Payload.decode bytes .not = .ok (exampleNot ['A']) := by
  refine ⟨[3, 0, 15, 0, 0, 0, 1, 0, 65], by decide +kernel, ?_⟩
  have hcodecs := codecs_iff (exampleNot ['A']) examplePacket examplePacket {}
    [3, 0, 15, 0, 0, 0, 1, 0, 65]
  refine (hcodecs.1 trivial (by decide +kernel)).2 ?_
  rintro ⟨t, h⟩
  exact absurd (Option.some.inj h) (by simp [TextDecoder.mark])

/-- The mark is written and not read back. -/
theorem exampleNot_lost : ¬∀ (p : Payload) bytes, p.InRange → p.encode = .ok bytes →
    Payload.decode bytes p.kind = .ok p.normal := by
  intro h
  have hdecode := h (exampleNot [TextDecoder.mark, 'A'])
    [3, 0, 15, 0, 0, 0, 4, 0, 0xef, 0xbb, 0xbf, 65] trivial (by decide +kernel)
  revert hdecode
  decide +kernel

end Ddns.Core
