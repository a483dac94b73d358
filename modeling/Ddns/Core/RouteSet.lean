import Ddns.Core.Bytes
import Mathlib.Data.Set.List

/-!
# Route sets

The records of a name and their bytes (`core/src/outeset.ts`). The encoder checks its numbers and
lengths and sorts the records; the decoder reads what the length fields say. A `RouteSet` is a value
that fits its fields: what the encoder writes are the bytes of such a value (`encode_eq_ok_iff`), and
the decoder finds it in them (`decode_bytes`).
-/

namespace Ddns.Core

open Bytes

structure RecordV1 where
  rrType : JsNum
  rrClass : JsNum
  ttl : JsNum
  rdata : List UInt8
  deriving DecidableEq

structure RouteSetV1 where
  nsId : JsNum
  nameId : List UInt8
  seq : ℤ
  exp : ℤ
  records : JsArray RecordV1
  ownerPub : List UInt8
  sig : Option (List UInt8)
  deriving DecidableEq

inductive EncodeError where
  | nameIdMustBe32Bytes
  | ownerPubMustBe32Bytes
  | nsIdOutOfRange
  | sigMustBe64Bytes
  | rrTypeOutOfRange
  | rrClassOutOfRange
  | ttlOutOfRange
  | rdataTooLong
  deriving DecidableEq, Repr

/-- `RSET` -/
def routeSetMagic : List UInt8 := ascii ['R', 'S', 'E', 'T']

/-! ## Encoding -/

/-- The comparator of `sortRecordsCanonical`. -/
def compareRecords (a b : RecordV1) : JsNum :=
  if a.rrType.strictEq b.rrType = false then a.rrType.sub b.rrType
  else if a.ttl.strictEq b.ttl = false then a.ttl.sub b.ttl
  else .fin (compareBytes a.rdata b.rdata)

def sortRecordsCanonical (recs : List RecordV1) : List RecordV1 := jsSort compareRecords recs

def encodeRecord (r : RecordV1) : Except EncodeError (List UInt8) :=
  if r.rrType.isUint 0xffff = false then .error .rrTypeOutOfRange
  else if r.rrClass.isUint 0xffff = false then .error .rrClassOutOfRange
  else if r.ttl.isUint 0xffffffff = false then .error .ttlOutOfRange
  else if r.rdata.length > 0xffff then .error .rdataTooLong
  else .ok (u16le r.rrType ++ (u16le r.rrClass ++ (u32le r.ttl ++
    (u16le (.fin r.rdata.length) ++ r.rdata))))

def encodeRouteSetV1 (rs : RouteSetV1) (canonicalize : Bool) : Except EncodeError (List UInt8) :=
  if rs.nameId.length ≠ 32 then .error .nameIdMustBe32Bytes
  else if rs.ownerPub.length ≠ 32 then .error .ownerPubMustBe32Bytes
  else if rs.nsId.isUint 0xffffffff = false then .error .nsIdOutOfRange
  else if rs.sig.any (·.length ≠ 64) then .error .sigMustBe64Bytes
  else
    let records := if canonicalize then sortRecordsCanonical rs.records else rs.records
    match records.mapM encodeRecord with
    | .error e => .error e
    | .ok recParts =>
      let header := routeSetMagic ++ ([1] ++ (u32le rs.nsId ++ (rs.nameId ++ (u64le rs.seq ++
        (u64le rs.exp ++ u32le (.fin records.length))))))
      let body := recParts.flatten ++ rs.ownerPub
      .ok (header ++ body ++ rs.sig.getD [])

/-! ## Decoding -/

def decodeRecord : Reader DecodeError RecordV1 := do
  let rrType ← readU16le
  let rrClass ← readU16le
  let ttl ← readU32le
  let rlen ← readU16le
  let rdata ← Reader.bytes rlen
  return ⟨.fin rrType, .fin rrClass, .fin ttl, rdata⟩

/-- The part before the signature. -/
def decodeUnsigned : Reader DecodeError RouteSetV1 := do
  readMagic routeSetMagic
  let nsId ← readU32le
  let nameId ← Reader.bytes 32
  let seq ← readU64le
  let exp ← readU64le
  let recordCount ← readU32le
  let records ← decodeRecord.many recordCount
  let records ← toArray records
  let ownerPub ← Reader.bytes 32
  return ⟨.fin nsId, nameId, seq, exp, records, ownerPub, none⟩

def decodeRouteSetV1 (bytes : List UInt8) : Except DecodeError RouteSetV1 :=
  match decodeUnsigned bytes 0 with
  | .error e => .error e
  | .ok (rs, off) => .ok { rs with sig := readSig bytes off }

/-! ## Values that fit -/

/-- A record that fits its fields. -/
structure Record where
  rrType : ℕ
  rrClass : ℕ
  ttl : ℕ
  rdata : List UInt8
  rrType_lt : rrType < 2 ^ 16
  rrClass_lt : rrClass < 2 ^ 16
  ttl_lt : ttl < 2 ^ 32
  rdata_lt : rdata.length < 2 ^ 16

/-- A route set that fits its fields. -/
structure RouteSet where
  nsId : ℕ
  nameId : List UInt8
  seq : ℕ
  exp : ℕ
  records : List Record
  ownerPub : List UInt8
  sig : Option (List UInt8)
  nsId_lt : nsId < 2 ^ 32
  nameId_length : nameId.length = 32
  seq_lt : seq < 2 ^ 64
  exp_lt : exp < 2 ^ 64
  records_lt : records.length < 2 ^ 32
  ownerPub_length : ownerPub.length = 32
  sig_length : ∀ s ∈ sig, s.length = 64

def Record.toV1 (r : Record) : RecordV1 := ⟨.fin r.rrType, .fin r.rrClass, .fin r.ttl, r.rdata⟩

def Record.bytes (r : Record) : List UInt8 :=
  toLe 2 r.rrType ++ (toLe 2 r.rrClass ++ (toLe 4 r.ttl ++ (toLe 2 r.rdata.length ++ r.rdata)))

namespace RouteSet

variable (w : RouteSet)

def toV1 : RouteSetV1 where
  nsId := .fin w.nsId
  nameId := w.nameId
  seq := w.seq
  exp := w.exp
  records := ⟨w.records.map Record.toV1, by rw [List.length_map]; exact w.records_lt⟩
  ownerPub := w.ownerPub
  sig := w.sig

/-- The bytes up to the records. -/
def header : List UInt8 :=
  routeSetMagic ++ ([1] ++ (toLe 4 w.nsId ++ (w.nameId ++ (toLe 8 w.seq ++ (toLe 8 w.exp ++
    toLe 4 w.records.length)))))

/-- The bytes up to the signature. -/
def unsigned : List UInt8 := w.header ++ (w.records.flatMap Record.bytes ++ w.ownerPub)

def bytes : List UInt8 := w.unsigned ++ w.sig.getD []

end RouteSet

/-! ## What is written is found -/

theorem finds_decodeRecord (r : Record) : Finds decodeRecord r.bytes r.toV1 := by
  rw [Record.bytes, ← List.append_nil r.rdata]
  refine (finds_readU16le r.rrType_lt).bind ?_
  refine (finds_readU16le r.rrClass_lt).bind ?_
  refine (finds_readU32le r.ttl_lt).bind ?_
  rw [List.append_nil]
  refine (finds_readU16le r.rdata_lt).bind ?_
  rw [← List.append_nil r.rdata]
  exact (finds_bytes_of_length (by rw [List.append_nil])).bind (Finds.pure _)

theorem finds_decodeUnsigned (w : RouteSet) :
    Finds decodeUnsigned w.unsigned { w.toV1 with sig := none } := by
  have hbytes : w.unsigned = (routeSetMagic ++ ([1] ++ [])) ++ (toLe 4 w.nsId ++ (w.nameId ++
      (toLe 8 w.seq ++ (toLe 8 w.exp ++ (toLe 4 w.records.length ++
        (w.records.flatMap Record.bytes ++ ([] ++ (w.ownerPub ++ []))))))))  := by
    simp [RouteSet.unsigned, RouteSet.header]
  rw [hbytes]
  refine (finds_readMagic rfl).bind ?_
  refine (finds_readU32le w.nsId_lt).bind ?_
  refine (finds_bytes_of_length w.nameId_length).bind ?_
  refine (finds_readU64le w.seq_lt).bind ?_
  refine (finds_readU64le w.exp_lt).bind ?_
  refine (finds_readU32le w.records_lt).bind ?_
  refine (Finds.many fun r _ => finds_decodeRecord r).bind ?_
  refine (finds_toArray w.toV1.records).bind ?_
  exact (finds_bytes_of_length w.ownerPub_length).bind (Finds.pure _)

/-- **The decoder finds the value** that was written. -/
theorem decode_bytes (w : RouteSet) : decodeRouteSetV1 w.bytes = .ok w.toV1 := by
  have hfind := finds_decodeUnsigned w [] (w.sig.getD [])
  rw [List.nil_append, List.length_nil, Nat.zero_add] at hfind
  unfold decodeRouteSetV1 RouteSet.bytes
  rw [hfind]
  exact congrArg (fun sig => Except.ok { w.toV1 with sig := sig }) (readSig_append w.sig_length)

/-! ## What the encoder writes -/

/-- The list that the encoder goes through. -/
def encoded (rs : RouteSetV1) (canonicalize : Bool) : List RecordV1 :=
  if canonicalize then sortRecordsCanonical rs.records else rs.records

/-- The route set, in the order of the encoder, is the value `w`; the 64-bit integers are brought
into their range. -/
structure Encodes (rs : RouteSetV1) (canonicalize : Bool) (w : RouteSet) : Prop where
  nsId : rs.nsId = .fin w.nsId
  nameId : rs.nameId = w.nameId
  seq : w.seq = (rs.seq % 2 ^ 64).toNat
  exp : w.exp = (rs.exp % 2 ^ 64).toNat
  records : encoded rs canonicalize = w.records.map Record.toV1
  ownerPub : rs.ownerPub = w.ownerPub
  sig : rs.sig = w.sig

/-- A record passes the checks of the encoder. -/
structure CheckedRecord (r : RecordV1) : Prop where
  rrType : r.rrType.isUint 0xffff = true
  rrClass : r.rrClass.isUint 0xffff = true
  ttl : r.ttl.isUint 0xffffffff = true
  rdata : r.rdata.length ≤ 0xffff

/-- A route set passes the checks of the encoder. -/
structure Checked (rs : RouteSetV1) : Prop where
  nameId : rs.nameId.length = 32
  ownerPub : rs.ownerPub.length = 32
  nsId : rs.nsId.isUint 0xffffffff = true
  sig : ∀ s ∈ rs.sig, s.length = 64
  records : ∀ r ∈ rs.records.1, CheckedRecord r

theorem Record.checked (w : Record) : CheckedRecord w.toV1 where
  rrType := JsNum.isUint_iff.2 ⟨w.rrType, Nat.le_of_lt_succ w.rrType_lt, rfl⟩
  rrClass := JsNum.isUint_iff.2 ⟨w.rrClass, Nat.le_of_lt_succ w.rrClass_lt, rfl⟩
  ttl := JsNum.isUint_iff.2 ⟨w.ttl, Nat.le_of_lt_succ w.ttl_lt, rfl⟩
  rdata := Nat.le_of_lt_succ w.rdata_lt

theorem CheckedRecord.exists_eq {r : RecordV1} (h : CheckedRecord r) : ∃ w : Record, w.toV1 = r := by
  obtain ⟨t, ht, htype⟩ := JsNum.isUint_iff.1 h.rrType
  obtain ⟨c, hc, hclass⟩ := JsNum.isUint_iff.1 h.rrClass
  obtain ⟨l, hl, httl⟩ := JsNum.isUint_iff.1 h.ttl
  refine ⟨⟨t, c, l, r.rdata, Nat.lt_succ_of_le ht, Nat.lt_succ_of_le hc, Nat.lt_succ_of_le hl,
    Nat.lt_succ_of_le h.rdata⟩, ?_⟩
  cases r
  cases htype
  cases hclass
  cases httl
  rfl

theorem encodeRecord_toV1 (w : Record) : encodeRecord w.toV1 = .ok w.bytes := by
  have hchecked := w.checked
  have hrdata : ¬w.rdata.length > 0xffff := not_lt.2 hchecked.rdata
  unfold encodeRecord Record.bytes
  rw [if_neg (by rw [hchecked.rrType]; decide), if_neg (by rw [hchecked.rrClass]; decide),
    if_neg (by rw [hchecked.ttl]; decide), if_neg (by exact hrdata)]
  unfold Record.toV1
  rw [u16le_natCast w.rrType_lt, u16le_natCast w.rrClass_lt, u32le_natCast w.ttl_lt,
    u16le_natCast w.rdata_lt]

theorem checkedRecord_of_encode {r : RecordV1} {bs : List UInt8} (h : encodeRecord r = .ok bs) :
    CheckedRecord r := by
  unfold encodeRecord at h
  split at h
  · cases h
  · next htype =>
    split at h
    · cases h
    · next hclass =>
      split at h
      · cases h
      · next httl =>
        split at h
        · cases h
        · next hrdata =>
          exact ⟨Bool.not_eq_false _ ▸ htype, Bool.not_eq_false _ ▸ hclass,
            Bool.not_eq_false _ ▸ httl, not_lt.1 hrdata⟩

theorem mapM_encodeRecord (ws : List Record) :
    (ws.map Record.toV1).mapM encodeRecord = .ok (ws.map Record.bytes) := by
  induction ws with
  | nil => rfl
  | cons w ws ih =>
    rw [List.map_cons, List.mapM_cons, encodeRecord_toV1, ih]
    rfl

theorem checkedRecord_of_mapM {recs : List RecordV1} {parts : List (List UInt8)}
    (h : recs.mapM encodeRecord = .ok parts) : ∀ r ∈ recs, CheckedRecord r := by
  induction recs generalizing parts with
  | nil => exact nofun
  | cons r recs ih =>
    rw [List.mapM_cons] at h
    cases hr : encodeRecord r with
    | error e =>
      rw [hr] at h
      cases h
    | ok bs =>
      rw [hr] at h
      cases hrecs : recs.mapM encodeRecord with
      | error e =>
        rw [hrecs] at h
        cases h
      | ok parts' =>
        intro r' hr'
        rcases List.mem_cons.1 hr' with rfl | hr'
        · exact checkedRecord_of_encode hr
        · exact ih hrecs r' hr'

theorem encoded_perm (rs : RouteSetV1) (c : Bool) : (encoded rs c).Perm rs.records.1 := by
  unfold encoded
  split
  · exact jsSort_perm _ _
  · exact List.Perm.refl _

theorem encoded_lt (rs : RouteSetV1) (c : Bool) : (encoded rs c).length < 2 ^ 32 :=
  (encoded_perm rs c).length_eq ▸ rs.records.2

theorem checked_of_encode {rs : RouteSetV1} {c : Bool} {bs : List UInt8}
    (h : encodeRouteSetV1 rs c = .ok bs) : Checked rs := by
  unfold encodeRouteSetV1 at h
  split at h
  · cases h
  · next hname =>
    split at h
    · cases h
    · next howner =>
      split at h
      · cases h
      · next hns =>
        split at h
        · cases h
        · next hsig =>
          dsimp only at h
          split at h
          · cases h
          · next parts hparts =>
            refine ⟨not_not.1 hname, not_not.1 howner, Bool.not_eq_false _ ▸ hns, sig_ok_iff.1 hsig,
              fun r hr => ?_⟩
            exact checkedRecord_of_mapM hparts r ((encoded_perm rs c).mem_iff.2 hr)

/-- A route set that passes the checks fits. -/
theorem Checked.encodes {rs : RouteSetV1} (h : Checked rs) (c : Bool) :
    ∃ w : RouteSet, Encodes rs c w := by
  obtain ⟨n, hn, hns⟩ := JsNum.isUint_iff.1 h.nsId
  have hrecords : encoded rs c ∈ Set.range (List.map Record.toV1) := by
    rw [Set.range_list_map]
    exact fun r hr => (h.records r ((encoded_perm rs c).mem_iff.1 hr)).exists_eq
  obtain ⟨ws, hws⟩ := hrecords
  have hlen : ws.length < 2 ^ 32 := by
    have hlt := encoded_lt rs c
    rw [← hws, List.length_map] at hlt
    exact hlt
  exact ⟨{
    nsId := n, nameId := rs.nameId, seq := (rs.seq % 2 ^ 64).toNat
    exp := (rs.exp % 2 ^ 64).toNat, records := ws, ownerPub := rs.ownerPub, sig := rs.sig
    nsId_lt := Nat.lt_succ_of_le hn
    nameId_length := h.nameId
    seq_lt := u64_lt _
    exp_lt := u64_lt _
    records_lt := hlen
    ownerPub_length := h.ownerPub
    sig_length := h.sig }, hns, rfl, rfl, rfl, hws.symm, rfl, rfl⟩

theorem Encodes.encode {rs : RouteSetV1} {c : Bool} {w : RouteSet} (h : Encodes rs c w) :
    encodeRouteSetV1 rs c = .ok w.bytes := by
  have hname : ¬rs.nameId.length ≠ 32 := not_not.2 (h.nameId ▸ w.nameId_length)
  have howner : ¬rs.ownerPub.length ≠ 32 := not_not.2 (h.ownerPub ▸ w.ownerPub_length)
  have hns : ¬rs.nsId.isUint 0xffffffff = false := by
    rw [h.nsId, JsNum.isUint_iff.2 ⟨w.nsId, Nat.le_of_lt_succ w.nsId_lt, rfl⟩]
    decide
  have hsig : ¬(rs.sig.any fun s => s.length ≠ 64) = true := sig_ok_iff.2 (h.sig ▸ w.sig_length)
  have hparts : (encoded rs c).mapM encodeRecord = .ok (w.records.map Record.bytes) := by
    rw [h.records, mapM_encodeRecord]
  have hns32 : u32le rs.nsId = toLe 4 w.nsId := h.nsId ▸ u32le_natCast w.nsId_lt
  have hcount : u32le (.fin (encoded rs c).length) = toLe 4 w.records.length := by
    rw [h.records, List.length_map, u32le_natCast w.records_lt]
  unfold encodeRouteSetV1
  dsimp only
  rw [if_neg hname, if_neg howner, if_neg hns, if_neg hsig]
  show (match (encoded rs c).mapM encodeRecord with
    | .error e => Except.error e
    | .ok recParts => Except.ok (routeSetMagic ++ ([1] ++ (u32le rs.nsId ++ (rs.nameId ++ (u64le rs.seq ++
        (u64le rs.exp ++ u32le (.fin (encoded rs c).length)))))) ++
          (recParts.flatten ++ rs.ownerPub) ++ rs.sig.getD [])) = _
  rw [hparts, hns32, hcount]
  simp [RouteSet.bytes, RouteSet.unsigned, RouteSet.header, u64le, List.flatMap, h.nameId, h.seq,
    h.exp, h.ownerPub, h.sig]

/-- **The encoder writes values that fit**, and nothing else. -/
theorem encode_eq_ok_iff {rs : RouteSetV1} {c : Bool} {bs : List UInt8} :
    encodeRouteSetV1 rs c = .ok bs ↔ ∃ w : RouteSet, Encodes rs c w ∧ bs = w.bytes := by
  constructor
  · intro h
    obtain ⟨w, hw⟩ := (checked_of_encode h).encodes c
    exact ⟨w, hw, Except.ok.inj (h.symm.trans hw.encode)⟩
  · rintro ⟨w, hw, rfl⟩
    exact hw.encode

/-- A value that fits is encoded as it stands, without sorting. -/
theorem RouteSet.encodes (w : RouteSet) : Encodes w.toV1 false w where
  nsId := rfl
  nameId := rfl
  seq := by
    have hlt := w.seq_lt
    show w.seq = ((w.seq : ℤ) % 2 ^ 64).toNat
    omega
  exp := by
    have hlt := w.exp_lt
    show w.exp = ((w.exp : ℤ) % 2 ^ 64).toNat
    omega
  records := rfl
  ownerPub := rfl
  sig := rfl

end Ddns.Core
