import Ddns.Lib.Reader
import Ddns.Lib.Js
import Ddns.Escrow.Verification

/-!
# Vouchers off the chain

Clients build and read vouchers with `escrow_utils`, which writes out the bytes of a voucher by
hand; the program reads them with Borsh. Both have one layout (`encodeVoucherV1_eq`), in both
directions (`encodeVoucherV1_decodeVoucherV1`), and sign one message (`voucherMessage_eq`). A
definition without a docstring is the item of the source with the same words in its name.
-/

namespace Ddns.Escrow

/-! ## The scripts -/

/-- What the scripts throw; `writeBigUInt64LE` throws for an integer that is no `u64`. -/
inductive VoucherError where
  | nameHashLength
  | contextHashLength
  | outOfRange
  | voucherLength (length : Nat)
  deriving DecidableEq, Repr

/-- The arguments of `encodeVoucherV1`, with hashes of any length and integers of any size. -/
structure VoucherArgs where
  payer : Pubkey
  nameHash : List UInt8
  amount : Int
  mint : Pubkey
  nonce : Int
  validAfterSlot : Int
  expiresAtSlot : Int
  contextHash : List UInt8
  deriving DecidableEq, Repr

/-- What `decodeVoucherV1` returns. -/
structure DecodedVoucher extends VoucherArgs where
  version : Nat
  voucherType : Nat
  deriving DecidableEq, Repr

def u64ToLe (n : Int) : Except VoucherError (List UInt8) :=
  if 0 ≤ n ∧ n < 2 ^ 64 then .ok (Bytes.toLe 8 n.toNat) else .error .outOfRange

def encodeVoucherV1 (args : VoucherArgs) : Except VoucherError (List UInt8) := do
  if args.nameHash.length ≠ 32 then .error .nameHashLength
  if args.contextHash.length ≠ 32 then .error .contextHashLength
  let amount ← u64ToLe args.amount
  let nonce ← u64ToLe args.nonce
  let validAfterSlot ← u64ToLe args.validAfterSlot
  let expiresAtSlot ← u64ToLe args.expiresAtSlot
  pure ([[1], [0], toBytes args.payer, args.nameHash, amount, toBytes args.mint, nonce,
    validAfterSlot, expiresAtSlot, args.contextHash].flatten)

def voucherMessage (sha256 : List UInt8 → Hash) (voucherBytes : List UInt8) : List UInt8 :=
  toBytes (sha256 (JsText.utf8 "DDNS_VOUCHER_V1".toList ++ voucherBytes))

def decodeVoucherV1 (buf : List UInt8) : Except VoucherError DecodedVoucher :=
  if buf.length ≠ 162 then .error (.voucherLength buf.length)
  else
    .ok {
      version := Bytes.leNat (Bytes.slice buf 0 1)
      voucherType := Bytes.leNat (Bytes.slice buf 1 1)
      payer := ofBytes (Bytes.slice buf 2 32)
      nameHash := Bytes.slice buf 34 32
      amount := Bytes.leNat (Bytes.slice buf 66 8)
      mint := ofBytes (Bytes.slice buf 74 32)
      nonce := Bytes.leNat (Bytes.slice buf 106 8)
      validAfterSlot := Bytes.leNat (Bytes.slice buf 114 8)
      expiresAtSlot := Bytes.leNat (Bytes.slice buf 122 8)
      contextHash := Bytes.slice buf 130 32 }

/-! ## The layout of the program -/

/-- The fields of a voucher in the order of their declaration, with their widths. -/
def VoucherV1.fields (v : VoucherV1) : List (Nat × Nat) :=
  [(1, v.version), (1, v.voucherType), (32, v.payer.toNat), (32, v.nameHash.toNat), (8, v.amount),
    (32, v.mint.toNat), (8, v.nonce), (8, v.validAfterSlot), (8, v.expiresAtSlot),
    (32, v.contextHash.toNat)]

/-- The Borsh serialisation of a voucher. -/
def VoucherV1.serialize (v : VoucherV1) : List UInt8 := Bytes.layout v.fields

/-- The values of a voucher have the types that the program declares. -/
structure VoucherV1.Typed (v : VoucherV1) : Prop where
  version : v.version < 2 ^ 8
  voucherType : v.voucherType < 2 ^ 8
  amount : v.amount < 2 ^ 64
  nonce : v.nonce < 2 ^ 64
  validAfterSlot : v.validAfterSlot < 2 ^ 64
  expiresAtSlot : v.expiresAtSlot < 2 ^ 64

/-- Hashes of 32 bytes, and integers that are a `u64`. -/
structure VoucherArgs.Valid (v : VoucherArgs) : Prop where
  nameHash : v.nameHash.length = 32
  contextHash : v.contextHash.length = 32
  amount : 0 ≤ v.amount ∧ v.amount < 2 ^ 64
  nonce : 0 ≤ v.nonce ∧ v.nonce < 2 ^ 64
  validAfterSlot : 0 ≤ v.validAfterSlot ∧ v.validAfterSlot < 2 ^ 64
  expiresAtSlot : 0 ≤ v.expiresAtSlot ∧ v.expiresAtSlot < 2 ^ 64

/-- The voucher of version 1 and type 0 with these values. -/
def VoucherArgs.onChain (v : VoucherArgs) : VoucherV1 where
  version := 1
  voucherType := 0
  payer := v.payer
  nameHash := ofBytes v.nameHash
  amount := v.amount.toNat
  mint := v.mint
  nonce := v.nonce.toNat
  validAfterSlot := v.validAfterSlot.toNat
  expiresAtSlot := v.expiresAtSlot.toNat
  contextHash := ofBytes v.contextHash

/-- What the scripts call a voucher of the program. -/
def VoucherV1.decoded (v : VoucherV1) : DecodedVoucher where
  version := v.version
  voucherType := v.voucherType
  payer := v.payer
  nameHash := toBytes v.nameHash
  amount := v.amount
  mint := v.mint
  nonce := v.nonce
  validAfterSlot := v.validAfterSlot
  expiresAtSlot := v.expiresAtSlot
  contextHash := toBytes v.contextHash

section

variable {v : VoucherV1} {a : VoucherArgs} {bs : List UInt8}

theorem VoucherV1.length_serialize (v : VoucherV1) : v.serialize.length = 162 :=
  Bytes.length_layout v.fields

/-- A field of the serialisation, at its offset. -/
theorem VoucherV1.slice_serialize (before : List (Nat × Nat)) {after : List (Nat × Nat)} {n x : Nat}
    (h : v.fields = before ++ (n, x) :: after) :
    Bytes.slice v.serialize (Bytes.width before) n = Bytes.toLe n x := by
  have hslice := Bytes.slice_layout [] [] before after n x
  rw [← h, List.length_nil, Nat.zero_add, List.nil_append, List.append_nil] at hslice
  exact hslice

theorem leNat_toLe_of_lt {n x : Nat} (h : x < 256 ^ n) : Bytes.leNat (Bytes.toLe n x) = x := by
  rw [Bytes.leNat_toLe, Nat.mod_eq_of_lt h]

/-- The scripts read the serialisation back. -/
theorem decodeVoucherV1_serialize (hv : v.Typed) :
    decodeVoucherV1 v.serialize = .ok v.decoded := by
  have hversion : Bytes.slice v.serialize 0 1 = Bytes.toLe 1 v.version :=
    VoucherV1.slice_serialize [] rfl
  have htype : Bytes.slice v.serialize 1 1 = Bytes.toLe 1 v.voucherType :=
    VoucherV1.slice_serialize (v.fields.take 1) rfl
  have hpayer : Bytes.slice v.serialize 2 32 = toBytes v.payer :=
    VoucherV1.slice_serialize (v.fields.take 2) rfl
  have hname : Bytes.slice v.serialize 34 32 = toBytes v.nameHash :=
    VoucherV1.slice_serialize (v.fields.take 3) rfl
  have hamount : Bytes.slice v.serialize 66 8 = Bytes.toLe 8 v.amount :=
    VoucherV1.slice_serialize (v.fields.take 4) rfl
  have hmint : Bytes.slice v.serialize 74 32 = toBytes v.mint :=
    VoucherV1.slice_serialize (v.fields.take 5) rfl
  have hnonce : Bytes.slice v.serialize 106 8 = Bytes.toLe 8 v.nonce :=
    VoucherV1.slice_serialize (v.fields.take 6) rfl
  have hafter : Bytes.slice v.serialize 114 8 = Bytes.toLe 8 v.validAfterSlot :=
    VoucherV1.slice_serialize (v.fields.take 7) rfl
  have hexpires : Bytes.slice v.serialize 122 8 = Bytes.toLe 8 v.expiresAtSlot :=
    VoucherV1.slice_serialize (v.fields.take 8) rfl
  have hcontext : Bytes.slice v.serialize 130 32 = toBytes v.contextHash :=
    VoucherV1.slice_serialize (v.fields.take 9) rfl
  rw [decodeVoucherV1, if_neg (not_not.2 v.length_serialize), hversion, htype, hpayer, hname,
    hamount, hmint, hnonce, hafter, hexpires, hcontext, ofBytes_toBytes, ofBytes_toBytes,
    leNat_toLe_of_lt (n := 1) hv.version, leNat_toLe_of_lt (n := 1) hv.voucherType,
    leNat_toLe_of_lt hv.amount,
    leNat_toLe_of_lt hv.nonce, leNat_toLe_of_lt hv.validAfterSlot,
    leNat_toLe_of_lt hv.expiresAtSlot]
  rfl

theorem VoucherArgs.Valid.typed (ha : a.Valid) : a.onChain.Typed where
  version := Nat.one_lt_two_pow (by decide)
  voucherType := Nat.two_pow_pos 8
  amount := by have h := ha.amount; show a.amount.toNat < _; omega
  nonce := by have h := ha.nonce; show a.nonce.toNat < _; omega
  validAfterSlot := by have h := ha.validAfterSlot; show a.validAfterSlot.toNat < _; omega
  expiresAtSlot := by have h := ha.expiresAtSlot; show a.expiresAtSlot.toNat < _; omega

/-- The voucher on the chain is the one that was meant. -/
theorem VoucherArgs.Valid.decoded_onChain (ha : a.Valid) :
    a.onChain.decoded = { a with version := 1, voucherType := 0 } := by
  simp only [VoucherV1.decoded, VoucherArgs.onChain, toBytes_ofBytes ha.nameHash,
    toBytes_ofBytes ha.contextHash, Int.toNat_of_nonneg ha.amount.1,
    Int.toNat_of_nonneg ha.nonce.1, Int.toNat_of_nonneg ha.validAfterSlot.1,
    Int.toNat_of_nonneg ha.expiresAtSlot.1]

theorem u64ToLe_of_valid {n : Int} (h : 0 ≤ n ∧ n < 2 ^ 64) :
    u64ToLe n = .ok (Bytes.toLe 8 n.toNat) := if_pos h

/-- What the scripts write is the serialisation of the voucher. -/
theorem encodeVoucherV1_eq (ha : a.Valid) : encodeVoucherV1 a = .ok a.onChain.serialize := by
  have hlayout : a.onChain.serialize = [[1], [0], toBytes a.payer, a.nameHash,
      Bytes.toLe 8 a.amount.toNat, toBytes a.mint, Bytes.toLe 8 a.nonce.toNat,
      Bytes.toLe 8 a.validAfterSlot.toNat, Bytes.toLe 8 a.expiresAtSlot.toNat,
      a.contextHash].flatten := by
    rw [← toBytes_ofBytes ha.nameHash, ← toBytes_ofBytes ha.contextHash]
    rfl
  unfold encodeVoucherV1
  rw [if_neg (not_not.2 ha.nameHash), if_neg (not_not.2 ha.contextHash), u64ToLe_of_valid ha.amount,
    u64ToLe_of_valid ha.nonce, u64ToLe_of_valid ha.validAfterSlot,
    u64ToLe_of_valid ha.expiresAtSlot, hlayout]
  rfl

theorem VoucherV1.decoded_injective : Function.Injective VoucherV1.decoded := by
  rintro ⟨_, _, _, _, _, _, _, _, _, _⟩ ⟨_, _, _, _, _, _, _, _, _, _⟩ h
  simp only [VoucherV1.decoded, DecodedVoucher.mk.injEq, VoucherArgs.mk.injEq, Int.natCast_inj,
    toBytes_injective.eq_iff] at h
  obtain ⟨⟨rfl, rfl, rfl, rfl, rfl, rfl, rfl, rfl⟩, rfl, rfl⟩ := h
  rfl

theorem spans_toBytes {off : Nat} (h : off + 32 ≤ bs.length) :
    Bytes.Spans bs off (toBytes (ofBytes (Bytes.slice bs off 32))) (off + 32) := by
  rw [toBytes_ofBytes (Bytes.length_slice h)]
  exact Bytes.spans_slice h

/-- The program and the scripts read one voucher from a byte string of the right length, and the
byte string is its serialisation. -/
theorem tryFromSlice_of_length (h : bs.length = 162) : ∃ v : VoucherV1,
    VoucherV1.tryFromSlice bs = some v ∧ v.Typed ∧ decodeVoucherV1 bs = .ok v.decoded ∧
      v.serialize = bs := by
  refine ⟨_, if_pos h, ?_, ?_, ?_⟩
  · exact {
      version := Bytes.leNat_slice_lt bs 0 1
      voucherType := Bytes.leNat_slice_lt bs 1 1
      amount := Bytes.leNat_slice_lt bs 66 8
      nonce := Bytes.leNat_slice_lt bs 106 8
      validAfterSlot := Bytes.leNat_slice_lt bs 114 8
      expiresAtSlot := Bytes.leNat_slice_lt bs 122 8 }
  · rw [decodeVoucherV1, if_neg (not_not.2 h)]
    simp only [VoucherV1.decoded]
    rw [toBytes_ofBytes (Bytes.length_slice (by omega)),
      toBytes_ofBytes (Bytes.length_slice (by omega))]
  · have hspans := (@Bytes.spans_toLe bs 0 1 (by omega)).append <|
      (Bytes.spans_toLe (n := 1) (by omega)).append <|
      (spans_toBytes (by omega)).append <|
      (spans_toBytes (by omega)).append <|
      (Bytes.spans_toLe (n := 8) (by omega)).append <|
      (spans_toBytes (by omega)).append <|
      (Bytes.spans_toLe (n := 8) (by omega)).append <|
      (Bytes.spans_toLe (n := 8) (by omega)).append <|
      (Bytes.spans_toLe (n := 8) (by omega)).append <|
      (spans_toBytes (by omega)).append (Bytes.Spans.nil bs 162)
    rw [← h] at hspans
    exact hspans.eq.symm

/-- The program reads the serialisation as the scripts do. -/
theorem tryFromSlice_serialize (hv : v.Typed) : VoucherV1.tryFromSlice v.serialize = some v := by
  obtain ⟨w, hw, -, hdecoded, -⟩ := tryFromSlice_of_length v.length_serialize
  rw [decodeVoucherV1_serialize hv, Except.ok.injEq] at hdecoded
  rw [hw, VoucherV1.decoded_injective hdecoded]

theorem VoucherV1.Typed.valid (hv : v.Typed) : v.decoded.toVoucherArgs.Valid where
  nameHash := Bytes.length_toLe 32 _
  contextHash := Bytes.length_toLe 32 _
  amount := ⟨Int.natCast_nonneg _, by have h := hv.amount; show (v.amount : Int) < _; omega⟩
  nonce := ⟨Int.natCast_nonneg _, by have h := hv.nonce; show (v.nonce : Int) < _; omega⟩
  validAfterSlot := ⟨Int.natCast_nonneg _, by
    have h := hv.validAfterSlot
    show (v.validAfterSlot : Int) < _
    omega⟩
  expiresAtSlot := ⟨Int.natCast_nonneg _, by
    have h := hv.expiresAtSlot
    show (v.expiresAtSlot : Int) < _
    omega⟩

/-- Every byte string of version 1 and type 0 is the encoding of what the scripts read from it. -/
theorem encodeVoucherV1_decodeVoucherV1 (h : bs.length = 162)
    (hversion : Bytes.leNat (Bytes.slice bs 0 1) = 1)
    (htype : Bytes.leNat (Bytes.slice bs 1 1) = 0) :
    ∃ d, decodeVoucherV1 bs = .ok d ∧ encodeVoucherV1 d.toVoucherArgs = .ok bs := by
  obtain ⟨v, hv, htyped, hdecoded, hserialize⟩ := tryFromSlice_of_length h
  refine ⟨v.decoded, hdecoded, ?_⟩
  have honChain : v.decoded.onChain = v := by
    apply VoucherV1.decoded_injective
    rw [htyped.valid.decoded_onChain]
    rw [VoucherV1.tryFromSlice, if_pos h, Option.some.injEq] at hv
    rw [← hv]
    simp only [VoucherV1.decoded, hversion, htype]
  rw [encodeVoucherV1_eq htyped.valid, honChain, hserialize]

theorem voucherMessage_eq (dep : Deployment) (bs : List UInt8) :
    voucherMessage dep.sha256 bs = toBytes (hashVoucherMessage dep bs) := rfl

/-- The scripts and the program agree on every voucher of version 1 and type 0: on its bytes, on
what is read from them, and on the message that is signed. -/
theorem voucher_agreement (dep : Deployment) :
    (∀ a : VoucherArgs, a.Valid → ∃ bytes, encodeVoucherV1 a = .ok bytes ∧ bytes.length = 162 ∧
      decodeVoucherV1 bytes = .ok { a with version := 1, voucherType := 0 } ∧
      bytes = a.onChain.serialize ∧ VoucherV1.tryFromSlice bytes = some a.onChain ∧
      voucherMessage dep.sha256 bytes = toBytes (hashVoucherMessage dep bytes)) ∧
    ∀ bytes : List UInt8, bytes.length = 162 → bytes[0]? = some 1 → bytes[1]? = some 0 →
      ∃ d, decodeVoucherV1 bytes = .ok d ∧ d.version = 1 ∧ d.voucherType = 0 ∧
        encodeVoucherV1 d.toVoucherArgs = .ok bytes := by
  constructor
  · intro a ha
    refine ⟨_, encodeVoucherV1_eq ha, VoucherV1.length_serialize _, ?_, rfl,
      tryFromSlice_serialize ha.typed, voucherMessage_eq dep _⟩
    rw [decodeVoucherV1_serialize ha.typed, ha.decoded_onChain]
  · intro bytes h hfirst hsecond
    have hversion : Bytes.leNat (Bytes.slice bytes 0 1) = 1 := by
      obtain ⟨hlt, hbyte⟩ := List.getElem?_eq_some_iff.1 hfirst
      rw [slice_one hlt, hbyte]
      rfl
    have htype : Bytes.leNat (Bytes.slice bytes 1 1) = 0 := by
      obtain ⟨hlt, hbyte⟩ := List.getElem?_eq_some_iff.1 hsecond
      rw [slice_one hlt, hbyte]
      rfl
    obtain ⟨d, hdecoded, hencoded⟩ := encodeVoucherV1_decodeVoucherV1 h hversion htype
    have hd := hdecoded
    rw [decodeVoucherV1, if_neg (not_not.2 h), Except.ok.injEq] at hd
    exact ⟨d, hdecoded, hd ▸ hversion, hd ▸ htype, hencoded⟩

end

/-! ## A voucher -/

/-- A voucher of the largest amount. -/
def exampleVoucher : VoucherArgs where
  payer := 1
  nameHash := toBytes exampleMessage
  amount := 2 ^ 64 - 1
  mint := 2
  nonce := 7
  validAfterSlot := 0
  expiresAtSlot := 100
  contextHash := toBytes 0

/-- The scripts and the program agree on it. -/
theorem exampleVoucher_agreement : exampleVoucher.Valid ∧
    ∃ bytes, encodeVoucherV1 exampleVoucher = .ok bytes ∧ bytes.length = 162 ∧
      VoucherV1.tryFromSlice bytes = some exampleVoucher.onChain := by
  have hvalid : exampleVoucher.Valid := by constructor <;> decide
  obtain ⟨bytes, hencoded, hlength, -, -, hread, -⟩ :=
    (voucher_agreement exampleDeployment).1 exampleVoucher hvalid
  exact ⟨hvalid, bytes, hencoded, hlength, hread⟩

end Ddns.Escrow
