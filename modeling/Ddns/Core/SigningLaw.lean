import Ddns.Core.Canonical
import Ddns.Core.RouteSet
import Ddns.Core.Strictness
import Ddns.Lib.Results

/-!
# Signed route sets and anchors

Route sets and anchors are signed by their owner (`core/src/outeset.ts`, `core/src/anchor.ts`). Both
verifiers find the signature by reading the record from its start, and what it should sign by
counting 64 bytes from its end.
-/

namespace Ddns.Core

open Bytes

/-! ## Ed25519 -/

/-- Ed25519, with keys of 32 bytes and signatures of 64. `verifyAsync` may reject. -/
structure Ed25519 where
  getPublicKeyAsync : List UInt8 → List UInt8
  signAsync : List UInt8 → List UInt8 → List UInt8
  verifyAsync : List UInt8 → List UInt8 → List UInt8 → Option Bool
  length_getPublicKey : ∀ seed, seed.length = 32 → (getPublicKeyAsync seed).length = 32
  length_sign : ∀ payload seed, seed.length = 32 → (signAsync payload seed).length = 64
  verify_sign : ∀ payload seed, seed.length = 32 →
    verifyAsync (signAsync payload seed) payload (getPublicKeyAsync seed) = some true

inductive AnchorError where
  | nsIdOutOfRange
  | nameIdMustBe32Bytes
  | routesetHashMustBe32Bytes
  | ownerPubMustBe32Bytes
  | sigMustBe64Bytes
  | anchorTooShort
  | decode (e : DecodeError)
  deriving DecidableEq, Repr

inductive SignError where
  | privSeedMustBe32Bytes
  | pubMustBe32Bytes
  | sigMustBe64Bytes
  | rejected
  | encode (e : EncodeError)
  | decode (e : DecodeError)
  | anchor (e : AnchorError)
  deriving DecidableEq, Repr

def ed25519Sign (ed : Ed25519) (privSeed32 payload : List UInt8) : Except SignError (List UInt8) :=
  if privSeed32.length ≠ 32 then .error .privSeedMustBe32Bytes
  else .ok (ed.signAsync payload privSeed32)

def ed25519Verify (ed : Ed25519) (pub payload sig : List UInt8) : Except SignError Bool :=
  if pub.length ≠ 32 then .error .pubMustBe32Bytes
  else if sig.length ≠ 64 then .error .sigMustBe64Bytes
  else match ed.verifyAsync sig payload pub with
    | none => .error .rejected
    | some valid => .ok valid

/-- What a verifier takes as signed, if there are 64 bytes: all but the last 64. -/
def verifiedPayload (bytes : List UInt8) : List UInt8 := bytes.take (bytes.length - 64)

/-! ## Route sets -/

/-- The records are sorted for the signature, and returned as they were. -/
def signRouteSetV1 (ed : Ed25519) (unsigned : RouteSetV1) (privSeed32 : List UInt8) :
    Except SignError RouteSetV1 := do
  let bytesNoSig ← (encodeRouteSetV1 unsigned true).mapError .encode
  let sig ← ed25519Sign ed privSeed32 bytesNoSig
  return { unsigned with sig := some sig }

/-- The bytes are those of the decoded route set, encoded again, if that is required. -/
def recodes (requireCanonical : Bool) (rs : RouteSetV1) (routesetBytes : List UInt8) :
    Except SignError Bool :=
  if requireCanonical then do
    let recoded ← (encodeRouteSetV1 rs true).mapError .encode
    return recoded = routesetBytes
  else .ok true

def verifyRouteSetV1 (ed : Ed25519) (routesetBytes : List UInt8) (requireCanonical : Bool) :
    Except SignError Bool := do
  let rs ← (decodeRouteSetV1 routesetBytes).mapError .decode
  match rs.sig with
  | none => return false
  | some sig =>
    let canonical ← recodes requireCanonical rs routesetBytes
    match canonical with
    | false => return false
    | true => ed25519Verify ed rs.ownerPub (verifiedPayload routesetBytes) sig

/-! ## Anchors -/

structure AnchorV1 where
  nsId : JsNum
  nameId : List UInt8
  seq : ℤ
  exp : ℤ
  routesetHash : List UInt8
  ownerPub : List UInt8
  sig : Option (List UInt8)
  deriving DecidableEq

/-- `ANCH` -/
def anchorMagic : List UInt8 := ascii ['A', 'N', 'C', 'H']

def anchorV1Len : ℕ := 185

def encodeAnchorV1 (a : AnchorV1) : Except AnchorError (List UInt8) :=
  if a.nsId.isUint 0xffffffff = false then .error .nsIdOutOfRange
  else if a.nameId.length ≠ 32 then .error .nameIdMustBe32Bytes
  else if a.routesetHash.length ≠ 32 then .error .routesetHashMustBe32Bytes
  else if a.ownerPub.length ≠ 32 then .error .ownerPubMustBe32Bytes
  else if a.sig.any (·.length ≠ 64) then .error .sigMustBe64Bytes
  else
    let withoutSig := anchorMagic ++ ([1] ++ (u32le a.nsId ++ (a.nameId ++ (u64le a.seq ++
      (u64le a.exp ++ (a.routesetHash ++ a.ownerPub))))))
    .ok (withoutSig ++ a.sig.getD [])

/-- The part before the signature. -/
def decodeUnsignedAnchor : Reader DecodeError AnchorV1 := do
  readMagic anchorMagic
  let nsId ← readU32le
  let nameId ← Reader.bytes 32
  let seq ← readU64le
  let exp ← readU64le
  let routesetHash ← Reader.bytes 32
  let ownerPub ← Reader.bytes 32
  return ⟨.fin nsId, nameId, seq, exp, routesetHash, ownerPub, none⟩

def decodeAnchorV1 (bytes : List UInt8) : Except AnchorError AnchorV1 :=
  if bytes.length < anchorV1Len - 64 then .error .anchorTooShort
  else match decodeUnsignedAnchor bytes 0 with
    | .error e => .error (.decode e)
    | .ok (a, off) => .ok { a with sig := readSig bytes off }

def buildAnchorV1 (ed : Ed25519) (params : AnchorV1) (privSeed32 : List UInt8) :
    Except SignError (List UInt8) := do
  let noSigBytes ← (encodeAnchorV1 params).mapError .anchor
  let sig ← ed25519Sign ed privSeed32 noSigBytes
  (encodeAnchorV1 { params with sig := some sig }).mapError .anchor

def verifyAnchorV1 (ed : Ed25519) (anchorBytes : List UInt8) (requireLength : Bool) :
    Except SignError Bool :=
  if requireLength ∧ anchorBytes.length ≠ anchorV1Len then .ok false
  else do
    let a ← (decodeAnchorV1 anchorBytes).mapError .anchor
    match a.sig with
    | none => return false
    | some sig => ed25519Verify ed a.ownerPub (verifiedPayload anchorBytes) sig

end Ddns.Core

/-!
## What a signature covers

What is signed verifies, for route sets and for anchors. A route set that verifies should be signed
as far as its signature, but the payload is cut from the end: with bytes behind the signature, a part
of the signature is verified as payload (`exampleTrailing_verified`). `verified_iff` says that this
happens exactly for bytes that are no encoding of a route set.
-/

namespace Ddns.Core

open Bytes Results

/-- What is verified are the bytes before the decoded signature. -/
def CoversUnsigned (bytes : List UInt8) : Prop :=
  ∀ rs off, decodeUnsigned bytes 0 = .ok (rs, off) → verifiedPayload bytes = bytes.take off

section Verify

variable {ed : Ed25519} {bytes seed : List UInt8} {c : Bool}

theorem verifiedPayload_append {payload sig : List UInt8} (h : sig.length = 64) :
    verifiedPayload (payload ++ sig) = payload := by
  unfold verifiedPayload
  rw [List.length_append, h, Nat.add_sub_cancel, List.take_left]

/-- A signature verifies for the payload that it is made for. -/
theorem ed25519Verify_sign (hseed : seed.length = 32) (payload : List UInt8) :
    ed25519Verify ed (ed.getPublicKeyAsync seed) payload (ed.signAsync payload seed) = .ok true := by
  rw [ed25519Verify, if_neg (not_not.2 (ed.length_getPublicKey seed hseed)),
    if_neg (not_not.2 (ed.length_sign payload seed hseed)), ed.verify_sign payload seed hseed]

/-! ## Route sets -/

/-- What is verified: the bytes are decoded, with a signature, and are canonical if that is
required. -/
theorem verifyRouteSetV1_true (h : verifyRouteSetV1 ed bytes c = .ok true) :
    ∃ rs sig, decodeRouteSetV1 bytes = .ok rs ∧ rs.sig = some sig ∧
      (c = true → encodeRouteSetV1 rs true = .ok bytes) := by
  obtain ⟨rs, hdecode, h⟩ := bind_eq_ok_iff.1 h
  rw [mapError_eq_ok_iff] at hdecode
  cases hsig : rs.sig with
  | none =>
    rw [hsig] at h
    cases h
  | some sig =>
    rw [hsig] at h
    obtain ⟨canonical, hcanonical, h⟩ := bind_eq_ok_iff.1 h
    cases canonical with
    | false => cases h
    | true =>
      refine ⟨rs, sig, hdecode, hsig, fun hc => ?_⟩
      rw [recodes, if_pos hc] at hcanonical
      obtain ⟨recoded, hrecoded, heq⟩ := bind_eq_ok_iff.1 hcanonical
      obtain rfl : recoded = bytes := of_decide_eq_true (Except.ok.inj heq)
      exact mapError_eq_ok_iff.1 hrecoded

theorem verifyRouteSetV1_of_decode {rs : RouteSetV1} {sig : List UInt8}
    (hdecode : decodeRouteSetV1 bytes = .ok rs) (hsig : rs.sig = some sig)
    (hcanonical : encodeRouteSetV1 rs true = .ok bytes)
    (hverify : ed25519Verify ed rs.ownerPub (verifiedPayload bytes) sig = .ok true) :
    verifyRouteSetV1 ed bytes c = .ok true := by
  have hcheck : recodes c rs bytes = .ok true := by
    unfold recodes
    split
    · rw [hcanonical]
      exact congrArg Except.ok (decide_eq_true rfl)
    · rfl
  refine bind_eq_ok_iff.2 ⟨rs, mapError_eq_ok_iff.2 hdecode, ?_⟩
  rw [hsig]
  exact bind_eq_ok_iff.2 ⟨true, hcheck, hverify⟩

/-- **A signed route set verifies**, whether or not it has to be canonical. -/
theorem verify_sign_routeSet {rs : RouteSetV1} (h : Checked rs) (hsig : rs.sig = none)
    (hseed : seed.length = 32) (howner : ed.getPublicKeyAsync seed = rs.ownerPub) :
    ∃ signed bytes, signRouteSetV1 ed rs seed = .ok signed ∧
      encodeRouteSetV1 signed true = .ok bytes ∧
      ∀ requireCanonical, verifyRouteSetV1 ed bytes requireCanonical = .ok true := by
  obtain ⟨w, hw⟩ := h.encodes true
  have hunsigned : w.bytes = w.unsigned := by
    rw [RouteSet.bytes, ← hw.sig, hsig]
    exact List.append_nil _
  let sig := ed.signAsync w.unsigned seed
  have hlength : sig.length = 64 := ed.length_sign _ _ hseed
  -- the value with the signature
  let w' : RouteSet := { w with
    sig := some sig, sig_length := fun s hs => Option.some.inj hs ▸ hlength }
  have hsigned : signRouteSetV1 ed rs seed = .ok { rs with sig := some sig } := by
    refine bind_eq_ok_iff.2 ⟨w.unsigned, mapError_eq_ok_iff.2 (hunsigned ▸ hw.encode), ?_⟩
    refine bind_eq_ok_iff.2 ⟨sig, ?_, rfl⟩
    rw [ed25519Sign, if_neg (not_not.2 hseed)]
  have hencodes : Encodes { rs with sig := some sig } true w' :=
    ⟨hw.nsId, hw.nameId, hw.seq, hw.exp, hw.records, hw.ownerPub, rfl⟩
  obtain ⟨rs', hdecode, hagain⟩ := encode_decode hencodes.encode
  obtain rfl : w'.toV1 = rs' := Except.ok.inj ((decode_bytes w').symm.trans hdecode)
  refine ⟨_, w'.bytes, hsigned, hencodes.encode, fun requireCanonical => ?_⟩
  refine verifyRouteSetV1_of_decode hdecode rfl hagain ?_
  have hpayload : verifiedPayload w'.bytes = w.unsigned := verifiedPayload_append hlength
  have hpub : w'.toV1.ownerPub = ed.getPublicKeyAsync seed := by
    rw [howner, hw.ownerPub]
    rfl
  rw [hpayload, hpub]
  exact ed25519Verify_sign hseed _

/-- The signature is decoded behind the part before it. -/
theorem decode_sig {rs : RouteSetV1} {sig : List UInt8} (hdecode : decodeRouteSetV1 bytes = .ok rs)
    (hsig : rs.sig = some sig) :
    ∃ rs' off, decodeUnsigned bytes 0 = .ok (rs', off) ∧ off + 64 ≤ bytes.length := by
  unfold decodeRouteSetV1 at hdecode
  split at hdecode
  · cases hdecode
  · next rs' off hunsigned =>
    obtain rfl := Except.ok.inj hdecode
    refine ⟨rs', off, hunsigned, ?_⟩
    by_contra hlt
    have hnone : readSig bytes off = none := if_neg hlt
    rw [hnone] at hsig
    cases hsig

/-- What verifies covers the bytes before the signature exactly if it is an encoding. -/
theorem covers_iff (h : verifyRouteSetV1 ed bytes c = .ok true) :
    CoversUnsigned bytes ↔ ∃ w : RouteSet, bytes = w.bytes := by
  obtain ⟨rs, sig, hdecode, hsig, -⟩ := verifyRouteSetV1_true h
  obtain ⟨rs', off, hunsigned, hle⟩ := decode_sig hdecode hsig
  constructor
  · intro hcovers
    have hlengths := congrArg List.length (hcovers rs' off hunsigned)
    rw [verifiedPayload, List.length_take, List.length_take] at hlengths
    cases hfields : routeSetFields bytes with
    | none =>
      obtain ⟨e, he⟩ := decode_of_none hfields
      cases hdecode.symm.trans he
    | some fields =>
      obtain ⟨lens, off'⟩ := fields
      obtain ⟨rs'', hunsigned'⟩ := decodeUnsigned_of_some hfields
      obtain rfl : off = off' := (Prod.mk.inj (Except.ok.inj (hunsigned.symm.trans hunsigned'))).2
      obtain ⟨w, hw, -⟩ := exists_routeSet hfields (.inr (by omega))
      exact ⟨w, hw⟩
  · rintro ⟨w, rfl⟩ rs'' off' hunsigned'
    obtain rfl : w.toV1 = rs := Except.ok.inj ((decode_bytes w).symm.trans hdecode)
    have hfind := finds_decodeUnsigned w [] (w.sig.getD [])
    rw [List.nil_append, List.length_nil, Nat.zero_add] at hfind
    obtain rfl : w.unsigned.length = off' :=
      (Prod.mk.inj (Except.ok.inj (hfind.symm.trans hunsigned'))).2
    have hwsig : w.sig = some sig := hsig
    have hbytes : w.bytes = w.unsigned ++ sig := by rw [RouteSet.bytes, hwsig]; rfl
    rw [hbytes, verifiedPayload_append (w.sig_length sig hwsig), List.take_left]

/-- What has to be canonical is an encoding. -/
theorem covers_of_canonical (h : verifyRouteSetV1 ed bytes true = .ok true) : CoversUnsigned bytes := by
  obtain ⟨rs, sig, -, -, hcanonical⟩ := verifyRouteSetV1_true h
  obtain ⟨w, -, hw⟩ := encode_eq_ok_iff.1 (hcanonical rfl)
  exact (covers_iff h).2 ⟨w, hw⟩

/-! ## Anchors -/

/-- The fields of an anchor are in range. -/
structure CheckedAnchor (a : AnchorV1) : Prop where
  nsId : a.nsId.isUint 0xffffffff = true
  nameId : a.nameId.length = 32
  routesetHash : a.routesetHash.length = 32
  ownerPub : a.ownerPub.length = 32

/-- The bytes up to the signature. -/
def AnchorV1.unsigned (a : AnchorV1) : List UInt8 :=
  anchorMagic ++ ([1] ++ (u32le a.nsId ++ (a.nameId ++ (u64le a.seq ++ (u64le a.exp ++
    (a.routesetHash ++ a.ownerPub))))))

theorem CheckedAnchor.encode {a : AnchorV1} (h : CheckedAnchor a) (hsig : ∀ s ∈ a.sig, s.length = 64) :
    encodeAnchorV1 a = .ok (a.unsigned ++ a.sig.getD []) := by
  rw [encodeAnchorV1, if_neg (by rw [h.nsId]; decide), if_neg (not_not.2 h.nameId),
    if_neg (not_not.2 h.routesetHash), if_neg (not_not.2 h.ownerPub), if_neg (sig_ok_iff.2 hsig)]
  rfl

theorem CheckedAnchor.length_unsigned {a : AnchorV1} (h : CheckedAnchor a) :
    a.unsigned.length = anchorV1Len - 64 := by
  simp [AnchorV1.unsigned, u32le, u64le, length_toLe, h.nameId, h.routesetHash, h.ownerPub,
    anchorMagic, ascii, JsText.codeUnits, anchorV1Len]

theorem CheckedAnchor.finds {a : AnchorV1} (h : CheckedAnchor a) :
    ∃ a', Finds decodeUnsignedAnchor a.unsigned a' ∧ a'.ownerPub = a.ownerPub := by
  obtain ⟨n, hn, hns⟩ := JsNum.isUint_iff.1 h.nsId
  refine ⟨⟨.fin n, a.nameId, (a.seq % 2 ^ 64).toNat, (a.exp % 2 ^ 64).toNat, a.routesetHash,
    a.ownerPub, none⟩, ?_, rfl⟩
  have hbytes : a.unsigned = (anchorMagic ++ ([1] ++ [])) ++ (toLe 4 n ++ (a.nameId ++
      (toLe 8 (a.seq % 2 ^ 64).toNat ++ (toLe 8 (a.exp % 2 ^ 64).toNat ++ (a.routesetHash ++
        (a.ownerPub ++ [])))))) := by
    rw [AnchorV1.unsigned, hns, u32le_natCast (Nat.lt_succ_of_le hn)]
    simp [u64le]
  rw [hbytes]
  refine (finds_readMagic rfl).bind ?_
  refine (finds_readU32le (Nat.lt_succ_of_le hn)).bind ?_
  refine (finds_bytes_of_length h.nameId).bind ?_
  refine (finds_readU64le (u64_lt _)).bind ?_
  refine (finds_readU64le (u64_lt _)).bind ?_
  refine (finds_bytes_of_length h.routesetHash).bind ?_
  exact (finds_bytes_of_length h.ownerPub).bind (Finds.pure _)

/-- **An anchor that is built verifies**, and has its length. -/
theorem verify_build_anchor {params : AnchorV1} (h : CheckedAnchor params) (hsig : params.sig = none)
    (hseed : seed.length = 32) (howner : ed.getPublicKeyAsync seed = params.ownerPub) :
    ∃ bytes, buildAnchorV1 ed params seed = .ok bytes ∧ bytes.length = 185 ∧
      ∀ requireLength, verifyAnchorV1 ed bytes requireLength = .ok true := by
  let sig := ed.signAsync params.unsigned seed
  have hlength : sig.length = 64 := ed.length_sign _ _ hseed
  have hsigned : CheckedAnchor { params with sig := some sig } :=
    ⟨h.nsId, h.nameId, h.routesetHash, h.ownerPub⟩
  have hfirst : encodeAnchorV1 params = .ok params.unsigned := by
    rw [h.encode (by rw [hsig]; nofun), hsig]
    exact congrArg Except.ok (List.append_nil _)
  have hsecond : encodeAnchorV1 { params with sig := some sig } = .ok (params.unsigned ++ sig) :=
    hsigned.encode fun s hs => Option.some.inj hs ▸ hlength
  have htotal : (params.unsigned ++ sig).length = anchorV1Len := by
    rw [List.length_append, h.length_unsigned, hlength]
    rfl
  refine ⟨params.unsigned ++ sig, ?_, htotal, fun requireLength => ?_⟩
  · refine bind_eq_ok_iff.2 ⟨params.unsigned, mapError_eq_ok_iff.2 hfirst, ?_⟩
    refine bind_eq_ok_iff.2 ⟨sig, ?_, mapError_eq_ok_iff.2 hsecond⟩
    rw [ed25519Sign, if_neg (not_not.2 hseed)]
  · obtain ⟨a, hfinds, hpub⟩ := h.finds
    have hdecode : decodeAnchorV1 (params.unsigned ++ sig) = .ok { a with sig := some sig } := by
      have hfound := hfinds [] sig
      rw [List.nil_append, List.length_nil, Nat.zero_add] at hfound
      have hread : readSig (params.unsigned ++ sig) params.unsigned.length = some sig :=
        @readSig_append _ (some sig) fun s hs => Option.some.inj hs ▸ hlength
      rw [decodeAnchorV1, if_neg (by rw [htotal]; decide), hfound]
      exact congrArg (fun s => Except.ok { a with sig := s }) hread
    rw [verifyAnchorV1, if_neg fun hshort => hshort.2 htotal]
    refine bind_eq_ok_iff.2 ⟨_, mapError_eq_ok_iff.2 hdecode, ?_⟩
    show ed25519Verify ed a.ownerPub (verifiedPayload (params.unsigned ++ sig)) sig = .ok true
    rw [verifiedPayload_append hlength, hpub, ← howner]
    exact ed25519Verify_sign hseed _

end Verify

/-- **What is signed verifies**, and what verifies covers the bytes before the signature exactly if
it is an encoding of a route set. -/
theorem verified_iff (ed : Ed25519) :
    (∀ rs seed, Checked rs → rs.sig = none → seed.length = 32 →
      ed.getPublicKeyAsync seed = rs.ownerPub →
      ∃ signed bytes, signRouteSetV1 ed rs seed = .ok signed ∧
        encodeRouteSetV1 signed true = .ok bytes ∧
        ∀ requireCanonical, verifyRouteSetV1 ed bytes requireCanonical = .ok true) ∧
    (∀ params seed, CheckedAnchor params → params.sig = none → seed.length = 32 →
      ed.getPublicKeyAsync seed = params.ownerPub →
      ∃ bytes, buildAnchorV1 ed params seed = .ok bytes ∧ bytes.length = 185 ∧
        ∀ requireLength, verifyAnchorV1 ed bytes requireLength = .ok true) ∧
    (∀ bytes, verifyRouteSetV1 ed bytes true = .ok true → CoversUnsigned bytes) ∧
    ∀ bytes, verifyRouteSetV1 ed bytes false = .ok true →
      (CoversUnsigned bytes ↔ ∃ w : RouteSet, bytes = w.bytes) :=
  ⟨fun _ _ h hsig hseed howner => verify_sign_routeSet h hsig hseed howner,
    fun _ _ h hsig hseed howner => verify_build_anchor h hsig hseed howner,
    fun _ h => covers_of_canonical h, fun _ h => covers_iff h⟩

/-! ## A byte behind the signature -/

def exampleSeed : List UInt8 := 7 :: List.replicate 31 0

def examplePub : List UInt8 :=
  [162, 250, 47, 74, 53, 91, 162, 233, 7, 165, 48, 9, 233, 227, 124, 173, 223, 122, 199, 230,
   106, 8, 186, 7, 99, 31, 85, 48, 114, 179, 242, 76]

def exampleOwned : RouteSetV1 where
  nsId := .fin 1
  nameId := List.replicate 32 5
  seq := 1
  exp := 2000000000
  records := ⟨[⟨.fin 1, .fin 1, .fin 300, [203, 0, 113, 10]⟩], by decide⟩
  ownerPub := examplePub
  sig := none

def exampleAnchor : AnchorV1 where
  nsId := .fin 1
  nameId := List.replicate 32 5
  seq := 1
  exp := 2000000000
  routesetHash := List.replicate 32 9
  ownerPub := examplePub
  sig := none

/-- The bytes of `exampleOwned`. -/
def exampleUnsigned : List UInt8 := (encodeRouteSetV1 exampleOwned true).toOption.getD []

/-- The signature of `exampleUnsigned`. -/
def exampleRouteSetSig : List UInt8 :=
  [166, 79, 189, 247, 235, 55, 87, 25, 76, 105, 255, 199, 35, 236, 8, 28, 119, 248, 141, 132,
   149, 181, 36, 122, 190, 150, 24, 115, 193, 46, 18, 59, 181, 2, 195, 37, 105, 61, 14, 163, 98,
   239, 55, 65, 187, 85, 167, 195, 212, 104, 102, 125, 52, 69, 205, 34, 248, 133, 145, 180, 16,
   125, 101, 0]

/-- The signature of the bytes of `exampleAnchor`. -/
def exampleAnchorSig : List UInt8 :=
  [151, 8, 207, 69, 97, 71, 7, 253, 74, 237, 216, 56, 142, 228, 51, 135, 7, 71, 48, 7, 236, 253,
   37, 4, 135, 175, 32, 178, 199, 237, 237, 57, 226, 101, 165, 147, 65, 109, 200, 230, 186, 235,
   112, 20, 140, 12, 95, 139, 108, 34, 95, 193, 2, 223, 85, 15, 32, 108, 114, 154, 167, 36, 232,
   10]

/-- A signature of `exampleUnsigned` and the first byte of this signature: the owner chooses its
first half, the base point, and then computes the second one. -/
def exampleNested : List UInt8 :=
  [88, 102, 102, 102, 102, 102, 102, 102, 102, 102, 102, 102, 102, 102, 102, 102, 102, 102, 102,
   102, 102, 102, 102, 102, 102, 102, 102, 102, 102, 102, 102, 102, 196, 234, 13, 199, 68, 56,
   12, 101, 117, 86, 33, 139, 200, 131, 193, 65, 72, 31, 86, 62, 243, 30, 225, 162, 218, 180, 99,
   117, 43, 42, 140, 12]

/-- It knows the signatures of the two examples. -/
def exampleSign (pub payload : List UInt8) : List UInt8 :=
  if pub = examplePub ∧ payload = exampleUnsigned then exampleRouteSetSig
  else if pub = examplePub ∧ payload = exampleAnchor.unsigned then exampleAnchorSig
  else pub ++ pub

theorem length_exampleSign {pub : List UInt8} (h : pub.length = 32) (payload : List UInt8) :
    (exampleSign pub payload).length = 64 := by
  unfold exampleSign
  split
  · rfl
  split
  · rfl
  · rw [List.length_append, h]

theorem length_examplePub {seed : List UInt8} (h : seed.length = 32) :
    (if seed = exampleSeed then examplePub else seed).length = 32 := by
  split
  · rfl
  · exact h

def exampleEd : Ed25519 where
  getPublicKeyAsync seed := if seed = exampleSeed then examplePub else seed
  signAsync payload seed := exampleSign (if seed = exampleSeed then examplePub else seed) payload
  verifyAsync sig payload pub := some (sig = exampleSign pub payload ∨
    pub = examplePub ∧ payload = exampleUnsigned ++ [88] ∧ sig = exampleNested)
  length_getPublicKey _ h := length_examplePub h
  length_sign payload _ h := length_exampleSign (length_examplePub h) payload
  verify_sign _ _ _ := congrArg some (decide_eq_true (.inl rfl))

/-- A route set and an anchor that are signed and verified. -/
theorem exampleOwned_verified :
    (∃ signed bytes, signRouteSetV1 exampleEd exampleOwned exampleSeed = .ok signed ∧
      encodeRouteSetV1 signed true = .ok bytes ∧
      ∀ requireCanonical, verifyRouteSetV1 exampleEd bytes requireCanonical = .ok true) ∧
    ∃ bytes, buildAnchorV1 exampleEd exampleAnchor exampleSeed = .ok bytes ∧ bytes.length = 185 ∧
      ∀ requireLength, verifyAnchorV1 exampleEd bytes requireLength = .ok true := by
  obtain ⟨hrouteSet, hanchor, -⟩ := verified_iff exampleEd
  constructor
  · refine hrouteSet exampleOwned exampleSeed ⟨rfl, rfl, by decide +kernel, nofun, ?_⟩ rfl rfl rfl
    intro r hr
    obtain rfl := List.mem_singleton.1 hr
    exact ⟨by decide +kernel, by decide +kernel, by decide +kernel, by decide⟩
  · exact hanchor exampleAnchor exampleSeed ⟨by decide +kernel, rfl, rfl, rfl⟩ rfl rfl rfl

/-- The route set with the nested signature, and a byte behind it. -/
def exampleTrailing : List UInt8 := exampleUnsigned ++ exampleNested ++ [0]

/-- It verifies, and the first byte of its signature is verified as payload. -/
theorem exampleTrailing_verified :
    ¬∀ bytes, verifyRouteSetV1 exampleEd bytes false = .ok true → CoversUnsigned bytes := by
  intro h
  have hverified : verifyRouteSetV1 exampleEd exampleTrailing false = .ok true := by
    decide +kernel
  have hunsigned : decodeUnsigned exampleTrailing 0 = .ok (exampleOwned, 107) := by
    decide +kernel
  have hcovers := congrArg List.length (h _ hverified _ _ hunsigned)
  revert hcovers
  decide +kernel

end Ddns.Core
