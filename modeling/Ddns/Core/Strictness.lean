import Ddns.Core.RouteSet

/-!
# Strictness of the route set decoder

What the decoder accepts should be an encoding. The integers are checked to be there; slices are cut
short where the bytes end, and nothing looks at what follows the owner or the signature.
`strict_iff` says that the decoder is strict exactly on the byte strings that have the length which
their own length fields give, with or without a signature, and on those it throws for.
-/

namespace Ddns.Core

open Bytes

/-! ## What the length fields say -/

/-- The length fields of `n` records and the offset behind them, if the fixed part of each is
there. -/
def recordFields (bytes : List UInt8) : ℕ → ℕ → Option (List ℕ × ℕ)
  | 0, off => some ([], off)
  | n + 1, off =>
    if off + 10 ≤ bytes.length then
      let rlen := leNat (slice bytes (off + 8) 2)
      (recordFields bytes n (off + 10 + rlen)).map fun r => (rlen :: r.1, r.2)
    else none

/-- The length fields of the records and the offset behind the owner, if the bytes start like a route
set and hold the header and the fixed parts of its records. -/
def routeSetFields (bytes : List UInt8) : Option (List ℕ × ℕ) :=
  if slice bytes 0 5 = routeSetMagic ++ [1] ∧ 61 ≤ bytes.length then
    (recordFields bytes (leNat (slice bytes 57 4)) 61).map fun r => (r.1, r.2 + 32)
  else none

/-- What an accepted byte string is. -/
structure Accepted (bytes : List UInt8) (rs : RouteSetV1) : Prop where
  nameId : rs.nameId.length = 32
  ownerPub : rs.ownerPub.length = 32
  /-- The data of the records and the whole have the lengths that the length fields give. -/
  length : ∃ lens off, routeSetFields bytes = some (lens, off) ∧
    rs.records.1.map (·.rdata.length) = lens ∧
    (rs.sig = none ∧ bytes.length = off ∨ rs.sig ≠ none ∧ bytes.length = off + 64)
  encode : encodeRouteSetV1 rs false = .ok bytes

/-- **The decoder is strict** at `bytes`. -/
def Strict (bytes : List UInt8) : Prop :=
  ∀ rs, decodeRouteSetV1 bytes = .ok rs → Accepted bytes rs

/-- The bytes have the length that their length fields give. -/
def WholeLength (bytes : List UInt8) : Prop :=
  ∀ lens off, routeSetFields bytes = some (lens, off) →
    bytes.length = off ∨ bytes.length = off + 64

section Layout

variable {bytes : List UInt8} {lens : List ℕ} {n off off' : ℕ}

/-! ## The value that the bytes hold -/

theorem recordFields_le (h : recordFields bytes n off = some (lens, off')) : off ≤ off' := by
  induction n generalizing off lens with
  | zero =>
    cases h
    exact le_rfl
  | succ n ih =>
    rw [recordFields] at h
    split at h
    · obtain ⟨⟨lens', off''⟩, hrest, heq⟩ := Option.map_eq_some_iff.1 h
      cases heq
      exact (by omega : off ≤ off + 10 + _).trans (ih hrest)
    · cases h

/-- The record whose fixed part starts at `off`. -/
def recordAt (bytes : List UInt8) (off : ℕ) : Record where
  rrType := leNat (slice bytes off 2)
  rrClass := leNat (slice bytes (off + 2) 2)
  ttl := leNat (slice bytes (off + 4) 4)
  rdata := slice bytes (off + 10) (leNat (slice bytes (off + 8) 2))
  rrType_lt := leNat_slice_lt _ _ 2
  rrClass_lt := leNat_slice_lt _ _ 2
  ttl_lt := leNat_slice_lt _ _ 4
  rdata_lt := by
    have hlt := leNat_slice_lt bytes (off + 8) 2
    have hle : (slice bytes (off + 10) (leNat (slice bytes (off + 8) 2))).length ≤
        leNat (slice bytes (off + 8) 2) := by
      unfold slice
      exact List.length_take_le _ _
    omega

theorem spans_recordAt (h : off + 10 + leNat (slice bytes (off + 8) 2) ≤ bytes.length) :
    Spans bytes off (recordAt bytes off).bytes (off + 10 + leNat (slice bytes (off + 8) 2)) ∧
      (recordAt bytes off).rdata.length = leNat (slice bytes (off + 8) 2) := by
  have hdata : (recordAt bytes off).rdata.length = leNat (slice bytes (off + 8) 2) := length_slice h
  refine ⟨?_, hdata⟩
  rw [Record.bytes, hdata]
  refine (spans_toLe (by omega)).append ((spans_toLe (by omega)).append ?_)
  refine (spans_toLe (by omega)).append ((spans_toLe (by omega)).append ?_)
  exact spans_slice h

theorem exists_records (h : recordFields bytes n off = some (lens, off')) (hle : off' ≤ bytes.length) :
    ∃ ws : List Record, ws.length = n ∧ Spans bytes off (ws.flatMap Record.bytes) off' ∧
      ws.map (·.rdata.length) = lens := by
  induction n generalizing off lens with
  | zero =>
    cases h
    exact ⟨[], rfl, Spans.nil _ _, rfl⟩
  | succ n ih =>
    rw [recordFields] at h
    split at h
    · obtain ⟨⟨lens', off''⟩, hrest, heq⟩ := Option.map_eq_some_iff.1 h
      cases heq
      obtain ⟨ws, hlen, hspans, hlens⟩ := ih hrest
      obtain ⟨hrecord, hdata⟩ := spans_recordAt ((recordFields_le hrest).trans hle)
      refine ⟨recordAt bytes off :: ws, congrArg (· + 1) hlen, hrecord.append hspans, ?_⟩
      rw [List.map_cons, hdata, hlens]
    · cases h

/-- Bytes of the right length hold a value. -/
theorem exists_routeSet (h : routeSetFields bytes = some (lens, off))
    (hlen : bytes.length = off ∨ bytes.length = off + 64) :
    ∃ w : RouteSet, bytes = w.bytes ∧ w.records.map (·.rdata.length) = lens ∧
      (w.sig = none ∧ bytes.length = off ∨ w.sig ≠ none ∧ bytes.length = off + 64) := by
  unfold routeSetFields at h
  split at h
  · next hhead =>
    obtain ⟨hmagic, hheader⟩ := hhead
    obtain ⟨⟨lens', end'⟩, hrecords, heq⟩ := Option.map_eq_some_iff.1 h
    obtain ⟨rfl, rfl⟩ : lens' = lens ∧ end' + 32 = off := by simpa using heq
    obtain ⟨ws, hcount, hspans, hlens⟩ := exists_records hrecords (by omega)
    have hmagic' : Spans bytes 0 (routeSetMagic ++ [1]) 5 := hmagic ▸ spans_slice (by omega)
    have hhead : Spans bytes 0 (routeSetMagic ++ ([1] ++ (toLe 4 (leNat (slice bytes 5 4)) ++
        (slice bytes 9 32 ++ (toLe 8 (leNat (slice bytes 41 8)) ++
          (toLe 8 (leNat (slice bytes 49 8)) ++ toLe 4 ws.length)))))) 61 := by
      rw [← List.append_assoc]
      refine hmagic'.append ((spans_toLe (by omega)).append ((spans_slice (by omega)).append ?_))
      refine (spans_toLe (by omega)).append ((spans_toLe (by omega)).append ?_)
      rw [hcount]
      exact spans_toLe hheader
    have howner : Spans bytes end' (slice bytes end' 32) (end' + 32) := spans_slice (by omega)
    have hbody := hhead.append (hspans.append howner)
    have hws : ws.length < 2 ^ 32 := hcount ▸ leNat_slice_lt _ _ 4
    let w (sig : Option (List UInt8)) (hsig : ∀ s ∈ sig, s.length = 64) : RouteSet := {
      nsId := leNat (slice bytes 5 4), nameId := slice bytes 9 32, seq := leNat (slice bytes 41 8)
      exp := leNat (slice bytes 49 8), records := ws, ownerPub := slice bytes end' 32, sig := sig
      nsId_lt := leNat_slice_lt _ _ 4
      nameId_length := length_slice (by omega)
      seq_lt := leNat_slice_lt _ _ 8
      exp_lt := leNat_slice_lt _ _ 8
      records_lt := hws
      ownerPub_length := length_slice (by omega)
      sig_length := hsig }
    rcases hlen with hlen | hlen
    · refine ⟨w none nofun, ?_, hlens, .inl ⟨rfl, hlen⟩⟩
      have hall := hbody.append (Spans.nil bytes _)
      rw [← hlen] at hall
      exact hall.eq
    · have hsig : Spans bytes (end' + 32) (slice bytes (end' + 32) 64) (end' + 32 + 64) :=
        spans_slice (by omega)
      have hlength : ∀ s ∈ some (slice bytes (end' + 32) 64), s.length = 64 := by
        rintro s ⟨⟩
        exact length_slice (by omega)
      refine ⟨w (some (slice bytes (end' + 32) 64)) hlength, ?_, hlens, .inr ⟨nofun, hlen⟩⟩
      have hall := hbody.append hsig
      rw [← hlen] at hall
      exact hall.eq
  · cases h

/-! ## When the decoder returns -/

theorem decodeRecord_of_le (h : off + 10 ≤ bytes.length) :
    decodeRecord bytes off =
      .ok ((recordAt bytes off).toV1, off + 10 + leNat (slice bytes (off + 8) 2)) := by
  unfold decodeRecord readU16le readU32le
  rw [bind_of_ok (uint_of_le (by omega)), bind_of_ok (uint_of_le (by omega)),
    bind_of_ok (uint_of_le (by omega)), bind_of_ok (uint_of_le (by omega))]
  rfl

theorem decodeRecord_of_lt (h : ¬off + 10 ≤ bytes.length) :
    ∃ e, decodeRecord bytes off = .error e := by
  refine ⟨.rangeError, ?_⟩
  unfold decodeRecord readU16le readU32le
  by_cases htype : off + 2 ≤ bytes.length
  · rw [bind_of_ok (uint_of_le htype)]
    by_cases hclass : off + 2 + 2 ≤ bytes.length
    · rw [bind_of_ok (uint_of_le hclass)]
      by_cases httl : off + 2 + 2 + 4 ≤ bytes.length
      · rw [bind_of_ok (uint_of_le httl), bind_of_error (uint_of_lt (by omega))]
      · rw [bind_of_error (uint_of_lt httl)]
    · rw [bind_of_error (uint_of_lt hclass)]
  · rw [bind_of_error (uint_of_lt htype)]

theorem decodeRecords_of_some (h : recordFields bytes n off = some (lens, off')) :
    ∃ rs, decodeRecord.many n bytes off = .ok (rs, off') ∧ rs.length = n := by
  induction n generalizing off lens with
  | zero =>
    cases h
    exact ⟨[], rfl, rfl⟩
  | succ n ih =>
    rw [recordFields] at h
    split at h
    · next hle =>
      obtain ⟨⟨lens', off''⟩, hrest, heq⟩ := Option.map_eq_some_iff.1 h
      cases heq
      obtain ⟨rs, hrs, hlen⟩ := ih hrest
      refine ⟨(recordAt bytes off).toV1 :: rs, ?_, congrArg (· + 1) hlen⟩
      rw [Reader.many, bind_of_ok (decodeRecord_of_le hle), bind_of_ok hrs]
      rfl
    · cases h

theorem decodeRecords_of_none (h : recordFields bytes n off = none) :
    ∃ e, decodeRecord.many n bytes off = .error e := by
  induction n generalizing off with
  | zero => cases h
  | succ n ih =>
    rw [recordFields] at h
    split at h
    · next hle =>
      obtain ⟨e, he⟩ := ih (Option.map_eq_none_iff.1 h)
      refine ⟨e, ?_⟩
      rw [Reader.many, bind_of_ok (decodeRecord_of_le hle), bind_of_error he]
    · next hlt =>
      obtain ⟨e, he⟩ := decodeRecord_of_lt hlt
      exact ⟨e, by rw [Reader.many, bind_of_error he]⟩

/-- The first five bytes are the first four and the next one. -/
theorem slice_five (bytes : List UInt8) : slice bytes 0 5 = slice bytes 0 4 ++ bytes[4]?.toList := by
  unfold slice
  rw [List.drop_zero, List.take_add_one]

theorem readMagic_of_eq (h : slice bytes 0 5 = routeSetMagic ++ [1]) :
    readMagic routeSetMagic bytes 0 = .ok ((), 5) := by
  rw [slice_five] at h
  obtain ⟨hmagic, hversion⟩ := List.append_inj' h (by
    cases hb : bytes[4]? with
    | none =>
      have hlen := congrArg List.length h
      rw [hb, List.length_append, List.length_append] at hlen
      have hle : (slice bytes 0 4).length ≤ 4 := List.length_take_le _ _
      have hfour : routeSetMagic.length = 4 := rfl
      simp only [Option.toList_none, List.length_nil, List.length_singleton] at hlen
      omega
    | some b => rfl)
  have hbyte : bytes[4]? = some 1 := by
    cases hb : bytes[4]? with
    | none =>
      rw [hb] at hversion
      cases hversion
    | some b =>
      rw [hb] at hversion
      exact congrArg some (List.cons.inj hversion).1
  have hread : (Reader.bytes 4 : Reader DecodeError _) bytes 0 = .ok (slice bytes 0 4, 4) := rfl
  have hread' : (Reader.byte : Reader DecodeError _) bytes 4 = .ok (some 1, 5) :=
    congrArg (fun b => Except.ok (b, 5)) hbyte
  unfold readMagic
  rw [bind_of_ok hread, hmagic, if_neg (not_not.2 rfl), bind_of_ok hread', if_neg (not_not.2 rfl)]
  rfl

theorem readMagic_of_ne (h : slice bytes 0 5 ≠ routeSetMagic ++ [1]) :
    ∃ e, readMagic routeSetMagic bytes 0 = .error e := by
  have hread : (Reader.bytes 4 : Reader DecodeError _) bytes 0 = .ok (slice bytes 0 4, 4) := rfl
  have hread' : (Reader.byte : Reader DecodeError _) bytes 4 = .ok (bytes[4]?, 5) := rfl
  unfold readMagic
  by_cases hmagic : slice bytes 0 4 = routeSetMagic
  · refine ⟨.badVersion, ?_⟩
    have hversion : bytes[4]? ≠ some 1 := by
      intro hb
      rw [slice_five, hmagic, hb] at h
      exact h rfl
    rw [bind_of_ok hread, if_neg (not_not.2 hmagic), bind_of_ok hread', if_pos hversion]
    rfl
  · refine ⟨.badMagic, ?_⟩
    rw [bind_of_ok hread, if_pos hmagic]
    rfl

/-- The decoder up to the records. -/
theorem decodeUnsigned_head (hmagic : slice bytes 0 5 = routeSetMagic ++ [1])
    (hlen : 61 ≤ bytes.length) : decodeUnsigned bytes 0 = (do
      let records ← decodeRecord.many (leNat (slice bytes 57 4))
      let records ← toArray records
      let ownerPub ← Reader.bytes 32
      return ⟨.fin (leNat (slice bytes 5 4)), slice bytes 9 32, leNat (slice bytes 41 8),
        leNat (slice bytes 49 8), records, ownerPub, none⟩ : Reader DecodeError RouteSetV1)
      bytes 61 := by
  have hname : (Reader.bytes 32 : Reader DecodeError _) bytes 9 = .ok (slice bytes 9 32, 41) := rfl
  unfold decodeUnsigned readU32le readU64le
  rw [bind_of_ok (readMagic_of_eq hmagic), bind_of_ok (uint_of_le (by omega)), bind_of_ok hname,
    bind_of_ok (uint_of_le (by omega)), bind_of_ok (uint_of_le (by omega)),
    bind_of_ok (uint_of_le hlen)]

/-- The part before the signature ends where the length fields say. -/
theorem decodeUnsigned_of_some (h : routeSetFields bytes = some (lens, off)) :
    ∃ rs, decodeUnsigned bytes 0 = .ok (rs, off) := by
  unfold routeSetFields at h
  split at h
  · next hhead =>
    obtain ⟨⟨lens', off'⟩, hrecords, heq⟩ := Option.map_eq_some_iff.1 h
    obtain ⟨rfl, rfl⟩ : lens' = lens ∧ off' + 32 = off := by simpa using heq
    obtain ⟨recs, hrecs, hcount⟩ := decodeRecords_of_some hrecords
    have hlt : recs.length < 2 ^ 32 := hcount ▸ leNat_slice_lt _ _ 4
    have harray : toArray recs bytes off' = .ok (⟨recs, hlt⟩, off') := by
      unfold toArray
      rw [dif_pos hlt]
      rfl
    rw [decodeUnsigned_head hhead.1 hhead.2, bind_of_ok hrecs, bind_of_ok harray]
    exact ⟨_, rfl⟩
  · cases h

/-- The decoder returns where the length fields are there. -/
theorem decode_of_some (h : routeSetFields bytes = some (lens, off)) :
    ∃ rs, decodeRouteSetV1 bytes = .ok rs := by
  obtain ⟨rs, hrs⟩ := decodeUnsigned_of_some h
  unfold decodeRouteSetV1
  rw [hrs]
  exact ⟨_, rfl⟩

theorem decode_of_none (h : routeSetFields bytes = none) : ∃ e, decodeRouteSetV1 bytes = .error e := by
  suffices herror : ∃ e, decodeUnsigned bytes 0 = .error e by
    obtain ⟨e, he⟩ := herror
    unfold decodeRouteSetV1
    rw [he]
    exact ⟨e, rfl⟩
  unfold routeSetFields at h
  split at h
  · next hhead =>
    obtain ⟨e, he⟩ := decodeRecords_of_none (Option.map_eq_none_iff.1 h)
    rw [decodeUnsigned_head hhead.1 hhead.2, bind_of_error he]
    exact ⟨e, rfl⟩
  · next hhead =>
    by_cases hmagic : slice bytes 0 5 = routeSetMagic ++ [1]
    · have hlen : ¬61 ≤ bytes.length := fun hlen => hhead ⟨hmagic, hlen⟩
      have hname : (Reader.bytes 32 : Reader DecodeError _) bytes 9 = .ok (slice bytes 9 32, 41) := rfl
      refine ⟨.rangeError, ?_⟩
      unfold decodeUnsigned readU32le readU64le
      rw [bind_of_ok (readMagic_of_eq hmagic)]
      by_cases hns : 5 + 4 ≤ bytes.length
      · rw [bind_of_ok (uint_of_le hns), bind_of_ok hname]
        by_cases hseq : 41 + 8 ≤ bytes.length
        · rw [bind_of_ok (uint_of_le hseq)]
          by_cases hexp : 41 + 8 + 8 ≤ bytes.length
          · rw [bind_of_ok (uint_of_le hexp), bind_of_error (uint_of_lt hlen)]
          · rw [bind_of_error (uint_of_lt hexp)]
        · rw [bind_of_error (uint_of_lt hseq)]
      · rw [bind_of_error (uint_of_lt hns)]
    · obtain ⟨e, he⟩ := readMagic_of_ne hmagic
      unfold decodeUnsigned
      rw [bind_of_error he]
      exact ⟨e, rfl⟩

end Layout

/-- **The decoder is strict** exactly where the length is the one that the length fields give. -/
theorem strict_iff (bytes : List UInt8) : Strict bytes ↔ WholeLength bytes := by
  constructor
  · intro h lens off hfields
    obtain ⟨rs, hrs⟩ := decode_of_some hfields
    obtain ⟨lens', off', hfields', -, hlen⟩ := (h rs hrs).length
    cases hfields.symm.trans hfields'
    exact hlen.imp (·.2) (·.2)
  · intro h rs hrs
    cases hfields : routeSetFields bytes with
    | none =>
      obtain ⟨e, he⟩ := decode_of_none hfields
      cases hrs.symm.trans he
    | some fields =>
      obtain ⟨lens, off⟩ := fields
      obtain ⟨w, rfl, hlens, hsig⟩ := exists_routeSet hfields (h lens off hfields)
      obtain rfl : w.toV1 = rs := Except.ok.inj ((decode_bytes w).symm.trans hrs)
      refine ⟨w.nameId_length, w.ownerPub_length, ⟨lens, off, hfields, ?_, hsig⟩, w.encodes.encode⟩
      rw [← hlens]
      exact List.map_map

/-- A header without records, and nothing after it. -/
def exampleHeader : List UInt8 := routeSetMagic ++ [1] ++ List.replicate 56 0

/-- It is decoded, with an empty owner. -/
theorem exampleHeader_not_strict : ¬Strict exampleHeader := by
  intro h
  have hdecode : decodeRouteSetV1 exampleHeader = .ok {
      nsId := .fin 0, nameId := List.replicate 32 0, seq := 0, exp := 0
      records := ⟨[], by decide⟩, ownerPub := [], sig := none } := by decide +kernel
  exact absurd (h _ hdecode).ownerPub (by decide)

end Ddns.Core
