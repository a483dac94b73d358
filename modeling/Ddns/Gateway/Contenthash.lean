import Ddns.Gateway.HostingTargets

/-!
# What a content hash says

A content hash that is decoded should be the varint of a namespace and a payload, and its target should
give the payload back. `contenthashLaw_iff` says that the target always does, and when the varint is that
of the namespace: unless later bytes of a longer varint are shifted onto the earlier ones.
-/

namespace Ddns.Gateway.HostingTargets

open Varint (IsVarint)
open Bits (toBits)

/-! ## The law -/

def nsCode : HostingScheme → ℕ
  | .ipfs => ipfsNsCode
  | .ar => arweaveNsCode

/-- The payload that a value stands for. -/
def decodedValue : HostingScheme → JsText → Option (List UInt8)
  | .ipfs, 'b' :: t => Base32.decode t
  | .ipfs, t => Base58.decode t
  | .ar, t => some (JsText.decodeBase64Url t)

/-- A content hash is a varint and a payload. -/
structure Parts (raw : JsText) (v p : List UInt8) : Prop where
  bytes : hexToBytes raw = some (v ++ p)
  varint : IsVarint v

/-- **The law of a content hash** that is decoded to a target. -/
structure ContenthashLaw (raw : JsText) : Prop where
  payload : ∀ target, decodeEnsContenthash raw = some target → ∃ v p, Parts raw v p ∧
    Varint.value v = nsCode target.scheme ∧ decodedValue target.scheme target.value = some p
  distinct : ∀ target, decodeEnsContenthash raw = some target →
    ∀ raw' target', decodeEnsContenthash raw' = some target' →
      ∀ v p v' p', Parts raw v p → Parts raw' v' p' → p' ≠ p → target' ≠ target
  again : ∀ target, decodeEnsContenthash raw = some target →
    parseHostingTarget target.normalizedDest = some target

/-- The number that is read from a varint, whose first byte is the `k`-th one. -/
def wrapped : ℕ → List UInt8 → ℕ
  | _, [] => 0
  | k, b :: v => shl (Varint.group b) (7 * k) ||| wrapped (k + 1) v

/-- A varint is not too long, from the `k`-th byte on. -/
def Fits (k : ℕ) (v : List UInt8) : Prop :=
  k + v.length ≤ 10 ∧ (k + v.length = 10 → ∀ b ∈ v.getLast?, b ≤ 1)

/-- The text of a payload. -/
def payloadText : HostingScheme → List UInt8 → JsText
  | .ipfs => cidBytesToString
  | .ar => bytesToBase64Url

/-- The pattern of a value. -/
def accepted : HostingScheme → JsText → Bool
  | .ipfs => isCidLike
  | .ar => isArweaveTxLike

def targetOf : HostingScheme → JsText → ParsedHostingTarget
  | .ipfs => ipfsTarget
  | .ar => arTarget

/-- **A varint that wraps around**: a byte from the fifth on has bits, but shifted onto the others they
give the code of a namespace, whose pattern the payload has. -/
def Wraps (raw : JsText) : Prop :=
  ∃ scheme v p, Parts raw v p ∧ Fits 0 v ∧ wrapped 0 v = nsCode scheme ∧
    accepted scheme (payloadText scheme p) = true ∧ ∃ b ∈ v.drop 4, Varint.group b ≠ 0

/-! ## Varints -/

theorem testBit_shl {x s i : ℕ} (hs : s < 32) :
    (shl x s).testBit i = (decide (i < 32) && (decide (s ≤ i) && x.testBit (i - s))) := by
  rw [shl, Nat.mod_eq_of_lt hs, Nat.testBit_mod_two_pow, Nat.testBit_shiftLeft]

/-- The first byte ends a varint, or belongs to a longer one. -/
theorem varint_cons {b : UInt8} {bytes v p : List UInt8} : b :: bytes = v ++ p ∧ IsVarint v ↔
    b < 0x80 ∧ v = [b] ∧ p = bytes ∨ ¬b < 0x80 ∧ ∃ w, v = b :: w ∧ bytes = w ++ p ∧ IsVarint w := by
  cases v with
  | nil => simp [IsVarint]
  | cons c w =>
    rw [List.cons_append, List.cons.injEq, List.cons.injEq, IsVarint]
    by_cases hb : b < 0x80
    · constructor
      · rintro ⟨⟨rfl, rfl⟩, hv⟩
        rw [if_pos hb] at hv
        subst hv
        exact .inl ⟨hb, ⟨rfl, rfl⟩, rfl⟩
      · rintro (⟨-, ⟨rfl, rfl⟩, rfl⟩ | ⟨hnot, -⟩)
        · exact ⟨⟨rfl, rfl⟩, by rw [if_pos hb]⟩
        · exact absurd hb hnot
    · constructor
      · rintro ⟨⟨rfl, rfl⟩, hv⟩
        rw [if_neg hb] at hv
        exact .inr ⟨hb, w, rfl, rfl, hv⟩
      · rintro (⟨hpos, -⟩ | ⟨-, w', hcons, rfl, hv⟩)
        · exact absurd hpos hb
        · obtain ⟨rfl, rfl⟩ := List.cons.inj hcons
          exact ⟨⟨rfl, rfl⟩, by rwa [if_neg hb]⟩

theorem and_group (b : UInt8) : b.toNat &&& 0x7f = Varint.group b := Nat.and_two_pow_sub_one_eq_mod _ 7

theorem fits_cons {k : ℕ} {b : UInt8} {v : List UInt8} (hv : v ≠ []) :
    Fits k (b :: v) ↔ Fits (k + 1) v := by
  unfold Fits
  rw [List.getLast?_cons_of_ne_nil hv, List.length_cons, Nat.add_right_comm, Nat.add_assoc]

theorem ne_nil_of_varint {v : List UInt8} (h : IsVarint v) : v ≠ [] := by
  rintro rfl
  exact h

theorem fits_singleton {k : ℕ} {b : UInt8} (hk : k < 10) : Fits k [b] ↔ ¬(k = 9 ∧ 1 < b) := by
  unfold Fits
  rw [List.length_singleton, List.getLast?_singleton, not_and, UInt8.not_lt]
  constructor
  · exact fun h hk' => h.2 (by omega) b rfl
  · refine fun h => ⟨by omega, fun hk' c hc => ?_⟩
    obtain rfl := Option.some.inj hc
    exact h (by omega)

/-- **What the loop reads**: a varint that is not too long. -/
theorem readFrom_eq_some {bytes p : List UInt8} {x k n : ℕ} : readFrom x k bytes = some (n, p) ↔
    ∃ v, (bytes = v ++ p ∧ IsVarint v) ∧ Fits k v ∧ x ||| wrapped k v = n := by
  induction bytes generalizing x k with
  | nil =>
    constructor
    · exact nofun
    · rintro ⟨v, ⟨hv, hvarint⟩, -⟩
      exact absurd (List.append_eq_nil_iff.1 hv.symm).1 (ne_nil_of_varint hvarint)
  | cons b bytes ih =>
    rw [readFrom]
    by_cases hk : k < 10
    · rw [if_pos hk]
      by_cases hb : b < 0x80
      · rw [if_pos hb]
        have hgroup : wrapped k [b] = shl b.toNat (7 * k) := by
          rw [wrapped, wrapped, Varint.group_of_lt hb, Nat.or_zero]
        constructor
        · intro h
          split at h
          · cases h
          · next hlast =>
            obtain ⟨rfl, rfl⟩ := Prod.mk.inj (Option.some.inj h)
            exact ⟨[b], varint_cons.2 (.inl ⟨hb, rfl, rfl⟩), (fits_singleton hk).2 hlast, by rw [hgroup]⟩
        · rintro ⟨v, hv, hfits, rfl⟩
          rcases varint_cons.1 hv with ⟨-, rfl, rfl⟩ | ⟨hnot, -⟩
          · rw [if_neg ((fits_singleton hk).1 hfits), hgroup]
          · exact absurd hb hnot
      · rw [if_neg hb, ih]
        constructor
        · rintro ⟨w, ⟨rfl, hw⟩, hfits, rfl⟩
          refine ⟨b :: w, varint_cons.2 (.inr ⟨hb, w, rfl, rfl, hw⟩),
            (fits_cons (ne_nil_of_varint hw)).2 hfits, ?_⟩
          rw [wrapped, and_group, Nat.or_assoc]
        · rintro ⟨v, hv, hfits, rfl⟩
          rcases varint_cons.1 hv with ⟨hpos, -⟩ | ⟨-, w, rfl, rfl, hw⟩
          · exact absurd hpos hb
          · refine ⟨w, ⟨rfl, hw⟩, (fits_cons (ne_nil_of_varint hw)).1 hfits, ?_⟩
            rw [wrapped, and_group, Nat.or_assoc]
    · rw [if_neg hk]
      constructor
      · exact nofun
      · rintro ⟨v, ⟨-, hv⟩, hfits, -⟩
        have hpos := List.length_pos_of_ne_nil (ne_nil_of_varint hv)
        have hle := hfits.1
        omega

/-- Bytes that fit are read as the number. -/
theorem wrapped_eq_value {k : ℕ} {v : List UInt8} (h : k + v.length ≤ 4) :
    wrapped k v = 128 ^ k * Varint.value v := by
  induction v generalizing k with
  | nil => rfl
  | cons b v ih =>
    rw [List.length_cons] at h
    have hpow (k : ℕ) : 128 ^ k = 2 ^ (7 * k) := by rw [Nat.pow_mul]
    have hfirst : Varint.group b * 2 ^ (7 * k) < 2 ^ (7 * (k + 1)) := by
      rw [Nat.mul_succ, Nat.pow_add, Nat.mul_comm]
      exact Nat.mul_lt_mul_of_pos_left (Varint.group_lt b) (Nat.two_pow_pos _)
    have hsmall : 2 ^ (7 * (k + 1)) ≤ 2 ^ 32 := Nat.pow_le_pow_right (by norm_num) (by omega)
    have hshl : shl (Varint.group b) (7 * k) = Varint.group b * 2 ^ (7 * k) := by
      rw [shl, Nat.mod_eq_of_lt (show 7 * k < 32 by omega), Nat.shiftLeft_eq,
        Nat.mod_eq_of_lt (hfirst.trans_le hsmall)]
    have hrest : wrapped (k + 1) v = Varint.value v <<< (7 * (k + 1)) := by
      rw [ih (by omega), Nat.shiftLeft_eq, hpow, Nat.mul_comm]
    rw [wrapped, hshl, hrest, Nat.or_comm, ← Nat.shiftLeft_add_eq_or_of_lt hfirst, Nat.shiftLeft_eq,
      Varint.value, hpow, Nat.mul_succ, Nat.pow_add]
    ring

/-- Later bytes without bits are not read. -/
theorem wrapped_take {j k : ℕ} {v : List UInt8} (h : ∀ b ∈ v.drop j, Varint.group b = 0) :
    wrapped k (v.take j) = wrapped k v := by
  induction v generalizing j k with
  | nil => rw [List.take_nil]
  | cons b v ih =>
    cases j with
    | zero =>
      have hzero (k : ℕ) (w : List UInt8) (hw : ∀ b ∈ w, Varint.group b = 0) : wrapped k w = 0 := by
        induction w generalizing k with
        | nil => rfl
        | cons c w ih =>
          rw [wrapped, hw c List.mem_cons_self, ih _ fun d hd => hw d (List.mem_cons_of_mem c hd), shl,
            Nat.zero_shiftLeft, Nat.zero_mod, Nat.or_zero]
      rw [List.take_zero, hzero k (b :: v) h]
      rfl
    | succ j =>
      rw [List.take_succ_cons, wrapped, wrapped, ih h]

theorem nsCode_lt (scheme : HostingScheme) : nsCode scheme < 128 ^ 4 := by
  cases scheme <;> decide

/-- **A varint that is read as a namespace** is that of the namespace exactly if only its first four
bytes have bits. -/
theorem value_eq_nsCode_iff {v : List UInt8} {scheme : HostingScheme} (h : wrapped 0 v = nsCode scheme) :
    Varint.value v = nsCode scheme ↔ ∀ b ∈ v.drop 4, Varint.group b = 0 := by
  constructor
  · intro hvalue
    have hlt := nsCode_lt scheme
    rw [← hvalue] at hlt
    exact Varint.drop_eq_zero_of_lt hlt
  · intro hzero
    have hlength : 0 + (v.take 4).length ≤ 4 := by
      rw [Nat.zero_add]
      exact List.length_take_le 4 v
    rw [← Varint.value_take hzero, ← h, ← wrapped_take hzero, wrapped_eq_value hlength, pow_zero, one_mul]

/-! ## Base 32 -/

theorem and_31 (n : ℕ) : n &&& 31 = n % 2 ^ 5 := Nat.and_two_pow_sub_one_eq_mod n 5

/-- The lowest five bits. -/
theorem toBits_digit (n : ℕ) : toBits 5 (n &&& 31) = toBits 5 n := by
  refine Bits.toBits_congr fun i hi => ?_
  rw [and_31, Nat.testBit_mod_two_pow, decide_eq_true hi, Bool.true_and]

/-- **The digits that are taken** from some bits, and the bits that are left. -/
theorem base32Drain_bits (value bits : ℕ) : (base32Drain value bits).2 < 5 ∧
    (∀ d ∈ (base32Drain value bits).1, d < 32) ∧
    Base32.digitBits (base32Drain value bits).1 ++ toBits (base32Drain value bits).2 value =
      toBits bits value := by
  fun_induction base32Drain value bits with
  | case1 bits ih =>
    obtain ⟨hleft, hdigits, hbits⟩ := ih
    refine ⟨hleft, List.forall_mem_cons.2 ⟨?_, hdigits⟩, ?_⟩
    · rw [and_31]
      exact Nat.mod_lt _ (by norm_num)
    · have hadd : toBits (bits + 5) value = toBits 5 (value >>> bits) ++ toBits bits value := by
        rw [Nat.add_comm, Bits.toBits_add]
      rw [Base32.digitBits_cons, toBits_digit, List.append_assoc, hbits]
      exact hadd.symm
  | case2 bits hbits =>
    refine ⟨?_, nofun, rfl⟩
    by_contra hge
    exact hbits (bits - 5) (by omega)

/-- The next byte is put behind the bits that are left. -/
theorem toBits_push {value bits : ℕ} (hbits : bits < 5) (byte : UInt8) :
    toBits (bits + 8) (shl value 8 ||| byte.toNat) = toBits bits value ++ toBits 8 byte.toNat := by
  have hbyte : byte.toNat < 2 ^ 8 := byte.toNat_lt
  rw [Bits.toBits_add]
  congr 1
  · refine Bits.toBits_congr fun i hi => ?_
    rw [Nat.testBit_shiftRight, Nat.testBit_or, testBit_shl (by norm_num),
      Nat.testBit_lt_two_pow (hbyte.trans_le (Nat.pow_le_pow_right (by norm_num) (by omega : 8 ≤ 8 + i))),
      decide_eq_true (by omega), decide_eq_true (by omega), Nat.add_sub_cancel_left]
    simp
  · refine Bits.toBits_congr fun i hi => ?_
    rw [Nat.testBit_or, testBit_shl (by norm_num), decide_eq_false (by omega : ¬8 ≤ i)]
    simp

/-- The last bits are filled up with zeros. -/
theorem toBits_pad {value bits : ℕ} (hbits : bits ≤ 5) :
    toBits 5 (shl value (5 - bits)) = toBits bits value ++ List.replicate (5 - bits) false := by
  have hsplit : toBits 5 (shl value (5 - bits)) = toBits (bits + (5 - bits)) (shl value (5 - bits)) := by
    rw [Nat.add_sub_cancel' hbits]
  rw [hsplit, Bits.toBits_add, ← Bits.toBits_zero]
  congr 1
  · refine Bits.toBits_congr fun i hi => ?_
    rw [Nat.testBit_shiftRight, testBit_shl (by omega), decide_eq_true (by omega),
      decide_eq_true (by omega), Nat.add_sub_cancel_left]
    rfl
  · refine Bits.toBits_congr fun i hi => ?_
    rw [testBit_shl (by omega), decide_eq_false (by omega : ¬5 - bits ≤ i), Nat.zero_testBit]
    simp

/-- **The digits of bytes** have the bits of the bytes, and less than a digit of padding. -/
theorem base32Digits_bits (value bits : ℕ) (bytes : List UInt8) (hbits : bits < 5) :
    (∀ d ∈ base32Digits value bits bytes, d < 32) ∧ ∃ padding : List Bool, padding.length < 8 ∧
      Base32.digitBits (base32Digits value bits bytes) =
        toBits bits value ++ (Base32.bitsOf bytes ++ padding) := by
  induction bytes generalizing value bits with
  | nil =>
    rw [base32Digits]
    split
    · refine ⟨fun d hd => ?_, List.replicate (5 - bits) false, ?_, ?_⟩
      · rw [List.mem_singleton.1 hd, and_31]
        exact Nat.mod_lt _ (by norm_num)
      · rw [List.length_replicate]
        omega
      · rw [Base32.digitBits_cons, toBits_digit, toBits_pad hbits.le]
        exact List.append_nil _
    · next hnone =>
      obtain rfl : bits = 0 := by omega
      exact ⟨nofun, [], by decide, rfl⟩
  | cons byte bytes ih =>
    obtain ⟨hleft, hdigits, hdrain⟩ := base32Drain_bits (shl value 8 ||| byte.toNat) (bits + 8)
    obtain ⟨hrest, padding, hpadding, hbytes⟩ := ih (shl value 8 ||| byte.toNat) _ hleft
    rw [base32Digits]
    refine ⟨fun d hd => ?_, padding, hpadding, ?_⟩
    · rcases List.mem_append.1 hd with hd | hd
      · exact hdigits d hd
      · exact hrest d hd
    · rw [Base32.digitBits_append, hbytes, ← List.append_assoc, hdrain, toBits_push hbits,
        Base32.bitsOf_cons]
      simp only [List.append_assoc]

/-- **Base 32** is read back. -/
theorem decode_base32LowerNoPad (bytes : List UInt8) :
    Base32.decode (base32LowerNoPad bytes) = some bytes := by
  obtain ⟨hdigits, padding, hpadding, hbits⟩ := base32Digits_bits 0 0 bytes (by norm_num)
  exact Base32.decode_digits hdigits hbits hpadding

/-! ## Base 58 and base 64 -/

/-- The loop writes what base 58 does, but for zeros alone. -/
theorem base58btc_eq {b : UInt8} {bytes : List UInt8} (hb : b ≠ 0) :
    base58btc (b :: bytes) =
      (Radix.written 58 (Radix.number 256 ((b :: bytes).map UInt8.toNat))).map Base58.digit := by
  have hne : b.toNat ≠ 0 := fun h => hb (UInt8.toNat.inj h)
  have hnumber : Radix.number 256 ((b :: bytes).map UInt8.toNat) ≠ 0 := by
    rw [Ne, Radix.number_eq_zero_iff (by norm_num)]
    exact fun h => hne (h _ List.mem_cons_self)
  rw [base58btc, Radix.accumulate_of_ne_zero (by norm_num) (by norm_num) hnumber,
    List.takeWhile_cons_of_neg (by simpa using hb)]
  rfl

theorem encode_eq {b : UInt8} {bytes : List UInt8} (hb : b ≠ 0) :
    Base58.encode (b :: bytes) =
      (Radix.written 58 (Radix.number 256 ((b :: bytes).map UInt8.toNat))).map Base58.digit := by
  have hne : b.toNat ≠ 0 := fun h => hb (UInt8.toNat.inj h)
  rw [Base58.encode, Radix.convert, Radix.leading, List.map_cons,
    List.takeWhile_cons_of_neg (by simpa using hne)]
  rfl

/-- **The first digit** of a multihash of 32 bytes. -/
theorem base58btc_head {bytes : List UInt8} (hlength : bytes.length = 34)
    (hhead : bytes.take 2 = [0x12, 0x20]) : ∃ t, base58btc bytes = 'Q' :: t := by
  obtain ⟨rest, rfl⟩ : ∃ rest, bytes = 0x12 :: 0x20 :: rest :=
    ⟨bytes.drop 2, by rw [← List.take_append_drop 2 bytes, hhead]; rfl⟩
  have hrest : (rest.map UInt8.toNat).length = 32 := by
    rw [List.length_map]
    simpa using hlength
  have hlt : Radix.number 256 (rest.map UInt8.toNat) < 256 ^ 32 := by
    rw [← hrest]
    refine Radix.number_lt (by norm_num) fun d hd => ?_
    obtain ⟨b, -, rfl⟩ := List.mem_map.1 hd
    exact b.toNat_lt
  have hnumber : Radix.number 256 ((0x12 :: 0x20 :: rest).map UInt8.toNat) =
      0x1220 * 256 ^ 32 + Radix.number 256 (rest.map UInt8.toNat) := by
    rw [List.map_cons, List.map_cons, Radix.number_cons, Radix.number_cons, List.length_cons, hrest,
      show (0x12 : UInt8).toNat = 0x12 from rfl, show (0x20 : UInt8).toNat = 0x20 from rfl]
    ring
  have hlower : 23 * 58 ^ 45 ≤ Radix.number 256 ((0x12 :: 0x20 :: rest).map UInt8.toNat) := by
    rw [hnumber]
    exact Nat.le_add_right_of_le (by norm_num)
  have hupper : Radix.number 256 ((0x12 :: 0x20 :: rest).map UInt8.toNat) < (23 + 1) * 58 ^ 45 := by
    rw [hnumber]
    exact (Nat.add_lt_add_left hlt _).trans_le (by norm_num)
  obtain ⟨ds, hds⟩ := Radix.written_of_bounds (by norm_num) (by norm_num) hlower hupper
  exact ⟨ds.map Base58.digit, by rw [base58btc_eq (by decide), hds]; rfl⟩

/-- The digits of the two alphabets. -/
theorem base64Url_replace : ∀ n < 64,
    (if JsText.base64Digit n = '+' then '-'
      else if JsText.base64Digit n = '/' then '_' else JsText.base64Digit n) =
        JsText.base64UrlDigit n := by
  decide +kernel

/-- What is put behind a text is taken off again. -/
theorem rdropWhile_replicate {p : Char → Bool} {c : Char} {t : JsText} (hc : p c = true)
    (ht : ∀ d ∈ t, p d = false) (k : ℕ) : (t ++ List.replicate k c).rdropWhile p = t := by
  induction k with
  | zero =>
    rw [List.replicate_zero, List.append_nil, List.rdropWhile_eq_self_iff]
    intro hne
    rw [ht _ (List.getLast_mem hne)]
    exact Bool.false_ne_true
  | succ k ih => rw [List.replicate_succ', ← List.append_assoc, List.rdropWhile_concat_pos _ _ _ hc, ih]

/-- Base 64 with the digits replaced is base 64 for URLs. -/
theorem bytesToBase64Url_eq (bytes : List UInt8) :
    bytesToBase64Url bytes = JsText.encodeBase64Url bytes := by
  have hdigits : ((JsText.base64Digits bytes).map JsText.base64Digit).map
      (fun c => if c = '+' then '-' else if c = '/' then '_' else c) = JsText.encodeBase64Url bytes := by
    rw [List.map_map]
    exact List.map_congr_left fun n hn => base64Url_replace n (JsText.base64Digits_lt bytes n hn)
  rw [bytesToBase64Url, JsText.encodeBase64, List.map_append, hdigits, List.map_replicate]
  refine rdropWhile_replicate (by decide) (fun c hc => decide_eq_false ?_) _
  rintro rfl
  exact absurd (JsText.isBase64Url_of_mem hc).1 (by decide)

/-- **The payload is read back** from its text. -/
theorem decodedValue_payloadText (scheme : HostingScheme) (p : List UInt8) :
    decodedValue scheme (payloadText scheme p) = some p := by
  cases scheme with
  | ar =>
    change some (JsText.decodeBase64Url (bytesToBase64Url p)) = some p
    rw [bytesToBase64Url_eq, JsText.decodeBase64Url_encodeBase64Url]
  | ipfs =>
    change decodedValue .ipfs (cidBytesToString p) = some p
    unfold cidBytesToString
    split
    · next hmultihash =>
      obtain ⟨t, ht⟩ := base58btc_head hmultihash.1 hmultihash.2
      have hdecode : decodedValue .ipfs (base58btc p) = Base58.decode (base58btc p) := by
        rw [ht]
        rfl
      obtain ⟨rest, rfl⟩ : ∃ rest, p = 0x12 :: rest :=
        ⟨p.drop 1, by rw [← List.take_append_drop 2 p, hmultihash.2]; rfl⟩
      rw [hdecode, base58btc_eq (by decide), ← encode_eq (by decide), Base58.decode_encode]
    · exact decode_base32LowerNoPad p

/-! ## Targets -/

/-- A character of a value is no white space, and does not end it. -/
theorem not_mark_of_isBase64Url {c : Char} (h : JsText.isBase64Url c = true) :
    JsText.isWhitespace c = false ∧ c ≠ '/' ∧ c ≠ '?' ∧ c ≠ '#' := by
  have hcode : 45 = c.toNat ∨ 95 = c.toNat ∨ 65 ≤ c.toNat ∧ c.toNat ≤ 90 ∨
      97 ≤ c.toNat ∧ c.toNat ≤ 122 ∨ 48 ≤ c.toNat ∧ c.toNat ≤ 57 := by
    rw [JsText.isBase64Url, Bool.or_eq_true, Bool.or_eq_true, JsText.isAlphanum_iff, decide_eq_true_eq,
      decide_eq_true_eq] at h
    rcases h with (h | rfl) | rfl
    · exact .inr (.inr h)
    · exact .inl rfl
    · exact .inr (.inl rfl)
  refine ⟨?_, ?_, ?_, ?_⟩
  · simp only [JsText.isWhitespace, Bool.or_eq_false_iff, Bool.and_eq_false_iff, decide_eq_false_iff_not]
    omega
  all_goals
    rintro rfl
    revert hcode
    decide

theorem isBase64Url_of_toLower {c : Char} (h : c.toLower ∈ ['b', 'a', 'f', 'y']) :
    JsText.isBase64Url c = true := by
  have hlower : 97 ≤ c.toLower.toNat ∧ c.toLower.toNat ≤ 122 := by
    simp only [List.mem_cons, List.not_mem_nil, or_false] at h
    rcases h with h | h | h | h <;> rw [h] <;> decide
  rw [JsText.toNat_toLower] at hlower
  rw [JsText.isBase64Url, JsText.isAlphanum_iff.2 (by split at hlower <;> omega)]
  rfl

/-- The pattern of a value admits letters, digits, `-` and `_`. -/
theorem isBase64Url_of_accepted {scheme : HostingScheme} {t : JsText} (h : accepted scheme t = true) :
    ∀ c ∈ t, JsText.isBase64Url c = true := by
  intro c hc
  cases scheme with
  | ar =>
    simp only [accepted, isArweaveTxLike, Bool.and_eq_true] at h
    exact List.all_eq_true.1 h.2 c hc
  | ipfs =>
    simp only [accepted, isCidLike, isCidv1, isCidv0, Bool.or_eq_true, Bool.and_eq_true,
      decide_eq_true_eq] at h
    rcases h with ⟨⟨hhead, -⟩, htail⟩ | ⟨⟨hhead, -⟩, htail⟩
    · rw [← List.take_append_drop 4 t] at hc
      rcases List.mem_append.1 hc with hc | hc
      · exact isBase64Url_of_toLower (hhead ▸ List.mem_map_of_mem hc)
      · rw [JsText.isBase64Url, List.all_eq_true.1 htail c hc]
        rfl
    · rw [← List.take_append_drop 2 t, hhead] at hc
      have hdigits : (['Q', 'm'] ++ Base58.alphabet).all JsText.isBase64Url = true := by decide +kernel
      refine List.all_eq_true.1 hdigits c ?_
      rcases List.mem_append.1 hc with hc | hc
      · exact List.mem_append_left _ hc
      · exact List.mem_append_right _ (List.contains_iff_mem.1 (List.all_eq_true.1 htail c hc))

theorem afterScheme_append {scheme : JsText} (h : scheme.map Char.toLower = scheme) (t : JsText) :
    afterScheme scheme (scheme ++ t) = some t := by
  rw [afterScheme, List.take_left, List.drop_left, if_pos h]

theorem afterScheme_ar (t : JsText) : afterScheme ipfsScheme (arScheme ++ t) = none := by
  simp [afterScheme, ipfsScheme, arScheme]

/-- **A target is parsed again.** -/
theorem parseHostingTarget_targetOf {scheme : HostingScheme} {t : JsText}
    (h : accepted scheme t = true) :
    parseHostingTarget (targetOf scheme t).normalizedDest = some (targetOf scheme t) := by
  have hchars (c : Char) (hc : c ∈ t) := not_mark_of_isBase64Url (isBase64Url_of_accepted h c hc)
  have hauthority : authority t = t :=
    List.takeWhile_eq_self_iff.2 fun c hc => by simp [(hchars c hc).2]
  have htrim {front : JsText} (hfront : front.all (fun c => !JsText.isWhitespace c) = true) :
      (front ++ t).trim = front ++ t := by
    refine JsText.trim_of_all fun c hc => ?_
    rcases List.mem_append.1 hc with hc | hc
    · simpa using List.all_eq_true.1 hfront c hc
    · exact (hchars c hc).1
  cases scheme with
  | ipfs =>
    have hdest : (targetOf .ipfs t).normalizedDest = ipfsScheme ++ t := rfl
    rw [hdest, parseHostingTarget, htrim (by decide), if_neg (by simp [ipfsScheme]),
      afterScheme_append (by rfl)]
    dsimp only
    rw [hauthority]
    exact if_pos h
  | ar =>
    have hdest : (targetOf .ar t).normalizedDest = arScheme ++ t := rfl
    rw [hdest, parseHostingTarget, htrim (by decide), if_neg (by simp [arScheme]), afterScheme_ar,
      afterScheme_append (by rfl)]
    dsimp only
    rw [hauthority]
    exact if_pos h

/-- **What is decoded**: a varint that is read as the code of a namespace, and a payload whose text has
its pattern. -/
theorem decodeEnsContenthash_eq_some {raw : JsText} {target : ParsedHostingTarget} :
    decodeEnsContenthash raw = some target ↔ ∃ scheme v p, Parts raw v p ∧ Fits 0 v ∧
      wrapped 0 v = nsCode scheme ∧ accepted scheme (payloadText scheme p) = true ∧
        targetOf scheme (payloadText scheme p) = target := by
  constructor
  · intro h
    unfold decodeEnsContenthash at h
    split at h
    · cases h
    · next bytes hbytes =>
      split at h
      · cases h
      · next codec payload hread =>
        obtain ⟨v, ⟨rfl, hv⟩, hfits, hcodec⟩ := readFrom_eq_some.1 hread
        rw [Nat.zero_or] at hcodec
        split at h
        · cases h
        · split at h
          · next hns =>
            split at h
            · next hlike =>
              exact ⟨.ipfs, v, payload, ⟨hbytes, hv⟩, hfits, hcodec.trans hns, hlike, Option.some.inj h⟩
            · cases h
          · split at h
            · next hns =>
              split at h
              · next hlike =>
                exact ⟨.ar, v, payload, ⟨hbytes, hv⟩, hfits, hcodec.trans hns, hlike, Option.some.inj h⟩
              · cases h
            · cases h
  · rintro ⟨scheme, v, p, hparts, hfits, hread, haccepted, rfl⟩
    have hpayload : p ≠ [] := by
      rintro rfl
      revert haccepted
      cases scheme <;> decide
    have huvarint : readUvarint (v ++ p) = some (nsCode scheme, p) :=
      readFrom_eq_some.2 ⟨v, ⟨rfl, hparts.varint⟩, hfits, by rw [Nat.zero_or, hread]⟩
    unfold decodeEnsContenthash
    rw [hparts.bytes]
    dsimp only
    rw [huvarint]
    dsimp only
    cases scheme with
    | ipfs =>
      rw [if_neg hpayload, if_pos (by rfl)]
      exact if_pos haccepted
    | ar =>
      rw [if_neg hpayload, if_neg (by decide), if_pos (by rfl)]
      exact if_pos haccepted

theorem parts_unique {raw : JsText} {v p v' p' : List UInt8} (h : Parts raw v p) (h' : Parts raw v' p') :
    v = v' ∧ p = p' :=
  Varint.append_inj h.varint h'.varint (Option.some.inj (h.bytes.symm.trans h'.bytes))

theorem scheme_targetOf (scheme : HostingScheme) (t : JsText) : (targetOf scheme t).scheme = scheme := by
  cases scheme <;> rfl

theorem value_targetOf (scheme : HostingScheme) (t : JsText) : (targetOf scheme t).value = t := by
  cases scheme <;> rfl

/-- **The payload is told by the target.** -/
theorem decodedValue_of_decode {raw : JsText} {target : ParsedHostingTarget} {v p : List UInt8}
    (h : decodeEnsContenthash raw = some target) (hparts : Parts raw v p) :
    decodedValue target.scheme target.value = some p := by
  obtain ⟨scheme, v', p', hparts', -, -, -, rfl⟩ := decodeEnsContenthash_eq_some.1 h
  obtain ⟨rfl, rfl⟩ := parts_unique hparts hparts'
  rw [scheme_targetOf, value_targetOf, decodedValue_payloadText]

/-- **Exactly when a content hash is what its target says.** The law holds of a content hash if and only
if its varint does not wrap around to the code of a namespace. -/
theorem contenthashLaw_iff (raw : JsText) : ContenthashLaw raw ↔ ¬Wraps raw := by
  constructor
  · rintro h ⟨scheme, v, p, hparts, hfits, hread, haccepted, b, hb, hbits⟩
    obtain ⟨v', p', hparts', hvalue, -⟩ := h.payload (targetOf scheme (payloadText scheme p))
      (decodeEnsContenthash_eq_some.2 ⟨scheme, v, p, hparts, hfits, hread, haccepted, rfl⟩)
    obtain ⟨rfl, rfl⟩ := parts_unique hparts hparts'
    rw [scheme_targetOf] at hvalue
    exact hbits ((value_eq_nsCode_iff hread).1 hvalue b hb)
  · intro h
    refine ⟨fun target htarget => ?_, fun target htarget raw' target' htarget' v p v' p' hparts hparts'
      hne => ?_, fun target htarget => ?_⟩
    · obtain ⟨scheme, v, p, hparts, hfits, hread, haccepted, rfl⟩ := decodeEnsContenthash_eq_some.1 htarget
      refine ⟨v, p, hparts, ?_, decodedValue_of_decode htarget hparts⟩
      rw [scheme_targetOf, value_eq_nsCode_iff hread]
      intro b hb
      by_contra hbits
      exact h ⟨scheme, v, p, hparts, hfits, hread, haccepted, b, hb, hbits⟩
    · rintro rfl
      exact hne (Option.some.inj ((decodedValue_of_decode htarget' hparts').symm.trans
        (decodedValue_of_decode htarget hparts)))
    · obtain ⟨scheme, v, p, hparts, hfits, hread, haccepted, rfl⟩ := decodeEnsContenthash_eq_some.1 htarget
      exact parseHostingTarget_targetOf haccepted

/-! ## A long varint -/

/-- A multihash of 32 bytes. -/
def exampleMultihash : List UInt8 := [0x12, 0x20] ++ List.replicate 32 7

/-- A varint of five bytes, and the multihash. -/
def exampleContenthash : JsText :=
  ['0', 'x'] ++ Hex.ofBytes ([0xe3, 0x81, 0x80, 0x80, 0x10] ++ exampleMultihash)

/-- The varint is that of `0x1000000e3`, but it is read as the code of IPFS. -/
theorem exampleContenthash_no_law : ¬ContenthashLaw exampleContenthash := by
  intro h
  obtain ⟨v, p, hparts, hvalue, -⟩ := h.payload
    (ipfsTarget "QmNp5n7FFav5ZDaHAj6HzuhJ8LDbL1N6NRzAgT6piWS2Kx".toList) (by decide +kernel)
  have hlong : Parts exampleContenthash [0xe3, 0x81, 0x80, 0x80, 0x10] exampleMultihash :=
    ⟨by decide +kernel, by simp [IsVarint]⟩
  obtain ⟨rfl, -⟩ := parts_unique hparts hlong
  exact absurd hvalue (by decide)

end Ddns.Gateway.HostingTargets
