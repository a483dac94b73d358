import Ddns.Gateway.SignedCache
import Ddns.Lib.Radix

/-!
# The bytes of a public key

`base58Decode` (`src/gateway/src/server.ts`) reads the wallet's key of a signed cache entry. Its digits
start from one zero byte, which stays when nothing but ones is read, so that the empty text and the key
of zeros get one byte too many; every other text has its standard bytes (`base58Decode_standard_iff`).
-/

namespace Ddns.Gateway.SignedCache

/-! ## The law -/

/-- The text has its standard bytes, or none if it has another character. -/
def Standard (input : JsText) : Prop := base58Decode input = Base58.decode input

/-- The bytes are read back from their standard text. -/
def ReadBack (key : List UInt8) : Prop := base58Decode (Base58.encode key) = some key

/-! ## The loops -/

theorem mulAdd_toNat {carry : ℕ} (h : carry < 58) (bytes : List UInt8) :
    (mulAdd bytes carry).map UInt8.toNat = Radix.mulAdd 256 58 carry (bytes.map UInt8.toNat) := by
  induction bytes generalizing carry with
  | nil =>
    rw [mulAdd, List.map_nil, Radix.mulAdd]
    split
    · rename_i hzero
      rw [hzero, Nat.digits_zero]
      rfl
    · rename_i hcarry
      have hlt : carry < 256 := h.trans (by norm_num)
      rw [Nat.digits_of_lt 256 carry hcarry hlt, List.map_singleton, UInt8.toNat_ofNat_of_lt' hlt]
  | cons byte bytes ih =>
    have hbyte := byte.toNat_lt
    have hnext : (carry + byte.toNat * 58) / 256 < 58 := by omega
    rw [mulAdd, List.map_cons, List.map_cons, Radix.mulAdd, ih hnext, UInt8.toNat_ofNat',
      Nat.add_comm carry]

theorem foldl_mulAdd_toNat {ds : List ℕ} (h : ∀ d ∈ ds, d < 58) (bytes : List UInt8) :
    (ds.foldl mulAdd bytes).map UInt8.toNat =
      ds.foldl (fun acc d => Radix.mulAdd 256 58 d acc) (bytes.map UInt8.toNat) := by
  induction ds generalizing bytes with
  | nil => rfl
  | cons d ds ih =>
    obtain ⟨hd, hds⟩ := List.forall_mem_cons.1 h
    rw [List.foldl_cons, List.foldl_cons, ih hds, mulAdd_toNat hd]

theorem base58Digits_eq (input : JsText) (bytes : List UInt8) :
    base58Digits input bytes = (input.mapM Base58.value).map fun ds => ds.foldl mulAdd bytes := by
  induction input generalizing bytes with
  | nil => rfl
  | cons ch input ih =>
    have hvalue : base58Alphabet.idxOf? ch = Base58.value ch := rfl
    rw [base58Digits, List.mapM_cons, hvalue]
    cases Base58.value ch with
    | none => rfl
    | some val =>
      dsimp only
      rw [ih]
      cases input.mapM Base58.value <;> rfl

/-- The bytes of the loop are those of the carry loop started from one zero. -/
theorem base58Decode_eq (input : JsText) : base58Decode input =
    (input.mapM Base58.value).map fun ds =>
      (List.replicate (Radix.leading ds) 0 ++ (Radix.accumulate 256 58 ds).reverse).map UInt8.ofNat := by
  unfold base58Decode
  rw [base58Digits_eq]
  cases hvalues : input.mapM Base58.value with
  | none => rfl
  | some ds =>
    have hbytes := foldl_mulAdd_toNat (Base58.lt_of_mapM_value hvalues) [0]
    have hback : ds.foldl mulAdd [0] = (Radix.accumulate 256 58 ds).map UInt8.ofNat := by
      rw [← Base58.map_ofNat_toNat (ds.foldl mulAdd [0]), hbytes]
      rfl
    rw [Option.map_some, Option.map_some, Option.map_some, hback, List.reverse_append,
      List.reverse_replicate, List.map_append, List.map_replicate, List.map_reverse,
      Base58.leading_of_mapM_value hvalues]
    rfl

/-! ## Standard texts -/

theorem standard_of_not_ones {input : JsText} (h : ∃ c ∈ input, c ≠ '1') : Standard input := by
  unfold Standard Base58.decode
  rw [base58Decode_eq]
  cases hvalues : input.mapM Base58.value with
  | none => rfl
  | some ds =>
    have hne : Radix.number 58 ds ≠ 0 := by
      intro hzero
      obtain ⟨c, hc, hone⟩ := h
      exact hone ((Base58.number_eq_zero_iff hvalues).1 hzero c hc)
    rw [Option.map_some, Option.map_some, Radix.accumulate_of_ne_zero (by norm_num) (by norm_num) hne]
    rfl

/-- A text of ones has one byte too many. -/
theorem not_standard_of_ones {input : JsText} (h : ∀ c ∈ input, c = '1') : ¬Standard input := by
  unfold Standard
  intro heq
  have hvalues : input.mapM Base58.value = some (List.replicate input.length 0) := by
    rw [List.eq_replicate_of_mem h, List.length_replicate]
    have hsmall : ∀ d ∈ List.replicate input.length 0, d < 58 := by
      intro d hd
      rw [List.eq_of_mem_replicate hd]
      norm_num
    have hdigits := Base58.mapM_value_digit hsmall
    rw [List.map_replicate] at hdigits
    exact hdigits
  have hzero : Radix.number 58 (List.replicate input.length 0) = 0 :=
    (Base58.number_eq_zero_iff hvalues).2 h
  rw [base58Decode_eq, Base58.decode, hvalues, Option.map_some, Option.map_some, Base58.bytesOf,
    Radix.convert, hzero, Radix.accumulate_of_zero (by norm_num) (by norm_num) hzero] at heq
  have hlength := congrArg List.length (Option.some.inj heq)
  simp [Radix.written] at hlength

theorem standard_iff (input : JsText) : Standard input ↔ ∃ c ∈ input, c ≠ '1' := by
  constructor
  · intro h
    by_contra hnone
    push Not at hnone
    exact not_standard_of_ones hnone h
  · exact standard_of_not_ones

/-- The text of bytes is all ones if they are zeros. -/
theorem encode_ones_iff (key : List UInt8) :
    (∃ c ∈ Base58.encode key, c ≠ '1') ↔ ∃ b ∈ key, b ≠ 0 := by
  have hnumber : Radix.number 256 (key.map UInt8.toNat) = 0 ↔ ∀ b ∈ key, b = 0 := by
    rw [Radix.number_eq_zero_iff (by norm_num), List.forall_mem_map]
    refine forall₂_congr fun b _ => ?_
    rw [← UInt8.toNat_inj]
    rfl
  have htext : (∀ c ∈ Base58.encode key, c = '1') ↔ ∀ b ∈ key, b = 0 := by
    have hvalues : (Base58.encode key).mapM Base58.value =
        some (Radix.convert 256 58 (key.map UInt8.toNat)) :=
      Base58.mapM_value_digit (Radix.convert_lt (by norm_num))
    rw [← Base58.number_eq_zero_iff hvalues, ← hnumber, Radix.convert, Radix.number_replicate_append,
      Radix.number_written]
  have hnot := not_congr htext
  push Not at hnot
  exact hnot

/-- **The decoding is standard** exactly of the texts with another character than a one, and a key is
read back exactly if one of its bytes is not zero. -/
theorem base58Decode_standard_iff (input : JsText) (key : List UInt8) :
    (Standard input ↔ ∃ c ∈ input, c ≠ '1') ∧ (ReadBack key ↔ ∃ b ∈ key, b ≠ 0) := by
  refine ⟨standard_iff input, ?_⟩
  rw [← encode_ones_iff, ← standard_iff, Standard, ReadBack, Base58.decode_encode]

/-- The key of thirty-two zeros, and its text. -/
theorem zeroKey_not_standard :
    ¬Standard (List.replicate 32 '1') ∧ ¬ReadBack (List.replicate 32 0) := by
  unfold Standard ReadBack
  decide +kernel

end Ddns.Gateway.SignedCache
