import Mathlib.Data.List.Basic
import Mathlib.Data.Nat.Bitwise
import Mathlib.Tactic.Ring

/-!
# Bits and base 32

`toBits` lists the low bits of a number, the highest of them first. A text in base 32 stands for the
bits of its digits, and for the bytes that are complete (`decode`); the bits of some bytes and less than
a digit of padding are decoded to the bytes (`bytesOf_bits`).
-/

namespace Bits

/-- The low `w` bits of a number. -/
def toBits : ℕ → ℕ → List Bool
  | 0, _ => []
  | w + 1, n => n.testBit w :: toBits w n

/-- The number of some bits. -/
def ofBits (bits : List Bool) : ℕ := bits.foldl (fun acc bit => 2 * acc + bit.toNat) 0

variable {w : ℕ} {m n : ℕ}

@[simp] theorem length_toBits (w n : ℕ) : (toBits w n).length = w := by
  induction w with
  | zero => rfl
  | succ w ih => rw [toBits, List.length_cons, ih]

theorem toBits_congr (h : ∀ i < w, m.testBit i = n.testBit i) : toBits w m = toBits w n := by
  induction w with
  | zero => rfl
  | succ w ih => rw [toBits, toBits, h w (by omega), ih fun i hi => h i (by omega)]

/-- The bits are those above some place, and those below. -/
theorem toBits_add (a b n : ℕ) : toBits (a + b) n = toBits a (n >>> b) ++ toBits b n := by
  induction a with
  | zero => rw [Nat.zero_add, toBits, List.nil_append]
  | succ a ih =>
    rw [Nat.add_right_comm, toBits, toBits, ih, Nat.testBit_shiftRight, Nat.add_comm b a,
      List.cons_append]

theorem toBits_zero (w : ℕ) : toBits w 0 = List.replicate w false := by
  induction w with
  | zero => rfl
  | succ w ih => rw [toBits, ih, Nat.zero_testBit, List.replicate_succ]

theorem ofBits_toBits (w n : ℕ) : ofBits (toBits w n) = n % 2 ^ w := by
  have hfold (acc : ℕ) : (toBits w n).foldl (fun acc bit => 2 * acc + bit.toNat) acc =
      acc * 2 ^ w + n % 2 ^ w := by
    induction w generalizing acc with
    | zero => rw [toBits, List.foldl_nil, pow_zero, Nat.mod_one, mul_one, add_zero]
    | succ w ih =>
      rw [toBits, List.foldl_cons, ih, Nat.toNat_testBit, Nat.mod_pow_succ]
      ring
  rw [ofBits, hfold, zero_mul, zero_add]

end Bits

namespace Base32

open Bits (toBits ofBits)

def alphabet : List Char := "abcdefghijklmnopqrstuvwxyz234567".toList

/-- The digit of a number. -/
def digit (n : ℕ) : Char := alphabet.getD n 'a'

/-- The number of a digit. -/
def value (c : Char) : Option ℕ := alphabet.idxOf? c

/-- The bits of bytes. -/
def bitsOf (bytes : List UInt8) : List Bool := bytes.flatMap fun b => toBits 8 b.toNat

theorem bitsOf_cons (b : UInt8) (bytes : List UInt8) :
    bitsOf (b :: bytes) = toBits 8 b.toNat ++ bitsOf bytes := List.flatMap_cons ..

/-- The bytes that are complete. -/
def bytesOf : List Bool → List UInt8
  | b₀ :: b₁ :: b₂ :: b₃ :: b₄ :: b₅ :: b₆ :: b₇ :: bits =>
    .ofNat (ofBits [b₀, b₁, b₂, b₃, b₄, b₅, b₆, b₇]) :: bytesOf bits
  | _ => []

/-- The bits of digits. -/
def digitBits (ds : List ℕ) : List Bool := ds.flatMap (toBits 5)

theorem digitBits_cons (d : ℕ) (ds : List ℕ) : digitBits (d :: ds) = toBits 5 d ++ digitBits ds :=
  List.flatMap_cons ..

theorem digitBits_append (ds ds' : List ℕ) : digitBits (ds ++ ds') = digitBits ds ++ digitBits ds' :=
  List.flatMap_append ..

def decode (t : List Char) : Option (List UInt8) := (t.mapM value).map fun ds => bytesOf (digitBits ds)

theorem value_digit : ∀ n < 32, value (digit n) = some n := by decide +kernel

theorem mapM_value_digit {ds : List ℕ} (h : ∀ d ∈ ds, d < 32) :
    (ds.map digit).mapM value = some ds := by
  induction ds with
  | nil => rfl
  | cons d ds ih =>
    have htail := ih fun d' hd' => h d' (List.mem_cons_of_mem d hd')
    rw [List.map_cons, List.mapM_cons, value_digit d (h d List.mem_cons_self), htail]
    rfl

theorem bytesOf_toBits (b : UInt8) (bits : List Bool) :
    bytesOf (toBits 8 b.toNat ++ bits) = b :: bytesOf bits := by
  have hb : toBits 8 b.toNat ++ bits = b.toNat.testBit 7 :: b.toNat.testBit 6 :: b.toNat.testBit 5 ::
      b.toNat.testBit 4 :: b.toNat.testBit 3 :: b.toNat.testBit 2 :: b.toNat.testBit 1 ::
      b.toNat.testBit 0 :: bits := rfl
  rw [hb, bytesOf]
  have hof : ofBits (toBits 8 b.toNat) = b.toNat := by
    rw [Bits.ofBits_toBits, Nat.mod_eq_of_lt b.toNat_lt]
  exact congrArg (· :: bytesOf bits) ((congrArg UInt8.ofNat hof).trans UInt8.ofNat_toNat)

theorem bytesOf_short {bits : List Bool} (h : bits.length < 8) : bytesOf bits = [] := by
  unfold bytesOf
  split
  · simp at h
    omega
  · rfl

/-- **Bytes are read back** from their bits and some padding. -/
theorem bytesOf_bits (bytes : List UInt8) {padding : List Bool} (h : padding.length < 8) :
    bytesOf (bitsOf bytes ++ padding) = bytes := by
  induction bytes with
  | nil => exact bytesOf_short h
  | cons b bytes ih =>
    rw [bitsOf_cons, List.append_assoc, bytesOf_toBits, ih]

/-- Digits with the bits of bytes, and some padding, stand for the bytes. -/
theorem decode_digits {ds : List ℕ} {bytes : List UInt8} {padding : List Bool}
    (hds : ∀ d ∈ ds, d < 32) (hbits : digitBits ds = bitsOf bytes ++ padding)
    (h : padding.length < 8) : decode (ds.map digit) = some bytes := by
  rw [decode, mapM_value_digit hds, Option.map_some, hbits, bytesOf_bits bytes h]

end Base32

/-!
## Unsigned varints

A number is written as bytes of seven bits each, the lowest ones first, and every byte but the last has
its high bit set. Where a varint ends is told by its bytes (`append_inj`), and a number with few bits has
none of them in the later bytes (`drop_eq_zero_of_lt`).
-/

namespace Varint

/-- The bytes of one number. -/
def IsVarint : List UInt8 → Prop
  | [] => False
  | b :: bs => if b < 0x80 then bs = [] else IsVarint bs

/-- The seven bits of a byte. -/
def group (b : UInt8) : ℕ := b.toNat % 128

/-- The number. -/
def value : List UInt8 → ℕ
  | [] => 0
  | b :: bs => group b + 128 * value bs

variable {v v' p p' : List UInt8}

theorem group_lt (b : UInt8) : group b < 128 := Nat.mod_lt _ (by norm_num)

theorem group_of_lt {b : UInt8} (h : b < 0x80) : group b = b.toNat :=
  Nat.mod_eq_of_lt (UInt8.lt_iff_toNat_lt.1 h)

/-- **Where a varint ends.** -/
theorem append_inj (hv : IsVarint v) (hv' : IsVarint v') (h : v ++ p = v' ++ p') : v = v' ∧ p = p' := by
  induction v generalizing v' with
  | nil => exact hv.elim
  | cons b v ih =>
    cases v' with
    | nil => exact hv'.elim
    | cons b' v' =>
      obtain ⟨rfl, hrest⟩ := List.cons.inj h
      unfold IsVarint at hv hv'
      by_cases hb : b < 0x80
      · rw [if_pos hb] at hv hv'
        subst hv
        subst hv'
        exact ⟨rfl, hrest⟩
      · rw [if_neg hb] at hv hv'
        obtain ⟨rfl, rfl⟩ := ih hv hv' hrest
        exact ⟨rfl, rfl⟩

theorem value_eq_zero_iff : value v = 0 ↔ ∀ b ∈ v, group b = 0 := by
  induction v with
  | nil => simp [value]
  | cons b v ih =>
    rw [value, List.forall_mem_cons, ← ih]
    omega

/-- The number of the first bytes, and that of the others. -/
theorem value_append (v v' : List UInt8) : value (v ++ v') = value v + 128 ^ v.length * value v' := by
  induction v with
  | nil => rw [List.nil_append, value, List.length_nil, pow_zero, one_mul, zero_add]
  | cons b v ih =>
    rw [List.cons_append, value, value, ih, List.length_cons, pow_succ]
    ring

/-- A number with few bits has none of them in the later bytes. -/
theorem drop_eq_zero_of_lt {k : ℕ} (h : value v < 128 ^ k) : ∀ b ∈ v.drop k, group b = 0 := by
  rcases Nat.lt_or_ge v.length k with hshort | hlong
  · rw [List.drop_eq_nil_of_le hshort.le]
    exact nofun
  · have hsplit := value_append (v.take k) (v.drop k)
    rw [List.take_append_drop, List.length_take_of_le hlong] at hsplit
    rw [← value_eq_zero_iff]
    by_contra hne
    have hle : 128 ^ k ≤ 128 ^ k * value (v.drop k) := Nat.le_mul_of_pos_right _ (Nat.pos_of_ne_zero hne)
    omega

/-- Later bytes without bits do not count. -/
theorem value_take {k : ℕ} (h : ∀ b ∈ v.drop k, group b = 0) : value (v.take k) = value v := by
  have hsplit := value_append (v.take k) (v.drop k)
  rw [List.take_append_drop, value_eq_zero_iff.2 h, Nat.mul_zero, Nat.add_zero] at hsplit
  exact hsplit.symm

end Varint
