import Mathlib.Data.Nat.Basic
import Mathlib.Tactic.Ring

/-!
# Byte strings

Slices of byte strings and unsigned integers in little-endian order. A layout is a sequence of
integers with their widths; a slice at the offset of a field holds its value (`slice_layout`), and
every byte string that is long enough is a layout of given widths (`layout_fields`).
-/

namespace Bytes

/-- The `n` bytes from `off` on, fewer where the string ends. -/
def slice (bs : List UInt8) (off n : Nat) : List UInt8 :=
  (bs.drop off).take n

/-- The little-endian value of a byte string. -/
def leNat : List UInt8 → Nat
  | [] => 0
  | b :: bs => b.toNat + 256 * leNat bs

/-- The `n` low bytes of a value, in little-endian order. -/
def toLe : Nat → Nat → List UInt8
  | 0, _ => []
  | n + 1, v => UInt8.ofNat v :: toLe n (v / 256)

theorem leNat_lt (bs : List UInt8) : leNat bs < 256 ^ bs.length := by
  induction bs with
  | nil => exact Nat.one_pos
  | cons b bs ih =>
    have hb : b.toNat < 256 := b.toNat_lt
    rw [List.length_cons, Nat.pow_succ]
    show b.toNat + 256 * leNat bs < _
    omega

/-- The value of an `n`-byte field is below `256 ^ n`. -/
theorem leNat_slice_lt (bs : List UInt8) (off n : Nat) : leNat (slice bs off n) < 256 ^ n := by
  have hlen : (slice bs off n).length ≤ n := by
    unfold slice
    rw [List.length_take]
    exact Nat.min_le_left ..
  exact Nat.lt_of_lt_of_le (leNat_lt _) (Nat.pow_le_pow_right (by decide) hlen)

theorem length_slice {bs : List UInt8} {off n : Nat} (h : off + n ≤ bs.length) :
    (slice bs off n).length = n := by
  unfold slice
  rw [List.length_take, List.length_drop]
  omega

theorem length_toLe (n v : Nat) : (toLe n v).length = n := by
  induction n generalizing v with
  | zero => rfl
  | succ n ih => rw [toLe, List.length_cons, ih]

theorem leNat_toLe (n v : Nat) : leNat (toLe n v) = v % 256 ^ n := by
  induction n generalizing v with
  | zero => exact (Nat.mod_one v).symm
  | succ n ih =>
    have hbyte : (UInt8.ofNat v).toNat = v % 256 := UInt8.toNat_ofNat'
    rw [toLe, leNat, ih, hbyte, Nat.pow_succ, Nat.mul_comm (256 ^ n), Nat.mod_mul]

theorem toLe_leNat (bs : List UInt8) : toLe bs.length (leNat bs) = bs := by
  induction bs with
  | nil => rfl
  | cons b bs ih =>
    have hb : b.toNat < 256 := b.toNat_lt
    have hlow : (b.toNat + 256 * leNat bs) % 256 = b.toNat := by omega
    have hhigh : (b.toNat + 256 * leNat bs) / 256 = leNat bs := by omega
    have hbyte : UInt8.ofNat (b.toNat + 256 * leNat bs) = b := by
      apply UInt8.toNat.inj
      rw [UInt8.toNat_ofNat']
      exact hlow
    rw [List.length_cons, leNat, toLe, hhigh, ih, hbyte]

/-! ## Layouts -/

/-- Integers with their widths in bytes, one after the other. -/
def layout (fields : List (Nat × Nat)) : List UInt8 := fields.flatMap fun f => toLe f.1 f.2

/-- The bytes that a layout takes. -/
def width (fields : List (Nat × Nat)) : Nat := (fields.map Prod.fst).sum

@[simp] theorem length_layout (fields : List (Nat × Nat)) : (layout fields).length = width fields := by
  induction fields with
  | nil => rfl
  | cons f fields ih =>
    rw [layout, List.flatMap_cons, List.length_append, length_toLe]
    exact congrArg (f.1 + ·) ih

theorem layout_append (fields fields' : List (Nat × Nat)) :
    layout (fields ++ fields') = layout fields ++ layout fields' :=
  List.flatMap_append

/-- The bytes of a field, between what stands before and after it. -/
theorem slice_layout (pre post : List UInt8) (before after : List (Nat × Nat)) (n v : Nat) :
    slice (pre ++ (layout (before ++ (n, v) :: after) ++ post)) (pre.length + width before) n =
      toLe n v := by
  have hdrop : (pre ++ (layout (before ++ (n, v) :: after) ++ post)).drop
      (pre.length + width before) = toLe n v ++ (layout after ++ post) := by
    rw [List.drop_length_add_append, layout_append, List.append_assoc, ← length_layout,
      List.drop_left']
    · exact List.append_assoc _ _ _
    · rfl
  unfold slice
  rw [hdrop, List.take_left' (length_toLe n v)]

/-- A byte string, read as integers of given widths. -/
def fields : List Nat → List UInt8 → List (Nat × Nat)
  | [], _ => []
  | n :: ns, bs => (n, leNat (bs.take n)) :: fields ns (bs.drop n)

theorem layout_fields (ns : List Nat) (bs : List UInt8) (h : ns.sum ≤ bs.length) :
    layout (fields ns bs) ++ bs.drop ns.sum = bs := by
  induction ns generalizing bs with
  | nil => rfl
  | cons n ns ih =>
    rw [List.sum_cons] at h
    have hlen : (bs.take n).length = n := by
      rw [List.length_take]
      omega
    have hhead : toLe n (leNat (bs.take n)) = bs.take n := by
      have hle := toLe_leNat (bs.take n)
      rw [hlen] at hle
      exact hle
    have hrest := ih (bs.drop n) (by rw [List.length_drop]; omega)
    rw [List.drop_drop] at hrest
    rw [fields, layout, List.flatMap_cons, hhead, List.append_assoc, List.sum_cons]
    exact (congrArg (bs.take n ++ ·) hrest).trans (List.take_append_drop n bs)

end Bytes
