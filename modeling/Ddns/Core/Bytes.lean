import Ddns.Lib.JsArray
import Ddns.Lib.Reader

/-!
# Bytes of the core library

The integers and texts that the records of the core library are made of (`core/src/bytes.ts`).
Written, a number is brought into the range of its field; read, it is checked to be there.
-/

namespace Ddns.Core

open Bytes

/-- `new Uint8Array([n])` -/
def u8 (n : JsNum) : List UInt8 := toLe 1 (n.toUint 8)

def u16le (n : JsNum) : List UInt8 := toLe 2 (n.toUint 16)

def u32le (n : JsNum) : List UInt8 := toLe 4 (n.toUint 32)

def u64le (n : ℤ) : List UInt8 := toLe 8 (n % 2 ^ 64).toNat

def ascii (str : JsText) : List UInt8 := str.codeUnits.map UInt8.ofNat

def concatBytes (parts : List (List UInt8)) : List UInt8 := parts.flatten

/-- The first difference of two byte strings, or of their lengths. -/
def compareBytes : List UInt8 → List UInt8 → ℤ
  | [], bs => -bs.length
  | as, [] => as.length
  | a :: as, b :: bs => if a ≠ b then a.toNat - b.toNat else compareBytes as bs

inductive DecodeError where
  | badMagic
  | badVersion
  | rangeError
  | invalidArrayLength
  deriving DecidableEq, Repr

def readU16le : Reader DecodeError ℕ := Reader.uint .rangeError 2

def readU32le : Reader DecodeError ℕ := Reader.uint .rangeError 4

def readU64le : Reader DecodeError ℕ := Reader.uint .rangeError 8

/-- The magic and the version that a record starts with. -/
def readMagic (magic : List UInt8) : Reader DecodeError Unit := do
  let m ← Reader.bytes 4
  if m ≠ magic then throw .badMagic
  else
    let version ← Reader.byte
    if version ≠ some 1 then throw .badVersion else pure ()

/-- The array that items are pushed to. -/
def toArray {α : Type} (items : List α) : Reader DecodeError (JsArray α) :=
  if h : items.length < 2 ^ 32 then pure ⟨items, h⟩ else throw .invalidArrayLength

/-- The last 64 bytes, if they are there. -/
def readSig (bytes : List UInt8) (off : ℕ) : Option (List UInt8) :=
  if off + 64 ≤ bytes.length then some (slice bytes off 64) else none

theorem sig_ok_iff {sig : Option (List UInt8)} :
    ¬(sig.any fun s => s.length ≠ 64) = true ↔ ∀ s ∈ sig, s.length = 64 := by
  cases sig <;> simp

theorem readSig_append {unsigned : List UInt8} {sig : Option (List UInt8)}
    (h : ∀ s ∈ sig, s.length = 64) :
    readSig (unsigned ++ sig.getD []) unsigned.length = sig := by
  unfold readSig
  cases sig with
  | none => simp
  | some s =>
    have hlen : s.length = 64 := h s rfl
    have hslice := slice_mid unsigned s []
    rw [List.append_nil, hlen] at hslice
    simp [hlen, hslice]

theorem u8_natCast {k : ℕ} (hk : k < 2 ^ 8) : u8 (.fin k) = toLe 1 k := by
  rw [u8, JsNum.toUint_natCast, Nat.mod_eq_of_lt hk]

theorem u16le_natCast {k : ℕ} (hk : k < 2 ^ 16) : u16le (.fin k) = toLe 2 k := by
  rw [u16le, JsNum.toUint_natCast, Nat.mod_eq_of_lt hk]

theorem u32le_natCast {k : ℕ} (hk : k < 2 ^ 32) : u32le (.fin k) = toLe 4 k := by
  rw [u32le, JsNum.toUint_natCast, Nat.mod_eq_of_lt hk]

theorem u64le_natCast {k : ℕ} (hk : k < 2 ^ 64) : u64le k = toLe 8 k := by
  unfold u64le
  congr 1
  omega

theorem u64_lt (n : ℤ) : (n % 2 ^ 64).toNat < 2 ^ 64 := by
  omega

theorem finds_readU16le {v : ℕ} (hv : v < 2 ^ 16) : Finds readU16le (toLe 2 v) v :=
  finds_uint _ hv

theorem finds_readU32le {v : ℕ} (hv : v < 2 ^ 32) : Finds readU32le (toLe 4 v) v :=
  finds_uint _ hv

theorem finds_readU64le {v : ℕ} (hv : v < 2 ^ 64) : Finds readU64le (toLe 8 v) v :=
  finds_uint _ hv

/-- `n` bytes, where as many are. -/
theorem finds_bytes_of_length {ε : Type} {e : List UInt8} {n : ℕ} (h : e.length = n) :
    Finds (Reader.bytes n : Reader ε _) e e :=
  h ▸ finds_bytes e

theorem finds_readMagic {magic : List UInt8} (h : magic.length = 4) :
    Finds (readMagic magic) (magic ++ ([1] ++ [])) () := by
  unfold readMagic
  refine (finds_bytes_of_length h).bind ?_
  rw [if_neg (not_not.2 rfl)]
  exact (finds_byte 1).bind (Finds.pure ())

theorem finds_toArray {α : Type} (items : JsArray α) : Finds (toArray items.1) [] items := by
  unfold toArray
  rw [dif_pos items.2]
  exact Finds.pure _

/-- The order of byte strings. -/
def byteOrder (as bs : List UInt8) : Ordering := compare (as.map UInt8.toNat) (bs.map UInt8.toNat)

instance : Std.TransCmp byteOrder := inferInstanceAs (Std.TransCmp (compareOn (List.map UInt8.toNat)))

theorem eq_of_byteOrder {as bs : List UInt8} (h : byteOrder as bs = .eq) : as = bs := by
  have hmap := Std.LawfulEqOrd.eq_of_compare h
  exact List.map_injective_iff.2 (fun _ _ => UInt8.toNat.inj) hmap

theorem compareBytes_le_iff (as bs : List UInt8) :
    compareBytes as bs ≤ 0 ↔ (byteOrder as bs).isLE = true := by
  induction as generalizing bs with
  | nil =>
    have hle : (byteOrder [] bs).isLE = true := List.isLE_compareLex_nil_left
    rw [compareBytes, hle]
    simp
  | cons a as ih =>
    cases bs with
    | nil =>
      refine iff_of_false ?_ (by rintro ⟨⟩)
      rw [compareBytes]
      · simp
      · exact nofun
    | cons b bs =>
      have hcons : byteOrder (a :: as) (b :: bs) = (compare a.toNat b.toNat).then (byteOrder as bs) :=
        List.compareLex_cons_cons
      rw [compareBytes, hcons, Ordering.isLE_then_iff_or]
      split
      · next hne =>
        have hne' : a.toNat ≠ b.toNat := fun heq => hne (UInt8.toNat.inj heq)
        rw [Nat.compare_eq_lt, Nat.compare_eq_eq]
        omega
      · next heq =>
        rw [not_not] at heq
        rw [heq, Nat.compare_eq_lt, Nat.compare_eq_eq, ← ih bs]
        omega

end Ddns.Core
