import Ddns.Lib.Bytes

/-!
# Instructions of the Ed25519 program

The layout that the Ed25519 program documents for the data of its instructions: a count of signatures,
a byte of padding, and for each signature an entry of offsets. An offset is into the data of the
instruction whose index in the transaction the entry names, and the index `65535` stands for the
instruction itself. What a signature is, is a parameter: `verifies` decides it.
-/

namespace Ddns.Ed25519

/-- A signature, with the key and the message it is checked against. -/
structure Signed where
  key : List UInt8
  signature : List UInt8
  message : List UInt8
  deriving DecidableEq, Repr

/-- `Ed25519SignatureOffsets`. -/
structure SignatureOffsets where
  signatureOffset : Nat
  signatureInstructionIndex : Nat
  publicKeyOffset : Nat
  publicKeyInstructionIndex : Nat
  messageDataOffset : Nat
  messageDataSize : Nat
  messageInstructionIndex : Nat
  deriving DecidableEq, Repr

/-- The index of the instruction itself. -/
def thisInstruction : Nat := 2 ^ 16 - 1

def numSignatures (data : List UInt8) : Nat := Bytes.leNat (Bytes.slice data 0 1)

/-- The entry of the `i`-th signature. -/
def offsetsAt (data : List UInt8) (i : Nat) : Option SignatureOffsets :=
  let u16 (field : Nat) : Nat := Bytes.leNat (Bytes.slice data (2 + 14 * i + 2 * field) 2)
  if 2 + 14 * (i + 1) ≤ data.length then
    some ⟨u16 0, u16 1, u16 2, u16 3, u16 4, u16 5, u16 6⟩
  else none

/-- The bytes at an offset of the instruction with an index; `datas` are the data of all instructions
of the transaction. -/
def dataSlice (datas : List (List UInt8)) (data : List UInt8) (index offset size : Nat) :
    Option (List UInt8) :=
  (if index = thisInstruction then some data else datas[index]?).bind fun bs =>
    if offset + size ≤ bs.length then some (Bytes.slice bs offset size) else none

/-- What the `i`-th entry has the program check. -/
def signedAt (datas : List (List UInt8)) (data : List UInt8) (i : Nat) : Option Signed := do
  let o ← offsetsAt data i
  let signature ← dataSlice datas data o.signatureInstructionIndex o.signatureOffset 64
  let key ← dataSlice datas data o.publicKeyInstructionIndex o.publicKeyOffset 32
  let message ← dataSlice datas data o.messageInstructionIndex o.messageDataOffset o.messageDataSize
  pure ⟨key, signature, message⟩

/-- The program checks every signature that an instruction lists. -/
def ChecksAll (verifies : Signed → Bool) (accepts : List (List UInt8) → List UInt8 → Bool) : Prop :=
  ∀ datas data, accepts datas data = true → ∀ i < numSignatures data,
    ∃ s, signedAt datas data i = some s ∧ verifies s = true

/-- The program as it is documented: an instruction without signatures has nothing after its count, and
another one has all its entries, with signatures that verify. -/
def run (verifies : Signed → Bool) (datas : List (List UInt8)) (data : List UInt8) : Bool :=
  2 ≤ data.length && (numSignatures data ≠ 0 || data.length == 2) &&
    (List.range (numSignatures data)).all fun i => (signedAt datas data i).any verifies

theorem run_checksAll (verifies : Signed → Bool) : ChecksAll verifies (run verifies) := by
  intro datas data hrun i hi
  simp only [run, Bool.and_eq_true, List.all_eq_true, List.mem_range] at hrun
  have hverified := hrun.2 i hi
  cases hs : signedAt datas data i with
  | none =>
    rw [hs] at hverified
    cases hverified
  | some s =>
    rw [hs] at hverified
    exact ⟨s, rfl, hverified⟩

end Ddns.Ed25519
