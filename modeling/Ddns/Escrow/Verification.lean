import Ddns.Escrow.Program
import Ddns.Solana.Ed25519

/-!
# The signatures of vouchers

A voucher is redeemed if an earlier instruction of its transaction has verified its signature. The
program reads this instruction's data itself. `verification_sound` says that it reads nothing outside
the data, and that what it finds is what the Ed25519 program has checked. `scan_iff` says when it finds
a verification that is there: the scan stops at the first instruction that it cannot read.
-/

namespace Ddns.Escrow

open Tx

/-! ## Reading within bounds -/

section Reading

variable {α : Type} {data : List UInt8} {i a b : Nat}

/-- A program that indexes and slices: nothing is answered where it would read out of bounds. -/
abbrev Reading (α : Type) := ExceptT (Failure EscrowError) Option α

/-- `data[i]`. -/
def index (data : List UInt8) (i : Nat) : Reading UInt8 := ExceptT.lift data[i]?

/-- `data[a..b]`. -/
def range (data : List UInt8) (a b : Nat) : Reading (List UInt8) :=
  ExceptT.lift (if a ≤ b ∧ b ≤ data.length then some (Bytes.slice data a (b - a)) else none)

/-- `require!` with `InvalidEd25519Ix`. -/
def requireValid (c : Prop) [Decidable c] : Reading Unit :=
  ExceptT.mk (some (require c .invalidEd25519Ix))

/-- The closure `read_u16`. -/
def readU16At (data : List UInt8) (idx : Nat) : Reading Nat := do
  let low ← index data idx
  let high ← index data (idx + 1)
  pure (low.toNat + 256 * high.toNat)

/-- `parse_ed25519_ix` with its reads in the order of the source. -/
def parseEd25519IxReading (data : List UInt8) :
    Reading (Pubkey × List UInt8 × List UInt8) := do
  requireValid (2 ≤ data.length)
  let num ← index data 0
  requireValid (1 ≤ num.toNat)
  requireValid (16 ≤ data.length)
  let signatureOffset ← readU16At data 2
  let signatureIxIdx ← readU16At data 4
  let pubkeyOffset ← readU16At data 6
  let pubkeyIxIdx ← readU16At data 8
  let msgOffset ← readU16At data 10
  let msgSize ← readU16At data 12
  let msgIxIdx ← readU16At data 14
  requireValid (signatureIxIdx = u16Max ∧ pubkeyIxIdx = u16Max ∧ msgIxIdx = u16Max)
  requireValid (pubkeyOffset + 32 ≤ data.length)
  requireValid (signatureOffset + 64 ≤ data.length)
  requireValid (msgOffset + msgSize ≤ data.length)
  let pk ← range data pubkeyOffset (pubkeyOffset + 32)
  let sig ← range data signatureOffset (signatureOffset + 64)
  let msg ← range data msgOffset (msgOffset + msgSize)
  pure (ofBytes pk, sig, msg)

theorem bind_index {f : UInt8 → Reading α} (h : i < data.length) :
    index data i >>= f = f data[i] := by
  simp only [index, List.getElem?_eq_getElem h]
  rfl

theorem bind_range {f : List UInt8 → Reading α} (hab : a ≤ b) (hb : b ≤ data.length) :
    range data a b >>= f = f (Bytes.slice data a (b - a)) := by
  simp only [range, if_pos (And.intro hab hb)]
  rfl

theorem slice_one (h : i < data.length) : Bytes.leNat (Bytes.slice data i 1) = data[i].toNat := by
  rw [Bytes.slice, List.drop_eq_getElem_cons h]
  rfl

theorem slice_two (h : i + 1 < data.length) :
    readU16 data i = data[i].toNat + 256 * data[i + 1].toNat := by
  have hi : i < data.length := Nat.lt_of_succ_lt h
  rw [readU16, Bytes.slice, List.drop_eq_getElem_cons hi, List.drop_eq_getElem_cons h]
  rfl

theorem bind_readU16At {f : Nat → Reading α} (h : i + 1 < data.length) :
    readU16At data i >>= f = f (readU16 data i) := by
  have hi : i < data.length := Nat.lt_of_succ_lt h
  rw [readU16At, bind_assoc, bind_index hi, bind_assoc, bind_index h, slice_two h]
  rfl

/-- A check that is not met ends the reading; one that is met goes on. -/
theorem run_requireValid {c : Prop} [Decidable c] {f : Reading α} {g : Result EscrowError α}
    (h : c → f.run = some g) :
    (requireValid c >>= fun _ => f).run = some (require c .invalidEd25519Ix >>= fun _ => g) := by
  by_cases hc : c
  · have hf : f = some g := h hc
    simp only [requireValid, require, if_pos hc]
    exact hf
  · simp only [requireValid, require, if_neg hc]
    rfl

/-- The reads of `parse_ed25519_ix` are all within bounds. -/
theorem parseEd25519IxReading_eq (data : List UInt8) :
    (parseEd25519IxReading data).run = some (parseEd25519Ix data) := by
  unfold parseEd25519IxReading parseEd25519Ix
  refine run_requireValid fun hlen => ?_
  have hzero : 0 < data.length := by omega
  rw [bind_index hzero, ← slice_one hzero]
  refine run_requireValid fun _ => run_requireValid fun hentry => ?_
  rw [bind_readU16At (by omega), bind_readU16At (by omega), bind_readU16At (by omega),
    bind_readU16At (by omega), bind_readU16At (by omega), bind_readU16At (by omega),
    bind_readU16At (by omega)]
  refine run_requireValid fun _ => run_requireValid fun hpk => run_requireValid fun hsig =>
    run_requireValid fun hmsg => ?_
  rw [bind_range (Nat.le_add_right ..) hpk, bind_range (Nat.le_add_right ..) hsig,
    bind_range (Nat.le_add_right ..) hmsg, Nat.add_sub_cancel_left, Nat.add_sub_cancel_left,
    Nat.add_sub_cancel_left]
  rfl

end Reading

/-! ## What a parsed instruction has checked -/

section Parsing

open Ed25519

variable {dep : Deployment} {data : List UInt8} {datas : List (List UInt8)} {s : Signed}
  {expected : Hash} {ix : TxInstruction} {l : List TxInstruction} {pk : Pubkey}
  {sig msg : List UInt8}

/-- The first entry of an Ed25519 instruction is for `s`, with all its data in the instruction. -/
structure Inline (data : List UInt8) (s : Signed) : Prop where
  listed : 1 ≤ numSignatures data
  offsets : ∃ o, offsetsAt data 0 = some o ∧ o.signatureInstructionIndex = thisInstruction ∧
    o.publicKeyInstructionIndex = thisInstruction ∧ o.messageInstructionIndex = thisInstruction
  signed : ∀ datas, signedAt datas data 0 = some s

theorem toBytes_ofBytes {bs : List UInt8} (h : bs.length = 32) : toBytes (ofBytes bs) = bs := by
  have hlt : Bytes.leNat bs < 2 ^ 256 := by
    have hbytes := Bytes.leNat_lt bs
    rw [h] at hbytes
    exact hbytes
  rw [toBytes, ofBytes, BitVec.toNat_ofNat, Nat.mod_eq_of_lt hlt, ← h, Bytes.toLe_leNat]

/-- The first entry, in the fields that `parse_ed25519_ix` reads. -/
theorem offsetsAt_zero (h : 16 ≤ data.length) : offsetsAt data 0 =
    some ⟨readU16 data 2, readU16 data 4, readU16 data 6, readU16 data 8, readU16 data 10,
      readU16 data 12, readU16 data 14⟩ := if_pos h

theorem dataSlice_this {off n : Nat} {bs : List UInt8} :
    dataSlice datas data thisInstruction off n = some bs ↔
      off + n ≤ data.length ∧ Bytes.slice data off n = bs := by
  simp [dataSlice]

theorem signedAt_zero {o : SignatureOffsets} (ho : offsetsAt data 0 = some o)
    (hs : o.signatureInstructionIndex = thisInstruction)
    (hk : o.publicKeyInstructionIndex = thisInstruction)
    (hm : o.messageInstructionIndex = thisInstruction) :
    signedAt datas data 0 = some s ↔
      (o.signatureOffset + 64 ≤ data.length ∧ Bytes.slice data o.signatureOffset 64 = s.signature) ∧
      (o.publicKeyOffset + 32 ≤ data.length ∧ Bytes.slice data o.publicKeyOffset 32 = s.key) ∧
      (o.messageDataOffset + o.messageDataSize ≤ data.length ∧
        Bytes.slice data o.messageDataOffset o.messageDataSize = s.message) := by
  simp only [signedAt, ho, hs, hk, hm, Option.bind_eq_bind, Option.bind_some, Option.bind_eq_some_iff,
    Option.pure_def, Option.some.injEq, dataSlice_this]
  constructor
  · rintro ⟨sig, hsig, key, hkey, msg, hmsg, rfl⟩
    exact ⟨hsig, hkey, hmsg⟩
  · rintro ⟨hsig, hkey, hmsg⟩
    exact ⟨_, hsig, _, hkey, _, hmsg, rfl⟩

/-- The program reads an instruction exactly if its first entry is inline, and it reads this entry. -/
theorem parseEd25519Ix_eq_ok :
    parseEd25519Ix data = .ok (pk, sig, msg) ↔ Inline data ⟨toBytes pk, sig, msg⟩ := by
  simp only [parseEd25519Ix, bind_eq_ok, require_eq_ok, exists_unit, pure_eq_ok, Prod.mk.injEq]
  constructor
  · rintro ⟨-, hnum, hlen, ⟨hs, hk, hm⟩, hpk, hsig, hmsg, rfl, rfl, rfl⟩
    have ho := offsetsAt_zero hlen
    refine ⟨hnum, ⟨_, ho, hs, hk, hm⟩, fun datas => (signedAt_zero ho hs hk hm).2 ?_⟩
    exact ⟨⟨hsig, rfl⟩, ⟨hpk, (toBytes_ofBytes (Bytes.length_slice hpk)).symm⟩, ⟨hmsg, rfl⟩⟩
  · rintro ⟨hnum, ⟨o, ho, hs, hk, hm⟩, hsigned⟩
    obtain ⟨⟨hsig, hsig'⟩, ⟨hpk, hpk'⟩, ⟨hmsg, hmsg'⟩⟩ := (signedAt_zero ho hs hk hm).1 (hsigned [])
    have hlen : 16 ≤ data.length := by
      by_contra hshort
      rw [offsetsAt, if_neg hshort] at ho
      cases ho
    cases (offsetsAt_zero hlen).symm.trans ho
    refine ⟨by omega, hnum, hlen, ⟨hs, hk, hm⟩, hpk, hsig, hmsg, ?_, hsig', hmsg'⟩
    rw [hpk', ofBytes_toBytes]

theorem Inline.parse (h : Inline data s) :
    parseEd25519Ix data = .ok (ofBytes s.key, s.signature, s.message) := by
  have hkey : toBytes (ofBytes s.key) = s.key := by
    obtain ⟨o, ho, hs, hk, hm⟩ := h.offsets
    obtain ⟨-, ⟨hlen, hkey⟩, -⟩ := (signedAt_zero ho hs hk hm).1 (h.signed [])
    exact toBytes_ofBytes (hkey ▸ Bytes.length_slice hlen)
  refine parseEd25519Ix_eq_ok.2 ?_
  rw [hkey]
  exact h

/-- An Ed25519 instruction whose inline entry is for the message. -/
def Carries (dep : Deployment) (expected : Hash) (ix : TxInstruction) : Prop :=
  ix.programId = dep.ed25519Program ∧ ∃ s, Inline ix.data s ∧ s.message = toBytes expected

/-- An Ed25519 instruction without an inline entry: it is too short, lists no signature, refers to
another instruction, or reaches past its end. -/
def Blocks (dep : Deployment) (ix : TxInstruction) : Prop :=
  ix.programId = dep.ed25519Program ∧ ¬∃ s, Inline ix.data s

/-- What the scan finds is the first entry of an instruction that carries the message. -/
theorem find_ok (h : findEd25519Verification dep expected l = .ok (pk, sig)) :
    ∃ ix ∈ l, ix.programId = dep.ed25519Program ∧
      Inline ix.data ⟨toBytes pk, sig, toBytes expected⟩ := by
  induction l with
  | nil => cases h
  | cons ix l ih =>
    rw [findEd25519Verification] at h
    split at h
    · obtain ⟨ix', hix', hfound⟩ := ih h
      exact ⟨ix', List.mem_cons_of_mem _ hix', hfound⟩
    · next hprogram =>
      split at h
      · cases h
      · next pk' sig' msg hparse =>
        split at h
        · next hmsg =>
          cases h
          exact ⟨ix, List.mem_cons_self, not_not.1 hprogram, hmsg ▸ parseEd25519Ix_eq_ok.1 hparse⟩
        · obtain ⟨ix', hix', hfound⟩ := ih h
          exact ⟨ix', List.mem_cons_of_mem _ hix', hfound⟩

end Parsing

/-- **Signatures are verified.** The program reads nothing out of bounds in any instruction of the
transaction. If the Ed25519 program checks every signature that an instruction lists, and has accepted
the instructions before the current one, then the key and the signature that the program finds are an
entry of one of these, for the expected message, and verify. -/
theorem verification_sound (dep : Deployment) (verifies : Ed25519.Signed → Bool)
    (accepts : List (List UInt8) → List UInt8 → Bool)
    (hchecks : Ed25519.ChecksAll verifies accepts) (ixs : List TxInstruction) (current : Nat)
    (hran : ∀ ix ∈ ixs.take current, ix.programId = dep.ed25519Program →
      accepts (ixs.map TxInstruction.data) ix.data = true) (expected : Hash) :
    (∀ ix ∈ ixs, (parseEd25519IxReading ix.data).run = some (parseEd25519Ix ix.data)) ∧
    ∀ pk sig, findEd25519Verification dep expected (ixs.take current) = .ok (pk, sig) →
      ∃ ix ∈ ixs.take current, ix.programId = dep.ed25519Program ∧
        ∃ i < Ed25519.numSignatures ix.data,
          Ed25519.signedAt (ixs.map TxInstruction.data) ix.data i =
            some ⟨toBytes pk, sig, toBytes expected⟩ ∧
          verifies ⟨toBytes pk, sig, toBytes expected⟩ = true := by
  refine ⟨fun ix _ => parseEd25519IxReading_eq ix.data, ?_⟩
  intro pk sig hfind
  obtain ⟨ix, hix, hprogram, hinline⟩ := find_ok hfind
  refine ⟨ix, hix, hprogram, 0, hinline.listed, hinline.signed _, ?_⟩
  obtain ⟨s, hs, hverified⟩ := hchecks _ _ (hran ix hix hprogram) 0 hinline.listed
  cases (hinline.signed _).symm.trans hs
  exact hverified

/-! ## A signed message -/

/-- A 32-byte message with its Ed25519 signature. -/
def exampleMessage : Hash :=
  34955279490168314597921089074697065275357335082392507650874879462565936827282

def exampleKey : Pubkey :=
  11903303657706407974989296177215005343713679411332034699907763981919547054807

def exampleSignature : List UInt8 := Bytes.toLe 64
  657051035805850826572345487349152575494362933500398391776743304645210294597291299094997873286252189481571726728250744754122810771105406105888543012992581

/-- What verifies. -/
def exampleVerifies (s : Ed25519.Signed) : Bool :=
  s = ⟨toBytes exampleKey, exampleSignature, toBytes exampleMessage⟩

def exampleDeployment : Deployment where
  sha256 := fun _ => 0
  ed25519Program := 5
  canSign := fun p => p == 1
  escrowKey := fun _ => 2
  escrowKey_inj := fun p q hp hq _ => (beq_iff_eq.1 hp).trans (beq_iff_eq.1 hq).symm
  escrowKey_canSign := fun _ => by decide

/-- The key, the signature and the message, after their offsets. -/
def exampleData : List UInt8 :=
  [1, 0, 48, 0, 255, 255, 16, 0, 255, 255, 112, 0, 32, 0, 255, 255] ++ toBytes exampleKey ++
    exampleSignature ++ toBytes exampleMessage

/-- The verification of the signature, and the instruction that looks for it. -/
def exampleTransaction : List TxInstruction := [⟨5, exampleData⟩, ⟨6, []⟩]

/-- The message is found, with the signature that the Ed25519 program has checked. -/
theorem exampleTransaction_verified :
    findEd25519Verification exampleDeployment exampleMessage (exampleTransaction.take 1) =
      .ok (exampleKey, exampleSignature) ∧
    ∃ ix ∈ exampleTransaction.take 1, ix.programId = exampleDeployment.ed25519Program ∧
      ∃ i < Ed25519.numSignatures ix.data,
        Ed25519.signedAt (exampleTransaction.map TxInstruction.data) ix.data i =
          some ⟨toBytes exampleKey, exampleSignature, toBytes exampleMessage⟩ ∧
        exampleVerifies ⟨toBytes exampleKey, exampleSignature, toBytes exampleMessage⟩ = true := by
  have hfind : findEd25519Verification exampleDeployment exampleMessage
      (exampleTransaction.take 1) = .ok (exampleKey, exampleSignature) := by decide +kernel
  refine ⟨hfind, (verification_sound exampleDeployment exampleVerifies _
    (Ed25519.run_checksAll exampleVerifies) exampleTransaction 1 ?_ exampleMessage).2 _ _ hfind⟩
  intro ix hix _
  cases List.mem_singleton.1 hix
  decide +kernel

/-! ## The scan -/

section Scan

variable {dep : Deployment} {expected : Hash} {ix : TxInstruction} {l : List TxInstruction}

theorem find_carries (h : Carries dep expected ix) :
    ∃ r, findEd25519Verification dep expected (ix :: l) = .ok r := by
  obtain ⟨hprogram, s, hinline, hmsg⟩ := h
  refine ⟨(ofBytes s.key, s.signature), ?_⟩
  rw [findEd25519Verification, if_neg (not_not.2 hprogram), hinline.parse]
  exact if_pos hmsg

theorem find_blocks (h : Blocks dep ix) :
    ∃ e, findEd25519Verification dep expected (ix :: l) = .error e := by
  obtain ⟨hprogram, hnone⟩ := h
  rw [findEd25519Verification, if_neg (not_not.2 hprogram)]
  cases hparse : parseEd25519Ix ix.data with
  | error e => exact ⟨e, rfl⟩
  | ok r => exact absurd ⟨_, parseEd25519Ix_eq_ok.1 hparse⟩ hnone

/-- What neither carries the message nor blocks is passed over. -/
theorem find_skip (hcarries : ¬Carries dep expected ix) (hblocks : ¬Blocks dep ix) :
    findEd25519Verification dep expected (ix :: l) = findEd25519Verification dep expected l := by
  rw [findEd25519Verification]
  split
  · rfl
  · next hprogram =>
    rw [not_not] at hprogram
    cases hparse : parseEd25519Ix ix.data with
    | error e =>
      refine absurd ⟨hprogram, ?_⟩ hblocks
      rintro ⟨s, hinline⟩
      cases hparse.symm.trans hinline.parse
    | ok r =>
      have hinline := parseEd25519Ix_eq_ok.1 hparse
      exact if_neg fun hmsg => hcarries ⟨hprogram, _, hinline, hmsg⟩

/-- The scan succeeds exactly on an instruction that carries the message, with none before it that
blocks. -/
theorem find_ok_iff : (∃ r, findEd25519Verification dep expected l = .ok r) ↔
    ∃ pre ix post, l = pre ++ ix :: post ∧ Carries dep expected ix ∧ ∀ b ∈ pre, ¬Blocks dep b := by
  induction l with
  | nil =>
    constructor
    · rintro ⟨r, hr⟩
      cases hr
    · rintro ⟨pre, ix, post, hl, -⟩
      cases pre <;> cases hl
  | cons ix l ih =>
    by_cases hcarries : Carries dep expected ix
    · exact ⟨fun _ => ⟨[], ix, l, rfl, hcarries, nofun⟩, fun _ => find_carries hcarries⟩
    by_cases hblocks : Blocks dep ix
    · obtain ⟨e, he⟩ : ∃ e, findEd25519Verification dep expected (ix :: l) = .error e :=
        find_blocks hblocks
      constructor
      · rintro ⟨r, hr⟩
        cases he.symm.trans hr
      · rintro ⟨pre, ix', post, hl, hcarries', hpre⟩
        cases pre with
        | nil =>
          cases hl
          exact absurd hcarries' hcarries
        | cons b pre =>
          cases hl
          exact absurd hblocks (hpre ix List.mem_cons_self)
    · rw [find_skip hcarries hblocks, ih]
      constructor
      · rintro ⟨pre, ix', post, rfl, hcarries', hpre⟩
        exact ⟨ix :: pre, ix', post, rfl, hcarries', List.forall_mem_cons.2 ⟨hblocks, hpre⟩⟩
      · rintro ⟨pre, ix', post, hl, hcarries', hpre⟩
        cases pre with
        | nil =>
          cases hl
          exact absurd hcarries' hcarries
        | cons b pre =>
          cases hl
          exact ⟨pre, ix', post, rfl, hcarries', fun b hb => hpre b (List.mem_cons_of_mem _ hb)⟩

theorem Blocks.not_carries (h : Blocks dep ix) : ¬Carries dep expected ix :=
  fun ⟨_, s, hinline, _⟩ => h.2 ⟨s, hinline⟩

end Scan

/-- **The scan.** The message is found wherever an instruction carries it, exactly if every instruction
that blocks and comes before one that carries the message also comes after one. -/
theorem scan_iff (dep : Deployment) (expected : Hash) (l : List TxInstruction) :
    ((∃ ix ∈ l, Carries dep expected ix) → ∃ r, findEd25519Verification dep expected l = .ok r) ↔
      ∀ pre b post, l = pre ++ b :: post → Blocks dep b → (∃ ix ∈ post, Carries dep expected ix) →
        ∃ ix ∈ pre, Carries dep expected ix := by
  classical
  rw [find_ok_iff]
  constructor
  · rintro h pre b post rfl hblocks ⟨ix, hix, hcarries⟩
    obtain ⟨pre', ix', post', hl, hcarries', hpre'⟩ :=
      h ⟨ix, List.mem_append_right _ (List.mem_cons_of_mem _ hix), hcarries⟩
    -- the block is not before the instruction that was found, and is not this one
    rcases List.append_eq_append_iff.1 hl with ⟨as, rfl, has⟩ | ⟨as, rfl, has⟩
    · cases as with
      | nil =>
        cases has
        exact absurd hcarries' hblocks.not_carries
      | cons a as =>
        cases has
        exact absurd hblocks (hpre' b (List.mem_append_right _ List.mem_cons_self))
    · cases as with
      | nil =>
        cases has
        exact absurd hcarries' hblocks.not_carries
      | cons a as =>
        cases has
        exact ⟨ix', List.mem_append_right _ List.mem_cons_self, hcarries'⟩
  · intro h hsome
    -- the first instruction that carries the message
    obtain ⟨ix, hix⟩ := Option.isSome_iff_exists.1 (List.find?_isSome (p := fun ix =>
      decide (Carries dep expected ix)) |>.2 (by simpa using hsome))
    obtain ⟨hcarries, pre, post, rfl, hpre⟩ := List.find?_eq_some_iff_append.1 hix
    refine ⟨pre, ix, post, rfl, of_decide_eq_true hcarries, fun b hb hblocks => ?_⟩
    obtain ⟨pre', post', rfl⟩ := List.append_of_mem hb
    obtain ⟨ix', hix', hcarries'⟩ := h pre' b (post' ++ ix :: post)
      (by rw [List.append_assoc, List.cons_append]) hblocks
      ⟨ix, List.mem_append_right _ List.mem_cons_self, of_decide_eq_true hcarries⟩
    have hnot := hpre ix' (List.mem_append_left _ hix')
    simp [hcarries'] at hnot

/-- An instruction without signatures, which the Ed25519 program accepts, before the verification. -/
def blockedScan : List TxInstruction := [⟨5, [0, 0]⟩, ⟨5, exampleData⟩]

/-- The verification is there, and the scan fails. -/
theorem blockedScan_not_found : ¬((∃ ix ∈ blockedScan, Carries exampleDeployment exampleMessage ix) →
    ∃ r, findEd25519Verification exampleDeployment exampleMessage blockedScan = .ok r) := by
  intro h
  have hparse : parseEd25519Ix exampleData =
      .ok (exampleKey, exampleSignature, toBytes exampleMessage) := by decide +kernel
  obtain ⟨r, hr⟩ := h ⟨⟨5, exampleData⟩, List.mem_cons_of_mem _ List.mem_cons_self, rfl, _,
    parseEd25519Ix_eq_ok.1 hparse, rfl⟩
  have hfail : findEd25519Verification exampleDeployment exampleMessage blockedScan =
      .error (.custom .invalidEd25519Ix) := by decide +kernel
  cases hfail.symm.trans hr

end Ddns.Escrow
