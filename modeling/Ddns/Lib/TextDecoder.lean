import Ddns.Lib.Js

/-!
# The text decoder

`TextDecoder.decode` for UTF-8. Bytes that are not UTF-8 become replacement characters, and a byte
order mark in front is dropped. A decoded text has at most as many code units as there are bytes, and
as many only if its characters are ASCII or replacements (`plain_of_length_eq`). The bytes of a text
are decoded to the text, without a byte order mark that it starts with (`decode_utf8`).
-/

namespace TextDecoder

/-- `U+FFFD` -/
def replacement : Char := Char.ofNat 0xfffd

/-- A character that is not complete yet: the bytes that it needs, its value so far, and the range
of the next byte. -/
structure Pending where
  needed : Nat
  codePoint : Nat
  lower : Nat
  upper : Nat
  deriving DecidableEq, Repr

/-- The first byte of a character. -/
def start (b : UInt8) : JsText × Option Pending :=
  let n := b.toNat
  if n < 0x80 then ([Char.ofNat n], none)
  else if 0xc2 ≤ n ∧ n ≤ 0xdf then ([], some ⟨1, n - 0xc0, 0x80, 0xbf⟩)
  else if 0xe0 ≤ n ∧ n ≤ 0xef then
    ([], some ⟨2, n - 0xe0, if n = 0xe0 then 0xa0 else 0x80, if n = 0xed then 0x9f else 0xbf⟩)
  else if 0xf0 ≤ n ∧ n ≤ 0xf4 then
    ([], some ⟨3, n - 0xf0, if n = 0xf0 then 0x90 else 0x80, if n = 0xf4 then 0x8f else 0xbf⟩)
  else ([replacement], none)

/-- The next byte. One that does not continue the character is read again, as a first byte. -/
def next : Option Pending → UInt8 → JsText × Option Pending
  | none, b => start b
  | some p, b =>
    if p.lower ≤ b.toNat ∧ b.toNat ≤ p.upper then
      let codePoint := p.codePoint * 64 + b.toNat % 64
      if p.needed = 1 then ([Char.ofNat codePoint], none)
      else ([], some ⟨p.needed - 1, codePoint, 0x80, 0xbf⟩)
    else (replacement :: (start b).1, (start b).2)

def decodeFrom : Option Pending → List UInt8 → JsText
  | none, [] => []
  | some _, [] => [replacement]
  | p, b :: bs => (next p b).1 ++ decodeFrom (next p b).2 bs

/-- The bytes without a byte order mark. -/
def dropMark (bytes : List UInt8) : List UInt8 :=
  if bytes.take 3 = [0xef, 0xbb, 0xbf] then bytes.drop 3 else bytes

def decode (bytes : List UInt8) : JsText := decodeFrom none (dropMark bytes)

/-! ## How long a text is -/

/-- The code units of a text. -/
def units (t : JsText) : Nat := t.codeUnits.length

/-- A character that a single byte can stand for. -/
def Plain (c : Char) : Prop := c.toNat < 128 ∨ c = replacement

theorem units_append (t t' : JsText) : units (t ++ t') = units t + units t' := by
  unfold units JsText.codeUnits
  rw [List.flatMap_append, List.length_append]

theorem units_singleton (c : Char) : units [c] = if c.toNat < 0x10000 then 1 else 2 := by
  unfold units JsText.codeUnits
  rw [List.flatMap_singleton]
  dsimp only
  split <;> rfl

theorem units_replacement : units [replacement] = 1 := by decide

theorem toNat_ofNat_le (n : Nat) : (Char.ofNat n).toNat ≤ n := by
  by_cases h : n.isValidChar
  · have hchar : Char.ofNat n = Char.ofNatAux n h := dif_pos h
    rw [hchar]
    exact Nat.le_refl _
  · have hzero : Char.ofNat n = ⟨0, .inl (by decide)⟩ := dif_neg h
    rw [hzero]
    exact Nat.zero_le _

theorem units_ofNat {n : Nat} (h : n < 0x10000) : units [Char.ofNat n] = 1 := by
  rw [units_singleton, if_pos (Nat.lt_of_le_of_lt (toNat_ofNat_le n) h)]

theorem units_singleton_le (c : Char) : units [c] ≤ 2 := by
  rw [units_singleton]
  split <;> decide

/-- The next byte completes no character that takes two units. -/
def Small (p : Pending) : Prop := p.needed = 1 → p.codePoint < 0x400

/-- What the first byte of a character can be. -/
inductive Started (b : UInt8) : JsText × Option Pending → Prop
  | ascii (h : b.toNat < 0x80) : Started b ([Char.ofNat b.toNat], none)
  | lead {p : Pending} (h : Small p) : Started b ([], some p)
  | invalid : Started b ([replacement], none)

theorem started (b : UInt8) : Started b (start b) := by
  unfold start
  dsimp only
  split
  · next h => exact .ascii h
  · split
    · exact .lead fun _ => by dsimp only; omega
    · split
      · exact .lead nofun
      · split
        · exact .lead nofun
        · exact .invalid

/-- A text is not longer than its bytes, and one of that length is plain. -/
def Bounded (t : JsText) (n : Nat) : Prop := units t ≤ n ∧ (units t = n → ∀ c ∈ t, Plain c)

theorem Bounded.cons_plain {c : Char} {t : JsText} {n : Nat} (h : Bounded t n) (hc : Plain c)
    (hunits : units [c] = 1) : Bounded (c :: t) (n + 1) := by
  have happend : units (c :: t) = units [c] + units t := units_append [c] t
  refine ⟨?_, fun heq c' hc' => ?_⟩
  · rw [happend, hunits]
    have hle := h.1
    omega
  · rcases List.mem_cons.1 hc' with rfl | hc'
    · exact hc
    · exact h.2 (by omega) c' hc'

theorem bounded (bs : List UInt8) : Bounded (decodeFrom none bs) bs.length ∧
    ∀ p, units (decodeFrom (some p) bs) ≤ bs.length + 1 ∧
      (Small p → Bounded (decodeFrom (some p) bs) (bs.length + 1)) := by
  induction bs with
  | nil =>
    refine ⟨⟨Nat.le_refl _, nofun⟩, fun p => ⟨Nat.le_refl _, fun _ => ⟨Nat.le_refl _, fun _ c hc => ?_⟩⟩⟩
    exact .inr (List.mem_singleton.1 hc)
  | cons b bs ih =>
    obtain ⟨hidle, hpending⟩ := ih
    have hfirst : Bounded (decodeFrom none (b :: bs)) (bs.length + 1) := by
      show Bounded ((start b).1 ++ decodeFrom (start b).2 bs) _
      have hstarted := started b
      revert hstarted
      generalize start b = r
      intro hstarted
      cases hstarted with
      | ascii h =>
        have hle := toNat_ofNat_le b.toNat
        exact hidle.cons_plain (.inl (by omega)) (units_ofNat (by omega))
      | lead h => exact (hpending _).2 h
      | invalid => exact hidle.cons_plain (.inr rfl) units_replacement
    refine ⟨hfirst, fun p => ?_⟩
    have hrest : decodeFrom (some p) (b :: bs) =
        if p.lower ≤ b.toNat ∧ b.toNat ≤ p.upper then
          if p.needed = 1 then
            Char.ofNat (p.codePoint * 64 + b.toNat % 64) :: decodeFrom none bs
          else decodeFrom
            (some ⟨p.needed - 1, p.codePoint * 64 + b.toNat % 64, 0x80, 0xbf⟩) bs
        else replacement :: decodeFrom none (b :: bs) := by
      show (next (some p) b).1 ++ decodeFrom (next (some p) b).2 bs = _
      unfold next
      dsimp only
      split
      · split <;> rfl
      · rfl
    rw [hrest, List.length_cons]
    split
    · split
      · -- the last byte of a character
        next hneeded =>
        have hle := units_singleton_le (Char.ofNat (p.codePoint * 64 + b.toNat % 64))
        have happend : units (Char.ofNat (p.codePoint * 64 + b.toNat % 64) :: decodeFrom none bs) =
            units [Char.ofNat (p.codePoint * 64 + b.toNat % 64)] + units (decodeFrom none bs) :=
          units_append [_] _
        have hidle := hidle.1
        refine ⟨by omega, fun hsmall => ?_⟩
        have hcode := hsmall hneeded
        have hone := units_ofNat (n := p.codePoint * 64 + b.toNat % 64) (by omega)
        exact ⟨by omega, fun heq => by omega⟩
      · -- one of the others
        have hle := (hpending ⟨p.needed - 1, p.codePoint * 64 + b.toNat % 64, 0x80, 0xbf⟩).1
        exact ⟨by omega, fun _ => ⟨by omega, fun heq => by omega⟩⟩
    · have hbounded := hfirst.cons_plain (.inr rfl) units_replacement
      exact ⟨hbounded.1, fun _ => hbounded⟩

/-- A text with as many code units as there are bytes is plain. -/
theorem plain_of_length_eq (bytes : List UInt8) (h : units (decode bytes) = bytes.length) :
    ∀ c ∈ decode bytes, Plain c := by
  have hbounded := (bounded (dropMark bytes)).1
  refine hbounded.2 (le_antisymm hbounded.1 ?_)
  have hlen : (dropMark bytes).length ≤ bytes.length := by
    unfold dropMark
    split
    · rw [List.length_drop]
      exact Nat.sub_le _ _
    · exact Nat.le_refl _
  exact hlen.trans h.ge

/-- The byte that `charCodeAt & 0xff` gives for a plain character. -/
theorem next_plain {c : Char} (h : Plain c) : next none (UInt8.ofNat c.toNat) = ([c], none) := by
  rcases h with h | rfl
  · have hbyte : (UInt8.ofNat c.toNat).toNat = c.toNat := by
      rw [UInt8.toNat_ofNat']
      omega
    unfold next start
    dsimp only
    rw [hbyte, if_pos h, Char.ofNat_toNat]
  · decide

/-- The low bytes of a plain text are decoded to it. -/
theorem decode_plain {t : JsText} (h : ∀ c ∈ t, Plain c) :
    decode (t.map fun c => UInt8.ofNat c.toNat) = t := by
  have hfrom : decodeFrom none (t.map fun c => UInt8.ofNat c.toNat) = t := by
    induction t with
    | nil => rfl
    | cons c t ih =>
      rw [List.map_cons, decodeFrom, next_plain (h c List.mem_cons_self),
        ih fun c' hc => h c' (List.mem_cons_of_mem c hc)]
      rfl
  have hmark : dropMark (t.map fun c => UInt8.ofNat c.toNat) = t.map fun c => UInt8.ofNat c.toNat := by
    unfold dropMark
    rw [if_neg]
    cases t with
    | nil => decide
    | cons c t =>
      intro heq
      rw [List.map_cons, List.take_succ_cons] at heq
      have hhead := congrArg UInt8.toNat (List.cons.inj heq).1
      rw [UInt8.toNat_ofNat'] at hhead
      rcases h c List.mem_cons_self with hc | rfl
      · simp at hhead
        omega
      · revert hhead
        decide
  unfold decode
  rw [hmark, hfrom]

/-! ## The bytes of a text -/

theorem decodeFrom_cons (p : Option Pending) (b : UInt8) (bs : List UInt8) :
    decodeFrom p (b :: bs) = (next p b).1 ++ decodeFrom (next p b).2 bs := by
  cases p <;> rfl

theorem toNat_ofNat_byte {n : ℕ} (hn : n < 256) : (UInt8.ofNat n).toNat = n := by
  rw [UInt8.toNat_ofNat']
  exact Nat.mod_eq_of_lt hn

theorem decodeFrom_ascii {n : ℕ} (hn : n < 0x80) (bs : List UInt8) :
    decodeFrom none (UInt8.ofNat n :: bs) = Char.ofNat n :: decodeFrom none bs := by
  rw [decodeFrom_cons, next, start, toNat_ofNat_byte (by omega), if_pos hn]
  rfl

/-- The first byte of a character of two bytes. -/
theorem decodeFrom_lead₂ {n : ℕ} (hlower : 0xc2 ≤ n) (hupper : n ≤ 0xdf) (bs : List UInt8) :
    decodeFrom none (UInt8.ofNat n :: bs) = decodeFrom (some ⟨1, n - 0xc0, 0x80, 0xbf⟩) bs := by
  rw [decodeFrom_cons, next, start, toNat_ofNat_byte (by omega), if_neg (by omega), if_pos ⟨hlower, hupper⟩]
  rfl

/-- The first byte of a character of three bytes. -/
theorem decodeFrom_lead₃ {n : ℕ} (hlower : 0xe0 ≤ n) (hupper : n ≤ 0xef) (bs : List UInt8) :
    decodeFrom none (UInt8.ofNat n :: bs) = decodeFrom (some ⟨2, n - 0xe0,
      if n = 0xe0 then 0xa0 else 0x80, if n = 0xed then 0x9f else 0xbf⟩) bs := by
  rw [decodeFrom_cons, next, start, toNat_ofNat_byte (by omega), if_neg (by omega), if_neg (by omega), if_pos ⟨hlower, hupper⟩]
  rfl

/-- The first byte of a character of four bytes. -/
theorem decodeFrom_lead₄ {n : ℕ} (hlower : 0xf0 ≤ n) (hupper : n ≤ 0xf4) (bs : List UInt8) :
    decodeFrom none (UInt8.ofNat n :: bs) = decodeFrom (some ⟨3, n - 0xf0,
      if n = 0xf0 then 0x90 else 0x80, if n = 0xf4 then 0x8f else 0xbf⟩) bs := by
  rw [decodeFrom_cons, next, start, toNat_ofNat_byte (by omega), if_neg (by omega), if_neg (by omega), if_neg (by omega), if_pos ⟨hlower, hupper⟩]
  rfl

/-- The last byte of a character. -/
theorem decodeFrom_last {codePoint lower upper n : ℕ} (hn : n < 256) (hlower : lower ≤ n)
    (hupper : n ≤ upper) (bs : List UInt8) :
    decodeFrom (some ⟨1, codePoint, lower, upper⟩) (UInt8.ofNat n :: bs) =
      Char.ofNat (codePoint * 64 + n % 64) :: decodeFrom none bs := by
  rw [decodeFrom_cons, next, toNat_ofNat_byte hn, if_pos ⟨hlower, hupper⟩]
  rfl

/-- Another byte of a character. -/
theorem decodeFrom_more {needed codePoint lower upper n : ℕ} (hn : n < 256) (hlower : lower ≤ n)
    (hupper : n ≤ upper) (bs : List UInt8) :
    decodeFrom (some ⟨needed + 2, codePoint, lower, upper⟩) (UInt8.ofNat n :: bs) =
      decodeFrom (some ⟨needed + 1, codePoint * 64 + n % 64, 0x80, 0xbf⟩) bs := by
  rw [decodeFrom_cons, next, toNat_ofNat_byte hn, if_pos ⟨hlower, hupper⟩]
  dsimp only
  rw [if_neg (by omega)]
  rfl

/-- **A character** is decoded from its bytes, whatever follows. -/
theorem decodeFrom_char (c : Char) (bs : List UInt8) :
    decodeFrom none (String.utf8EncodeChar c ++ bs) = c :: decodeFrom none bs := by
  have hvalid : c.val.toNat < 0xd800 ∨ 0xdfff < c.val.toNat ∧ c.val.toNat < 0x110000 := c.valid
  have hc : c :: decodeFrom none bs = Char.ofNat c.val.toNat :: decodeFrom none bs := by
    rw [show Char.ofNat c.val.toNat = c from Char.ofNat_toNat c]
  unfold String.utf8EncodeChar
  rw [hc]
  generalize c.val.toNat = v at hvalid
  dsimp only
  split
  · exact decodeFrom_ascii (by omega) bs
  split
  · simp only [List.cons_append, List.nil_append]
    rw [decodeFrom_lead₂ (by omega) (by omega), decodeFrom_last (by omega) (by omega) (by omega)]
    congr 2
    omega
  split
  · simp only [List.cons_append, List.nil_append]
    rw [decodeFrom_lead₃ (by omega) (by omega), decodeFrom_more (by omega) (by split <;> omega)
      (by split <;> omega), decodeFrom_last (by omega) (by omega) (by omega)]
    congr 2
    omega
  · simp only [List.cons_append, List.nil_append]
    rw [decodeFrom_lead₄ (by omega) (by omega), decodeFrom_more (by omega) (by split <;> omega)
      (by split <;> omega), decodeFrom_more (by omega) (by omega) (by omega),
      decodeFrom_last (by omega) (by omega) (by omega)]
    congr 2
    omega

theorem decodeFrom_utf8 (t : JsText) : decodeFrom none (JsText.utf8 t) = t := by
  induction t with
  | nil => rfl
  | cons c t ih =>
    have hutf8 : JsText.utf8 (c :: t) = String.utf8EncodeChar c ++ JsText.utf8 t := List.flatMap_cons ..
    rw [hutf8, decodeFrom_char, ih]

/-- `U+FEFF` -/
def mark : Char := Char.ofNat 0xfeff

/-- **The bytes of a text** are decoded to it, without a byte order mark in front. -/
theorem decode_utf8 (t : JsText) :
    decode (JsText.utf8 t) = if t.head? = some mark then t.tail else t := by
  unfold decode dropMark
  by_cases hmark : t.head? = some mark
  · obtain ⟨t, rfl⟩ := List.head?_eq_some_iff.1 hmark
    have hutf8 : JsText.utf8 (mark :: t) = [0xef, 0xbb, 0xbf] ++ JsText.utf8 t :=
      List.flatMap_cons ..
    have htake : (JsText.utf8 (mark :: t)).take 3 = [0xef, 0xbb, 0xbf] := by
      rw [hutf8]
      rfl
    rw [if_pos htake, if_pos hmark, hutf8]
    exact decodeFrom_utf8 t
  · rw [if_neg hmark, if_neg, decodeFrom_utf8]
    intro htake
    have hbytes : JsText.utf8 t = String.utf8EncodeChar mark ++ (JsText.utf8 t).drop 3 := by
      rw [← List.take_append_drop 3 (JsText.utf8 t), htake]
      rfl
    have ht := decodeFrom_utf8 t
    rw [hbytes, decodeFrom_char] at ht
    rw [← ht] at hmark
    exact hmark rfl

end TextDecoder
