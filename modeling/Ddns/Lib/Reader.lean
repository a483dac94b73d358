import Ddns.Lib.Bytes

/-!
# Readers of byte strings

A reader reads a byte string at an offset, moves the offset, and may throw. `Finds r e a` says that
`r` finds `a` wherever the bytes `e` stand, and stops behind them; the rules for `bind` and `many`
build the reader of a format from those of its parts. `Spans` is the way back: which bytes stand
between two offsets.
-/

namespace Bytes

/-- A reader of byte strings, with its offset. -/
abbrev Reader (ε : Type) := ReaderT (List UInt8) (StateT Nat (Except ε))

namespace Reader

variable {ε α : Type}

/-- An integer of `n` bytes; it throws where the string is too short. -/
def uint (e : ε) (n : Nat) : Reader ε Nat := fun bs off =>
  if off + n ≤ bs.length then .ok (leNat (slice bs off n), off + n) else .error e

/-- The next `n` bytes, fewer where the string ends; the offset moves by `n` all the same. -/
def bytes (n : Nat) : Reader ε (List UInt8) := fun bs off => .ok (slice bs off n, off + n)

/-- The next byte, if there is one. -/
def byte : Reader ε (Option UInt8) := fun bs off => .ok (bs[off]?, off + 1)

/-- The value at an offset. -/
def valueAt (r : Reader ε α) (bs : List UInt8) (off : Nat) : Except ε α := (r bs off).map Prod.fst

/-- `n` values, one after the other. -/
def many (r : Reader ε α) : Nat → Reader ε (List α)
  | 0 => pure []
  | n + 1 => do
    let a ← r
    let as ← many r n
    return a :: as

end Reader

section Finds

variable {ε α β : Type}

/-- Where `e` stands, `r` returns `a` and stops behind it. -/
def Finds (r : Reader ε α) (e : List UInt8) (a : α) : Prop :=
  ∀ pre post, r (pre ++ (e ++ post)) pre.length = .ok (a, pre.length + e.length)

theorem Finds.pure (a : α) : Finds (Pure.pure a : Reader ε α) [] a := fun _ _ => rfl

theorem Finds.bind {r : Reader ε α} {f : α → Reader ε β} {e e' : List UInt8} {a : α} {b : β}
    (h : Finds r e a) (h' : Finds (f a) e' b) : Finds (r >>= f) (e ++ e') b := by
  intro pre post
  have hfirst := h pre (e' ++ post)
  have hsecond := h' (pre ++ e) post
  rw [List.append_assoc, List.length_append] at hsecond
  rw [List.append_assoc, List.length_append, ← Nat.add_assoc]
  show (r _ _ >>= fun p => f p.1 _ p.2) = _
  rw [hfirst]
  exact hsecond

theorem slice_mid (pre e post : List UInt8) : slice (pre ++ (e ++ post)) pre.length e.length = e := by
  unfold slice
  rw [List.drop_left, List.take_left]

theorem finds_uint {n v : Nat} (err : ε) (hv : v < 256 ^ n) :
    Finds (Reader.uint err n) (toLe n v) v := by
  intro pre post
  have hslice := slice_mid pre (toLe n v) post
  rw [length_toLe] at hslice
  have hlen : pre.length + n ≤ (pre ++ (toLe n v ++ post)).length := by
    rw [List.length_append, List.length_append, length_toLe]
    omega
  unfold Reader.uint
  rw [if_pos hlen, hslice, leNat_toLe, Nat.mod_eq_of_lt hv, length_toLe]

theorem finds_bytes (e : List UInt8) : Finds (Reader.bytes e.length : Reader ε _) e e := by
  intro pre post
  unfold Reader.bytes
  rw [slice_mid]

theorem finds_byte (b : UInt8) : Finds (Reader.byte : Reader ε _) [b] (some b) := by
  intro pre post
  unfold Reader.byte
  rw [List.getElem?_append_right (Nat.le_refl _), Nat.sub_self]
  rfl

/-- The value between what stands before and after it. -/
theorem Finds.valueAt {r : Reader ε α} {pre e post bs : List UInt8} {a : α} {off : Nat}
    (h : Finds r e a) (hbs : bs = pre ++ (e ++ post)) (hoff : off = pre.length) :
    r.valueAt bs off = .ok a := by
  subst hbs hoff
  unfold Reader.valueAt
  rw [h pre post]
  rfl

/-- The bytes between what stands before and after them. -/
theorem slice_eq {pre e post bs : List UInt8} {off n : Nat} (hbs : bs = pre ++ (e ++ post))
    (hoff : off = pre.length) (hn : n = e.length) : slice bs off n = e := by
  subst hbs hoff hn
  exact slice_mid pre e post

/-- The values of a list, each where its bytes stand. -/
theorem Finds.many {r : Reader ε α} {enc : β → List UInt8} {f : β → α} {bs : List β}
    (h : ∀ b ∈ bs, Finds r (enc b) (f b)) : Finds (r.many bs.length) (bs.flatMap enc) (bs.map f) := by
  induction bs with
  | nil => exact Finds.pure _
  | cons b bs ih =>
    rw [List.flatMap_cons]
    refine (h b List.mem_cons_self).bind ?_
    have hrest : Finds (r.many bs.length >>= fun as => Pure.pure (f b :: as))
        (bs.flatMap enc ++ []) (f b :: bs.map f) :=
      (ih fun b' hb => h b' (List.mem_cons_of_mem b hb)).bind (Finds.pure _)
    rw [List.append_nil] at hrest
    exact hrest

/-- The values of a list whose bytes are written one by one. -/
theorem Finds.mapM {ε' : Type} {r : Reader ε α} {encode : β → Except ε' (List UInt8)} {f : β → α}
    {bs : List β} {parts : List (List UInt8)}
    (h : ∀ b ∈ bs, ∀ e, encode b = .ok e → Finds r e (f b)) (hparts : bs.mapM encode = .ok parts) :
    Finds (r.many bs.length) parts.flatten (bs.map f) := by
  induction bs generalizing parts with
  | nil =>
    rw [List.mapM_nil] at hparts
    cases hparts
    exact Finds.pure _
  | cons b bs ih =>
    rw [List.mapM_cons] at hparts
    cases hb : encode b with
    | error e =>
      rw [hb] at hparts
      cases hparts
    | ok e =>
      rw [hb] at hparts
      cases hbs : bs.mapM encode with
      | error e' =>
        rw [hbs] at hparts
        cases hparts
      | ok parts' =>
        rw [hbs] at hparts
        cases hparts
        rw [List.flatten_cons, ← List.append_nil parts'.flatten]
        refine (h b List.mem_cons_self e hb).bind ?_
        exact (ih (fun b' hb' => h b' (List.mem_cons_of_mem b hb')) hbs).bind (Finds.pure _)

end Finds

section Returns

variable {ε α β : Type}

/-- Whatever `r` returns satisfies `P`. -/
def Returns (r : Reader ε α) (P : α → Prop) : Prop :=
  ∀ bs off a off', r bs off = .ok (a, off') → P a

theorem Returns.any (r : Reader ε α) : Returns r fun _ => True := fun _ _ _ _ _ => trivial

theorem Returns.pure {a : α} {P : α → Prop} (h : P a) : Returns (Pure.pure a : Reader ε α) P := by
  intro bs off a' off' heq
  cases heq
  exact h

theorem Returns.bind {r : Reader ε α} {f : α → Reader ε β} {P : α → Prop} {Q : β → Prop}
    (h : Returns r P) (h' : ∀ a, P a → Returns (f a) Q) : Returns (r >>= f) Q := by
  intro bs off b off'' heq
  cases hr : r bs off with
  | error e =>
    change (r bs off >>= fun p => f p.1 bs p.2) = _ at heq
    rw [hr] at heq
    cases heq
  | ok p =>
    change (r bs off >>= fun p => f p.1 bs p.2) = _ at heq
    rw [hr] at heq
    exact h' p.1 (h bs off p.1 p.2 hr) bs p.2 b off'' heq

theorem Returns.uint (e : ε) (n : Nat) : Returns (Reader.uint e n) (· < 256 ^ n) := by
  intro bs off v off' heq
  unfold Reader.uint at heq
  split at heq
  · cases heq
    exact leNat_slice_lt bs off n
  · cases heq

/-- `many` returns as many values as it is asked for. -/
theorem Returns.many (r : Reader ε α) (n : Nat) : Returns (r.many n) (·.length = n) := by
  induction n with
  | zero => exact Returns.pure rfl
  | succ n ih =>
    refine (Returns.any r).bind fun a _ => ih.bind fun as has => Returns.pure ?_
    rw [List.length_cons, has]

end Returns

section Spans

variable {ε α β : Type} {bs : List UInt8} {off off' off'' : Nat}

/-- The bytes `e` stand between the offsets. -/
structure Spans (bs : List UInt8) (off : Nat) (e : List UInt8) (off' : Nat) : Prop where
  drop : bs.drop off = e ++ bs.drop off'
  offset : off' = off + e.length

theorem Spans.nil (bs : List UInt8) (off : Nat) : Spans bs off [] off := ⟨rfl, rfl⟩

theorem Spans.append {e e' : List UInt8} (h : Spans bs off e off') (h' : Spans bs off' e' off'') :
    Spans bs off (e ++ e') off'' := by
  constructor
  · rw [h.drop, h'.drop, List.append_assoc]
  · rw [h'.offset, h.offset, List.length_append, Nat.add_assoc]

theorem spans_slice {n : Nat} (h : off + n ≤ bs.length) : Spans bs off (slice bs off n) (off + n) := by
  constructor
  · unfold slice
    rw [← List.drop_drop, List.take_append_drop]
  · rw [length_slice h]

theorem Spans.le {e : List UInt8} (h : Spans bs off e off') : off ≤ off' := by
  rw [h.offset]
  exact Nat.le_add_right _ _

/-- A byte string is what stands from its start to its end. -/
theorem Spans.eq {e : List UInt8} (h : Spans bs 0 e bs.length) : bs = e := by
  have hdrop := h.drop
  rw [List.drop_zero, List.drop_length, List.append_nil] at hdrop
  exact hdrop

/-- An integer stands where its bytes do. -/
theorem spans_toLe {n : Nat} (h : off + n ≤ bs.length) :
    Spans bs off (toLe n (leNat (slice bs off n))) (off + n) := by
  have hle := toLe_leNat (slice bs off n)
  rw [length_slice h] at hle
  rw [hle]
  exact spans_slice h

theorem uint_of_le {err : ε} {n : Nat} (h : off + n ≤ bs.length) :
    Reader.uint err n bs off = .ok (leNat (slice bs off n), off + n) := if_pos h

theorem uint_of_lt {err : ε} {n : Nat} (h : ¬off + n ≤ bs.length) :
    Reader.uint err n bs off = .error err := if_neg h

theorem bind_of_ok {r : Reader ε α} {f : α → Reader ε β} {a : α} (h : r bs off = .ok (a, off')) :
    (r >>= f) bs off = f a bs off' := by
  show (r bs off >>= fun p => f p.1 bs p.2) = _
  rw [h]
  rfl

theorem bind_of_error {r : Reader ε α} {f : α → Reader ε β} {e : ε} (h : r bs off = .error e) :
    (r >>= f) bs off = .error e := by
  show (r bs off >>= fun p => f p.1 bs p.2) = _
  rw [h]
  rfl

end Spans

end Bytes
