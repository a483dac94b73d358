import Mathlib.Data.List.TakeWhile
import Mathlib.Data.Nat.Digits.Lemmas

/-!
# Conversion between radices

A number is written with its most significant digit first, and `convert` writes it in another base, with
as many zeros in front. That loses nothing (`convert_convert`). The usual program for it keeps the digits
of the result with the least significant one first, and multiplies and adds with a carry (`mulAdd`);
starting from no digits it computes the digits of the number (`mulAdd_digits`), and starting from one
zero it does so for every number but zero (`accumulate_eq`).
-/

namespace Radix

/-! ## Numbers and their digits -/

/-- The number that digits stand for, the most significant one first. -/
def number (base : ℕ) (ds : List ℕ) : ℕ := Nat.ofDigits base ds.reverse

/-- The digits of a number, the most significant one first; zero has none. -/
def written (base n : ℕ) : List ℕ := (Nat.digits base n).reverse

/-- The zeros in front. -/
def leading (ds : List ℕ) : ℕ := (ds.takeWhile (· = 0)).length

/-- Digits in another base, with as many zeros in front. -/
def convert (base base' : ℕ) (ds : List ℕ) : List ℕ :=
  List.replicate (leading ds) 0 ++ written base' (number base ds)

variable {base base' mult carry n : ℕ} {ds : List ℕ}

theorem number_append_singleton (d : ℕ) : number base (ds ++ [d]) = number base ds * base + d := by
  unfold number
  rw [List.reverse_append, List.reverse_singleton, List.singleton_append, Nat.ofDigits_cons]
  ring

theorem number_replicate_append (k : ℕ) : number base (List.replicate k 0 ++ ds) = number base ds := by
  unfold number
  rw [List.reverse_append, List.reverse_replicate, Nat.ofDigits_append_replicate_zero]

theorem number_written : number base (written base n) = n := by
  unfold number written
  rw [List.reverse_reverse, Nat.ofDigits_digits]

theorem number_eq_zero_iff (hbase : 0 < base) : number base ds = 0 ↔ ∀ d ∈ ds, d = 0 := by
  constructor
  · intro h d hd
    exact Nat.digits_zero_of_eq_zero hbase.ne' h d (List.mem_reverse.2 hd)
  · intro h
    rw [List.eq_replicate_of_mem h, ← List.append_nil (List.replicate _ _), number_replicate_append]
    rfl

theorem written_lt (hbase : 1 < base) : ∀ d ∈ written base n, d < base := fun _ hd =>
  Nat.digits_lt_base hbase (List.mem_reverse.1 hd)

theorem convert_lt (hbase' : 1 < base') : ∀ d ∈ convert base base' ds, d < base' := by
  intro d hd
  rcases List.mem_append.1 hd with hzero | hwritten
  · rw [List.eq_of_mem_replicate hzero]
    exact Nat.zero_lt_of_lt hbase'
  · exact written_lt hbase' d hwritten

/-! ## Conversion and back -/

/-- Digits are their zeros in front and the rest. -/
theorem replicate_leading_append (ds : List ℕ) :
    List.replicate (leading ds) 0 ++ ds.dropWhile (· = 0) = ds := by
  have hzeros : ds.takeWhile (· = 0) = List.replicate (leading ds) 0 := by
    refine List.eq_replicate_of_mem fun d hd => ?_
    simpa using List.mem_takeWhile_imp hd
  rw [← hzeros, List.takeWhile_append_dropWhile]

theorem leading_replicate_append {k : ℕ} (h : ∀ d ∈ ds.head?, d ≠ 0) :
    leading (List.replicate k 0 ++ ds) = k := by
  unfold leading
  induction k with
  | zero =>
    cases ds with
    | nil => rfl
    | cons d ds => simp [h d rfl]
  | succ k ih =>
    rw [List.replicate_succ, List.cons_append, List.takeWhile_cons_of_pos (by simp), List.length_cons,
      ih]

theorem head_written : ∀ d ∈ (written base n).head?, d ≠ 0 := by
  intro d hd
  have hne : Nat.digits base n ≠ [] := by
    rintro hnil
    rw [written, hnil] at hd
    cases hd
  have hlast : d = (Nat.digits base n).getLast hne := by
    unfold written at hd
    rw [List.head?_reverse, List.getLast?_eq_some_getLast hne] at hd
    exact (Option.some.inj hd).symm
  rw [hlast]
  exact Nat.getLast_digit_ne_zero base (Nat.digits_ne_nil_iff_ne_zero.1 hne)

/-- Digits without a zero in front are those of their number. -/
theorem written_number (hbase : 1 < base) (hds : ∀ d ∈ ds, d < base) (h : ∀ d ∈ ds.head?, d ≠ 0) :
    written base (number base ds) = ds := by
  unfold written number
  rw [Nat.digits_ofDigits base hbase, List.reverse_reverse]
  · intro d hd
    exact hds d (List.mem_reverse.1 hd)
  · intro hne
    refine h _ ?_
    rw [List.getLast_reverse]
    exact List.head?_eq_some_head _

/-- **Conversion loses nothing.** -/
theorem convert_convert (hbase : 1 < base) (hds : ∀ d ∈ ds, d < base) :
    convert base' base (convert base base' ds) = ds := by
  have hnumber : number base ds = number base (ds.dropWhile (· = 0)) := by
    conv_lhs => rw [← replicate_leading_append ds]
    exact number_replicate_append _
  have hhead : ∀ d ∈ (ds.dropWhile (· = 0)).head?, d ≠ 0 := by
    intro d hd hzero
    have hfalse := List.head?_dropWhile_not (· = 0) ds
    rw [hd] at hfalse
    simp [hzero] at hfalse
  have hrest : ∀ d ∈ ds.dropWhile (· = 0), d < base := fun d hd =>
    hds d ((List.dropWhile_suffix _).subset hd)
  unfold convert
  rw [leading_replicate_append head_written, number_replicate_append, number_written, hnumber,
    written_number hbase hrest hhead]
  exact replicate_leading_append ds

/-! ## The first digit -/

theorem number_cons (d : ℕ) (ds : List ℕ) :
    number base (d :: ds) = d * base ^ ds.length + number base ds := by
  unfold number
  rw [List.reverse_cons, Nat.ofDigits_append, Nat.ofDigits_singleton, List.length_reverse]
  ring

theorem number_lt (hbase : 1 < base) (hds : ∀ d ∈ ds, d < base) : number base ds < base ^ ds.length := by
  rw [← List.length_reverse]
  exact Nat.ofDigits_lt_base_pow_length hbase fun d hd => hds d (List.mem_reverse.1 hd)

/-- **The first digit** of a number is told by its size. -/
theorem written_of_bounds {d k : ℕ} (hd : 0 < d) (hlt : d < base) (hlower : d * base ^ k ≤ n)
    (hupper : n < (d + 1) * base ^ k) : ∃ ds, written base n = d :: ds := by
  have hbase : 1 < base := by omega
  have hpos : 0 < base ^ k := Nat.pow_pos (by omega)
  have hn : 0 < n := (Nat.mul_pos hd hpos).trans_le hlower
  have hwritten : written base n ≠ [] := by
    rw [written, Ne, List.reverse_eq_nil_iff]
    exact Nat.digits_ne_nil_iff_ne_zero.2 hn.ne'
  obtain ⟨e, ds, he⟩ := List.exists_cons_of_ne_nil hwritten
  have hne : e ≠ 0 := head_written e (by rw [he]; rfl)
  have helt : e < base := written_lt hbase e (by rw [he]; exact List.mem_cons_self)
  have hnumber : n = e * base ^ ds.length + number base ds := by
    rw [← number_cons, ← he, number_written]
  have hrest : number base ds < base ^ ds.length :=
    number_lt hbase fun x hx => written_lt hbase x (by rw [he]; exact List.mem_cons_of_mem e hx)
  have hbelow : n < (e + 1) * base ^ ds.length := by
    rw [hnumber, Nat.succ_mul]
    exact Nat.add_lt_add_left hrest _
  have habove : e * base ^ ds.length ≤ n := by
    rw [hnumber]
    exact Nat.le_add_right _ _
  have hlength : ds.length = k := by
    rcases lt_trichotomy ds.length k with hshort | heq | hlong
    · have hle : (e + 1) * base ^ ds.length ≤ d * base ^ k :=
        calc (e + 1) * base ^ ds.length ≤ base * base ^ ds.length := Nat.mul_le_mul_right _ helt
          _ = base ^ (ds.length + 1) := (pow_succ' base ds.length).symm
          _ ≤ base ^ k := Nat.pow_le_pow_right (by omega) hshort
          _ ≤ d * base ^ k := Nat.le_mul_of_pos_left _ hd
      exact absurd (hbelow.trans_le (hle.trans hlower)) (lt_irrefl n)
    · exact heq
    · have hle : (d + 1) * base ^ k ≤ e * base ^ ds.length :=
        calc (d + 1) * base ^ k ≤ base * base ^ k := Nat.mul_le_mul_right _ hlt
          _ = base ^ (k + 1) := (pow_succ' base k).symm
          _ ≤ base ^ ds.length := Nat.pow_le_pow_right (by omega) hlong
          _ ≤ e * base ^ ds.length := Nat.le_mul_of_pos_left _ (Nat.pos_of_ne_zero hne)
      exact absurd (hupper.trans_le (hle.trans habove)) (lt_irrefl n)
  rw [hlength] at hbelow habove
  have hde : d < e + 1 := Nat.lt_of_mul_lt_mul_right (hlower.trans_lt hbelow)
  have hed : e < d + 1 := Nat.lt_of_mul_lt_mul_right (habove.trans_lt hupper)
  exact ⟨ds, by rw [he, show e = d by omega]⟩

/-! ## The loop with a carry -/

/-- Multiply a number by `mult` and add `carry`, on its digits with the least significant one first;
what is left of the carry is put behind. -/
def mulAdd (base mult : ℕ) : ℕ → List ℕ → List ℕ
  | carry, [] => Nat.digits base carry
  | carry, d :: ds =>
    ((d * mult + carry) % base) :: mulAdd base mult ((d * mult + carry) / base) ds

theorem mulAdd_digits (hbase : 1 < base) (hmult : 0 < mult) (carry n : ℕ) :
    mulAdd base mult carry (Nat.digits base n) = Nat.digits base (n * mult + carry) := by
  induction n using Nat.strong_induction_on generalizing carry with
  | _ n ih =>
    rcases Nat.eq_zero_or_pos n with rfl | hpos
    · rw [Nat.digits_zero, Nat.zero_mul, Nat.zero_add]
      rfl
    · have hsplit : n * mult + carry = (n % base * mult + carry) + base * (n / base * mult) := by
        conv_lhs => rw [← Nat.mod_add_div n base]
        ring
      have hresult : 0 < n * mult + carry := Nat.add_pos_left (Nat.mul_pos hpos hmult) carry
      rw [Nat.digits_def' hbase hpos, mulAdd, ih _ (Nat.div_lt_self hpos hbase),
        Nat.digits_def' hbase hresult, hsplit, Nat.add_mul_mod_self_left,
        Nat.add_mul_div_left _ _ (Nat.zero_lt_of_lt hbase), Nat.add_comm (n / base * mult)]

/-- The digits of a number with the least significant one first; zero has one. -/
def started (base n : ℕ) : List ℕ := if n = 0 then [0] else Nat.digits base n

theorem mulAdd_started (hbase : 1 < base) (hmult : 0 < mult) (carry n : ℕ) :
    mulAdd base mult carry (started base n) = started base (n * mult + carry) := by
  unfold started
  by_cases hn : n = 0
  · rw [if_pos hn, hn, Nat.zero_mul, Nat.zero_add, mulAdd, mulAdd, Nat.zero_mul, Nat.zero_add]
    split
    · rename_i hcarry
      rw [hcarry, Nat.zero_mod, Nat.zero_div, Nat.digits_zero]
    · rename_i hcarry
      rw [Nat.digits_def' hbase (Nat.pos_of_ne_zero hcarry)]
  · have hresult : n * mult + carry ≠ 0 :=
      (Nat.add_pos_left (Nat.mul_pos (Nat.pos_of_ne_zero hn) hmult) carry).ne'
    rw [if_neg hn, if_neg hresult, mulAdd_digits hbase hmult]

/-- The loop over digits in base `mult`, started from one zero. -/
def accumulate (base mult : ℕ) (ds : List ℕ) : List ℕ :=
  ds.foldl (fun acc d => mulAdd base mult d acc) [0]

/-- **The loop** computes the digits of the number. -/
theorem accumulate_eq (hbase : 1 < base) (hmult : 0 < mult) (ds : List ℕ) :
    accumulate base mult ds = started base (number mult ds) := by
  unfold accumulate
  induction ds using List.reverseRecOn with
  | nil => rfl
  | append_singleton ds d ih =>
    rw [List.foldl_append, ih, List.foldl_cons, List.foldl_nil, mulAdd_started hbase hmult,
      number_append_singleton]

theorem accumulate_of_ne_zero (hbase : 1 < base) (hmult : 0 < mult) (h : number mult ds ≠ 0) :
    (accumulate base mult ds).reverse = written base (number mult ds) := by
  rw [accumulate_eq hbase hmult, started, if_neg h]
  rfl

theorem accumulate_of_zero (hbase : 1 < base) (hmult : 0 < mult) (h : number mult ds = 0) :
    accumulate base mult ds = [0] := by
  rw [accumulate_eq hbase hmult, started, if_pos h]

end Radix

/-!
## Base 58

Bytes are written as a number in base 58, with a one for each zero byte in front. Every text of digits
has its bytes, and bytes are read back from their text (`decode_encode`).
-/

namespace Base58

def alphabet : List Char := "123456789ABCDEFGHJKLMNPQRSTUVWXYZabcdefghijkmnopqrstuvwxyz".toList

/-- The digit of a number. -/
def digit (n : ℕ) : Char := alphabet.getD n '1'

/-- The number of a digit. -/
def value (c : Char) : Option ℕ := alphabet.idxOf? c

def encode (bytes : List UInt8) : List Char :=
  (Radix.convert 256 58 (bytes.map UInt8.toNat)).map digit

/-- The bytes of digits. -/
def bytesOf (ds : List ℕ) : List UInt8 := (Radix.convert 58 256 ds).map UInt8.ofNat

def decode (t : List Char) : Option (List UInt8) := (t.mapM value).map bytesOf

theorem value_digit : ∀ n < 58, value (digit n) = some n := by decide +kernel

theorem value_lt {c : Char} {n : ℕ} (h : value c = some n) : n < 58 := by
  unfold value at h
  rw [List.idxOf?_eq_some_iff] at h
  exact h.1

theorem digit_value {c : Char} {n : ℕ} (h : value c = some n) : digit n = c := by
  unfold value at h
  rw [List.idxOf?_eq_some_iff] at h
  obtain ⟨hlt, heq, -⟩ := h
  unfold digit
  rw [List.getD_eq_getElem?_getD, List.getElem?_eq_getElem hlt]
  exact heq

theorem value_eq_zero {c : Char} : value c = some 0 ↔ c = '1' :=
  ⟨fun h => (digit_value h).symm, by rintro rfl; rfl⟩

theorem mapM_value_digit {ds : List ℕ} (h : ∀ d ∈ ds, d < 58) :
    (ds.map digit).mapM value = some ds := by
  induction ds with
  | nil => rfl
  | cons d ds ih =>
    have htail := ih fun d' hd' => h d' (List.mem_cons_of_mem d hd')
    rw [List.map_cons, List.mapM_cons, value_digit d (h d List.mem_cons_self), htail]
    rfl

theorem mapM_value_cons {c : Char} {t : List Char} {ds : List ℕ} (h : (c :: t).mapM value = some ds) :
    ∃ n rest, value c = some n ∧ t.mapM value = some rest ∧ n :: rest = ds := by
  rw [List.mapM_cons, Option.bind_eq_bind, Option.bind_eq_some_iff] at h
  obtain ⟨n, hn, h⟩ := h
  rw [Option.bind_eq_bind, Option.bind_eq_some_iff] at h
  obtain ⟨rest, hrest, h⟩ := h
  exact ⟨n, rest, hn, hrest, Option.some.inj h⟩

theorem lt_of_mapM_value {t : List Char} {ds : List ℕ} (h : t.mapM value = some ds) :
    ∀ d ∈ ds, d < 58 := by
  induction t generalizing ds with
  | nil =>
    obtain rfl : [] = ds := Option.some.inj h
    exact fun d hd => absurd hd List.not_mem_nil
  | cons c t ih =>
    obtain ⟨n, rest, hn, hrest, rfl⟩ := mapM_value_cons h
    exact List.forall_mem_cons.2 ⟨value_lt hn, ih hrest⟩

/-- The ones in front of a text are the zeros in front of its digits. -/
theorem leading_of_mapM_value {t : List Char} {ds : List ℕ} (h : t.mapM value = some ds) :
    Radix.leading ds = (t.takeWhile (· = '1')).length := by
  induction t generalizing ds with
  | nil =>
    obtain rfl : [] = ds := Option.some.inj h
    rfl
  | cons c t ih =>
    obtain ⟨n, rest, hn, hrest, rfl⟩ := mapM_value_cons h
    unfold Radix.leading at ih ⊢
    by_cases hc : c = '1'
    · obtain rfl : n = 0 := Option.some.inj (hn.symm.trans (value_eq_zero.2 hc))
      rw [List.takeWhile_cons_of_pos (by simp), List.takeWhile_cons_of_pos (by simpa using hc),
        List.length_cons, List.length_cons, ih hrest]
    · have hne : n ≠ 0 := by
        rintro rfl
        exact hc (value_eq_zero.1 hn)
      rw [List.takeWhile_cons_of_neg (by simpa using hne), List.takeWhile_cons_of_neg (by simpa using hc)]
      rfl

theorem number_eq_zero_iff {t : List Char} {ds : List ℕ} (h : t.mapM value = some ds) :
    Radix.number 58 ds = 0 ↔ ∀ c ∈ t, c = '1' := by
  rw [Radix.number_eq_zero_iff (by norm_num)]
  induction t generalizing ds with
  | nil =>
    obtain rfl : [] = ds := Option.some.inj h
    simp
  | cons c t ih =>
    obtain ⟨n, rest, hn, hrest, rfl⟩ := mapM_value_cons h
    have hzero : n = 0 ↔ c = '1' := by
      rw [← value_eq_zero, hn, Option.some_inj]
    rw [List.forall_mem_cons, List.forall_mem_cons, ih hrest, hzero]

theorem map_ofNat_toNat (bytes : List UInt8) :
    (bytes.map UInt8.toNat).map UInt8.ofNat = bytes := by
  rw [List.map_map]
  exact List.map_id'' (fun b => UInt8.ofNat_toNat) bytes

/-- **Bytes are read back** from their text. -/
theorem decode_encode (bytes : List UInt8) : decode (encode bytes) = some bytes := by
  have hbytes : ∀ d ∈ bytes.map UInt8.toNat, d < 256 := by
    intro d hd
    obtain ⟨b, -, rfl⟩ := List.mem_map.1 hd
    exact b.toNat_lt
  unfold decode encode bytesOf
  rw [mapM_value_digit (Radix.convert_lt (by norm_num)), Option.map_some,
    Radix.convert_convert (by norm_num) hbytes, map_ofNat_toNat]

end Base58
