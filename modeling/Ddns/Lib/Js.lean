import Mathlib.Data.List.DropRight
import Mathlib.Data.List.Sort
import Mathlib.Data.Rat.Defs
import Mathlib.Algebra.Order.Ring.Rat

/-!
# Values of JavaScript

A number is finite, infinite or not a number. Finite numbers are rational and their arithmetic is
exact; `-0` is `0`. A comparison with `nan` is false.

A text is the list of its characters. A `Json` value is what `JSON.parse` yields: a number is kept
as the text that prints it, and an object lists its properties in the order in which they are
enumerated. `stringify` is `JSON.stringify`; printed with sorted properties, an object does not
depend on their order (`print_perm`).
-/

/-! ## Numbers -/

/-- A number. -/
inductive JsNum where
  | nan
  | posInf
  | negInf
  | fin (q : ℚ)
  deriving DecidableEq, Repr

namespace JsNum

/-- `a < b`. -/
def lt : JsNum → JsNum → Bool
  | .fin a, .fin b => decide (a < b)
  | .negInf, .fin _ => true
  | .negInf, .posInf => true
  | .fin _, .posInf => true
  | _, _ => false

/-- `a <= b`. -/
def le : JsNum → JsNum → Bool
  | .fin a, .fin b => decide (a ≤ b)
  | .nan, _ => false
  | _, .nan => false
  | .negInf, _ => true
  | _, .posInf => true
  | _, _ => false

/-- `a + b`. -/
def add : JsNum → JsNum → JsNum
  | .fin a, .fin b => .fin (a + b)
  | .nan, _ => .nan
  | _, .nan => .nan
  | .posInf, .negInf => .nan
  | .negInf, .posInf => .nan
  | .posInf, _ => .posInf
  | _, .posInf => .posInf
  | _, _ => .negInf

/-- `Math.min(a, b)`. -/
def min (a b : JsNum) : JsNum :=
  if a = .nan ∨ b = .nan then .nan else if a.le b then a else b

/-- The infinity with the sign of `q`; zero gives no number. -/
def scaledInf (q : ℚ) : JsNum := if 0 < q then .posInf else if q < 0 then .negInf else .nan

/-- `a * b`. -/
def mul : JsNum → JsNum → JsNum
  | .fin a, .fin b => .fin (a * b)
  | .nan, _ => .nan
  | _, .nan => .nan
  | .fin a, .posInf => scaledInf a
  | .posInf, .fin b => scaledInf b
  | .fin a, .negInf => scaledInf (-a)
  | .negInf, .fin b => scaledInf (-b)
  | .posInf, .posInf => .posInf
  | .negInf, .negInf => .posInf
  | _, _ => .negInf

/-- A number counts as true unless it is zero or not a number. -/
def truthy : JsNum → Bool
  | .nan => false
  | .fin q => decide (q ≠ 0)
  | _ => true

end JsNum

/-! ## Texts -/

/-- A text. -/
abbrev JsText := List Char

namespace JsText

instance lawfulBEq : LawfulBEq JsText := inferInstance

section Ranges

variable {c : Char}

theorem isLower_iff : c.isLower = true ↔ 97 ≤ c.toNat ∧ c.toNat ≤ 122 :=
  Bool.and_eq_true_iff.trans (and_congr decide_eq_true_iff decide_eq_true_iff)

theorem isUpper_iff : c.isUpper = true ↔ 65 ≤ c.toNat ∧ c.toNat ≤ 90 := decide_eq_true_iff

theorem isDigit_iff : c.isDigit = true ↔ 48 ≤ c.toNat ∧ c.toNat ≤ 57 :=
  Bool.and_eq_true_iff.trans (and_congr decide_eq_true_iff decide_eq_true_iff)

theorem isAlphanum_iff : c.isAlphanum = true ↔
    65 ≤ c.toNat ∧ c.toNat ≤ 90 ∨ 97 ≤ c.toNat ∧ c.toNat ≤ 122 ∨ 48 ≤ c.toNat ∧ c.toNat ≤ 57 := by
  have halpha : c.isAlpha = true ↔ c.isUpper = true ∨ c.isLower = true := Bool.or_eq_true_iff
  have halphanum : c.isAlphanum = true ↔ c.isAlpha = true ∨ c.isDigit = true := Bool.or_eq_true_iff
  rw [halphanum, halpha, isUpper_iff, isLower_iff, isDigit_iff, or_assoc]

end Ranges

/-- The white space and the line terminators that `trim` removes. -/
def isWhitespace (c : Char) : Bool :=
  let n := c.toNat
  (9 ≤ n && n ≤ 13) || n = 0x20 || n = 0xa0 || n = 0x1680 || (0x2000 ≤ n && n ≤ 0x200a) ||
    n = 0x2028 || n = 0x2029 || n = 0x202f || n = 0x205f || n = 0x3000 || n = 0xfeff

def trim (t : JsText) : JsText := (t.dropWhile isWhitespace).rdropWhile isWhitespace

/-- `TextEncoder.encode`. -/
def utf8 (t : JsText) : List UInt8 := t.flatMap String.utf8EncodeChar

/-- The UTF-16 code units of a text. -/
def codeUnits (t : JsText) : List Nat :=
  t.flatMap fun c =>
    let n := c.toNat
    if n < 0x10000 then [n]
    else [0xd800 + (n - 0x10000) / 0x400, 0xdc00 + (n - 0x10000) % 0x400]

/-- The order of `sort` without a comparator. -/
def compareUnits (t t' : JsText) : Ordering := compare t.codeUnits t'.codeUnits

/-- `join`. -/
def join (sep : JsText) (ts : List JsText) : JsText := sep.intercalate ts

/-- `toLowerCase`: it rewrites the characters that have a lower case of their own, which are the
letters `A` to `Z` among those of ASCII, and leaves none of them. -/
structure LowerCase where
  toLowerCase : JsText → JsText
  hasLowerCase : Char → Bool
  hasLowerCase_ascii : ∀ c, c.toNat < 128 → hasLowerCase c = c.isUpper
  hasLowerCase_of_mem : ∀ t, ∀ c ∈ toLowerCase t, hasLowerCase c = false
  toLowerCase_eq : ∀ t, (∀ c ∈ t, hasLowerCase c = false) → toLowerCase t = t

section Lemmas

variable {t : JsText}

/-- A text that ends in a kept character keeps its end. -/
theorem rdropWhile_of_suffix {p : Char → Bool} {c : Char} (hs : [c] <:+ t) (hc : p c = false) :
    t.rdropWhile p = t := by
  obtain ⟨u, rfl⟩ := hs
  exact List.rdropWhile_concat_neg p u c (by simp [hc])

/-- What is dropped in front leaves an end that begins with a kept character. -/
theorem suffix_dropWhile {p : Char → Bool} {u : JsText} (hs : u <:+ t)
    (hu : ∀ c ∈ u.head?, p c = false) : u <:+ t.dropWhile p := by
  obtain ⟨v, rfl⟩ := hs
  induction v with
  | nil =>
    cases u with
    | nil => exact List.nil_suffix
    | cons c u =>
      have hkept : (c :: u).dropWhile p = c :: u :=
        List.dropWhile_cons_of_neg (by simp [hu c rfl])
      exact ⟨[], hkept.symm⟩
  | cons c v ih =>
    rw [List.cons_append, List.dropWhile_cons]
    split
    · exact ih
    · exact (List.suffix_append v u).trans (List.suffix_cons c _)

/-- A trimmed text does not begin with white space, and neither does a beginning of it. -/
theorem head_of_prefix_trim {u : JsText} (h : u <+: trim t) :
    ∀ c ∈ u.head?, isWhitespace c = false := by
  intro c hc
  obtain ⟨r, hr⟩ := h.trans (List.rdropWhile_prefix isWhitespace _)
  have hhead : (t.dropWhile isWhitespace).head? = some c := by
    rw [← hr, List.head?_append, Option.mem_def.1 hc]
    rfl
  have hnot := List.head?_dropWhile_not isWhitespace t
  rw [hhead] at hnot
  exact hnot

/-- Trimming keeps a part that has no white space at its ends. -/
theorem infix_trim {u : JsText} (hu : u <:+: t) (hhead : ∀ c ∈ u.head?, isWhitespace c = false)
    (hlast : ∀ c ∈ u.getLast?, isWhitespace c = false) : u <:+: trim t := by
  obtain ⟨v, w, rfl⟩ := hu
  rcases List.eq_nil_or_concat u with rfl | ⟨u, c, rfl⟩
  · exact List.nil_infix
  rw [List.concat_eq_append] at *
  have hdropped : u ++ [c] ++ w <:+ (v ++ (u ++ [c]) ++ w).dropWhile isWhitespace := by
    refine suffix_dropWhile ⟨v, by simp⟩ fun d hd => hhead d ?_
    simpa [List.head?_append] using hd
  obtain ⟨v', hv'⟩ := hdropped
  have hkept : (v' ++ (u ++ [c])).reverse <:+
      ((v ++ (u ++ [c]) ++ w).dropWhile isWhitespace).reverse.dropWhile isWhitespace := by
    refine suffix_dropWhile ⟨w.reverse, ?_⟩ fun d hd => hlast d ?_
    · rw [← hv']
      simp
    · simpa using hd
  obtain ⟨w', hw'⟩ := hkept
  refine ⟨v', w'.reverse, ?_⟩
  rw [trim, List.rdropWhile, ← hw']
  simp

/-- Dropping what no character is drops nothing. -/
theorem trim_of_all {p : Char → Bool} (h : ∀ c ∈ t, p c = false) :
    (t.dropWhile p).rdropWhile p = t := by
  have hdrop : t.dropWhile p = t := by
    cases t with
    | nil => rfl
    | cons c t => exact List.dropWhile_cons_of_neg (by simp [h c List.mem_cons_self])
  rw [hdrop]
  exact List.rdropWhile_eq_self_iff.2 fun hl => by simp [h _ (List.getLast_mem hl)]

/-- The last piece of a joined text. -/
theorem join_concat {ts : List JsText} (u : JsText) (hne : ts ≠ []) :
    join ['.'] (ts ++ [u]) = join ['.'] ts ++ '.' :: u := by
  unfold join
  induction ts with
  | nil => exact absurd rfl hne
  | cons v ts ih =>
    cases ts with
    | nil => simp
    | cons w ts =>
      have hw : w :: ts ≠ [] := List.cons_ne_nil w ts
      rw [List.cons_append, List.intercalate_cons_of_ne_nil (by simp), ih hw,
        List.intercalate_cons_of_ne_nil hw]
      simp only [List.append_assoc, List.cons_append, List.nil_append]

theorem join_cons {sep t : JsText} {ts : List JsText} (h : ts ≠ []) :
    join sep (t :: ts) = t ++ (sep ++ join sep ts) := by
  rw [join, List.intercalate_cons_of_ne_nil h, List.append_assoc]
  rfl

/-- A character of a joined text is one of the separator or of a piece. -/
theorem mem_join {sep : JsText} {ts : List JsText} {c : Char} (h : c ∈ join sep ts) :
    c ∈ sep ∨ ∃ t ∈ ts, c ∈ t := by
  induction ts with
  | nil => cases h
  | cons t ts ih =>
    by_cases hne : ts = []
    · subst hne
      rw [join, List.intercalate_singleton] at h
      exact .inr ⟨t, List.mem_singleton_self t, h⟩
    rw [join_cons hne, List.mem_append, List.mem_append] at h
    rcases h with h | h | h
    · exact .inr ⟨t, List.mem_cons_self, h⟩
    · exact .inl h
    · exact (ih h).imp_right fun ⟨u, hu, hc⟩ => ⟨u, List.mem_cons_of_mem t hu, hc⟩

theorem mem_join_of_mem {sep u : JsText} {ts : List JsText} {c : Char} (hu : u ∈ ts) (hc : c ∈ u) :
    c ∈ join sep ts := by
  induction ts with
  | nil => cases hu
  | cons t ts ih =>
    by_cases hne : ts = []
    · subst hne
      rw [List.mem_singleton.1 hu] at hc
      rwa [join, List.intercalate_singleton]
    rw [join_cons hne, List.mem_append, List.mem_append]
    rcases List.mem_cons.1 hu with rfl | hu
    · exact .inl hc
    · exact .inr (.inr (ih hu))

theorem map_join (f : Char → Char) (sep : JsText) (ts : List JsText) :
    (join sep ts).map f = join (sep.map f) (ts.map (List.map f)) := by
  induction ts with
  | nil => rfl
  | cons t ts ih =>
    by_cases hne : ts = []
    · subst hne
      simp [join]
    rw [join_cons hne, List.map_append, List.map_append, ih, List.map_cons,
      join_cons (by simpa using hne)]

theorem join_append {sep : JsText} {ts us : List JsText} (ht : ts ≠ []) (hu : us ≠ []) :
    join sep (ts ++ us) = join sep ts ++ (sep ++ join sep us) := by
  induction ts with
  | nil => exact absurd rfl ht
  | cons t ts ih =>
    by_cases hne : ts = []
    · subst hne
      rw [List.singleton_append, join_cons hu, join, join, List.intercalate_singleton]
    · rw [List.cons_append, join_cons (by simp [hne]), join_cons hne, ih hne, List.append_assoc,
        List.append_assoc]

/-- Pieces of pieces are joined piece by piece. -/
theorem join_flatMap {sep : JsText} {f : JsText → List JsText} (hf : ∀ t, f t ≠ [])
    (ts : List JsText) : join sep (ts.flatMap f) = join sep (ts.map fun t => join sep (f t)) := by
  induction ts with
  | nil => rfl
  | cons t ts ih =>
    by_cases hne : ts = []
    · subst hne
      simp [join]
    have hflat : ts.flatMap f ≠ [] := by
      obtain ⟨u, us, rfl⟩ := List.exists_cons_of_ne_nil hne
      rw [List.flatMap_cons]
      exact fun h => hf u (List.append_eq_nil_iff.1 h).1
    rw [List.flatMap_cons, join_append (hf t) hflat, ih, List.map_cons, join_cons (by simpa using hne)]

/-- A text has one part before its first separator. -/
theorem split_unique {sep : Char} {a b p q : JsText} (ha : sep ∉ a) (hb : sep ∉ b)
    (h : a ++ sep :: p = b ++ sep :: q) : a = b ∧ p = q := by
  have hfirst : ∀ {a p : JsText}, sep ∉ a → (a ++ sep :: p).takeWhile (· ≠ sep) = a := by
    intro a p ha
    have hall : ∀ c ∈ a, decide (c ≠ sep) = true := by
      intro c hc
      rw [decide_eq_true_eq]
      rintro rfl
      exact ha hc
    rw [List.takeWhile_append_of_pos hall, List.takeWhile_cons_of_neg (by simp), List.append_nil]
  have hab : a = b := by
    rw [← hfirst (p := p) ha, h, hfirst hb]
  subst hab
  exact ⟨rfl, (List.cons.inj (List.append_cancel_left h)).2⟩

end Lemmas

end JsText

/-! ## JSON -/

/-- A value of JSON. -/
inductive Json where
  | null
  | bool (b : Bool)
  | num (text : JsText)
  | str (s : JsText)
  | arr (items : List Json)
  | obj (fields : List (JsText × Json))

namespace Json

/-- A value counts as true unless it is `null`, `false`, zero or the empty text. -/
def truthy : Json → Bool
  | .null => false
  | .bool b => b
  | .num t => t ≠ ['0']
  | .str s => s ≠ []
  | _ => true

/-- The property `key` of a value; only objects have properties here. -/
def field (key : JsText) : Json → Option Json
  | .obj fields => (fields.find? fun f => f.1 = key).map Prod.snd
  | _ => none

/-- The value is the text `s`. -/
def isText (s : JsText) : Json → Bool
  | .str t => t = s
  | _ => false

/-- A hexadecimal digit. -/
def hexDigit (n : Nat) : Char := Char.ofNat (if n < 10 then 48 + n else 87 + n)

/-- A character between quotes. -/
def escape (c : Char) : JsText :=
  let backslash := Char.ofNat 92
  let n := c.toNat
  if n = 34 then [backslash, c]
  else if n = 92 then [backslash, c]
  else if n = 8 then [backslash, 'b']
  else if n = 9 then [backslash, 't']
  else if n = 10 then [backslash, 'n']
  else if n = 12 then [backslash, 'f']
  else if n = 13 then [backslash, 'r']
  else if n < 32 then [backslash, 'u', '0', '0', hexDigit (n / 16), hexDigit (n % 16)]
  else [c]

/-- A text between quotes. -/
def quote (s : JsText) : JsText :=
  let mark := Char.ofNat 34
  mark :: (s.flatMap escape ++ [mark])

def trueText : JsText := ['t', 'r', 'u', 'e']

def falseText : JsText := ['f', 'a', 'l', 's', 'e']

def nullText : JsText := ['n', 'u', 'l', 'l']

/-- The items of an array, between brackets. -/
def brackets (items : List JsText) : JsText := '[' :: (JsText.join [','] items ++ [']'])

/-- The properties of an object, between braces. -/
def braces (fields : List (JsText × JsText)) : JsText :=
  '{' :: (JsText.join [','] (fields.map fun f => quote f.1 ++ ':' :: f.2) ++ ['}'])

mutual

/-- `JSON.stringify`, in which `order` rearranges the printed properties of each object. -/
def print (order : List (JsText × JsText) → List (JsText × JsText)) : Json → JsText
  | .null => nullText
  | .bool b => if b then trueText else falseText
  | .num t => t
  | .str s => quote s
  | .arr items => brackets (printItems order items)
  | .obj fields => braces (order (printFields order fields))
termination_by structural j => j

def printItems (order : List (JsText × JsText) → List (JsText × JsText)) :
    List Json → List JsText
  | [] => []
  | j :: js => print order j :: printItems order js
termination_by structural js => js

def printFields (order : List (JsText × JsText) → List (JsText × JsText)) :
    List (JsText × Json) → List (JsText × JsText)
  | [] => []
  | f :: fs => printField order f :: printFields order fs
termination_by structural fs => fs

def printField (order : List (JsText × JsText) → List (JsText × JsText)) :
    JsText × Json → JsText × JsText
  | (k, v) => (k, print order v)
termination_by structural f => f

end

def stringify (j : Json) : JsText := print id j

def objectText : JsText :=
  ['[', 'o', 'b', 'j', 'e', 'c', 't', ' ', 'O', 'b', 'j', 'e', 'c', 't', ']']

mutual

/-- `String(value)`; it throws for an object whose own `toString` hides the inherited one. -/
def toText : Json → Option JsText
  | .null => some nullText
  | .bool b => some (if b then trueText else falseText)
  | .num t => some t
  | .str s => some s
  | .arr items => (itemTexts items).map (JsText.join [','])
  | .obj fields =>
    if (fields.map Prod.fst).contains ['t', 'o', 'S', 't', 'r', 'i', 'n', 'g'] then none
    else some objectText
termination_by structural j => j

/-- The texts that an array joins; `null` joins as the empty text. -/
def itemTexts : List Json → Option (List JsText)
  | [] => some []
  | .null :: js => (itemTexts js).map fun ts => [] :: ts
  | j :: js => do
    let t ← toText j
    let ts ← itemTexts js
    return t :: ts
termination_by structural js => js

end

theorem printFields_eq_map (order : List (JsText × JsText) → List (JsText × JsText))
    (fields : List (JsText × Json)) :
    printFields order fields = fields.map fun f => (f.1, print order f.2) := by
  induction fields with
  | nil => rfl
  | cons f fs ih =>
    obtain ⟨k, v⟩ := f
    rw [printFields, ih, printField, List.map_cons]

/-! ## Sorted properties -/

/-- `sort` of entries by their keys, which is stable. -/
def sortByKey (cmp : JsText → JsText → Ordering) (entries : List (JsText × JsText)) :
    List (JsText × JsText) :=
  entries.insertionSort fun a b => (cmp a.1 b.1).isLE

/-- A linear order of the keys leaves one way to sort entries with distinct keys. -/
theorem insertionSort_keys_perm {β : Type*} {cmp : JsText → JsText → Ordering} [Std.TransCmp cmp]
    [Std.LawfulEqCmp cmp] {l l' : List (JsText × β)} (hp : l.Perm l')
    (hn : (l.map Prod.fst).Nodup) : l.insertionSort (fun a b => (cmp a.1 b.1).isLE) =
      l'.insertionSort fun a b => (cmp a.1 b.1).isLE := by
  let r : JsText × β → JsText × β → Prop := fun a b => (cmp a.1 b.1).isLE
  have : Std.Total r := ⟨fun a b => by
    cases h : cmp a.1 b.1 with
    | lt => exact .inl (by simp [r, h])
    | eq => exact .inl (by simp [r, h])
    | gt => exact .inr (by simp [r, Std.OrientedCmp.lt_of_gt h])⟩
  have : IsTrans (JsText × β) r := ⟨fun _ _ _ => Std.TransCmp.isLE_trans⟩
  have hsort := List.perm_insertionSort r l
  have hsort' := List.perm_insertionSort r l'
  refine List.Perm.eq_of_pairwise ?_ (List.pairwise_insertionSort r l)
    (List.pairwise_insertionSort r l') (hsort.trans (hp.trans hsort'.symm))
  intro a b ha hb hab hba
  have hkey : a.1 = b.1 := Std.LawfulEqCmp.eq_of_compare (Std.OrientedCmp.isLE_antisymm hab hba)
  exact List.inj_on_of_nodup_map hn (hsort.subset ha) (hp.symm.subset (hsort'.subset hb)) hkey

theorem sortByKey_perm {cmp : JsText → JsText → Ordering} [Std.TransCmp cmp]
    [Std.LawfulEqCmp cmp] {l l' : List (JsText × JsText)} (hp : l.Perm l')
    (hn : (l.map Prod.fst).Nodup) : sortByKey cmp l = sortByKey cmp l' :=
  insertionSort_keys_perm hp hn

/-- Printed in sorted order, an object does not depend on the order of its properties. -/
theorem print_perm {cmp : JsText → JsText → Ordering} [Std.TransCmp cmp] [Std.LawfulEqCmp cmp]
    {fields fields' : List (JsText × Json)} (hp : fields.Perm fields')
    (hn : (fields.map Prod.fst).Nodup) :
    print (sortByKey cmp) (.obj fields) = print (sortByKey cmp) (.obj fields') := by
  rw [print, print, printFields_eq_map, printFields_eq_map]
  refine congrArg braces (sortByKey_perm (hp.map _) ?_)
  rw [List.map_map]
  exact hn

end Json
