import Ddns.Lib.Js

/-!
# Reading JSON back

A value of JSON is determined by the text that prints it (`stringify_append_inj`), if its numbers
are printed as numbers. A number ends where something else follows, and every other value says
itself where it ends.
-/

/-- A text is determined by its bytes. -/
theorem JsText.utf8_inj {t t' : JsText} (h : t.utf8 = t'.utf8) : t = t' := by
  have hencode : List.utf8Encode t = List.utf8Encode t' := congrArg List.toByteArray h
  have hdecode := congrArg ByteArray.utf8Decode? hencode
  rw [List.utf8Decode?_utf8Encode, List.utf8Decode?_utf8Encode] at hdecode
  exact List.toArray_inj (Option.some.inj hdecode)

/-- A text is determined by its code units: a surrogate is no character. -/
theorem JsText.codeUnits_inj {t t' : JsText} (h : t.codeUnits = t'.codeUnits) : t = t' := by
  have hcons (c : Char) (t : JsText) : JsText.codeUnits (c :: t) =
      (if c.toNat < 0x10000 then [c.toNat]
        else [0xd800 + (c.toNat - 0x10000) / 0x400, 0xdc00 + (c.toNat - 0x10000) % 0x400]) ++
      JsText.codeUnits t := rfl
  induction t generalizing t' with
  | nil =>
    cases t' with
    | nil => rfl
    | cons d t' =>
      rw [hcons] at h
      split at h <;> cases h
  | cons c t ih =>
    cases t' with
    | nil =>
      rw [hcons] at h
      split at h <;> cases h
    | cons d t' =>
      have hc : c.toNat < 0xd800 ∨ 0xdfff < c.toNat ∧ c.toNat < 0x110000 := c.valid
      have hd : d.toNat < 0xd800 ∨ 0xdfff < d.toNat ∧ d.toNat < 0x110000 := d.valid
      rw [hcons, hcons] at h
      suffices hhead : c.toNat = d.toNat by
        obtain rfl := Char.toNat_inj.1 hhead
        rw [ih (List.append_cancel_left h)]
      split at h
      · split at h
        · exact (List.cons.inj h).1
        · have hfirst : c.toNat = 0xd800 + (d.toNat - 0x10000) / 0x400 := (List.cons.inj h).1
          omega
      · split at h
        · have hfirst : 0xd800 + (c.toNat - 0x10000) / 0x400 = d.toNat := (List.cons.inj h).1
          omega
        · obtain ⟨hhigh, hrest⟩ := List.cons.inj h
          have hlow := (List.cons.inj hrest).1
          omega

/-! ## Separated texts -/

namespace Separated

/-- What follows an entry of a list: the separated entries after it, the closing bracket, the
rest. -/
def listTail (close : Char) : List JsText → JsText → JsText
  | [], r => close :: r
  | t :: ts, r => ',' :: (t ++ listTail close ts r)

theorem join_append (close : Char) (t : JsText) (ts : List JsText) (r : JsText) :
    JsText.join [','] (t :: ts) ++ close :: r = t ++ listTail close ts r := by
  induction ts generalizing t with
  | nil => simp [JsText.join, listTail]
  | cons u ts ih =>
    have hu := ih u
    unfold JsText.join at hu ⊢
    rw [List.intercalate_cons_cons, listTail, ← hu]
    simp

variable {α : Type*} {ends : JsText → Prop} {valid : α → Prop} {text : α → JsText}

/-- An entry is read back from its text, whatever follows. -/
def Reads (ends : JsText → Prop) (valid : α → Prop) (text : α → JsText) (a : α) : Prop :=
  ∀ b r r', valid b → ends r → ends r' → text a ++ r = text b ++ r' → a = b ∧ r = r'

theorem ends_listTail {close : Char} (hclose : ∀ r, ends (close :: r))
    (hcomma : ∀ r, ends (',' :: r)) (ts : List JsText) (r : JsText) :
    ends (listTail close ts r) := by
  cases ts with
  | nil => exact hclose r
  | cons t ts => exact hcomma _

/-- The entries after the first one are read back one by one. -/
theorem listTail_inj {close : Char} (hne : close ≠ ',') (hclose : ∀ r, ends (close :: r))
    (hcomma : ∀ r, ends (',' :: r)) {as bs : List α} (ha : ∀ a ∈ as, Reads ends valid text a)
    (hb : ∀ b ∈ bs, valid b) {r r' : JsText}
    (h : listTail close (as.map text) r = listTail close (bs.map text) r') :
    as = bs ∧ r = r' := by
  induction as generalizing bs with
  | nil =>
    cases bs with
    | nil => exact ⟨rfl, (List.cons.inj h).2⟩
    | cons b bs => exact absurd (List.cons.inj h).1 hne
  | cons a as ih =>
    cases bs with
    | nil => exact absurd (List.cons.inj h).1.symm hne
    | cons b bs =>
      obtain ⟨hab, hrest⟩ := ha a List.mem_cons_self b _ _ (hb b List.mem_cons_self)
        (ends_listTail hclose hcomma _ r) (ends_listTail hclose hcomma _ r') (List.cons.inj h).2
      obtain ⟨has, hr⟩ := ih (fun x hx => ha x (List.mem_cons_of_mem a hx))
        (fun x hx => hb x (List.mem_cons_of_mem b hx)) hrest
      exact ⟨by rw [hab, has], hr⟩

/-- **A list of entries** is read back, if no entry starts with the closing bracket. -/
theorem join_inj {close : Char} (hne : close ≠ ',') (hclose : ∀ r, ends (close :: r))
    (hcomma : ∀ r, ends (',' :: r)) (hstart : ∀ a r, valid a → ∀ r', text a ++ r ≠ close :: r')
    {as bs : List α} (ha : ∀ a ∈ as, valid a ∧ Reads ends valid text a)
    (hb : ∀ b ∈ bs, valid b) {r r' : JsText}
    (h : JsText.join [','] (as.map text) ++ close :: r =
      JsText.join [','] (bs.map text) ++ close :: r') : as = bs ∧ r = r' := by
  cases as with
  | nil =>
    cases bs with
    | nil => exact ⟨rfl, (List.cons.inj h).2⟩
    | cons b bs =>
      rw [List.map_cons, join_append] at h
      exact absurd h.symm (hstart b _ (hb b List.mem_cons_self) _)
  | cons a as =>
    cases bs with
    | nil =>
      rw [List.map_cons, join_append] at h
      exact absurd h (hstart a _ (ha a List.mem_cons_self).1 _)
    | cons b bs =>
      rw [List.map_cons, List.map_cons, join_append, join_append] at h
      have htails : listTail close ((a :: as).map text) r = listTail close ((b :: bs).map text) r' :=
        congrArg (List.cons ',') h
      exact listTail_inj hne hclose hcomma (fun x hx => (ha x hx).2) hb htails

end Separated

namespace Json

/-! ## Induction over values -/

/-- **Induction over a value**: the items of an array and the properties of an object come first. -/
@[elab_as_elim, induction_eliminator]
theorem induction {P : Json → Prop} (null : P .null) (bool : ∀ b, P (.bool b))
    (num : ∀ t, P (.num t)) (str : ∀ s, P (.str s))
    (arr : ∀ items, (∀ j ∈ items, P j) → P (.arr items))
    (obj : ∀ fields, (∀ f ∈ fields, P f.2) → P (.obj fields)) (j : Json) : P j := by
  refine Json.rec (motive_1 := P) (motive_2 := fun items => ∀ j ∈ items, P j)
    (motive_3 := fun fields => ∀ f ∈ fields, P f.2) (motive_4 := fun f => P f.2)
    null bool num str arr obj ?_ ?_ ?_ ?_ ?_ j
  · intro j hj
    cases hj
  · intro j items hj hitems i hi
    rcases List.mem_cons.1 hi with rfl | hi
    · exact hj
    · exact hitems i hi
  · intro f hf
    cases hf
  · intro f fields hf hfields g hg
    rcases List.mem_cons.1 hg with rfl | hg
    · exact hf
    · exact hfields g hg
  · exact fun _ _ h => h

theorem printItems_eq_map (order : List (JsText × JsText) → List (JsText × JsText))
    (items : List Json) : printItems order items = items.map (print order) := by
  induction items with
  | nil => rfl
  | cons j js ih => rw [printItems, ih, List.map_cons]

/-! ## Texts between quotes -/

/-- The control character with two hexadecimal digits. -/
def hexChar (high low : Char) : Option Char :=
  ((List.range 32).find? fun n => hexDigit (n / 16) = high ∧ hexDigit (n % 16) = low).map Char.ofNat

/-- The first character of a text between quotes, and what follows it. -/
def readChar : JsText → Option (Char × JsText)
  | [] => none
  | c :: r =>
    if c.toNat = 92 then
      match r with
      | 'b' :: r => some (Char.ofNat 8, r)
      | 't' :: r => some (Char.ofNat 9, r)
      | 'n' :: r => some (Char.ofNat 10, r)
      | 'f' :: r => some (Char.ofNat 12, r)
      | 'r' :: r => some (Char.ofNat 13, r)
      | 'u' :: '0' :: '0' :: high :: low :: r => (hexChar high low).map fun c => (c, r)
      | c :: r => some (c, r)
      | [] => none
    else some (c, r)

theorem hexChar_hexDigit : ∀ n < 32, hexChar (hexDigit (n / 16)) (hexDigit (n % 16)) =
    some (Char.ofNat n) := by
  decide

theorem readChar_escape (c : Char) (r : JsText) : readChar (escape c ++ r) = some (c, r) := by
  have hc : Char.ofNat c.toNat = c := Char.ofNat_toNat c
  have hof {n : ℕ} (h : c.toNat = n) : Char.ofNat n = c := h ▸ hc
  have hbackslash : (Char.ofNat 92).toNat = 92 := rfl
  unfold escape
  by_cases h34 : c.toNat = 34
  · obtain rfl := hof h34
    rfl
  by_cases h92 : c.toNat = 92
  · obtain rfl := hof h92
    rfl
  by_cases h8 : c.toNat = 8
  · obtain rfl := hof h8
    rfl
  by_cases h9 : c.toNat = 9
  · obtain rfl := hof h9
    rfl
  by_cases h10 : c.toNat = 10
  · obtain rfl := hof h10
    rfl
  by_cases h12 : c.toNat = 12
  · obtain rfl := hof h12
    rfl
  by_cases h13 : c.toNat = 13
  · obtain rfl := hof h13
    rfl
  simp only [h34, h92, h8, h9, h10, h12, h13, if_false]
  by_cases h32 : c.toNat < 32
  · simp only [h32, if_true, List.cons_append, List.nil_append, readChar, hbackslash,
      hexChar_hexDigit _ h32, hc, Option.map_some]
  · simp only [h32, if_false, List.cons_append, List.nil_append, readChar, h92]

/-- No character is written as a quote. -/
theorem escape_ne_quote (c : Char) (r r' : JsText) : escape c ++ r ≠ Char.ofNat 34 :: r' := by
  intro h
  have hread := readChar_escape c r
  rw [h] at hread
  obtain ⟨rfl, rfl⟩ := Prod.mk.inj (Option.some.inj hread)
  simp [escape] at h

theorem flatMap_escape_inj {s s' r r' : JsText}
    (h : s.flatMap escape ++ Char.ofNat 34 :: r = s'.flatMap escape ++ Char.ofNat 34 :: r') :
    s = s' ∧ r = r' := by
  induction s generalizing s' with
  | nil =>
    cases s' with
    | nil => exact ⟨rfl, (List.cons.inj h).2⟩
    | cons c' s' =>
      rw [List.flatMap_cons, List.append_assoc] at h
      exact absurd h.symm (escape_ne_quote c' _ _)
  | cons c s ih =>
    rw [List.flatMap_cons, List.append_assoc] at h
    cases s' with
    | nil => exact absurd h (escape_ne_quote c _ _)
    | cons c' s' =>
      rw [List.flatMap_cons, List.append_assoc] at h
      have hread := readChar_escape c (s.flatMap escape ++ Char.ofNat 34 :: r)
      rw [h, readChar_escape] at hread
      obtain ⟨rfl, hrest⟩ := Prod.mk.inj (Option.some.inj hread)
      obtain ⟨rfl, rfl⟩ := ih hrest.symm
      exact ⟨rfl, rfl⟩

theorem quote_append (s r : JsText) :
    quote s ++ r = Char.ofNat 34 :: (s.flatMap escape ++ Char.ofNat 34 :: r) := by
  simp [quote]

/-- **A quoted text** is read back, whatever follows. -/
theorem quote_append_inj {s s' r r' : JsText} (h : quote s ++ r = quote s' ++ r') :
    s = s' ∧ r = r' := by
  rw [quote_append, quote_append] at h
  exact flatMap_escape_inj (List.cons.inj h).2

/-! ## Numbers -/

/-- The characters of a number. -/
def isNumChar (c : Char) : Bool :=
  c.isDigit || c = '-' || c = '+' || c = '.' || c = 'e' || c = 'E'

/-- The text of a number. -/
def isNumText (t : JsText) : Bool := t ≠ [] && t.all isNumChar

/-- The text does not go on with a character of a number. -/
def ends (r : JsText) : Bool := !r.head?.any isNumChar

theorem takeWhile_append {t r : JsText} (ht : t.all isNumChar) (hr : ends r) :
    (t ++ r).takeWhile isNumChar = t ∧ (t ++ r).dropWhile isNumChar = r := by
  have hr' : r.takeWhile isNumChar = [] ∧ r.dropWhile isNumChar = r := by
    cases r with
    | nil => exact ⟨rfl, rfl⟩
    | cons c r =>
      have hc : isNumChar c = false := by simpa [ends] using hr
      simp [hc]
  have ht' := List.all_eq_true.1 ht
  rw [List.takeWhile_append_of_pos ht', List.dropWhile_append_of_pos ht', hr'.1, hr'.2,
    List.append_nil]
  exact ⟨rfl, rfl⟩

/-- **A number** is read back, if it ends there. -/
theorem num_append_inj {t t' r r' : JsText} (ht : t.all isNumChar) (ht' : t'.all isNumChar)
    (hr : ends r) (hr' : ends r') (h : t ++ r = t' ++ r') : t = t' ∧ r = r' := by
  obtain ⟨htake, hdrop⟩ := takeWhile_append ht hr
  obtain ⟨htake', hdrop'⟩ := takeWhile_append ht' hr'
  exact ⟨by rw [← htake, h, htake'], by rw [← hdrop, h, hdrop']⟩

/-! ## Values -/

mutual

/-- The numbers of a value have the texts of numbers. -/
def numeric : Json → Bool
  | .num t => isNumText t
  | .arr items => numericItems items
  | .obj fields => numericFields fields
  | _ => true
termination_by structural j => j

def numericItems : List Json → Bool
  | [] => true
  | j :: js => numeric j && numericItems js
termination_by structural js => js

def numericFields : List (JsText × Json) → Bool
  | [] => true
  | f :: fs => numericField f && numericFields fs
termination_by structural fs => fs

def numericField : JsText × Json → Bool
  | (_, v) => numeric v
termination_by structural f => f

end

theorem numeric_arr {items : List Json} : numeric (.arr items) ↔ ∀ j ∈ items, numeric j := by
  rw [numeric]
  induction items with
  | nil => simp [numericItems]
  | cons j js ih => simp [numericItems, ih]

theorem numeric_obj {fields : List (JsText × Json)} :
    numeric (.obj fields) ↔ ∀ f ∈ fields, numeric f.2 := by
  rw [numeric]
  induction fields with
  | nil => simp [numericFields]
  | cons f fs ih =>
    obtain ⟨k, v⟩ := f
    simp [numericFields, numericField, ih]

theorem stringify_arr (items : List Json) (r : JsText) :
    stringify (.arr items) ++ r = '[' :: (JsText.join [','] (items.map stringify) ++ ']' :: r) := by
  have heq : stringify (.arr items) = brackets (printItems id items) := by
    rw [stringify, print]
  rw [heq, printItems_eq_map, brackets]
  simp only [List.cons_append, List.append_assoc, List.nil_append]
  rfl

/-- A printed property. -/
def fieldText (f : JsText × Json) : JsText := quote f.1 ++ ':' :: stringify f.2

theorem stringify_obj (fields : List (JsText × Json)) (r : JsText) :
    stringify (.obj fields) ++ r =
      '{' :: (JsText.join [','] (fields.map fieldText) ++ '}' :: r) := by
  have heq : stringify (.obj fields) = braces (printFields id fields) := by
    rw [stringify, print, id]
  rw [heq, printFields_eq_map, braces, List.map_map]
  simp only [List.cons_append, List.append_assoc, List.nil_append]
  rfl

/-- Objects with the same first property that print the same have the same second key. -/
theorem key_eq_of_stringify {f g g' : JsText × Json} {fs fs' : List (JsText × Json)}
    (h : stringify (.obj (f :: g :: fs)) = stringify (.obj (f :: g' :: fs'))) : g.1 = g'.1 := by
  have hprint (g : JsText × Json) (fs : List (JsText × Json)) : ∃ r,
      stringify (.obj (f :: g :: fs)) = '{' :: (fieldText f ++ ',' :: (quote g.1 ++ r)) := by
    have hobj := stringify_obj (f :: g :: fs) []
    rw [List.append_nil, List.map_cons, JsText.join_cons (by simp)] at hobj
    cases fs with
    | nil =>
      refine ⟨':' :: (stringify g.2 ++ ['}']), ?_⟩
      rw [hobj]
      simp [JsText.join, fieldText]
    | cons f' fs =>
      rw [List.map_cons, JsText.join_cons (by simp)] at hobj
      refine ⟨':' :: (stringify g.2 ++ ',' :: (JsText.join [','] ((f' :: fs).map fieldText) ++
        ['}'])), ?_⟩
      rw [hobj]
      simp [fieldText]
  obtain ⟨r, hr⟩ := hprint g fs
  obtain ⟨r', hr'⟩ := hprint g' fs'
  rw [hr, hr'] at h
  have hrest := List.append_cancel_left (List.cons.inj h).2
  exact (quote_append_inj (List.cons.inj hrest).2).1

/-- How a value starts. -/
inductive Start where
  | null
  | bool (b : Bool)
  | num
  | str
  | arr
  | obj
  deriving DecidableEq

def start : Json → Start
  | .null => .null
  | .bool b => .bool b
  | .num _ => .num
  | .str _ => .str
  | .arr _ => .arr
  | .obj _ => .obj

/-- The start of a value by its first character; no value starts with a closing bracket. -/
def startOf (c : Char) : Option Start :=
  if isNumChar c then some .num
  else if c = 'n' then some .null
  else if c = 't' then some (.bool true)
  else if c = 'f' then some (.bool false)
  else if c = Char.ofNat 34 then some .str
  else if c = '[' then some .arr
  else if c = '{' then some .obj
  else none

theorem head_stringify {j : Json} (hj : j.numeric) (r : JsText) :
    ∃ c t, j.stringify ++ r = c :: t ∧ startOf c = some j.start := by
  cases j with
  | null => exact ⟨'n', _, rfl, by decide⟩
  | bool b =>
    cases b with
    | false => exact ⟨'f', _, rfl, by decide⟩
    | true => exact ⟨'t', _, rfl, by decide⟩
  | num t =>
    rw [numeric] at hj
    cases t with
    | nil => simp [isNumText] at hj
    | cons c t =>
      have hc : isNumChar c := by
        simp only [isNumText, List.all_cons, Bool.and_eq_true] at hj
        exact hj.2.1
      exact ⟨c, t ++ r, rfl, by rw [startOf, if_pos hc]; rfl⟩
  | str s => exact ⟨_, _, quote_append s r, rfl⟩
  | arr items => exact ⟨_, _, stringify_arr items r, rfl⟩
  | obj fields => exact ⟨_, _, stringify_obj fields r, rfl⟩

theorem start_eq {a b : Json} (ha : a.numeric) (hb : b.numeric) {r r' : JsText}
    (h : a.stringify ++ r = b.stringify ++ r') : a.start = b.start := by
  obtain ⟨c, t, hc, hstart⟩ := head_stringify ha r
  obtain ⟨c', t', hc', hstart'⟩ := head_stringify hb r'
  rw [hc, hc'] at h
  rw [(List.cons.inj h).1, hstart'] at hstart
  exact (Option.some.inj hstart).symm

theorem stringify_ne_close {j : Json} (hj : j.numeric) (r r' : JsText) :
    j.stringify ++ r ≠ ']' :: r' := by
  obtain ⟨c, t, hc, hstart⟩ := head_stringify hj r
  rw [hc]
  intro h
  rw [(List.cons.inj h).1] at hstart
  exact absurd hstart (by simp [startOf, isNumChar])

/-- **Reading back**: the text of a value determines it, whatever follows. -/
theorem stringify_append_inj {a b : Json} (ha : a.numeric) (hb : b.numeric) {r r' : JsText}
    (hr : ends r) (hr' : ends r') (h : a.stringify ++ r = b.stringify ++ r') : a = b ∧ r = r' := by
  have hstart := start_eq ha hb h
  induction a generalizing b r r' with
  | null =>
    cases b <;> cases hstart
    exact ⟨rfl, List.append_cancel_left h⟩
  | bool x =>
    cases b <;> cases hstart
    exact ⟨rfl, List.append_cancel_left h⟩
  | num t =>
    cases b <;> cases hstart
    rename_i t'
    rw [numeric, isNumText, Bool.and_eq_true] at ha hb
    obtain ⟨rfl, rfl⟩ := num_append_inj ha.2 hb.2 hr hr' h
    exact ⟨rfl, rfl⟩
  | str s =>
    cases b <;> cases hstart
    rename_i s'
    obtain ⟨rfl, rfl⟩ := quote_append_inj h
    exact ⟨rfl, rfl⟩
  | arr items ih =>
    cases b <;> cases hstart
    rename_i items'
    rw [numeric_arr] at ha hb
    rw [stringify_arr, stringify_arr] at h
    have hreads (j : Json) (hj : j ∈ items) :
        Separated.Reads (fun r => ends r) (fun j => numeric j) stringify j :=
      fun b r r' hb hr hr' h => ih j hj (ha j hj) hb hr hr' h (start_eq (ha j hj) hb h)
    obtain ⟨rfl, rfl⟩ := Separated.join_inj (by decide) (fun _ => rfl) (fun _ => rfl)
      (fun j r hj r' => stringify_ne_close hj r r') (fun j hj => ⟨ha j hj, hreads j hj⟩) hb
      (List.cons.inj h).2
    exact ⟨rfl, rfl⟩
  | obj fields ih =>
    cases b <;> cases hstart
    rename_i fields'
    rw [numeric_obj] at ha hb
    rw [stringify_obj, stringify_obj] at h
    have hstarts (f : JsText × Json) (r : JsText) (_ : numeric f.2) (r' : JsText) :
        fieldText f ++ r ≠ '}' :: r' := by
      rw [fieldText, List.append_assoc, quote_append]
      exact fun h => absurd (List.cons.inj h).1 (by decide)
    have hreads (f : JsText × Json) (hf : f ∈ fields) :
        Separated.Reads (fun r => ends r) (fun f => numeric f.2) fieldText f := by
      intro g r r' hg hr hr' hfg
      unfold fieldText at hfg
      rw [List.append_assoc, List.append_assoc] at hfg
      obtain ⟨hkey, hvalue⟩ := quote_append_inj hfg
      have htext := (List.cons.inj hvalue).2
      obtain ⟨hv, rfl⟩ := ih f hf (ha f hf) hg hr hr' htext (start_eq (ha f hf) hg htext)
      exact ⟨Prod.ext hkey hv, rfl⟩
    obtain ⟨rfl, rfl⟩ := Separated.join_inj (by decide) (fun _ => rfl) (fun _ => rfl) hstarts
      (fun f hf => ⟨ha f hf, hreads f hf⟩) hb (List.cons.inj h).2
    exact ⟨rfl, rfl⟩

theorem stringify_inj {a b : Json} (ha : a.numeric) (hb : b.numeric)
    (h : a.stringify = b.stringify) : a = b := by
  have hnil : a.stringify ++ [] = b.stringify ++ [] := by rw [h]
  exact (stringify_append_inj ha hb rfl rfl hnil).1

end Json
