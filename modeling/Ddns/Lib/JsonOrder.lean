import Ddns.Lib.JsonText
import Ddns.Lib.StableSort

/-!
# The order of properties

`sorted` sorts the properties of every object of a value: printing a value with sorted properties is
printing its sorted tree (`print_sorted`). An object enumerates its properties with the array indices
first, in ascending order, and the others as they were added (`enumerate`).
-/

namespace Json

variable {β γ : Type*}

/-- Entries, sorted by their keys. -/
def sortFields (cmp : JsText → JsText → Ordering) (entries : List (JsText × β)) :
    List (JsText × β) :=
  entries.insertionSort fun a b => (cmp a.1 b.1).isLE

theorem map_sortFields (cmp : JsText → JsText → Ordering) (f : JsText × β → γ)
    (entries : List (JsText × β)) :
    (sortFields cmp entries).map (fun e => (e.1, f e)) =
      sortFields cmp (entries.map fun e => (e.1, f e)) :=
  List.map_insertionSort _ _ _ _ fun _ _ _ _ => Iff.rfl

theorem sortFields_perm (cmp : JsText → JsText → Ordering) (entries : List (JsText × β)) :
    (sortFields cmp entries).Perm entries :=
  List.perm_insertionSort _ _

theorem keys_sortFields (cmp : JsText → JsText → Ordering) (entries : List (JsText × β)) :
    (sortFields cmp entries).map Prod.fst =
      (entries.map Prod.fst).insertionSort fun a b => (cmp a b).isLE :=
  List.map_insertionSort _ _ _ _ fun _ _ _ _ => Iff.rfl

theorem sortFields_eq_of_perm {cmp : JsText → JsText → Ordering} [Std.TransCmp cmp]
    [Std.LawfulEqCmp cmp] {l l' : List (JsText × β)} (hp : l.Perm l')
    (hn : (l.map Prod.fst).Nodup) : sortFields cmp l = sortFields cmp l' :=
  insertionSort_keys_perm hp hn

/-- Entries with the same keys in the same order are equal, if a key has one entry. -/
theorem eq_of_keys_eq {l l' : List (JsText × β)}
    (h : ∀ a ∈ l, ∀ b ∈ l', a.1 = b.1 → a = b) (hkeys : l.map Prod.fst = l'.map Prod.fst) :
    l = l' := by
  induction l generalizing l' with
  | nil => exact (List.map_eq_nil_iff.1 hkeys.symm).symm
  | cons a l ih =>
    cases l' with
    | nil => cases hkeys
    | cons b l' =>
      obtain ⟨hkey, hrest⟩ := List.cons.inj hkeys
      obtain rfl := h a List.mem_cons_self b List.mem_cons_self hkey
      rw [ih (fun x hx y hy => h x (List.mem_cons_of_mem a hx) y (List.mem_cons_of_mem a hy)) hrest]

/-! ## Sorted trees -/

mutual

/-- The value with the properties of every object sorted. -/
def sorted (cmp : JsText → JsText → Ordering) : Json → Json
  | .null => .null
  | .bool b => .bool b
  | .num t => .num t
  | .str s => .str s
  | .arr items => .arr (sortedItems cmp items)
  | .obj fields => .obj (sortFields cmp (sortedFields cmp fields))
termination_by structural j => j

def sortedItems (cmp : JsText → JsText → Ordering) : List Json → List Json
  | [] => []
  | j :: js => sorted cmp j :: sortedItems cmp js
termination_by structural js => js

def sortedFields (cmp : JsText → JsText → Ordering) :
    List (JsText × Json) → List (JsText × Json)
  | [] => []
  | f :: fs => sortedField cmp f :: sortedFields cmp fs
termination_by structural fs => fs

def sortedField (cmp : JsText → JsText → Ordering) : JsText × Json → JsText × Json
  | (k, v) => (k, sorted cmp v)
termination_by structural f => f

end

variable {cmp : JsText → JsText → Ordering}

theorem sorted_arr (items : List Json) : sorted cmp (.arr items) = .arr (items.map (sorted cmp)) := by
  rw [sorted]
  congr 1
  induction items with
  | nil => rfl
  | cons j js ih => rw [sortedItems, ih, List.map_cons]

theorem sorted_obj (fields : List (JsText × Json)) :
    sorted cmp (.obj fields) = .obj (sortFields cmp (fields.map fun f => (f.1, sorted cmp f.2))) := by
  have hmap : sortedFields cmp fields = fields.map fun f => (f.1, sorted cmp f.2) := by
    induction fields with
    | nil => rfl
    | cons f fs ih =>
      obtain ⟨k, v⟩ := f
      rw [sortedFields, ih, sortedField, List.map_cons]
  rw [sorted, hmap]

/-- **Printing with sorted properties** is printing the sorted tree. -/
theorem print_sorted (j : Json) : print (sortByKey cmp) j = (sorted cmp j).stringify := by
  induction j with
  | arr items ih =>
    have hitems : items.map (print (sortByKey cmp)) = (items.map (sorted cmp)).map stringify := by
      rw [List.map_map]
      exact List.map_congr_left ih
    rw [sorted_arr, stringify, print, print, printItems_eq_map, printItems_eq_map, hitems]
    rfl
  | obj fields ih =>
    have hfields : (fields.map fun f => (f.1, print (sortByKey cmp) f.2)) =
        (fields.map fun f => (f.1, sorted cmp f.2)).map fun f => (f.1, stringify f.2) := by
      rw [List.map_map]
      exact List.map_congr_left fun f hf => Prod.ext rfl (ih f hf)
    rw [sorted_obj, stringify, print, print, printFields_eq_map, printFields_eq_map, hfields]
    exact congrArg braces (map_sortFields cmp (fun f => stringify f.2) _).symm
  | _ => rfl

theorem numeric_sorted {j : Json} (h : j.numeric) : (sorted cmp j).numeric := by
  induction j with
  | arr items ih =>
    rw [sorted_arr, numeric_arr]
    intro j hj
    obtain ⟨i, hi, rfl⟩ := List.mem_map.1 hj
    exact ih i hi (numeric_arr.1 h i hi)
  | obj fields ih =>
    rw [sorted_obj, numeric_obj]
    intro f hf
    obtain ⟨g, hg, rfl⟩ := List.mem_map.1 ((sortFields_perm cmp _).subset hf)
    exact ih g hg (numeric_obj.1 h g hg)
  | _ => exact h

/-! ## Enumeration -/

/-- The number that a property stands for, if it is an array index. -/
def arrayIndex (key : JsText) : Option ℕ :=
  let n := Nat.ofDigitChars 10 key 0
  if key.all Char.isDigit ∧ key = Nat.toDigits 10 n ∧ n < 2 ^ 32 - 1 then some n else none

/-- Array indices come first, in ascending order. -/
def enumeratesBefore (a b : JsText) : Bool :=
  match arrayIndex a, arrayIndex b with
  | some m, some n => m ≤ n
  | none, some _ => false
  | _, none => true

/-- The properties of an object in the order in which they are enumerated. -/
def enumerate (entries : List (JsText × β)) : List (JsText × β) :=
  entries.insertionSort fun a b => enumeratesBefore a.1 b.1

theorem enumerate_perm (entries : List (JsText × β)) : (enumerate entries).Perm entries :=
  List.perm_insertionSort _ _

theorem map_enumerate (f : JsText × β → γ) (entries : List (JsText × β)) :
    (enumerate entries).map (fun e => (e.1, f e)) =
      enumerate (entries.map fun e => (e.1, f e)) :=
  List.map_insertionSort _ _ _ _ fun _ _ _ _ => Iff.rfl

/-- The keys of an object in the order in which they are enumerated. -/
def enumeratedKeys (keys : List JsText) : List JsText :=
  keys.insertionSort fun a b => enumeratesBefore a b

theorem keys_enumerate (entries : List (JsText × β)) :
    (enumerate entries).map Prod.fst = enumeratedKeys (entries.map Prod.fst) :=
  List.map_insertionSort _ _ _ _ fun _ _ _ _ => Iff.rfl

end Json

/-!
## Values up to the order of their keys

A `JsonValue` is a tree whose numbers are printed as numbers and whose objects have every key once.
Two values are the same up to the order of object keys (`SameUpToOrder`) exactly if printing them
with sorted keys writes the same text (`print_sortByKey_eq_iff`).
-/

namespace Json

variable {β : Type*}

/-! ## Distinct keys -/

mutual

/-- No object has a key twice. -/
def distinct : Json → Bool
  | .arr items => distinctItems items
  | .obj fields => decide (fields.map Prod.fst).Nodup && distinctFields fields
  | _ => true
termination_by structural j => j

def distinctItems : List Json → Bool
  | [] => true
  | j :: js => distinct j && distinctItems js
termination_by structural js => js

def distinctFields : List (JsText × Json) → Bool
  | [] => true
  | f :: fs => distinctField f && distinctFields fs
termination_by structural fs => fs

def distinctField : JsText × Json → Bool
  | (_, v) => distinct v
termination_by structural f => f

end

theorem distinct_arr {items : List Json} : distinct (.arr items) ↔ ∀ j ∈ items, distinct j := by
  rw [distinct]
  induction items with
  | nil => simp [distinctItems]
  | cons j js ih => simp [distinctItems, ih]

theorem distinct_obj {fields : List (JsText × Json)} : distinct (.obj fields) ↔
    (fields.map Prod.fst).Nodup ∧ ∀ f ∈ fields, distinct f.2 := by
  have hfields : distinctFields fields ↔ ∀ f ∈ fields, distinct f.2 := by
    induction fields with
    | nil => simp [distinctFields]
    | cons f fs ih =>
      obtain ⟨k, v⟩ := f
      simp [distinctFields, distinctField, ih]
  rw [distinct, Bool.and_eq_true, decide_eq_true_iff, hfields]

/-- Entries with distinct keys come from the same keys in some order, if a key has the same entry in
both. -/
theorem perm_of_keys {l l' : List (JsText × β)} (hn : (l.map Prod.fst).Nodup)
    (hkeys : (l.map Prod.fst).Perm (l'.map Prod.fst))
    (h : ∀ a ∈ l, ∀ b ∈ l', a.1 = b.1 → a = b) : l.Perm l' := by
  have hn' : (l'.map Prod.fst).Nodup := hkeys.nodup_iff.1 hn
  refine (List.perm_ext_iff_of_nodup (hn.of_map _) (hn'.of_map _)).2 fun a => ⟨fun ha => ?_, fun ha => ?_⟩
  · obtain ⟨b, hb, hkey⟩ := List.mem_map.1 (hkeys.subset (List.mem_map_of_mem ha))
    rw [h a ha b hb hkey.symm]
    exact hb
  · obtain ⟨b, hb, hkey⟩ := List.mem_map.1 (hkeys.symm.subset (List.mem_map_of_mem ha))
    rw [← h b hb a ha hkey]
    exact hb

/-- Lists have the same image exactly if their entries have, one by one. -/
theorem map_eq_map_iff_zip {α : Type*} {f : α → β} {l l' : List α} :
    l.map f = l'.map f ↔ l.length = l'.length ∧ ∀ p ∈ l.zip l', f p.1 = f p.2 := by
  have heq : l.map f = l'.map f ↔ List.Forall₂ (fun a b => f a = f b) l l' := by
    rw [← List.forall₂_eq_eq_eq, List.forall₂_map_left_iff, List.forall₂_map_right_iff]
  rw [heq, List.forall₂_iff_zip]
  refine and_congr_right fun _ => ⟨fun h p hp => h hp, fun h a b hab => h (a, b) hab⟩

/-! ## Equal up to the order of keys -/

/-- The values are equal up to the order of object keys, at every depth: the items of an array are
so one by one, and an object has the same keys in some order, with such values. -/
inductive SameUpToOrder : Json → Json → Prop
  | null : SameUpToOrder .null .null
  | bool (b : Bool) : SameUpToOrder (.bool b) (.bool b)
  | num (t : JsText) : SameUpToOrder (.num t) (.num t)
  | str (s : JsText) : SameUpToOrder (.str s) (.str s)
  | arr {items items' : List Json} (length : items.length = items'.length)
      (same : ∀ p ∈ items.zip items', SameUpToOrder p.1 p.2) :
      SameUpToOrder (.arr items) (.arr items')
  | obj {fields fields' : List (JsText × Json)}
      (keys : (fields.map Prod.fst).Perm (fields'.map Prod.fst))
      (same : ∀ f ∈ fields, ∀ g ∈ fields', f.1 = g.1 → SameUpToOrder f.2 g.2) :
      SameUpToOrder (.obj fields) (.obj fields')

section Sorted

variable {cmp : JsText → JsText → Ordering} {v w : Json}

theorem keys_sortedFields (fields : List (JsText × Json)) :
    (fields.map fun f => (f.1, sorted cmp f.2)).map Prod.fst = fields.map Prod.fst := by
  rw [List.map_map]
  rfl

/-- Values that are the same up to order are sorted alike. -/
theorem sorted_eq_of_same [Std.TransCmp cmp] [Std.LawfulEqCmp cmp] (h : SameUpToOrder v w)
    (hv : v.distinct) : sorted cmp v = sorted cmp w := by
  induction h with
  | arr length same ih =>
    rw [distinct_arr] at hv
    rw [sorted_arr, sorted_arr]
    refine congrArg Json.arr (map_eq_map_iff_zip.2 ⟨length, fun p hp => ih p hp (hv p.1 ?_)⟩)
    exact (List.of_mem_zip hp).1
  | obj keys same ih =>
    rename_i fields fields'
    rw [distinct_obj] at hv
    rw [sorted_obj, sorted_obj]
    have hn : ((fields.map fun f => (f.1, sorted cmp f.2)).map Prod.fst).Nodup := by
      rw [keys_sortedFields]
      exact hv.1
    refine congrArg Json.obj (sortFields_eq_of_perm (perm_of_keys hn ?_ ?_) hn)
    · rw [keys_sortedFields, keys_sortedFields]
      exact keys
    · intro a ha b hb hkey
      obtain ⟨f, hf, rfl⟩ := List.mem_map.1 ha
      obtain ⟨g, hg, rfl⟩ := List.mem_map.1 hb
      exact Prod.ext hkey (ih f hf g hg hkey (hv.2 f hf))
  | _ => rfl

theorem start_sorted (j : Json) : (sorted cmp j).start = j.start := by
  cases j <;> rfl

theorem start_eq_of_sorted_eq (h : sorted cmp v = sorted cmp w) : v.start = w.start := by
  have hstart := congrArg start h
  rwa [start_sorted, start_sorted] at hstart

/-- Values that are sorted alike are the same up to order. -/
theorem same_of_sorted_eq (hv : v.distinct) (hw : w.distinct) (h : sorted cmp v = sorted cmp w) :
    SameUpToOrder v w := by
  have hstart := start_eq_of_sorted_eq h
  induction v generalizing w with
  | null =>
    cases w <;> cases hstart
    exact .null
  | bool b =>
    cases w <;> cases hstart
    exact .bool b
  | num t =>
    cases w <;> cases hstart
    obtain rfl := Json.num.inj h
    exact .num t
  | str s =>
    cases w <;> cases hstart
    obtain rfl := Json.str.inj h
    exact .str s
  | arr items ih =>
    cases w <;> cases hstart
    rename_i items'
    rw [distinct_arr] at hv hw
    rw [sorted_arr, sorted_arr] at h
    obtain ⟨hlength, hzip⟩ := map_eq_map_iff_zip.1 (Json.arr.inj h)
    refine .arr hlength fun p hp => ?_
    obtain ⟨hleft, hright⟩ := List.of_mem_zip hp
    exact ih p.1 hleft (hv p.1 hleft) (hw p.2 hright) (hzip p hp)
      (start_eq_of_sorted_eq (hzip p hp))
  | obj fields ih =>
    cases w <;> cases hstart
    rename_i fields'
    rw [distinct_obj] at hv hw
    rw [sorted_obj, sorted_obj] at h
    have hperm : (fields.map fun f => (f.1, sorted cmp f.2)).Perm
        (fields'.map fun f => (f.1, sorted cmp f.2)) := by
      refine (sortFields_perm cmp _).symm.trans ?_
      rw [Json.obj.inj h]
      exact sortFields_perm cmp _
    refine .obj ?_ fun f hf g hg hkey => ?_
    · have hkeys := hperm.map Prod.fst
      rwa [keys_sortedFields, keys_sortedFields] at hkeys
    · have hmem : (f.1, sorted cmp f.2) ∈ fields'.map fun f => (f.1, sorted cmp f.2) :=
        hperm.subset (List.mem_map_of_mem (f := fun f => (f.1, sorted cmp f.2)) hf)
      obtain ⟨g', hg', heq⟩ := List.mem_map.1 hmem
      obtain ⟨hkey', hvalue⟩ := Prod.mk.inj heq
      obtain rfl := List.inj_on_of_nodup_map hw.1 hg hg' (hkey.symm.trans hkey'.symm)
      exact ih f hf (hv.2 f hf) (hw.2 g hg) hvalue.symm (start_eq_of_sorted_eq hvalue.symm)

end Sorted

end Json

/-! ## Values of JSON -/

/-- A value of JSON: its numbers are printed as numbers, and no object has a key twice. -/
structure JsonValue where
  tree : Json
  numeric : tree.numeric
  distinct : tree.distinct

namespace JsonValue

/-- Equal up to the order of object keys, at every depth. -/
def SameUpToOrder (v w : JsonValue) : Prop := Json.SameUpToOrder v.tree w.tree

variable {cmp : JsText → JsText → Ordering}

/-- Values with the same text are the same up to order, however the keys are sorted. -/
theorem same_of_print_eq {v w : JsonValue}
    (h : v.tree.print (Json.sortByKey cmp) = w.tree.print (Json.sortByKey cmp)) :
    v.SameUpToOrder w := by
  rw [Json.print_sorted, Json.print_sorted] at h
  have htrees := Json.stringify_inj (Json.numeric_sorted v.numeric) (Json.numeric_sorted w.numeric) h
  exact Json.same_of_sorted_eq v.distinct w.distinct htrees

/-- **Printing with sorted keys** tells apart the values that differ in more than their order. -/
theorem print_sortByKey_eq_iff [Std.TransCmp cmp] [Std.LawfulEqCmp cmp] {v w : JsonValue} :
    v.tree.print (Json.sortByKey cmp) = w.tree.print (Json.sortByKey cmp) ↔ v.SameUpToOrder w := by
  refine ⟨same_of_print_eq, fun h => ?_⟩
  rw [Json.print_sorted, Json.print_sorted, Json.sorted_eq_of_same h v.distinct]

end JsonValue
