import Mathlib.Algebra.BigOperators.Group.Finset.Basic
import Mathlib.Algebra.BigOperators.Group.List.Basic
import Mathlib.Algebra.BigOperators.Ring.List
import Mathlib.Algebra.Order.BigOperators.Group.List
import Mathlib.Algebra.Order.Ring.Nat

/-!
# Finite maps in insertion order

A finite map is a list of entries with distinct keys. `set` overwrites the entry of a key in place
and appends the entry of a new key, so the entries keep the order in which their keys came.

`total f` is the sum of `f` over the entries. Writing a new key adds its term (`total_set_new`);
overwriting a key exchanges the old term for the new one (`total_set`).
-/

/-- A finite map: entries with distinct keys, in insertion order. -/
structure FinMap (κ ν : Type*) where
  entries : List (κ × ν)
  nodup : (entries.map Prod.fst).Nodup

namespace FinMap

variable {κ ν M : Type*} [DecidableEq κ]

/-- The value of the first entry of `k`. -/
def lookup : List (κ × ν) → κ → Option ν
  | [], _ => none
  | e :: es, k => if e.1 = k then some e.2 else lookup es k

/-- Overwrite the entry of `k`, or append one. -/
def write : List (κ × ν) → κ → ν → List (κ × ν)
  | [], k, v => [(k, v)]
  | e :: es, k, v => if e.1 = k then (k, v) :: es else e :: write es k v

theorem write_keys (es : List (κ × ν)) (k : κ) (v : ν) :
    (write es k v).map Prod.fst =
      if k ∈ es.map Prod.fst then es.map Prod.fst else es.map Prod.fst ++ [k] := by
  induction es with
  | nil => simp [write]
  | cons e es ih =>
    by_cases he : e.1 = k
    · simp [write, he]
    · have hk : k ≠ e.1 := fun h => he h.symm
      simp only [write, he, if_false, List.map_cons, ih, List.mem_cons, hk, false_or]
      split <;> rfl

theorem write_nodup {es : List (κ × ν)} (h : (es.map Prod.fst).Nodup) (k : κ) (v : ν) :
    ((write es k v).map Prod.fst).Nodup := by
  rw [write_keys]
  split
  · exact h
  · next hk => simpa [List.nodup_append] using ⟨h, fun a x hx e => hk (by
      subst e; exact List.mem_map.2 ⟨_, hx, rfl⟩)⟩

/-- The map without entries. -/
def empty : FinMap κ ν := ⟨[], List.nodup_nil⟩

/-- The value of a key. -/
def get (m : FinMap κ ν) (k : κ) : Option ν := lookup m.entries k

/-- Write the value of a key. -/
def set (m : FinMap κ ν) (k : κ) (v : ν) : FinMap κ ν :=
  ⟨write m.entries k v, write_nodup m.nodup k v⟩

/-- The sum of `f` over the entries. -/
def total [AddMonoid M] (f : κ → ν → M) (m : FinMap κ ν) : M :=
  (m.entries.map fun e => f e.1 e.2).sum

/-- Remove the entry of a key. -/
def erase (m : FinMap κ ν) (k : κ) : FinMap κ ν :=
  ⟨m.entries.filter fun e => e.1 ≠ k, m.nodup.sublist (List.filter_sublist.map Prod.fst)⟩

@[simp] theorem get_empty (k : κ) : (empty : FinMap κ ν).get k = none := rfl

/-! ## Reading after a write -/

theorem lookup_write_self (es : List (κ × ν)) (k : κ) (v : ν) :
    lookup (write es k v) k = some v := by
  induction es with
  | nil => simp [write, lookup]
  | cons e es ih =>
    by_cases he : e.1 = k
    · simp [write, lookup, he]
    · simp [write, lookup, he, ih]

theorem lookup_write_ne (es : List (κ × ν)) {k k' : κ} (v : ν) (hk : k' ≠ k) :
    lookup (write es k v) k' = lookup es k' := by
  induction es with
  | nil => simp [write, lookup, hk.symm]
  | cons e es ih =>
    by_cases he : e.1 = k
    · simp [write, lookup, he, hk.symm]
    · simp [write, lookup, he, ih]

@[simp] theorem get_set_self (m : FinMap κ ν) (k : κ) (v : ν) : (m.set k v).get k = some v :=
  lookup_write_self m.entries k v

theorem get_set_ne (m : FinMap κ ν) {k k' : κ} (v : ν) (hk : k' ≠ k) :
    (m.set k v).get k' = m.get k' :=
  lookup_write_ne m.entries v hk

theorem get_set (m : FinMap κ ν) (k k' : κ) (v : ν) :
    (m.set k v).get k' = if k' = k then some v else m.get k' := by
  split
  · next h => rw [h, get_set_self]
  · next h => exact get_set_ne m v h

theorem write_write (es : List (κ × ν)) (k : κ) (u v : ν) :
    write (write es k u) k v = write es k v := by
  induction es with
  | nil => simp [write]
  | cons e es ih =>
    by_cases he : e.1 = k
    · simp [write, he]
    · simp [write, he, ih]

/-- The last write of a key counts. -/
theorem set_set (m : FinMap κ ν) (k : κ) (u v : ν) : (m.set k u).set k v = m.set k v := by
  unfold set
  congr 1
  exact write_write m.entries k u v

/-! ## Reading after a removal -/

theorem lookup_filter_ne (es : List (κ × ν)) (k k' : κ) :
    lookup (es.filter fun e => e.1 ≠ k) k' = if k' = k then none else lookup es k' := by
  induction es with
  | nil => simp [lookup]
  | cons e es ih =>
    by_cases he : e.1 = k
    · rw [List.filter_cons_of_neg (by simpa using he), ih]
      by_cases hk : k' = k
      · rw [if_pos hk, if_pos hk]
      · have hne : e.1 ≠ k' := fun h => hk (h.symm.trans he)
        rw [if_neg hk, if_neg hk, lookup, if_neg hne]
    · rw [List.filter_cons_of_pos (by simpa using he), lookup, lookup, ih]
      by_cases hk : k' = k
      · rw [if_pos hk, if_neg (fun h => he (h.trans hk))]
        simp [hk]
      · rw [if_neg hk, if_neg hk]

theorem get_erase (m : FinMap κ ν) (k k' : κ) :
    (m.erase k).get k' = if k' = k then none else m.get k' :=
  lookup_filter_ne m.entries k k'

@[simp] theorem get_erase_self (m : FinMap κ ν) (k : κ) : (m.erase k).get k = none := by
  rw [get_erase, if_pos rfl]

/-! ## Entries -/

theorem mem_of_lookup {es : List (κ × ν)} {k : κ} {v : ν} (h : lookup es k = some v) :
    (k, v) ∈ es := by
  induction es with
  | nil => cases h
  | cons e es ih =>
    unfold lookup at h
    split at h
    · next he =>
      cases h
      rw [← he]
      exact List.mem_cons_self
    · exact List.mem_cons_of_mem e (ih h)

theorem lookup_of_mem {es : List (κ × ν)} (hn : (es.map Prod.fst).Nodup) {k : κ} {v : ν}
    (h : (k, v) ∈ es) : lookup es k = some v := by
  induction es with
  | nil => cases h
  | cons e es ih =>
    rw [List.map_cons, List.nodup_cons] at hn
    unfold lookup
    rcases List.mem_cons.1 h with rfl | h
    · simp
    · have hne : e.1 ≠ k := by
        intro he
        exact hn.1 (he ▸ List.mem_map.2 ⟨(k, v), h, rfl⟩)
      rw [if_neg hne]
      exact ih hn.2 h

/-- The entries are the keys that read a value. -/
theorem mem_entries {m : FinMap κ ν} {k : κ} {v : ν} : (k, v) ∈ m.entries ↔ m.get k = some v :=
  ⟨lookup_of_mem m.nodup, mem_of_lookup⟩

/-- Removing the entries of several keys keeps the others. -/
theorem foldl_erase_entries (ks : List κ) (m : FinMap κ ν) :
    (ks.foldl erase m).entries = m.entries.filter fun e => e.1 ∉ ks := by
  induction ks generalizing m with
  | nil => simp
  | cons k ks ih =>
    rw [List.foldl_cons, ih, erase, List.filter_filter]
    refine List.filter_congr fun e _ => ?_
    simp [Bool.and_comm]

theorem get_foldl_erase {ks : List κ} {m : FinMap κ ν} {k : κ} {v : ν}
    (h : (ks.foldl erase m).get k = some v) : m.get k = some v := by
  rw [← mem_entries, foldl_erase_entries] at h
  exact mem_entries.1 (List.mem_filter.1 h).1

/-- The entries whose keys are not among the first `n` ones are the later ones. -/
theorem filter_keys_take {items : List (κ × ν)} (hn : (items.map Prod.fst).Nodup)
    (n : ℕ) : items.filter (fun e => e.1 ∉ (items.take n).map Prod.fst) = items.drop n := by
  induction items generalizing n with
  | nil => simp
  | cons e es ih =>
    cases n with
    | zero => simp
    | succ n =>
      obtain ⟨he, hn⟩ := List.nodup_cons.1 hn
      rw [List.drop_succ_cons, ← ih hn n, List.take_succ_cons, List.map_cons,
        List.filter_cons_of_neg (by simp)]
      refine List.filter_congr fun x hx => ?_
      have hne : x.1 ≠ e.1 := fun h => he (h ▸ List.mem_map_of_mem hx)
      simp [hne]

/-- Removing the keys of the first `n` entries of an arrangement leaves the others. -/
theorem length_foldl_erase {m : FinMap κ ν} {items : List (κ × ν)} (hp : items.Perm m.entries)
    (n : ℕ) : (((items.take n).map Prod.fst).foldl erase m).entries.length = items.length - n := by
  have hn : (items.map Prod.fst).Nodup := (hp.map Prod.fst).nodup_iff.2 m.nodup
  rw [foldl_erase_entries, ← (hp.filter _).length_eq, filter_keys_take hn, List.length_drop]

/-! ## Copies -/

/-- The entries of a list; where a key comes up again, its last value counts. -/
def ofList (es : List (κ × ν)) : FinMap κ ν := es.foldl (fun m e => m.set e.1 e.2) empty

/-- A map with other values. -/
def mapValues {ν' : Type*} (f : ν → ν') (m : FinMap κ ν) : FinMap κ ν' where
  entries := m.entries.map fun e => (e.1, f e.2)
  nodup := by
    rw [List.map_map]
    exact m.nodup

theorem get_mapValues {ν' : Type*} (f : ν → ν') (m : FinMap κ ν) (k : κ) :
    (m.mapValues f).get k = (m.get k).map f := by
  show lookup (m.entries.map fun e => (e.1, f e.2)) k = (lookup m.entries k).map f
  induction m.entries with
  | nil => rfl
  | cons e es ih =>
    by_cases he : e.1 = k
    · simp [lookup, he]
    · simp [lookup, he, ih]

theorem get_foldl_set {es : List (κ × ν)} (hn : (es.map Prod.fst).Nodup) (m : FinMap κ ν) (k : κ) :
    (es.foldl (fun m e => m.set e.1 e.2) m).get k = (lookup es k).or (m.get k) := by
  induction es generalizing m with
  | nil => rfl
  | cons e es ih =>
    rw [List.map_cons, List.nodup_cons] at hn
    rw [List.foldl_cons, ih hn.2, lookup, get_set]
    by_cases he : e.1 = k
    · have hnone : lookup es k = none := by
        cases hl : lookup es k with
        | none => rfl
        | some v => exact absurd (List.mem_map_of_mem (mem_of_lookup hl)) (he ▸ hn.1)
      rw [hnone, if_pos he, if_pos he.symm]
      rfl
    · rw [if_neg he, if_neg (Ne.symm he)]

/-- A map whose entries were listed in any order. -/
theorem get_ofList_perm {es : List (κ × ν)} {m : FinMap κ ν} (hp : es.Perm m.entries) (k : κ) :
    (ofList es).get k = m.get k := by
  have hn : (es.map Prod.fst).Nodup := (hp.map Prod.fst).nodup_iff.2 m.nodup
  unfold ofList
  rw [get_foldl_set hn, get_empty, Option.or_none]
  ext v
  constructor
  · intro h
    exact mem_entries.1 (hp.subset (mem_of_lookup h))
  · intro h
    exact lookup_of_mem hn (hp.symm.subset (mem_entries.2 h))

/-! ## Totals -/

section Totals

omit [DecidableEq κ] in
@[simp] theorem total_empty [AddMonoid M] (f : κ → ν → M) :
    total f (empty : FinMap κ ν) = 0 := rfl

theorem sum_write [AddCommMonoid M] (f : κ → ν → M) (es : List (κ × ν)) (k : κ) (v : ν) :
    ((write es k v).map fun e => f e.1 e.2).sum + ((lookup es k).map (f k)).getD 0 =
      (es.map fun e => f e.1 e.2).sum + f k v := by
  induction es with
  | nil => simp [write, lookup]
  | cons e es ih =>
    by_cases he : e.1 = k
    · subst he
      simp only [write, lookup, if_true, List.map_cons, List.sum_cons, Option.map_some,
        Option.getD_some]
      rw [add_comm (f e.1 v), add_right_comm, add_comm _ (f e.1 e.2)]
    · simp only [write, lookup, he, if_false, List.map_cons, List.sum_cons, add_assoc, ih]

theorem sum_write_of_eq [AddCommMonoid M] {f g : κ → ν → M} {es : List (κ × ν)}
    (hn : (es.map Prod.fst).Nodup) {k : κ} {u : ν} (h : lookup es k = some u)
    (hfg : ∀ k', k' ≠ k → f k' = g k') (v : ν) :
    ((write es k v).map fun e => g e.1 e.2).sum + f k u =
      (es.map fun e => f e.1 e.2).sum + g k v := by
  induction es with
  | nil => cases h
  | cons e es ih =>
    rw [List.map_cons, List.nodup_cons] at hn
    by_cases he : e.1 = k
    · subst he
      have hu : e.2 = u := by simpa [lookup] using h
      have hrest : (es.map fun x => g x.1 x.2) = es.map fun x => f x.1 x.2 := by
        refine List.map_congr_left fun x hx => ?_
        rw [hfg x.1 fun hx' => hn.1 (hx' ▸ List.mem_map_of_mem hx)]
      simp only [write, if_true, List.map_cons, List.sum_cons, hu, hrest]
      rw [add_comm (g e.1 v), add_comm (f e.1 u), add_right_comm]
    · have hl : lookup es k = some u := by simpa [lookup, he] using h
      simp only [write, he, if_false, List.map_cons, List.sum_cons, add_assoc, ih hn.2 hl,
        hfg e.1 he]

/-- Overwriting a key exchanges its term, where the summand may change at this key too. -/
theorem total_set_of_eq [AddCommMonoid M] {f g : κ → ν → M} {m : FinMap κ ν} {k : κ} {u : ν}
    (h : m.get k = some u) (hfg : ∀ k', k' ≠ k → f k' = g k') (v : ν) :
    total g (m.set k v) + f k u = total f m + g k v :=
  sum_write_of_eq m.nodup h hfg v

/-- Overwriting a key exchanges its old term for the new one. -/
theorem total_set [AddCommMonoid M] (f : κ → ν → M) {m : FinMap κ ν} {k : κ} {u : ν}
    (h : m.get k = some u) (v : ν) : total f (m.set k v) + f k u = total f m + f k v :=
  total_set_of_eq h (fun _ _ => rfl) v

/-- Writing a new key adds its term. -/
theorem total_set_new [AddCommMonoid M] (f : κ → ν → M) {m : FinMap κ ν} {k : κ}
    (h : m.get k = none) (v : ν) : total f (m.set k v) = total f m + f k v := by
  have hw := sum_write f m.entries k v
  have hl : lookup m.entries k = none := h
  rw [hl, Option.map_none, Option.getD_none, add_zero] at hw
  exact hw

theorem sum_filter_ne [AddCommMonoid M] (f : κ → ν → M) {es : List (κ × ν)}
    (hn : (es.map Prod.fst).Nodup) {k : κ} {v : ν} (h : lookup es k = some v) :
    ((es.filter fun e => e.1 ≠ k).map fun e => f e.1 e.2).sum + f k v =
      (es.map fun e => f e.1 e.2).sum := by
  induction es with
  | nil => cases h
  | cons e es ih =>
    rw [List.map_cons, List.nodup_cons] at hn
    rw [lookup] at h
    split at h
    · next he =>
      have hv : e.2 = v := Option.some.inj h
      have hrest : (es.filter fun e => e.1 ≠ k) = es := by
        refine List.filter_eq_self.2 fun e' he' => decide_eq_true fun hk => hn.1 ?_
        rw [he, ← hk]
        exact List.mem_map_of_mem he'
      rw [List.filter_cons_of_neg (by simpa using he), hrest, List.map_cons, List.sum_cons, he, hv,
        add_comm]
    · next he =>
      rw [List.filter_cons_of_pos (by simpa using he), List.map_cons, List.sum_cons, List.map_cons,
        List.sum_cons, add_assoc, ih hn.2 h]

/-- Removing a key takes its term away. -/
theorem total_erase [AddCommMonoid M] (f : κ → ν → M) {m : FinMap κ ν} {k : κ} {v : ν}
    (h : m.get k = some v) : total f (m.erase k) + f k v = total f m :=
  sum_filter_ne f m.nodup h

/-- Both at once, when an absent key counts as a value without weight. -/
theorem total_set_getD [AddCommMonoid M] (f : κ → ν → M) (m : FinMap κ ν) (k : κ) {z : ν}
    (hz : f k z = 0) (v : ν) :
    total f (m.set k v) + f k ((m.get k).getD z) = total f m + f k v := by
  cases h : m.get k with
  | none => rw [Option.getD_none, hz, add_zero, total_set_new f h]
  | some u => rw [Option.getD_some, total_set f h]

/-- The total as a sum over any set of keys that has those of the map. -/
theorem total_eq_sum [AddCommMonoid M] (f : κ → ν → M) (m : FinMap κ ν) {S : Finset κ}
    (hS : ∀ k v, m.get k = some v → k ∈ S) :
    total f m = ∑ k ∈ S, ((m.get k).map (f k)).getD 0 := by
  have hsub : (m.entries.map Prod.fst).toFinset ⊆ S := by
    intro k hk
    obtain ⟨e, he, rfl⟩ := List.mem_map.1 (List.mem_toFinset.1 hk)
    exact hS e.1 e.2 (mem_entries.1 he)
  have hout : ∀ k ∈ S, k ∉ (m.entries.map Prod.fst).toFinset →
      ((m.get k).map (f k)).getD 0 = 0 := by
    intro k _ hk
    cases hg : m.get k with
    | none => rfl
    | some v =>
      exact absurd (List.mem_toFinset.2 (List.mem_map.2 ⟨(k, v), mem_entries.2 hg, rfl⟩)) hk
  rw [← Finset.sum_subset hsub hout, List.sum_toFinset _ m.nodup, List.map_map]
  unfold total
  congr 1
  refine List.map_congr_left fun e he => ?_
  rw [Function.comp_apply, mem_entries.1 he]
  rfl

/-- Maps that read alike, an absent key counting nothing, have the same total. -/
theorem total_eq_of_getD [AddCommMonoid M] (f : κ → ν → M) {m m' : FinMap κ ν}
    (h : ∀ k, ((m.get k).map (f k)).getD 0 = ((m'.get k).map (f k)).getD 0) :
    total f m = total f m' := by
  let S := (m.entries.map Prod.fst ++ m'.entries.map Prod.fst).toFinset
  have hm : ∀ k v, m.get k = some v → k ∈ S := fun k v hk => List.mem_toFinset.2
    (List.mem_append_left _ (List.mem_map.2 ⟨(k, v), mem_entries.2 hk, rfl⟩))
  have hm' : ∀ k v, m'.get k = some v → k ∈ S := fun k v hk => List.mem_toFinset.2
    (List.mem_append_right _ (List.mem_map.2 ⟨(k, v), mem_entries.2 hk, rfl⟩))
  rw [total_eq_sum f m hm, total_eq_sum f m' hm']
  exact Finset.sum_congr rfl fun k _ => h k

/-- A map that reads `q` more at one key has `q` more in total. -/
theorem total_add_at [AddCommGroup M] {m m' : FinMap κ M} {k : κ} {q : M}
    (h : ∀ k', (m'.get k').getD 0 = (m.get k').getD 0 + if k' = k then q else 0) :
    total (fun _ v => v) m' = total (fun _ v => v) m + q := by
  have hsame : total (fun _ v => v) m' =
      total (fun _ v => v) (m.set k ((m.get k).getD 0 + q)) := by
    refine total_eq_of_getD _ fun k' => ?_
    simp only [Option.map_id']
    rw [h, get_set]
    by_cases hk : k' = k
    · rw [if_pos hk, if_pos hk, hk]
      rfl
    · rw [if_neg hk, if_neg hk, add_zero]
  have hset := total_set_getD (fun (_ : κ) (v : M) => v) m k (z := 0) rfl ((m.get k).getD 0 + q)
  rw [hsame]
  refine add_right_cancel (hset.trans ?_)
  rw [add_assoc, add_comm q]

theorem total_congr [AddMonoid M] {f g : κ → ν → M} {m : FinMap κ ν}
    (h : ∀ k v, m.get k = some v → f k v = g k v) : total f m = total g m := by
  unfold total
  congr 1
  exact List.map_congr_left fun e he => h e.1 e.2 (mem_entries.1 he)

omit [DecidableEq κ] in
theorem total_add [AddCommMonoid M] (f g : κ → ν → M) (m : FinMap κ ν) :
    total (fun k v => f k v + g k v) m = total f m + total g m :=
  List.sum_map_add

omit [DecidableEq κ] in
theorem total_mul_left [NonUnitalNonAssocSemiring M] (a : M) (f : κ → ν → M) (m : FinMap κ ν) :
    total (fun k v => a * f k v) m = a * total f m :=
  List.sum_map_mul_left ..

theorem total_nonneg [AddCommMonoid M] [PartialOrder M] [IsOrderedAddMonoid M] {f : κ → ν → M}
    {m : FinMap κ ν} (h : ∀ k v, m.get k = some v → 0 ≤ f k v) : 0 ≤ total f m := by
  refine List.sum_nonneg fun x hx => ?_
  obtain ⟨e, he, rfl⟩ := List.mem_map.1 hx
  exact h e.1 e.2 (mem_entries.1 he)

/-- In the naturals, one term is at most the total. -/
theorem le_total {f : κ → ν → Nat} {m : FinMap κ ν} {k : κ} {v : ν} (h : m.get k = some v) :
    f k v ≤ total f m :=
  List.single_le_sum (fun _ _ => Nat.zero_le _) _
    (List.mem_map.2 ⟨(k, v), mem_entries.2 h, rfl⟩)

end Totals

end FinMap

/-!
## Maps that forget dead entries

`Forgets dead m m'` says that `m'` reads like `m`, except that entries whose value is `dead` may be
missing in it. It is the relation between a store and a copy of it that was rebuilt from a part of
the entries: a reader that treats a dead entry like a missing one cannot tell the two apart.
-/

variable {κ ν α : Type*} [DecidableEq κ]

/-- `m'` is `m` without some of the dead entries. -/
def Forgets (dead : ν → Prop) (m m' : FinMap κ ν) : Prop :=
  ∀ k, m'.get k = m.get k ∨ m'.get k = none ∧ ∀ v, m.get k = some v → dead v

namespace Forgets

variable {dead : ν → Prop} {m m' : FinMap κ ν}

theorem refl (m : FinMap κ ν) : Forgets dead m m := fun _ => .inl rfl

theorem of_get (h : ∀ k, m'.get k = m.get k) : Forgets dead m m' := fun k => .inl (h k)

/-- A copy without entries has forgotten a map of dead entries. -/
theorem of_dead (h : ∀ k v, m.get k = some v → dead v) : Forgets dead m .empty :=
  fun k => .inr ⟨FinMap.get_empty k, h k⟩

/-- Both read the same, or the entry is dead and missing in the copy. -/
theorem eq_or_dead (h : Forgets dead m m') (k : κ) :
    m'.get k = m.get k ∨ ∃ v, m.get k = some v ∧ m'.get k = none ∧ dead v := by
  rcases h k with heq | ⟨hnone, hdead⟩
  · exact .inl heq
  · cases hk : m.get k with
    | none => exact .inl hnone
    | some v => exact .inr ⟨v, rfl, hnone, hdead v hk⟩

/-- Nothing is forgotten where nothing is dead. -/
theorem get_eq (h : Forgets (fun _ => False) m m') (k : κ) : m'.get k = m.get k := by
  rcases h.eq_or_dead k with heq | ⟨v, -, -, hdead⟩
  · exact heq
  · exact absurd hdead not_false

/-- Both write the same. -/
theorem set (h : Forgets dead m m') (k : κ) (v : ν) : Forgets dead (m.set k v) (m'.set k v) := by
  intro k'
  rw [FinMap.get_set, FinMap.get_set]
  by_cases hk : k' = k
  · exact .inl (by rw [if_pos hk, if_pos hk])
  · rw [if_neg hk, if_neg hk]
    exact h k'

/-- A dead entry may be written on one side. -/
theorem set_dead (h : Forgets dead m m') {k : κ} {v : ν} (hnone : m'.get k = none)
    (hv : dead v) : Forgets dead (m.set k v) m' := by
  intro k'
  rw [FinMap.get_set]
  by_cases hk : k' = k
  · subst hk
    refine .inr ⟨hnone, fun v' hv' => ?_⟩
    rw [if_pos rfl] at hv'
    cases hv'
    exact hv
  · rw [if_neg hk]
    exact h k'

theorem erase (h : Forgets dead m m') (k : κ) : Forgets dead (m.erase k) (m'.erase k) := by
  intro k'
  rw [FinMap.get_erase, FinMap.get_erase]
  by_cases hk : k' = k
  · exact .inl (by rw [if_pos hk, if_pos hk])
  · rw [if_neg hk, if_neg hk]
    exact h k'

/-- A reader that does not distinguish a dead entry from a missing one reads the same. -/
theorem read (h : Forgets dead m m') (f : Option ν → α) (hf : ∀ v, dead v → f (some v) = f none)
    (k : κ) : f (m'.get k) = f (m.get k) := by
  rcases h k with heq | ⟨hnone, hdead⟩
  · rw [heq]
  · rw [hnone]
    cases hk : m.get k with
    | none => rfl
    | some v => exact (hf v (hdead v hk)).symm

theorem imp {dead' : ν → Prop} (h : Forgets dead m m') (himp : ∀ v, dead v → dead' v) :
    Forgets dead' m m' :=
  fun k => (h k).imp id fun hk => ⟨hk.1, fun v hv => himp v (hk.2 v hv)⟩

end Forgets
