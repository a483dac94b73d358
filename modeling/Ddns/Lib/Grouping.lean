import Mathlib.Data.List.Basic
import Mathlib.Data.List.Induction
import Mathlib.Data.List.MinMax

/-!
# Grouping in order of arrival

Items arrive one after the other and join the group of their key; a key that is new begins a group
behind the others. The groups are then the classes of the items by key (`mem_group`), in the order
in which the first of each class came (`head?_group`). Their sizes do not depend on the order of
arrival, but which of several largest groups comes first does: it is the one
whose first item is the first to arrive.
-/

namespace Grouping

variable {α κ : Type*} [DecidableEq κ] {key : α → κ} {l : List α} {a : α} {k : κ}
  {gs : List (κ × List α)} {members : List α}

/-- An item joins the group of its key. -/
def add (key : α → κ) (gs : List (κ × List α)) (a : α) : List (κ × List α) :=
  if ∃ g ∈ gs, g.1 = key a then gs.map fun g => if g.1 = key a then (g.1, g.2 ++ [a]) else g
  else gs ++ [(key a, [a])]

/-- The groups of the items that arrived. -/
def group (key : α → κ) (l : List α) : List (κ × List α) := l.foldl (add key) []

/-- The items of a key. -/
def ofKey (key : α → κ) (k : κ) (l : List α) : List α := l.filter fun a => key a = k

theorem mem_ofKey : a ∈ ofKey key k l ↔ a ∈ l ∧ key a = k := by
  simp [ofKey]

theorem ofKey_append (key : α → κ) (k : κ) (l l' : List α) :
    ofKey key k (l ++ l') = ofKey key k l ++ ofKey key k l' :=
  List.filter_append l l'

theorem ofKey_concat (key : α → κ) (k : κ) (l : List α) (a : α) :
    ofKey key k (l ++ [a]) = if key a = k then ofKey key k l ++ [a] else ofKey key k l := by
  by_cases h : key a = k <;> simp [ofKey, h]

theorem group_concat (key : α → κ) (l : List α) (a : α) :
    group key (l ++ [a]) = add key (group key l) a := by
  simp [group]

theorem ofKey_eq_nil (h : k ∉ l.map key) : ofKey key k l = [] := by
  refine List.filter_eq_nil_iff.2 fun a ha hk => h ?_
  exact List.mem_map.2 ⟨a, ha, of_decide_eq_true hk⟩

theorem eraseDups_concat (ks : List κ) (k : κ) :
    (ks ++ [k]).eraseDups = if k ∈ ks then ks.eraseDups else ks.eraseDups ++ [k] := by
  rw [List.eraseDups_append]
  by_cases h : k ∈ ks <;> simp [h, List.removeAll, List.eraseDups_cons]

theorem nodup_eraseDups {β : Type*} [BEq β] [LawfulBEq β] (ks : List β) : ks.eraseDups.Nodup := by
  induction hn : ks.length using Nat.strong_induction_on generalizing ks with
  | _ n ih =>
    cases ks with
    | nil => exact List.nodup_nil
    | cons k ks =>
      have hlen := List.length_filter_le (fun b => !b == k) ks
      rw [List.length_cons] at hn
      rw [List.eraseDups_cons, List.nodup_cons]
      refine ⟨fun hk => ?_, ih _ (by omega) _ rfl⟩
      have hkept := (List.mem_filter.1 (List.mem_eraseDups.1 hk)).2
      simp at hkept

/-- The groups are the classes of the items by key, in the order in which the keys came. -/
theorem group_eq (key : α → κ) (l : List α) :
    group key l = (l.map key).eraseDups.map fun k => (k, ofKey key k l) := by
  induction l using List.reverseRecOn with
  | nil => rfl
  | append_singleton l a ih =>
    have hold : (∃ g ∈ (l.map key).eraseDups.map fun k => (k, ofKey key k l), g.1 = key a) ↔
        key a ∈ l.map key := by
      simp
    rw [group_concat, ih, add, List.map_append, List.map_singleton, eraseDups_concat]
    simp only [hold]
    split
    · rw [List.map_map]
      refine List.map_congr_left fun k _ => ?_
      simp only [Function.comp_apply, ofKey_concat, eq_comm (a := key a)]
      split <;> rfl
    · next hnew =>
      rw [List.map_append, List.map_singleton, ofKey_concat, if_pos rfl, ofKey_eq_nil hnew]
      refine congrArg (· ++ _) (List.map_congr_left fun k hk => ?_)
      have hne : key a ≠ k := fun h => hnew (h ▸ List.mem_eraseDups.1 hk)
      rw [ofKey_concat, if_neg hne]

theorem mem_group : (k, members) ∈ group key l ↔ k ∈ l.map key ∧ members = ofKey key k l := by
  simp only [group_eq, List.mem_map, List.mem_eraseDups, Prod.mk.injEq]
  constructor
  · rintro ⟨k, hk, rfl, rfl⟩
    exact ⟨hk, rfl⟩
  · rintro ⟨hk, rfl⟩
    exact ⟨k, hk, rfl, rfl⟩

/-- There is one group for each key. -/
theorem nodup_group (key : α → κ) (l : List α) : ((group key l).map Prod.fst).Nodup := by
  have hkeys : (group key l).map Prod.fst = (l.map key).eraseDups := by
    rw [group_eq, List.map_map]
    exact List.map_id _
  rw [hkeys]
  exact nodup_eraseDups _

theorem ne_nil_of_mem_group {g : κ × List α} (h : g ∈ group key l) : g.2 ≠ [] := by
  obtain ⟨hk, hmembers⟩ := mem_group.1 h
  obtain ⟨a, ha, hak⟩ := List.mem_map.1 hk
  rw [hmembers]
  exact List.ne_nil_of_mem (mem_ofKey.2 ⟨ha, hak⟩)

/-- The first group is that of the first item. -/
theorem head?_group (key : α → κ) (a : α) (l : List α) :
    (group key (a :: l)).head? = some (key a, ofKey key (key a) (a :: l)) := by
  rw [group_eq, List.map_cons, List.eraseDups_cons]
  rfl

/-! ## The first of the largest groups -/

/-- The first element is the first of several maxima. -/
theorem argmax_cons_of_le {β : Type*} [LinearOrder β] {f : α → β} (h : ∀ b ∈ l, f b ≤ f a) :
    (a :: l).argmax f = some a := by
  rw [List.argmax_cons]
  cases hmax : l.argmax f with
  | none => rfl
  | some b => exact if_neg (not_lt.2 (h b (List.argmax_mem hmax)))

end Grouping

/-!
## Which of two came last

In a list of events that may repeat, `LastBefore l a b` says that `b` occurs behind the last
occurrence of `a`. What stands before the last occurrence of `a` does not matter
(`lastBefore_append`), and nothing comes behind the last event of all (`not_lastBefore_concat`).
-/

namespace Recency

variable {α : Type*} {l g : List α} {a b : α}

/-- The last occurrence of `a` is before one of `b`. -/
def LastBefore (l : List α) (a b : α) : Prop := ∃ u v, l = u ++ a :: v ∧ a ∉ v ∧ b ∈ v

theorem LastBefore.mem (h : LastBefore l a b) : a ∈ l := by
  obtain ⟨u, v, rfl, -, -⟩ := h
  exact List.mem_append_right u List.mem_cons_self

theorem LastBefore.append (h : LastBefore l a b) (g : List α) : LastBefore (g ++ l) a b := by
  obtain ⟨u, v, rfl, hav, hbv⟩ := h
  exact ⟨g ++ u, v, (List.append_assoc g u _).symm, hav, hbv⟩

/-- The last occurrence of `a` is where `a` occurs last. -/
theorem lastBefore_append (ha : a ∈ l) : LastBefore (g ++ l) a b ↔ LastBefore l a b := by
  constructor
  · rintro ⟨u, v, heq, hav, hbv⟩
    rcases List.append_eq_append_iff.1 heq with ⟨w, rfl, rfl⟩ | ⟨w, rfl, hl⟩
    · exact ⟨w, v, rfl, hav, hbv⟩
    · cases w with
      | nil => exact ⟨[], v, hl.symm, hav, hbv⟩
      | cons x w =>
        -- the list is a part of what stands behind the last occurrence
        rw [List.cons_append, List.cons.injEq] at hl
        exact absurd (hl.2 ▸ List.mem_append_right w ha) hav
  · exact fun h => h.append g

theorem lastBefore_of_notMem (ha : a ∉ l) (hb : b ∈ l) : LastBefore (g ++ a :: l) a b :=
  ⟨g, l, rfl, ha, hb⟩

/-- Nothing comes behind the last event. -/
theorem not_lastBefore_concat : ¬LastBefore (l ++ [a]) a b := by
  rintro ⟨u, v, heq, hav, hbv⟩
  rcases List.eq_nil_or_concat v with rfl | ⟨w, x, rfl⟩
  · cases hbv
  · rw [List.concat_eq_append] at heq hav
    rw [← List.cons_append, ← List.append_assoc] at heq
    obtain ⟨-, hx⟩ := List.append_inj' heq rfl
    rw [List.cons.injEq] at hx
    exact hav (hx.1 ▸ List.mem_append_right w List.mem_cons_self)

end Recency
