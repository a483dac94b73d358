import Ddns.Lib.Results
import Mathlib.Data.List.Sort
import Mathlib.Data.List.TakeWhile
import Mathlib.Order.Defs.Unbundled

/-!
# Stable sorting

A stable sort keeps the order of entries that tie. `insertionSort_eq_iff` says when a list is what
sorting makes of another one: the relation orders it, and ties come in the order of the other list.
A sorted list depends on its entries alone exactly if entries that tie are equal
(`insertionSort_perm_iff`), and so does what is read off it (`map_insertionSort_perm_iff`).
-/

namespace StableSort

variable {α : Type*} {r : α → α → Prop}

/-- Two entries of a list come in one of the two orders. -/
theorem pair_sublist_or {l : List α} {a b : α} (ha : a ∈ l) (hb : b ∈ l) (hne : a ≠ b) :
    [a, b].Sublist l ∨ [b, a].Sublist l := by
  induction l with
  | nil => cases ha
  | cons c l ih =>
    rcases List.mem_cons.1 ha with rfl | ha'
    · rcases List.mem_cons.1 hb with rfl | hb'
      · exact absurd rfl hne
      · exact .inl ((List.singleton_sublist.2 hb').cons_cons a)
    · rcases List.mem_cons.1 hb with rfl | hb'
      · exact .inr ((List.singleton_sublist.2 ha').cons_cons b)
      · exact (ih ha' hb').imp (·.cons c) (·.cons c)

/-- Without duplicates they do not come in both. -/
theorem not_pair_sublist {l : List α} (hn : l.Nodup) {a b : α} (h : [a, b].Sublist l) :
    ¬[b, a].Sublist l := by
  induction l with
  | nil => cases h
  | cons c l ih =>
    obtain ⟨hc, hn⟩ := List.nodup_cons.1 hn
    intro h'
    cases h with
    | cons _ h =>
      cases h' with
      | cons _ h' => exact ih hn h h'
      | cons_cons _ _ => exact hc (h.subset (by simp))
    | cons_cons _ h =>
      cases h' with
      | cons _ h' => exact hc (h'.subset (by simp))
      | cons_cons _ _ => exact hc (h.subset (by simp))

/-- Lists of the same entries in the same order are equal. -/
theorem eq_of_pair_sublist {l l' : List α} (hp : l.Perm l') (hn : l.Nodup)
    (h : ∀ a b, [a, b].Sublist l' → [a, b].Sublist l) : l = l' := by
  have hl : l.Pairwise fun a b => [a, b].Sublist l :=
    List.pairwise_iff_forall_sublist.2 fun hab => hab
  have hl' : l'.Pairwise fun a b => [a, b].Sublist l :=
    List.pairwise_iff_forall_sublist.2 fun hab => h _ _ hab
  refine hp.eq_of_pairwise ?_ hl hl'
  intro a b _ _ hab hba
  exact absurd hba (not_pair_sublist hn hab)

variable [DecidableRel r] [Std.Total r] [IsTrans α r]

/-- **What a sort makes of a list**: the relation orders the entries, and those that tie stay in
their order. -/
theorem insertionSort_eq_iff {l m : List α} (hn : l.Nodup) (hp : m.Perm l) :
    l.insertionSort r = m ↔ m.Pairwise fun a b => r a b ∧ (r b a → [a, b].Sublist l) := by
  have hperm : (l.insertionSort r).Perm l := List.perm_insertionSort r l
  have hsorted := List.pairwise_insertionSort r l
  have hne {x : List α} (hx : x.Nodup) {a b : α} (hab : [a, b].Sublist x) : a ≠ b := by
    rintro rfl
    exact not_pair_sublist hx hab hab
  constructor
  · rintro rfl
    refine List.pairwise_iff_forall_sublist.2 fun {a b} hab => ?_
    refine ⟨List.pairwise_iff_forall_sublist.1 hsorted hab, fun hba => ?_⟩
    have hn' : (l.insertionSort r).Nodup := hperm.nodup_iff.2 hn
    have hmem (x : α) (hx : x ∈ [a, b]) : x ∈ l := hperm.subset (hab.subset hx)
    rcases pair_sublist_or (hmem a (by simp)) (hmem b (by simp)) (hne hn' hab) with hsub | hsub
    · exact hsub
    · have hkept := List.pair_sublist_insertionSort hba hsub
      exact absurd hkept (not_pair_sublist hn' hab)
  · intro h
    have hn' : m.Nodup := hp.nodup_iff.2 hn
    refine (eq_of_pair_sublist (hp.trans hperm.symm) hn' fun a b hab => ?_).symm
    have hn'' : (l.insertionSort r).Nodup := hperm.nodup_iff.2 hn
    have hmem (x : α) (hx : x ∈ [a, b]) : x ∈ m :=
      hp.symm.subset (hperm.subset (hab.subset hx))
    rcases pair_sublist_or (hmem a (by simp)) (hmem b (by simp)) (hne hn'' hab) with hsub | hsub
    · exact hsub
    · obtain ⟨hba, htie⟩ := List.pairwise_iff_forall_sublist.1 h hsub
      have hl := htie (List.pairwise_iff_forall_sublist.1 hsorted hab)
      have hkept := List.pair_sublist_insertionSort hba hl
      exact absurd hkept (not_pair_sublist hn'' hab)

/-! ## What is read off a sorted list -/

omit [Std.Total r] in
/-- Two entries that tie, in front of a list, come next to each other in their order. -/
theorem insertionSort_pair {a b : α} (hab : r a b) (hba : r b a) (l : List α) :
    ∃ s t, (a :: b :: l).insertionSort r = s ++ a :: b :: t ∧
      (b :: a :: l).insertionSort r = s ++ b :: a :: t := by
  have hsame (x : α) : r a x ↔ r b x :=
    ⟨fun h => IsTrans.trans b a x hba h, fun h => IsTrans.trans a b x hab h⟩
  let s := (l.insertionSort r).takeWhile fun x => ¬r b x
  let t := (l.insertionSort r).dropWhile fun x => ¬r b x
  have hs : ∀ x ∈ s, decide (¬r b x) = true := by
    intro x hx
    exact List.mem_takeWhile_imp (p := fun x => decide (¬r b x)) hx
  have hinsert {c d : α} (hcd : r c d) (hc : ∀ x, r c x ↔ r b x) (hd : ∀ x, r d x ↔ r b x) :
      ((l.insertionSort r).orderedInsert r d).orderedInsert r c = s ++ c :: d :: t := by
    have hd' : (l.insertionSort r).orderedInsert r d = s ++ d :: t := by
      rw [List.orderedInsert_eq_take_drop]
      simp only [hd]
      rfl
    have hs' : ∀ x ∈ s, decide (¬r c x) = true := fun x hx => by
      rw [← hs x hx]
      simp only [hc]
    rw [hd', List.orderedInsert_eq_take_drop, List.takeWhile_append_of_pos hs',
      List.dropWhile_append_of_pos hs', List.takeWhile_cons_of_neg (by simpa using hcd),
      List.dropWhile_cons_of_neg (by simpa using hcd), List.append_nil]
  exact ⟨s, t, hinsert hab hsame fun _ => Iff.rfl, hinsert hba (fun _ => Iff.rfl) hsame⟩

omit [DecidableRel r] in
/-- Sorted lists of the same entries agree up to ties. -/
theorem map_eq_of_pairwise {β : Type*} {f : α → β} {l l' : List α} (hp : l.Perm l')
    (hl : l.Pairwise r) (hl' : l'.Pairwise r)
    (htie : ∀ a ∈ l, ∀ b ∈ l', r a b → r b a → f a = f b) : l.map f = l'.map f := by
  let tie : Setoid α := {
    r := fun a b => r a b ∧ r b a
    iseqv := ⟨fun a => (Std.Total.total (r := r) a a).elim (fun h => ⟨h, h⟩) fun h => ⟨h, h⟩,
      fun h => ⟨h.2, h.1⟩,
      fun h h' => ⟨IsTrans.trans _ _ _ h.1 h'.1, IsTrans.trans _ _ _ h'.2 h.2⟩⟩ }
  have hclass : l.map (Quotient.mk tie) = l'.map (Quotient.mk tie) := by
    have hpair {m : List α} (hm : m.Pairwise r) : (m.map (Quotient.mk tie)).Pairwise fun x y =>
        ∃ a b, x = Quotient.mk tie a ∧ y = Quotient.mk tie b ∧ r a b :=
      List.pairwise_map.2 (hm.imp fun {a b} hab => ⟨a, b, rfl, rfl, hab⟩)
    refine (hp.map _).eq_of_pairwise ?_ (hpair hl) (hpair hl')
    rintro _ _ - - ⟨a, b, rfl, rfl, hab⟩ ⟨b', a', hb, ha, hba⟩
    have hb' := Quotient.exact hb
    have ha' := Quotient.exact ha
    exact Quotient.sound ⟨hab,
      IsTrans.trans _ _ _ hb'.1 (IsTrans.trans _ _ _ hba ha'.2)⟩
  refine Results.map_eq_of_map_eq (fun a ha b hb hab => ?_) hclass
  have heq := Quotient.exact hab
  exact htie a ha b hb heq.1 heq.2

/-- **What is read off a sorted list** depends on the entries alone exactly if entries that tie read
the same. -/
theorem map_insertionSort_perm_iff {β : Type*} {f : α → β} {l : List α} :
    (∀ l' : List α, l'.Perm l → (l'.insertionSort r).map f = (l.insertionSort r).map f) ↔
      ∀ a ∈ l, ∀ b ∈ l, r a b → r b a → f a = f b := by
  classical
  constructor
  · intro h a ha b hb hab hba
    by_contra hne
    have hab' : b ≠ a := fun heq => hne (heq ▸ rfl)
    have hrest : (a :: b :: (l.erase a).erase b).Perm l := by
      have hb' : b ∈ l.erase a := (List.mem_erase_of_ne hab').2 hb
      exact ((List.perm_cons_erase hb').symm.cons a).trans (List.perm_cons_erase ha).symm
    have hswap : (b :: a :: (l.erase a).erase b).Perm l := (List.Perm.swap a b _).trans hrest
    obtain ⟨s, t, hs, ht⟩ := insertionSort_pair hab hba ((l.erase a).erase b)
    have hsame := (h _ hrest).trans (h _ hswap).symm
    rw [hs, ht, List.map_append, List.map_append] at hsame
    exact hne (List.cons.inj (List.append_cancel_left hsame)).1
  · intro h l' hp
    have hl := List.perm_insertionSort r l
    have hl' := List.perm_insertionSort r l'
    refine map_eq_of_pairwise (r := r) (hl'.trans (hp.trans hl.symm))
      (List.pairwise_insertionSort r l') (List.pairwise_insertionSort r l) ?_
    exact fun a ha b hb => h a (hp.subset (hl'.subset ha)) b (hl.subset hb)

/-- **What makes a sort canonical**: entries that tie are equal. -/
theorem insertionSort_perm_iff {l : List α} :
    (∀ l' : List α, l'.Perm l → l'.insertionSort r = l.insertionSort r) ↔
      ∀ a ∈ l, ∀ b ∈ l, r a b → r b a → a = b := by
  have hmap := map_insertionSort_perm_iff (r := r) (f := id) (l := l)
  simp only [List.map_id] at hmap
  exact hmap

/-! ## Sorting by a key -/

section Keys

variable {κ : Type*} {cmp : κ → κ → Ordering} [Std.TransCmp cmp]

/-- A comparison of keys. -/
theorem transCmp_key (key : α → κ) : Std.TransCmp fun a b : α => cmp (key a) (key b) where
  eq_swap {_ _} := @Std.OrientedCmp.eq_swap _ cmp _ _ _
  isLE_trans {_ _ _} := @Std.TransCmp.isLE_trans _ cmp _ _ _ _

theorem total_key (key : α → κ) : Std.Total fun a b : α => (cmp (key a) (key b)).isLE = true where
  total a b := by
    cases h : cmp (key a) (key b) with
    | lt => exact .inl rfl
    | eq => exact .inl rfl
    | gt => exact .inr (by rw [Std.OrientedCmp.lt_of_gt h]; rfl)

theorem isTrans_key (key : α → κ) :
    IsTrans α fun a b => (cmp (key a) (key b)).isLE = true where
  trans _ _ _ := Std.TransCmp.isLE_trans

theorem tie_key_iff [Std.LawfulEqCmp cmp] {k k' : κ} :
    (cmp k k').isLE = true ∧ (cmp k' k).isLE = true ↔ k = k' := by
  constructor
  · rintro ⟨h, h'⟩
    exact Std.LawfulEqCmp.eq_of_compare (Std.OrientedCmp.isLE_antisymm h h')
  · rintro rfl
    have hself : cmp k k = .eq := Std.ReflCmp.compare_self
    rw [hself]
    exact ⟨rfl, rfl⟩

/-- What is read off a list that is sorted by a key. -/
theorem map_insertionSort_key_iff [Std.LawfulEqCmp cmp] (key : α → κ) {β : Type*} (f : α → β)
    (l : List α) :
    (∀ l' : List α, l'.Perm l → (l'.insertionSort fun a b => (cmp (key a) (key b)).isLE).map f =
        (l.insertionSort fun a b => (cmp (key a) (key b)).isLE).map f) ↔
      ∀ a ∈ l, ∀ b ∈ l, key a = key b → f a = f b := by
  have := @total_key α κ cmp _ key
  have := @isTrans_key α κ cmp _ key
  rw [map_insertionSort_perm_iff]
  refine forall₂_congr fun a _ => forall₂_congr fun b _ => ?_
  rw [← and_imp, tie_key_iff]

end Keys

/-! ## Ties that are not transitive -/

/-- The relation orders what the comparison tells apart; it may tie more. -/
def Coarse (r : α → α → Prop) (cmp : α → α → Ordering) (l : List α) : Prop :=
  ∀ a ∈ l, ∀ b ∈ l, cmp a b = .lt → r a b ∧ ¬r b a

/-- An entry that ties with all that the comparison does not tell from it. -/
structure Pivot (r : α → α → Prop) (cmp : α → α → Ordering) (l : List α) (x : α) : Prop where
  mem : x ∈ l
  ties : ∀ y ∈ l, cmp y x = .eq → r x y ∧ r y x

section Coarse

variable {r : α → α → Prop} [DecidableRel r] {cmp : α → α → Ordering}

theorem orderedInsert_append_of_le {a : α} (s : List α) {t : List α} (h : ∀ y ∈ t, r a y) :
    (s ++ t).orderedInsert r a = s.orderedInsert r a ++ t := by
  induction s with
  | nil =>
    cases t with
    | nil => rfl
    | cons y t => exact List.orderedInsert_cons_of_le r t (h y List.mem_cons_self)
  | cons b s ih =>
    rw [List.cons_append, List.orderedInsert_cons, List.orderedInsert_cons, ih]
    split <;> rfl

theorem orderedInsert_append_of_not_le {a : α} {s : List α} (t : List α) (h : ∀ y ∈ s, ¬r a y) :
    (s ++ t).orderedInsert r a = s ++ t.orderedInsert r a := by
  induction s with
  | nil => rfl
  | cons b s ih =>
    rw [List.forall_mem_cons] at h
    rw [List.cons_append, List.orderedInsert_cons, if_neg h.1, ih h.2]
    rfl

/-- Entries that come before all the others are sorted on their own. -/
theorem insertionSort_split {l : List α} {p : α → Bool}
    (h : ∀ a ∈ l, ∀ b ∈ l, p a = true → p b = false → r a b ∧ ¬r b a) :
    l.insertionSort r = (l.filter p).insertionSort r ++ (l.filter (!p ·)).insertionSort r := by
  induction l with
  | nil => rfl
  | cons x l ih =>
    have hmem {q : α → Bool} {y : α} (hy : y ∈ (l.filter q).insertionSort r) : y ∈ l ∧ q y = true :=
      List.mem_filter.1 ((List.perm_insertionSort r _).mem_iff.1 hy)
    rw [List.insertionSort_cons, ih fun a ha b hb => h a (List.mem_cons_of_mem x ha) b
      (List.mem_cons_of_mem x hb)]
    have hx : x ∈ x :: l := List.mem_cons_self
    cases hp : p x with
    | true =>
      rw [List.filter_cons_of_pos hp, List.filter_cons_of_neg (by simp [hp]),
        List.insertionSort_cons]
      refine orderedInsert_append_of_le _ fun y hy => ?_
      obtain ⟨hyl, hpy⟩ := hmem hy
      exact (h x hx y (List.mem_cons_of_mem x hyl) hp (by simpa using hpy)).1
    | false =>
      rw [List.filter_cons_of_neg (by simp [hp]), List.filter_cons_of_pos (by simp [hp]),
        List.insertionSort_cons]
      refine orderedInsert_append_of_not_le _ fun y hy => ?_
      obtain ⟨hyl, hpy⟩ := hmem hy
      exact (h y (List.mem_cons_of_mem x hyl) x hx hpy hp).2

/-- An entry that ties with all the others comes first if it stands first, and last if it stands
last. -/
theorem insertionSort_pivot {x : α} {l : List α} (h : ∀ y ∈ l, r x y ∧ r y x) :
    (x :: l).insertionSort r = x :: l.insertionSort r ∧
      (l ++ [x]).insertionSort r = l.insertionSort r ++ [x] := by
  constructor
  · exact List.insertionSort_cons_of_forall_rel r fun y hy => (h y hy).1
  · induction l with
    | nil => rfl
    | cons y l ih =>
      rw [List.forall_mem_cons] at h
      rw [List.cons_append, List.insertionSort_cons, ih h.2, List.insertionSort_cons]
      refine orderedInsert_append_of_le _ fun z hz => ?_
      rw [List.mem_singleton.1 hz]
      exact h.1.2

variable [Std.TransCmp cmp] {l : List α}

/-- Sorted by the relation, a list is sorted by the comparison. -/
theorem pairwise_of_coarse (h : Coarse r cmp l) :
    (l.insertionSort r).Pairwise fun a b => (cmp a b).isLE = true := by
  induction l with
  | nil => exact List.Pairwise.nil
  | cons x l ih =>
    have hsorted := ih fun a ha b hb => h a (List.mem_cons_of_mem x ha) b (List.mem_cons_of_mem x hb)
    have hsub : ∀ y ∈ l.insertionSort r, y ∈ x :: l := fun y hy =>
      List.mem_cons_of_mem x ((List.perm_insertionSort r l).mem_iff.1 hy)
    have hle {a b : α} (ha : a ∈ x :: l) (hb : b ∈ x :: l) (hab : ¬(r b a ∧ ¬r a b)) :
        (cmp a b).isLE = true := by
      by_contra hgt
      have hlt : cmp b a = .lt := Std.OrientedCmp.gt_iff_lt.1 (by simpa using hgt)
      exact hab (h b hb a ha hlt)
    rw [List.insertionSort_cons]
    generalize l.insertionSort r = s at hsorted hsub
    induction s with
    | nil => exact List.pairwise_singleton _ _
    | cons b s ihs =>
      rw [List.forall_mem_cons] at hsub
      obtain ⟨hb, hs⟩ := List.pairwise_cons.1 hsorted
      rw [List.orderedInsert_cons]
      split
      · next hxb =>
        have hxb' := hle List.mem_cons_self hsub.1 fun hstrict => hstrict.2 hxb
        refine List.pairwise_cons.2 ⟨fun y hy => ?_, hsorted⟩
        rcases List.mem_cons.1 hy with rfl | hy
        · exact hxb'
        · exact Std.TransCmp.isLE_trans hxb' (hb y hy)
      · next hxb =>
        refine List.pairwise_cons.2 ⟨fun y hy => ?_, ihs hs hsub.2⟩
        rcases List.mem_cons.1 ((List.perm_orderedInsert r x s).mem_iff.1 hy) with rfl | hy
        · exact hle hsub.1 List.mem_cons_self fun hstrict => hxb hstrict.1
        · exact hb y hy

theorem eq_of_cons_eq_concat {β : Type*} {a : β} {s : List β} (h : a :: s = s ++ [a]) :
    ∀ b ∈ s, b = a := by
  induction s with
  | nil => exact nofun
  | cons b s ih =>
    obtain ⟨rfl, hrest⟩ := List.cons.inj h
    exact List.forall_mem_cons.2 ⟨rfl, ih hrest⟩

/-- What comes before an entry, what ties with it and what comes behind are sorted on their own. -/
theorem insertionSort_classes (h : Coarse r cmp l) (x : α) {n : List α} (hn : ∀ y ∈ n, y ∈ l) :
    n.insertionSort r = (n.filter fun y => cmp y x = .lt).insertionSort r ++
      ((n.filter fun y => cmp y x = .eq).insertionSort r ++
        (n.filter fun y => cmp y x = .gt).insertionSort r) := by
  have hlt : n.insertionSort r = (n.filter fun y => cmp y x = .lt).insertionSort r ++
      (n.filter fun y => !decide (cmp y x = .lt)).insertionSort r := by
    refine insertionSort_split fun a ha b hb hax hbx => h a (hn a ha) b (hn b hb) ?_
    have hle : (cmp x b).isLE = true := by
      by_contra hgt
      exact of_decide_eq_false hbx (Std.OrientedCmp.gt_iff_lt.1 (by simpa using hgt))
    exact Std.TransCmp.lt_of_lt_of_isLE (of_decide_eq_true hax) hle
  have heq : (n.filter fun y => !decide (cmp y x = .lt)).insertionSort r =
      ((n.filter fun y => !decide (cmp y x = .lt)).filter fun y => cmp y x = .eq).insertionSort r ++
        ((n.filter fun y => !decide (cmp y x = .lt)).filter
          fun y => !decide (cmp y x = .eq)).insertionSort r := by
    refine insertionSort_split fun a ha b hb hax hbx => ?_
    obtain ⟨hb, hbx'⟩ := List.mem_filter.1 hb
    refine h a (hn a (List.mem_filter.1 ha).1) b (hn b hb) ?_
    have hgt : cmp b x = .gt := by
      cases hcmp : cmp b x with
      | lt => simp [hcmp] at hbx'
      | eq => simp [hcmp] at hbx
      | gt => rfl
    rw [Std.TransCmp.congr_left (of_decide_eq_true hax)]
    exact Std.OrientedCmp.gt_iff_lt.1 hgt
  rw [hlt, heq, List.filter_filter, List.filter_filter]
  congr 3
  · refine List.filter_congr fun y _ => ?_
    cases cmp y x <;> rfl
  · refine List.filter_congr fun y _ => ?_
    cases cmp y x <;> rfl

/-- Where the order of the list cannot be read off, it cannot be read off the ties of a pivot. -/
theorem eq_of_pivot {β : Type*} {f : α → β} {x : α} (h : Coarse r cmp l) (hx : Pivot r cmp l x)
    (hf : ∀ l' : List α, l'.Perm l → (l'.insertionSort r).map f = (l.insertionSort r).map f) :
    ∀ y ∈ l, cmp y x = .eq → f y = f x := by
  classical
  let m := l.erase x
  have hfirst : (x :: m).Perm l := (List.perm_cons_erase hx.mem).symm
  have hlast : (m ++ [x]).Perm l := (List.perm_append_singleton x m).trans hfirst
  have hself : cmp x x = .eq := Std.ReflCmp.compare_self
  let ties := m.filter fun y => cmp y x = .eq
  have hties : ∀ y ∈ ties, r x y ∧ r y x := fun y hy =>
    hx.ties y (hfirst.mem_iff.1 (List.mem_cons_of_mem x (List.mem_filter.1 hy).1))
      (of_decide_eq_true (List.mem_filter.1 hy).2)
  have hpivot := insertionSort_pivot (r := r) hties
  have hsame := (hf _ hfirst).trans (hf _ hlast).symm
  rw [insertionSort_classes h x fun y hy => hfirst.mem_iff.1 hy,
    insertionSort_classes h x fun y hy => hlast.mem_iff.1 hy] at hsame
  simp only [List.filter_cons, List.filter_append, List.filter_nil, hself, decide_true, if_true,
    reduceCtorEq, decide_false, Bool.false_eq_true, if_false, List.append_nil, List.map_append]
    at hsame
  have hmid := List.append_cancel_right (List.append_cancel_left hsame)
  rw [hpivot.1, hpivot.2, List.map_cons, List.map_append, List.map_singleton] at hmid
  have hall := eq_of_cons_eq_concat hmid
  intro y hy hyx
  by_cases hne : y = x
  · rw [hne]
  · have hmem : y ∈ ties :=
      List.mem_filter.2 ⟨(List.mem_erase_of_ne hne).2 hy, decide_eq_true hyx⟩
    exact hall _ (List.mem_map_of_mem ((List.perm_insertionSort r ties).mem_iff.2 hmem))

/-- **What is read off a sorted list** where the ties are not transitive: if every class has a pivot,
it depends on the entries alone exactly if entries that tie read the same. -/
theorem map_insertionSort_coarse_iff {β : Type*} {f : α → β} (h : Coarse r cmp l)
    (hpivot : ∀ a ∈ l, ∃ x, Pivot r cmp l x ∧ cmp a x = .eq) :
    (∀ l' : List α, l'.Perm l → (l'.insertionSort r).map f = (l.insertionSort r).map f) ↔
      ∀ a ∈ l, ∀ b ∈ l, r a b → r b a → f a = f b := by
  constructor
  · intro hf a ha b hb hab hba
    obtain ⟨x, hx, hax⟩ := hpivot a ha
    have heq : cmp a b = .eq := by
      cases hcmp : cmp a b with
      | lt => exact absurd hba (h a ha b hb hcmp).2
      | eq => rfl
      | gt => exact absurd hab (h b hb a ha (Std.OrientedCmp.gt_iff_lt.1 hcmp)).2
    have hbx : cmp b x = .eq := by
      rw [← Std.TransCmp.congr_left heq]
      exact hax
    exact (eq_of_pivot h hx hf a ha hax).trans (eq_of_pivot h hx hf b hb hbx).symm
  · intro htie l' hp
    have hl' : Coarse r cmp l' := fun a ha b hb => h a (hp.mem_iff.1 ha) b (hp.mem_iff.1 hb)
    have hperm := (List.perm_insertionSort r l').trans (hp.trans (List.perm_insertionSort r l).symm)
    have : Std.Total fun a b : α => (cmp a b).isLE = true := total_key id
    have : IsTrans α fun a b => (cmp a b).isLE = true := isTrans_key id
    refine map_eq_of_pairwise hperm (pairwise_of_coarse hl') (pairwise_of_coarse h) ?_
    intro a ha b hb hab hba
    have ha' : a ∈ l := hp.mem_iff.1 ((List.perm_insertionSort r l').mem_iff.1 ha)
    have hb' : b ∈ l := (List.perm_insertionSort r l).mem_iff.1 hb
    have heq := Std.OrientedCmp.isLE_antisymm hab hba
    obtain ⟨x, hx, hax⟩ := hpivot a ha'
    have hbx : cmp b x = .eq := by
      rw [← Std.TransCmp.congr_left heq]
      exact hax
    have hxa := hx.ties a ha' hax
    have hxb := hx.ties b hb' hbx
    exact (htie a ha' x hx.mem hxa.2 hxa.1).trans (htie b hb' x hx.mem hxb.2 hxb.1).symm

end Coarse

end StableSort
