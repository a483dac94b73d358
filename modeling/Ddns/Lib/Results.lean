import Mathlib.Data.List.Forall2
import Mathlib.Data.List.Perm.Basic

/-!
# Lists of results

A list of results determines what each result determines (`map_eq_of_map_eq`). `mapM` in `Except`
goes through a list until a result is an error. It succeeds exactly if every result does
(`mapM_ok_iff`), and then the order of the list is the order of the results (`mapM_perm`).
-/

namespace Results

section Map

variable {α β γ : Type*}

/-- Lists with the same values of `f` have the same values of what `f` determines. -/
theorem map_eq_of_map_eq {f : α → β} {g : α → γ} {l l' : List α}
    (hfg : ∀ a ∈ l, ∀ b ∈ l', f a = f b → g a = g b) (h : l.map f = l'.map f) :
    l.map g = l'.map g := by
  induction l generalizing l' with
  | nil => rw [List.map_eq_nil_iff.1 h.symm]
  | cons a l ih =>
    cases l' with
    | nil => cases h
    | cons b l' =>
      rw [List.map_cons, List.map_cons, List.cons.injEq] at h
      have hhead := hfg a List.mem_cons_self b List.mem_cons_self h.1
      have htail := ih (fun x hx y hy => hfg x (List.mem_cons_of_mem a hx) y
        (List.mem_cons_of_mem b hy)) h.2
      rw [List.map_cons, List.map_cons, hhead, htail]

/-- A relation that a function computes relates a list to its image. -/
theorem forall₂_iff_map {R : α → β → Prop} {f : α → β} (hf : ∀ a b, R a b → f a = b) {l : List α}
    {l' : List β} : List.Forall₂ R l l' ↔ (∀ a ∈ l, R a (f a)) ∧ l' = l.map f := by
  constructor
  · intro h
    induction h with
    | nil => exact ⟨nofun, rfl⟩
    | cons hab _ ih =>
      obtain rfl := hf _ _ hab
      refine ⟨fun a ha => ?_, by rw [ih.2, List.map_cons]⟩
      rcases List.mem_cons.1 ha with rfl | ha
      · exact hab
      · exact ih.1 a ha
  · rintro ⟨h, rfl⟩
    exact List.forall₂_map_right_iff.2 (List.forall₂_same.2 h)

/-- Each element of the second list has one of the first that it is related to. -/
theorem exists_of_mem_right {R : α → β → Prop} {l : List α} {l' : List β} (h : List.Forall₂ R l l') :
    ∀ b ∈ l', ∃ a ∈ l, R a b := by
  induction h with
  | nil => exact nofun
  | @cons x y xs ys hxy _ ih =>
    intro b hb
    rcases List.mem_cons.1 hb with rfl | hb
    · exact ⟨x, List.mem_cons_self, hxy⟩
    · obtain ⟨a, ha, hab⟩ := ih b hb
      exact ⟨a, List.mem_cons_of_mem x ha, hab⟩

/-- Related lists with the same values have related elements with the same value. -/
theorem exists_of_map_eq {R : α → α → Prop} {f : α → β} {l l' : List α} (h : List.Forall₂ R l l')
    (hmap : l'.map f = l.map f) : ∀ a ∈ l, ∃ b, R a b ∧ f b = f a := by
  induction h with
  | nil => exact nofun
  | @cons x y xs ys hxy _ ih =>
    obtain ⟨hfirst, hrest⟩ := List.cons.inj hmap
    intro a ha
    rcases List.mem_cons.1 ha with rfl | ha
    · exact ⟨y, hxy, hfirst⟩
    · exact ih hrest a ha

/-- Lists of the same lengths are told apart when they are put together. -/
theorem eq_of_flatten_eq {L L' : List (List α)} (hlen : L.map List.length = L'.map List.length)
    (h : L.flatten = L'.flatten) : L = L' := by
  induction L generalizing L' with
  | nil => rw [List.map_eq_nil_iff.1 hlen.symm]
  | cons l L ih =>
    cases L' with
    | nil => cases hlen
    | cons l' L' =>
      obtain ⟨hhead, htail⟩ := List.cons.inj hlen
      rw [List.flatten_cons, List.flatten_cons] at h
      obtain ⟨hl, hL⟩ := List.append_inj h hhead
      rw [hl, ih htail hL]

end Map

variable {ε α β : Type} {f : α → Except ε β}

/-- A check in front of a result. -/
theorem else_eq_ok_iff {c : Prop} [Decidable c] {e : ε} {x : Except ε α} {a : α} :
    (if c then .error e else x) = .ok a ↔ ¬c ∧ x = .ok a := by
  split
  · next h => exact ⟨nofun, fun hx => absurd h hx.1⟩
  · next h => exact ⟨fun hx => ⟨h, hx⟩, And.right⟩

theorem bind_eq_ok_iff {x : Except ε α} {b : β} : x >>= f = .ok b ↔ ∃ a, x = .ok a ∧ f a = .ok b := by
  cases x with
  | error e => exact ⟨nofun, fun ⟨_, h, _⟩ => nomatch h⟩
  | ok a => exact ⟨fun h => ⟨a, rfl, h⟩, fun ⟨_, h, hf⟩ => Except.ok.inj h ▸ hf⟩

theorem map_eq_ok_iff {g : α → β} {x : Except ε α} {b : β} :
    x.map g = .ok b ↔ ∃ a, x = .ok a ∧ g a = b := by
  cases x with
  | error e => exact ⟨nofun, fun ⟨_, h, _⟩ => nomatch h⟩
  | ok a => exact ⟨fun h => ⟨a, rfl, Except.ok.inj h⟩, fun ⟨_, h, hg⟩ => by
      rw [Except.map, Except.ok.inj h, hg]⟩

theorem mapError_eq_ok_iff {ε' : Type} {g : ε → ε'} {x : Except ε α} {a : α} :
    x.mapError g = .ok a ↔ x = .ok a := by
  cases x with
  | error e => exact iff_of_false nofun nofun
  | ok b => rw [Except.mapError, Except.ok.injEq, Except.ok.injEq]

/-- Results without their errors. -/
theorem mapM_toOption (l : List α) : (l.mapM fun a => (f a).toOption) = (l.mapM f).toOption := by
  induction l with
  | nil => rfl
  | cons a l ih =>
    rw [List.mapM_cons, List.mapM_cons, ih]
    cases f a with
    | error e => rfl
    | ok b =>
      cases l.mapM f with
      | error e => rfl
      | ok bs => rfl

theorem mapM_eq_ok_iff {l : List α} {ys : List β} :
    l.mapM f = .ok ys ↔ List.Forall₂ (fun x y => f x = .ok y) l ys := by
  induction l generalizing ys with
  | nil =>
    rw [List.mapM_nil, List.forall₂_nil_left_iff]
    constructor
    · intro h
      exact (Except.ok.inj h).symm
    · rintro rfl
      rfl
  | cons x l ih =>
    rw [List.mapM_cons, List.forall₂_cons_left_iff]
    constructor
    · intro h
      cases hx : f x with
      | error e =>
        rw [hx] at h
        cases h
      | ok y =>
        cases hl : l.mapM f with
        | error e =>
          rw [hx, hl] at h
          cases h
        | ok ys' =>
          rw [hx, hl] at h
          exact ⟨y, ys', rfl, ih.1 hl, (Except.ok.inj h).symm⟩
    · rintro ⟨y, ys', hx, hl, rfl⟩
      rw [hx, ih.2 hl]
      rfl

theorem mapM_ok_iff {l : List α} : (∃ ys, l.mapM f = .ok ys) ↔ ∀ x ∈ l, ∃ y, f x = .ok y := by
  induction l with
  | nil =>
    rw [List.mapM_nil]
    exact ⟨nofun, fun _ => ⟨[], rfl⟩⟩
  | cons x l ih =>
    rw [List.mapM_cons, List.forall_mem_cons, ← ih]
    cases hx : f x with
    | error e => exact ⟨nofun, nofun⟩
    | ok y =>
      cases hl : l.mapM f with
      | error e => exact ⟨nofun, nofun⟩
      | ok ys => exact ⟨fun _ => ⟨⟨y, rfl⟩, ys, rfl⟩, fun _ => ⟨_, rfl⟩⟩

theorem mapM_eq_map {g : α → β} {l : List α} (h : ∀ x ∈ l, f x = .ok (g x)) :
    l.mapM f = .ok (l.map g) := by
  rw [mapM_eq_ok_iff, List.forall₂_map_right_iff, List.forall₂_same]
  exact h

theorem mapM_perm {l l' : List α} {ys : List β} (hp : l'.Perm l) (h : l.mapM f = .ok ys) :
    ∃ ys', l'.mapM f = .ok ys' ∧ ys'.Perm ys := by
  obtain ⟨ys', h', hperm⟩ := List.perm_comp_forall₂ hp (mapM_eq_ok_iff.1 h)
  exact ⟨ys', mapM_eq_ok_iff.2 h', hperm⟩

/-- The results are those of the entries. -/
theorem mem_mapM_iff {l : List α} {ys : List β} (h : l.mapM f = .ok ys) {y : β} :
    y ∈ ys ↔ ∃ x ∈ l, f x = .ok y := by
  have hall := List.forall₂_iff_get.1 (mapM_eq_ok_iff.1 h)
  constructor
  · intro hy
    obtain ⟨i, hi, rfl⟩ := List.mem_iff_getElem.1 hy
    have hlt : i < l.length := hall.1 ▸ hi
    exact ⟨l[i], List.getElem_mem hlt, hall.2 i hlt hi⟩
  · rintro ⟨x, hx, hy⟩
    obtain ⟨i, hi, rfl⟩ := List.mem_iff_getElem.1 hx
    have hlt : i < ys.length := hall.1 ▸ hi
    have heq : ys[i] = y := Except.ok.inj ((hall.2 i hi hlt).symm.trans hy)
    exact heq ▸ List.getElem_mem hlt

/-- A rearrangement of the results comes from one of the list. -/
theorem exists_perm_of_mapM {l : List α} {ys ys' : List β} (h : l.mapM f = .ok ys)
    (hp : ys'.Perm ys) : ∃ l' : List α, l'.Perm l ∧ l'.mapM f = .ok ys' := by
  have hflip := List.Forall₂.flip (mapM_eq_ok_iff.1 h)
  obtain ⟨l', hl', hperm⟩ := List.perm_comp_forall₂ hp hflip
  exact ⟨l', hperm, mapM_eq_ok_iff.2 hl'.flip⟩

end Results
