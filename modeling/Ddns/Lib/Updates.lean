import Mathlib.Logic.Function.Basic

/-!
# Writing one entry of a table

A table that maps to an option holds the entries that exist; after a write each entry is the one
that was written or an old one of another key (`update_eq_some`). A table with two keys is a function of the first into functions of the second; its entries are
written by updating the row and then the table, and so on for a table with three keys.
-/

namespace Updates

variable {α β γ δ : Type*} [DecidableEq α] [DecidableEq β] [DecidableEq γ]

section One

variable {f : α → Option δ} {a a' : α} {v w : δ}

/-- An entry after a write is the one that was written, or an old one of another key. -/
theorem update_eq_some (h : Function.update f a (some v) a' = some w) :
    a' = a ∧ v = w ∨ a' ≠ a ∧ f a' = some w := by
  by_cases ha : a' = a
  · subst ha
    rw [Function.update_self, Option.some.injEq] at h
    exact .inl ⟨rfl, h⟩
  · rw [Function.update_of_ne ha] at h
    exact .inr ⟨ha, h⟩

/-- What holds of every entry holds after the write of an entry that it holds of. -/
theorem forall_update {P : α → δ → Prop} (hf : ∀ a w, f a = some w → P a w) (hv : P a v) (a' : α)
    (w : δ) (h : Function.update f a (some v) a' = some w) : P a' w := by
  rcases update_eq_some h with ⟨rfl, rfl⟩ | ⟨-, hold⟩
  · exact hv
  · exact hf a' w hold

end One

section Two

variable {f : α → β → δ} {a a' : α} {b b' : β}

/-- The entry that was written. -/
@[simp] theorem update₂_self (f : α → β → δ) (a : α) (b : β) (v : δ) :
    Function.update f a (Function.update (f a) b v) a b = v := by
  rw [Function.update_self, Function.update_self]

/-- Every other entry. -/
theorem update₂_ne (v : δ) (hne : ¬(a' = a ∧ b' = b)) :
    Function.update f a (Function.update (f a) b v) a' b' = f a' b' := by
  by_cases ha : a' = a
  · subst ha
    have hb : b' ≠ b := fun hb => hne ⟨rfl, hb⟩
    rw [Function.update_self, Function.update_of_ne hb]
  · rw [Function.update_of_ne ha]

/-- An entry after a write is the one that was written, or an old one of other keys. -/
theorem update₂_eq_some {f : α → β → Option δ} {v w : δ}
    (h : Function.update f a (Function.update (f a) b (some v)) a' b' = some w) :
    (a' = a ∧ b' = b) ∧ v = w ∨ ¬(a' = a ∧ b' = b) ∧ f a' b' = some w := by
  by_cases hkey : a' = a ∧ b' = b
  · obtain ⟨rfl, rfl⟩ := hkey
    rw [update₂_self, Option.some.injEq] at h
    exact .inl ⟨⟨rfl, rfl⟩, h⟩
  · rw [update₂_ne _ hkey] at h
    exact .inr ⟨hkey, h⟩

theorem update₂_apply (f : α → β → δ) (a a' : α) (b b' : β) (v : δ) :
    Function.update f a (Function.update (f a) b v) a' b' =
      if a' = a ∧ b' = b then v else f a' b' := by
  split
  · next heq =>
    obtain ⟨rfl, rfl⟩ := heq
    exact update₂_self f a' b' v
  · next hne => exact update₂_ne v hne

end Two

theorem update₃_apply (f : α → β → γ → δ) (a a' : α) (b b' : β) (c c' : γ) (v : δ) :
    Function.update f a (Function.update (f a) b (Function.update (f a b) c v)) a' b' c' =
      if a' = a ∧ b' = b ∧ c' = c then v else f a' b' c' := by
  by_cases ha : a' = a
  · subst ha
    simp only [Function.update_self, true_and]
    exact update₂_apply (f a') b b' c c' v
  · simp [ha]

end Updates
