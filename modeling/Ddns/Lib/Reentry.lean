import Ddns.Lib.Run

/-!
# Components that hand control away

A component answers one call at a time, but in the middle of a call it may hand control to code
outside, and this code may call the component again before it gives control back. `Script` is what
such code does: the calls it makes, each with what happens while that call hands control away in
its turn, and whether the code succeeds in the end. A script that fails undoes all that was done
under it.

`Component.frame` runs a script and `Component.visited` lists the states the code outside finds. The
rule is the one of rely and guarantee (`Guarantee`): every call keeps an invariant `I`, also where it
hands control away, and changes the state within a preorder `R`; the part of a call after the answer
may then rely on both for what was done meanwhile. A chain of transactions runs one script after
another (`Component.chain`).
-/

namespace Reentry

/-- What code outside does while it has control. -/
inductive Script (ι : Type*) where
  /-- It gives control back, and has succeeded or failed. -/
  | done (ok : Bool)
  /-- It makes a call and goes on with `rest`; `inner` is what happens while the call hands control
  away. -/
  | call (i : ι) (inner rest : Script ι)

/-- The code succeeds in the end. -/
def Script.succeeds {ι : Type*} : Script ι → Bool
  | .done ok => ok
  | .call _ _ rest => rest.succeeds

/-- How a call starts: it is refused, it ends at once, or it hands control away and waits with `k`
for the answer. If what follows fails, the state is again `before`. -/
inductive Entry (ε σ κ : Type*) where
  | refused (e : ε)
  | finished (s : σ)
  | handedOver (before after : σ) (k : κ)

/-- A call whose checks may refuse it. -/
def Entry.checked {ε σ κ : Type*} : Except ε (Entry ε σ κ) → Entry ε σ κ
  | .ok e => e
  | .error e => .refused e

/-- What a component does at the start of a call, and after the code outside has answered. -/
structure Component (ε σ ι κ : Type*) where
  enter : σ → ι → Entry ε σ κ
  resume : κ → Bool → σ → Except ε σ

/-- Every call of the script is one of `A`. -/
def Script.All {ι : Type*} (A : ι → Prop) : Script ι → Prop
  | .done _ => True
  | .call i inner rest => A i ∧ inner.All A ∧ rest.All A

theorem Script.all_true {ι : Type*} (p : Script ι) : p.All fun _ => True := by
  induction p with
  | done ok => trivial
  | call i inner rest ihInner ihRest => exact ⟨trivial, ihInner, ihRest⟩

theorem Entry.checked_eq_finished {ε σ κ : Type*} {x : Except ε (Entry ε σ κ)} {s : σ} :
    Entry.checked x = .finished s ↔ x = .ok (.finished s) := by
  cases x <;> simp [Entry.checked]

theorem Entry.checked_eq_handedOver {ε σ κ : Type*} {x : Except ε (Entry ε σ κ)} {b a : σ} {k : κ} :
    Entry.checked x = .handedOver b a k ↔ x = .ok (.handedOver b a k) := by
  cases x <;> simp [Entry.checked]

namespace Component

variable {ε σ ι κ δ : Type*}

section Defs

variable (c : Component ε σ ι κ)

/-- A whole call, when the code outside does `callee`: the new state, or why nothing changed. -/
def complete (callee : σ → σ × Bool) (s : σ) (i : ι) : Except ε σ :=
  match c.enter s i with
  | .refused e => .error e
  | .finished t => .ok t
  | .handedOver before after k =>
    if (callee after).2 then c.resume k true (callee after).1 else c.resume k false before

/-- The state after a call. -/
def after (callee : σ → σ × Bool) (s : σ) (i : ι) : σ :=
  match c.complete callee s i with
  | .ok t => t
  | .error _ => s

/-- Run a script. -/
def frame : Script ι → σ → σ × Bool
  | .done ok, s => (s, ok)
  | .call i inner rest, s => frame rest (c.after (frame inner) s i)

/-- The states in which the code outside has control, in order. -/
def visited : Script ι → σ → List σ
  | .done _, s => [s]
  | .call i inner rest, s =>
    s :: (match c.enter s i with
      | .handedOver _ after _ => visited inner after
      | _ => []) ++ visited rest (c.after (c.frame inner) s i)

/-- One transaction: a script that starts with nothing pending. A script that fails changes
nothing. -/
def transact (s : σ) (p : Script ι) : σ × Bool :=
  if (c.frame p s).2 then ((c.frame p s).1, true) else (s, false)

end Defs

/-- Transactions one after another, each in its own environment. -/
def chain (c : δ → Component ε σ ι κ) (s : σ) (t : δ × Script ι) : σ × Bool :=
  (c t.1).transact s t.2

variable {c : Component ε σ ι κ}

@[simp] theorem frame_done (ok : Bool) (s : σ) : c.frame (.done ok) s = (s, ok) := rfl

@[simp] theorem frame_call (i : ι) (inner rest : Script ι) (s : σ) :
    c.frame (.call i inner rest) s = c.frame rest (c.after (c.frame inner) s i) := rfl

/-- Whether a script succeeds, it says itself. -/
@[simp] theorem frame_snd (p : Script ι) (s : σ) : (c.frame p s).2 = p.succeeds := by
  induction p generalizing s with
  | done ok => rfl
  | call i inner rest _ ih => exact ih _

theorem complete_refused {callee : σ → σ × Bool} {s : σ} {i : ι} {e : ε}
    (h : c.enter s i = .refused e) : c.complete callee s i = .error e := by
  simp [complete, h]

theorem complete_finished {callee : σ → σ × Bool} {s t : σ} {i : ι}
    (h : c.enter s i = .finished t) : c.complete callee s i = .ok t := by
  simp [complete, h]

theorem complete_handedOver {callee : σ → σ × Bool} {s b a : σ} {i : ι} {k : κ}
    (h : c.enter s i = .handedOver b a k) :
    c.complete callee s i =
      if (callee a).2 then c.resume k true (callee a).1 else c.resume k false b := by
  simp [complete, h]

/-- A call that succeeds ends at once, or after the code outside has succeeded or failed. -/
theorem complete_cases {callee : σ → σ × Bool} {s t : σ} {i : ι}
    (h : c.complete callee s i = .ok t) :
    c.enter s i = .finished t ∨
    (∃ b a k, c.enter s i = .handedOver b a k ∧ (callee a).2 = true ∧
      c.resume k true (callee a).1 = .ok t) ∨
    (∃ b a k, c.enter s i = .handedOver b a k ∧ (callee a).2 = false ∧
      c.resume k false b = .ok t) := by
  cases he : c.enter s i with
  | refused e =>
    rw [complete_refused he] at h
    cases h
  | finished u =>
    rw [complete_finished he, Except.ok.injEq] at h
    rw [h]
    exact .inl rfl
  | handedOver b a k =>
    rw [complete_handedOver he] at h
    cases hok : (callee a).2 with
    | true => exact .inr (.inl ⟨b, a, k, rfl, hok, by rwa [if_pos hok] at h⟩)
    | false => exact .inr (.inr ⟨b, a, k, rfl, hok, by rwa [if_neg (hok ▸ Bool.false_ne_true)] at h⟩)

/-- A call changes nothing, or it succeeds. -/
theorem after_cases (c : Component ε σ ι κ) (callee : σ → σ × Bool) (s : σ) (i : ι) :
    c.after callee s i = s ∨ c.complete callee s i = .ok (c.after callee s i) := by
  unfold after
  cases c.complete callee s i with
  | error e => exact .inl rfl
  | ok t => exact .inr rfl

theorem after_ok {callee : σ → σ × Bool} {s t : σ} {i : ι} (h : c.complete callee s i = .ok t) :
    c.after callee s i = t := by
  simp [after, h]

theorem after_error {callee : σ → σ × Bool} {s : σ} {i : ι} {e : ε}
    (h : c.complete callee s i = .error e) : c.after callee s i = s := by
  simp [after, h]

/-- What the calls of `A` guarantee: they keep `I`, also while control is away, and change the state
within `R`. -/
structure Guarantee (c : Component ε σ ι κ) (A : ι → Prop) (I : σ → Prop) (R : σ → σ → Prop) :
    Prop where
  refl : ∀ s, R s s
  trans : ∀ {s t u}, R s t → R t u → R s u
  finished : ∀ {s t i}, A i → I s → c.enter s i = .finished t → I t ∧ R s t
  handedOver : ∀ {s b a i k}, A i → I s → c.enter s i = .handedOver b a k → I a
  resumed : ∀ {s b a i k t u}, A i → I s → c.enter s i = .handedOver b a k → I t → R a t →
    c.resume k true t = .ok u → I u ∧ R s u
  failed : ∀ {s b a i k u}, A i → I s → c.enter s i = .handedOver b a k →
    c.resume k false b = .ok u → I u ∧ R s u

namespace Guarantee

variable {A : ι → Prop} {I : σ → Prop} {R : σ → σ → Prop}

/-- A whole call keeps the guarantee if the code outside does. -/
theorem after (g : Guarantee c A I R) {callee : σ → σ × Bool}
    (hcallee : ∀ a, I a → I (callee a).1 ∧ R a (callee a).1) {s : σ} {i : ι} (hi : A i) (hs : I s) :
    I (c.after callee s i) ∧ R s (c.after callee s i) := by
  rcases c.after_cases callee s i with hsame | hok
  · rw [hsame]
    exact ⟨hs, g.refl s⟩
  · generalize c.after callee s i = t at hok
    rcases complete_cases hok with hfin | ⟨b, a, k, hover, -, hres⟩ | ⟨b, a, k, hover, -, hres⟩
    · exact g.finished hi hs hfin
    · obtain ⟨ht, hat⟩ := hcallee a (g.handedOver hi hs hover)
      exact g.resumed hi hs hover ht hat hres
    · exact g.failed hi hs hover hres

/-- **The reentrancy rule**: every script keeps the invariant and stays within the preorder. -/
theorem frame (g : Guarantee c A I R) {p : Script ι} (hp : p.All A) {s : σ} (hs : I s) :
    I (c.frame p s).1 ∧ R s (c.frame p s).1 := by
  induction p generalizing s with
  | done ok => exact ⟨hs, g.refl s⟩
  | call i inner rest ihInner ihRest =>
    obtain ⟨hi, hinner, hrest⟩ := hp
    obtain ⟨ht, hst⟩ := g.after (fun a ha => ihInner hinner ha) hi hs
    obtain ⟨hu, htu⟩ := ihRest hrest ht
    exact ⟨hu, g.trans hst htu⟩

/-- The code outside finds the invariant whenever it has control. -/
theorem visited (g : Guarantee c A I R) {p : Script ι} (hp : p.All A) {s : σ} (hs : I s) :
    ∀ t ∈ c.visited p s, I t := by
  induction p generalizing s with
  | done ok =>
    intro t ht
    rwa [List.mem_singleton.1 ht]
  | call i inner rest ihInner ihRest =>
    obtain ⟨hi, hinner, hrest⟩ := hp
    intro t ht
    rw [Component.visited, List.cons_append, List.mem_cons, List.mem_append] at ht
    rcases ht with rfl | ht | ht
    · exact hs
    · cases he : c.enter s i with
      | refused e => simp [he] at ht
      | finished u => simp [he] at ht
      | handedOver b a k =>
        simp only [he] at ht
        exact ihInner hinner (g.handedOver hi hs he) t ht
    · exact ihRest hrest (g.after (fun a ha => g.frame hinner ha) hi hs).1 t ht

theorem transact (g : Guarantee c A I R) {p : Script ι} (hp : p.All A) {s : σ} (hs : I s) :
    I (c.transact s p).1 ∧ R s (c.transact s p).1 := by
  unfold Component.transact
  split
  · exact g.frame hp hs
  · exact ⟨hs, g.refl s⟩

end Guarantee

section Chains

variable {c : δ → Component ε σ ι κ} {A : δ → ι → Prop} {I : σ → Prop} {R : σ → σ → Prop}

/-- Every run of transactions whose calls are all admitted keeps the invariant and stays within the
preorder. -/
theorem chain_guarantee (g : ∀ d, Guarantee (c d) (A d) I R) (hrefl : ∀ s, R s s) {s : σ}
    {txs : List (δ × Script ι)} (hA : ∀ t ∈ txs, t.2.All (A t.1)) (hs : I s) :
    I (Runs.exec (chain c) s txs) ∧ R s (Runs.exec (chain c) s txs) := by
  induction txs generalizing s with
  | nil => exact ⟨hs, hrefl s⟩
  | cons t txs ih =>
    obtain ⟨ht, hst⟩ := (g t.1).transact (hA t List.mem_cons_self) hs
    obtain ⟨hu, htu⟩ := ih (fun x hx => hA x (List.mem_cons_of_mem t hx)) ht
    exact ⟨hu, (g t.1).trans hst htu⟩

/-- Every state any transaction of a run shows to the code outside satisfies the invariant. -/
theorem chain_visited (g : ∀ d, Guarantee (c d) (A d) I R) {s : σ} {txs : List (δ × Script ι)}
    (hA : ∀ t ∈ txs, t.2.All (A t.1)) (hs : I s) {pre post : List (δ × Script ι)}
    {t : δ × Script ι} (htxs : txs = pre ++ t :: post) :
    ∀ u ∈ (c t.1).visited t.2 (Runs.exec (chain c) s pre), I u := by
  subst htxs
  have hpre : ∀ x ∈ pre, x.2.All (A x.1) := fun x hx => hA x (List.mem_append_left _ hx)
  have ht : t.2.All (A t.1) := hA t (List.mem_append_right _ List.mem_cons_self)
  exact (g t.1).visited ht (chain_guarantee g (g t.1).refl hpre hs).1

end Chains

end Component

end Reentry
