import Ddns.Lib.FinMap
import Ddns.Lib.Js
import Ddns.Lib.Grouping

/-!
# The cache of the node agent

A map of items with their expiry, a counter of the stored bytes, and a queue of the keys that were
set, from which `trim` takes the keys that it removes. A key that was set twice is twice in the
queue. Times and durations are in nanoseconds, `instantMax` is the last `Instant` of the platform,
and the map is listed in the order in which its keys came, which no call shows. A definition
without a docstring is the item of the source with the same words in its name.
-/

namespace Ddns.NodeAgent

open Recency

structure CachedItem where
  body : JsText
  expiresAt : Nat
  bytes : Nat
  resultHash : JsText
  deriving DecidableEq

structure Cache where
  maxItems : Nat
  maxBytes : Nat
  currentBytes : Nat
  entries : FinMap JsText CachedItem
  order : List JsText

namespace Cache

def new (maxItems maxBytes : Nat) : Cache where
  maxItems := maxItems
  maxBytes := maxBytes
  currentBytes := 0
  entries := .empty
  order := []

/-- `entries.remove`, with the bytes of what was removed. -/
def remove (c : Cache) (key : JsText) : Cache :=
  match c.entries.get key with
  | some entry =>
    { c with entries := c.entries.erase key, currentBytes := c.currentBytes - entry.bytes }
  | none => c

/-- The condition of the loop in `trim`. -/
def Over (c : Cache) : Prop :=
  c.maxItems < c.entries.entries.length ∨ c.maxBytes < c.currentBytes

instance (c : Cache) : Decidable c.Over := inferInstanceAs (Decidable (_ ∨ _))

/-- The loop of `trim`, with the queue it pops from. -/
def trimQueue (c : Cache) : List JsText → Cache
  | [] => { c with order := [] }
  | key :: order =>
    if c.Over then (c.remove key).trimQueue order else { c with order := key :: order }

def trim (c : Cache) : Cache := c.trimQueue c.order

def evictExpired (c : Cache) (now : Nat) : Cache :=
  ((c.entries.entries.filter fun e => e.2.expiresAt ≤ now).map Prod.fst).foldl remove c

def get (c : Cache) (now : Nat) (key : JsText) : Cache × Option CachedItem :=
  let c := c.evictExpired now
  (c, c.entries.get key)

/-- The size of a text. -/
def size (body : JsText) : Nat := body.utf8.length

/-- What `set` does up to `trim`. -/
def insert (c : Cache) (key : JsText) (item : CachedItem) : Cache :=
  let currentBytes := match c.entries.get key with
    | some existing => c.currentBytes - existing.bytes
    | none => c.currentBytes
  { c with
    entries := c.entries.set key item
    order := c.order ++ [key]
    currentBytes := currentBytes + item.bytes }

/-- The item that a call of `set` stores. -/
def itemOf (now : Nat) (body : JsText) (ttl : Nat) (resultHash : JsText) : CachedItem where
  body := body
  expiresAt := now + ttl
  bytes := size body
  resultHash := resultHash

/-- What a call answers. -/
inductive Answer where
  | item (item : Option CachedItem)
  | done
  | panicked
  deriving DecidableEq

/-- `set`; the sum of an `Instant` and a `Duration` panics where it is no `Instant`. -/
def set (instantMax : Nat) (c : Cache) (now : Nat) (key body : JsText) (ttl : Nat)
    (resultHash : JsText) : Cache × Answer :=
  if c.maxBytes < size body then (c, .done)
  else if instantMax < now + ttl then (c, .panicked)
  else ((c.insert key (itemOf now body ttl resultHash)).trim, .done)

/-- A call, with the time at which it reads the clock. -/
inductive Call where
  | get (now : Nat) (key : JsText)
  | set (now : Nat) (key body : JsText) (ttl : Nat) (resultHash : JsText)

def Call.time : Call → Nat
  | .get now _ => now
  | .set now _ _ _ _ => now

def step (instantMax : Nat) (c : Cache) : Call → Cache × Answer
  | .get now key => ((c.get now key).1, .item (c.get now key).2)
  | .set now key body ttl resultHash => c.set instantMax now key body ttl resultHash

/-! ## What is stored -/

/-- There is an entry for the key. -/
def Stores (c : Cache) (key : JsText) : Prop := (c.entries.get key).isSome

instance (c : Cache) (key : JsText) : Decidable (c.Stores key) :=
  inferInstanceAs (Decidable (_ = true))

/-- The bytes of the stored bodies. -/
def storedBytes (c : Cache) : Nat := c.entries.total fun _ item => size item.body

/-- The counter, and the size in each entry, are those of the stored bodies. -/
structure Counted (c : Cache) : Prop where
  total : c.currentBytes = c.storedBytes
  item : ∀ k item, c.entries.get k = some item → item.bytes = size item.body

section Remove

variable {c : Cache} {key k : JsText} {item : CachedItem}

@[simp] theorem remove_maxItems (c : Cache) (key : JsText) :
    (c.remove key).maxItems = c.maxItems := by
  unfold remove
  split <;> rfl

@[simp] theorem remove_maxBytes (c : Cache) (key : JsText) :
    (c.remove key).maxBytes = c.maxBytes := by
  unfold remove
  split <;> rfl

@[simp] theorem remove_order (c : Cache) (key : JsText) : (c.remove key).order = c.order := by
  unfold remove
  split <;> rfl

theorem get_remove (c : Cache) (key k : JsText) :
    (c.remove key).entries.get k = if k = key then none else c.entries.get k := by
  unfold remove
  split
  · exact FinMap.get_erase c.entries key k
  · next h =>
    split
    · next hk => rw [hk, h]
    · rfl

theorem stores_remove : (c.remove key).Stores k ↔ c.Stores k ∧ k ≠ key := by
  unfold Stores
  rw [get_remove]
  by_cases h : k = key
  · simp [h]
  · simp [h]

theorem remove_of_not_stores (h : ¬c.Stores key) : c.remove key = c := by
  unfold Stores at h
  rw [Bool.not_eq_true, Option.isSome_eq_false_iff, Option.isNone_iff_eq_none] at h
  unfold remove
  rw [h]

/-- A smaller cache is not over its limits if the larger one is not. -/
theorem over_of_remove (h : (c.remove key).Over) : c.Over := by
  unfold remove at h
  cases hget : c.entries.get key with
  | none => rw [hget] at h; exact h
  | some entry =>
    rw [hget] at h
    rcases h with h | h
    · exact .inl (lt_of_lt_of_le h (List.length_filter_le _ _))
    · exact .inr (lt_of_lt_of_le h (Nat.sub_le _ _))

theorem Counted.remove (h : c.Counted) (key : JsText) : (c.remove key).Counted := by
  unfold Cache.remove
  cases hget : c.entries.get key with
  | none => exact h
  | some entry =>
    constructor
    · have htotal := FinMap.total_erase (fun _ (item : CachedItem) => size item.body) hget
      have hsize := h.item key entry hget
      have hbytes := h.total
      unfold storedBytes at hbytes ⊢
      show c.currentBytes - entry.bytes = FinMap.total _ (c.entries.erase key)
      omega
    · intro k item hk
      rw [FinMap.get_erase] at hk
      split at hk
      · cases hk
      · exact h.item k item hk

theorem Counted.insert (h : c.Counted) (key : JsText) (hitem : item.bytes = size item.body) :
    (c.insert key item).Counted := by
  constructor
  · show (match c.entries.get key with
      | some existing => c.currentBytes - existing.bytes
      | none => c.currentBytes) + item.bytes = _
    have hbytes := h.total
    unfold storedBytes at hbytes ⊢
    cases hget : c.entries.get key with
    | none =>
      have htotal := FinMap.total_set_new (fun _ (item : CachedItem) => size item.body) hget item
      show c.currentBytes + item.bytes = FinMap.total _ (c.entries.set key item)
      omega
    | some existing =>
      have htotal := FinMap.total_set (fun _ (item : CachedItem) => size item.body) hget item
      have hsize := h.item key existing hget
      have hle := FinMap.le_total (f := fun _ (item : CachedItem) => size item.body) hget
      show c.currentBytes - existing.bytes + item.bytes =
        FinMap.total _ (c.entries.set key item)
      omega
  · intro k it hk
    change (c.entries.set key item).get k = some it at hk
    rw [FinMap.get_set] at hk
    split at hk
    · exact Option.some.inj hk ▸ hitem
    · exact h.item k it hk

theorem over_of_foldl_remove {keys : List JsText} (h : (keys.foldl remove c).Over) : c.Over := by
  induction keys generalizing c with
  | nil => exact h
  | cons key keys ih => exact over_of_remove (ih h)

theorem get_foldl_remove (keys : List JsText) (c : Cache) (k : JsText) :
    (keys.foldl remove c).entries.get k = if k ∈ keys then none else c.entries.get k := by
  induction keys generalizing c with
  | nil => simp
  | cons key keys ih =>
    rw [List.foldl_cons, ih, get_remove]
    by_cases hkeys : k ∈ keys
    · simp [hkeys]
    · simp [hkeys, List.mem_cons]

/-- What is kept by removals is kept by several of them. -/
theorem foldl_remove_inv {P : Cache → Prop} (hstep : ∀ c key, P c → P (c.remove key))
    (keys : List JsText) (h : P c) : P (keys.foldl remove c) := by
  induction keys generalizing c with
  | nil => exact h
  | cons key keys ih => exact ih (hstep c key h)

end Remove

/-! ## Expiry -/

section Expiry

variable {c : Cache} {now : Nat} {k : JsText} {item : CachedItem}

theorem mem_expired (c : Cache) (now : Nat) (k : JsText) :
    k ∈ (c.entries.entries.filter fun e => e.2.expiresAt ≤ now).map Prod.fst ↔
      ∃ item, c.entries.get k = some item ∧ item.expiresAt ≤ now := by
  simp only [List.mem_map, List.mem_filter, Prod.exists, exists_and_right, exists_eq_right,
    FinMap.mem_entries, decide_eq_true_eq]

/-- What is left are the items that are not expired. -/
theorem get_evictExpired : (c.evictExpired now).entries.get k = some item ↔
    c.entries.get k = some item ∧ now < item.expiresAt := by
  unfold evictExpired
  rw [get_foldl_remove]
  split
  · next h =>
    obtain ⟨it, hit, hle⟩ := (mem_expired c now k).1 h
    rw [hit]
    constructor
    · intro h
      cases h
    · rintro ⟨heq, hlt⟩
      cases heq
      omega
  · next h =>
    refine ⟨fun hk => ⟨hk, ?_⟩, And.left⟩
    by_contra hlt
    exact h ((mem_expired c now k).2 ⟨item, hk, by omega⟩)

end Expiry

/-! ## Trimming -/

section Trim

variable {c : Cache} {l : List JsText} {k key : JsText}

/-- The keys that `trim` removes, in order. -/
def evictedFrom (c : Cache) : List JsText → List JsText
  | [] => []
  | key :: order =>
    if c.Over then
      if c.Stores key then key :: (c.remove key).evictedFrom order
      else (c.remove key).evictedFrom order
    else []

theorem trimQueue_of_over (h : c.Over) (key : JsText) (l : List JsText) :
    c.trimQueue (key :: l) = (c.remove key).trimQueue l := if_pos h

theorem trimQueue_of_not_over (h : ¬c.Over) (l : List JsText) :
    c.trimQueue l = { c with order := l } := by
  cases l with
  | nil => rfl
  | cons key l => exact if_neg h

/-- What removals keep, and what does not depend on the queue, `trim` keeps. -/
theorem trimQueue_inv {P : Cache → Prop} (hstep : ∀ c key, P c → P (c.remove key))
    (horder : ∀ c l, P c → P { c with order := l }) (l : List JsText) (h : P c) :
    P (c.trimQueue l) := by
  induction l generalizing c with
  | nil => exact horder c [] h
  | cons key l ih =>
    by_cases hover : c.Over
    · rw [trimQueue_of_over hover]
      exact ih (hstep c key h)
    · rw [trimQueue_of_not_over hover]
      exact horder c _ h

/-- The queue loses keys at its front only. -/
theorem trimQueue_order (c : Cache) (l : List JsText) : ∃ p, l = p ++ (c.trimQueue l).order := by
  induction l generalizing c with
  | nil => exact ⟨[], rfl⟩
  | cons key l ih =>
    by_cases hover : c.Over
    · rw [trimQueue_of_over hover]
      obtain ⟨p, hp⟩ := ih (c.remove key)
      exact ⟨key :: p, congrArg (key :: ·) hp⟩
    · rw [trimQueue_of_not_over hover]
      exact ⟨[], rfl⟩

/-- An entry is left as it is, or removed. -/
theorem get_trimQueue (c : Cache) (l : List JsText) (k : JsText) :
    (c.trimQueue l).entries.get k = c.entries.get k ∨ (c.trimQueue l).entries.get k = none := by
  induction l generalizing c with
  | nil => exact .inl rfl
  | cons key l ih =>
    by_cases hover : c.Over
    · rw [trimQueue_of_over hover]
      rcases ih (c.remove key) with h | h
      · rw [h, get_remove]
        split
        · exact .inr rfl
        · exact .inl rfl
      · exact .inr h
    · rw [trimQueue_of_not_over hover]
      exact .inl rfl

/-- What was stored is removed or still there. -/
theorem stores_iff_evictedFrom (c : Cache) (l : List JsText) (k : JsText) :
    c.Stores k ↔ k ∈ c.evictedFrom l ∨ (c.trimQueue l).Stores k := by
  induction l generalizing c with
  | nil =>
    rw [evictedFrom]
    simp only [List.not_mem_nil, false_or]
    rfl
  | cons key l ih =>
    rw [evictedFrom]
    by_cases hover : c.Over
    · rw [trimQueue_of_over hover, if_pos hover]
      split
      · next hkey =>
        rw [List.mem_cons, or_assoc, ← ih, stores_remove]
        by_cases hk : k = key
        · simp [hk, hkey]
        · simp [hk]
      · next hkey => rw [remove_of_not_stores hkey, ← ih]
    · rw [trimQueue_of_not_over hover, if_neg hover]
      simp only [List.not_mem_nil, false_or]
      rfl

/-- The keys that are stored are in the queue. -/
def Queued (c : Cache) (l : List JsText) : Prop := ∀ k, c.Stores k → k ∈ l

theorem Queued.remove (h : c.Queued (key :: l)) : (c.remove key).Queued l := by
  intro k hk
  obtain ⟨hk, hne⟩ := stores_remove.1 hk
  exact (List.mem_cons.1 (h k hk)).resolve_left hne

theorem queued_trimQueue (h : c.Queued l) : (c.trimQueue l).Queued (c.trimQueue l).order := by
  induction l generalizing c with
  | nil => exact h
  | cons key l ih =>
    by_cases hover : c.Over
    · rw [trimQueue_of_over hover]
      exact ih h.remove
    · rw [trimQueue_of_not_over hover]
      exact h

/-- Without keys there are no entries. -/
theorem entries_of_queued_nil (h : c.Queued []) : c.entries.entries = [] := by
  rw [List.eq_nil_iff_forall_not_mem]
  rintro ⟨k, item⟩ hmem
  have hk : c.Stores k := by
    unfold Stores
    rw [FinMap.mem_entries.1 hmem]
    rfl
  exact List.not_mem_nil (h k hk)

/-- `trim` ends within the limits. -/
theorem trimQueue_not_over (hc : c.Counted) (h : c.Queued l) : ¬(c.trimQueue l).Over := by
  induction l generalizing c with
  | nil =>
    have hentries := entries_of_queued_nil h
    have htotal := hc.total
    unfold storedBytes FinMap.total at htotal
    rw [hentries] at htotal
    rintro (hlen | hbytes)
    · change _ < c.entries.entries.length at hlen
      rw [hentries] at hlen
      exact Nat.not_lt_zero _ hlen
    · change _ < c.currentBytes at hbytes
      rw [htotal] at hbytes
      exact Nat.not_lt_zero _ hbytes
  | cons key l ih =>
    by_cases hover : c.Over
    · rw [trimQueue_of_over hover]
      exact ih (hc.remove key) h.remove
    · rw [trimQueue_of_not_over hover]
      exact hover

end Trim

end Cache

end Ddns.NodeAgent
