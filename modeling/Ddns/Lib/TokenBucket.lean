import Mathlib.Algebra.Order.Field.Basic
import Mathlib.Data.List.Count
import Mathlib.Tactic.Linarith

/-!
# Token buckets

A bucket holds tokens up to its capacity and is refilled at a constant rate; a call takes a token, or is
refused if there is none. The clock may go back: then nothing is refilled, and the bucket counts the
time from the earlier instant on. So the tokens that are ever taken are paid by the capacity and by what
the clock goes forward (`taken_le`), and to have more tokens is never worse (`taken_le_of_le`).
-/

namespace TokenBucket

variable {α : Type*} [Field α] [LinearOrder α]

/-- The tokens, and the instant that they were counted at. -/
structure Bucket (α : Type*) where
  tokens : α
  last : α

/-- The capacity, and the tokens that are refilled in a unit of time. -/
structure Rule (α : Type*) where
  capacity : α
  rate : α

namespace Rule

variable (r : Rule α)

/-- The tokens at an instant. -/
def available (b : Bucket α) (now : α) : α :=
  min r.capacity (b.tokens + max 0 (now - b.last) * r.rate)

/-- A call: the bucket after it, and whether it is allowed. -/
def take (b : Bucket α) (now : α) : Bucket α × Bool :=
  if r.available b now < 1 then (⟨r.available b now, now⟩, false)
  else (⟨r.available b now - 1, now⟩, true)

/-- The decisions on calls at some instants. -/
def decisions : Bucket α → List α → List Bool
  | _, [] => []
  | b, now :: later => (r.take b now).2 :: decisions (r.take b now).1 later

/-- The calls that are allowed. -/
def taken (b : Bucket α) (instants : List α) : ℕ := (r.decisions b instants).count true

end Rule

/-- What the clock goes forward. -/
def forward : α → List α → α
  | _, [] => 0
  | last, now :: later => max 0 (now - last) + forward now later

variable {r : Rule α} {b c : Bucket α} {now : α}

theorem take_of_lt (h : r.available b now < 1) :
    r.take b now = (⟨r.available b now, now⟩, false) := if_pos h

theorem take_of_le (h : 1 ≤ r.available b now) :
    r.take b now = (⟨r.available b now - 1, now⟩, true) := if_neg (not_lt.2 h)

theorem taken_cons (later : List α) : r.taken b (now :: later) =
    (if (r.take b now).2 then 1 else 0) + r.taken (r.take b now).1 later := by
  unfold Rule.taken
  rw [Rule.decisions, List.count_cons, Nat.add_comm]
  cases (r.take b now).2 <;> rfl

variable [IsStrictOrderedRing α]

theorem available_nonneg (hcapacity : 0 ≤ r.capacity) (hrate : 0 ≤ r.rate) (hb : 0 ≤ b.tokens) :
    0 ≤ r.available b now :=
  le_min hcapacity (add_nonneg hb (mul_nonneg (le_max_left 0 _) hrate))

/-- **The amortized bound**: the calls that are allowed are paid by the tokens there are and by what the
clock goes forward. -/
theorem taken_le (hcapacity : 0 ≤ r.capacity) (hrate : 0 ≤ r.rate) (hb : 0 ≤ b.tokens)
    (instants : List α) :
    (r.taken b instants : α) ≤ b.tokens + forward b.last instants * r.rate := by
  induction instants generalizing b with
  | nil => simpa [Rule.taken, Rule.decisions, forward] using hb
  | cons now later ih =>
    have havailable : r.available b now ≤ b.tokens + max 0 (now - b.last) * r.rate :=
      min_le_right _ _
    rw [taken_cons, forward, add_mul]
    by_cases h : r.available b now < 1
    · have hrest := ih (b := ⟨r.available b now, now⟩) (available_nonneg hcapacity hrate hb)
      rw [take_of_lt h, if_neg Bool.false_ne_true, Nat.zero_add]
      dsimp only at hrest
      linarith
    · rw [not_lt] at h
      have hrest := ih (b := ⟨r.available b now - 1, now⟩) (sub_nonneg.2 h)
      rw [take_of_le h, if_pos rfl, Nat.cast_add, Nat.cast_one]
      dsimp only at hrest
      linarith

/-- Tokens that are ahead stay ahead. -/
theorem available_le {x y d : α} (hd : 0 ≤ d) (h : y ≤ x + d) (last now : α) :
    r.available ⟨y, last⟩ now ≤ r.available ⟨x, last⟩ now + d := by
  unfold Rule.available
  dsimp only
  rw [← min_add_add_right]
  refine le_min ((min_le_left _ _).trans (le_add_of_nonneg_right hd)) ?_
  refine (min_le_right _ _).trans ?_
  linarith

/-- A bucket that is never more than `d` tokens behind allows at most `d` calls fewer. -/
theorem taken_le_add (d : ℕ) (h : ∀ now, r.available c now ≤ r.available b now + d)
    (instants : List α) : r.taken c instants ≤ r.taken b instants + d := by
  induction instants generalizing b c d with
  | nil => exact Nat.zero_le _
  | cons now later ih =>
    have hnow := h now
    have hd : (0 : α) ≤ d := Nat.cast_nonneg d
    rw [taken_cons, taken_cons]
    by_cases hy : r.available c now < 1
    · by_cases hx : r.available b now < 1
      · have hrest := ih (b := ⟨r.available b now, now⟩) (c := ⟨r.available c now, now⟩) d
          (available_le hd hnow now)
        rw [take_of_lt hy, take_of_lt hx, if_neg Bool.false_ne_true]
        dsimp only
        omega
      · -- only the bucket ahead gives a token away
        rw [not_lt] at hx
        have hstep : r.available c now ≤ r.available b now - 1 + (d + 1 : ℕ) := by
          push_cast
          linarith
        have hrest := ih (b := ⟨r.available b now - 1, now⟩) (c := ⟨r.available c now, now⟩) (d + 1)
          (available_le (Nat.cast_nonneg _) hstep now)
        rw [take_of_lt hy, take_of_le hx, if_neg Bool.false_ne_true, if_pos rfl]
        dsimp only
        omega
    · rw [not_lt] at hy
      by_cases hx : r.available b now < 1
      · -- only the bucket behind gives a token away, so it was behind by less
        obtain ⟨e, rfl⟩ : ∃ e, d = e + 1 := by
          cases d with
          | zero =>
            rw [Nat.cast_zero, add_zero] at hnow
            exact absurd (hy.trans hnow) (not_le.2 hx)
          | succ e => exact ⟨e, rfl⟩
        have hstep : r.available c now - 1 ≤ r.available b now + e := by
          push_cast at hnow
          linarith
        have hrest := ih (b := ⟨r.available b now, now⟩) (c := ⟨r.available c now - 1, now⟩) e
          (available_le (Nat.cast_nonneg e) hstep now)
        rw [take_of_le hy, take_of_lt hx, if_neg Bool.false_ne_true, if_pos rfl]
        dsimp only
        omega
      · rw [not_lt] at hx
        have hstep : r.available c now - 1 ≤ r.available b now - 1 + d := by linarith
        have hrest := ih (b := ⟨r.available b now - 1, now⟩) (c := ⟨r.available c now - 1, now⟩) d
          (available_le hd hstep now)
        rw [take_of_le hy, take_of_le hx, if_pos rfl]
        dsimp only
        omega

/-- A bucket with more tokens at every instant allows as many calls. -/
theorem taken_le_of_le (h : ∀ now, r.available c now ≤ r.available b now) (instants : List α) :
    r.taken c instants ≤ r.taken b instants := by
  refine taken_le_add 0 (fun now => ?_) instants
  rw [Nat.cast_zero, add_zero]
  exact h now

/-- A refused call leaves as many tokens for every later instant, and more if the clock went back. -/
theorem available_of_refused (hrate : 0 ≤ r.rate) (hcapacity : 1 ≤ r.capacity)
    (h : r.available b now < 1) (later : α) :
    r.available b later ≤ r.available (r.take b now).1 later := by
  have hkept : r.available b now = b.tokens + max 0 (now - b.last) * r.rate :=
    min_eq_right_of_lt ((min_lt_iff.1 h).resolve_left (not_lt.2 hcapacity) |>.trans_le hcapacity)
  have hpath : max 0 (later - b.last) ≤ max 0 (now - b.last) + max 0 (later - now) := by
    refine max_le (add_nonneg (le_max_left 0 _) (le_max_left 0 _)) ?_
    have hfirst := le_max_right 0 (now - b.last)
    have hsecond := le_max_right 0 (later - now)
    linarith
  have hgained := mul_le_mul_of_nonneg_right hpath hrate
  rw [add_mul] at hgained
  rw [take_of_lt h]
  unfold Rule.available at hkept ⊢
  dsimp only
  refine min_le_min_left _ ?_
  rw [hkept]
  linarith

end TokenBucket
