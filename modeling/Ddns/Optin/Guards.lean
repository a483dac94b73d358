import Ddns.Lib.FinMap
import Ddns.Lib.Js
import Ddns.Lib.Run
import Mathlib.Data.List.DropRight
import Mathlib.Data.Nat.Cast.Order.Ring

/-!
# The guards of the opt-in server

`RateLimiter` counts the requests of an address in the current minute; `NonceCache` remembers the
last nonces. What they decide is a function of what came before. A request passes exactly if it is
the first of its minute's run, or the limit is above the requests of that run before it
(`allow_iff`), and a nonce is seen exactly if it is among the last `maxSize` that were added
(`seen_iff`).
-/

namespace Ddns.Optin

/-! ## The rate limiter -/

/-- What is kept of an address: the minute of its last request and how many passed in it. -/
structure Bucket where
  tsMin : ℤ
  count : ℕ
  deriving DecidableEq

structure RateLimiter where
  buckets : FinMap JsText Bucket
  perMin : JsNum

namespace RateLimiter

/-- `constructor`. -/
def init (perMin : JsNum) : RateLimiter := ⟨FinMap.empty, perMin⟩

/-- `Math.floor(nowSec() / 60)`. -/
def minute (now : ℤ) : ℤ := now / 60

/-- `cur.count >= this.perMin`; with a limit that is no number it never holds. -/
def reached (perMin : JsNum) (count : ℕ) : Bool := perMin.le (.fin count)

/-- `allow`. -/
def allow (l : RateLimiter) (now : ℤ) (ip : JsText) : RateLimiter × Bool :=
  match l.buckets.get ip with
  | none => ({ l with buckets := l.buckets.set ip ⟨minute now, 1⟩ }, true)
  | some cur =>
    if cur.tsMin ≠ minute now then
      ({ l with buckets := l.buckets.set ip ⟨minute now, 1⟩ }, true)
    else if reached l.perMin cur.count then (l, false)
    else ({ l with buckets := l.buckets.set ip { cur with count := cur.count + 1 } }, true)

/-- The requests of an address in the run of its minute: those right before, in the same minute. -/
def runLength (minutes : List ℤ) (m : ℤ) : ℕ := (minutes.rtakeWhile (· = m)).length

/-- What is decided after so many requests in a row in one minute. -/
def passes (perMin : JsNum) (n : ℕ) : Bool := n = 0 || !reached perMin n

/-- How many of the first `n` requests of a run pass. -/
def passed (perMin : JsNum) (n : ℕ) : ℕ := ((List.range n).filter (passes perMin)).length

section Laws

variable {perMin : JsNum}

theorem reached_mono {k n : ℕ} (hkn : k ≤ n) (h : reached perMin k = true) :
    reached perMin n = true := by
  unfold reached at h ⊢
  cases perMin with
  | fin q =>
    simp only [JsNum.le, decide_eq_true_eq] at h ⊢
    have hcast : (k : ℚ) ≤ (n : ℚ) := Nat.cast_le.2 hkn
    exact h.trans hcast
  | nan => simp [JsNum.le] at h
  | posInf => simp [JsNum.le] at h
  | negInf => simp [JsNum.le]

theorem passed_succ (n : ℕ) :
    passed perMin (n + 1) = passed perMin n + if passes perMin n then 1 else 0 := by
  unfold passed
  rw [List.range_succ, List.filter_append, List.length_append, List.filter_singleton]
  cases passes perMin n <;> rfl

theorem passed_one : passed perMin 1 = 1 := rfl

theorem passed_le (n : ℕ) : passed perMin n ≤ n :=
  (List.length_filter_le _ _).trans (List.length_range).le

theorem one_le_passed {n : ℕ} (hn : 0 < n) : 1 ≤ passed perMin n := by
  induction n with
  | zero => exact absurd hn (lt_irrefl 0)
  | succ n ih =>
    rw [passed_succ]
    rcases Nat.eq_zero_or_pos n with rfl | hpos
    · exact le_rfl
    · exact (ih hpos).trans (Nat.le_add_right _ _)

/-- All of a run pass, or the limit was reached with those that did. -/
theorem passed_cases (perMin : JsNum) (n : ℕ) :
    passed perMin n = n ∨ reached perMin (passed perMin n) = true := by
  induction n with
  | zero => exact .inl rfl
  | succ n ih =>
    rw [passed_succ]
    rcases ih with hall | hreached
    · rw [hall]
      cases hp : passes perMin n with
      | true => exact .inl rfl
      | false =>
        simp only [passes, Bool.or_eq_false_iff, Bool.not_eq_false'] at hp
        exact .inr hp.2
    · have hn : passes perMin n = false ∨ n = 0 := by
        rcases Nat.eq_zero_or_pos n with rfl | hpos
        · exact .inr rfl
        · have hlater := reached_mono (passed_le n) hreached
          exact .inl (by simp [passes, hlater, Nat.ne_of_gt hpos])
      rcases hn with hn | rfl
      · rw [hn]
        exact .inr hreached
      · exact .inl rfl

/-- The count of those that passed and the number of requests decide alike. -/
theorem reached_passed (perMin : JsNum) {n : ℕ} (hn : 0 < n) :
    reached perMin (passed perMin n) = !passes perMin n := by
  have hne : n ≠ 0 := Nat.ne_of_gt hn
  rcases passed_cases perMin n with hall | hreached
  · simp [hall, passes, hne]
  · have hlater := reached_mono (passed_le n) hreached
    simp [hreached, passes, hlater, hne]

/-- The bucket of an address tells the last minute and how many passed in its run. -/
def Counts (perMin : JsNum) (minutes : List ℤ) : Option Bucket → Prop
  | none => minutes = []
  | some b => minutes.getLast? = some b.tsMin ∧
      b.count = passed perMin (runLength minutes b.tsMin)

theorem runLength_concat_same (minutes : List ℤ) (m : ℤ) :
    runLength (minutes ++ [m]) m = runLength minutes m + 1 := by
  unfold runLength
  rw [List.rtakeWhile_concat_pos _ _ _ (by simp), List.length_append, List.length_singleton]

theorem runLength_of_last {minutes : List ℤ} {m m' : ℤ} (hlast : minutes.getLast? = some m')
    (hne : m' ≠ m) : runLength minutes m = 0 := by
  obtain ⟨l, rfl⟩ := List.getLast?_eq_some_iff.1 hlast
  unfold runLength
  rw [List.rtakeWhile_concat_neg _ _ _ (by simpa using hne), List.length_nil]

theorem runLength_pos {minutes : List ℤ} {m : ℤ} (hlast : minutes.getLast? = some m) :
    0 < runLength minutes m := by
  obtain ⟨l, rfl⟩ := List.getLast?_eq_some_iff.1 hlast
  rw [runLength_concat_same]
  exact Nat.succ_pos _

/-- One request: it is decided by its run, and the bucket keeps up. -/
theorem allow_step {l : RateLimiter} {ip : JsText} {minutes : List ℤ} (now : ℤ)
    (h : Counts l.perMin minutes (l.buckets.get ip)) :
    (l.allow now ip).2 = passes l.perMin (runLength minutes (minute now)) ∧
    Counts l.perMin (minutes ++ [minute now]) ((l.allow now ip).1.buckets.get ip) := by
  have hnew (hzero : runLength minutes (minute now) = 0) :
      Counts l.perMin (minutes ++ [minute now]) (some ⟨minute now, 1⟩) := by
    refine ⟨List.getLast?_concat, ?_⟩
    rw [runLength_concat_same, hzero, passed_one]
  unfold allow
  cases hget : l.buckets.get ip with
  | none =>
    rw [hget] at h
    have hnil : minutes = [] := h
    subst hnil
    exact ⟨rfl, by rw [FinMap.get_set_self]; exact hnew rfl⟩
  | some cur =>
    rw [hget] at h
    obtain ⟨hlast, hcount⟩ := h
    by_cases hm : cur.tsMin ≠ minute now
    · have hzero := runLength_of_last hlast hm
      simp only [if_pos hm, hzero, FinMap.get_set_self]
      exact ⟨rfl, hnew hzero⟩
    · have hsame : cur.tsMin = minute now := not_not.1 hm
      rw [hsame] at hlast hcount
      have hreached := reached_passed l.perMin (runLength_pos hlast)
      rw [← hcount] at hreached
      have hnext : passed l.perMin (runLength (minutes ++ [minute now]) (minute now)) =
          cur.count + if passes l.perMin (runLength minutes (minute now)) then 1 else 0 := by
        rw [runLength_concat_same, passed_succ, ← hcount]
      cases hpass : passes l.perMin (runLength minutes (minute now)) with
      | false =>
        rw [hpass] at hreached hnext
        simp only [if_neg hm, hreached, Bool.not_false, if_true, hget]
        refine ⟨trivial, List.getLast?_concat.trans (by rw [hsame]), ?_⟩
        rw [hsame, hnext]
        rfl
      | true =>
        rw [hpass] at hreached hnext
        simp only [if_neg hm, hreached, Bool.not_true, Bool.false_eq_true, if_false,
          FinMap.get_set_self]
        refine ⟨trivial, List.getLast?_concat.trans (by rw [hsame]), ?_⟩
        rw [hsame, hnext]
        rfl

/-- The buckets of other addresses and the limit stay. -/
theorem allow_other {l : RateLimiter} {ip ip' : JsText} (now : ℤ) (hne : ip' ≠ ip) :
    (l.allow now ip).1.buckets.get ip' = l.buckets.get ip' := by
  unfold allow
  cases l.buckets.get ip with
  | none => exact FinMap.get_set_ne _ _ hne
  | some cur =>
    by_cases hm : cur.tsMin ≠ minute now
    · simp only [if_pos hm]
      exact FinMap.get_set_ne _ _ hne
    · simp only [if_neg hm]
      split
      · rfl
      · exact FinMap.get_set_ne _ _ hne

@[simp] theorem allow_perMin (l : RateLimiter) (now : ℤ) (ip : JsText) :
    (l.allow now ip).1.perMin = l.perMin := by
  unfold allow
  cases l.buckets.get ip with
  | none => rfl
  | some cur =>
    by_cases hm : cur.tsMin ≠ minute now
    · simp only [if_pos hm]
    · simp only [if_neg hm]
      split <;> rfl

end Laws

end RateLimiter

/-! ## The nonce cache -/

structure NonceCache where
  set : List JsText
  queue : List JsText
  maxSize : ℕ

namespace NonceCache

/-- `constructor`. -/
def init (maxSize : ℕ) : NonceCache := ⟨[], [], maxSize⟩

def seen (c : NonceCache) (nonce : JsText) : Bool := c.set.contains nonce

/-- The oldest nonce is forgotten when there are too many; the empty one would never be. -/
def add (c : NonceCache) (nonce : JsText) : NonceCache :=
  if c.set.contains nonce then c
  else
    let set := c.set ++ [nonce]
    let queue := c.queue ++ [nonce]
    if c.maxSize < queue.length then
      match queue with
      | [] => { c with set := set, queue := queue }
      | old :: rest => { c with set := if old ≠ [] then set.erase old else set, queue := rest }
    else { c with set := set, queue := queue }

/-- The cache holds the last nonces that were added. -/
structure Remembers (c : NonceCache) (added : List JsText) : Prop where
  set_eq : c.set = added.rtake c.maxSize
  queue_eq : c.queue = added.rtake c.maxSize
  nodup : (added.rtake c.maxSize).Nodup
  ne_nil : ∀ n ∈ added, n ≠ []

section Laws

variable {α : Type*}

/-- The last `n` of a list that is longer by one. -/
theorem rtake_concat (l : List α) (a : α) (n : ℕ) :
    (l ++ [a]).rtake n = if n < (l.rtake n).length + 1 then (l.rtake n ++ [a]).tail
      else l.rtake n ++ [a] := by
  unfold List.rtake
  rw [List.length_drop, List.length_append, List.length_singleton]
  by_cases hn : n ≤ l.length
  · have hlt : n < l.length - (l.length - n) + 1 := by omega
    rw [if_pos hlt]
    have hdrop : l.length + 1 - n = (l.length - n) + 1 := by omega
    rw [hdrop, ← List.drop_append_of_le_length (by omega), List.tail_drop]
  · have hlt : ¬n < l.length - (l.length - n) + 1 := by omega
    have hzero : l.length + 1 - n = 0 := by omega
    have hzero' : l.length - n = 0 := by omega
    rw [if_neg hlt, hzero, hzero', List.drop_zero, List.drop_zero]

theorem remembers_init (maxSize : ℕ) : Remembers (init maxSize) [] := by
  refine ⟨?_, ?_, ?_, ?_⟩ <;> simp [init]

theorem Remembers.seen_iff {c : NonceCache} {added : List JsText} (h : Remembers c added)
    (nonce : JsText) : c.seen nonce = true ↔ nonce ∈ added.rtake c.maxSize := by
  rw [seen, List.contains_iff_mem, h.set_eq]

/-- A new nonce takes the place of the oldest. -/
theorem Remembers.add {c : NonceCache} {added : List JsText} (h : Remembers c added)
    {nonce : JsText} (hnew : c.seen nonce = false) (hne : nonce ≠ []) :
    Remembers (c.add nonce) (added ++ [nonce]) ∧ (c.add nonce).maxSize = c.maxSize := by
  have hnotin : nonce ∉ added.rtake c.maxSize := by
    intro hin
    rw [(h.seen_iff nonce).2 hin] at hnew
    cases hnew
  have hlist : (added.rtake c.maxSize ++ [nonce]).Nodup :=
    List.nodup_append.2 ⟨h.nodup, List.nodup_singleton nonce, fun a ha b hb hab =>
      hnotin (List.mem_singleton.1 hb ▸ hab ▸ ha)⟩
  have hmember : ∀ n ∈ added.rtake c.maxSize ++ [nonce], n ≠ [] := by
    intro n hn
    rcases List.mem_append.1 hn with hn | hn
    · exact h.ne_nil n (List.mem_of_mem_drop hn)
    · rw [List.mem_singleton.1 hn]
      exact hne
  have hne' : ∀ n ∈ added ++ [nonce], n ≠ [] := by
    intro n hn
    rcases List.mem_append.1 hn with hn | hn
    · exact h.ne_nil n hn
    · rw [List.mem_singleton.1 hn]
      exact hne
  have hnot : ¬c.set.contains nonce = true := by
    rw [seen] at hnew
    rw [hnew]
    exact Bool.false_ne_true
  have hrtake := rtake_concat added nonce c.maxSize
  have hlen : (added.rtake c.maxSize ++ [nonce]).length = (added.rtake c.maxSize).length + 1 := by
    rw [List.length_append, List.length_singleton]
  unfold NonceCache.add
  rw [if_neg hnot, h.set_eq, h.queue_eq]
  by_cases hfull : c.maxSize < (added.rtake c.maxSize).length + 1
  · rw [if_pos hfull] at hrtake
    simp only [hlen, if_pos hfull]
    cases hq : added.rtake c.maxSize ++ [nonce] with
    | nil => simp at hq
    | cons old rest =>
      rw [hq] at hlist hmember hrtake
      have hold : old ≠ [] := hmember old List.mem_cons_self
      refine ⟨⟨?_, ?_, ?_, hne'⟩, rfl⟩
      · simp [hold, hrtake]
      · simp [hrtake]
      · rw [hrtake]
        exact (List.nodup_cons.1 hlist).2
  · rw [if_neg hfull] at hrtake
    simp only [hlen, if_neg hfull]
    exact ⟨⟨hrtake.symm, hrtake.symm, hrtake ▸ hlist, hne'⟩, trivial⟩

end Laws

end NonceCache

end Ddns.Optin
