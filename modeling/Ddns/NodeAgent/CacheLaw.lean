import Ddns.NodeAgent.Cache
import Ddns.Lib.Run

/-!
# The order of evictions

The queue is the end of the list of the keys that were set (`Inv.recent`), and holds every key that
is stored (`Inv.queued`). So the counter is right and the limits are kept in every run. `trim`
removes the entries in the order in which they were last set as long as it meets no stale entry of
the queue, left by an earlier set of a key, while another entry that is older than the last set of
that key is stored (`evictsInOrder_iff`).
-/

namespace Ddns.NodeAgent.Cache

open Recency

/-! ## The loop of `trim` -/

section Trim

variable {c : Cache} {h g l : List JsText} {k key : JsText} {item : CachedItem}

/-- The keys that `trim` removes come in the order in which they were last set, and before those
that it leaves; `h` are the keys that were set. -/
def EvictsInOrder (c : Cache) (h l : List JsText) : Prop :=
  (c.evictedFrom l).Pairwise (LastBefore h) ∧
    ∀ k ∈ c.evictedFrom l, ∀ k', (c.trimQueue l).Stores k' → LastBefore h k k'

/-- Where the loop meets an entry of the queue for a key that is stored and is queued again, the
other stored keys were set after the last set of that key. -/
def TrimsInOrder (c : Cache) (l : List JsText) : Prop :=
  ∀ p k q, l = p ++ k :: q → (p.foldl remove c).Over → (p.foldl remove c).Stores k → k ∈ q →
    ∀ k', (p.foldl remove c).Stores k' → k' ≠ k → LastBefore q k k'

theorem trimsInOrder_nil (c : Cache) : c.TrimsInOrder [] := by
  intro p k q heq
  exact absurd heq.symm (List.append_ne_nil_of_right_ne_nil p (List.cons_ne_nil k q))

/-- The first entry of the queue, and the others after it. -/
theorem trimsInOrder_cons : c.TrimsInOrder (key :: l) ↔
    (c.Over → c.Stores key → key ∈ l → ∀ k', c.Stores k' → k' ≠ key → LastBefore l key k') ∧
      (c.remove key).TrimsInOrder l := by
  constructor
  · intro h
    refine ⟨h [] key l rfl, fun p k q heq => h (key :: p) k q ?_⟩
    rw [heq]
    rfl
  · rintro ⟨hfirst, hrest⟩ p k q heq
    cases p with
    | nil =>
      cases heq
      exact hfirst
    | cons x p =>
      cases heq
      exact hrest p k q rfl

/-- A cache within its limits is not trimmed. -/
theorem trimsInOrder_of_not_over (hover : ¬c.Over) (l : List JsText) : c.TrimsInOrder l :=
  fun _ _ _ _ h => absurd (over_of_foldl_remove h) hover

/-- The key at the front was last set before the others, or there is a stale entry of it. -/
theorem lastBefore_front (hq : c.Queued (key :: l)) :
    (∀ k', c.Stores k' → k' ≠ key → LastBefore (g ++ key :: l) key k') ↔
      (key ∈ l → ∀ k', c.Stores k' → k' ≠ key → LastBefore l key k') := by
  have hl (k' : JsText) (hk : c.Stores k') (hne : k' ≠ key) : k' ∈ l :=
    (List.mem_cons.1 (hq k' hk)).resolve_left hne
  constructor
  · intro h hkey k' hk hne
    have hlast := h k' hk hne
    rw [List.append_cons] at hlast
    exact (lastBefore_append hkey).1 hlast
  · intro h k' hk hne
    by_cases hkey : key ∈ l
    · exact (((h hkey k' hk hne).append [key]).append g)
    · exact lastBefore_of_notMem hkey (hl k' hk hne)

/-- **Evictions come in order exactly if the loop does.** -/
theorem evictsInOrder_iff (hq : c.Queued l) : c.EvictsInOrder (g ++ l) l ↔ c.TrimsInOrder l := by
  induction l generalizing c g with
  | nil => exact ⟨fun _ => trimsInOrder_nil c, fun _ => ⟨.nil, fun _ hk => absurd hk List.not_mem_nil⟩⟩
  | cons key l ih =>
    by_cases hover : c.Over
    · have hrest := ih (g := g ++ [key]) hq.remove
      rw [List.append_assoc, List.singleton_append] at hrest
      rw [trimsInOrder_cons, ← hrest]
      by_cases hkey : c.Stores key
      · have hfront := lastBefore_front (g := g) hq
        have hothers (k' : JsText) : (c.Stores k' ∧ k' ≠ key) ↔
            k' ∈ (c.remove key).evictedFrom l ∨ ((c.remove key).trimQueue l).Stores k' := by
          rw [← stores_remove, stores_iff_evictedFrom]
        unfold EvictsInOrder
        rw [evictedFrom, if_pos hover, if_pos hkey, trimQueue_of_over hover, List.pairwise_cons,
          List.forall_mem_cons]
        constructor
        · rintro ⟨⟨hevicted, hpairwise⟩, hleft, hrest⟩
          refine ⟨fun _ _ => hfront.1 fun k' hk hne => ?_, hpairwise, hrest⟩
          rcases (hothers k').1 ⟨hk, hne⟩ with hk | hk
          · exact hevicted k' hk
          · exact hleft k' hk
        · rintro ⟨hloop, hpairwise, hrest⟩
          have hlast := hfront.2 (hloop hover hkey)
          have hall (k' : JsText) (hk : k' ∈ (c.remove key).evictedFrom l ∨
              ((c.remove key).trimQueue l).Stores k') : LastBefore (g ++ key :: l) key k' := by
            obtain ⟨hk, hne⟩ := (hothers k').2 hk
            exact hlast k' hk hne
          exact ⟨⟨fun k' hk => hall k' (.inl hk), hpairwise⟩, fun k' hk => hall k' (.inr hk), hrest⟩
      · unfold EvictsInOrder
        rw [evictedFrom, if_pos hover, if_neg hkey, trimQueue_of_over hover]
        exact ⟨fun h => ⟨fun _ hstores => absurd hstores hkey, h⟩, And.right⟩
    · refine ⟨fun _ => trimsInOrder_of_not_over hover _, fun _ => ?_⟩
      unfold EvictsInOrder
      rw [evictedFrom, if_neg hover]
      exact ⟨.nil, fun _ hk => absurd hk List.not_mem_nil⟩

/-- A single entry that is no larger than the cache is within the limits. -/
theorem not_over_of_single (hc : c.Counted) (hsingle : ∀ k', c.Stores k' → k' = key)
    (hitems : 1 ≤ c.maxItems) (hbytes : ∀ item, c.entries.get key = some item →
      size item.body ≤ c.maxBytes) : ¬c.Over := by
  have hkeys : ∀ e ∈ c.entries.entries, e.1 = key ∧ c.entries.get key = some e.2 := by
    rintro ⟨k, item⟩ hmem
    have hget := FinMap.mem_entries.1 hmem
    have hk : k = key := hsingle k (by unfold Stores; rw [hget]; rfl)
    exact ⟨hk, hk ▸ hget⟩
  have hnodup := c.entries.nodup
  have htotal := hc.total
  unfold storedBytes FinMap.total at htotal
  unfold Over
  rw [htotal]
  cases hes : c.entries.entries with
  | nil => simp
  | cons e es =>
    rw [hes] at hkeys hnodup
    have he := hkeys e List.mem_cons_self
    have hnil : es = [] := by
      rw [List.eq_nil_iff_forall_not_mem]
      intro e' he'
      have hk := (hkeys e' (List.mem_cons_of_mem _ he')).1
      rw [List.map_cons, List.nodup_cons] at hnodup
      exact hnodup.1 (he.1.trans hk.symm ▸ List.mem_map_of_mem he')
    have hsize := hbytes e.2 he.2
    rw [hnil]
    simp only [List.length_cons, List.length_nil, List.map_cons, List.map_nil, List.sum_cons,
      List.sum_nil]
    omega

/-- The key that was set last is not trimmed. -/
theorem stays (hc : c.Counted) (hq : c.Queued (l ++ [key])) (hloop : c.TrimsInOrder (l ++ [key]))
    (hitems : 1 ≤ c.maxItems) (hget : c.entries.get key = some item)
    (hbytes : size item.body ≤ c.maxBytes) :
    (c.trimQueue (l ++ [key])).entries.get key = some item := by
  induction l generalizing c with
  | nil =>
    have hover : ¬c.Over := by
      refine not_over_of_single hc (fun k' hk => List.mem_singleton.1 (hq k' hk)) hitems ?_
      intro it hit
      rw [hget] at hit
      exact Option.some.inj hit ▸ hbytes
    rw [List.nil_append, trimQueue_of_not_over hover]
    exact hget
  | cons k l ih =>
    by_cases hover : c.Over
    · rw [List.cons_append] at hq hloop ⊢
      rw [trimQueue_of_over hover]
      obtain ⟨hfirst, hrest⟩ := trimsInOrder_cons.1 hloop
      have hne : key ≠ k := by
        -- otherwise no other key is stored, and the cache is within its limits
        rintro rfl
        have hstores : c.Stores key := by unfold Stores; rw [hget]; rfl
        have hmem : key ∈ l ++ [key] := List.mem_append_right l List.mem_cons_self
        have hsingle : ∀ k', c.Stores k' → k' = key := by
          intro k' hk
          by_contra hne
          exact not_lastBefore_concat (hfirst hover hstores hmem k' hk hne)
        refine not_over_of_single hc hsingle hitems (fun it hit => ?_) hover
        rw [hget] at hit
        exact Option.some.inj hit ▸ hbytes
      refine ih (hc.remove k) hq.remove hrest ?_ ?_ ?_
      · rw [remove_maxItems]
        exact hitems
      · rw [get_remove, if_neg hne]
        exact hget
      · rw [remove_maxBytes]
        exact hbytes
    · rw [trimQueue_of_not_over hover]
      exact hget

end Trim

/-! ## Runs -/

/-- What a call of `set` trims: the cache with the new item, where the body fits and its expiry is
an `Instant`. -/
def inserted (instantMax : Nat) (c : Cache) : Call → Option Cache
  | .get _ _ => none
  | .set now key body ttl resultHash =>
    if c.maxBytes < size body then none
    else if instantMax < now + ttl then none
    else some (c.insert key (itemOf now body ttl resultHash))

/-- The keys that were set, with the one that a call sets. -/
def observe (instantMax : Nat) (h : List JsText) (e : Runs.Event Cache Call Answer) :
    List JsText :=
  match e.input, inserted instantMax e.pre e.input with
  | .set _ key _ _ _, some _ => h ++ [key]
  | _, _ => h

/-- What a call is to do: the counter is right and the limits are kept, `get` answers and keeps the
items that are not expired and drops the others, `set` stores an item that fits, leaves the other
entries or evicts them, and evicts in the order of the last sets. -/
structure Lawful (instantMax maxItems maxBytes : Nat) (h : List JsText)
    (e : Runs.Event Cache Call Answer) : Prop where
  bytes : e.post.currentBytes = e.post.storedBytes
  items : e.post.entries.entries.length ≤ maxItems
  fits : e.post.currentBytes ≤ maxBytes
  answer : ∀ now key, e.input = .get now key → ∃ found, e.out = .item found ∧ ∀ item,
    found = some item ↔ e.pre.entries.get key = some item ∧ now < item.expiresAt
  expiry : ∀ now key, e.input = .get now key → ∀ k item,
    e.post.entries.get k = some item ↔ e.pre.entries.get k = some item ∧ now < item.expiresAt
  stored : ∀ now key body ttl resultHash, e.input = .set now key body ttl resultHash →
    size body ≤ maxBytes →
      e.out = .done ∧ e.post.entries.get key = some (itemOf now body ttl resultHash)
  others : ∀ now key body ttl resultHash, e.input = .set now key body ttl resultHash →
    ∀ k, k ≠ key → e.post.entries.get k = e.pre.entries.get k ∨ e.post.entries.get k = none
  order : ∀ d, inserted instantMax e.pre e.input = some d → d.EvictsInOrder h d.order

/-- The condition on a call: the expiry of an item that fits is an `Instant`, and the trimming meets
no stale entry of the queue while an older entry is stored. -/
def InOrder (instantMax : Nat) (c : Cache) : Call → Prop
  | .get _ _ => True
  | .set now key body ttl resultHash => size body ≤ c.maxBytes → now + ttl ≤ instantMax ∧
      (c.insert key (itemOf now body ttl resultHash)).TrimsInOrder (c.order ++ [key])

/-- What holds in every run: the queue is the end of the list of the keys that were set. -/
structure Inv (maxItems maxBytes : Nat) (c : Cache) (h : List JsText) : Prop where
  maxItems_eq : c.maxItems = maxItems
  maxBytes_eq : c.maxBytes = maxBytes
  counted : c.Counted
  queued : c.Queued c.order
  recent : ∃ g, h = g ++ c.order
  within : ¬c.Over

section Runs

variable {instantMax maxItems maxBytes now ttl : Nat} {c d : Cache} {h : List JsText}
  {key body resultHash : JsText} {item : CachedItem} {call : Call}

theorem inv_new (maxItems maxBytes : Nat) : Inv maxItems maxBytes (new maxItems maxBytes) [] where
  maxItems_eq := rfl
  maxBytes_eq := rfl
  counted := ⟨rfl, fun _ _ hget => nomatch hget⟩
  queued := fun _ hk => nomatch hk
  recent := ⟨[], rfl⟩
  within := by
    rintro (hlt | hlt)
    · exact Nat.not_lt_zero _ hlt
    · exact Nat.not_lt_zero _ hlt

/-- Removing keys keeps the invariant. -/
theorem Inv.remove (hinv : Inv maxItems maxBytes c h) (key : JsText) :
    Inv maxItems maxBytes (c.remove key) h where
  maxItems_eq := (remove_maxItems c key).trans hinv.maxItems_eq
  maxBytes_eq := (remove_maxBytes c key).trans hinv.maxBytes_eq
  counted := hinv.counted.remove key
  queued := by
    intro k hk
    rw [remove_order]
    exact hinv.queued k (stores_remove.1 hk).1
  recent := by
    rw [remove_order]
    exact hinv.recent
  within := fun hover => hinv.within (over_of_remove hover)

theorem Inv.evictExpired (hinv : Inv maxItems maxBytes c h) (now : Nat) :
    Inv maxItems maxBytes (c.evictExpired now) h :=
  foldl_remove_inv (P := fun c => Inv maxItems maxBytes c h) (fun _ key hc => hc.remove key) _ hinv

theorem queued_insert (hinv : Inv maxItems maxBytes c h) (key : JsText) (item : CachedItem) :
    (c.insert key item).Queued (c.order ++ [key]) := by
  intro k hk
  change ((c.entries.set key item).get k).isSome at hk
  rw [FinMap.get_set] at hk
  split at hk
  · next heq => exact heq ▸ List.mem_append_right _ List.mem_cons_self
  · exact List.mem_append_left _ (hinv.queued k hk)

theorem Inv.set (hinv : Inv maxItems maxBytes c h) (key : JsText) (hitem : item.bytes = size item.body) :
    Inv maxItems maxBytes (c.insert key item).trim (h ++ [key]) := by
  have hcounted := hinv.counted.insert key hitem
  have hqueued := queued_insert hinv key item
  obtain ⟨g, rfl⟩ := hinv.recent
  obtain ⟨p, hp⟩ := trimQueue_order (c.insert key item) (c.order ++ [key])
  exact {
    maxItems_eq := trimQueue_inv (P := fun c => c.maxItems = maxItems)
      (fun c key hc => (remove_maxItems c key).trans hc) (fun _ _ hc => hc) _ hinv.maxItems_eq
    maxBytes_eq := trimQueue_inv (P := fun c => c.maxBytes = maxBytes)
      (fun c key hc => (remove_maxBytes c key).trans hc) (fun _ _ hc => hc) _ hinv.maxBytes_eq
    counted := trimQueue_inv (fun c key hc => hc.remove key) (fun _ _ hc => ⟨hc.total, hc.item⟩) _
      hcounted
    queued := queued_trimQueue hqueued
    recent := ⟨g ++ p, by rw [List.append_assoc, List.append_assoc]; exact congrArg (g ++ ·) hp⟩
    within := trimQueue_not_over hcounted hqueued }

/-- A call that stores: its body fits, and its expiry is an `Instant`. -/
theorem inserted_set (key resultHash : JsText) (hfits : size body ≤ c.maxBytes)
    (hdue : now + ttl ≤ instantMax) :
    inserted instantMax c (.set now key body ttl resultHash) =
      some (c.insert key (itemOf now body ttl resultHash)) := by
  rw [inserted, if_neg (Nat.not_lt.2 hfits), if_neg (Nat.not_lt.2 hdue)]

theorem set_of_stores (hfits : size body ≤ c.maxBytes) (hdue : now + ttl ≤ instantMax) :
    c.set instantMax now key body ttl resultHash =
      ((c.insert key (itemOf now body ttl resultHash)).trim, .done) := by
  rw [Cache.set, if_neg (Nat.not_lt.2 hfits), if_neg (Nat.not_lt.2 hdue)]

/-- Another call of `set` leaves the cache. -/
theorem set_of_not_stores (key resultHash : JsText)
    (h : ¬(size body ≤ c.maxBytes ∧ now + ttl ≤ instantMax)) :
    inserted instantMax c (.set now key body ttl resultHash) = none ∧
      (c.set instantMax now key body ttl resultHash).1 = c ∧
      (size body ≤ c.maxBytes → (c.set instantMax now key body ttl resultHash).2 = .panicked) := by
  rw [inserted, Cache.set]
  by_cases hfits : c.maxBytes < size body
  · rw [if_pos hfits, if_pos hfits]
    exact ⟨rfl, rfl, fun hle => absurd hle (Nat.not_le.2 hfits)⟩
  · have hdue : instantMax < now + ttl := by omega
    rw [if_neg hfits, if_neg hfits, if_pos hdue, if_pos hdue]
    exact ⟨rfl, rfl, fun _ => rfl⟩

theorem inv_step (instantMax : Nat) (hinv : Inv maxItems maxBytes c h) (call : Call) :
    Inv maxItems maxBytes (step instantMax c call).1
      (observe instantMax h (Runs.event (step instantMax) c call)) := by
  cases call with
  | get now key => exact hinv.evictExpired now
  | set now key body ttl resultHash =>
    by_cases hstores : size body ≤ c.maxBytes ∧ now + ttl ≤ instantMax
    · unfold observe
      rw [Runs.event_input, Runs.event_pre, inserted_set key resultHash hstores.1 hstores.2, step,
        set_of_stores hstores.1 hstores.2]
      exact hinv.set key rfl
    · obtain ⟨hinserted, hpost, -⟩ := set_of_not_stores key resultHash hstores
      unfold observe
      rw [Runs.event_input, Runs.event_pre, hinserted, step, hpost]
      exact hinv

/-- The limits are kept and the bytes are counted. -/
theorem Inv.limits (hinv : Inv maxItems maxBytes c h) : c.currentBytes = c.storedBytes ∧
    c.entries.entries.length ≤ maxItems ∧ c.currentBytes ≤ maxBytes := by
  have hwithin := hinv.within
  unfold Over at hwithin
  rw [hinv.maxItems_eq, hinv.maxBytes_eq, not_or, Nat.not_lt, Nat.not_lt] at hwithin
  exact ⟨hinv.counted.total, hwithin⟩

theorem lawful_get (hinv : Inv maxItems maxBytes c h) (now : Nat) (key : JsText) :
    Lawful instantMax maxItems maxBytes (observe instantMax h
      (Runs.event (step instantMax) c (.get now key)))
      (Runs.event (step instantMax) c (.get now key)) := by
  obtain ⟨hbytes, hitems, hfits⟩ := (hinv.evictExpired now).limits
  exact {
    bytes := hbytes
    items := hitems
    fits := hfits
    answer := by
      rintro _ _ ⟨rfl, rfl⟩
      exact ⟨_, rfl, fun item => get_evictExpired⟩
    expiry := by
      rintro _ _ ⟨rfl, rfl⟩ k item
      exact get_evictExpired
    stored := nofun
    others := nofun
    order := nofun }

/-- What is stored for other keys than the one that is set. -/
theorem get_insert_ne (c : Cache) (item : CachedItem) {k : JsText} (hne : k ≠ key) :
    (c.insert key item).entries.get k = c.entries.get k := FinMap.get_set_ne c.entries item hne

/-- A call of `set` that stores does what it is to do exactly if the trimming meets no stale entry
while an older one is stored. -/
theorem lawful_set_iff (hinv : Inv maxItems maxBytes c h) (hone : 1 ≤ maxItems)
    (hfits : size body ≤ c.maxBytes) (hdue : now + ttl ≤ instantMax) :
    Lawful instantMax maxItems maxBytes (observe instantMax h
      (Runs.event (step instantMax) c (.set now key body ttl resultHash)))
      (Runs.event (step instantMax) c (.set now key body ttl resultHash)) ↔
    (c.insert key (itemOf now body ttl resultHash)).TrimsInOrder (c.order ++ [key]) := by
  have hpost : step instantMax c (.set now key body ttl resultHash) =
    ((c.insert key (itemOf now body ttl resultHash)).trim, .done) := set_of_stores hfits hdue
  have hinserted := inserted_set key resultHash hfits hdue
  have hqueued := queued_insert hinv key (itemOf now body ttl resultHash)
  have hafter := inv_step instantMax hinv (.set now key body ttl resultHash)
  have hobserve : observe instantMax h (Runs.event (step instantMax) c
      (.set now key body ttl resultHash)) = h ++ [key] := by
    unfold observe
    rw [Runs.event_input, Runs.event_pre, hinserted]
  obtain ⟨g, rfl⟩ := hinv.recent
  rw [← evictsInOrder_iff (g := g) hqueued, hobserve]
  rw [hobserve] at hafter
  constructor
  · intro hlaw
    have horder := hlaw.order _ hinserted
    rw [List.append_assoc] at horder
    exact horder
  · intro horder
    obtain ⟨hbytes, hitems, hlimit⟩ := hafter.limits
    have hstays := stays (hinv.counted.insert key rfl) hqueued
      ((evictsInOrder_iff hqueued).1 horder) (hinv.maxItems_eq.symm ▸ hone)
      (FinMap.get_set_self c.entries key (itemOf now body ttl resultHash)) hfits
    exact {
      bytes := hbytes
      items := hitems
      fits := hlimit
      answer := nofun
      expiry := nofun
      stored := by
        rintro _ _ _ _ _ ⟨rfl, rfl, rfl, rfl, rfl⟩ -
        rw [Runs.event_out, Runs.event_post, hpost]
        exact ⟨rfl, hstays⟩
      others := by
        rintro _ _ _ _ _ ⟨rfl, rfl, rfl, rfl, rfl⟩ k hne
        rw [Runs.event_post, hpost, Runs.event_pre, ← get_insert_ne c _ hne]
        exact get_trimQueue _ _ k
      order := by
        intro d hd
        rw [Runs.event_pre, Runs.event_input, hinserted, Option.some.injEq] at hd
        rw [← hd, List.append_assoc]
        exact horder }

/-- **A call does what it is to do exactly if it meets the condition.** -/
theorem lawful_iff (hinv : Inv maxItems maxBytes c h) (hone : 1 ≤ maxItems) (call : Call) :
    Lawful instantMax maxItems maxBytes (observe instantMax h
      (Runs.event (step instantMax) c call)) (Runs.event (step instantMax) c call) ↔
    InOrder instantMax c call := by
  cases call with
  | get now key => exact ⟨fun _ => trivial, fun _ => lawful_get hinv now key⟩
  | set now key body ttl resultHash =>
    by_cases hstores : size body ≤ c.maxBytes ∧ now + ttl ≤ instantMax
    · rw [lawful_set_iff hinv hone hstores.1 hstores.2]
      exact ⟨fun h _ => ⟨hstores.2, h⟩, fun h => (h hstores.1).2⟩
    · have hafter := inv_step instantMax hinv (.set now key body ttl resultHash)
      obtain ⟨hbytes, hitems, hlimit⟩ := hafter.limits
      obtain ⟨hinserted, hpost, hanswer⟩ :=
        set_of_not_stores key resultHash hstores
      constructor
      · intro hlaw hfits
        have hdone := (hlaw.stored now key body ttl resultHash rfl (hinv.maxBytes_eq ▸ hfits)).1
        cases hdone.symm.trans (hanswer hfits)
      · intro horder
        exact {
          bytes := hbytes
          items := hitems
          fits := hlimit
          answer := nofun
          expiry := nofun
          stored := by
            rintro _ _ _ _ _ ⟨rfl, rfl, rfl, rfl, rfl⟩ hfits
            have hle := hinv.maxBytes_eq.symm ▸ hfits
            exact absurd ⟨hle, (horder hle).1⟩ hstores
          others := by
            rintro _ _ _ _ _ ⟨rfl, rfl, rfl, rfl, rfl⟩ k -
            exact .inl (congrArg (fun c => c.entries.get k) hpost)
          order := by
            intro d hd
            cases hinserted.symm.trans hd }

/-- The invariant holds after every run. -/
theorem inv_exec (instantMax : Nat) (hinv : Inv maxItems maxBytes c h) (calls : List Call) :
    ∃ h', Inv maxItems maxBytes (Runs.exec (step instantMax) c calls) h' := by
  induction calls generalizing c h with
  | nil => exact ⟨h, hinv⟩
  | cons call calls ih => exact ih (inv_step instantMax hinv call)

/-- A call of `set` that changes what is stored for a key. -/
def Displaces (key : JsText) (e : Runs.Event Cache Call Answer) : Prop :=
  (∃ now k body ttl resultHash, e.input = .set now k body ttl resultHash) ∧
    e.post.entries.get key ≠ e.pre.entries.get key

/-- An item stays until it expires, unless a call of `set` displaces it. -/
theorem retained {calls : List Call} (hget : c.entries.get key = some item)
    (htime : ∀ call ∈ calls, call.time < item.expiresAt)
    (hkeep : ∀ e ∈ Runs.trace (step instantMax) c calls, ¬Displaces key e) :
    (Runs.exec (step instantMax) c calls).entries.get key = some item := by
  induction calls generalizing c with
  | nil => exact hget
  | cons call calls ih =>
    rw [Runs.trace_cons, List.forall_mem_cons] at hkeep
    rw [List.forall_mem_cons] at htime
    refine ih ?_ htime.2 hkeep.2
    cases call with
    | get now k => exact get_evictExpired.2 ⟨hget, htime.1⟩
    | set now k body ttl resultHash =>
      have hsame := hkeep.1
      rw [Displaces, not_and, not_not] at hsame
      exact (hsame ⟨now, k, body, ttl, resultHash, rfl⟩).trans hget

/-- Every call of a run does what it is to do, seen next to the keys that were set. -/
def AllLawful (instantMax maxItems maxBytes : Nat) (calls : List Call) : Prop :=
  Runs.Each (Runs.monitored (step instantMax) (observe instantMax))
    (fun sg call => Lawful instantMax maxItems maxBytes
      (observe instantMax sg.2 (Runs.event (step instantMax) sg.1 call))
      (Runs.event (step instantMax) sg.1 call))
    (new maxItems maxBytes, []) calls

/-- A body that fits is retrievable from its `set` until its own ttl, unless a later `set` displaces
it. -/
def Retrievable (instantMax maxItems maxBytes : Nat) (calls : List Call) : Prop :=
  ∀ before now key body ttl resultHash later now' after,
    calls = before ++ .set now key body ttl resultHash :: (later ++ .get now' key :: after) →
    size body ≤ maxBytes → now' < now + ttl →
    (∀ e ∈ Runs.trace (step instantMax)
      (Runs.exec (step instantMax) (new maxItems maxBytes)
        (before ++ [.set now key body ttl resultHash])) later, ¬Displaces key e) →
    (step instantMax (Runs.exec (step instantMax) (new maxItems maxBytes)
      (before ++ .set now key body ttl resultHash :: later)) (.get now' key)).2 =
        .item (some (itemOf now body ttl resultHash))

theorem allLawful_iff (instantMax : Nat) (hinv : Inv maxItems maxBytes c h) (hone : 1 ≤ maxItems)
    (calls : List Call) :
    Runs.Each (Runs.monitored (step instantMax) (observe instantMax))
      (fun sg call => Lawful instantMax maxItems maxBytes
        (observe instantMax sg.2 (Runs.event (step instantMax) sg.1 call))
        (Runs.event (step instantMax) sg.1 call)) (c, h) calls ↔
    Runs.Each (step instantMax) (InOrder instantMax) c calls := by
  induction calls generalizing c h with
  | nil => exact Iff.rfl
  | cons call calls ih =>
    rw [Runs.each_cons, Runs.each_cons, lawful_iff hinv hone]
    exact and_congr_right fun _ => ih (inv_step instantMax hinv call)

theorem retrievable_of_inOrder (hone : 1 ≤ maxItems) {calls : List Call}
    (hclock : (calls.map Call.time).Pairwise (· ≤ ·))
    (horder : Runs.Each (step instantMax) (InOrder instantMax) (new maxItems maxBytes) calls) :
    Retrievable instantMax maxItems maxBytes calls := by
  rintro before now key body ttl resultHash later now' after rfl hfits hlt hkeep
  obtain ⟨h, hinv⟩ := inv_exec instantMax (inv_new maxItems maxBytes) before
  rw [Runs.each_append, Runs.each_cons] at horder
  have hstored := (((lawful_iff hinv hone _).2 horder.2.1).stored now key body ttl resultHash rfl
    hfits).2
  rw [Runs.event_post] at hstored
  rw [Runs.exec_append, Runs.exec_cons, Runs.exec_nil] at hkeep
  rw [Runs.exec_append, Runs.exec_cons]
  have htime : ∀ call ∈ later, call.time < (itemOf now body ttl resultHash).expiresAt := by
    intro call hcall
    rw [List.map_append, List.map_cons, List.map_append, List.map_cons, List.pairwise_append,
      List.pairwise_cons, List.pairwise_append] at hclock
    have hle := hclock.2.1.2.2.2 call.time (List.mem_map_of_mem hcall) now' List.mem_cons_self
    exact lt_of_le_of_lt hle hlt
  have hretained := retained hstored htime hkeep
  exact congrArg Answer.item (get_evictExpired.2 ⟨hretained, hlt⟩)

/-- **In every run the cache does what it is to do exactly if every call meets the condition.** -/
theorem cache_iff (instantMax maxBytes : Nat) (hone : 1 ≤ maxItems) {calls : List Call}
    (hclock : (calls.map Call.time).Pairwise (· ≤ ·)) :
    (AllLawful instantMax maxItems maxBytes calls ∧ Retrievable instantMax maxItems maxBytes calls) ↔
      Runs.Each (step instantMax) (InOrder instantMax) (new maxItems maxBytes) calls := by
  have hiff := allLawful_iff instantMax (inv_new maxItems maxBytes) hone calls
  exact ⟨fun h => hiff.1 h.1, fun h => ⟨hiff.2 h, retrievable_of_inOrder hone hclock h⟩⟩

end Runs

/-! ## A stale entry -/

/-- One key is set twice, with another key in between. -/
def exampleCalls : List Call :=
  [.set 0 ['a'] ['1'] 60 [], .set 1 ['b'] ['1'] 60 [], .set 2 ['a'] ['1', '2', '3'] 60 []]

/-- The second item of the key does not fit next to the other key: `trim` takes the first entry of
the queue, which is of the same key, and removes the new item. -/
theorem cache_broken : ¬∀ instantMax maxItems maxBytes calls, 1 ≤ maxItems →
    (calls.map Call.time).Pairwise (· ≤ ·) → AllLawful instantMax maxItems maxBytes calls ∧
      Retrievable instantMax maxItems maxBytes calls := by
  intro h
  have hlaw := (h 1000 2 3 exampleCalls (by decide) (by decide)).1.2.2.1
  have hstored := (hlaw.stored 2 ['a'] ['1', '2', '3'] 60 [] rfl (by decide)).2
  exact absurd hstored (by decide)

/-- With room for one entry, the second key evicts the first. -/
theorem exampleCalls_inOrder :
    AllLawful 1000 1 3 (exampleCalls.take 2) ∧ Retrievable 1000 1 3 (exampleCalls.take 2) := by
  refine (cache_iff 1000 3 (by decide) (by decide)).2 ⟨fun _ => ⟨by decide, ?_⟩,
    fun _ => ⟨by decide, ?_⟩, trivial⟩
  · exact trimsInOrder_of_not_over (by decide) _
  · exact trimsInOrder_cons.2 ⟨fun _ _ hmem => absurd hmem (by decide),
      trimsInOrder_of_not_over (by decide) _⟩

end Ddns.NodeAgent.Cache
