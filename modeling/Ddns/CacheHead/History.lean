import Ddns.CacheHead.Program

/-!
# The history of a cache head

`head_law` says what a head can become in every run: only the key that was named when the head was
initialised changes it, and while it is disabled its content stays. The epoch is what the owner says:
it goes down exactly when an accepted `set_cache_head` gives an earlier one.
-/

namespace Ddns.CacheHead

open Tx Runs

/-- The step is an accepted transaction of `i`. -/
def Step.Accepts (e : Step) (i : Instr) : Prop := e.input = .submit i ∧ e.out = some (.ok ())

/-- Someone writes the head of `p`, signing as `k`. -/
inductive Writes (p : Hash) (k : Pubkey) : Instr → Prop
  | setCacheHead {s : Signer} {root cid : Hash} {epoch : UInt64} (hs : s.key = k) :
    Writes p k (.setCacheHead s p root cid epoch)
  | setCacheHeadEnabled {s : Signer} {enabled : Bool} (hs : s.key = k) :
    Writes p k (.setCacheHeadEnabled s p enabled)

/-- The events of the program from the start. -/
abbrev events (clock : Clock) (is : List (Action Instr)) : List Step :=
  trace step ⟨clock, .genesis⟩ is

/-- Only the key that is named when the head of `p` is initialised changes it. -/
structure Owned (p : Hash) (es : List Step) : Prop where
  named : ∀ e ∈ es, ∀ h, e.pre.accounts p = none → e.post.accounts p = some h →
    e.Accepts (.initCacheHead p h.parentOwner)
  changed : ∀ es₁ e₀ es₂ o, es = es₁ ++ e₀ :: es₂ → e₀.Accepts (.initCacheHead p o) →
    ∀ e ∈ es₂, ∃ h h', e.pre.accounts p = some h ∧ e.post.accounts p = some h' ∧
      (h' = h ∨ ∃ i, Writes p o i ∧ e.Accepts i)

/-- **No rollback** of the head of `p`: the epoch never decreases, a disabled head is only enabled
again, and only its owner changes it. -/
structure NoRollback (p : Hash) (es : List Step) : Prop where
  monotone : ∀ e ∈ es, ∀ h h', e.pre.accounts p = some h → e.post.accounts p = some h' →
    h.epochId ≤ h'.epochId
  frozen : ∀ e ∈ es, ∀ h h', e.pre.accounts p = some h → e.post.accounts p = some h' →
    h.enabled = false → h' = h ∨ h' = { h with enabled := true, updatedAtSlot := h'.updatedAtSlot }
  owned : Owned p es

/-- **The head of `p`** is as its owner leaves it. -/
structure HeadLaw (p : Hash) (es : List Step) : Prop where
  /-- The epoch goes down exactly when the owner publishes an earlier one. -/
  decreases_iff : ∀ e ∈ es, ∀ h h', e.pre.accounts p = some h → e.post.accounts p = some h' →
    (h'.epochId < h.epochId ↔
      ∃ s root cid epoch, e.Accepts (.setCacheHead s p root cid epoch) ∧ epoch < h.epochId)
  /-- What is published is what an accepted `set_cache_head` gives. -/
  published : ∀ e ∈ es, ∀ h h', e.pre.accounts p = some h → e.post.accounts p = some h' →
    (h'.cacheRoot = h.cacheRoot ∧ h'.cidHash = h.cidHash ∧ h'.epochId = h.epochId) ∨
      ∃ s, e.Accepts (.setCacheHead s p h'.cacheRoot h'.cidHash h'.epochId)
  /-- While the head is disabled, only `enabled` and the slot are written. -/
  frozen : ∀ e ∈ es, ∀ h h', e.pre.accounts p = some h → e.post.accounts p = some h' →
    h.enabled = false → h' = { h with enabled := h'.enabled, updatedAtSlot := h'.updatedAtSlot }
  owned : Owned p es

section Steps

variable {clock : Clock} {p : Hash} {i : Instr} {h h' : DomainCacheHead}

/-! ## One instruction -/

theorem effect_decreases_iff (heff : Effect clock p i (some h) (some h')) :
    h'.epochId < h.epochId ↔
      ∃ s root cid epoch, i = .setCacheHead s p root cid epoch ∧ epoch < h.epochId := by
  cases heff with
  | other hi =>
    refine iff_of_false (UInt64.lt_irrefl _) ?_
    rintro ⟨s, root, cid, epoch, rfl, -⟩
    exact hi rfl
  | @setCacheHead s root cid epoch head henabled howner =>
    constructor
    · intro hlt
      exact ⟨s, root, cid, epoch, rfl, hlt⟩
    · rintro ⟨s', root', cid', epoch', heq, hlt⟩
      cases heq
      exact hlt
  | setCacheHeadEnabled howner =>
    refine iff_of_false (UInt64.lt_irrefl _) ?_
    rintro ⟨s, root, cid, epoch, heq, -⟩
    cases heq

theorem effect_published (heff : Effect clock p i (some h) (some h')) :
    (h'.cacheRoot = h.cacheRoot ∧ h'.cidHash = h.cidHash ∧ h'.epochId = h.epochId) ∨
      ∃ s, i = .setCacheHead s p h'.cacheRoot h'.cidHash h'.epochId := by
  cases heff with
  | other hi => exact .inl ⟨rfl, rfl, rfl⟩
  | setCacheHead henabled howner => exact .inr ⟨_, rfl⟩
  | setCacheHeadEnabled howner => exact .inl ⟨rfl, rfl, rfl⟩

/-- The content of a disabled head stays. -/
theorem effect_frozen (heff : Effect clock p i (some h) (some h')) (hdisabled : h.enabled = false) :
    h' = { h with enabled := h'.enabled, updatedAtSlot := h'.updatedAtSlot } := by
  cases heff with
  | other hi => rfl
  | setCacheHead henabled howner =>
    rw [hdisabled] at henabled
    cases henabled
  | setCacheHeadEnabled howner => rfl

/-- A head stays, and whoever changes it signs as its owner. -/
theorem effect_owned {head : Option DomainCacheHead} (heff : Effect clock p i (some h) head) :
    ∃ h', head = some h' ∧ h'.parentOwner = h.parentOwner ∧ (h' = h ∨ Writes p h.parentOwner i) := by
  cases heff with
  | other hi => exact ⟨h, rfl, rfl, .inl rfl⟩
  | setCacheHead henabled howner => exact ⟨_, rfl, rfl, .inr (.setCacheHead howner.symm)⟩
  | setCacheHeadEnabled howner => exact ⟨_, rfl, rfl, .inr (.setCacheHeadEnabled howner.symm)⟩

theorem effect_named (heff : Effect clock p i none (some h')) : i = .initCacheHead p h'.parentOwner := by
  cases heff with
  | initCacheHead o => rfl

theorem effect_initialises {o : Pubkey} {head head' : Option DomainCacheHead}
    (heff : Effect clock p (.initCacheHead p o) head head') :
    ∃ h, head' = some h ∧ h.parentOwner = o := by
  cases heff with
  | other hi => exact absurd rfl hi
  | initCacheHead o => exact ⟨_, rfl, rfl⟩

end Steps

/-! ## Every run -/

section Run

variable {c : Chain State} {is : List (Action Instr)} {e : Step} {p : Hash} {h h' : DomainCacheHead}

/-- What an event does to the head at `p`. -/
theorem event_effect (he : e ∈ trace step c is) (p : Hash) :
    (e.post.accounts p = e.pre.accounts p ∧ ∀ i, ¬e.Accepts i) ∨ ∃ i, e.Accepts i ∧
      Effect e.pre.clock p i (e.pre.accounts p) (e.post.accounts p) := by
  obtain ⟨pre, a, post, -, rfl⟩ := mem_trace he
  rcases step_effect (exec step c pre) a p with ⟨hsame, hout⟩ | ⟨i, ha, hout, heff⟩
  · exact .inl ⟨hsame, fun i hi => hout hi.2⟩
  · exact .inr ⟨i, ⟨ha, hout⟩, heff⟩

theorem Step.Accepts.eq {i j : Instr} (hi : e.Accepts i) (hj : e.Accepts j) : i = j :=
  Action.submit.inj (hi.1.symm.trans hj.1)

/-- An event keeps the head and its owner. -/
theorem event_owned (he : e ∈ trace step c is) (hpre : e.pre.accounts p = some h) :
    ∃ h', e.post.accounts p = some h' ∧ h'.parentOwner = h.parentOwner ∧
      (h' = h ∨ ∃ i, Writes p h.parentOwner i ∧ e.Accepts i) := by
  rcases event_effect he p with ⟨hsame, -⟩ | ⟨i, hi, heff⟩
  · exact ⟨h, hsame.trans hpre, rfl, .inl rfl⟩
  · rw [hpre] at heff
    obtain ⟨h', hpost, howner, hwrites⟩ := effect_owned heff
    exact ⟨h', hpost, howner, hwrites.imp_right fun hw => ⟨i, hw, hi⟩⟩

/-- The head of `p` has the owner `o`. -/
def OwnedBy (p : Hash) (o : Pubkey) (c : Chain State) : Prop :=
  ∃ h, c.accounts p = some h ∧ h.parentOwner = o

theorem ownedBy_step {o : Pubkey} (c : Chain State) (a : Action Instr) (h : OwnedBy p o c) :
    OwnedBy p o (step c a).1 := by
  obtain ⟨head, hhead, rfl⟩ := h
  have he : event step c a ∈ trace step c [a] := List.mem_cons_self
  obtain ⟨head', hpost, howner, -⟩ := event_owned he hhead
  exact ⟨head', hpost, howner⟩

/-- An accepted initialisation names the owner. -/
theorem ownedBy_of_accepts {o : Pubkey} (he : e ∈ trace step c is)
    (hinit : e.Accepts (.initCacheHead p o)) : OwnedBy p o e.post := by
  rcases event_effect he p with ⟨-, hnot⟩ | ⟨i, hi, heff⟩
  · exact absurd hinit (hnot _)
  · obtain rfl := hi.eq hinit
    exact effect_initialises heff

theorem owned_trace (p : Hash) (c : Chain State) (is : List (Action Instr)) :
    Owned p (trace step c is) := by
  constructor
  · intro e he h hpre hpost
    rcases event_effect he p with ⟨hsame, -⟩ | ⟨i, hi, heff⟩
    · rw [hpre, hpost] at hsame
      cases hsame
    · rw [hpre, hpost] at heff
      rwa [effect_named heff] at hi
  · intro es₁ e₀ es₂ o hsplit hinit e he
    have he₀ : e₀ ∈ trace step c is := by
      rw [hsplit]
      exact List.mem_append_right _ List.mem_cons_self
    have he' : e ∈ trace step c is := by
      rw [hsplit]
      exact List.mem_append_right _ (List.mem_cons_of_mem _ he)
    obtain ⟨h, hpre, rfl⟩ := stays_after ownedBy_step hsplit (ownedBy_of_accepts he₀ hinit) he
    obtain ⟨h', hpost, -, hwrites⟩ := event_owned he' hpre
    exact ⟨h, h', hpre, hpost, hwrites⟩

end Run

/-- **What a head can become**, in every run. -/
theorem head_law (p : Hash) (clock : Clock) (is : List (Action Instr)) :
    HeadLaw p (events clock is) := by
  refine ⟨fun e he h h' hpre hpost => ?_, fun e he h h' hpre hpost => ?_,
    fun e he h h' hpre hpost hdisabled => ?_, owned_trace p _ is⟩
  · rcases event_effect he p with ⟨hsame, hnot⟩ | ⟨i, hi, heff⟩
    · obtain rfl : h' = h := Option.some.inj (hpost.symm.trans (hsame.trans hpre))
      refine iff_of_false (UInt64.lt_irrefl _) ?_
      rintro ⟨s, root, cid, epoch, haccepts, -⟩
      exact hnot _ haccepts
    · rw [hpre, hpost] at heff
      rw [effect_decreases_iff heff]
      constructor
      · rintro ⟨s, root, cid, epoch, rfl, hlt⟩
        exact ⟨s, root, cid, epoch, hi, hlt⟩
      · rintro ⟨s, root, cid, epoch, haccepts, hlt⟩
        exact ⟨s, root, cid, epoch, hi.eq haccepts, hlt⟩
  · rcases event_effect he p with ⟨hsame, -⟩ | ⟨i, hi, heff⟩
    · obtain rfl : h' = h := Option.some.inj (hpost.symm.trans (hsame.trans hpre))
      exact .inl ⟨rfl, rfl, rfl⟩
    · rw [hpre, hpost] at heff
      refine (effect_published heff).imp_right ?_
      rintro ⟨s, rfl⟩
      exact ⟨s, hi⟩
  · rcases event_effect he p with ⟨hsame, -⟩ | ⟨i, hi, heff⟩
    · obtain rfl : h' = h := Option.some.inj (hpost.symm.trans (hsame.trans hpre))
      rfl
    · rw [hpre, hpost] at heff
      exact effect_frozen heff hdisabled

/-! ## Example -/

def exampleOwner : Signer := ⟨1, one_ne_default⟩

/-- The owner publishes for epoch 5. -/
def exampleStart : List (Action Instr) :=
  [.submit (.initCacheHead 7 exampleOwner.key), .submit (.setCacheHead exampleOwner 7 11 12 5)]

/-- Then the owner publishes for epoch 3. -/
def exampleEarlier : Action Instr := .submit (.setCacheHead exampleOwner 7 21 22 3)

theorem exampleEarlier_not_noRollback :
    ¬NoRollback 7 (events ⟨0, 0⟩ (exampleStart ++ [exampleEarlier])) := by
  intro h
  have hle := h.monotone _ (event_mem_trace exampleStart [] rfl)
    ⟨7, 1, 11, 12, 0, 5, true⟩ ⟨7, 1, 21, 22, 0, 3, true⟩ (by decide) (by decide)
  exact absurd hle (by decide)

end Ddns.CacheHead
