import Ddns.Solana.Keys

/-!
# The cache head program

The head of the cache of a parent name (`ddns_cache_head`), addressed by `["cache_head",
parent_name_hash]`. Whoever initialises a head names its owner, who alone writes it afterwards. The
rent of a head is left out. A definition without a docstring is the item of the source with the same
words in its name.
-/

namespace Ddns.CacheHead

open Tx Runs

inductive CacheHeadError where
  | unauthorized
  | disabled
  | parentMismatch
  deriving DecidableEq, Repr

structure DomainCacheHead where
  parentNameHash : Hash
  parentOwner : Pubkey
  cacheRoot : Hash
  cidHash : Hash
  updatedAtSlot : Nat
  epochId : UInt64
  enabled : Bool
  deriving DecidableEq, Repr

/-- The heads, by the hash of the parent in their address. -/
abbrev State := Hash → Option DomainCacheHead

/-- No head is initialised. -/
def State.genesis : State := fun _ => none

def initCacheHead (clock : Clock) (st : State) (parentNameHash : Hash) (parentOwner : Pubkey) :
    Result CacheHeadError State := do
  vacant (st parentNameHash)
  pure (Function.update st parentNameHash (some
    { parentNameHash, parentOwner
      cacheRoot := 0
      cidHash := 0
      updatedAtSlot := clock.slot
      epochId := 0
      enabled := true }))

def setCacheHead (clock : Clock) (st : State) (parentOwner : Signer)
    (parentNameHash cacheRoot cidHash : Hash) (epochId : UInt64) : Result CacheHeadError State := do
  let head ← load (st parentNameHash)
  require (head.enabled = true) .disabled
  require (head.parentNameHash = parentNameHash) .parentMismatch
  require (head.parentOwner = parentOwner.key) .unauthorized
  pure (Function.update st parentNameHash
    (some { head with cacheRoot, cidHash, updatedAtSlot := clock.slot, epochId }))

def setCacheHeadEnabled (clock : Clock) (st : State) (parentOwner : Signer) (parentNameHash : Hash)
    (enabled : Bool) : Result CacheHeadError State := do
  let head ← load (st parentNameHash)
  require (head.parentNameHash = parentNameHash) .parentMismatch
  require (head.parentOwner = parentOwner.key) .unauthorized
  pure (Function.update st parentNameHash
    (some { head with enabled, updatedAtSlot := clock.slot }))

/-- The instructions, with the signers and arguments they are called with. -/
inductive Instr where
  | initCacheHead (parentNameHash : Hash) (parentOwner : Pubkey)
  | setCacheHead (parentOwner : Signer) (parentNameHash cacheRoot cidHash : Hash) (epochId : UInt64)
  | setCacheHeadEnabled (parentOwner : Signer) (parentNameHash : Hash) (enabled : Bool)

/-- The parent that an instruction is about. -/
def Instr.parent : Instr → Hash
  | .initCacheHead p _ => p
  | .setCacheHead _ p _ _ _ => p
  | .setCacheHeadEnabled _ p _ => p

/-- The handler of an instruction. -/
def handle (clock : Clock) (st : State) : Instr → Result CacheHeadError State
  | .initCacheHead p o => initCacheHead clock st p o
  | .setCacheHead s p root cid epoch => setCacheHead clock st s p root cid epoch
  | .setCacheHeadEnabled s p enabled => setCacheHeadEnabled clock st s p enabled

/-- A transaction of one instruction. -/
def process (clock : Clock) (st : State) (i : Instr) : Result CacheHeadError (State × Unit) :=
  (·, ()) <$> handle clock st i

/-- One action on the chain. -/
abbrev step : Chain State → Action Instr → Chain State × Option (Result CacheHeadError Unit) :=
  chainStep process

/-- A step of the program. -/
abbrev Step := Event (Chain State) (Action Instr) (Option (Result CacheHeadError Unit))

section Lemmas

variable {clock : Clock} {st st' : State} {i : Instr}

/-- What an instruction that succeeds does to the head at `p`: nothing if it is about another parent. -/
inductive Effect (clock : Clock) (p : Hash) :
    Instr → Option DomainCacheHead → Option DomainCacheHead → Prop
  | other {i : Instr} (hi : i.parent ≠ p) (head : Option DomainCacheHead) : Effect clock p i head head
  | initCacheHead (o : Pubkey) : Effect clock p (.initCacheHead p o) none
      (some ⟨p, o, 0, 0, clock.slot, 0, true⟩)
  | setCacheHead {s : Signer} {root cid : Hash} {epoch : UInt64} {head : DomainCacheHead}
    (henabled : head.enabled = true) (howner : head.parentOwner = s.key) :
    Effect clock p (.setCacheHead s p root cid epoch) (some head)
      (some { head with
        cacheRoot := root, cidHash := cid, updatedAtSlot := clock.slot, epochId := epoch })
  | setCacheHeadEnabled {s : Signer} {enabled : Bool} {head : DomainCacheHead}
    (howner : head.parentOwner = s.key) :
    Effect clock p (.setCacheHeadEnabled s p enabled) (some head)
      (some { head with enabled, updatedAtSlot := clock.slot })

theorem effect_update {p : Hash} {head head' : Option DomainCacheHead} (hst : st i.parent = head)
    (h : i.parent = p → Effect clock p i head head') :
    Effect clock p i (st p) (Function.update st i.parent head' p) := by
  by_cases hp : i.parent = p
  · have hself : Function.update st i.parent head' p = head' := by rw [← hp, Function.update_self]
    rw [hself, ← hp, hst, hp]
    exact h hp
  · rw [Function.update_of_ne (Ne.symm hp)]
    exact .other hp (st p)

theorem handle_effect (h : handle clock st i = .ok st') (p : Hash) :
    Effect clock p i (st p) (st' p) := by
  cases i with
  | initCacheHead q o =>
    simp only [handle, initCacheHead, bind_eq_ok, vacant_eq_ok, exists_unit, pure_eq_ok] at h
    obtain ⟨hnone, rfl⟩ := h
    apply effect_update (i := .initCacheHead q o) hnone
    rintro rfl
    exact .initCacheHead o
  | setCacheHead s q root cid epoch =>
    simp only [handle, setCacheHead, bind_eq_ok, load_eq_ok, require_eq_ok, exists_unit,
      pure_eq_ok] at h
    obtain ⟨head, hhead, henabled, -, howner, rfl⟩ := h
    apply effect_update (i := .setCacheHead s q root cid epoch) hhead
    rintro rfl
    exact .setCacheHead henabled howner
  | setCacheHeadEnabled s q enabled =>
    simp only [handle, setCacheHeadEnabled, bind_eq_ok, load_eq_ok, require_eq_ok, exists_unit,
      pure_eq_ok] at h
    obtain ⟨head, hhead, -, howner, rfl⟩ := h
    apply effect_update (i := .setCacheHeadEnabled s q enabled) hhead
    rintro rfl
    exact .setCacheHeadEnabled howner

/-- What an action on the chain does to the head at `p`. -/
theorem step_effect (c : Chain State) (a : Action Instr) (p : Hash) :
    ((step c a).1.accounts p = c.accounts p ∧ (step c a).2 ≠ some (.ok ())) ∨
      ∃ i, a = .submit i ∧ (step c a).2 = some (.ok ()) ∧
        Effect c.clock p i (c.accounts p) ((step c a).1.accounts p) := by
  rcases chainStep_commits process c a with ⟨hsame, hout⟩ | ⟨i, s, w, ha, hok, hs⟩
  · exact .inl ⟨congrFun hsame p, hout ()⟩
  · right
    unfold process at hok
    simp only [map_eq_ok, Prod.mk.injEq] at hok
    obtain ⟨st', hst', rfl, -⟩ := hok
    unfold step
    rw [hs]
    exact ⟨i, ha, rfl, handle_effect hst' p⟩

end Lemmas

end Ddns.CacheHead
