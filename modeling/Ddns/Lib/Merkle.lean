import Ddns.Lib.Results
import Mathlib.Data.List.Forall2
import Mathlib.Data.List.Induction
import Mathlib.Data.List.Nodup
import Mathlib.Data.Set.Function

/-!
# Merkle trees of lists

A level of a tree is hashed in pairs to the level above, and the last node of an odd level with
itself, until a single node is left. Climbing from a leaf along its siblings ends at the top
(`climb_path`). The top determines the leaves only up to the padding: two lists with the same top are
equal, or the longer one repeats a leaf (`same_of_top_eq`). Whoever climbs to the top with siblings of
his own choice started at a node of the tree, or came through a leaf (`isNode_or_grafted`).
-/

namespace Merkle

variable {δ : Type*}

/-- The neighbours of a level; the last node of an odd level is its own. -/
def pairs : List δ → List (δ × δ)
  | [] => []
  | [a] => [(a, a)]
  | a :: b :: l => (a, b) :: pairs l

/-- Where a sibling stands. -/
inductive Side where
  | left
  | right
  deriving DecidableEq, Repr

/-- The siblings on the way up from an index; `absent` where a level does not reach so far. -/
def path (absent : δ) : List (List δ) → ℕ → List (Side × δ)
  | [], _ => []
  | layer :: tree, idx =>
    let isRight := idx % 2 = 1
    let pairIndex := if isRight then idx - 1 else idx + 1
    let pairHash := (layer[pairIndex]?.or layer[idx]?).getD absent
    (if isRight then .left else .right, pairHash) :: path absent tree (idx / 2)

/-- The first node of the last level. -/
def top (tree : List (List δ)) : Option δ := tree.getLast?.bind (·[0]?)

variable (node : δ → δ → δ)

def levelUp (l : List δ) : List δ := (pairs l).map fun p => node p.1 p.2

/-- The levels from `l` on, at most `n` above it. -/
def levelsFrom : ℕ → List δ → List (List δ)
  | 0, l => [l]
  | n + 1, l => if 1 < l.length then l :: levelsFrom n (levelUp node l) else [l]

/-- The levels, from the leaves to a single node. -/
def levels (l : List δ) : List (List δ) := levelsFrom node l.length l

def climb (a : δ) (steps : List (Side × δ)) : δ :=
  steps.foldl (fun computed step =>
    if step.1 = .left then node step.2 computed else node computed step.2) a

/-- The pairs that are hashed. -/
def hashedPairs (l : List δ) : List (δ × δ) := (levels node l).dropLast.flatMap pairs

/-! ## Levels -/

theorem length_pairs (l : List δ) : (pairs l).length = (l.length + 1) / 2 := by
  induction l using pairs.induct with
  | case1 => simp [pairs]
  | case2 a => simp [pairs]
  | case3 a b l ih =>
    rw [pairs, List.length_cons, ih, List.length_cons, List.length_cons]
    omega

theorem length_levelUp (l : List δ) : (levelUp node l).length = (l.length + 1) / 2 := by
  rw [levelUp, List.length_map, length_pairs]

/-- As many levels as there are leaves are enough. -/
theorem levelsFrom_of_le (n m : ℕ) (l : List δ) (hn : l.length ≤ n) (hm : l.length ≤ m) :
    levelsFrom node n l = levelsFrom node m l := by
  induction n generalizing m l with
  | zero =>
    have hshort : ¬1 < l.length := by omega
    cases m with
    | zero => rfl
    | succ m => rw [levelsFrom, levelsFrom, if_neg hshort]
  | succ n ih =>
    cases m with
    | zero =>
      have hshort : ¬1 < l.length := by omega
      rw [levelsFrom, levelsFrom, if_neg hshort]
    | succ m =>
      rw [levelsFrom, levelsFrom]
      split
      · have hup := length_levelUp node l
        rw [ih m (levelUp node l) (by omega) (by omega)]
      · rfl

theorem levels_of_one_lt {l : List δ} (h : 1 < l.length) :
    levels node l = l :: levels node (levelUp node l) := by
  have hup := length_levelUp node l
  obtain ⟨n, hn⟩ : ∃ n, l.length = n + 1 := ⟨l.length - 1, by omega⟩
  unfold levels
  rw [hn, levelsFrom, if_pos h, levelsFrom_of_le node n _ _ (by omega) (Nat.le_refl _)]

theorem levels_of_le_one {l : List δ} (h : l.length ≤ 1) : levels node l = [l] := by
  unfold levels
  cases hl : l.length with
  | zero => rfl
  | succ n => rw [levelsFrom, if_neg (by omega)]

theorem levels_ne_nil (l : List δ) : levels node l ≠ [] := by
  rcases Nat.lt_or_ge 1 l.length with h | h
  · rw [levels_of_one_lt node h]
    exact List.cons_ne_nil _ _
  · rw [levels_of_le_one node h]
    exact List.cons_ne_nil _ _

/-- A property of a list that the level above hands down holds of every list. -/
theorem levels_induction {P : List δ → Prop} (short : ∀ l : List δ, l.length ≤ 1 → P l)
    (up : ∀ l : List δ, 1 < l.length → P (levelUp node l) → P l) (l : List δ) : P l := by
  induction hn : l.length using Nat.strong_induction_on generalizing l with
  | _ n ih =>
    rcases Nat.lt_or_ge 1 l.length with h | h
    · have hup := length_levelUp node l
      exact up l h (ih _ (by omega) (levelUp node l) rfl)
    · exact short l h

theorem dropLast_levels {l : List δ} (h : 1 < l.length) :
    (levels node l).dropLast = l :: (levels node (levelUp node l)).dropLast := by
  rw [levels_of_one_lt node h, List.dropLast_cons_of_ne_nil (levels_ne_nil node _)]

theorem top_levels_of_one_lt {l : List δ} (h : 1 < l.length) :
    top (levels node l) = top (levels node (levelUp node l)) := by
  unfold top
  rw [levels_of_one_lt node h, List.getLast?_cons_of_ne_nil (levels_ne_nil node _)]

theorem top_levels_of_le_one {l : List δ} (h : l.length ≤ 1) : top (levels node l) = l[0]? := by
  rw [levels_of_le_one node h]
  rfl

theorem levelUp_ne_nil {l : List δ} (h : l ≠ []) : levelUp node l ≠ [] := by
  have hup := length_levelUp node l
  have hl := List.length_pos_iff.2 h
  exact List.ne_nil_of_length_pos (by omega)

theorem one_lt_height_iff {l : List δ} : 1 < (levels node l).length ↔ 1 < l.length := by
  rcases Nat.lt_or_ge 1 l.length with h | h
  · have hup := List.length_pos_iff.2 (levels_ne_nil node (levelUp node l))
    rw [levels_of_one_lt node h, List.length_cons]
    omega
  · rw [levels_of_le_one node h]
    exact iff_of_false (Nat.lt_irrefl 1) (Nat.not_lt.2 h)

theorem top_isSome {l : List δ} (h : l ≠ []) : ∃ a, top (levels node l) = some a := by
  revert h
  induction l using levels_induction node with
  | short l hl =>
    intro h
    obtain ⟨a, t, rfl⟩ := List.exists_cons_of_ne_nil h
    exact ⟨a, by rw [top_levels_of_le_one node hl]; rfl⟩
  | up l hl ih =>
    intro h
    rw [top_levels_of_one_lt node hl]
    exact ih (levelUp_ne_nil node h)

theorem hashedPairs_of_one_lt {l : List δ} (h : 1 < l.length) :
    hashedPairs node l = pairs l ++ hashedPairs node (levelUp node l) := by
  unfold hashedPairs
  rw [dropLast_levels node h, List.flatMap_cons]

/-- The top is a leaf or a node that is hashed. -/
theorem top_mem {l : List δ} {a : δ} (h : top (levels node l) = some a) :
    a ∈ l ∨ ∃ p ∈ hashedPairs node l, a = node p.1 p.2 := by
  induction l using levels_induction node with
  | short l hl =>
    rw [top_levels_of_le_one node hl] at h
    exact .inl (List.mem_of_getElem? h)
  | up l hl ih =>
    rw [top_levels_of_one_lt node hl] at h
    rw [hashedPairs_of_one_lt node hl]
    rcases ih h with hmem | ⟨p, hp, hpa⟩
    · obtain ⟨p, hp, hpa⟩ := List.mem_map.1 hmem
      exact .inr ⟨p, List.mem_append_left _ hp, hpa.symm⟩
    · exact .inr ⟨p, List.mem_append_right _ hp, hpa⟩

theorem mem_of_mem_pairs {l : List δ} {p : δ × δ} (h : p ∈ pairs l) : p.1 ∈ l ∧ p.2 ∈ l := by
  induction l using pairs.induct with
  | case1 => cases h
  | case2 a =>
    rw [List.mem_singleton.1 h]
    exact ⟨List.mem_cons_self, List.mem_cons_self⟩
  | case3 a b l ih =>
    rcases List.mem_cons.1 h with rfl | h
    · exact ⟨List.mem_cons_self, List.mem_cons_of_mem a List.mem_cons_self⟩
    · exact (ih h).imp (fun hfst => List.mem_cons_of_mem a (List.mem_cons_of_mem b hfst))
        fun hsnd => List.mem_cons_of_mem a (List.mem_cons_of_mem b hsnd)

/-- What holds of the leaves and of every node holds of all that is hashed. -/
theorem forall_hashedPairs {P : δ → Prop} (hnode : ∀ a b, P (node a b)) {l : List δ}
    (hl : ∀ a ∈ l, P a) : ∀ p ∈ hashedPairs node l, P p.1 ∧ P p.2 := by
  induction l using levels_induction node with
  | short l hshort =>
    unfold hashedPairs
    rw [levels_of_le_one node hshort]
    exact nofun
  | up l hlong ih =>
    rw [hashedPairs_of_one_lt node hlong, List.forall_mem_append]
    constructor
    · intro p hp
      obtain ⟨hfst, hsnd⟩ := mem_of_mem_pairs hp
      exact ⟨hl _ hfst, hl _ hsnd⟩
    · refine ih fun a ha => ?_
      obtain ⟨p, -, rfl⟩ := List.mem_map.1 ha
      exact hnode _ _

/-! ## Trees without a common node -/

theorem forall₂_pairs {R : δ → δ → Prop} {l l' : List δ} (h : List.Forall₂ R l l') :
    List.Forall₂ (fun p p' => R p.1 p'.1 ∧ R p.2 p'.2) (pairs l) (pairs l') := by
  induction l using pairs.induct generalizing l' with
  | case1 =>
    cases h
    exact .nil
  | case2 a =>
    obtain ⟨b, t, hab, ht, rfl⟩ := List.forall₂_cons_left_iff.1 h
    cases ht
    exact .cons ⟨hab, hab⟩ .nil
  | case3 a b l ih =>
    obtain ⟨a', t, ha, hat, rfl⟩ := List.forall₂_cons_left_iff.1 h
    obtain ⟨b', t', hb, hbt, rfl⟩ := List.forall₂_cons_left_iff.1 hat
    exact .cons ⟨ha, hb⟩ (ih hbt)

/-- If no leaf is the one at its place in the other tree, and different pairs have different nodes,
then the tops are different. -/
theorem top_ne (node' : δ → δ → δ) {l l' : List δ} (h : List.Forall₂ (· ≠ ·) l l') (hne : l ≠ [])
    (hnode : ∀ p ∈ hashedPairs node l, ∀ p' ∈ hashedPairs node' l',
      p ≠ p' → node p.1 p.2 ≠ node' p'.1 p'.2) :
    top (levels node l) ≠ top (levels node' l') := by
  induction l using levels_induction node generalizing l' with
  | short l hl =>
    have hl' : l'.length ≤ 1 := by
      rw [← h.length_eq]
      exact hl
    obtain ⟨a, t, rfl⟩ := List.exists_cons_of_ne_nil hne
    obtain ⟨b, t', hab, -, rfl⟩ := List.forall₂_cons_left_iff.1 h
    rw [top_levels_of_le_one node hl, top_levels_of_le_one node' hl']
    exact fun heq => hab (Option.some.inj heq)
  | up l hl ih =>
    have hl' : 1 < l'.length := by
      rw [← h.length_eq]
      exact hl
    rw [hashedPairs_of_one_lt node hl, hashedPairs_of_one_lt node' hl'] at hnode
    rw [top_levels_of_one_lt node hl, top_levels_of_one_lt node' hl']
    refine ih ?_ (levelUp_ne_nil node hne) fun p hp p' hp' =>
      hnode p (List.mem_append_right _ hp) p' (List.mem_append_right _ hp')
    obtain ⟨hlength, hpairs⟩ := List.forall₂_iff_zip.1 (forall₂_pairs h)
    unfold levelUp
    rw [List.forall₂_map_left_iff, List.forall₂_map_right_iff]
    refine List.forall₂_iff_zip.2 ⟨hlength, fun {p p'} hzip => ?_⟩
    obtain ⟨hp, hp'⟩ := List.of_mem_zip hzip
    refine hnode p (List.mem_append_left _ hp) p' (List.mem_append_left _ hp') ?_
    rintro rfl
    exact (hpairs hzip).1 rfl

/-! ## Climbing -/

/-- A node and its sibling make the node above them. -/
theorem getElem?_pairs {l : List δ} {i : ℕ} {a : δ} (h : l[i]? = some a) :
    (pairs l)[i / 2]? = some (if i % 2 = 1 then (l[i - 1]?.getD a, a) else (a, l[i + 1]?.getD a)) := by
  induction l using pairs.induct generalizing i with
  | case1 => cases h
  | case2 b =>
    cases i with
    | zero =>
      cases h
      rfl
    | succ i => cases h
  | case3 b c l ih =>
    match i with
    | 0 =>
      cases h
      rfl
    | 1 =>
      cases h
      rfl
    | i + 2 =>
      have hdiv : (i + 2) / 2 = i / 2 + 1 := by omega
      have hmod : (i + 2) % 2 = i % 2 := by omega
      rw [pairs, hdiv, hmod, List.getElem?_cons_succ, ih h]
      split
      · next hodd =>
        have hpred : i + 2 - 1 = i - 1 + 2 := by omega
        rw [hpred]
        rfl
      · rfl

/-- **Completeness**: climbing from a leaf ends at the top. -/
theorem climb_path (absent : δ) {l : List δ} {i : ℕ} {a : δ} (h : l[i]? = some a) :
    top (levels node l) = some (climb node a (path absent (levels node l).dropLast i)) := by
  induction l using levels_induction node generalizing i a with
  | short l hl =>
    have hi : i = 0 := by
      have hlt := (List.getElem?_eq_some_iff.1 h).1
      omega
    subst hi
    rw [top_levels_of_le_one node hl, levels_of_le_one node hl, h]
    rfl
  | up l hl ih =>
    have hstep : (levelUp node l)[i / 2]? = some (climb node a
        [(if i % 2 = 1 then .left else .right,
          (l[if i % 2 = 1 then i - 1 else i + 1]?.or l[i]?).getD absent)]) := by
      unfold levelUp climb
      rw [List.getElem?_map, getElem?_pairs h, h, Option.map_some, List.foldl_cons, List.foldl_nil]
      have hsibling (o : Option δ) : (o.or (some a)).getD absent = o.getD a := by
        cases o <;> rfl
      rw [hsibling]
      split <;> rfl
    rw [top_levels_of_one_lt node hl, ih hstep, dropLast_levels node hl]
    rfl

/-! ## Binding -/

/-- The longer list goes on with entries of the shorter one. -/
structure Extends (l l' : List δ) : Prop where
  isPrefix : l <+: l'
  mem : ∀ a ∈ l', a ∈ l

theorem exists_mem_pairs {l : List δ} {a : δ} (h : a ∈ l) : ∃ p ∈ pairs l, a = p.1 ∨ a = p.2 := by
  induction l using pairs.induct with
  | case1 => cases h
  | case2 b => exact ⟨(b, b), List.mem_cons_self, .inl (List.mem_singleton.1 h)⟩
  | case3 b c l ih =>
    rcases List.mem_cons.1 h with rfl | h
    · exact ⟨(a, c), List.mem_cons_self, .inl rfl⟩
    · rcases List.mem_cons.1 h with rfl | h
      · exact ⟨(b, a), List.mem_cons_self, .inr rfl⟩
      · obtain ⟨p, hp, ha⟩ := ih h
        exact ⟨p, List.mem_cons_of_mem _ hp, ha⟩

/-- The padding of the shorter list is an entry of the longer one. -/
theorem prefix_of_pairs {l l' : List δ} (hlen : l.length ≤ l'.length) (h : pairs l <+: pairs l') :
    l <+: l' := by
  induction l using pairs.induct generalizing l' with
  | case1 => exact List.nil_prefix
  | case2 a =>
    match l' with
    | [] => exact absurd hlen (by simp)
    | [b] =>
      obtain ⟨hab, -⟩ := List.cons_prefix_cons.1 h
      cases hab
      exact List.prefix_rfl
    | b :: c :: l' =>
      obtain ⟨hab, -⟩ := List.cons_prefix_cons.1 h
      cases hab
      exact List.cons_prefix_cons.2 ⟨rfl, List.nil_prefix⟩
  | case3 a b l ih =>
    match l' with
    | [] => exact absurd hlen (by simp)
    | [c] => exact absurd hlen (by simp)
    | c :: d :: l' =>
      obtain ⟨hab, hrest⟩ := List.cons_prefix_cons.1 h
      cases hab
      have hlen' : l.length ≤ l'.length := by simpa using hlen
      exact List.cons_prefix_cons.2 ⟨rfl, List.cons_prefix_cons.2 ⟨rfl, ih hlen' hrest⟩⟩

variable {S : Set (δ × δ)}

theorem Extends.of_map {α : Type*} {f : α → δ} {l l' : List α}
    (hinj : ∀ a ∈ l, ∀ b ∈ l', f a = f b → a = b) (h : Extends (l.map f) (l'.map f)) :
    Extends l l' := by
  constructor
  · have htake := List.prefix_iff_eq_take.1 h.isPrefix
    rw [List.length_map, ← List.map_take] at htake
    have heq := Results.map_eq_of_map_eq (g := id)
      (fun a ha b hb => hinj a ha b (List.mem_of_mem_take hb)) htake
    rw [List.map_id, List.map_id] at heq
    exact List.prefix_iff_eq_take.2 heq
  · intro b hb
    obtain ⟨a, ha, hab⟩ := List.mem_map.1 (h.mem (f b) (List.mem_map_of_mem hb))
    exact hinj a ha b hb hab ▸ ha

/-- What holds one level up holds here, where pairs are hashed without collisions. -/
theorem Extends.of_levelUp (hinj : Set.InjOn (fun p : δ × δ => node p.1 p.2) S) {l l' : List δ}
    (hl : ∀ p ∈ pairs l, p ∈ S) (hl' : ∀ p ∈ pairs l', p ∈ S) (hlen : l.length ≤ l'.length)
    (h : Extends (levelUp node l) (levelUp node l')) : Extends l l' := by
  have hpairs : Extends (pairs l) (pairs l') :=
    Extends.of_map (fun p hp q hq => hinj (hl p hp) (hl' q hq)) h
  refine ⟨prefix_of_pairs hlen hpairs.isPrefix, fun a ha => ?_⟩
  obtain ⟨p, hp, hap⟩ := exists_mem_pairs ha
  have hmem := mem_of_mem_pairs (hpairs.mem p hp)
  rcases hap with rfl | rfl
  · exact hmem.1
  · exact hmem.2

/-- Trees of the same height with the same top. -/
theorem extends_of_height_eq (hinj : Set.InjOn (fun p : δ × δ => node p.1 p.2) S) {l l' : List δ}
    (hne : l ≠ []) (hlen : l.length ≤ l'.length)
    (hl : ∀ p ∈ hashedPairs node l, p ∈ S) (hl' : ∀ p ∈ hashedPairs node l', p ∈ S)
    (hheight : (levels node l).length = (levels node l').length)
    (htop : top (levels node l) = top (levels node l')) : Extends l l' := by
  induction l using levels_induction node generalizing l' with
  | short l hshort =>
    have hshort' : l'.length ≤ 1 := by
      rw [← Nat.not_lt, ← one_lt_height_iff node, ← hheight, one_lt_height_iff]
      exact Nat.not_lt.2 hshort
    rw [top_levels_of_le_one node hshort, top_levels_of_le_one node hshort'] at htop
    obtain ⟨a, rfl⟩ : ∃ a, l = [a] := by
      apply List.length_eq_one_iff.1
      have hpos := List.length_pos_iff.2 hne
      omega
    obtain ⟨b, rfl⟩ : ∃ b, l' = [b] := by
      apply List.length_eq_one_iff.1
      rw [List.length_singleton] at hlen
      omega
    cases htop
    exact ⟨List.prefix_rfl, fun _ ha => ha⟩
  | up l hlong ih =>
    have hlong' : 1 < l'.length := by
      rw [← one_lt_height_iff node, ← hheight, one_lt_height_iff]
      exact hlong
    have hup := length_levelUp node l
    have hup' := length_levelUp node l'
    rw [hashedPairs_of_one_lt node hlong, List.forall_mem_append] at hl
    rw [hashedPairs_of_one_lt node hlong', List.forall_mem_append] at hl'
    rw [levels_of_one_lt node hlong, levels_of_one_lt node hlong', List.length_cons,
      List.length_cons] at hheight
    rw [top_levels_of_one_lt node hlong, top_levels_of_one_lt node hlong'] at htop
    have hnext := ih (levelUp_ne_nil node hne) (by omega) hl.2 hl'.2 (Nat.succ.inj hheight) htop
    exact hnext.of_levelUp node hinj hl.1 hl'.1 hlen

theorem Extends.head {l l' : List δ} (h : Extends l l') (hne : l ≠ []) : l.head? = l'.head? := by
  obtain ⟨r, rfl⟩ := h.isPrefix
  exact (List.head?_append_of_ne_nil l hne).symm

/-- Where no leaf is a node, trees with the same top have the same height. -/
theorem not_height_lt (hinj : Set.InjOn (fun p : δ × δ => node p.1 p.2) S) {l l' : List δ}
    (hne : l ≠ []) (hne' : l' ≠ [])
    (hl : ∀ p ∈ hashedPairs node l, p ∈ S) (hl' : ∀ p ∈ hashedPairs node l', p ∈ S)
    (hleaf : ∀ a ∈ l, ∀ p ∈ S, a ≠ node p.1 p.2)
    (htop : top (levels node l) = top (levels node l')) :
    ¬(levels node l).length < (levels node l').length := by
  intro hlt
  induction l' using levels_induction node with
  | short l' hlen' =>
    have hpos := List.length_pos_iff.2 (levels_ne_nil node l)
    rw [levels_of_le_one node hlen', List.length_singleton] at hlt
    omega
  | up l' hlen' ih =>
    rw [hashedPairs_of_one_lt node hlen', List.forall_mem_append] at hl'
    rw [levels_of_one_lt node hlen', List.length_cons] at hlt
    rw [top_levels_of_one_lt node hlen'] at htop
    have hup := levelUp_ne_nil node hne'
    rcases Nat.lt_or_eq_of_le (Nat.le_of_lt_succ hlt) with hlt | heq
    · exact ih hup hl'.2 htop hlt
    · -- the first leaf of the one tree is a node of the other
      have hhead : l.head? = (levelUp node l').head? := by
        rcases Nat.le_total l.length (levelUp node l').length with hlen | hlen
        · exact (extends_of_height_eq node hinj hne hlen hl hl'.2 heq htop).head hne
        · exact ((extends_of_height_eq node hinj hup hlen hl'.2 hl heq.symm htop.symm).head hup).symm
      obtain ⟨a, t, rfl⟩ := List.exists_cons_of_ne_nil hne
      have hmem : a ∈ levelUp node l' := List.mem_of_head? hhead.symm
      obtain ⟨p, hp, hpa⟩ := List.mem_map.1 hmem
      exact hleaf a List.mem_cons_self p (hl'.1 p hp) hpa.symm

/-- Where no leaf is a node, trees with the same top have the same height. -/
theorem height_eq (hinj : Set.InjOn (fun p : δ × δ => node p.1 p.2) S) {l l' : List δ}
    (hne : l ≠ []) (hne' : l' ≠ [])
    (hl : ∀ p ∈ hashedPairs node l, p ∈ S) (hl' : ∀ p ∈ hashedPairs node l', p ∈ S)
    (hleaf : ∀ a ∈ l, ∀ p ∈ S, a ≠ node p.1 p.2) (hleaf' : ∀ a ∈ l', ∀ p ∈ S, a ≠ node p.1 p.2)
    (htop : top (levels node l) = top (levels node l')) :
    (levels node l).length = (levels node l').length := by
  apply le_antisymm
  · exact Nat.not_lt.1 (not_height_lt node hinj hne' hne hl' hl hleaf' htop.symm)
  · exact Nat.not_lt.1 (not_height_lt node hinj hne hne' hl hl' hleaf htop)

/-- **Binding**: of two lists with the same top, the longer one goes on with leaves of the shorter
one. -/
theorem extends_of_top_eq (hinj : Set.InjOn (fun p : δ × δ => node p.1 p.2) S) {l l' : List δ}
    (hne : l ≠ []) (hlen : l.length ≤ l'.length)
    (hl : ∀ p ∈ hashedPairs node l, p ∈ S) (hl' : ∀ p ∈ hashedPairs node l', p ∈ S)
    (hleaf : ∀ a ∈ l, ∀ p ∈ S, a ≠ node p.1 p.2) (hleaf' : ∀ a ∈ l', ∀ p ∈ S, a ≠ node p.1 p.2)
    (htop : top (levels node l) = top (levels node l')) : Extends l l' := by
  have hne' : l' ≠ [] := by
    have hpos := List.length_pos_iff.2 hne
    exact List.ne_nil_of_length_pos (by omega)
  exact extends_of_height_eq node hinj hne hlen hl hl'
    (height_eq node hinj hne hne' hl hl' hleaf hleaf' htop) htop

/-- The lists are equal, or the longer one repeats an entry. -/
structure Same (l l' : List δ) : Prop where
  head : l.head? = l'.head?
  eq_or : l = l' ∨ (l.length < l'.length ∧ ¬l'.Nodup) ∨ (l'.length < l.length ∧ ¬l.Nodup)

theorem Extends.eq_or {l l' : List δ} (h : Extends l l') :
    l = l' ∨ (l.length < l'.length ∧ ¬l'.Nodup) := by
  obtain ⟨r, rfl⟩ := h.isPrefix
  cases r with
  | nil => exact .inl (List.append_nil l).symm
  | cons a r =>
    refine .inr ⟨by simp, fun hn => ?_⟩
    have hmem : a ∈ l := h.mem a (List.mem_append_right l List.mem_cons_self)
    exact (List.nodup_append.1 hn).2.2 a hmem a List.mem_cons_self rfl

/-- Lists with the same top are equal, or the longer one repeats a leaf. -/
theorem same_of_top_eq (hinj : Set.InjOn (fun p : δ × δ => node p.1 p.2) S) {l l' : List δ}
    (hne : l ≠ []) (hne' : l' ≠ [])
    (hl : ∀ p ∈ hashedPairs node l, p ∈ S) (hl' : ∀ p ∈ hashedPairs node l', p ∈ S)
    (hleaf : ∀ a ∈ l, ∀ p ∈ S, a ≠ node p.1 p.2) (hleaf' : ∀ a ∈ l', ∀ p ∈ S, a ≠ node p.1 p.2)
    (htop : top (levels node l) = top (levels node l')) : Same l l' := by
  rcases Nat.le_total l.length l'.length with hlen | hlen
  · have h := extends_of_top_eq node hinj hne hlen hl hl' hleaf hleaf' htop
    exact ⟨h.head hne, h.eq_or.imp id .inl⟩
  · have h := extends_of_top_eq node hinj hne' hlen hl' hl hleaf' hleaf htop.symm
    exact ⟨(h.head hne').symm, h.eq_or.imp Eq.symm .inr⟩

/-! ## Padding -/

/-- The padding of an odd list written out. -/
theorem pairs_concat_last {l : List δ} {a : δ} (hodd : l.length % 2 = 1)
    (hlast : l.getLast? = some a) : pairs (l ++ [a]) = pairs l := by
  induction l using pairs.induct with
  | case1 => cases hlast
  | case2 b =>
    cases hlast
    rfl
  | case3 b c l ih =>
    have hodd' : l.length % 2 = 1 := by
      rw [List.length_cons, List.length_cons] at hodd
      omega
    have hne : l ≠ [] := by
      rintro rfl
      cases hodd'
    have hlast' : l.getLast? = some a := by
      rw [List.getLast?_cons_of_ne_nil (List.cons_ne_nil c l), List.getLast?_cons_of_ne_nil hne]
        at hlast
      exact hlast
    rw [List.cons_append, List.cons_append, pairs, pairs, ih hodd' hlast']

/-- **Padding** is not seen at the top. -/
theorem top_concat_last {l : List δ} {a : δ} (hodd : l.length % 2 = 1) (hlong : 1 < l.length)
    (hlast : l.getLast? = some a) : top (levels node (l ++ [a])) = top (levels node l) := by
  have hlong' : 1 < (l ++ [a]).length := by
    rw [List.length_append]
    omega
  have hup : levelUp node (l ++ [a]) = levelUp node l := by
    rw [levelUp, pairs_concat_last hodd hlast, levelUp]
  rw [top_levels_of_one_lt node hlong', top_levels_of_one_lt node hlong, hup]

theorem hashedPairs_concat_last {l : List δ} {a : δ} (hodd : l.length % 2 = 1)
    (hlong : 1 < l.length) (hlast : l.getLast? = some a) :
    hashedPairs node (l ++ [a]) = hashedPairs node l := by
  have hlong' : 1 < (l ++ [a]).length := by
    rw [List.length_append]
    omega
  rw [hashedPairs_of_one_lt node hlong', hashedPairs_of_one_lt node hlong, levelUp, levelUp,
    pairs_concat_last hodd hlast]

theorem mem_dropLast_of_mem_pairs {l : List δ} (heven : l.length % 2 = 0) {p : δ × δ}
    (h : p ∈ pairs l) : p.1 ∈ l.dropLast := by
  induction l using pairs.induct with
  | case1 => cases h
  | case2 a => cases heven
  | case3 a b l ih =>
    have heven' : l.length % 2 = 0 := by
      rw [List.length_cons, List.length_cons] at heven
      omega
    rcases List.mem_cons.1 h with rfl | h
    · exact List.mem_cons_self
    · have hmem := ih heven' h
      have hne : l ≠ [] := by
        rintro rfl
        cases hmem
      rw [List.dropLast_cons_of_ne_nil (List.cons_ne_nil b l), List.dropLast_cons_of_ne_nil hne]
      exact List.mem_cons_of_mem a (List.mem_cons_of_mem b hmem)

theorem pairs_append {l : List δ} (heven : l.length % 2 = 0) (r : List δ) :
    pairs (l ++ r) = pairs l ++ pairs r := by
  induction l using pairs.induct with
  | case1 => rfl
  | case2 a => cases heven
  | case3 a b l ih =>
    have heven' : l.length % 2 = 0 := by
      rw [List.length_cons, List.length_cons] at heven
      omega
    rw [List.cons_append, List.cons_append, pairs, pairs, ih heven', List.cons_append]

/-- Copies of an entry are paired with each other. -/
theorem mem_pairs_of_forall_eq {r : List δ} {a : δ} (hne : r ≠ []) (h : ∀ b ∈ r, b = a) :
    (a, a) ∈ pairs r := by
  match r with
  | [] => exact absurd rfl hne
  | [b] =>
    obtain rfl := h b List.mem_cons_self
    exact List.mem_cons_self
  | b :: c :: r =>
    obtain rfl := h b List.mem_cons_self
    obtain rfl := h c (List.mem_cons_of_mem b List.mem_cons_self)
    exact List.mem_cons_self

theorem two_lt_height_iff {l : List δ} : 2 < (levels node l).length ↔ 2 < l.length := by
  rcases Nat.lt_or_ge 1 l.length with h | h
  · have hup := length_levelUp node l
    have hnext := one_lt_height_iff node (l := levelUp node l)
    rw [levels_of_one_lt node h, List.length_cons]
    omega
  · rw [levels_of_le_one node h, List.length_singleton]
    omega

/-- Short lists with trees of the same height have the same length. -/
theorem length_eq_of_height {l l' : List δ} (hne : l ≠ []) (hshort : l.length ≤ 2)
    (hlen : l.length ≤ l'.length) (hheight : (levels node l).length = (levels node l').length) :
    l.length = l'.length := by
  have hpos := List.length_pos_iff.2 hne
  have hone := one_lt_height_iff node (l := l)
  have hone' := one_lt_height_iff node (l := l')
  have htwo := two_lt_height_iff node (l := l)
  have htwo' := two_lt_height_iff node (l := l')
  rw [hheight] at hone htwo
  omega

/-- A list of even length is not padded: copies of its last entry change the top, if that entry
occurs once. -/
theorem top_append_ne (hinj : Set.InjOn (fun p : δ × δ => node p.1 p.2) S) {l r : List δ} {a : δ}
    (heven : l.length % 2 = 0) (hlong : 2 < l.length)
    (hl : ∀ p ∈ hashedPairs node l, p ∈ S) (hl' : ∀ p ∈ hashedPairs node (l ++ r), p ∈ S)
    (hheight : (levels node l).length = (levels node (l ++ r)).length)
    (hne : r ≠ []) (hr : ∀ b ∈ r, b = a) (honce : a ∉ l.dropLast) :
    top (levels node l) ≠ top (levels node (l ++ r)) := by
  intro htop
  have hone : 1 < l.length := by omega
  have hone' : 1 < (l ++ r).length := by
    rw [List.length_append]
    omega
  have hup := length_levelUp node l
  have hup' := length_levelUp node (l ++ r)
  have hlen : l.length ≤ (l ++ r).length := by
    rw [List.length_append]
    omega
  rw [hashedPairs_of_one_lt node hone, List.forall_mem_append] at hl
  rw [hashedPairs_of_one_lt node hone', List.forall_mem_append] at hl'
  rw [levels_of_one_lt node hone, levels_of_one_lt node hone', List.length_cons,
    List.length_cons] at hheight
  rw [top_levels_of_one_lt node hone, top_levels_of_one_lt node hone'] at htop
  have hnil : levelUp node l ≠ [] := levelUp_ne_nil node (List.ne_nil_of_length_pos (by omega))
  have h := extends_of_height_eq node hinj hnil (by omega) hl.2 hl'.2 (Nat.succ.inj hheight) htop
  have hpair : (a, a) ∈ pairs (l ++ r) := by
    rw [pairs_append heven]
    exact List.mem_append_right _ (mem_pairs_of_forall_eq hne hr)
  obtain ⟨q, hq, hqa⟩ := List.mem_map.1 (h.mem _ (List.mem_map.2 ⟨(a, a), hpair, rfl⟩))
  obtain rfl : q = (a, a) := hinj (hl.1 q hq) (hl'.1 _ hpair) hqa
  exact honce (mem_dropLast_of_mem_pairs heven hq)

/-! ## Climbing with any siblings

A node hashes the two nodes below it, one after the other. Whoever climbs chooses the siblings, and
nothing says how long they are. -/

section Concatenation

variable {γ : Type*} (hash : List γ → List γ)

/-- The node above two nodes. -/
def concat (a b : List γ) : List γ := hash (a ++ b)

/-- A node and its sibling in their order. -/
def combined (a : List γ) (step : Side × List γ) : List γ :=
  if step.1 = .left then step.2 ++ a else a ++ step.2

/-- What is hashed on the way up. -/
def climbed : List γ → List (Side × List γ) → List (List γ)
  | _, [] => []
  | a, step :: steps => combined a step :: climbed (hash (combined a step)) steps

/-- A leaf, or a node that is hashed. -/
def IsNode (node : δ → δ → δ) (l : List δ) (a : δ) : Prop :=
  a ∈ l ∨ ∃ p ∈ hashedPairs node l, a = node p.1 p.2

theorem climb_cons (a : List γ) (step : Side × List γ) (steps : List (Side × List γ)) :
    climb (concat hash) a (step :: steps) = climb (concat hash) (hash (combined a step)) steps := by
  have hstep : (if step.1 = .left then concat hash step.2 a else concat hash a step.2) =
      hash (combined a step) := by
    unfold combined concat
    split <;> rfl
  unfold climb
  rw [List.foldl_cons, hstep]

theorem climb_append (a : List γ) (steps rest : List (Side × List γ)) :
    climb (concat hash) a (steps ++ rest) =
      climb (concat hash) (climb (concat hash) a steps) rest := by
  unfold climb
  rw [List.foldl_append]

theorem climb_concat (a : List γ) (steps : List (Side × List γ)) (step : Side × List γ) :
    climb (concat hash) a (steps ++ [step]) =
      hash (combined (climb (concat hash) a steps) step) := by
  rw [climb_append, climb_cons]
  rfl

theorem climbed_append (a : List γ) (steps rest : List (Side × List γ)) :
    climbed hash a (steps ++ rest) =
      climbed hash a steps ++ climbed hash (climb (concat hash) a steps) rest := by
  induction steps generalizing a with
  | nil => rfl
  | cons step steps ih =>
    rw [List.cons_append, climbed, ih, climb_cons, climbed, List.cons_append]

/-- The last text on the way. -/
theorem combined_mem_climbed (a : List γ) (steps rest : List (Side × List γ))
    (step : Side × List γ) : combined (climb (concat hash) a steps) step ∈
      climbed hash a (steps ++ step :: rest) := by
  rw [climbed_append]
  exact List.mem_append_right _ List.mem_cons_self

theorem length_climb {n : ℕ} (hlen : ∀ t, (hash t).length = n) {a : List γ} (ha : a.length = n)
    (steps : List (Side × List γ)) : (climb (concat hash) a steps).length = n := by
  induction steps generalizing a with
  | nil => exact ha
  | cons step steps ih =>
    rw [climb_cons]
    exact ih (hlen _)

theorem isNode_of_top {node : δ → δ → δ} {l : List δ} {a : δ}
    (h : top (levels node l) = some a) : IsNode node l a := top_mem node h

/-- What is hashed consists of nodes. -/
theorem isNode_of_pair {node : δ → δ → δ} {l : List δ} {p : δ × δ}
    (h : p ∈ hashedPairs node l) : IsNode node l p.1 ∧ IsNode node l p.2 := by
  induction l using levels_induction node with
  | short l hl =>
    unfold hashedPairs at h
    rw [levels_of_le_one node hl] at h
    cases h
  | up l hl ih =>
    rw [hashedPairs_of_one_lt node hl] at h
    rcases List.mem_append.1 h with hp | hp
    · obtain ⟨hfst, hsnd⟩ := mem_of_mem_pairs hp
      exact ⟨.inl hfst, .inl hsnd⟩
    · -- a node of the level above is hashed from a pair of this level
      have hlift {a : δ} (ha : IsNode node (levelUp node l) a) : IsNode node l a := by
        unfold IsNode
        rw [hashedPairs_of_one_lt node hl]
        rcases ha with ha | ⟨q, hq, rfl⟩
        · obtain ⟨q, hq, rfl⟩ := List.mem_map.1 ha
          exact .inr ⟨q, List.mem_append_left _ hq, rfl⟩
        · exact .inr ⟨q, List.mem_append_right _ hq, rfl⟩
      obtain ⟨hfst, hsnd⟩ := ih hp
      exact ⟨hlift hfst, hlift hsnd⟩

/-- **Soundness**: whoever climbs to a node started at one, or came through a leaf: some text on the
way has the digest of that leaf. -/
theorem isNode_or_grafted {n : ℕ} (hlen : ∀ t, (hash t).length = n) {l : List (List γ)}
    (hl : ∀ b ∈ l, b.length = n) {a : List γ} (ha : a.length = n) {steps : List (Side × List γ)}
    (hfree : ∀ t ∈ climbed hash a steps, ∀ p ∈ hashedPairs (concat hash) l,
      hash t = hash (p.1 ++ p.2) → t = p.1 ++ p.2)
    (h : IsNode (concat hash) l (climb (concat hash) a steps)) :
    IsNode (concat hash) l a ∨ ∃ below step above, steps = below ++ step :: above ∧
      hash (combined (climb (concat hash) a below) step) ∈ l := by
  induction steps using List.reverseRecOn with
  | nil => exact .inl h
  | append_singleton steps step ih =>
    rw [climb_concat] at h
    rcases h with hleaf | ⟨p, hp, hhash⟩
    · exact .inr ⟨steps, step, [], rfl, hleaf⟩
    · have htext := hfree _ (combined_mem_climbed hash a steps [] step) p hp hhash
      have hpair := forall_hashedPairs (concat hash) (fun a b => hlen (a ++ b)) hl p hp
      have hnodes := isNode_of_pair hp
      have hbelow : IsNode (concat hash) l (climb (concat hash) a steps) := by
        have hclimb := length_climb hash hlen ha steps
        unfold combined at htext
        split at htext
        · exact (List.append_inj' htext (hclimb.trans hpair.2.symm)).2 ▸ hnodes.2
        · exact (List.append_inj htext (hclimb.trans hpair.1.symm)).1 ▸ hnodes.1
      rw [climbed_append] at hfree
      rcases ih (fun t ht => hfree t (List.mem_append_left _ ht)) hbelow with hstart |
        ⟨below, graft, above, rfl, hgraft⟩
      · exact .inl hstart
      · exact .inr ⟨below, graft, above ++ [step], by simp, hgraft⟩

end Concatenation

end Merkle
