import Mathlib.Data.List.Permutation
import Ddns.Gateway.Ttl
import Ddns.Lib.Grouping

/-!
# The quorum of the upstreams

The gateway asks its upstreams at once, and orders nothing by who answers first but the choice inside
a group. `selection_law` says what does not depend on the order of the results: the status, the
confidence, and with them the answer, unless two groups tie or two overlapping results have one URL.
It also says when the confidence is high or medium, and what bounds the TTL.
-/

namespace Ddns.Gateway

/-! ## Parts that do not depend on the order -/

section Parts

variable {config : SelectConfig} {l l' : List UpstreamResult} {u v : UpstreamResult}
  {a b : List JsText}

/-- Results that took the same time are the same. -/
def RttDistinct (l : List UpstreamResult) : Prop := ∀ u ∈ l, ∀ v ∈ l, u.rttMs = v.rttMs → u = v

theorem RttDistinct.mono (h : RttDistinct l) (hsub : l' ⊆ l) : RttDistinct l' :=
  fun u hu v hv => h u (hsub hu) v (hsub hv)

theorem fastest_eq_none : fastest l = none ↔ l = [] := by
  rw [fastest, List.head?_eq_none_iff, ← List.length_eq_zero_iff, List.length_insertionSort,
    List.length_eq_zero_iff]

theorem fastest_le (h : fastest l = some u) (hv : v ∈ l) : u.rttMs ≤ v.rttMs := by
  have hsorted : (l.insertionSort fun a b => a.rttMs ≤ b.rttMs).Pairwise
      fun a b => a.rttMs ≤ b.rttMs :=
    List.pairwise_insertionSort (fun a b : UpstreamResult => a.rttMs ≤ b.rttMs) l
  obtain ⟨rest, hrest⟩ := List.head?_eq_some_iff.1 h
  have hmem : v ∈ l.insertionSort fun a b => a.rttMs ≤ b.rttMs :=
    (List.perm_insertionSort _ l).mem_iff.2 hv
  rw [hrest] at hsorted hmem
  rcases List.mem_cons.1 hmem with rfl | hmem
  · exact le_refl _
  · exact (List.pairwise_cons.1 hsorted).1 v hmem

/-- Who is fastest of some results does not depend on their order. -/
theorem fastest_unique (hrtt : RttDistinct l) (hmem : ∀ x, x ∈ l ↔ x ∈ l') (h : fastest l = some u)
    (h' : fastest l' = some v) : u = v := by
  have hu : u ∈ l := mem_of_fastest h
  have hv : v ∈ l := (hmem v).2 (mem_of_fastest h')
  exact hrtt u hu v hv (le_antisymm (fastest_le h hv) (fastest_le h' ((hmem u).1 hu)))

theorem baseTtl_congr (hmem : ∀ x, x ∈ l ↔ x ∈ l') (hu : u ∈ l) (hv : v ∈ l') :
    baseTtl u l = baseTtl v l' := by
  apply le_antisymm
  · obtain ⟨w, hw, hle⟩ := (baseTtl_le_iff hv).1 (le_refl _)
    exact (baseTtl_le_iff hu).2 ⟨w, (hmem w).2 hw, hle⟩
  · obtain ⟨w, hw, hle⟩ := (baseTtl_le_iff hu).1 (le_refl _)
    exact (baseTtl_le_iff hv).2 ⟨w, (hmem w).1 hw, hle⟩

/-- Of some results, the one that is chosen does not matter. -/
theorem baseTtl_eq (w : UpstreamResult) (hu : u ∈ l) : baseTtl w l = baseTtl u l := by
  cases l with
  | nil => cases hu
  | cons x l => rfl

/-! ### Groups -/

/-- The results with a hash. -/
def group (hash : JsText) (l : List UpstreamResult) : List UpstreamResult :=
  l.filter fun u => u.rrsetHash = hash

/-- The strongest group is a group, and none is larger. -/
theorem strongestGroup_spec (hne : l ≠ []) : ∃ hash, strongestGroup l = group hash l ∧
    group hash l ≠ [] ∧ ∀ hash', (group hash' l).length ≤ (group hash l).length := by
  have hsorted : ((byHash l).insertionSort fun a b => b.length ≤ a.length).Pairwise
      fun a b => b.length ≤ a.length :=
    List.pairwise_insertionSort (fun a b : List UpstreamResult => b.length ≤ a.length) _
  obtain ⟨w, rest, rfl⟩ := List.exists_cons_of_ne_nil hne
  cases hhead : ((byHash (w :: rest)).insertionSort fun a b => b.length ≤ a.length).head? with
  | none =>
    have hlength := congrArg List.length (List.head?_eq_none_iff.1 hhead)
    rw [List.length_insertionSort] at hlength
    cases (List.map_eq_nil_iff.1 (List.length_eq_zero_iff.1 hlength)).symm.trans List.eraseDups_cons
  | some g =>
    have hstrongest : strongestGroup (w :: rest) = g := by rw [strongestGroup, hhead]; rfl
    have hg : g ∈ byHash (w :: rest) :=
      (List.perm_insertionSort _ _).subset (List.mem_of_head? hhead)
    obtain ⟨hash, hhash, rfl⟩ := List.mem_map.1 hg
    obtain ⟨v, hv, rfl⟩ := List.mem_map.1 (List.mem_eraseDups.1 hhash)
    have hin : v ∈ group v.rrsetHash (w :: rest) := List.mem_filter.2 ⟨hv, decide_eq_true rfl⟩
    refine ⟨v.rrsetHash, hstrongest, List.ne_nil_of_mem hin, fun hash' => ?_⟩
    by_cases hhash' : hash' ∈ (w :: rest).map UpstreamResult.rrsetHash
    · have hmem : group hash' (w :: rest) ∈
          (byHash (w :: rest)).insertionSort fun a b => b.length ≤ a.length :=
        (List.perm_insertionSort _ _).mem_iff.2
          (List.mem_map.2 ⟨hash', List.mem_eraseDups.2 hhash', rfl⟩)
      obtain ⟨more, hmore⟩ := List.head?_eq_some_iff.1 hhead
      rw [hmore] at hsorted hmem
      rcases List.mem_cons.1 hmem with heq | hmem
      · rw [heq]
        exact Nat.le_refl _
      · exact (List.pairwise_cons.1 hsorted).1 _ hmem
    · have hnil : group hash' (w :: rest) = [] := by
        refine List.filter_eq_nil_iff.2 fun x hx hxhash => hhash' ?_
        exact List.mem_map.2 ⟨x, hx, of_decide_eq_true hxhash⟩
      rw [hnil]
      exact Nat.zero_le _

/-! ### Overlaps -/

/-- Two results overlap for the gateway. -/
def Overlap (config : SelectConfig) (u v : UpstreamResult) : Prop :=
  hasSharedIp u.ips v.ips = true ∨ config.overlapThreshold ≤ overlapRatio u.ips v.ips

instance : Decidable (Overlap config u v) :=
  inferInstanceAs (Decidable (hasSharedIp u.ips v.ips = true ∨
    config.overlapThreshold ≤ overlapRatio u.ips v.ips))

theorem hasSharedIp_comm (a b : List JsText) : hasSharedIp a b = hasSharedIp b a := by
  have himp {a b : List JsText} (h : hasSharedIp a b = true) : hasSharedIp b a = true := by
    obtain ⟨ip, ha, hb⟩ := List.any_eq_true.1 h
    exact List.any_eq_true.2 ⟨ip, of_decide_eq_true hb, decide_eq_true ha⟩
  exact Bool.eq_iff_iff.2 ⟨himp, himp⟩

theorem overlapRatio_comm (a b : List JsText) : overlapRatio a b = overlapRatio b a := by
  have hshared : ((a.eraseDups).filter fun ip => ip ∈ b.eraseDups).Perm
      ((b.eraseDups).filter fun ip => ip ∈ a.eraseDups) := by
    refine (List.perm_ext_iff_of_nodup ((Grouping.nodup_eraseDups a).filter _)
      ((Grouping.nodup_eraseDups b).filter _)).2 fun ip => ?_
    simp [and_comm]
  unfold overlapRatio
  simp only [hshared.length_eq, or_comm, min_comm]

theorem Overlap.symm (h : Overlap config u v) : Overlap config v u := by
  rw [Overlap, hasSharedIp_comm, overlapRatio_comm]
  exact h

theorem mem_pairs {α : Type*} {l : List α} {x y : α} : (x, y) ∈ pairs l ↔ [x, y].Sublist l := by
  induction l with
  | nil => simp [pairs]
  | cons z l ih =>
    rw [pairs, List.mem_append, ih, List.sublist_cons_iff]
    constructor
    · rintro (h | h)
      · obtain ⟨w, hw, hp⟩ := List.mem_map.1 h
        cases hp
        exact .inr ⟨[y], rfl, List.singleton_sublist.2 hw⟩
      · exact .inl h
    · rintro (h | ⟨r, hr, hsub⟩)
      · exact .inr h
      · cases hr
        exact .inl (List.mem_map.2 ⟨y, List.singleton_sublist.1 hsub, rfl⟩)

/-- A candidate overlaps another result. -/
theorem mem_overlapCandidates :
    u ∈ overlapCandidates config l ↔ ∃ v, [u, v].Subperm l ∧ Overlap config u v := by
  constructor
  · intro h
    obtain ⟨⟨x, y⟩, hp, hmem⟩ := List.mem_flatMap.1 h
    obtain ⟨hpair, hoverlap⟩ := List.mem_filter.1 hp
    have hoverlap : Overlap config x y := of_decide_eq_true hoverlap
    have hsub := mem_pairs.1 hpair
    simp only [List.mem_cons, List.not_mem_nil, or_false] at hmem
    rcases hmem with rfl | rfl
    · exact ⟨y, hsub.subperm, hoverlap⟩
    · exact ⟨x, ((List.Perm.swap x u []).subperm).trans hsub.subperm, hoverlap.symm⟩
  · rintro ⟨v, ⟨l', hperm, hsub⟩, hoverlap⟩
    rcases List.perm_pair.1 hperm with rfl | rfl
    · refine List.mem_flatMap.2 ⟨(u, v), ?_, List.mem_cons_self⟩
      exact List.mem_filter.2 ⟨mem_pairs.2 hsub, decide_eq_true hoverlap⟩
    · refine List.mem_flatMap.2 ⟨(v, u), ?_, List.mem_cons_of_mem _ List.mem_cons_self⟩
      exact List.mem_filter.2 ⟨mem_pairs.2 hsub, decide_eq_true hoverlap.symm⟩

theorem mem_overlapCandidates_perm (h : l.Perm l') :
    u ∈ overlapCandidates config l ↔ u ∈ overlapCandidates config l' := by
  rw [mem_overlapCandidates, mem_overlapCandidates]
  refine exists_congr fun v => and_congr_left fun _ => ?_
  exact ⟨fun hs => hs.trans h.subperm, fun hs => hs.trans h.symm.subperm⟩

/-- Every URL is kept. -/
theorem exists_uniqueByUrl (hu : u ∈ l) : ∃ v ∈ uniqueByUrl l, v.url = u.url := by
  cases hfind : l.reverse.find? fun v => v.url = u.url with
  | none =>
    have hnone := List.find?_eq_none.1 hfind u (List.mem_reverse.2 hu)
    exact absurd rfl (of_decide_eq_false (Bool.eq_false_iff.2 hnone))
  | some v =>
    refine ⟨v, List.mem_filterMap.2 ⟨u.url, ?_, hfind⟩, by simpa using List.find?_some hfind⟩
    exact List.mem_eraseDups.2 (List.mem_map.2 ⟨u, hu, rfl⟩)

/-- Results with different URLs are all kept. -/
theorem mem_uniqueByUrl (hurl : ∀ u ∈ l, ∀ v ∈ l, u.url = v.url → u = v) :
    u ∈ uniqueByUrl l ↔ u ∈ l := by
  constructor
  · exact fun h => uniqueByUrl_subset h
  · intro hu
    obtain ⟨v, hv, hsame⟩ := exists_uniqueByUrl hu
    rw [hurl u hu v (uniqueByUrl_subset hv) hsame.symm]
    exact hv

end Parts

/-! ## What is chosen, and why -/

section Outcomes

variable {config : SelectConfig} {l l' : List UpstreamResult} {u v : UpstreamResult}
  {c c' : Chosen} {hash : JsText}

/-- The results that give addresses. -/
def successes (l : List UpstreamResult) : List UpstreamResult := l.filter fun u => Successful u

/-- The results that say that the name does not exist. -/
def denials (l : List UpstreamResult) : List UpstreamResult :=
  l.filter fun u => u.status = .nxDomain

/-- Enough results with addresses have the hash. -/
def Quorate (config : SelectConfig) (l : List UpstreamResult) (hash : JsText) : Prop :=
  config.quorumMin ≤ (group hash (successes l)).length

/-- No group is larger than that of the hash. -/
def Largest (l : List UpstreamResult) (hash : JsText) : Prop :=
  ∀ hash', (group hash' (successes l)).length ≤ (group hash (successes l)).length

/-- What `selectBest` chooses, with the reasons. -/
inductive Outcome (config : SelectConfig) (l : List UpstreamResult) : Chosen → Prop
  | high (hash : JsText) (hquorum : Quorate config l hash) (hlargest : Largest l hash)
    {u : UpstreamResult} (hu : fastest (group hash (successes l)) = some u) :
    Outcome config l ⟨.noError, .high, u, group hash (successes l),
      max 1 (min (baseTtl u (group hash (successes l))) config.ttlCapS)⟩
  | medium (hnone : ∀ hash, ¬Quorate config l hash) {u : UpstreamResult}
    (hu : fastest (uniqueByUrl (overlapCandidates config (successes l))) = some u) :
    Outcome config l ⟨.noError, .medium, u, uniqueByUrl (overlapCandidates config (successes l)),
      max 1 (min (baseTtl u (uniqueByUrl (overlapCandidates config (successes l))))
        (min config.ttlCapS 120))⟩
  | low (hnone : ∀ hash, ¬Quorate config l hash)
    (halone : overlapCandidates config (successes l) = []) {u : UpstreamResult}
    (hu : fastest (successes l) = some u) :
    Outcome config l ⟨.noError, .low, u, [u], max 1 (min u.ttlS (min config.ttlCapS 30))⟩
  | nxDomain (hnone : successes l = []) {u : UpstreamResult} (hu : fastest (denials l) = some u) :
    Outcome config l ⟨.nxDomain,
      if config.quorumMin ≤ (denials l).length then .medium else .low, u, denials l,
      max 1 (min (baseTtl u ((denials l).map orThirty)) 30)⟩

theorem quorate_iff (hne : successes l ≠ []) :
    config.quorumMin ≤ (strongestGroup (successes l)).length ↔ ∃ hash, Quorate config l hash := by
  obtain ⟨hash, hstrongest, -, hlargest⟩ := strongestGroup_spec hne
  rw [hstrongest]
  constructor
  · exact fun h => ⟨hash, h⟩
  · rintro ⟨hash', h⟩
    exact h.trans (Nat.cast_le.2 (hlargest hash'))

theorem outcome_of_selectBest (h : selectBest config l = some c) : Outcome config l c := by
  unfold selectBest at h
  simp only at h
  split at h
  · next hne =>
    have hne : successes l ≠ [] := hne
    obtain ⟨hash, hstrongest, -, hlargest⟩ := strongestGroup_spec hne
    have hiff : config.quorumMin ≤ (strongestGroup (successes l)).length ↔ _ := quorate_iff hne
    rw [show l.filter (fun u => decide (u.status = .noError ∧ u.ips ≠ [])) = successes l from rfl,
      hstrongest] at h
    rw [hstrongest] at hiff
    split at h
    · next hquorum =>
      obtain ⟨u, hu, rfl⟩ := Option.map_eq_some_iff.1 h
      exact .high hash hquorum hlargest hu
    · next hquorum =>
      have hnone : ∀ hash, ¬Quorate config l hash := fun hash' hq => hquorum (hiff.2 ⟨hash', hq⟩)
      split at h
      · obtain ⟨u, hu, rfl⟩ := Option.map_eq_some_iff.1 h
        exact .medium hnone hu
      · next halone =>
        obtain ⟨u, hu, rfl⟩ := Option.map_eq_some_iff.1 h
        exact .low hnone (not_not.1 halone) hu
  · next hnil =>
    obtain ⟨u, hu, rfl⟩ := Option.map_eq_some_iff.1 h
    exact .nxDomain (not_not.1 hnil) hu

theorem uniqueByUrl_ne_nil (h : l ≠ []) : uniqueByUrl l ≠ [] := by
  obtain ⟨u, hu⟩ := List.exists_mem_of_ne_nil l h
  obtain ⟨v, hv, -⟩ := exists_uniqueByUrl hu
  exact List.ne_nil_of_mem hv

/-- Nothing is chosen exactly if no result gives addresses or says that there is no such name. -/
theorem selectBest_none_iff : selectBest config l = none ↔ successes l = [] ∧ denials l = [] := by
  constructor
  · intro h
    unfold selectBest at h
    simp only at h
    split at h
    · next hne =>
      obtain ⟨hash, hstrongest, hgroup, -⟩ := strongestGroup_spec (l := successes l) hne
      split at h
      · rw [Option.map_eq_none_iff, fastest_eq_none] at h
        exact absurd (hstrongest.symm.trans h) hgroup
      · split at h
        · next hcandidates =>
          rw [Option.map_eq_none_iff, fastest_eq_none] at h
          exact absurd h (uniqueByUrl_ne_nil hcandidates)
        · rw [Option.map_eq_none_iff, fastest_eq_none] at h
          exact absurd h hne
    · next hnil =>
      rw [Option.map_eq_none_iff, fastest_eq_none] at h
      exact ⟨not_not.1 hnil, h⟩
  · rintro ⟨hsuccesses, hdenials⟩
    refine selectBest_eq_none (fun v hv hsuccess => ?_) fun v hv hnx => ?_
    · exact List.filter_eq_nil_iff.1 hsuccesses v hv (decide_eq_true hsuccess)
    · exact List.filter_eq_nil_iff.1 hdenials v hv (decide_eq_true hnx)

theorem Quorate.ne_nil (h : Quorate config l hash) : group hash (successes l) ≠ [] := by
  intro hnil
  have hone := config.one_le_quorumMin.trans h
  rw [hnil, List.length_nil, Nat.cast_zero] at hone
  exact absurd hone (by norm_num)

theorem Quorate.successes_ne_nil (h : Quorate config l hash) : successes l ≠ [] := by
  intro hnil
  refine h.ne_nil ?_
  rw [hnil]
  rfl

theorem Outcome.status_iff (h : Outcome config l c) :
    c.status = .noError ∧ successes l ≠ [] ∨ c.status = .nxDomain ∧ successes l = [] := by
  cases h with
  | high hash hquorum => exact .inl ⟨rfl, hquorum.successes_ne_nil⟩
  | medium hnone hu =>
    obtain ⟨v, hv, -⟩ := mem_overlapCandidates.1 (uniqueByUrl_subset (mem_of_fastest hu))
    refine .inl ⟨rfl, List.ne_nil_of_mem (hv.subset List.mem_cons_self)⟩
  | low hnone halone hu => exact .inl ⟨rfl, List.ne_nil_of_mem (mem_of_fastest hu)⟩
  | nxDomain hnone hu => exact .inr ⟨rfl, hnone⟩

/-- The confidence is high exactly if there is a quorum. -/
theorem Outcome.high_iff (h : Outcome config l c) :
    c.confidence = .high ↔ ∃ hash, Quorate config l hash := by
  cases h with
  | high hash hquorum => exact ⟨fun _ => ⟨hash, hquorum⟩, fun _ => rfl⟩
  | medium hnone | low hnone => exact ⟨nofun, fun ⟨hash, hq⟩ => absurd hq (hnone hash)⟩
  | nxDomain hnone =>
    constructor
    · intro hhigh
      dsimp only at hhigh
      split at hhigh <;> cases hhigh
    · rintro ⟨hash, hq⟩
      exact absurd hnone hq.successes_ne_nil

/-- The confidence is medium exactly if there is no quorum, but results with addresses overlap, or
there are none and enough results deny the name. -/
theorem Outcome.medium_iff (h : Outcome config l c) : c.confidence = .medium ↔
    (¬∃ hash, Quorate config l hash) ∧ overlapCandidates config (successes l) ≠ [] ∨
      successes l = [] ∧ config.quorumMin ≤ (denials l).length := by
  have hcandidates (hnil : successes l = []) : overlapCandidates config (successes l) = [] := by
    rw [hnil]
    rfl
  cases h with
  | high hash hquorum =>
    refine ⟨nofun, ?_⟩
    rintro (⟨hno, -⟩ | ⟨hnil, -⟩)
    · exact absurd ⟨hash, hquorum⟩ hno
    · exact absurd hnil hquorum.successes_ne_nil
  | medium hnone hu =>
    refine ⟨fun _ => .inl ⟨fun ⟨hash, hq⟩ => hnone hash hq, ?_⟩, fun _ => rfl⟩
    exact List.ne_nil_of_mem (uniqueByUrl_subset (mem_of_fastest hu))
  | low hnone halone hu =>
    refine ⟨nofun, ?_⟩
    rintro (⟨-, hne⟩ | ⟨hnil, -⟩)
    · exact absurd halone hne
    · exact absurd hnil (List.ne_nil_of_mem (mem_of_fastest hu))
  | nxDomain hnone hu =>
    dsimp only
    constructor
    · intro hmedium
      refine .inr ⟨hnone, ?_⟩
      by_contra hfew
      rw [if_neg hfew] at hmedium
      cases hmedium
    · rintro (⟨-, hne⟩ | ⟨-, henough⟩)
      · exact absurd (hcandidates hnone) hne
      · exact if_pos henough

/-! ### Permutations -/

theorem successes_perm (h : l.Perm l') : (successes l).Perm (successes l') := h.filter _

theorem group_perm (h : l.Perm l') : (group hash (successes l)).Perm (group hash (successes l')) :=
  (successes_perm h).filter _

theorem quorate_perm (h : l.Perm l') : Quorate config l hash ↔ Quorate config l' hash := by
  rw [Quorate, Quorate, (group_perm h).length_eq]

theorem largest_perm (h : l.Perm l') : Largest l hash ↔ Largest l' hash := by
  refine forall_congr' fun hash' => ?_
  rw [(group_perm h).length_eq, (group_perm h).length_eq]

theorem successes_nil_perm (h : l.Perm l') : successes l = [] ↔ successes l' = [] := by
  rw [← List.length_eq_zero_iff, (successes_perm h).length_eq, List.length_eq_zero_iff]

theorem candidates_nil_perm (h : l.Perm l') : overlapCandidates config (successes l) = [] ↔
    overlapCandidates config (successes l') = [] := by
  simp only [List.eq_nil_iff_forall_not_mem, mem_overlapCandidates_perm (successes_perm h)]

/-- The status and the confidence do not depend on the order. -/
theorem Outcome.verdict_perm (hp : l.Perm l') (h : Outcome config l c) (h' : Outcome config l' c') :
    c.status = c'.status ∧ c.confidence = c'.confidence := by
  have hhigh : c.confidence = .high ↔ c'.confidence = .high := by
    rw [h.high_iff, h'.high_iff]
    exact exists_congr fun hash => quorate_perm hp
  have hmedium : c.confidence = .medium ↔ c'.confidence = .medium := by
    rw [h.medium_iff, h'.medium_iff, successes_nil_perm hp, ne_eq, candidates_nil_perm hp,
      (show (denials l).Perm (denials l') from hp.filter _).length_eq,
      exists_congr fun hash => quorate_perm hp]
  constructor
  · rcases h.status_iff with ⟨hs, hne⟩ | ⟨hs, hnil⟩
    · rcases h'.status_iff with ⟨hs', -⟩ | ⟨-, hnil'⟩
      · rw [hs, hs']
      · exact absurd ((successes_nil_perm hp).2 hnil') hne
    · rcases h'.status_iff with ⟨-, hne'⟩ | ⟨hs', -⟩
      · exact absurd ((successes_nil_perm hp).1 hnil) hne'
      · rw [hs, hs']
  · cases hc : c.confidence <;> cases hc' : c'.confidence <;> simp_all

/-- One group is the largest, or, where there is no quorum, results that overlap have different
URLs. -/
structure Unambiguous (config : SelectConfig) (l : List UpstreamResult) : Prop where
  group : ∀ hash hash', Quorate config l hash → Largest l hash → Largest l hash' → hash = hash'
  url : (∀ hash, ¬Quorate config l hash) → ∀ u ∈ overlapCandidates config (successes l),
    ∀ v ∈ overlapCandidates config (successes l), u.url = v.url → u = v

/-- What is chosen, and its TTL, do not depend on the order. -/
theorem Outcome.chosen_perm (hp : l.Perm l') (hrtt : RttDistinct l) (hclear : Unambiguous config l)
    (h : Outcome config l c) (h' : Outcome config l' c') : c.chosen = c'.chosen ∧ c.ttlS = c'.ttlS := by
  obtain ⟨hstatus, hconfidence⟩ := h.verdict_perm hp h'
  have hsuccesses : successes l ⊆ l := List.filter_subset_self _
  cases h with
  | high hash hquorum hlargest hu =>
    cases h' with
    | high hash' hquorum' hlargest' hu' =>
      obtain rfl := hclear.group hash hash' hquorum hlargest ((largest_perm hp).2 hlargest')
      have hmem : ∀ x, x ∈ group hash (successes l) ↔ x ∈ group hash (successes l') :=
        fun x => (group_perm hp).mem_iff
      have hsame := fastest_unique
        (hrtt.mono fun x hx => hsuccesses (List.filter_subset_self _ hx)) hmem hu hu'
      refine ⟨hsame, ?_⟩
      simp only [baseTtl_congr hmem (mem_of_fastest hu) (mem_of_fastest hu')]
    | medium | low => cases hconfidence
    | nxDomain => cases hstatus
  | medium hnone hu =>
    cases h' with
    | medium hnone' hu' =>
      have hcandidates : ∀ x, x ∈ overlapCandidates config (successes l) ↔
          x ∈ overlapCandidates config (successes l') :=
        fun x => mem_overlapCandidates_perm (successes_perm hp)
      have hurl := hclear.url hnone
      have hmem : ∀ x, x ∈ uniqueByUrl (overlapCandidates config (successes l)) ↔
          x ∈ uniqueByUrl (overlapCandidates config (successes l')) := by
        intro x
        rw [mem_uniqueByUrl hurl, mem_uniqueByUrl, hcandidates]
        intro u hu v hv
        exact hurl u ((hcandidates u).2 hu) v ((hcandidates v).2 hv)
      have hsub : uniqueByUrl (overlapCandidates config (successes l)) ⊆ l :=
        fun x hx => hsuccesses (overlapCandidates_subset (uniqueByUrl_subset hx))
      have hsame := fastest_unique (hrtt.mono hsub) hmem hu hu'
      refine ⟨hsame, ?_⟩
      simp only [baseTtl_congr hmem (mem_of_fastest hu) (mem_of_fastest hu')]
    | high | low => cases hconfidence
    | nxDomain => cases hstatus
  | low hnone halone hu =>
    cases h' with
    | low hnone' halone' hu' =>
      have hsame := fastest_unique (hrtt.mono hsuccesses)
        (fun x => (successes_perm hp).mem_iff) hu hu'
      refine ⟨hsame, ?_⟩
      simp only [hsame]
    | high | medium => cases hconfidence
    | nxDomain => cases hstatus
  | nxDomain hnone hu =>
    cases h' with
    | nxDomain hnone' hu' =>
      have hperm : (denials l).Perm (denials l') := hp.filter _
      have hsame := fastest_unique (hrtt.mono (List.filter_subset_self _))
        (fun x => hperm.mem_iff) hu hu'
      refine ⟨hsame, ?_⟩
      have hmem := List.mem_map_of_mem (f := orThirty) (mem_of_fastest hu)
      have hmem' := List.mem_map_of_mem (f := orThirty) (mem_of_fastest hu')
      simp only [baseTtl_eq _ hmem, baseTtl_eq _ hmem',
        baseTtl_congr (fun x => (hperm.map orThirty).mem_iff) hmem hmem']
    | high | medium | low => cases hstatus

end Outcomes

/-! ## The law of the selection -/

section Law

variable {config : SelectConfig} {l l' : List UpstreamResult} {c : Chosen}

/-- What the caller reads of a choice. -/
structure Returned where
  status : UpstreamStatus
  confidence : Confidence
  ips : List JsText
  ttlS : ℚ
  deriving DecidableEq

def Chosen.returned (c : Chosen) : Returned := ⟨c.status, c.confidence, c.chosen.ips, c.ttlS⟩

/-- The cap on the TTL of a choice. -/
def applicableCap (config : SelectConfig) (c : Chosen) : ℚ :=
  if c.status = .nxDomain then 30 else cap config c.confidence

/-- The selection as it would be if no groups tied, if overlaps were measured by their ratio alone
and if every TTL were at least one. -/
structure SelectionClaim (config : SelectConfig) (l : List UpstreamResult) : Prop where
  order : (l.map UpstreamResult.rttMs).Nodup → ∀ l', l.Perm l' →
    (selectBest config l').map Chosen.returned = (selectBest config l).map Chosen.returned
  high : ∀ c, selectBest config l = some c → (c.confidence = .high ↔ ∃ hash, Quorate config l hash)
  largest : ∀ c, selectBest config l = some c → c.confidence = .high →
    ∃ hash, Largest l hash ∧ c.chosen ∈ group hash (successes l)
  medium : ∀ c, selectBest config l = some c → c.confidence = .medium →
    ∃ v, [c.chosen, v].Subperm (successes l) ∧
      config.overlapThreshold ≤ overlapRatio c.chosen.ips v.ips
  ttl : ∀ c, selectBest config l = some c →
    1 ≤ c.ttlS ∧ (∀ u ∈ c.considered, c.ttlS ≤ u.ttlS) ∧ c.ttlS ≤ applicableCap config c

/-- The TTL of a result as the choice reads it. -/
def readTtl (c : Chosen) (u : UpstreamResult) : ℚ :=
  if c.status = .nxDomain then (orThirty u).ttlS else u.ttlS

/-- The selection as it is. -/
structure SelectionLaw (config : SelectConfig) (l : List UpstreamResult) : Prop where
  verdict : ∀ l', l.Perm l' → (selectBest config l').map (fun c => (c.status, c.confidence)) =
    (selectBest config l).map fun c => (c.status, c.confidence)
  order : (l.map UpstreamResult.rttMs).Nodup → Unambiguous config l → ∀ l', l.Perm l' →
    (selectBest config l').map Chosen.returned = (selectBest config l).map Chosen.returned
  high : ∀ c, selectBest config l = some c → (c.confidence = .high ↔ ∃ hash, Quorate config l hash)
  largest : ∀ c, selectBest config l = some c → c.confidence = .high →
    ∃ hash, Largest l hash ∧ c.chosen ∈ group hash (successes l)
  medium : ∀ c, selectBest config l = some c → c.confidence = .medium →
    (∃ v, [c.chosen, v].Subperm (successes l) ∧ Overlap config c.chosen v) ∨
      c.status = .nxDomain ∧ config.quorumMin ≤ (denials l).length
  ttl : ∀ c, selectBest config l = some c → 1 ≤ c.ttlS ∧
    (∀ u ∈ c.considered, c.ttlS ≤ max 1 (readTtl c u)) ∧ c.ttlS ≤ applicableCap config c

/-- Either both lists give a choice, or none does. -/
theorem selectBest_none_perm (hp : l.Perm l') :
    selectBest config l = none ↔ selectBest config l' = none := by
  have hdenials : (denials l).Perm (denials l') := hp.filter _
  rw [selectBest_none_iff, selectBest_none_iff, successes_nil_perm hp,
    ← List.length_eq_zero_iff (l := denials l), hdenials.length_eq, List.length_eq_zero_iff]

/-- What is the same of any two choices from permuted lists is the same of their outcomes. -/
theorem map_selectBest_perm {α : Type*} (f : Chosen → α) (hp : l.Perm l')
    (h : ∀ c c', Outcome config l c → Outcome config l' c' → f c = f c') :
    (selectBest config l').map f = (selectBest config l).map f := by
  cases hbest : selectBest config l with
  | none => rw [(selectBest_none_perm hp).1 hbest]
  | some c =>
    cases hbest' : selectBest config l' with
    | none =>
      rw [(selectBest_none_perm hp).2 hbest'] at hbest
      cases hbest
    | some c' =>
      have hsame := h c c' (outcome_of_selectBest hbest) (outcome_of_selectBest hbest')
      exact congrArg some hsame.symm

theorem rttDistinct_of_nodup (h : (l.map UpstreamResult.rttMs).Nodup) : RttDistinct l :=
  fun _ hu _ hv hrtt => List.inj_on_of_nodup_map h hu hv hrtt

theorem Outcome.largest_of_high (h : Outcome config l c) (hhigh : c.confidence = .high) :
    ∃ hash, Largest l hash ∧ c.chosen ∈ group hash (successes l) := by
  cases h with
  | high hash hquorum hlargest hu => exact ⟨hash, hlargest, mem_of_fastest hu⟩
  | medium | low => cases hhigh
  | nxDomain =>
    dsimp only at hhigh
    split at hhigh <;> cases hhigh

theorem Outcome.overlap_of_medium (h : Outcome config l c) (hmedium : c.confidence = .medium) :
    (∃ v, [c.chosen, v].Subperm (successes l) ∧ Overlap config c.chosen v) ∨
      c.status = .nxDomain ∧ config.quorumMin ≤ (denials l).length := by
  cases h with
  | high | low => cases hmedium
  | medium hnone hu =>
    exact .inl (mem_overlapCandidates.1 (uniqueByUrl_subset (mem_of_fastest hu)))
  | nxDomain =>
    dsimp only at hmedium
    split at hmedium
    · next henough => exact .inr ⟨rfl, henough⟩
    · cases hmedium

theorem clamp_le_of_mem {u v : UpstreamResult} (hu : u ∈ l) (hv : v ∈ l) (x : ℚ) :
    max 1 (min (baseTtl u l) x) ≤ max 1 v.ttlS :=
  max_le_max_left 1 ((min_le_left _ _).trans ((baseTtl_le_iff hu).2 ⟨v, hv, le_refl _⟩))

theorem Outcome.ttl (h : Outcome config l c) : 1 ≤ c.ttlS ∧
    (∀ u ∈ c.considered, c.ttlS ≤ max 1 (readTtl c u)) ∧ c.ttlS ≤ applicableCap config c := by
  cases h with
  | high hash hquorum hlargest hu =>
    refine ⟨le_max_left _ _, fun v hv => clamp_le_of_mem (mem_of_fastest hu) hv _, ?_⟩
    exact max_le (one_le_cap .high) (min_le_right _ _)
  | medium hnone hu =>
    refine ⟨le_max_left _ _, fun v hv => clamp_le_of_mem (mem_of_fastest hu) hv _, ?_⟩
    exact max_le (one_le_cap .medium) (min_le_right _ _)
  | low hnone halone hu =>
    refine ⟨le_max_left _ _, fun v hv => ?_, max_le (one_le_cap .low) (min_le_right _ _)⟩
    rw [List.mem_singleton.1 hv]
    exact max_le_max_left 1 (min_le_left _ _)
  | nxDomain hnone hu =>
    have hmem := List.mem_map_of_mem (f := orThirty) (mem_of_fastest hu)
    refine ⟨le_max_left _ _, fun v hv => ?_, max_le (by norm_num [applicableCap]) (min_le_right _ _)⟩
    rw [baseTtl_eq _ hmem]
    exact clamp_le_of_mem hmem (List.mem_map_of_mem hv) 30

/-- The selection does not depend on the order of the upstreams, but where largest groups tie or
overlapping results have one URL. -/
theorem selection_law (config : SelectConfig) (l : List UpstreamResult) : SelectionLaw config l where
  verdict l' hp := by
    refine map_selectBest_perm _ hp fun c c' h h' => ?_
    obtain ⟨hstatus, hconfidence⟩ := h.verdict_perm hp h'
    rw [hstatus, hconfidence]
  order hrtt hclear l' hp := by
    refine map_selectBest_perm _ hp fun c c' h h' => ?_
    obtain ⟨hstatus, hconfidence⟩ := h.verdict_perm hp h'
    obtain ⟨hchosen, httl⟩ := h.chosen_perm hp (rttDistinct_of_nodup hrtt) hclear h'
    rw [Chosen.returned, Chosen.returned, hstatus, hconfidence, hchosen, httl]
  high c h := (outcome_of_selectBest h).high_iff
  largest c h := (outcome_of_selectBest h).largest_of_high
  medium c h := (outcome_of_selectBest h).overlap_of_medium
  ttl c h := (outcome_of_selectBest h).ttl

/-! ### Where the order, the overlap and the bounds fail -/

def sampleResult (url : Char) (rttMs : ℚ) (ips : List JsText) (ttlS : ℚ) (rrsetHash : Char) :
    UpstreamResult where
  url := [url]
  rttMs
  status := .noError
  cnames := []
  chain := []
  answers := []
  ips
  ttlS
  rrsetHash := [rrsetHash]

def sampleConfig (quorumMin : ℚ) (hquorum : 1 ≤ quorumMin) : SelectConfig where
  quorumMin
  overlapThreshold := 1
  ttlCapS := 300
  one_le_quorumMin := hquorum
  one_le_ttlCapS := by norm_num

/-- Two groups of one result each. -/
def tiedResults : List UpstreamResult :=
  [sampleResult 'a' 1 [['1']] 60 'x', sampleResult 'b' 2 [['2']] 60 'y']

/-- One upstream twice, whose answers differ, next to another one. -/
def repeatedResults : List UpstreamResult :=
  [sampleResult 'a' 1 [['1'], ['2']] 60 'x', sampleResult 'a' 2 [['2'], ['3']] 60 'y',
    sampleResult 'b' 3 [['2'], ['4']] 60 'z']

/-- Two results that have one of two addresses in common. -/
def sharedResults : List UpstreamResult :=
  [sampleResult 'a' 1 [['1'], ['2']] 60 'x', sampleResult 'b' 2 [['2'], ['3']] 60 'y']

/-- Two results that deny the name. -/
def deniedResults : List UpstreamResult :=
  [{ sampleResult 'a' 1 [] 30 'x' with status := .nxDomain },
    { sampleResult 'b' 2 [] 30 'x' with status := .nxDomain }]

/-- A result whose addresses live no time. -/
def shortResults : List UpstreamResult := [sampleResult 'a' 1 [['1']] 0 'x']

/-- The order decides between groups that tie and between two answers of one upstream, one address
in common is enough of an overlap, a denial that is called medium overlaps nothing, and a TTL of zero
becomes one. -/
theorem selection_differs : ¬SelectionClaim (sampleConfig 1 (by decide)) tiedResults ∧
    ¬SelectionClaim (sampleConfig 2 (by decide)) repeatedResults ∧
    ¬SelectionClaim (sampleConfig 2 (by decide)) sharedResults ∧
    ¬SelectionClaim (sampleConfig 2 (by decide)) deniedResults ∧
    ¬SelectionClaim (sampleConfig 1 (by decide)) shortResults := by
  refine ⟨fun h => ?_, fun h => ?_, fun h => ?_, fun h => ?_, fun h => ?_⟩
  · have horder := h.order (by decide) tiedResults.reverse (List.reverse_perm _).symm
    exact absurd horder (by decide)
  · have horder := h.order (by decide)
      [sampleResult 'a' 2 [['2'], ['3']] 60 'y', sampleResult 'a' 1 [['1'], ['2']] 60 'x',
        sampleResult 'b' 3 [['2'], ['4']] 60 'z'] (List.Perm.swap _ _ _)
    exact absurd horder (by decide)
  · have hbest : selectBest (sampleConfig 2 (by decide)) sharedResults = some
        ⟨.noError, .medium, sampleResult 'a' 1 [['1'], ['2']] 60 'x', sharedResults, 60⟩ := by decide
    obtain ⟨v, hsub, hratio⟩ := h.medium _ hbest rfl
    have hv : v ∈ [sampleResult 'b' 2 [['2'], ['3']] 60 'y'] :=
      List.singleton_subperm_iff.1 ((List.subperm_cons _).1 hsub)
    rw [List.mem_singleton.1 hv] at hratio
    exact absurd hratio (by decide +kernel)
  · have hbest : selectBest (sampleConfig 2 (by decide)) deniedResults = some
        ⟨.nxDomain, .medium, { sampleResult 'a' 1 [] 30 'x' with status := .nxDomain },
          deniedResults, 30⟩ := by decide
    obtain ⟨v, hsub, -⟩ := h.medium _ hbest rfl
    cases hsub.subset List.mem_cons_self
  · have hbest : selectBest (sampleConfig 1 (by decide)) shortResults = some
        ⟨.noError, .high, sampleResult 'a' 1 [['1']] 0 'x', shortResults, 1⟩ := by decide
    have hzero := (h.ttl _ hbest).2.1 _ List.mem_cons_self
    exact absurd hzero (by decide)

end Law

end Ddns.Gateway
