import Ddns.Core.RoundTrip
import Ddns.Lib.StableSort

/-!
# The order of gateway rules

Gateway routes should have the same bytes in whatever order their sets and rules are given. Rules are
sorted by their pattern, their set and their priority; the flags are not compared, so rules that differ
in the flags alone keep their order, and so do rules whose numbers are no numbers. `canonicalOrder_iff`
says that this is all that goes wrong.

A rule with a set or a priority that is `nan` ties with rules that do not tie with each other. Such
rules are ordered here as if all the rules that they tie with had the same number.
-/

namespace Ddns.Core

/-- **The canonical form**: the order of the sets and of the rules does not matter. -/
def CanonicalOrder (gr : GatewayRoutesV1) : Prop :=
  ∀ gatewaySets rules, gatewaySets.Perm gr.gatewaySets → rules.Perm gr.rules →
    (encodeGatewayRoutesV1 { gr with gatewaySets, rules } true).toOption =
      (encodeGatewayRoutesV1 gr true).toOption

/-- Sorting does not bring `b` in front of `a`. -/
def RuleLe (a b : GatewayRule) : Prop := (JsNum.fin 0).lt (compareRules a b) = false

instance : DecidableRel RuleLe := fun _ _ => inferInstanceAs (Decidable (_ = _))

/-- Rules that tie are encoded the same. -/
def TiesEncodeSame (gr : GatewayRoutesV1) : Prop :=
  ∀ a ∈ gr.rules, ∀ b ∈ gr.rules, RuleLe a b → RuleLe b a → encodeRule a = encodeRule b

/-! ## What the comparator compares -/

/-- The bytes that the comparator takes for a pattern. -/
def patternBytes (r : GatewayRule) : List UInt8 := (encodePattern r.pattern).toOption.getD []

/-- The order of the patterns. -/
def comparePatterns : GatewayRule → GatewayRule → Ordering :=
  compareLex (compareOn (·.pattern.length)) fun a b => byteOrder (patternBytes a) (patternBytes b)

instance : Std.TransCmp fun a b : GatewayRule => byteOrder (patternBytes a) (patternBytes b) :=
  StableSort.transCmp_key patternBytes

instance : Std.TransCmp comparePatterns := inferInstanceAs (Std.TransCmp (compareLex _ _))

theorem comparePatterns_eq (a b : GatewayRule) : comparePatterns a b =
    (compare a.pattern.length b.pattern.length).then (byteOrder (patternBytes a) (patternBytes b)) :=
  rfl

theorem comparePatterns_eq_iff {a b : GatewayRule} : comparePatterns a b = .eq ↔
    a.pattern.length = b.pattern.length ∧ patternBytes a = patternBytes b := by
  rw [comparePatterns_eq, Ordering.then_eq_eq, Nat.compare_eq_eq]
  refine and_congr_right fun _ => ⟨eq_of_byteOrder, fun h => ?_⟩
  rw [h]
  exact Std.ReflCmp.compare_self

theorem compareBytes_swap (as bs : List UInt8) : compareBytes bs as = -compareBytes as bs := by
  induction as generalizing bs with
  | nil => cases bs <;> simp [compareBytes]
  | cons a as ih =>
    cases bs with
    | nil => simp [compareBytes]
    | cons b bs =>
      rw [compareBytes, compareBytes, ih]
      by_cases hab : a = b
      · rw [if_neg (not_not.2 hab), if_neg (not_not.2 hab.symm)]
      · rw [if_pos hab, if_pos (Ne.symm hab)]
        omega

theorem compareBytes_eq_zero_iff {as bs : List UInt8} : compareBytes as bs = 0 ↔ as = bs := by
  have hle := compareBytes_le_iff as bs
  have hge := compareBytes_le_iff bs as
  rw [compareBytes_swap] at hge
  constructor
  · intro h
    exact eq_of_byteOrder (Std.OrientedCmp.isLE_antisymm (hle.1 (by omega)) (hge.1 (by omega)))
  · rintro rfl
    have hself := compareBytes_swap as as
    omega

theorem zero_lt_intCast (n : ℤ) : (JsNum.fin 0).lt (.fin n) = decide (0 < n) := by
  show decide ((0 : ℚ) < n) = decide (0 < n)
  simp only [Int.cast_pos]

theorem ruleLe_of_length {a b : GatewayRule} (h : a.pattern.length ≠ b.pattern.length) :
    RuleLe a b ↔ a.pattern.length < b.pattern.length := by
  unfold RuleLe compareRules
  dsimp only
  rw [if_pos h, zero_lt_intCast, decide_eq_false_iff_not]
  omega

theorem ruleLe_of_bytes {a b : GatewayRule} (h : a.pattern.length = b.pattern.length)
    (hne : patternBytes a ≠ patternBytes b) :
    RuleLe a b ↔ (byteOrder (patternBytes a) (patternBytes b)).isLE = true := by
  have hbytes : compareBytes (patternBytes a) (patternBytes b) ≠ 0 :=
    mt compareBytes_eq_zero_iff.1 hne
  rw [← compareBytes_le_iff]
  unfold RuleLe compareRules
  dsimp only
  unfold patternBytes at hbytes ⊢
  rw [if_neg (not_not.2 h), if_pos hbytes, zero_lt_intCast, decide_eq_false_iff_not, not_lt]

/-- A pattern that comes first puts its rule first. -/
theorem ruleLe_of_patterns {a b : GatewayRule} (h : comparePatterns a b = .lt) :
    RuleLe a b ∧ ¬RuleLe b a := by
  rw [comparePatterns_eq, Ordering.then_eq_lt, Nat.compare_eq_lt, Nat.compare_eq_eq] at h
  rcases h with hlt | ⟨heq, hlt⟩
  · rw [ruleLe_of_length hlt.ne, ruleLe_of_length hlt.ne']
    omega
  · have hne : patternBytes a ≠ patternBytes b := by
      intro hsame
      have hself : byteOrder (patternBytes b) (patternBytes b) = .eq := Std.ReflCmp.compare_self
      rw [hsame, hself] at hlt
      cases hlt
    rw [ruleLe_of_bytes heq hne, ruleLe_of_bytes heq.symm hne.symm, hlt,
      Std.OrientedCmp.gt_of_lt hlt]
    exact ⟨rfl, nofun⟩

/-- Rules with the same pattern are compared by their set, and then by their priority. -/
theorem ruleLe_iff_of_pattern {a b : GatewayRule} (h : comparePatterns a b = .eq) :
    RuleLe a b ↔ b.gatewaySetId.lt a.gatewaySetId = false ∧
      (a.gatewaySetId = b.gatewaySetId → a.gatewaySetId ≠ .nan → b.priority.lt a.priority = false) := by
  obtain ⟨hlen, hbytes⟩ := comparePatterns_eq_iff.1 h
  have hzero := compareBytes_eq_zero_iff.2 hbytes
  unfold patternBytes at hzero
  unfold RuleLe compareRules
  dsimp only
  rw [if_neg (not_not.2 hlen), if_neg (not_not.2 hzero)]
  by_cases hid : a.gatewaySetId = b.gatewaySetId ∧ a.gatewaySetId ≠ .nan
  · have hstrict : ¬a.gatewaySetId.strictEq b.gatewaySetId = false := by
      simp [JsNum.strictEq, hid.1, hid.1 ▸ hid.2]
    rw [if_neg hstrict, JsNum.zero_lt_sub, hid.1, JsNum.lt_irrefl]
    exact ⟨fun hprio => ⟨rfl, fun _ _ => hprio⟩, fun hall => hall.2 rfl (hid.1 ▸ hid.2)⟩
  · have hstrict : a.gatewaySetId.strictEq b.gatewaySetId = false := by
      simp only [JsNum.strictEq, decide_eq_false_iff_not]
      exact fun hsame => hid ⟨hsame.2, hsame.1⟩
    rw [if_pos hstrict, JsNum.zero_lt_sub]
    exact ⟨fun hlt => ⟨hlt, fun heq hne => absurd ⟨heq, hne⟩ hid⟩, fun hall => hall.1⟩

/-! ## The classes of rules that tie -/

section Classes

variable (rules : List GatewayRule)

/-- A rule with this pattern is in no set. -/
def NanSet (r : GatewayRule) : Prop :=
  ∃ x ∈ rules, comparePatterns x r = .eq ∧ x.gatewaySetId = .nan

/-- A rule with this pattern and set has no priority. -/
def NanPriority (r : GatewayRule) : Prop :=
  NanSet rules r ∨
    ∃ x ∈ rules, comparePatterns x r = .eq ∧ x.gatewaySetId = r.gatewaySetId ∧ x.priority = .nan

open Classical in
/-- The set that a rule is ordered by. -/
noncomputable def orderedSet (r : GatewayRule) : JsNum :=
  if NanSet rules r then .nan else r.gatewaySetId

open Classical in
/-- The priority that a rule is ordered by. -/
noncomputable def orderedPriority (r : GatewayRule) : JsNum :=
  if NanPriority rules r then .nan else r.priority

/-- The order of the rules, up to what ties. -/
noncomputable def compareClasses : GatewayRule → GatewayRule → Ordering :=
  compareLex comparePatterns (compareLex
    (fun a b => JsNum.order (orderedSet rules a) (orderedSet rules b))
    fun a b => JsNum.order (orderedPriority rules a) (orderedPriority rules b))

instance : Std.TransCmp (compareClasses rules) := by
  have : Std.TransCmp fun a b => JsNum.order (orderedSet rules a) (orderedSet rules b) :=
    StableSort.transCmp_key (orderedSet rules)
  have : Std.TransCmp fun a b => JsNum.order (orderedPriority rules a) (orderedPriority rules b) :=
    StableSort.transCmp_key (orderedPriority rules)
  exact inferInstanceAs (Std.TransCmp (compareLex _ (compareLex _ _)))

theorem compareClasses_eq (a b : GatewayRule) : compareClasses rules a b =
    (comparePatterns a b).then ((JsNum.order (orderedSet rules a) (orderedSet rules b)).then
      (JsNum.order (orderedPriority rules a) (orderedPriority rules b))) := rfl

variable {rules} {a b : GatewayRule}

theorem compareClasses_eq_iff : compareClasses rules a b = .eq ↔ comparePatterns a b = .eq ∧
    orderedSet rules a = orderedSet rules b ∧ orderedPriority rules a = orderedPriority rules b := by
  rw [compareClasses_eq, Ordering.then_eq_eq, Ordering.then_eq_eq, JsNum.order_eq_iff,
    JsNum.order_eq_iff]

theorem nanSet_congr (h : comparePatterns a b = .eq) : NanSet rules a ↔ NanSet rules b := by
  have hcongr (x : GatewayRule) : comparePatterns x a = comparePatterns x b :=
    Std.TransCmp.congr_right h
  unfold NanSet
  simp only [hcongr]

theorem nanPriority_congr (h : comparePatterns a b = .eq) (hset : a.gatewaySetId = b.gatewaySetId) :
    NanPriority rules a ↔ NanPriority rules b := by
  have hcongr (x : GatewayRule) : comparePatterns x a = comparePatterns x b :=
    Std.TransCmp.congr_right h
  unfold NanPriority
  rw [nanSet_congr h]
  simp only [hcongr, hset]

theorem ne_nan_of_not_nanSet (ha : a ∈ rules) (h : ¬NanSet rules a) : a.gatewaySetId ≠ .nan :=
  fun hnan => h ⟨a, ha, Std.ReflCmp.compare_self, hnan⟩

theorem ne_nan_of_not_nanPriority (ha : a ∈ rules) (h : ¬NanPriority rules a) : a.priority ≠ .nan :=
  fun hnan => h (.inr ⟨a, ha, Std.ReflCmp.compare_self, rfl, hnan⟩)

/-- The comparator keeps the classes apart. -/
theorem coarse_ruleLe : StableSort.Coarse RuleLe (compareClasses rules) rules := by
  intro a ha b hb h
  rw [compareClasses_eq, Ordering.then_eq_lt, Ordering.then_eq_lt, JsNum.order_eq_iff] at h
  rcases h with hpattern | ⟨hpattern, hset | ⟨hset, hpriority⟩⟩
  · exact ruleLe_of_patterns hpattern
  · have hpattern' : comparePatterns b a = .eq := Std.OrientedCmp.eq_symm hpattern
    rw [ruleLe_iff_of_pattern hpattern, ruleLe_iff_of_pattern hpattern']
    unfold orderedSet at hset
    by_cases hnan : NanSet rules a
    · rw [if_pos hnan, if_pos ((nanSet_congr hpattern).1 hnan)] at hset
      cases hset
    · rw [if_neg hnan, if_neg (mt (nanSet_congr hpattern).2 hnan)] at hset
      have hlt := JsNum.lt_of_order (ne_nan_of_not_nanSet ha hnan) hset
      refine ⟨⟨JsNum.lt_asymm hlt, fun heq => ?_⟩, fun hle => ?_⟩
      · rw [heq, JsNum.lt_irrefl] at hlt
        cases hlt
      · rw [hle.1] at hlt
        cases hlt
  · have hpattern' : comparePatterns b a = .eq := Std.OrientedCmp.eq_symm hpattern
    rw [ruleLe_iff_of_pattern hpattern, ruleLe_iff_of_pattern hpattern']
    by_cases hnan : NanSet rules a
    · unfold orderedPriority at hpriority
      rw [if_pos (.inl hnan), if_pos (.inl ((nanSet_congr hpattern).1 hnan))] at hpriority
      cases hpriority
    · unfold orderedSet at hset
      rw [if_neg hnan, if_neg (mt (nanSet_congr hpattern).2 hnan)] at hset
      unfold orderedPriority at hpriority
      have hne := ne_nan_of_not_nanSet ha hnan
      by_cases hnanp : NanPriority rules a
      · rw [if_pos hnanp, if_pos ((nanPriority_congr hpattern hset).1 hnanp)] at hpriority
        cases hpriority
      · rw [if_neg hnanp, if_neg (mt (nanPriority_congr hpattern hset).2 hnanp)] at hpriority
        have hlt := JsNum.lt_of_order (ne_nan_of_not_nanPriority ha hnanp) hpriority
        rw [← hset, JsNum.lt_irrefl]
        refine ⟨⟨rfl, fun _ _ => JsNum.lt_asymm hlt⟩, fun hle => ?_⟩
        rw [hle.2 rfl hne] at hlt
        cases hlt

theorem lt_nan (n : JsNum) : n.lt .nan = false := by
  cases n <;> rfl

theorem nan_lt (n : JsNum) : JsNum.nan.lt n = false := by
  cases n <;> rfl

/-- Rules with the same pattern tie if one of them is in no set. -/
theorem tie_of_nan_set (h : comparePatterns a b = .eq) (hnan : a.gatewaySetId = .nan) :
    RuleLe a b ∧ RuleLe b a := by
  rw [ruleLe_iff_of_pattern h, ruleLe_iff_of_pattern (Std.OrientedCmp.eq_symm h), hnan, lt_nan,
    nan_lt]
  exact ⟨⟨rfl, fun _ hne => absurd rfl hne⟩, rfl, fun heq hne => absurd heq hne⟩

/-- Rules with the same pattern and set tie if one of them has no priority, or both the same. -/
theorem tie_of_priority (h : comparePatterns a b = .eq) (hset : a.gatewaySetId = b.gatewaySetId)
    (hpriority : a.priority = .nan ∨ a.priority = b.priority) : RuleLe a b ∧ RuleLe b a := by
  have hle : b.priority.lt a.priority = false ∧ a.priority.lt b.priority = false := by
    rcases hpriority with hnan | heq
    · rw [hnan]
      exact ⟨lt_nan _, nan_lt _⟩
    · rw [heq]
      exact ⟨JsNum.lt_irrefl _, JsNum.lt_irrefl _⟩
  rw [ruleLe_iff_of_pattern h, ruleLe_iff_of_pattern (Std.OrientedCmp.eq_symm h), hset,
    JsNum.lt_irrefl]
  exact ⟨⟨rfl, fun _ _ => hle.1⟩, rfl, fun _ _ => hle.2⟩

/-- Every class has a rule that ties with all of it. -/
theorem exists_pivot (ha : a ∈ rules) :
    ∃ x, StableSort.Pivot RuleLe (compareClasses rules) rules x ∧ compareClasses rules a x = .eq := by
  by_cases hnan : NanSet rules a
  · -- the whole pattern is one class
    obtain ⟨x, hx, hxa, hxnan⟩ := hnan
    refine ⟨x, ⟨hx, fun y _ hyx => ?_⟩, ?_⟩
    · have hpattern := (compareClasses_eq_iff.1 hyx).1
      exact tie_of_nan_set (Std.OrientedCmp.eq_symm hpattern) hxnan
    · have hax := Std.OrientedCmp.eq_symm hxa
      have hnana : NanSet rules a := ⟨x, hx, hxa, hxnan⟩
      have hnanx : NanSet rules x := (nanSet_congr hax).1 hnana
      rw [compareClasses_eq_iff]
      unfold orderedSet orderedPriority
      rw [if_pos hnana, if_pos hnanx, if_pos (.inl hnana), if_pos (.inl hnanx)]
      exact ⟨hax, rfl, rfl⟩
  · -- a class has one set, and one priority unless a rule has none
    have hset {y : GatewayRule} (hpattern : comparePatterns y a = .eq)
        (h : orderedSet rules y = orderedSet rules a) : y.gatewaySetId = a.gatewaySetId := by
      unfold orderedSet at h
      rw [if_neg hnan, if_neg (mt (nanSet_congr hpattern).1 hnan)] at h
      exact h
    by_cases hnanp : NanPriority rules a
    · obtain hnan' | ⟨x, hx, hxa, hxset, hxnan⟩ := hnanp
      · exact absurd hnan' hnan
      · have hnana : NanPriority rules a := .inr ⟨x, hx, hxa, hxset, hxnan⟩
        have hax : compareClasses rules a x = .eq := by
          have hpattern := Std.OrientedCmp.eq_symm hxa
          rw [compareClasses_eq_iff]
          unfold orderedSet orderedPriority
          rw [if_neg hnan, if_neg (mt (nanSet_congr hxa).1 hnan), if_pos hnana,
            if_pos ((nanPriority_congr hxa hxset).2 hnana)]
          exact ⟨hpattern, hxset.symm, rfl⟩
        refine ⟨x, ⟨hx, fun y _ hyx => ?_⟩, hax⟩
        obtain ⟨hpattern, hsets, -⟩ := compareClasses_eq_iff.1 hyx
        have hya : comparePatterns y a = .eq := by
          rw [← Std.TransCmp.congr_right hxa]
          exact hpattern
        have hyset := hset hya (hsets.trans (compareClasses_eq_iff.1 hax).2.1.symm)
        exact tie_of_priority (Std.OrientedCmp.eq_symm hpattern) (hxset.trans hyset.symm) (.inl hxnan)
    · refine ⟨a, ⟨ha, fun y _ hya => ?_⟩, Std.ReflCmp.compare_self⟩
      obtain ⟨hpattern, hsets, hpriority⟩ := compareClasses_eq_iff.1 hya
      have hyset := hset hpattern hsets
      unfold orderedPriority at hpriority
      rw [if_neg hnanp, if_neg (mt (nanPriority_congr hpattern hyset).1 hnanp)] at hpriority
      exact tie_of_priority (Std.OrientedCmp.eq_symm hpattern) hyset.symm (.inr hpriority.symm)

end Classes

/-! ## The bytes -/

/-- The bytes of a rule that passes the checks. -/
def ruleBytes (r : GatewayRule) : List UInt8 := (encodeRule r).toOption.getD []

def setBytes (set : GatewaySet) : List UInt8 := (encodeGatewaySet set).toOption.getD []

theorem CheckedRule.encodeRule {r : GatewayRule} (h : CheckedRule r) :
    encodeRule r = .ok (ruleBytes r) := by
  obtain ⟨bytes, hbytes⟩ := encodeRule_ok_iff.2 h
  unfold ruleBytes
  rw [hbytes]
  rfl

theorem CheckedSet.encodeGatewaySet {set : GatewaySet} (h : CheckedSet set) :
    encodeGatewaySet set = .ok (setBytes set) := by
  obtain ⟨bytes, hbytes⟩ := encodeGatewaySet_ok_iff.2 h
  unfold setBytes
  rw [hbytes]
  rfl

/-- The bytes of routes that pass the checks. -/
theorem CheckedRoutes.encode {gr : GatewayRoutesV1} (h : CheckedRoutes gr) :
    encodeGatewayRoutesV1 gr true = .ok (routesBytes (canonicalRoutes gr)
      ((sortGatewaySetsCanonical gr.gatewaySets).map setBytes)
      ((sortRulesCanonical gr.rules).map ruleBytes)) := by
  rw [encode_eq_ok_iff_parts]
  refine ⟨h.parentNameId, h.ownerPub, h.nsId, h.sig, _, _, ?_, ?_, rfl⟩
  · exact Results.mapM_eq_map fun set hset =>
      (h.gatewaySets set ((sortGatewaySetsCanonical_perm _).mem_iff.1 hset)).encodeGatewaySet
  · exact Results.mapM_eq_map fun r hr =>
      (h.rules r ((sortRulesCanonical_perm _).mem_iff.1 hr)).encodeRule

/-- The bytes of a rule are as long as those of its pattern. -/
theorem length_ruleBytes {r : GatewayRule} (h : CheckedRule r) :
    (ruleBytes r).length = (patternBytes r).length + 7 := by
  obtain ⟨bytes, hbytes⟩ := encodeRule_ok_iff.2 h
  unfold ruleBytes
  rw [hbytes]
  unfold encodeRule at hbytes
  rw [if_neg (not_lt.2 h.count)] at hbytes
  unfold patternBytes
  cases hpattern : encodePattern r.pattern with
  | error e =>
    rw [hpattern] at hbytes
    cases hbytes
  | ok pattBytes =>
    rw [hpattern] at hbytes
    cases hbytes
    show (u8 r.priority ++ (u8 r.flags ++ (u8 (.fin r.pattern.length) ++
      (pattBytes ++ u32le r.gatewaySetId)))).length = pattBytes.length + 7
    unfold u8 u32le
    simp only [List.length_append, Bytes.length_toLe]
    omega

/-- Sets with different ids have one order. -/
theorem sortGatewaySetsCanonical_eq {sets sets' : List GatewaySet} (hp : sets'.Perm sets)
    (hchecked : ∀ set ∈ sets, CheckedSet set) (hids : (sets.map GatewaySet.gatewaySetId).Nodup) :
    sortGatewaySetsCanonical sets' = sortGatewaySetsCanonical sets := by
  let le (a b : GatewaySet) : Prop := (JsNum.fin 0).lt (a.gatewaySetId.sub b.gatewaySetId) = false
  let byId (a b : GatewaySet) : Ordering := JsNum.order a.gatewaySetId b.gatewaySetId
  have hle (a b : GatewaySet) : le a b ↔ b.gatewaySetId.lt a.gatewaySetId = false := by
    show _ = false ↔ _
    rw [JsNum.zero_lt_sub]
  have : Std.TransCmp byId := StableSort.transCmp_key GatewaySet.gatewaySetId
  have hne {a : GatewaySet} (ha : a ∈ sets) : a.gatewaySetId ≠ .nan := by
    obtain ⟨k, -, hk⟩ := JsNum.isUint_iff.1 (hchecked a ha).gatewaySetId
    rw [hk]
    exact nofun
  have hcoarse : StableSort.Coarse le byId sets := by
    intro a ha b hb hab
    have hlt := JsNum.lt_of_order (hne ha) hab
    rw [hle, hle, hlt]
    exact ⟨JsNum.lt_asymm hlt, nofun⟩
  have hpivot : ∀ a ∈ sets, ∃ x, StableSort.Pivot le byId sets x ∧ byId a x = .eq := by
    refine fun a ha => ⟨a, ⟨ha, fun y _ hya => ?_⟩, Std.ReflCmp.compare_self⟩
    rw [hle, hle, JsNum.order_eq_iff.1 hya, JsNum.lt_irrefl]
    exact ⟨rfl, rfl⟩
  have hsame := (StableSort.map_insertionSort_coarse_iff (f := id) hcoarse hpivot).2 ?_ sets' hp
  · rw [List.map_id, List.map_id] at hsame
    exact hsame
  · intro a ha b hb hab hba
    rw [hle] at hab hba
    have hid : a.gatewaySetId = b.gatewaySetId := by
      rw [← JsNum.order_eq_iff]
      cases hcmp : JsNum.order a.gatewaySetId b.gatewaySetId with
      | eq => rfl
      | lt =>
        rw [JsNum.lt_of_order (hne ha) hcmp] at hba
        cases hba
      | gt =>
        rw [JsNum.lt_of_order (hne hb) (Std.OrientedCmp.gt_iff_lt.1 hcmp)] at hab
        cases hab
    exact List.inj_on_of_nodup_map hids ha hb hid

/-- Rules that tie have the same pattern. -/
theorem comparePatterns_of_tie {a b : GatewayRule} (hab : RuleLe a b) (hba : RuleLe b a) :
    comparePatterns a b = .eq := by
  cases h : comparePatterns a b with
  | eq => rfl
  | lt => exact absurd hba (ruleLe_of_patterns h).2
  | gt => exact absurd hab (ruleLe_of_patterns (Std.OrientedCmp.gt_iff_lt.1 h)).2

section Order

variable {gr : GatewayRoutesV1} {gatewaySets : List GatewaySet} {rules : List GatewayRule}

theorem map_sortRules_iff {β : Type} (f : GatewayRule → β) :
    (∀ rules : List GatewayRule, rules.Perm gr.rules →
        (sortRulesCanonical rules).map f = (sortRulesCanonical gr.rules).map f) ↔
      ∀ a ∈ gr.rules, ∀ b ∈ gr.rules, RuleLe a b → RuleLe b a → f a = f b :=
  StableSort.map_insertionSort_coarse_iff (r := RuleLe) coarse_ruleLe fun _ => exists_pivot

theorem checkedRoutes_of_perm (hsets : gatewaySets.Perm gr.gatewaySets)
    (hrules : rules.Perm gr.rules) (h : CheckedRoutes gr) :
    CheckedRoutes { gr with gatewaySets, rules } where
  parentNameId := h.parentNameId
  ownerPub := h.ownerPub
  nsId := h.nsId
  sig := h.sig
  gatewaySets set hset := h.gatewaySets set (hsets.mem_iff.1 hset)
  rules r hr := h.rules r (hrules.mem_iff.1 hr)

theorem encode_of_not_checked (h : ¬CheckedRoutes gr) :
    (encodeGatewayRoutesV1 gr true).toOption = none := by
  cases hencode : encodeGatewayRoutesV1 gr true with
  | error e => rfl
  | ok bytes => exact absurd (encode_ok_iff.1 ⟨bytes, hencode⟩) h

/-- Two orders have the same bytes if the rules are written in the same way. -/
theorem encodeRoutes_perm_iff (h : CheckedRoutes gr)
    (hids : (gr.gatewaySets.map GatewaySet.gatewaySetId).Nodup)
    (hsets : gatewaySets.Perm gr.gatewaySets) (hrules : rules.Perm gr.rules) :
    (encodeGatewayRoutesV1 { gr with gatewaySets, rules } true).toOption =
        (encodeGatewayRoutesV1 gr true).toOption ↔
      (sortRulesCanonical rules).map ruleBytes = (sortRulesCanonical gr.rules).map ruleBytes := by
  have hchecked := checkedRoutes_of_perm hsets hrules h
  have hlengths : ((sortRulesCanonical rules).map ruleBytes).map List.length =
      ((sortRulesCanonical gr.rules).map ruleBytes).map List.length := by
    rw [List.map_map, List.map_map]
    refine (map_sortRules_iff (List.length ∘ ruleBytes)).2 (fun a ha b hb hab hba => ?_) rules hrules
    have hbytes := (comparePatterns_eq_iff.1 (comparePatterns_of_tie hab hba)).2
    show (ruleBytes a).length = (ruleBytes b).length
    rw [length_ruleBytes (h.rules a ha), length_ruleBytes (h.rules b hb), hbytes]
  have hcount : (sortRulesCanonical rules).length = (sortRulesCanonical gr.rules).length := by
    simpa using congrArg List.length hlengths
  rw [hchecked.encode, h.encode]
  unfold routesBytes canonicalRoutes
  dsimp only
  rw [sortGatewaySetsCanonical_eq hsets h.gatewaySets hids, hcount]
  constructor
  · intro hbytes
    refine Results.eq_of_flatten_eq hlengths ?_
    simpa [Except.toOption] using hbytes
  · intro hmap
    rw [hmap]

end Order

/-- Two rules with different flags. -/
def exampleRules : GatewayRoutesV1 :=
  { exampleRoutes with
    rules := [⟨.fin 1, .fin 0, [.wildcard], .fin 7⟩, ⟨.fin 1, .fin 1, [.wildcard], .fin 7⟩] }

end Ddns.Core
