import Ddns.Core.RouteSet

/-!
# Canonical route sets

Two orders of the same records should have the same bytes, and so the same hash and signature. The
records are sorted by type, time to live and data; the class is not compared, so records that differ
in the class alone keep the order in which they are given. `canonical_iff` says that this is all that
goes wrong.
-/

namespace Ddns.Core

/-- **The canonical form** of a route set: the order of its records does not matter, and decoding
and encoding its bytes gives them again. -/
structure Canonical (rs : RouteSetV1) : Prop where
  perm : ∀ recs : JsArray RecordV1, recs.1.Perm rs.records.1 →
    (encodeRouteSetV1 { rs with records := recs } true).toOption =
      (encodeRouteSetV1 rs true).toOption
  reencode : ∀ bytes, encodeRouteSetV1 rs true = .ok bytes →
    ∃ rs', decodeRouteSetV1 bytes = .ok rs' ∧ encodeRouteSetV1 rs' true = .ok bytes

/-- Records that agree in what is compared agree in the class. -/
def ClassDetermined (recs : List RecordV1) : Prop :=
  ∀ a ∈ recs, ∀ b ∈ recs, a.rrType = b.rrType → a.ttl = b.ttl → a.rdata = b.rdata →
    a.rrClass = b.rrClass

/-! ## The order of the records -/

namespace Record

/-- What the comparator compares. -/
def compareFields : Record → Record → Ordering :=
  compareLex (compareOn rrType) (compareLex (compareOn ttl) fun a b => byteOrder a.rdata b.rdata)

instance : Std.TransCmp fun a b : Record => byteOrder a.rdata b.rdata where
  eq_swap {_ _} := @Std.OrientedCmp.eq_swap _ byteOrder _ _ _
  isLE_trans {_ _ _} := @Std.TransCmp.isLE_trans _ byteOrder _ _ _ _

instance : Std.TransCmp compareFields :=
  inferInstanceAs (Std.TransCmp (compareLex _ (compareLex _ _)))

def Le (a b : Record) : Prop := (compareFields a b).isLE = true

instance : DecidableRel Le := fun _ _ => inferInstanceAs (Decidable (_ = _))

instance : Std.Total Le := ⟨fun a b => by
  unfold Le
  cases h : compareFields a b with
  | lt => exact .inl rfl
  | eq => exact .inl rfl
  | gt => exact .inr (by rw [Std.OrientedCmp.lt_of_gt h]; rfl)⟩

instance : IsTrans Record Le := ⟨fun _ _ _ => Std.TransCmp.isLE_trans⟩

end Record

theorem lt_sub_natCast {a b : ℕ} :
    (JsNum.fin 0).lt ((JsNum.fin a).sub (.fin b)) = false ↔ a ≤ b := by
  show decide ((0 : ℚ) < a + -b) = false ↔ a ≤ b
  rw [decide_eq_false_iff_not, not_lt, ← sub_eq_add_neg, sub_nonpos]
  exact_mod_cast Iff.rfl

theorem strictEq_natCast {a b : ℕ} : (JsNum.fin a).strictEq (.fin b) = false ↔ a ≠ b := by
  simp [JsNum.strictEq]

theorem compareRecords_le_iff (a b : Record) :
    (JsNum.fin 0).lt (compareRecords a.toV1 b.toV1) = false ↔ a.Le b := by
  have hcompare : a.compareFields b = (compare a.rrType b.rrType).then
      ((compare a.ttl b.ttl).then (byteOrder a.rdata b.rdata)) := rfl
  unfold Record.Le compareRecords Record.toV1
  simp only [strictEq_natCast]
  rw [hcompare, Ordering.isLE_then_iff_or, Nat.compare_eq_lt, Nat.compare_eq_eq]
  by_cases htype : a.rrType = b.rrType
  · rw [if_neg (not_not.2 htype), Ordering.isLE_then_iff_or, Nat.compare_eq_lt, Nat.compare_eq_eq]
    by_cases httl : a.ttl = b.ttl
    · rw [if_neg (not_not.2 httl), ← compareBytes_le_iff]
      show decide ((0 : ℚ) < compareBytes a.rdata b.rdata) = false ↔ _
      rw [decide_eq_false_iff_not, not_lt, Int.cast_nonpos]
      omega
    · rw [if_pos httl, lt_sub_natCast]
      omega
  · rw [if_pos htype, lt_sub_natCast]
    omega

/-- Records tie that agree in what is compared. -/
theorem Record.tie_iff (a b : Record) :
    (a.Le b ∧ b.Le a) ↔ a.rrType = b.rrType ∧ a.ttl = b.ttl ∧ a.rdata = b.rdata := by
  have hcompare : a.compareFields b = (compare a.rrType b.rrType).then
      ((compare a.ttl b.ttl).then (byteOrder a.rdata b.rdata)) := rfl
  constructor
  · rintro ⟨hab, hba⟩
    have heq : a.compareFields b = .eq := Std.OrientedCmp.isLE_antisymm hab hba
    rw [hcompare, Ordering.then_eq_eq, Ordering.then_eq_eq, Nat.compare_eq_eq, Nat.compare_eq_eq] at heq
    exact ⟨heq.1, heq.2.1, eq_of_byteOrder heq.2.2⟩
  · rintro ⟨htype, httl, hdata⟩
    have hself : a.compareFields b = .eq := by
      rw [hcompare, htype, httl, hdata, Ordering.then_eq_eq, Ordering.then_eq_eq]
      exact ⟨Std.ReflCmp.compare_self, Std.ReflCmp.compare_self, Std.ReflCmp.compare_self⟩
    constructor
    · unfold Record.Le
      rw [hself]
      rfl
    · unfold Record.Le
      rw [@Std.OrientedCmp.eq_swap _ Record.compareFields _ b a, hself]
      rfl

theorem toV1_injective : Function.Injective Record.toV1 := by
  intro a b h
  obtain ⟨ta, ca, la, da⟩ := a
  obtain ⟨tb, cb, lb, db⟩ := b
  simp only [Record.toV1, RecordV1.mk.injEq, JsNum.fin.injEq, Nat.cast_inj] at h
  obtain ⟨rfl, rfl, rfl, rfl⟩ := h
  rfl

theorem sortRecordsCanonical_map (ws : List Record) :
    sortRecordsCanonical (ws.map Record.toV1) = (ws.insertionSort Record.Le).map Record.toV1 :=
  (List.map_insertionSort _ _ _ _ fun a _ b _ => (compareRecords_le_iff a b).symm).symm

/-- The records of two orders are those of one list of values, in two orders. -/
theorem exists_perm_map {ws : List Record} {recs : List RecordV1} (h : recs.Perm (ws.map Record.toV1)) :
    ∃ ws' : List Record, ws'.Perm ws ∧ ws'.map Record.toV1 = recs := by
  have hrange : recs ∈ Set.range (List.map Record.toV1) := by
    rw [Set.range_list_map]
    intro r hr
    obtain ⟨w, -, hw⟩ := List.mem_map.1 (h.subset hr)
    exact ⟨w, hw⟩
  obtain ⟨ws', rfl⟩ := hrange
  exact ⟨ws', (List.map_perm_map_iff toV1_injective).1 h, rfl⟩

/-- The sort depends on the records alone exactly if they determine the class. -/
theorem sort_perm_iff (ws : List Record) :
    (∀ recs : List RecordV1, recs.Perm (ws.map Record.toV1) →
      sortRecordsCanonical recs = sortRecordsCanonical (ws.map Record.toV1)) ↔
        ClassDetermined (ws.map Record.toV1) := by
  have hperm : (∀ recs : List RecordV1, recs.Perm (ws.map Record.toV1) →
      sortRecordsCanonical recs = sortRecordsCanonical (ws.map Record.toV1)) ↔
        ∀ ws' : List Record, ws'.Perm ws → ws'.insertionSort Record.Le = ws.insertionSort Record.Le := by
    constructor
    · intro h ws' hws
      have hsort := h _ (hws.map _)
      rw [sortRecordsCanonical_map, sortRecordsCanonical_map] at hsort
      exact List.map_injective_iff.2 toV1_injective hsort
    · intro h recs hrecs
      obtain ⟨ws', hws, rfl⟩ := exists_perm_map hrecs
      rw [sortRecordsCanonical_map, sortRecordsCanonical_map, h ws' hws]
  rw [hperm, StableSort.insertionSort_perm_iff]
  constructor
  · intro h a ha b hb htype httl hdata
    obtain ⟨a, hwa, rfl⟩ := List.mem_map.1 ha
    obtain ⟨b, hwb, rfl⟩ := List.mem_map.1 hb
    have htie := (Record.tie_iff a b).2
      ⟨Nat.cast_injective (JsNum.fin.inj htype), Nat.cast_injective (JsNum.fin.inj httl), hdata⟩
    rw [h a hwa b hwb htie.1 htie.2]
  · intro h a ha b hb hab hba
    obtain ⟨htype, httl, hdata⟩ := (Record.tie_iff a b).1 ⟨hab, hba⟩
    refine toV1_injective ?_
    have hclass := h a.toV1 (List.mem_map_of_mem ha) b.toV1 (List.mem_map_of_mem hb)
      (congrArg (fun n : ℕ => JsNum.fin n) htype) (congrArg (fun n : ℕ => JsNum.fin n) httl) hdata
    have hclass : JsNum.fin a.rrClass = JsNum.fin b.rrClass := hclass
    unfold Record.toV1
    rw [htype, httl, hdata, hclass]

/-! ## The canonical form -/

section Law

variable {rs : RouteSetV1}

theorem Checked.perm (h : Checked rs) (recs : JsArray RecordV1) (hp : recs.1.Perm rs.records.1) :
    Checked { rs with records := recs } :=
  ⟨h.nameId, h.ownerPub, h.nsId, h.sig, fun r hr => h.records r (hp.subset hr)⟩

/-- The records of a route set that passes the checks are values. -/
theorem Checked.records_eq (h : Checked rs) : ∃ ws : List Record, rs.records.1 = ws.map Record.toV1 := by
  obtain ⟨w, hw⟩ := h.encodes false
  exact ⟨w.records, hw.records⟩

/-- What is decoded is encoded again as it was. -/
theorem encode_decode {bytes : List UInt8} (h : encodeRouteSetV1 rs true = .ok bytes) :
    ∃ rs', decodeRouteSetV1 bytes = .ok rs' ∧ encodeRouteSetV1 rs' true = .ok bytes := by
  obtain ⟨ws, hws⟩ := (checked_of_encode h).records_eq
  obtain ⟨w, hw, rfl⟩ := encode_eq_ok_iff.1 h
  have hrecords : w.records = ws.insertionSort Record.Le := by
    have hencoded : sortRecordsCanonical rs.records.1 = w.records.map Record.toV1 := hw.records
    rw [hws, sortRecordsCanonical_map] at hencoded
    exact (List.map_injective_iff.2 toV1_injective hencoded).symm
  have hagain : Encodes w.toV1 true w := by
    refine ⟨rfl, rfl, w.encodes.seq, w.encodes.exp, ?_, rfl, rfl⟩
    show sortRecordsCanonical (w.records.map Record.toV1) = _
    rw [sortRecordsCanonical_map, hrecords,
      (List.pairwise_insertionSort Record.Le ws).insertionSort_eq]
  exact ⟨w.toV1, decode_bytes w, hagain.encode⟩

theorem encode_perm_iff (h : Checked rs) (recs : JsArray RecordV1) (hp : recs.1.Perm rs.records.1) :
    (encodeRouteSetV1 { rs with records := recs } true).toOption =
      (encodeRouteSetV1 rs true).toOption ↔
        sortRecordsCanonical recs.1 = sortRecordsCanonical rs.records.1 := by
  obtain ⟨w, hw⟩ := h.encodes true
  obtain ⟨w', hw'⟩ := (h.perm recs hp).encodes true
  have hrecords : sortRecordsCanonical rs.records.1 = w.records.map Record.toV1 := hw.records
  have hrecords' : sortRecordsCanonical recs.1 = w'.records.map Record.toV1 := hw'.records
  constructor
  · intro heq
    rw [hw.encode, hw'.encode] at heq
    have hbytes : w'.bytes = w.bytes := Option.some.inj heq
    have hdecode := decode_bytes w'
    rw [hbytes, decode_bytes w] at hdecode
    have hsame := congrArg (fun rs : RouteSetV1 => rs.records.1) (Except.ok.inj hdecode)
    rw [hrecords, hrecords']
    exact hsame.symm
  · intro heq
    have hsame : Encodes { rs with records := recs } true w :=
      ⟨hw.nsId, hw.nameId, hw.seq, hw.exp, heq.trans hrecords, hw.ownerPub, hw.sig⟩
    rw [hw.encode, hsame.encode]

/-- **A route set is canonical** exactly if it is not encoded at all or its records determine the
class. -/
theorem canonical_iff (rs : RouteSetV1) :
    Canonical rs ↔ (Checked rs → ClassDetermined rs.records.1) := by
  constructor
  · intro h hchecked
    obtain ⟨ws, hws⟩ := hchecked.records_eq
    rw [hws, ← sort_perm_iff, ← hws]
    intro recs hp
    have hlt : recs.length < 2 ^ 32 := hp.length_eq ▸ rs.records.2
    exact (encode_perm_iff hchecked ⟨recs, hlt⟩ hp).1 (h.perm ⟨recs, hlt⟩ hp)
  · intro h
    refine ⟨fun recs hp => ?_, fun bytes => encode_decode⟩
    by_cases hchecked : Checked rs
    · obtain ⟨ws, hws⟩ := hchecked.records_eq
      have hdetermined := h hchecked
      rw [hws, ← sort_perm_iff, ← hws] at hdetermined
      exact (encode_perm_iff hchecked recs hp).2 (hdetermined recs.1 hp)
    · have hnone {rs' : RouteSetV1} (hrs : ¬Checked rs') :
          (encodeRouteSetV1 rs' true).toOption = none := by
        cases henc : encodeRouteSetV1 rs' true with
        | error e => rfl
        | ok bytes => exact absurd (checked_of_encode henc) hrs
      have hother : ¬Checked { rs with records := recs } := fun hrecs =>
        hchecked (hrecs.perm rs.records hp.symm)
      rw [hnone hchecked, hnone hother]

end Law

/-! ## Example -/

/-- Two records that differ in the class alone. -/
def exampleRouteSet : RouteSetV1 where
  nsId := .fin 1
  nameId := List.replicate 32 0
  seq := 1
  exp := 2
  records := ⟨[⟨.fin 1, .fin 1, .fin 300, [1]⟩, ⟨.fin 1, .fin 3, .fin 300, [1]⟩], by decide⟩
  ownerPub := List.replicate 32 0
  sig := none

/-- They are encoded in the order in which they are given. -/
theorem exampleRouteSet_not_canonical : ¬Canonical exampleRouteSet := by
  intro h
  have hperm := h.perm ⟨exampleRouteSet.records.1.reverse, by decide⟩ (List.reverse_perm _)
  exact absurd hperm (by decide +kernel)

end Ddns.Core
