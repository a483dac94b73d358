import Ddns.Core.Inclusion
import Ddns.Lib.Casing

/-!
# Names

The normal form of a name (`core/src/normalize.ts`) and the names of the registry
(`core/src/registry_merkle.ts`, `gateway/src/registry.ts`). The resolver encodes the labels and then
lowers the case, the registry lowers the case first. `consistent_iff` says for which names this makes
no difference, and no change of case either: those without a letter outside ASCII that has a case.
-/

namespace Ddns.Core.Registry

open JsText Results

/-! ## Model -/

inductive NameError where
  | emptyName
  | emptyLabel
  | emptyNormalizedName
  | trailingDot
  | invalidLabel (label : JsText)
  | nameTooLong
  deriving DecidableEq, Repr

/-- `[a-z0-9-]` -/
def isLabelChar (c : Char) : Bool := c.isLower || c.isDigit || c == '-'

/-- `/^[a-z0-9-]{1,63}$/` -/
def labelRe (l : JsText) : Bool := decide (1 ≤ l.length ∧ l.length ≤ 63) && l.all isLabelChar

def validateNormalizedName (normalized : JsText) : Except NameError Unit :=
  if normalized = [] then .error .emptyNormalizedName
  else if normalized.getLast? = some '.' then .error .trailingDot
  else
    let labels := normalized.splitOn '.'
    if [] ∈ labels then .error .emptyLabel
    else match labels.find? fun l => !labelRe l with
      | some l => .error (.invalidLabel l)
      | none => if normalized.length > 253 then .error .nameTooLong else .ok ()

def normalizeName (rt : Runtime) (input : JsText) : Except NameError JsText :=
  let name := stripDot (trim input)
  if name = [] then .error .emptyName
  else
    let labels := name.splitOn '.'
    if [] ∈ labels then .error .emptyLabel
    else
      let normalized := rt.toLowerCase (join ['.'] (labels.map rt.toASCII))
      (validateNormalizedName normalized).map fun _ => normalized

/-- `normalizeName` of the gateway's registry. -/
def normalizeGatewayName (rt : Runtime) (name : JsText) : JsText :=
  let trimmed := stripDot (trim name)
  let lowered := rt.toLowerCase trimmed
  rt.toASCII lowered

/-! ## The library functions -/

/-- `xn--` -/
def acePrefix : JsText := ['x', 'n', '-', '-']

def isAscii (t : JsText) : Bool := t.all fun c => c.toNat < 128

theorem isAscii_iff {t : JsText} : isAscii t = true ↔ ∀ c ∈ t, c.toNat < 128 := by
  simp only [isAscii, List.all_eq_true, decide_eq_true_eq]

/-- A label in ASCII: a label outside ASCII is encoded and marked. -/
def encodeLabel (encode : JsText → JsText) (l : JsText) : JsText :=
  if isAscii l then l else acePrefix ++ encode l

/-- The changes of case, and `punycode.toASCII`. It converts the labels of a domain name, between
points of any script, and keeps the local part of a mail address. The code of a label has the
characters of ASCII in it, and digits that say where the others stand. -/
structure Naming extends Runtime where
  lower : Casing
  upper : Casing
  encode : JsText → JsText
  toLowerCase_eq : ∀ t, toLowerCase t = lower.apply t
  toUpperCase_eq : ∀ t, toUpperCase t = upper.apply t
  lower_ascii : ∀ c, lower.ascii c = c.toLower
  toASCII_eq : ∀ t, '@' ∉ t → toASCII t = join ['.'] ((t.splitOnP isDot).map (encodeLabel encode))
  mem_toASCII : ∀ t, '@' ∈ t → '@' ∈ toASCII t
  ascii_encode : ∀ t, ∀ c ∈ encode t, c.toNat < 128
  mark_encode : ∀ t, ∀ c ∈ encode t, isMark c = true → c ∈ t ∨ c = '-'
  count_encode : ∀ t, t.count '-' ≤ (encode t).count '-'
  encode_toLower : ∀ t, encode (t.map Char.toLower) = (encode t).map Char.toLower
  encode_inj : ∀ t t', (∃ c ∈ t, 128 ≤ c.toNat) → (∃ c ∈ t', 128 ≤ c.toNat) →
    encode t = encode t' → t = t'

/-! ## Normal forms -/

section Valid

variable {rt : Runtime} {s v : JsText} {c : Char}

/-- The normal forms. -/
structure Valid (v : JsText) : Prop where
  labels : ∀ l ∈ v.splitOn '.', labelRe l = true
  length : v.length ≤ 253

theorem labelRe_iff {l : JsText} :
    labelRe l = true ↔ l ≠ [] ∧ l.length ≤ 63 ∧ ∀ c ∈ l, isLabelChar c = true := by
  rw [labelRe, Bool.and_eq_true, decide_eq_true_eq, List.all_eq_true, and_assoc,
    Nat.one_le_iff_ne_zero, Ne, List.length_eq_zero_iff]

theorem Valid.mem (h : Valid v) (hc : c ∈ v) : isLabelChar c = true ∨ c = '.' := by
  have hjoin : join ['.'] (v.splitOn '.') = v := List.intercalate_splitOn '.'
  rw [← hjoin] at hc
  rcases mem_join hc with hdot | ⟨l, hl, hcl⟩
  · exact .inr (List.mem_singleton.1 hdot)
  · exact .inl ((labelRe_iff.1 (h.labels l hl)).2.2 c hcl)

theorem Valid.nil_notMem (h : Valid v) : [] ∉ v.splitOn '.' :=
  fun hnil => (labelRe_iff.1 (h.labels [] hnil)).1 rfl

/-- An empty name has an empty label, and so has one with a point at its end. -/
theorem getLast?_of_labels (h : [] ∉ v.splitOn '.') : v ≠ [] ∧ v.getLast? ≠ some '.' := by
  constructor
  · rintro rfl
    exact h (List.mem_singleton_self [])
  · intro hlast
    obtain ⟨u, rfl⟩ := List.getLast?_eq_some_iff.1 hlast
    rw [List.splitOn_eq_splitOnP, List.splitOnP_append_cons u [] (by decide)] at h
    exact h (List.mem_append_right _ (List.mem_singleton_self []))

theorem validate_iff : validateNormalizedName v = .ok () ↔ Valid v := by
  have hfind : (v.splitOn '.').find? (fun l => !labelRe l) = none ↔
      ∀ l ∈ v.splitOn '.', labelRe l = true := by
    simp [List.find?_eq_none]
  constructor
  · intro h
    obtain ⟨-, h⟩ := else_eq_ok_iff.1 h
    obtain ⟨-, h⟩ := else_eq_ok_iff.1 h
    obtain ⟨-, h⟩ := else_eq_ok_iff.1 h
    split at h
    · cases h
    · next hnone =>
      obtain ⟨hlength, -⟩ := else_eq_ok_iff.1 h
      exact ⟨hfind.1 hnone, Nat.le_of_not_lt hlength⟩
  · intro h
    obtain ⟨hne, hlast⟩ := getLast?_of_labels h.nil_notMem
    rw [validateNormalizedName, if_neg hne, if_neg hlast]
    dsimp only
    rw [if_neg h.nil_notMem, hfind.2 h.labels]
    exact if_neg (Nat.not_lt.2 h.length)

theorem normalizeName_eq_ok_iff : normalizeName rt s = .ok v ↔
    [] ∉ (stripDot (trim s)).splitOn '.' ∧ Valid v ∧
      v = rt.toLowerCase (join ['.'] (((stripDot (trim s)).splitOn '.').map rt.toASCII)) := by
  have hmap (x : Except NameError Unit) (n : JsText) :
      x.map (fun _ => n) = .ok v ↔ x = .ok () ∧ v = n := by
    cases x with
    | error e => exact ⟨nofun, fun h => nomatch h.1⟩
    | ok u => exact ⟨fun h => ⟨rfl, (Except.ok.inj h).symm⟩, fun h => h.2 ▸ rfl⟩
  rw [normalizeName, else_eq_ok_iff, else_eq_ok_iff, hmap]
  constructor
  · rintro ⟨-, hlabels, hvalid, hv⟩
    exact ⟨hlabels, validate_iff.1 (hv ▸ hvalid), hv⟩
  · rintro ⟨hlabels, hvalid, hv⟩
    exact ⟨(getLast?_of_labels hlabels).1, hlabels, validate_iff.2 (hv ▸ hvalid), hv⟩

end Valid

/-! ## Encoded names -/

section Encoded

variable {nm : Naming} {t l : JsText} {c : Char}

/-- The normal form of a name that is accepted: its labels in lower case, encoded. -/
def Naming.normal (nm : Naming) (t : JsText) : JsText :=
  join ['.'] ((t.splitOnP isDot).map fun l => encodeLabel nm.encode (l.map Char.toLower))

theorem encodeLabel_ascii {encode : JsText → JsText} (h : ∀ c ∈ l, c.toNat < 128) :
    encodeLabel encode l = l := if_pos (isAscii_iff.2 h)

theorem encodeLabel_of_mem {encode : JsText → JsText} (hc : c ∈ l) (h : 128 ≤ c.toNat) :
    encodeLabel encode l = acePrefix ++ encode l :=
  if_neg fun hall => absurd (isAscii_iff.1 hall c hc) (Nat.not_lt.2 h)

theorem ascii_encodeLabel : ∀ c ∈ encodeLabel nm.encode l, c.toNat < 128 := by
  have hmarked : ∀ c ∈ acePrefix, c.toNat < 128 := isAscii_iff.1 (by decide)
  intro c hc
  unfold encodeLabel at hc
  split at hc
  · next h => exact isAscii_iff.1 h c hc
  · exact (List.mem_append.1 hc).elim (hmarked c) (nm.ascii_encode l c)

/-- A label is encoded without a point. -/
theorem dot_notMem_encodeLabel (h : ∀ c ∈ l, isDot c = false) : '.' ∉ encodeLabel nm.encode l := by
  intro hdot
  have hl : '.' ∉ l := fun hmem => absurd (h '.' hmem) (by decide)
  unfold encodeLabel at hdot
  split at hdot
  · exact hl hdot
  · rcases List.mem_append.1 hdot with hdot | hdot
    · revert hdot
      decide
    · exact (nm.mark_encode l '.' hdot (by decide)).elim hl (by decide)

/-- A label is encoded in lower case like the label in lower case. -/
theorem map_encodeLabel : (encodeLabel nm.encode l).map Char.toLower =
    encodeLabel nm.encode (l.map Char.toLower) := by
  by_cases h : ∀ c ∈ l, c.toNat < 128
  · rw [encodeLabel_ascii h, encodeLabel_ascii]
    intro c hc
    obtain ⟨d, hd, rfl⟩ := List.mem_map.1 hc
    exact toLower_lt_iff.2 (h d hd)
  · push Not at h
    obtain ⟨c, hc, hge⟩ := h
    have hlower : 128 ≤ c.toLower.toNat := Nat.not_lt.1 fun hlt => by
      exact absurd (toLower_lt_iff.1 hlt) (Nat.not_lt.2 hge)
    rw [encodeLabel_of_mem hc hge, encodeLabel_of_mem (List.mem_map_of_mem hc) hlower,
      nm.encode_toLower, List.map_append]
    rfl

theorem splitOnP_toLower (t : JsText) :
    (t.map Char.toLower).splitOnP isDot = (t.splitOnP isDot).map (List.map Char.toLower) := by
  induction t with
  | nil => rfl
  | cons c t ih =>
    rw [List.map_cons, List.splitOnP_cons_eq_if_modifyHead, List.splitOnP_cons_eq_if_modifyHead,
      isDot_toLower, ih]
    split
    · rfl
    · cases t.splitOnP isDot <;> rfl

theorem at_toLower (h : '@' ∉ t) : '@' ∉ t.map Char.toLower := by
  intro hat
  obtain ⟨c, hc, hlower⟩ := List.mem_map.1 hat
  rw [eq_of_toLower_eq hlower (by decide)] at hc
  exact h hc

/-- The case of ASCII makes no difference to a normal form. -/
theorem normal_eq (h : '@' ∉ t) : nm.toASCII (t.map Char.toLower) = nm.normal t := by
  rw [nm.toASCII_eq _ (at_toLower h), splitOnP_toLower, List.map_map]
  rfl

theorem map_toASCII (h : '@' ∉ t) : (nm.toASCII t).map Char.toLower = nm.normal t := by
  rw [nm.toASCII_eq t h, map_join, List.map_map, Naming.normal]
  refine congrArg (join ['.']) (List.map_congr_left fun l _ => ?_)
  exact map_encodeLabel

theorem ascii_toASCII (h : '@' ∉ t) : ∀ c ∈ nm.toASCII t, c.toNat < 128 := by
  intro c hc
  rw [nm.toASCII_eq t h] at hc
  rcases mem_join hc with hdot | ⟨l, hl, hcl⟩
  · rw [List.mem_singleton.1 hdot]
    decide
  · obtain ⟨l, -, rfl⟩ := List.mem_map.1 hl
    exact ascii_encodeLabel c hcl

/-- Labels may be encoded one by one. -/
theorem join_toASCII (h : '@' ∉ t) :
    join ['.'] ((t.splitOn '.').map nm.toASCII) = nm.toASCII t := by
  have hdot (c : Char) (hc : (c == '.') = true) : isDot c = true := by
    rw [eq_of_beq hc]
    decide
  have hlabel (l : JsText) (hl : l ∈ t.splitOn '.') : nm.toASCII l =
      join ['.'] ((l.splitOnP isDot).map (encodeLabel nm.encode)) := by
    refine nm.toASCII_eq l fun hat => h ?_
    have hjoin : join ['.'] (t.splitOn '.') = t := List.intercalate_splitOn '.'
    exact hjoin ▸ mem_join_of_mem hl hat
  rw [List.map_congr_left hlabel, ← join_flatMap (by simp), nm.toASCII_eq t h,
    splitOnP_flatMap hdot t, List.map_flatMap]
  rfl

/-- A change of case that changes only ASCII gives the small letters of ASCII. -/
theorem lower_run_eq {b a : JsText} (h : ∀ c ∈ t, 128 ≤ c.toNat → ¬nm.lower.Changes c) :
    nm.lower.run b t a = t.map Char.toLower := by
  rw [Casing.run_eq_map h]
  refine List.map_congr_left fun c _ => ?_
  split
  · exact nm.lower_ascii c
  · exact (toLower_eq_self (by omega)).symm

/-- A label in which a change of case changes more than ASCII gets another code. -/
theorem encodeLabel_run_ne {m : Casing} {b a : JsText} (hc : c ∈ l) (hge : 128 ≤ c.toNat)
    (hchanges : m.Changes c) : encodeLabel nm.encode ((m.run b l a).map Char.toLower) ≠
      encodeLabel nm.encode (l.map Char.toLower) := by
  have hself : c.toLower = c := toLower_eq_self (by omega)
  have hmem : c ∈ l.map Char.toLower := List.mem_map.2 ⟨c, hc, hself⟩
  have hcount (t : JsText) : (t.map Char.toLower).count '-' = t.count '-' := by
    refine List.countP_map .. |>.trans (List.countP_congr fun d _ => ?_)
    show (d.toLower == '-') = true ↔ (d == '-') = true
    rw [beq_iff_eq, beq_iff_eq]
    constructor
    · exact fun hd => eq_of_toLower_eq hd (by decide)
    · rintro rfl
      rfl
  rw [encodeLabel_of_mem hmem hge]
  intro heq
  by_cases hascii : ∀ d ∈ (m.run b l a).map Char.toLower, d.toNat < 128
  · -- the hyphens of the prefix are in no label in another case
    rw [encodeLabel_ascii hascii] at heq
    have hhyphens := congrArg (List.count '-') heq
    have hkept := nm.count_encode (l.map Char.toLower)
    have hmarked : acePrefix.count '-' = 2 := by decide
    rw [hcount, Casing.count_run_mark (by decide), List.count_append, hmarked] at hhyphens
    rw [hcount] at hkept
    omega
  · push Not at hascii
    obtain ⟨d, hd, hdge⟩ := hascii
    rw [encodeLabel_of_mem hd hdge] at heq
    have htext := nm.encode_inj _ _ ⟨d, hd, hdge⟩ ⟨c, hmem, hge⟩ (List.append_cancel_left heq)
    rw [← htext] at hmem
    obtain ⟨e, he, helower⟩ := List.mem_map.1 hmem
    rw [eq_of_toLower_eq helower (by omega)] at he
    exact Casing.not_mem_run hge hchanges he

theorem at_run {m : Casing} {b a : JsText} (h : '@' ∉ t) : '@' ∉ m.run b t a :=
  fun hat => h ((Casing.mem_run_mark (by decide)).1 hat)

/-- **A change of case keeps the normal form** of a name exactly if it changes ASCII only. -/
theorem normal_run_iff {m : Casing} {b a : JsText} (h : '@' ∉ t) :
    nm.normal (m.run b t a) = nm.normal t ↔ ∀ c ∈ t, 128 ≤ c.toNat → ¬m.Changes c := by
  constructor
  · intro heq c hc hge hchanges
    have hdot : isDot c = false := by
      by_contra hdot
      rw [Bool.not_eq_false] at hdot
      exact Casing.not_changes_mark (isMark_of_dot hdot) hchanges
    obtain ⟨l, hl, hcl⟩ := exists_mem_splitOnP hc hdot
    have hpieces := Casing.splitOnP_run (m := m) isDot (fun c => isMark_of_dot) b t a
    have hclean (u : JsText) : ∀ x ∈ (u.splitOnP isDot).map fun l =>
        encodeLabel nm.encode (l.map Char.toLower), '.' ∉ x := by
      intro x hx
      obtain ⟨l, hl, rfl⟩ := List.mem_map.1 hx
      refine dot_notMem_encodeLabel fun c hc => ?_
      obtain ⟨d, hd, rfl⟩ := List.mem_map.1 hc
      rw [isDot_toLower]
      exact of_mem_splitOnP hl hd
    have hlabels := congrArg (List.splitOn '.') heq
    rw [Naming.normal, Naming.normal, join, join, List.splitOn_intercalate '.' (hclean _) (by simp),
      List.splitOn_intercalate '.' (hclean _) (by simp)] at hlabels
    obtain ⟨_, ⟨b', a', rfl⟩, hcode⟩ := exists_of_map_eq hpieces hlabels l hl
    exact encodeLabel_run_ne hcl hge hchanges hcode
  · intro hall
    rw [← normal_eq h, ← normal_eq (at_run h), Casing.toLower_run hall]

end Encoded

/-! ## Accepted names -/

section Accepted

variable {nm : Naming} {s t v : JsText}

/-- The names that are accepted, and their normal forms. -/
theorem accepted_iff : normalizeName nm.toRuntime s = .ok v ↔
    '@' ∉ stripDot (trim s) ∧ [] ∉ (stripDot (trim s)).splitOn '.' ∧ Valid v ∧
      v = nm.normal (stripDot (trim s)) := by
  have hvalue {t : JsText} (hat : '@' ∉ t) :
      nm.toLowerCase (join ['.'] ((t.splitOn '.').map nm.toASCII)) = nm.normal t := by
    rw [join_toASCII hat, nm.toLowerCase_eq, Casing.apply, lower_run_eq, map_toASCII hat]
    exact fun c hc hge => absurd (ascii_toASCII hat c hc) (Nat.not_lt.2 hge)
  rw [normalizeName_eq_ok_iff]
  constructor
  · rintro ⟨hlabels, hvalid, hv⟩
    have hat : '@' ∉ stripDot (trim s) := by
      intro hat
      obtain ⟨l, hl, hmem⟩ := exists_mem_splitOnP (p := (· == '.')) hat (by decide)
      rw [← List.splitOn_eq_splitOnP] at hl
      have hv' : '@' ∈ v := by
        rw [hv, nm.toLowerCase_eq]
        refine (Casing.mem_run_mark (by decide)).2 ?_
        exact mem_join_of_mem (List.mem_map_of_mem hl) (nm.mem_toASCII l hmem)
      exact absurd (hvalid.mem hv') (by decide)
    exact ⟨hat, hlabels, hvalid, hv.trans (hvalue hat)⟩
  · rintro ⟨hat, hlabels, hvalid, hv⟩
    exact ⟨hlabels, hvalid, hv.trans (hvalue hat).symm⟩

theorem stripDot_concat (u : JsText) (c : Char) :
    stripDot (u ++ [c]) = if c = '.' then u else u ++ [c] := by
  rw [stripDot, List.getLast?_concat, List.dropLast_concat]
  exact if_congr Option.some_inj rfl rfl

theorem stripDot_run (m : Casing) (b t a : JsText) :
    ∃ a', stripDot (m.run b t a) = m.run b (stripDot t) a' := by
  rcases List.eq_nil_or_concat t with rfl | ⟨u, c, rfl⟩
  · exact ⟨a, rfl⟩
  rw [List.concat_eq_append, Casing.run_append, Casing.run_singleton, stripDot_concat]
  by_cases hc : c = '.'
  · subst hc
    refine ⟨['.'] ++ a, ?_⟩
    rw [m.image_mark _ _ _ (by decide), stripDot_concat, if_pos rfl, if_pos rfl]
  · refine ⟨a, ?_⟩
    rcases List.eq_nil_or_concat (m.image (b ++ u) c a) with hnil | ⟨ds, d, hd⟩
    · exact absurd hnil (m.image_ne_nil _ _ _)
    have hdot : d ≠ '.' := by
      rintro rfl
      exact hc (m.eq_of_mark _ _ _ '.' (by rw [hd]; simp) (by decide)).symm
    rw [if_neg hc, Casing.run_append, Casing.run_singleton, hd, List.concat_eq_append,
      ← List.append_assoc, stripDot_concat, if_neg hdot]

theorem mem_stripDot {c : Char} (hc : c ≠ '.') : c ∈ stripDot t ↔ c ∈ t := by
  rcases List.eq_nil_or_concat t with rfl | ⟨u, d, rfl⟩
  · exact Iff.rfl
  rw [List.concat_eq_append, stripDot_concat]
  split
  · next hd => simp [hd, hc]
  · exact Iff.rfl

/-- The name in a text is changed like the text. -/
theorem name_apply (m : Casing) (s : JsText) :
    ∃ b a, stripDot (trim (m.apply s)) = m.run b (stripDot (trim s)) a := by
  obtain ⟨b, a, htrim⟩ := Casing.trim_run (m := m) [] s []
  obtain ⟨a', hstrip⟩ := stripDot_run m b (trim s) a
  exact ⟨b, a', by rw [Casing.apply, htrim, hstrip]⟩

/-- What a name leaves out of its text, no change of case changes. -/
theorem mem_name_of_changes {m : Casing} {c : Char} (h : m.Changes c) :
    c ∈ stripDot (trim s) ↔ c ∈ s := by
  have hmark : isMark c = false := by
    by_contra hmark
    rw [Bool.not_eq_false] at hmark
    exact Casing.not_changes_mark hmark h
  have hspace : isWhitespace c = false := by
    by_contra hspace
    rw [Bool.not_eq_false] at hspace
    rw [isMark_of_whitespace hspace] at hmark
    cases hmark
  have hdot : c ≠ '.' := by
    rintro rfl
    revert hmark
    decide
  rw [mem_stripDot hdot, Casing.mem_trim hspace]

theorem isLabelChar_iff {c : Char} : isLabelChar c = true ↔
    (97 ≤ c.toNat ∧ c.toNat ≤ 122) ∨ (48 ≤ c.toNat ∧ c.toNat ≤ 57) ∨ c.toNat = 45 := by
  have hhyphen : c = '-' ↔ c.toNat = 45 := Char.toNat_inj.symm
  rw [isLabelChar, Bool.or_eq_true, Bool.or_eq_true, JsText.isLower_iff, JsText.isDigit_iff, beq_iff_eq,
    hhyphen, or_assoc]

/-- A normal form is its own normal form. -/
theorem Valid.normalized (h : Valid v) : normalizeName nm.toRuntime v = .ok v := by
  have hcode (c : Char) (hc : c ∈ v) : (97 ≤ c.toNat ∧ c.toNat ≤ 122) ∨
      (45 ≤ c.toNat ∧ c.toNat ≤ 57) := by
    rcases h.mem hc with hlabel | rfl
    · have := isLabelChar_iff.1 hlabel
      omega
    · exact .inr (by decide)
  have htrim : trim v = v := trim_of_all fun c hc => by
    have := hcode c hc
    unfold isWhitespace
    dsimp only
    simp only [Bool.or_eq_false_iff, Bool.and_eq_false_iff, decide_eq_false_iff_not]
    omega
  have hstrip : stripDot v = v := if_neg (getLast?_of_labels h.nil_notMem).2
  have hat : '@' ∉ v := fun hat => absurd (hcode '@' hat) (by decide)
  have hlower : v.map Char.toLower = v := by
    refine (List.map_congr_left fun c hc => ?_).trans (List.map_id v)
    have := hcode c hc
    exact toLower_eq_self (by omega)
  have hlabel (l : JsText) (hl : l ∈ v.splitOn '.') : nm.toASCII l = l := by
    have hchar (c : Char) (hc : c ∈ l) := isLabelChar_iff.1 ((labelRe_iff.1 (h.labels l hl)).2.2 c hc)
    have hdot (c : Char) (hc : c ∈ l) : isDot c = false := by
      have := hchar c hc
      simp only [isDot, Bool.or_eq_false_iff, decide_eq_false_iff_not]
      omega
    have hascii (c : Char) (hc : c ∈ l) : c.toNat < 128 := by
      have := hchar c hc
      omega
    have hat : '@' ∉ l := fun hat => absurd (hchar '@' hat) (by decide)
    rw [nm.toASCII_eq l hat, List.splitOnP_eq_singleton hdot, List.map_singleton,
      encodeLabel_ascii hascii, join, List.intercalate_singleton]
  have hnormal : nm.normal v = v := by
    rw [← normal_eq hat, hlower, ← join_toASCII hat, List.map_congr_left hlabel, List.map_id']
    exact List.intercalate_splitOn '.'
  rw [accepted_iff, htrim, hstrip]
  exact ⟨hat, h.nil_notMem, h, hnormal.symm⟩

/-- A change of case keeps an accepted name exactly if it changes ASCII only. -/
theorem apply_iff (m : Casing) (h : normalizeName nm.toRuntime s = .ok v) :
    normalizeName nm.toRuntime (m.apply s) = .ok v ↔ ∀ c ∈ s, 128 ≤ c.toNat → ¬m.Changes c := by
  obtain ⟨hat, hlabels, hvalid, hv⟩ := accepted_iff.1 h
  obtain ⟨b, a, hname⟩ := name_apply m s
  have hlabels' : [] ∉ (m.run b (stripDot (trim s)) a).splitOn '.' := by
    intro hnil
    have hpieces := Casing.splitOnP_run (m := m) (· == '.')
      (fun c hc => isMark_of_dot (by rw [eq_of_beq hc]; decide)) b (stripDot (trim s)) a
    rw [← List.splitOn_eq_splitOnP, ← List.splitOn_eq_splitOnP] at hpieces
    obtain ⟨l, hl, b', a', hrun⟩ := exists_of_mem_right hpieces [] hnil
    by_cases hempty : l = []
    · exact hlabels (hempty ▸ hl)
    · exact Casing.run_ne_nil hempty hrun.symm
  rw [accepted_iff, hname, hv]
  rw [hv] at hvalid
  have hmem : (∀ c ∈ s, 128 ≤ c.toNat → ¬m.Changes c) ↔
      ∀ c ∈ stripDot (trim s), 128 ≤ c.toNat → ¬m.Changes c := by
    constructor
    · exact fun h c hc hge hchanges => h c ((mem_name_of_changes hchanges).1 hc) hge hchanges
    · exact fun h c hc hge hchanges => h c ((mem_name_of_changes hchanges).2 hc) hge hchanges
  rw [hmem, ← normal_run_iff (m := m) (b := b) (a := a) hat]
  exact ⟨fun h => h.2.2.2.symm, fun h => ⟨at_run hat, hlabels', hvalid, h.symm⟩⟩

/-- A name is its own normal form, whatever its case, and the registry has it under that. -/
def Consistent (rt : Runtime) (s v : JsText) : Prop :=
  normalizeName rt v = .ok v ∧ normalizeName rt (rt.toLowerCase s) = .ok v ∧
    normalizeName rt (rt.toUpperCase s) = .ok v ∧ normalizeRegistryName rt s = v ∧
      normalizeGatewayName rt s = v

/-- **Accepted names** are consistent exactly if they have no letter outside ASCII that has a case. -/
theorem consistent_iff (nm : Naming) {s v : JsText} (h : normalizeName nm.toRuntime s = .ok v) :
    Consistent nm.toRuntime s v ↔
      ∀ c ∈ s, 128 ≤ c.toNat → nm.toLowerCase [c] = [c] ∧ nm.toUpperCase [c] = [c] := by
  have hcased : (∀ c ∈ s, 128 ≤ c.toNat → nm.toLowerCase [c] = [c] ∧ nm.toUpperCase [c] = [c]) ↔
      (∀ c ∈ s, 128 ≤ c.toNat → ¬nm.lower.Changes c) ∧
        ∀ c ∈ s, 128 ≤ c.toNat → ¬nm.upper.Changes c := by
    simp only [nm.toLowerCase_eq, nm.toUpperCase_eq]
    constructor
    · intro h
      exact ⟨fun c hc hge => (Casing.not_changes_iff hge).2 (h c hc hge).1,
        fun c hc hge => (Casing.not_changes_iff hge).2 (h c hc hge).2⟩
    · rintro ⟨hlower, hupper⟩ c hc hge
      exact ⟨(Casing.not_changes_iff hge).1 (hlower c hc hge),
        (Casing.not_changes_iff hge).1 (hupper c hc hge)⟩
  rw [hcased, Consistent, nm.toLowerCase_eq, nm.toUpperCase_eq, apply_iff nm.lower h,
    apply_iff nm.upper h]
  constructor
  · rintro ⟨-, hlower, hupper, -⟩
    exact ⟨hlower, hupper⟩
  · rintro ⟨hlower, hupper⟩
    obtain ⟨hat, -, hvalid, hv⟩ := accepted_iff.1 h
    have hregistry : normalizeRegistryName nm.toRuntime s = v := by
      show nm.toASCII (nm.toLowerCase (stripDot (trim s))) = v
      rw [nm.toLowerCase_eq, Casing.apply, lower_run_eq, normal_eq hat, hv]
      intro c hc hge hchanges
      exact hlower c ((mem_name_of_changes hchanges).1 hc) hge hchanges
    exact ⟨hvalid.normalized, hlower, hupper, hregistry, hregistry⟩

end Accepted

/-! ## Two letters -/

section Example

variable {c : Char} {t t' : JsText}

/-- A change of case that looks at no other character. -/
def ofChar (f ascii : Char → Char) (hascii : ∀ c, c.toNat < 128 → f c = ascii c)
    (hlower : ∀ c, (ascii c).toLower = c.toLower)
    (hkept : ∀ c, 128 ≤ (f c).toNat → f (f c) = f c)
    (hmark : ∀ c, isMark c = true ∨ isMark (f c) = true → f c = c) : Casing where
  image _ c _ := [f c]
  ascii := ascii
  image_ascii _ c _ hc := congrArg (fun c => [c]) (hascii c hc)
  toLower_ascii := hlower
  image_ne_nil _ _ _ := List.cons_ne_nil _ _
  image_of_mem _ c _ _ _ d hd hge := by
    rw [List.mem_singleton.1 hd] at hge ⊢
    rw [hkept c hge]
  image_mark _ c _ hc := by rw [hmark c (.inl hc)]
  eq_of_mark _ c _ d hd hd' := by
    rw [List.mem_singleton.1 hd] at hd' ⊢
    exact hmark c (.inr hd')

theorem toNat_toUpper (c : Char) :
    c.toUpper.toNat = if 97 ≤ c.toNat ∧ c.toNat ≤ 122 then c.toNat - 32 else c.toNat := by
  unfold Char.toUpper
  split
  · next h =>
    have hc : 97 ≤ c.toNat ∧ c.toNat ≤ 122 := by simpa [UInt32.le_iff_toNat_le] using h
    have hge : 97 ≤ c.val.toNat := hc.1
    have hle : c.val.toNat ≤ 122 := hc.2
    have hsize : (c.val.toNat + (2 ^ 32 - 32)) % 2 ^ 32 = c.val.toNat - 32 := by omega
    rw [if_pos hc]
    exact (UInt32.toNat_add c.val (65 - 97)).trans hsize
  · next h =>
    have hc : ¬(97 ≤ c.toNat ∧ c.toNat ≤ 122) := by simpa [UInt32.le_iff_toNat_le] using h
    rw [if_neg hc]

theorem toUpper_eq_self (h : c.toNat < 97 ∨ 122 < c.toNat) : c.toUpper = c := by
  apply Char.toNat_inj.1
  rw [toNat_toUpper, if_neg (by omega)]

theorem isMark_letter (h : 65 ≤ c.toNat ∧ c.toNat ≤ 122) : isMark c = false := by
  have hat : c ≠ '@' := by
    rintro rfl
    exact absurd h (by decide)
  have hhyphen : c ≠ '-' := by
    rintro rfl
    exact absurd h (by decide)
  unfold isMark isWhitespace isDot
  dsimp only
  simp only [Bool.or_eq_false_iff, Bool.and_eq_false_iff, decide_eq_false_iff_not,
    beq_eq_false_iff_ne]
  refine ⟨⟨⟨?_, ?_⟩, hat⟩, hhyphen⟩ <;> omega

theorem toLower_toUpper (c : Char) : c.toUpper.toLower = c.toLower := by
  by_cases hc : 97 ≤ c.toNat ∧ c.toNat ≤ 122
  · have hupper := toNat_toUpper c
    rw [if_pos hc] at hupper
    apply Char.toNat_inj.1
    rw [toNat_toLower, toNat_toLower, if_pos (by omega), if_neg (by omega)]
    omega
  · rw [toUpper_eq_self (by omega)]

def exampleLower : Casing :=
  ofChar (fun c => if c = 'Ä' then 'ä' else c.toLower) Char.toLower
    (fun c hc => if_neg (by rintro rfl; exact absurd hc (by decide)))
    toLower_toLower
    (fun c hge => by
      by_cases hc : c = 'Ä'
      · subst hc
        decide
      · rw [if_neg hc] at hge ⊢
        have hself : c.toLower = c := by
          rw [toNat_toLower] at hge
          refine toLower_eq_self ?_
          split at hge <;> omega
        rw [hself, if_neg hc, hself])
    (fun c hmark => by
      by_cases hc : c = 'Ä'
      · subst hc
        revert hmark
        decide
      · rw [if_neg hc] at hmark ⊢
        by_contra hne
        have hupper : 65 ≤ c.toNat ∧ c.toNat ≤ 90 := by
          by_contra hout
          exact hne (toLower_eq_self (by omega))
        have hlower := toNat_toLower c
        rw [if_pos hupper] at hlower
        rw [isMark_letter (by omega), isMark_letter (by omega)] at hmark
        simp at hmark)

def exampleUpper : Casing :=
  ofChar (fun c => if c = 'ä' then 'Ä' else c.toUpper) Char.toUpper
    (fun c hc => if_neg (by rintro rfl; exact absurd hc (by decide)))
    toLower_toUpper
    (fun c hge => by
      by_cases hc : c = 'ä'
      · subst hc
        decide
      · rw [if_neg hc] at hge ⊢
        have hself : c.toUpper = c := by
          rw [toNat_toUpper] at hge
          refine toUpper_eq_self ?_
          split at hge <;> omega
        rw [hself, if_neg hc, hself])
    (fun c hmark => by
      by_cases hc : c = 'ä'
      · subst hc
        revert hmark
        decide
      · rw [if_neg hc] at hmark ⊢
        by_contra hne
        have hlower : 97 ≤ c.toNat ∧ c.toNat ≤ 122 := by
          by_contra hout
          exact hne (toUpper_eq_self (by omega))
        have hupper := toNat_toUpper c
        rw [if_pos hlower] at hupper
        rw [isMark_letter (by omega), isMark_letter (by omega)] at hmark
        simp at hmark)

/-- The digits of a character: a digit for one of ASCII, and otherwise as many as its number. -/
def exampleDigits (c : Char) : JsText :=
  if c.toNat < 128 then ['b'] else List.replicate c.toNat 'a' ++ ['b']

/-- Codes of labels. Those of the two letters are the ones of Punycode. -/
def exampleEncode (t : JsText) : JsText :=
  if t = ['Ä'] then ['7', 'b', 'a']
  else if t = ['ä'] then ['4', 'c', 'a']
  else t.filter (fun c => c.toNat < 128) ++ '-' :: t.flatMap exampleDigits

theorem exampleDigits_eq (c : Char) : exampleDigits c.toLower = exampleDigits c := by
  by_cases hc : c.toNat < 128
  · rw [exampleDigits, exampleDigits, if_pos hc, if_pos (toLower_lt_iff.2 hc)]
  · rw [toLower_eq_self (by omega)]

theorem mem_exampleDigits {d : Char} (h : d ∈ exampleDigits c) : d = 'a' ∨ d = 'b' := by
  unfold exampleDigits at h
  split at h
  · exact .inr (List.mem_singleton.1 h)
  · rcases List.mem_append.1 h with h | h
    · exact .inl (List.eq_of_mem_replicate h)
    · exact .inr (List.mem_singleton.1 h)

theorem mem_exampleEncode (h : c ∈ exampleEncode t) :
    (c ∈ t ∧ c.toNat < 128) ∨ c = '-' ∨ c ∈ ['7', 'b', 'a', '4', 'c'] := by
  unfold exampleEncode at h
  split at h
  · exact .inr (.inr (List.mem_append_left ['4', 'c'] h))
  split at h
  · refine .inr (.inr ?_)
    revert h
    simp only [List.mem_cons]
    tauto
  · rcases List.mem_append.1 h with h | h
    · obtain ⟨hmem, hascii⟩ := List.mem_filter.1 h
      exact .inl ⟨hmem, of_decide_eq_true hascii⟩
    rcases List.mem_cons.1 h with h | h
    · exact .inr (.inl h)
    · obtain ⟨d, -, hd⟩ := List.mem_flatMap.1 h
      refine .inr (.inr ?_)
      rcases mem_exampleDigits hd with rfl | rfl <;> decide

theorem exampleEncode_eq (hA : t ≠ ['Ä']) (ha : t ≠ ['ä']) : exampleEncode t =
    t.filter (fun c => c.toNat < 128) ++ '-' :: t.flatMap exampleDigits := by
  rw [exampleEncode, if_neg hA, if_neg ha]

/-- The digits of a character end where those of the next one begin. -/
theorem exampleDigits_append {d : Char} {x y : JsText}
    (h : exampleDigits c ++ x = exampleDigits d ++ y) :
    (c.toNat < 128 ∧ d.toNat < 128 ∨ c = d) ∧ x = y := by
  have hdigits (c : Char) : exampleDigits c =
      List.replicate (if c.toNat < 128 then 0 else c.toNat) 'a' ++ ['b'] := by
    unfold exampleDigits
    split <;> rfl
  rw [hdigits, hdigits, List.append_assoc, List.append_assoc] at h
  have hnone (n : ℕ) : 'b' ∉ List.replicate n 'a' := fun hb => by
    exact absurd (List.eq_of_mem_replicate hb) (by decide)
  obtain ⟨hcount, hrest⟩ := split_unique (hnone _) (hnone _) h
  refine ⟨?_, hrest⟩
  have hlength := congrArg List.length hcount
  rw [List.length_replicate, List.length_replicate] at hlength
  by_cases hc : c.toNat < 128
  · by_cases hd : d.toNat < 128
    · exact .inl ⟨hc, hd⟩
    · rw [if_pos hc, if_neg hd] at hlength
      omega
  · by_cases hd : d.toNat < 128
    · rw [if_neg hc, if_pos hd] at hlength
      omega
    · rw [if_neg hc, if_neg hd] at hlength
      exact .inr (Char.toNat_inj.1 hlength)

/-- The characters of ASCII and the digits make up a label. -/
theorem eq_of_code (hfilter : t.filter (fun c => c.toNat < 128) = t'.filter fun c => c.toNat < 128)
    (hdigits : t.flatMap exampleDigits = t'.flatMap exampleDigits) : t = t' := by
  have hne (c : Char) (t : JsText) : [] ≠ (c :: t).flatMap exampleDigits := by
    rw [List.flatMap_cons]
    unfold exampleDigits
    split <;> simp
  induction t generalizing t' with
  | nil =>
    cases t' with
    | nil => rfl
    | cons d t' => exact absurd hdigits (hne d t')
  | cons c t ih =>
    cases t' with
    | nil => exact absurd hdigits.symm (hne c t)
    | cons d t' =>
      rw [List.flatMap_cons, List.flatMap_cons] at hdigits
      obtain ⟨hhead, htail⟩ := exampleDigits_append hdigits
      rcases hhead with ⟨hc, hd⟩ | rfl
      · rw [List.filter_cons_of_pos (by simpa using hc), List.filter_cons_of_pos (by simpa using hd),
          List.cons.injEq] at hfilter
        rw [hfilter.1, ih hfilter.2 htail]
      · refine congrArg (c :: ·) (ih ?_ htail)
        by_cases hc : c.toNat < 128
        · rw [List.filter_cons_of_pos (by simpa using hc),
            List.filter_cons_of_pos (by simpa using hc), List.cons.injEq] at hfilter
          exact hfilter.2
        · rwa [List.filter_cons_of_neg (by simpa using hc),
            List.filter_cons_of_neg (by simpa using hc)] at hfilter

theorem exampleEncode_inj (h : exampleEncode t = exampleEncode t') : t = t' := by
  have hyphen {t : JsText} (h : '-' ∉ exampleEncode t) : t = ['Ä'] ∨ t = ['ä'] := by
    by_contra hnone
    rw [not_or] at hnone
    rw [exampleEncode_eq hnone.1 hnone.2] at h
    simp at h
  have hdigits (t : JsText) : '-' ∉ (t.flatMap exampleDigits).reverse := by
    rw [List.mem_reverse]
    intro hmem
    obtain ⟨c, -, hc⟩ := List.mem_flatMap.1 hmem
    exact absurd (mem_exampleDigits hc) (by decide)
  by_cases hletters : '-' ∈ exampleEncode t
  · have hletters' := h ▸ hletters
    have hother {t : JsText} (h : '-' ∈ exampleEncode t) : t ≠ ['Ä'] ∧ t ≠ ['ä'] := by
      constructor
      · rintro rfl
        revert h
        decide
      · rintro rfl
        revert h
        decide
    rw [exampleEncode_eq (hother hletters).1 (hother hletters).2,
      exampleEncode_eq (hother hletters').1 (hother hletters').2] at h
    have hreverse := congrArg List.reverse h
    rw [List.reverse_append, List.reverse_append, List.reverse_cons, List.reverse_cons,
      List.append_assoc, List.append_assoc] at hreverse
    obtain ⟨hcode, hfilter⟩ := split_unique (hdigits t) (hdigits t') hreverse
    exact eq_of_code (List.reverse_injective hfilter) (List.reverse_injective hcode)
  · rcases hyphen hletters with rfl | rfl <;> rcases hyphen (h ▸ hletters) with rfl | rfl
    · rfl
    · exact absurd h (by decide)
    · exact absurd h (by decide)
    · rfl

theorem exampleEncode_toLower (t : JsText) :
    exampleEncode (t.map Char.toLower) = (exampleEncode t).map Char.toLower := by
  have hletter {c : Char} (hc : 122 < c.toNat) (h : t.map Char.toLower = [c]) : t = [c] := by
    obtain ⟨d, rfl, hd⟩ := List.map_eq_singleton_iff.1 h
    rw [eq_of_toLower_eq hd (.inr hc)]
  by_cases hA : t = ['Ä']
  · subst hA
    decide
  by_cases ha : t = ['ä']
  · subst ha
    decide
  have hfilter : (t.map Char.toLower).filter (fun c => c.toNat < 128) =
      (t.filter fun c => c.toNat < 128).map Char.toLower := by
    rw [List.filter_map]
    refine congrArg (List.map Char.toLower) (List.filter_congr fun c _ => ?_)
    exact decide_eq_decide.2 toLower_lt_iff
  have hdigits : (t.flatMap exampleDigits).map Char.toLower = t.flatMap exampleDigits := by
    refine (List.map_congr_left fun c hc => ?_).trans (List.map_id _)
    obtain ⟨d, -, hd⟩ := List.mem_flatMap.1 hc
    rcases mem_exampleDigits hd with rfl | rfl <;> rfl
  rw [exampleEncode_eq hA ha, exampleEncode_eq (fun h => hA (hletter (by decide) h))
    (fun h => ha (hletter (by decide) h)), hfilter, List.map_append, List.map_cons, hdigits,
    List.flatMap_map]
  simp only [exampleDigits_eq]
  rfl

theorem exampleDigit_ascii :
    ∀ c ∈ ['7', 'b', 'a', '4', 'c'], c.toNat < 128 ∧ isMark c = false := by
  intro c hc
  simp only [List.mem_cons, List.not_mem_nil, or_false] at hc
  rcases hc with rfl | rfl | rfl | rfl | rfl <;> decide

/-- The letters of ASCII and two others have a case. -/
def exampleNaming : Naming where
  toRuntime := { exampleRuntime with
    toLowerCase := exampleLower.apply
    toUpperCase := exampleUpper.apply
    toASCII := fun t => if '@' ∈ t then t
      else join ['.'] ((t.splitOnP isDot).map (encodeLabel exampleEncode)) }
  lower := exampleLower
  upper := exampleUpper
  encode := exampleEncode
  toLowerCase_eq _ := rfl
  toUpperCase_eq _ := rfl
  lower_ascii _ := rfl
  toASCII_eq _ h := if_neg h
  mem_toASCII t h := by
    show '@' ∈ if '@' ∈ t then t else _
    rwa [if_pos h]
  ascii_encode t c hc := by
    rcases mem_exampleEncode hc with hc | rfl | hc
    · exact hc.2
    · decide
    · exact (exampleDigit_ascii c hc).1
  mark_encode t c hc hmark := by
    rcases mem_exampleEncode hc with hc | hc | hc
    · exact .inl hc.1
    · exact .inr hc
    · rw [(exampleDigit_ascii c hc).2] at hmark
      cases hmark
  count_encode t := by
    by_cases hA : t = ['Ä']
    · subst hA
      decide
    by_cases ha : t = ['ä']
    · subst ha
      decide
    rw [exampleEncode_eq hA ha, List.count_append, List.count_filter (by decide)]
    exact Nat.le_add_right _ _
  encode_toLower := exampleEncode_toLower
  encode_inj _ _ _ _ := exampleEncode_inj

/-- `Api.Example.` -/
def exampleName : JsText := ['A', 'p', 'i', '.', 'E', 'x', 'a', 'm', 'p', 'l', 'e', '.']

/-- A name in ASCII is consistent. -/
theorem exampleName_consistent : Consistent exampleNaming.toRuntime exampleName
    ['a', 'p', 'i', '.', 'e', 'x', 'a', 'm', 'p', 'l', 'e'] :=
  (consistent_iff exampleNaming (by decide +kernel)).2 fun c hc hge => by
    have hascii : isAscii exampleName = true := by decide
    exact absurd (isAscii_iff.1 hascii c hc) (Nat.not_lt.2 hge)

/-- The name of one letter is accepted in both cases, and its normal forms are different. -/
theorem exampleLetter_inconsistent :
    normalizeName exampleNaming.toRuntime ['Ä'] = .ok ['x', 'n', '-', '-', '7', 'b', 'a'] ∧
      normalizeName exampleNaming.toRuntime (exampleNaming.toLowerCase ['Ä']) =
        .ok ['x', 'n', '-', '-', '4', 'c', 'a'] ∧
      normalizeRegistryName exampleNaming.toRuntime ['Ä'] = ['x', 'n', '-', '-', '4', 'c', 'a'] ∧
      ¬Consistent exampleNaming.toRuntime ['Ä'] ['x', 'n', '-', '-', '7', 'b', 'a'] := by
  refine ⟨by decide +kernel, by decide +kernel, by decide +kernel, ?_⟩
  rintro ⟨-, -, -, hregistry, -⟩
  revert hregistry
  decide +kernel

end Example

end Ddns.Core.Registry
