import Ddns.CfDemo.Wire

/-!
# Names on the wire

A name is a sequence of labels that ends with the empty one; a pointer stands for the name at another
place of the packet. `presents_iff` says when the name that is read is the one on the wire: the labels
are UTF-8 texts without points, change of case changes nothing but ASCII in them, and neither the name
nor the name that a pointer leads to is changed by trimming.
-/

namespace Ddns.CfDemo

open JsText Bytes Results

/-! ## Trimmed texts -/

section Trim

variable {t t' : JsText}

/-- There is no white space at an end of the text. -/
def Trimmed (t : JsText) : Prop := trim t = t

theorem trim_sublist (t : JsText) : (trim t).Sublist t :=
  (List.rdropWhile_prefix _ _).sublist.trans (List.dropWhile_sublist _)

theorem trimmed_of_length (h : (trim t).length = t.length) : Trimmed t :=
  (trim_sublist t).eq_of_length h

theorem trim_map_toLower (t : JsText) : trim (t.map Char.toLower) = (trim t).map Char.toLower := by
  have hspace : isWhitespace ∘ Char.toLower = isWhitespace := funext isWhitespace_toLower
  rw [trim, trim, List.dropWhile_map, hspace, List.rdropWhile, List.rdropWhile, List.map_reverse,
    ← List.map_reverse, List.dropWhile_map, hspace]

theorem trimmed_iff_of_toLower (h : t.map Char.toLower = t'.map Char.toLower) :
    Trimmed t ↔ Trimmed t' := by
  have hlength := congrArg List.length h
  have htrim := congrArg (fun s => (trim s).length) h
  simp only [trim_map_toLower, List.length_map] at hlength htrim
  constructor
  · intro ht
    rw [Trimmed] at ht
    exact trimmed_of_length (by rw [← htrim, ht, hlength])
  · intro ht
    rw [Trimmed] at ht
    exact trimmed_of_length (by rw [htrim, ht, hlength])

end Trim

/-! ## Joined labels -/

section Joined

variable {p t : JsText} {ps : List JsText} {c : Char}

/-- The labels that are not empty, with points between them. -/
def joined (ps : List JsText) : JsText := join ['.'] (ps.filter (· ≠ []))

/-- A label in front of a name. -/
def dotted (p t : JsText) : JsText := if t = [] then p else if p = [] then t else p ++ '.' :: t

theorem joined_eq (h : ∀ p ∈ ps, p ≠ []) : joined ps = join ['.'] ps := by
  rw [joined, List.filter_eq_self.2 fun p hp => decide_eq_true (h p hp)]

theorem joined_eq_nil (h : joined ps = []) : ps.filter (· ≠ []) = [] := by
  rw [List.eq_nil_iff_forall_not_mem]
  intro p hp
  obtain ⟨c, p, rfl⟩ := List.exists_cons_of_ne_nil (of_decide_eq_true (List.mem_filter.1 hp).2)
  have hc : c ∈ joined ps := mem_join_of_mem hp List.mem_cons_self
  rw [h] at hc
  cases hc

theorem joined_cons (p : JsText) (ps : List JsText) : joined (p :: ps) = dotted p (joined ps) := by
  rw [dotted]
  by_cases hps : joined ps = []
  · rw [if_pos hps, joined, List.filter_cons, joined_eq_nil hps]
    by_cases hp : p = []
    · rw [if_neg (by simpa using hp), hp]
      rfl
    · rw [if_pos (by simpa using hp)]
      exact List.intercalate_singleton
  · have hne : ps.filter (· ≠ []) ≠ [] := fun hnil => hps (by rw [joined, hnil]; rfl)
    rw [if_neg hps, joined, List.filter_cons]
    by_cases hp : p = []
    · rw [if_pos hp, if_neg (by simpa using hp)]
      rfl
    · rw [if_neg hp, if_pos (by simpa using hp), join_cons hne]
      rfl

theorem length_dotted (p t : JsText) : (dotted p t).length =
    if t.length = 0 then p.length else if p.length = 0 then t.length else p.length + 1 + t.length := by
  unfold dotted
  simp only [List.length_eq_zero_iff]
  split_ifs
  · rfl
  · rfl
  · rw [List.length_append, List.length_cons]
    omega

theorem map_dotted (p t : JsText) :
    (dotted p t).map Char.toLower = dotted (p.map Char.toLower) (t.map Char.toLower) := by
  unfold dotted
  simp only [List.map_eq_nil_iff]
  split_ifs
  · rfl
  · rfl
  · rw [List.map_append, List.map_cons]
    rfl

theorem mem_dotted (h : c ∈ dotted p t) : c = '.' ∨ c ∈ p ∨ c ∈ t := by
  unfold dotted at h
  split_ifs at h
  · exact .inr (.inl h)
  · exact .inr (.inr h)
  · rcases List.mem_append.1 h with h | h
    · exact .inr (.inl h)
    · exact (List.mem_cons.1 h).imp_right .inr

end Joined

/-! ## What reading does to a text -/

section Outcome

variable {good good' : Prop} {x x' y y' : JsText}

/-- A text is read for `y`: it is `y` up to the case of ASCII if all is good, else it is shorter. -/
inductive Outcome (good : Prop) (x y : JsText) : Prop
  | same (isGood : good) (eq : x.map Char.toLower = y.map Char.toLower)
  | shorter (isBad : ¬good) (lt : x.length < y.length)

theorem Outcome.iff (h : Outcome good x y) : x.map Char.toLower = y.map Char.toLower ↔ good := by
  cases h with
  | same isGood eq => exact ⟨fun _ => isGood, fun _ => eq⟩
  | shorter isBad lt =>
    refine ⟨fun eq => ?_, fun isGood => absurd isGood isBad⟩
    have hlength := congrArg List.length eq
    rw [List.length_map, List.length_map] at hlength
    omega

theorem Outcome.length_le (h : Outcome good x y) : x.length ≤ y.length := by
  cases h with
  | same _ eq => simpa using (congrArg List.length eq).le
  | shorter _ lt => exact lt.le

theorem Outcome.congr (h : Outcome good x y) (hiff : good ↔ good') : Outcome good' x y := by
  rwa [← propext hiff]

theorem Outcome.dotted (h : Outcome good x y) (h' : Outcome good' x' y') :
    Outcome (good ∧ good') (dotted x x') (dotted y y') := by
  have hle := h.length_le
  have hle' := h'.length_le
  have hshorter (hlt : x.length < y.length ∨ x'.length < y'.length) :
      (CfDemo.dotted x x').length < (CfDemo.dotted y y').length := by
    rw [length_dotted, length_dotted]
    split_ifs <;> omega
  cases h with
  | shorter isBad lt => exact .shorter (fun hand => isBad hand.1) (hshorter (.inl lt))
  | same isGood eq =>
    cases h' with
    | shorter isBad' lt' => exact .shorter (fun hand => isBad' hand.2) (hshorter (.inr lt'))
    | same isGood' eq' => exact .same ⟨isGood, isGood'⟩ (by rw [map_dotted, map_dotted, eq, eq'])

/-- A label is decoded without the byte order mark in front. -/
theorem outcome_decode (p : JsText) :
    Outcome (p.head? ≠ some TextDecoder.mark) (TextDecoder.decode p.utf8) p := by
  rw [TextDecoder.decode_utf8]
  by_cases hp : p.head? = some TextDecoder.mark
  · rw [if_pos hp]
    obtain ⟨p, rfl⟩ := List.head?_eq_some_iff.1 hp
    exact .shorter (not_not.2 hp) (by simp)
  · rw [if_neg hp]
    exact .same hp rfl

/-- The text has no character outside ASCII that has a lower case. -/
def Steady (rt : Runtime) (t : JsText) : Prop := ∀ c ∈ t, 128 ≤ c.toNat → ¬rt.lower.Changes c

variable {rt : Runtime}

theorem Steady.apply (h : Steady rt x) : rt.lower.apply x = x.map Char.toLower := by
  rw [Casing.apply, Casing.run_eq_map h]
  refine List.map_congr_left fun c _ => ?_
  rw [rt.lower_ascii]
  split
  · rfl
  · next hc => exact (toLower_eq_self (by omega)).symm

theorem Steady.normalizeName (h : Steady rt x) :
    normalizeName rt x = ((trim x).map Char.toLower).rdropWhile (· = '.') := by
  have htrim : Steady rt (trim x) := fun c hc => h c ((trim_sublist x).mem hc)
  rw [CfDemo.normalizeName, htrim.apply]

/-- A name is read for a text that does not end in a point, which has to be trimmed. -/
theorem outcome_normalizeName (hsteady : Steady rt x) (hend : ∀ c ∈ y.getLast?, c ≠ '.')
    (h : Outcome good x y) : Outcome (good ∧ Trimmed y) (normalizeName rt x) y := by
  have hdrop : (normalizeName rt x).length ≤ (trim x).length := by
    rw [hsteady.normalizeName]
    simpa using (List.rdropWhile_prefix (· = '.') ((trim x).map Char.toLower)).length_le
  have htrim := (trim_sublist x).length_le
  cases h with
  | shorter isBad lt => exact .shorter (fun hand => isBad hand.1) (by omega)
  | same isGood eq =>
    have hlength := congrArg List.length eq
    rw [List.length_map, List.length_map] at hlength
    by_cases hy : Trimmed y
    · refine .same ⟨isGood, hy⟩ ?_
      have hx : trim x = x := (trimmed_iff_of_toLower eq).2 hy
      have hkept : (y.map Char.toLower).rdropWhile (· = '.') = y.map Char.toLower := by
        rw [List.rdropWhile_eq_self_iff]
        intro hne hlast
        have hy : y ≠ [] := fun hnil => hne (by rw [hnil]; rfl)
        rw [List.getLast_map, decide_eq_true_eq] at hlast
        have hpoint := eq_of_toLower_eq hlast (.inl (by decide))
        exact hend _ (List.getLast?_eq_some_getLast hy) hpoint
      rw [hsteady.normalizeName, hx, eq, hkept, List.map_map]
      exact List.map_congr_left fun c _ => toLower_toLower c
    · refine .shorter (fun hand => hy hand.2) ?_
      have hx : ¬Trimmed x := fun hx => hy ((trimmed_iff_of_toLower eq).1 hx)
      have hne : (trim x).length ≠ x.length := fun heq => hx (trimmed_of_length heq)
      omega

end Outcome

/-! ## Names of a packet -/

/-- The labels of the name at a place of the packet, the names that its pointers lead to, and where it
ends. Nothing of it is outside the packet. -/
inductive Denotes (buf : List UInt8) :
    (pos : ℕ) → (labels : List (List UInt8)) → (targets : List (List (List UInt8))) → (next : ℕ) → Prop
  | root {pos : ℕ} (head : buf[pos]? = some 0) : Denotes buf pos [] [] (pos + 1)
  | label {pos next : ℕ} {labels : List (List UInt8)} {targets : List (List (List UInt8))} {len : UInt8}
      (head : buf[pos]? = some len) (positive : 0 < len.toNat) (short : len.toNat ≤ 63)
      (fits : pos + 1 + len.toNat ≤ buf.length)
      (rest : Denotes buf (pos + 1 + len.toNat) labels targets next) :
      Denotes buf pos (slice buf (pos + 1) len.toNat :: labels) targets next
  | pointer {pos next : ℕ} {labels : List (List UInt8)} {targets : List (List (List UInt8))}
      {high low : UInt8} (head : buf[pos]? = some high) (marked : 0xc0 ≤ high.toNat)
      (second : buf[pos + 1]? = some low)
      (target : Denotes buf ((high.toNat - 0xc0) * 256 + low.toNat) labels targets next) :
      Denotes buf pos labels (labels :: targets) (pos + 2)

/-- The name shows the labels: it is their texts with points between them, up to the case of ASCII. -/
def Presents (name : JsText) (labels : List (List UInt8)) : Prop :=
  ∃ ps : List JsText, labels = ps.map utf8 ∧ (∀ p ∈ ps, '.' ∉ p) ∧
    name.map Char.toLower = (join ['.'] ps).map Char.toLower

/-- The text of labels. -/
def text (labels : List (List UInt8)) : JsText := join ['.'] (labels.map TextDecoder.decode)

section Names

variable {rt : Runtime} {buf : List UInt8} {pos next : ℕ} {labels : List (List UInt8)}
  {targets : List (List (List UInt8))} {ps : List JsText} {t t' : JsText}

/-- A label that a name can show, and that changes in nothing but the case of ASCII. -/
structure Piece (rt : Runtime) (p : JsText) : Prop where
  ne_nil : p ≠ []
  point : '.' ∉ p
  steady : Steady rt p

/-- No label starts with a byte order mark, and no name that a pointer leads to is trimmed. -/
def Clean (ps : List JsText) (targets : List (List (List UInt8))) : Prop :=
  (∀ p ∈ ps, p.head? ≠ some TextDecoder.mark) ∧ ∀ target ∈ targets, Trimmed (text target)

theorem last_joined (hps : ∀ p ∈ ps, Piece rt p) : ∀ c ∈ (joined ps).getLast?, c ≠ '.' := by
  induction ps with
  | nil => exact nofun
  | cons p ps ih =>
    have hp := hps p List.mem_cons_self
    intro c hc
    rw [joined_cons, dotted] at hc
    split_ifs at hc with hnil hp'
    · rintro rfl
      exact hp.point (List.mem_of_getLast? hc)
    · exact absurd hp' hp.ne_nil
    · refine ih (fun q hq => hps q (List.mem_cons_of_mem p hq)) c ?_
      rwa [List.getLast?_append_of_ne_nil _ (List.cons_ne_nil _ _),
        List.getLast?_cons_of_ne_nil hnil] at hc

theorem Steady.dotted (ht : Steady rt t) (ht' : Steady rt t') : Steady rt (dotted t t') := by
  intro c hc hge
  rcases mem_dotted hc with rfl | hc | hc
  · exact absurd hge (by decide)
  · exact ht c hc hge
  · exact ht' c hc hge

theorem Steady.toLower (h : Steady rt t) : Steady rt (t.map Char.toLower) := by
  intro c hc hge
  obtain ⟨d, hd, rfl⟩ := List.mem_map.1 hc
  have hlower := toNat_toLower d
  have hself : d.toLower = d := toLower_eq_self (by split at hlower <;> omega)
  rw [hself] at hge ⊢
  exact h d hd hge

theorem Steady.of_normalizeName (h : Steady rt t) : Steady rt (CfDemo.normalizeName rt t) := by
  intro c hc
  rw [h.normalizeName] at hc
  have htrim : Steady rt (trim t) := fun d hd => h d ((trim_sublist t).mem hd)
  exact htrim.toLower c ((List.rdropWhile_prefix _ _).mem hc)

/-- The loop, at a place of the packet, reads a name that `ps` are the labels of. -/
def LoopReads (rt : Runtime) (buf : List UInt8) (pos : ℕ) (ps : List JsText)
    (targets : List (List (List UInt8))) (next : ℕ) : Prop :=
  ∀ depths rounds r, buf.length ≤ pos + rounds →
    labelsFrom (fun ptr => (decodeName rt buf depths ptr).map Prod.fst) buf rounds pos = .ok r →
      r.2 = some next ∧ Steady rt (joined r.1) ∧ Outcome (Clean ps targets) (joined r.1) (joined ps)

/-- A name that the loop reads is then trimmed. -/
theorem LoopReads.decodeName (h : LoopReads rt buf pos ps targets next) (hps : ∀ p ∈ ps, Piece rt p)
    {depths n : ℕ} {name : JsText} (hok : decodeName rt buf depths pos = .ok (name, n)) :
    n = next ∧ Steady rt name ∧
      Outcome (Clean ps targets ∧ Trimmed (joined ps)) name (joined ps) := by
  cases depths with
  | zero => cases hok
  | succ depths =>
    rw [CfDemo.decodeName] at hok
    obtain ⟨r, hr, hname⟩ := map_eq_ok_iff.1 hok
    obtain ⟨hend, hsteady, houtcome⟩ := h depths _ r (by omega) hr
    obtain ⟨rfl, rfl⟩ := Prod.mk.inj hname
    exact ⟨by rw [hend, Option.getD_some], hsteady.of_normalizeName,
      outcome_normalizeName hsteady (last_joined hps) houtcome⟩

/-- Without byte order marks, the text of the labels is what is read. -/
theorem text_of_clean (hps : ∀ p ∈ ps, Piece rt p) (h : ∀ p ∈ ps, p.head? ≠ some TextDecoder.mark) :
    text (ps.map utf8) = joined ps := by
  rw [text, joined_eq fun p hp => (hps p hp).ne_nil, List.map_map]
  congr 1
  refine (List.map_congr_left fun p hp => ?_).trans (List.map_id ps)
  exact (TextDecoder.decode_utf8 p).trans (if_neg (h p hp))

theorem clean_cons {p : JsText} : p.head? ≠ some TextDecoder.mark ∧ Clean ps targets ↔
    Clean (p :: ps) targets := by
  rw [Clean, Clean, List.forall_mem_cons, and_assoc]

theorem clean_pointer (hps : ∀ p ∈ ps, Piece rt p) : Clean ps targets ∧ Trimmed (joined ps) ↔
    Clean ps (ps.map utf8 :: targets) := by
  rw [Clean, Clean, List.forall_mem_cons]
  constructor
  · rintro ⟨⟨hmarks, htargets⟩, htrim⟩
    exact ⟨hmarks, by rwa [text_of_clean hps hmarks], htargets⟩
  · rintro ⟨hmarks, htrim, htargets⟩
    exact ⟨⟨hmarks, htargets⟩, by rwa [text_of_clean hps hmarks] at htrim⟩

theorem Steady.decode {p : JsText} (h : Steady rt p) : Steady rt (TextDecoder.decode p.utf8) := by
  rw [TextDecoder.decode_utf8]
  split
  · exact fun c hc => h c (List.mem_of_mem_tail hc)
  · exact h

/-- **A name of the packet** is read as its labels, if nothing of them is cut off. -/
theorem Denotes.loopReads (h : Denotes buf pos labels targets next) (hlabels : labels = ps.map utf8)
    (hps : ∀ p ∈ ps, Piece rt p) : LoopReads rt buf pos ps targets next := by
  induction h generalizing ps with
  | @root pos head =>
    obtain rfl := List.map_eq_nil_iff.1 hlabels.symm
    intro depths rounds r hrounds hok
    obtain ⟨hlt, -⟩ := List.getElem?_eq_some_iff.1 head
    obtain ⟨rounds, rfl⟩ := Nat.exists_eq_succ_of_ne_zero (n := rounds) (by omega)
    rw [labelsFrom, head] at hok
    cases hok
    exact ⟨rfl, nofun, .same ⟨nofun, nofun⟩ rfl⟩
  | @label pos next labels targets len head positive short fits rest ih =>
    obtain ⟨p, ps, rfl, hp, hrest⟩ := List.map_eq_cons_iff.1 hlabels.symm
    have hpiece := hps p List.mem_cons_self
    intro depths rounds r hrounds hok
    obtain ⟨rounds, rfl⟩ := Nat.exists_eq_succ_of_ne_zero (n := rounds) (by omega)
    rw [labelsFrom, head] at hok
    dsimp only at hok
    rw [if_neg (by omega), if_neg (by omega)] at hok
    obtain ⟨r, hr, rfl⟩ := map_eq_ok_iff.1 hok
    obtain ⟨hend, hsteady, houtcome⟩ := ih hrest.symm (fun q hq => hps q (List.mem_cons_of_mem p hq))
      depths rounds r (by omega) hr
    rw [joined_cons, joined_cons, ← hp]
    exact ⟨hend, hpiece.steady.decode.dotted hsteady,
      ((outcome_decode p).dotted houtcome).congr clean_cons⟩
  | @pointer pos next labels targets high low head marked second target ih =>
    intro depths rounds r hrounds hok
    obtain ⟨hlt, -⟩ := List.getElem?_eq_some_iff.1 head
    obtain ⟨rounds, rfl⟩ := Nat.exists_eq_succ_of_ne_zero (n := rounds) (by omega)
    rw [labelsFrom, head] at hok
    dsimp only at hok
    rw [if_pos marked, List.getD_eq_getElem?_getD, second, Option.getD_some] at hok
    obtain ⟨name, hname, rfl⟩ := map_eq_ok_iff.1 hok
    obtain ⟨⟨name, n⟩, hread, rfl⟩ := map_eq_ok_iff.1 hname
    obtain ⟨-, hsteady, houtcome⟩ := (ih hlabels hps).decodeName hps hread
    have hjoined : joined [name] = name := joined_cons name []
    rw [hjoined, hlabels]
    exact ⟨rfl, hsteady, houtcome.congr (clean_pointer hps)⟩

/-- The label is the UTF-8 text of a part of a name, and changes in nothing but the case of ASCII. -/
structure Kept (rt : Runtime) (l : List UInt8) : Prop where
  text : utf8 (TextDecoder.decode l) = l
  point : '.' ∉ TextDecoder.decode l
  steady : Steady rt (TextDecoder.decode l)

/-- The labels of a name have up to 63 bytes. -/
theorem Denotes.length (h : Denotes buf pos labels targets next) :
    ∀ l ∈ labels, 0 < l.length ∧ l.length ≤ 63 := by
  induction h with
  | root head => exact nofun
  | @label pos next labels targets len head positive short fits rest ih =>
    rw [List.forall_mem_cons]
    refine ⟨?_, ih⟩
    rw [slice, List.length_take, List.length_drop]
    omega
  | pointer head marked second target ih => exact ih

/-- No character is left in a name that is read that would change again, ASCII apart. -/
theorem not_mem_decodeName {depths n : ℕ} {name : JsText} {c : Char}
    (hok : decodeName rt buf depths pos = .ok (name, n)) (hc : 128 ≤ c.toNat)
    (h : rt.lower.Changes c) : c ∉ name := by
  cases depths with
  | zero => cases hok
  | succ depths =>
    obtain ⟨r, -, hname⟩ := map_eq_ok_iff.1 hok
    obtain ⟨rfl, -⟩ := Prod.mk.inj hname
    exact fun hmem => Casing.not_mem_run hc h ((List.rdropWhile_prefix _ _).mem hmem)

theorem head_ne_mark {p : JsText} (h : TextDecoder.decode p.utf8 = p) :
    p.head? ≠ some TextDecoder.mark := by
  intro hmark
  rw [TextDecoder.decode_utf8, if_pos hmark] at h
  obtain ⟨p, rfl⟩ := List.head?_eq_some_iff.1 hmark
  exact List.cons_ne_self _ _ h.symm

/-- Labels that are kept are the texts that they are decoded to. -/
theorem pieces_of_kept (h : Denotes buf pos labels targets next) (hkept : ∀ l ∈ labels, Kept rt l) :
    labels = (labels.map TextDecoder.decode).map utf8 ∧
      ∀ p ∈ labels.map TextDecoder.decode, Piece rt p := by
  constructor
  · rw [List.map_map]
    exact ((List.map_congr_left fun l hl => (hkept l hl).text).trans (List.map_id labels)).symm
  · rw [List.forall_mem_map]
    intro l hl
    refine ⟨fun hnil => ?_, (hkept l hl).point, (hkept l hl).steady⟩
    have htext := (hkept l hl).text
    rw [hnil] at htext
    have hpos := (h.length l hl).1
    rw [← htext] at hpos
    exact absurd hpos (by decide)

/-- **The name that is read** shows the labels exactly if they are kept and nothing is trimmed. -/
theorem presents_iff {depths n : ℕ} {name : JsText} (h : Denotes buf pos labels targets next)
    (hok : decodeName rt buf depths pos = .ok (name, n)) : Presents name labels ↔
      (∀ l ∈ labels, Kept rt l) ∧ ∀ target ∈ labels :: targets, Trimmed (text target) := by
  have hread (ps : List JsText) (hlabels : labels = ps.map utf8) (hps : ∀ p ∈ ps, Piece rt p) :
      name.map Char.toLower = (join ['.'] ps).map Char.toLower ↔ Clean ps (labels :: targets) := by
    have houtcome := ((h.loopReads hlabels hps).decodeName hps hok).2.2.iff
    rwa [clean_pointer hps, joined_eq fun p hp => (hps p hp).ne_nil, ← hlabels] at houtcome
  constructor
  · rintro ⟨ps, rfl, hpoints, hname⟩
    have hps (p : JsText) (hp : p ∈ ps) : Piece rt p := by
      refine ⟨?_, hpoints p hp, fun c hc hge hchanges => ?_⟩
      · rintro rfl
        exact absurd (h.length _ (List.mem_map_of_mem hp)).1 (by decide)
      · have hmem : c ∈ name.map Char.toLower := by
          rw [hname, ← toLower_eq_self (c := c) (by omega)]
          exact List.mem_map_of_mem (mem_join_of_mem hp hc)
        obtain ⟨d, hd, hdc⟩ := List.mem_map.1 hmem
        rw [eq_of_toLower_eq hdc (by omega)] at hd
        exact not_mem_decodeName hok hge hchanges hd
    obtain ⟨hmarks, htrim⟩ := (hread ps rfl hps).1 hname
    refine ⟨fun l hl => ?_, htrim⟩
    obtain ⟨p, hp, rfl⟩ := List.mem_map.1 hl
    have hdecode : TextDecoder.decode p.utf8 = p :=
      (TextDecoder.decode_utf8 p).trans (if_neg (hmarks p hp))
    exact ⟨by rw [hdecode], by rw [hdecode]; exact hpoints p hp,
      by rw [hdecode]; exact (hps p hp).steady⟩
  · rintro ⟨hkept, htrim⟩
    obtain ⟨hlabels, hps⟩ := pieces_of_kept h hkept
    refine ⟨labels.map TextDecoder.decode, hlabels, fun p hp => (hps p hp).point,
      (hread _ hlabels hps).2 ⟨?_, htrim⟩⟩
    rw [List.forall_mem_map]
    exact fun l hl => head_ne_mark (by rw [(hkept l hl).text])

/-- The name that is read ends where the labels do. -/
theorem end_eq {depths n : ℕ} {name : JsText} (h : Denotes buf pos labels targets next)
    (hkept : ∀ l ∈ labels, Kept rt l) (hok : decodeName rt buf depths pos = .ok (name, n)) :
    n = next := by
  obtain ⟨hlabels, hps⟩ := pieces_of_kept h hkept
  exact ((h.loopReads hlabels hps).decodeName hps hok).1

/-- A place of a packet has one name at most. -/
theorem Denotes.unique {labels' : List (List UInt8)} {targets' : List (List (List UInt8))} {next' : ℕ}
    (h : Denotes buf pos labels targets next) (h' : Denotes buf pos labels' targets' next') :
    labels = labels' ∧ next = next' := by
  induction h generalizing labels' targets' next' with
  | root head =>
    cases h' with
    | root => exact ⟨rfl, rfl⟩
    | label head' positive' =>
      rw [head] at head'
      cases head'
      exact absurd positive' (by decide)
    | pointer head' marked' =>
      rw [head] at head'
      cases head'
      exact absurd marked' (by decide)
  | label head positive short fits rest ih =>
    cases h' with
    | root head' =>
      rw [head] at head'
      cases head'
      exact absurd positive (by decide)
    | label head' positive' short' fits' rest' =>
      rw [head] at head'
      cases head'
      obtain ⟨rfl, rfl⟩ := ih rest'
      exact ⟨rfl, rfl⟩
    | pointer head' marked' =>
      rw [head] at head'
      cases head'
      omega
  | pointer head marked second target ih =>
    cases h' with
    | root head' =>
      rw [head] at head'
      cases head'
      exact absurd marked (by decide)
    | label head' positive' short' =>
      rw [head] at head'
      cases head'
      omega
    | pointer head' marked' second' target' =>
      rw [head] at head'
      rw [second] at second'
      cases head'
      cases second'
      exact ⟨(ih target').1, rfl⟩

end Names

end Ddns.CfDemo
