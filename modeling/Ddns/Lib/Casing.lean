import Ddns.Lib.Js

/-!
# Changes of case

A change of case rewrites a text character by character, and may look at the text around a character
(the lower case of `Σ` depends on whether a word ends there). `Casing` says what a change of case
does: it rewrites the letters of ASCII to letters of the same lower case, keeps the characters at
which texts are divided, and leaves no other character that it would rewrite again. A character that
it `Changes` is gone from the text (`not_mem_run`); a text without such characters, ASCII apart, is
rewritten character by character (`run_eq_map`).
-/

namespace JsText

/-- The points of domain names: the one of ASCII and those of other scripts. -/
def isDot (c : Char) : Bool :=
  let n := c.toNat
  n = 0x2e || n = 0x3002 || n = 0xff0e || n = 0xff61

/-- The characters at which texts are divided. -/
def isMark (c : Char) : Bool := isWhitespace c || isDot c || c == '@' || c == '-'

theorem isMark_of_whitespace {c : Char} (h : isWhitespace c = true) : isMark c = true := by
  rw [isMark, h]
  rfl

theorem isMark_of_dot {c : Char} (h : isDot c = true) : isMark c = true := by
  rw [isMark, h, Bool.or_true]
  rfl

theorem toNat_toLower (c : Char) :
    c.toLower.toNat = if 65 ≤ c.toNat ∧ c.toNat ≤ 90 then c.toNat + 32 else c.toNat := by
  unfold Char.toLower
  split
  · next h =>
    have hc : 65 ≤ c.toNat ∧ c.toNat ≤ 90 := by simpa [UInt32.le_iff_toNat_le] using h
    have hle : c.val.toNat ≤ 90 := hc.2
    have hsize : (c.val.toNat + 32) % 2 ^ 32 = c.val.toNat + 32 := by omega
    rw [if_pos hc]
    exact (UInt32.toNat_add c.val 32).trans hsize
  · next h =>
    have hc : ¬(65 ≤ c.toNat ∧ c.toNat ≤ 90) := by simpa [UInt32.le_iff_toNat_le] using h
    rw [if_neg hc]

theorem toLower_lt_iff {c : Char} : c.toLower.toNat < 128 ↔ c.toNat < 128 := by
  rw [toNat_toLower]
  split <;> omega

/-- Only a small letter is the lower case of another character. -/
theorem eq_of_toLower_eq {c d : Char} (h : c.toLower = d) (hd : d.toNat < 97 ∨ 122 < d.toNat) :
    c = d := by
  have hcode := toNat_toLower c
  rw [h] at hcode
  apply Char.toNat_inj.1
  split at hcode <;> omega

theorem toLower_eq_self {c : Char} (h : c.toNat < 65 ∨ 90 < c.toNat) : c.toLower = c := by
  apply Char.toNat_inj.1
  rw [toNat_toLower, if_neg (by omega)]

theorem toLower_toLower (c : Char) : c.toLower.toLower = c.toLower := by
  by_cases hc : 65 ≤ c.toNat ∧ c.toNat ≤ 90
  · have hlower := toNat_toLower c
    rw [if_pos hc] at hlower
    exact toLower_eq_self (by omega)
  · have hself : c.toLower = c := toLower_eq_self (by omega)
    rw [hself, hself]

/-- What no letter has is not changed by the lower case. -/
theorem toLower_congr {f : Char → Bool} (h : ∀ d, 65 ≤ d.toNat ∧ d.toNat ≤ 122 → f d = false)
    (c : Char) : f c.toLower = f c := by
  by_cases hc : 65 ≤ c.toNat ∧ c.toNat ≤ 90
  · have hlower : c.toLower.toNat = c.toNat + 32 := (toNat_toLower c).trans (if_pos hc)
    rw [h c ⟨hc.1, by omega⟩, h c.toLower (by omega)]
  · rw [toLower_eq_self (by omega)]

theorem isDot_toLower (c : Char) : isDot c.toLower = isDot c := by
  refine toLower_congr (fun d hd => ?_) c
  simp only [isDot, Bool.or_eq_false_iff, decide_eq_false_iff_not]
  omega

theorem isWhitespace_toLower (c : Char) : isWhitespace c.toLower = isWhitespace c := by
  refine toLower_congr (fun d hd => ?_) c
  simp only [isWhitespace, Bool.or_eq_false_iff, Bool.and_eq_false_iff, decide_eq_false_iff_not]
  omega

/-! ## Pieces -/

section Pieces

variable {p q : Char → Bool} {t l : JsText} {c : Char}

/-- There is no separator in a piece. -/
theorem of_mem_splitOnP (hl : l ∈ t.splitOnP p) (hc : c ∈ l) : p c = false := by
  induction t generalizing l with
  | nil =>
    rw [List.mem_singleton.1 hl] at hc
    cases hc
  | cons d t ih =>
    rw [List.splitOnP_cons_eq_if_modifyHead] at hl
    obtain ⟨u, us, hus⟩ := List.exists_cons_of_ne_nil (List.splitOnP_ne_nil p t)
    split at hl
    · rcases List.mem_cons.1 hl with rfl | hl
      · cases hc
      · exact ih hl hc
    · next hd =>
      rw [hus] at hl ih
      rcases List.mem_cons.1 hl with rfl | hl
      · rcases List.mem_cons.1 hc with rfl | hc
        · exact Bool.eq_false_iff.2 hd
        · exact ih List.mem_cons_self hc
      · exact ih (List.mem_cons_of_mem u hl) hc

/-- Every other character is in a piece. -/
theorem exists_mem_splitOnP (hc : c ∈ t) (hp : p c = false) : ∃ l ∈ t.splitOnP p, c ∈ l := by
  induction t with
  | nil => cases hc
  | cons d t ih =>
    rw [List.splitOnP_cons_eq_if_modifyHead]
    obtain ⟨u, us, hus⟩ := List.exists_cons_of_ne_nil (List.splitOnP_ne_nil p t)
    rw [hus] at ih ⊢
    rcases List.mem_cons.1 hc with rfl | hc
    · rw [if_neg (by rw [hp]; decide)]
      exact ⟨c :: u, List.mem_cons_self, List.mem_cons_self⟩
    · obtain ⟨l, hl, hcl⟩ := ih hc
      split
      · exact ⟨l, List.mem_cons_of_mem _ hl, hcl⟩
      · rcases List.mem_cons.1 hl with rfl | hl
        · exact ⟨d :: l, List.mem_cons_self, List.mem_cons_of_mem d hcl⟩
        · exact ⟨l, List.mem_cons_of_mem _ hl, hcl⟩

/-- A text is divided at some separators, and its pieces at the others. -/
theorem splitOnP_flatMap (h : ∀ c, q c = true → p c = true) (t : JsText) :
    t.splitOnP p = (t.splitOnP q).flatMap (List.splitOnP p) := by
  induction t with
  | nil => rfl
  | cons c t ih =>
    obtain ⟨u, us, hus⟩ := List.exists_cons_of_ne_nil (List.splitOnP_ne_nil q t)
    rw [hus, List.flatMap_cons] at ih
    rw [List.splitOnP_cons_eq_if_modifyHead, List.splitOnP_cons_eq_if_modifyHead, hus, ih]
    by_cases hq : q c = true
    · rw [if_pos hq, if_pos (h c hq), List.flatMap_cons, List.flatMap_cons]
      rfl
    · rw [if_neg hq, List.modifyHead_cons, List.flatMap_cons, List.splitOnP_cons_eq_if_modifyHead]
      obtain ⟨v, vs, hvs⟩ := List.exists_cons_of_ne_nil (List.splitOnP_ne_nil p u)
      rw [hvs]
      split <;> rfl

theorem splitOnP_congr (h : ∀ c ∈ t, p c = q c) : t.splitOnP p = t.splitOnP q := by
  induction t with
  | nil => rfl
  | cons c t ih =>
    rw [List.splitOnP_cons_eq_if_modifyHead, List.splitOnP_cons_eq_if_modifyHead,
      ih fun d hd => h d (List.mem_cons_of_mem c hd), h c List.mem_cons_self]

/-- A text has no separator, or a last one. -/
theorem exists_last_separator (q : Char → Bool) (t : JsText) : (∀ c ∈ t, q c = false) ∨
    ∃ t' c r, t = t' ++ c :: r ∧ q c = true ∧ ∀ x ∈ r, q x = false := by
  induction t using List.reverseRecOn with
  | nil => exact .inl fun _ h => nomatch h
  | append_singleton t x ih =>
    by_cases hx : q x = true
    · exact .inr ⟨t, x, [], rfl, hx, fun _ h => nomatch h⟩
    rw [Bool.not_eq_true] at hx
    rcases ih with hnone | ⟨t', c, r, rfl, hc, hr⟩
    · refine .inl fun c hc => ?_
      rcases List.mem_append.1 hc with hc | hc
      · exact hnone c hc
      · exact List.mem_singleton.1 hc ▸ hx
    · refine .inr ⟨t', c, r ++ [x], by simp, hc, fun y hy => ?_⟩
      rcases List.mem_append.1 hy with hy | hy
      · exact hr y hy
      · exact List.mem_singleton.1 hy ▸ hx

theorem mem_of_mem_splitOnP {x : Char} (hl : l ∈ t.splitOnP p) (hx : x ∈ l) : x ∈ t := by
  induction t generalizing l with
  | nil =>
    rw [List.mem_singleton.1 hl] at hx
    exact hx
  | cons c t ih =>
    rw [List.splitOnP_cons_eq_if_modifyHead] at hl
    split at hl
    · rcases List.mem_cons.1 hl with rfl | hl
      · cases hx
      · exact List.mem_cons_of_mem c (ih hl hx)
    · obtain ⟨u, us, hus⟩ := List.exists_cons_of_ne_nil (List.splitOnP_ne_nil p t)
      rw [hus] at hl ih
      rcases List.mem_cons.1 hl with rfl | hl
      · rcases List.mem_cons.1 hx with rfl | hx
        · exact List.mem_cons_self
        · exact List.mem_cons_of_mem c (ih List.mem_cons_self hx)
      · exact List.mem_cons_of_mem c (ih (List.mem_cons_of_mem u hl) hx)

/-- A text is its pieces, joined. -/
theorem join_flatMap_splitOn (sep : Char) (ts : List JsText) :
    join [sep] (ts.flatMap (·.splitOn sep)) = join [sep] ts := by
  have hpiece : (fun t : JsText => join [sep] (t.splitOn sep)) = id :=
    funext fun t => List.intercalate_splitOn sep
  rw [join_flatMap fun t => List.splitOn_ne_nil sep t, hpiece, List.map_id]

theorem splitOn_join {sep : Char} {ts : List JsText} (h : ts ≠ []) :
    (join [sep] ts).splitOn sep = ts.flatMap (·.splitOn sep) := by
  rw [← join_flatMap_splitOn]
  refine List.splitOn_intercalate sep (fun piece hpiece hsep => ?_) fun hnil => ?_
  · obtain ⟨t, -, ht⟩ := List.mem_flatMap.1 hpiece
    rw [List.splitOn_eq_splitOnP] at ht
    exact absurd (of_mem_splitOnP ht hsep) (by simp)
  · obtain ⟨t, ts, rfl⟩ := List.exists_cons_of_ne_nil h
    rw [List.flatMap_cons] at hnil
    exact List.splitOn_ne_nil sep t (List.append_eq_nil_iff.1 hnil).1

/-- **Joined texts** are the same exactly if their pieces are. -/
theorem join_eq_join_iff {sep : Char} {ts us : List JsText} (hts : ∀ t ∈ ts, t ≠ [])
    (hus : ∀ u ∈ us, u ≠ []) : join [sep] ts = join [sep] us ↔
      ts.flatMap (·.splitOn sep) = us.flatMap (·.splitOn sep) := by
  have hnonempty {ts : List JsText} (hts : ∀ t ∈ ts, t ≠ []) (h : ts ≠ []) : join [sep] ts ≠ [] := by
    obtain ⟨t, ts, rfl⟩ := List.exists_cons_of_ne_nil h
    obtain ⟨c, rest, hc⟩ := List.exists_cons_of_ne_nil (hts t List.mem_cons_self)
    exact List.ne_nil_of_mem (mem_join_of_mem List.mem_cons_self (hc ▸ List.mem_cons_self : c ∈ t))
  constructor
  · intro h
    rcases eq_or_ne ts [] with rfl | hne
    · rcases eq_or_ne us [] with rfl | hne'
      · rfl
      · exact absurd h.symm (hnonempty hus hne')
    · rcases eq_or_ne us [] with rfl | hne'
      · exact absurd h (hnonempty hts hne)
      · rw [← splitOn_join hne, h, splitOn_join hne']
  · intro h
    rw [← join_flatMap_splitOn, h, join_flatMap_splitOn]

end Pieces

/-! ## Rewriting -/

/-- A change of case: what stands for a character, between the text before it and the text behind
it. -/
structure Casing where
  image : JsText → Char → JsText → JsText
  ascii : Char → Char
  image_ascii : ∀ b c a, c.toNat < 128 → image b c a = [ascii c]
  toLower_ascii : ∀ c, (ascii c).toLower = c.toLower
  image_ne_nil : ∀ b c a, image b c a ≠ []
  image_of_mem : ∀ b c a b' a', ∀ d ∈ image b c a, 128 ≤ d.toNat → image b' d a' = [d]
  image_mark : ∀ b c a, isMark c = true → image b c a = [c]
  eq_of_mark : ∀ b c a, ∀ d ∈ image b c a, isMark d = true → d = c

namespace Casing

variable (m : Casing)

/-- The text `t` after the change, between `b` and `a`. -/
def run : JsText → JsText → JsText → JsText
  | _, [], _ => []
  | b, c :: t, a => m.image b c (t ++ a) ++ run (b ++ [c]) t a

def apply (t : JsText) : JsText := m.run [] t []

/-- The character is rewritten somewhere. -/
def Changes (c : Char) : Prop := ∃ b a, m.image b c a ≠ [c]

variable {m} {b t a : JsText} {c d : Char}

theorem run_append (b s t a : JsText) :
    m.run b (s ++ t) a = m.run b s (t ++ a) ++ m.run (b ++ s) t a := by
  induction s generalizing b with
  | nil =>
    rw [List.append_nil]
    rfl
  | cons c s ih =>
    show m.image b c (s ++ t ++ a) ++ m.run (b ++ [c]) (s ++ t) a = _
    rw [ih, run, List.append_assoc, List.append_assoc, List.append_assoc]
    rfl

theorem run_singleton (b : JsText) (c : Char) (a : JsText) : m.run b [c] a = m.image b c a :=
  List.append_nil _

/-- A character after the change comes from one before it. -/
theorem mem_run (h : d ∈ m.run b t a) : ∃ c ∈ t, ∃ b a, d ∈ m.image b c a := by
  induction t generalizing b with
  | nil => cases h
  | cons c t ih =>
    rcases List.mem_append.1 h with h | h
    · exact ⟨c, List.mem_cons_self, _, _, h⟩
    · obtain ⟨c', hc', himage⟩ := ih h
      exact ⟨c', List.mem_cons_of_mem c hc', himage⟩

/-- What a change leaves outside ASCII, it does not rewrite again. -/
theorem not_changes_of_image (h : d ∈ m.image b c a) (hd : 128 ≤ d.toNat) : ¬m.Changes d :=
  fun ⟨_, _, hne⟩ => hne (m.image_of_mem _ _ _ _ _ d h hd)

theorem not_changes_iff (hc : 128 ≤ c.toNat) : ¬m.Changes c ↔ m.apply [c] = [c] := by
  constructor
  · intro h
    by_contra hne
    exact h ⟨[], [], by rwa [← run_singleton]⟩
  · intro h
    have hkept : m.image [] c [] = [c] := by
      rw [← run_singleton]
      exact h
    exact not_changes_of_image (hkept ▸ List.mem_singleton_self c) hc

/-- No character is left that would change again, ASCII apart. -/
theorem not_mem_run (hd : 128 ≤ d.toNat) (h : m.Changes d) : d ∉ m.run b t a := by
  intro hmem
  obtain ⟨c, -, b, a, himage⟩ := mem_run hmem
  exact not_changes_of_image himage hd h

/-- **A text in which nothing changes but ASCII** is rewritten character by character. -/
theorem run_eq_map (h : ∀ c ∈ t, 128 ≤ c.toNat → ¬m.Changes c) :
    m.run b t a = t.map fun c => if c.toNat < 128 then m.ascii c else c := by
  induction t generalizing b with
  | nil => rfl
  | cons c t ih =>
    have hrest := ih (b := b ++ [c]) fun d hd => h d (List.mem_cons_of_mem c hd)
    rw [run, hrest, List.map_cons]
    by_cases hc : c.toNat < 128
    · rw [m.image_ascii _ _ _ hc, if_pos hc]
      rfl
    · have himage : m.image b c (t ++ a) = [c] := by
        by_contra hne
        exact h c List.mem_cons_self (Nat.le_of_not_lt hc) ⟨_, _, hne⟩
      rw [himage, if_neg hc]
      rfl

/-- Such a text has the same lower case after the change. -/
theorem toLower_run (h : ∀ c ∈ t, 128 ≤ c.toNat → ¬m.Changes c) :
    (m.run b t a).map Char.toLower = t.map Char.toLower := by
  rw [run_eq_map h, List.map_map]
  refine List.map_congr_left fun c _ => ?_
  show (if c.toNat < 128 then m.ascii c else c).toLower = c.toLower
  split
  · exact m.toLower_ascii c
  · rfl

theorem run_ne_nil (h : t ≠ []) : m.run b t a ≠ [] := by
  obtain ⟨c, t, rfl⟩ := List.exists_cons_of_ne_nil h
  exact fun hnil => m.image_ne_nil _ _ _ (List.append_eq_nil_iff.1 hnil).1

theorem length_le_run (b t a : JsText) : t.length ≤ (m.run b t a).length := by
  induction t generalizing b with
  | nil => exact Nat.le_refl _
  | cons c t ih =>
    have himage := List.length_pos_iff.2 (m.image_ne_nil b c (t ++ a))
    have hrest := ih (b ++ [c])
    rw [run, List.length_append, List.length_cons]
    omega

/-! ## Divided texts -/

theorem not_changes_mark (hc : isMark c = true) : ¬m.Changes c :=
  fun ⟨_, _, hne⟩ => hne (m.image_mark _ _ _ hc)

theorem mem_run_mark (hd : isMark d = true) : d ∈ m.run b t a ↔ d ∈ t := by
  induction t generalizing b with
  | nil => exact Iff.rfl
  | cons c t ih =>
    rw [run, List.mem_append, ih, List.mem_cons]
    refine or_congr ⟨fun h => m.eq_of_mark _ _ _ d h hd, ?_⟩ Iff.rfl
    rintro rfl
    rw [m.image_mark _ _ _ hd]
    exact List.mem_singleton_self d

theorem count_run_mark (hd : isMark d = true) : (m.run b t a).count d = t.count d := by
  induction t generalizing b with
  | nil => rfl
  | cons c t ih =>
    rw [run, List.count_append, ih, ← List.singleton_append, List.count_append]
    congr 1
    by_cases hcd : d = c
    · rw [← hcd, m.image_mark _ _ _ hd]
    · rw [List.count_eq_zero_of_not_mem fun h => hcd (m.eq_of_mark _ _ _ d h hd),
        List.count_eq_zero_of_not_mem (by simpa using hcd)]

/-- No point appears and none disappears in another case. -/
theorem countP_dot_run (m : Casing) (b t a : JsText) :
    (m.run b t a).countP isDot = t.countP isDot := by
  induction t generalizing b with
  | nil => rfl
  | cons c t ih =>
    rw [Casing.run, List.countP_append, ih, ← List.singleton_append, List.countP_append]
    congr 1
    by_cases hc : isDot c = true
    · rw [m.image_mark _ _ _ (isMark_of_dot hc)]
    · have himage : (m.image b c (t ++ a)).countP isDot = 0 := by
        refine List.countP_eq_zero.2 fun d hd hdot => hc ?_
        rwa [← m.eq_of_mark _ _ _ d hd (isMark_of_dot hdot)]
      rw [himage, List.countP_eq_zero.2]
      exact fun d hd => List.mem_singleton.1 hd ▸ hc

/-- The pieces of a text are changed one by one. -/
theorem splitOnP_run (p : Char → Bool) (hp : ∀ c, p c = true → isMark c = true) (b t a : JsText) :
    List.Forall₂ (fun l l' => ∃ b a, l' = m.run b l a) (t.splitOnP p) ((m.run b t a).splitOnP p) := by
  obtain ⟨n, hn⟩ : ∃ n, t.length = n := ⟨_, rfl⟩
  induction n using Nat.strong_induction_on generalizing b t with
  | _ n ih =>
    have hclean (u b a : JsText) (hu : ∀ c ∈ u, p c = false) : ∀ c ∈ m.run b u a, p c = false := by
      intro c hc
      by_contra hpc
      rw [Bool.not_eq_false] at hpc
      exact absurd hpc (by rw [hu c ((mem_run_mark (hp c hpc)).1 hc)]; decide)
    by_cases hall : ∀ c ∈ t, p c = false
    · rw [List.splitOnP_eq_singleton hall, List.splitOnP_eq_singleton (hclean t b a hall)]
      exact .cons ⟨b, a, rfl⟩ .nil
    · -- the first piece, and what follows its separator
      push Not at hall
      obtain ⟨u, sep, r, rfl, hu, hsep⟩ : ∃ u sep r, t = u ++ sep :: r ∧ (∀ c ∈ u, p c = false) ∧
          p sep = true := by
        obtain ⟨c, hc, hpc⟩ := hall
        rw [Ne, Bool.not_eq_false] at hpc
        cases hdrop : t.dropWhile fun c => !p c with
        | nil =>
          have hkept := List.dropWhile_eq_nil_iff.1 hdrop c hc
          rw [hpc] at hkept
          cases hkept
        | cons sep r =>
          refine ⟨t.takeWhile fun c => !p c, sep, r, ?_, fun c hc => ?_, ?_⟩
          · rw [← hdrop, List.takeWhile_append_dropWhile]
          · simpa using List.mem_takeWhile_imp hc
          · have hhead := List.head_dropWhile_not (fun c => !p c) (l := t) (by rw [hdrop]; simp)
            simpa [hdrop] using hhead
      have hrun : m.run b (u ++ sep :: r) a =
          m.run b u (sep :: r ++ a) ++ sep :: m.run (b ++ u ++ [sep]) r a := by
        rw [run_append, run, m.image_mark _ _ _ (hp sep hsep)]
        rfl
      rw [hrun, List.splitOnP_append_cons_of_forall_mem hu sep hsep,
        List.splitOnP_append_cons_of_forall_mem (hclean u b _ hu) sep hsep]
      refine .cons ⟨b, _, rfl⟩ (ih r.length ?_ _ r rfl)
      rw [← hn, List.length_append, List.length_cons]
      omega

/-! ## Trimmed texts -/

theorem countP_dot_dropWhile {q : Char → Bool} (hq : ∀ c, q c = true → isDot c = false) (t : JsText) :
    (t.dropWhile q).countP isDot = t.countP isDot := by
  induction t with
  | nil => rfl
  | cons c t ih =>
    by_cases hc : q c = true
    · rw [List.dropWhile_cons_of_pos hc, ih, List.countP_cons_of_neg (by rw [hq c hc]; decide)]
    · rw [List.dropWhile_cons_of_neg hc]

theorem isDot_of_whitespace {c : Char} (h : isWhitespace c = true) : isDot c = false := by
  by_contra hdot
  rw [Bool.not_eq_false] at hdot
  simp only [isDot, Bool.or_eq_true, decide_eq_true_eq] at hdot
  simp only [isWhitespace, Bool.or_eq_true, Bool.and_eq_true, decide_eq_true_eq] at h
  omega

/-- No point is trimmed. -/
theorem countP_dot_trim (t : JsText) : (trim t).countP isDot = t.countP isDot := by
  have hq := fun c => isDot_of_whitespace (c := c)
  rw [trim, List.rdropWhile, List.countP_reverse, countP_dot_dropWhile hq, List.countP_reverse,
    countP_dot_dropWhile hq]

/-- Trimming removes white space only. -/
theorem mem_trim (hc : isWhitespace c = false) : c ∈ trim t ↔ c ∈ t := by
  constructor
  · intro h
    have hdropped := (List.rdropWhile_prefix _ _).mem h
    exact (List.dropWhile_suffix _).mem hdropped
  · intro h
    have hfirst : c ∈ t.dropWhile isWhitespace := by
      rw [← List.takeWhile_append_dropWhile (p := isWhitespace) (l := t)] at h
      refine (List.mem_append.1 h).resolve_left fun htake => ?_
      rw [List.mem_takeWhile_imp htake] at hc
      cases hc
    rw [trim]
    rw [← List.rdropWhile_append_rtakeWhile (p := isWhitespace)
      (l := t.dropWhile isWhitespace)] at hfirst
    refine (List.mem_append.1 hfirst).resolve_right fun htake => ?_
    rw [List.mem_rtakeWhile_imp htake] at hc
    cases hc

theorem isWhitespace_image (hc : isWhitespace c = false) :
    ∀ d ∈ m.image b c a, isWhitespace d = false := by
  intro d hd
  by_contra hspace
  rw [Bool.not_eq_false] at hspace
  rw [m.eq_of_mark _ _ _ d hd (isMark_of_whitespace hspace), hc] at hspace
  cases hspace

theorem dropWhile_run (b t a : JsText) : ∃ b',
    (m.run b t a).dropWhile isWhitespace = m.run b' (t.dropWhile isWhitespace) a := by
  induction t generalizing b with
  | nil => exact ⟨b, rfl⟩
  | cons c t ih =>
    by_cases hc : isWhitespace c = true
    · obtain ⟨b', hb'⟩ := ih (b ++ [c])
      refine ⟨b', ?_⟩
      rw [run, m.image_mark _ _ _ (isMark_of_whitespace hc), List.singleton_append,
        List.dropWhile_cons_of_pos hc, List.dropWhile_cons_of_pos hc, hb']
    · refine ⟨b, ?_⟩
      rw [Bool.not_eq_true] at hc
      rw [List.dropWhile_cons_of_neg (by rw [hc]; decide), run]
      obtain ⟨d, ds, hd⟩ := List.exists_cons_of_ne_nil (m.image_ne_nil b c (t ++ a))
      have hkept := isWhitespace_image (m := m) (b := b) (a := t ++ a) hc d (hd ▸ List.mem_cons_self)
      rw [hd, List.cons_append, List.dropWhile_cons_of_neg (by rw [hkept]; decide)]

theorem rdropWhile_run (b t a : JsText) : ∃ a',
    (m.run b t a).rdropWhile isWhitespace = m.run b (t.rdropWhile isWhitespace) a' := by
  induction t using List.reverseRecOn generalizing a with
  | nil => exact ⟨a, by simp [run]⟩
  | append_singleton t c ih =>
    rw [run_append, run_singleton]
    by_cases hc : isWhitespace c = true
    · obtain ⟨a', ha'⟩ := ih ([c] ++ a)
      refine ⟨a', ?_⟩
      rw [m.image_mark _ _ _ (isMark_of_whitespace hc), List.rdropWhile_concat_pos _ _ _ hc,
        List.rdropWhile_concat_pos _ _ _ hc, ha']
    · refine ⟨a, ?_⟩
      rw [Bool.not_eq_true] at hc
      rw [List.rdropWhile_concat_neg _ _ _ (by rw [hc]; decide), run_append, run_singleton]
      rcases List.eq_nil_or_concat (m.image (b ++ t) c a) with hnil | ⟨ds, d, hd⟩
      · exact absurd hnil (m.image_ne_nil _ _ _)
      have hkept := isWhitespace_image (m := m) (b := b ++ t) (a := a) hc d (by rw [hd]; simp)
      rw [hd, List.concat_eq_append, ← List.append_assoc,
        List.rdropWhile_concat_neg _ _ _ (by rw [hkept]; decide)]

/-- A trimmed text is changed like the text. -/
theorem trim_run (b t a : JsText) : ∃ b' a', trim (m.run b t a) = m.run b' (trim t) a' := by
  obtain ⟨b', hb'⟩ := dropWhile_run (m := m) b t a
  obtain ⟨a', ha'⟩ := rdropWhile_run (m := m) b' (t.dropWhile isWhitespace) a
  exact ⟨b', a', by rw [trim, hb', ha', trim]⟩

end Casing

end JsText
