import Ddns.Names.NameHash

/-!
# Services that read a name as one

The services derive one hash from a text exactly if they read it as one (`sameHash_iff`).
-/

namespace Ddns.Names.NameHash

open Tx
open Core.Registry (stripDot)
open JsText (isDot Casing)

variable {p : Platform} {name : JsText}

/-! ## Names that are accepted -/

theorem normalForm_names_iff {n : JsText} :
    normalForm p name .names = some n ∧ dnsSuffix <:+ n ↔ Registrable name ∧ n = registered name := by
  have hok : normalForm p name .names = some n ↔ Names.normalizeFullName name = .ok n := by
    unfold normalForm
    cases Names.normalizeFullName name <;> simp
  have hne (h : dnsSuffix <:+ registered name) : registered name ≠ [] := by
    intro hnil
    rw [hnil] at h
    exact absurd h (by decide)
  rw [hok]
  unfold Names.normalizeFullName
  simp only [bind_eq_ok, require_eq_ok, exists_unit, pure_eq_ok]
  constructor
  · rintro ⟨⟨⟨-, hlen⟩, hdots, rfl⟩, hsuffix⟩
    exact ⟨⟨hsuffix, hlen, hdots⟩, rfl⟩
  · rintro ⟨⟨hsuffix, hlen, hdots⟩, rfl⟩
    exact ⟨⟨⟨hne hsuffix, hlen⟩, hdots, rfl⟩, hsuffix⟩

theorem normalForm_witnessGateway_iff {n : JsText} :
    normalForm p name .witnessGateway = some n ∧ dnsSuffix <:+ n ↔
      n = normalizeName p name ∧ dnsSuffix <:+ n ∧ isValidDnsLabel (n.take (n.length - 4)) = true := by
  unfold normalForm normalizeAndValidateName
  dsimp only
  constructor
  · rintro ⟨hn, hsuffix⟩
    split at hn
    · split at hn
      · next hlabel =>
        obtain rfl : normalizeName p name = n := Option.some.inj hn
        exact ⟨rfl, hsuffix, hlabel⟩
      · cases hn
    · next hnot =>
      split at hn
      · cases hn
      · obtain rfl : normalizeName p name = n := Option.some.inj hn
        exact absurd hsuffix hnot
  · rintro ⟨rfl, hsuffix, hlabel⟩
    rw [if_pos hsuffix, if_pos hlabel]
    exact ⟨rfl, hsuffix⟩

/-- The services agree exactly if each of them hashes the name of the toll booth, if any. -/
theorem agree_iff_each (hsha : CollisionFree p name) : Agree p name ↔
    (dnsSuffix <:+ normalizeNameForHash p name →
      normalizeNameForHash p name = normalizeFullName p name) ∧
    (dnsSuffix <:+ normalizeName p name →
      isValidDnsLabel ((normalizeName p name).take ((normalizeName p name).length - 4)) = true →
      normalizeName p name = normalizeFullName p name) ∧
    (Registrable name → registered name = normalizeFullName p name) := by
  rw [agree_iff hsha]
  constructor
  · intro h
    refine ⟨h .gateway _ rfl, fun hsuffix hlabel => ?_, fun hreg => ?_⟩
    · have hn := normalForm_witnessGateway_iff.2 ⟨rfl, hsuffix, hlabel⟩
      exact h .witnessGateway _ hn.1 hn.2
    · have hn := normalForm_names_iff (p := p).2 ⟨hreg, rfl⟩
      exact h .names _ hn.1 hn.2
  · rintro ⟨hgateway, hwitness, hnames⟩ svc n hn hsuffix
    cases svc with
    | gateway =>
      obtain rfl := Option.some.inj hn
      exact hgateway hsuffix
    | tollbooth => exact (Option.some.inj hn).symm
    | witnessGateway =>
      obtain ⟨rfl, -, hlabel⟩ := normalForm_witnessGateway_iff.1 ⟨hn, hsuffix⟩
      exact hwitness hsuffix hlabel
    | escrowScripts =>
      obtain rfl := Option.some.inj hn
      exact (if_pos hsuffix).symm
    | names =>
      obtain ⟨hreg, rfl⟩ := normalForm_names_iff.1 ⟨hn, hsuffix⟩
      exact hnames hreg

/-! ## Texts that end in `.dns` -/

section Suffix

/-- No point is stripped in front of the suffix. -/
theorem stripDot_of_suffix {t : JsText} (h : dnsSuffix <:+ p.toLowerCase t) : stripDot t = t := by
  unfold stripDot
  split
  · next hlast =>
    -- the point would stay at the end
    obtain ⟨u, rfl⟩ := List.getLast?_eq_some_iff.1 hlast
    rw [p.toLowerCase_eq, Casing.apply, Casing.run_append, Casing.run_singleton,
      p.lower.image_mark _ _ _ (by decide)] at h
    obtain ⟨v, hv⟩ := h
    have hend := congrArg List.getLast? hv
    simp [dnsSuffix] at hend
  · rfl

theorem s_suffix {t : JsText} (h : dnsSuffix <:+ t) : ['s'] <:+ t :=
  List.IsSuffix.trans ⟨['.', 'd', 'n'], rfl⟩ h

theorem normalizeName_of_suffix (h : dnsSuffix <:+ p.toLowerCase (JsText.trim name)) :
    normalizeName p name = p.toLowerCase (JsText.trim name) := by
  obtain ⟨u, hu⟩ := s_suffix h
  unfold normalizeName
  dsimp only
  rw [← hu, List.getLast?_concat, if_neg (by decide)]

/-- A trimmed text in lower case does not begin with white space. -/
theorem head_toLowerCase_trim (p : Platform) (name : JsText) :
    ∀ c ∈ (p.toLowerCase (JsText.trim name)).head?, JsText.isWhitespace c = false := by
  intro c hc
  rw [p.toLowerCase_eq, Casing.apply] at hc
  have hhead := JsText.head_of_prefix_trim (List.prefix_refl (JsText.trim name))
  cases htrim : JsText.trim name with
  | nil =>
    rw [htrim] at hc
    cases hc
  | cons d t =>
    rw [htrim] at hc hhead
    obtain ⟨x, xs, hx⟩ := List.exists_cons_of_ne_nil (p.lower.image_ne_nil [] d (t ++ []))
    have hkept := Casing.isWhitespace_image (hhead d rfl) x (hx ▸ List.mem_cons_self)
    rw [Casing.run, hx] at hc
    obtain rfl : x = c := Option.some.inj hc
    exact hkept

/-- If the program leaves the name of the services, the text that it trims does not begin or end with
white space of theirs. -/
theorem ends_of_registered (h : dnsSuffix <:+ p.toLowerCase (JsText.trim name))
    (heq : registered name = p.toLowerCase (JsText.trim name)) :
    (∀ c ∈ (Names.trim name).head?, JsText.isWhitespace c = false) ∧
      ∀ c ∈ (Names.trim name).getLast?, JsText.isWhitespace c = false := by
  have hsplit := List.rdropWhile_append_rtakeWhile (p := fun c => decide (c = '.'))
    (l := toAsciiLowercase (Names.trim name))
  rw [← registered, heq] at hsplit
  constructor
  · intro c hc
    have hne : p.toLowerCase (JsText.trim name) ≠ [] := by
      intro hnil
      rw [hnil] at h
      exact absurd h (by decide)
    obtain ⟨x, xs, hx⟩ := List.exists_cons_of_ne_nil hne
    have hhead := congrArg List.head? hsplit
    rw [hx, toAsciiLowercase, List.head?_map, Option.mem_def.1 hc] at hhead
    rw [← JsText.isWhitespace_toLower]
    refine head_toLowerCase_trim p name _ ?_
    rw [hx]
    exact hhead
  · intro c hc
    have hlast := congrArg List.getLast? hsplit
    rw [toAsciiLowercase, List.getLast?_map, Option.mem_def.1 hc, List.getLast?_append,
      ← toAsciiLowercase] at hlast
    rw [← JsText.isWhitespace_toLower]
    cases hdots : (List.rtakeWhile (fun c => decide (c = '.'))
        (toAsciiLowercase (Names.trim name))).getLast? with
    | none =>
      obtain ⟨u, hu⟩ := s_suffix h
      rw [hdots, ← hu, List.getLast?_concat] at hlast
      rw [← Option.some.inj hlast]
      decide
    | some d =>
      have hdot := List.mem_rtakeWhile_imp (List.mem_of_getLast? hdots)
      rw [hdots] at hlast
      rw [← Option.some.inj hlast, of_decide_eq_true hdot]
      decide

/-- **The program leaves the name of the services** exactly if it reads the text alike. -/
theorem registered_eq_iff (h : dnsSuffix <:+ p.toLowerCase (JsText.trim name)) :
    registered name = p.toLowerCase (JsText.trim name) ↔ ReadAlike p name := by
  constructor
  · intro heq
    obtain ⟨hhead, hlast⟩ := ends_of_registered h heq
    have hinfix : Names.trim name <:+: JsText.trim name := by
      refine JsText.infix_trim ?_ hhead hlast
      exact (List.rdropWhile_prefix _ _).isInfix.trans (List.dropWhile_suffix _).isInfix
    -- the program drops characters, and no service adds any
    have hleft : (registered name).length ≤ (Names.trim name).length := by
      have hprefix := (List.rdropWhile_prefix (fun c => decide (c = '.'))
        (toAsciiLowercase (Names.trim name))).length_le
      rwa [toAsciiLowercase, List.length_map] at hprefix
    have hkept : (JsText.trim name).length ≤ (registered name).length := by
      rw [heq, p.toLowerCase_eq]
      exact Casing.length_le_run [] _ []
    have htrim : Names.trim name = JsText.trim name :=
      hinfix.eq_of_length_le (hkept.trans hleft)
    have hlower : registered name = (JsText.trim name).map Char.toLower := by
      have hprefix := List.rdropWhile_prefix (fun c => decide (c = '.'))
        (toAsciiLowercase (Names.trim name))
      rw [htrim] at hprefix
      unfold registered
      rw [htrim]
      refine hprefix.eq_of_length_le ?_
      rw [toAsciiLowercase, List.length_map]
      rwa [registered, htrim] at hkept
    refine ⟨htrim, fun c hc hge hchanges => ?_⟩
    rw [heq, p.toLowerCase_eq] at hlower
    refine Casing.not_mem_run hge hchanges (b := []) (t := JsText.trim name) (a := []) ?_
    rw [← Casing.apply, hlower]
    exact List.mem_map.2 ⟨c, hc, JsText.toLower_eq_self (by omega)⟩
  · intro halike
    have hlower : p.toLowerCase (JsText.trim name) = (JsText.trim name).map Char.toLower := by
      rw [p.toLowerCase_eq]
      exact Core.Registry.lower_run_eq halike.lower
    unfold registered
    rw [halike.trim, toAsciiLowercase, ← hlower]
    exact JsText.rdropWhile_of_suffix (s_suffix h) (by decide)

end Suffix

/-! ## Other texts

The toll booth adds a point, and no other service does. -/

theorem dots_normalizeFullName (h : ¬dnsSuffix <:+ p.toLowerCase (JsText.trim name)) :
    (normalizeFullName p name).countP isDot = name.countP isDot + 1 := by
  have hfull : normalizeFullName p name = p.toLowerCase (JsText.trim name) ++ dnsSuffix := if_neg h
  rw [hfull, List.countP_append, dots_lower, JsText.Casing.countP_dot_trim]
  rfl

theorem dots_normalizeNameForHash_le :
    (normalizeNameForHash p name).countP isDot ≤ name.countP isDot := by
  have hstrip : (stripDot (JsText.trim name)).Sublist (JsText.trim name) := by
    unfold stripDot
    split
    · exact List.dropLast_sublist _
    · exact List.Sublist.refl _
  calc (normalizeNameForHash p name).countP isDot
      ≤ (p.toLowerCase (stripDot (JsText.trim name))).countP isDot := dots_toASCII_le p _
    _ = (stripDot (JsText.trim name)).countP isDot := dots_lower p _
    _ ≤ (JsText.trim name).countP isDot := hstrip.countP_le
    _ = name.countP isDot := JsText.Casing.countP_dot_trim name

theorem dots_normalizeName_le : (normalizeName p name).countP isDot ≤ name.countP isDot := by
  have hsub : (normalizeName p name).Sublist (p.toLowerCase (JsText.trim name)) := by
    unfold normalizeName
    dsimp only
    split
    · exact List.dropLast_sublist _
    · exact List.Sublist.refl _
  calc (normalizeName p name).countP isDot
      ≤ (p.toLowerCase (JsText.trim name)).countP isDot := hsub.countP_le
    _ = (JsText.trim name).countP isDot := dots_lower p _
    _ = name.countP isDot := JsText.Casing.countP_dot_trim name

theorem dots_registered_le : (registered name).countP isDot ≤ name.countP isDot := by
  have htrim : (Names.trim name).Sublist name :=
    (List.rdropWhile_prefix _ _).sublist.trans (List.dropWhile_sublist _)
  have hdots : isDot ∘ Char.toLower = isDot := funext JsText.isDot_toLower
  calc (registered name).countP isDot
      ≤ ((Names.trim name).map Char.toLower).countP isDot :=
        (List.rdropWhile_prefix _ _).sublist.countP_le
    _ = (Names.trim name).countP isDot := by rw [List.countP_map, hdots]
    _ ≤ name.countP isDot := htrim.countP_le

/-- The witness gateway strips one point from a label with the suffix. -/
theorem normalizeName_iff (h : ¬dnsSuffix <:+ p.toLowerCase (JsText.trim name)) :
    (dnsSuffix <:+ normalizeName p name → isValidDnsLabel
        ((normalizeName p name).take ((normalizeName p name).length - 4)) = true → False) ↔
      ∀ label, isValidDnsLabel label = true →
        p.toLowerCase (JsText.trim name) ≠ label ++ dnsSuffix ++ ['.'] := by
  have htake (label : JsText) :
      (label ++ dnsSuffix).take ((label ++ dnsSuffix).length - 4) = label := by
    have hlength : (label ++ dnsSuffix).length - 4 = label.length := by
      rw [List.length_append]
      rfl
    rw [hlength, List.take_left]
  constructor
  · intro hnone label hlabel heq
    have hstrip : normalizeName p name = label ++ dnsSuffix := by
      unfold normalizeName
      dsimp only
      rw [heq, List.getLast?_concat, if_pos rfl, List.dropLast_concat]
    rw [hstrip, htake] at hnone
    exact hnone (List.suffix_append _ _) hlabel
  · intro hnone hsuffix hlabel
    obtain ⟨label, heq⟩ := hsuffix
    rw [← heq, htake] at hlabel
    refine hnone label hlabel ?_
    unfold normalizeName at heq
    dsimp only at heq
    split at heq
    · next hlast =>
      obtain ⟨u, hu⟩ := List.getLast?_eq_some_iff.1 hlast
      rw [heq, hu, List.dropLast_concat]
    · exact absurd ⟨label, heq⟩ h

/-! ## The services -/

/-- **The services derive one hash** from a text exactly if they read it as one. -/
theorem sameHash_iff (p : Platform) (name : JsText) (hsha : CollisionFree p name) :
    Agree p name ↔ ReadAsOne p name := by
  rw [agree_iff_each hsha]
  unfold ReadAsOne
  dsimp only
  by_cases h : dnsSuffix <:+ p.toLowerCase (JsText.trim name)
  · have hfull : normalizeFullName p name = p.toLowerCase (JsText.trim name) := if_pos h
    have hgateway : normalizeNameForHash p name = p.toASCII (p.toLowerCase (JsText.trim name)) := by
      unfold normalizeNameForHash
      dsimp only
      rw [stripDot_of_suffix h]
    rw [if_pos h, hfull, hgateway, toASCII_eq_iff h, normalizeName_of_suffix h]
    refine and_congr_right fun _ => ?_
    rw [registered_eq_iff h]
    exact ⟨fun hall => hall.2, fun hnames => ⟨fun _ _ => rfl, hnames⟩⟩
  · have hdots := dots_normalizeFullName h
    -- a name with fewer points is another one
    have hne {n : JsText} (hle : n.countP isDot ≤ name.countP isDot) :
        ¬n = normalizeFullName p name := by
      rintro rfl
      omega
    rw [if_neg h, iff_false_intro (hne dots_normalizeNameForHash_le),
      iff_false_intro (hne dots_normalizeName_le), iff_false_intro (hne dots_registered_le),
      normalizeName_iff h]
    refine and_congr_left fun _ => not_congr ?_
    exact suffix_toASCII_iff _

section Example

/-- `foo.dns` -/
def exampleName : JsText := ['f', 'o', 'o', '.', 'd', 'n', 's']

def exampleASCII (t : JsText) : JsText :=
  match t.splitOn '@' with
  | mailbox :: domain :: _ => mailbox ++ '@' :: encodeDomain Core.Registry.exampleEncode domain
  | _ => encodeDomain Core.Registry.exampleEncode t

/-- The hashes of two names. -/
def examplePlatform : Platform where
  toNaming := { Core.Registry.exampleNaming with
    toRuntime := { Core.Registry.exampleNaming.toRuntime with toASCII := exampleASCII }
    toASCII_eq := fun t h => by
      show exampleASCII t = _
      rw [exampleASCII, List.splitOn_eq_singleton h]
      rfl
    mem_toASCII := fun t h => by
      show '@' ∈ exampleASCII t
      unfold exampleASCII
      split
      · simp
      · next hone =>
        cases hsplit : t.splitOn '@' with
        | nil => exact absurd hsplit (List.splitOn_ne_nil '@' t)
        | cons mailbox rest =>
          cases rest with
          | nil =>
            obtain ⟨rfl, hnone⟩ := splitOn_eq_one.1 hsplit
            exact absurd h hnone
          | cons domain dropped => exact absurd hsplit (hone mailbox domain dropped) }
  toASCII_mail t mailbox domain dropped h := by
    show exampleASCII t = _
    rw [exampleASCII, h]
    rfl
  sha256 data :=
    if data = JsText.utf8 exampleName then
      [108, 161, 32, 168, 52, 108, 255, 36, 220, 33, 6, 225, 192, 87, 190, 149, 193, 156, 229, 239,
        105, 235, 59, 55, 147, 239, 139, 55, 251, 232, 247, 89]
    else if data = JsText.utf8 (exampleName ++ ['.'] ++ dnsSuffix) then
      [185, 127, 130, 253, 136, 65, 160, 24, 26, 79, 120, 222, 182, 56, 83, 131, 255, 163, 99, 125,
        238, 59, 140, 124, 172, 158, 24, 94, 71, 106, 119, 130]
    else []

/-- The case and the spaces of a name make no difference. -/
theorem exampleName_sameHash :
    Agree examplePlatform [' ', 'F', 'o', 'o', '.', 'D', 'N', 'S'] := by
  have hsha : CollisionFree examplePlatform [' ', 'F', 'o', 'o', '.', 'D', 'N', 'S'] := by
    have hname (a : Service) (n : JsText)
        (h : normalForm examplePlatform [' ', 'F', 'o', 'o', '.', 'D', 'N', 'S'] a = some n) :
        n = exampleName := by
      cases a <;> exact (Option.some.inj h).symm.trans (by decide +kernel)
    intro a b n n' hn hn' _
    rw [hname a n hn, hname b n' hn']
  have hlower : examplePlatform.toLowerCase
      (JsText.trim [' ', 'F', 'o', 'o', '.', 'D', 'N', 'S']) = exampleName := by decide +kernel
  have hdomain : AsciiDomain exampleName := by
    show ∀ c ∈ exampleName, c.toNat < 128
    exact Core.Registry.isAscii_iff.1 (by decide)
  refine (sameHash_iff examplePlatform _ hsha).2 ?_
  unfold ReadAsOne
  dsimp only
  rw [hlower, if_pos (by decide)]
  refine ⟨hdomain, fun _ => ⟨by decide +kernel, fun c hc hge => ?_⟩⟩
  have hascii : Core.Registry.isAscii (JsText.trim [' ', 'F', 'o', 'o', '.', 'D', 'N', 'S']) = true := by
    decide
  exact absurd (Core.Registry.isAscii_iff.1 hascii c hc) (Nat.not_lt.2 hge)

/-- Of `foo.dns.`, the toll booth derives the hash of `foo.dns..dns`, and the gateway that of
`foo.dns`. -/
theorem sameHash_broken : ¬Agree examplePlatform (exampleName ++ ['.']) := by
  intro h
  have hhash := h .gateway .tollbooth _ _ rfl rfl
  revert hhash
  decide +kernel

end Example

end Ddns.Names.NameHash
