import Ddns.CfDemo.Wire

/-!
# Addresses of answers

The gateway reads the texts of addresses with `Number` and `parseInt`. `addr_iff` says which data it
reads although it is no address or another one. An IPv6 address may end with an IPv4 one, which takes
the place of two groups; the parser takes it for one group.
-/

namespace Ddns.CfDemo

open JsText NumberText Results Ddns.Core

/-! ## What is read -/

section Parse

variable {t p : JsText} {addr : List UInt8} {rt : Runtime}

theorem parseIPv4_eq_some_iff : parseIPv4 t = some addr ↔ rrA t = .ok addr := by
  rw [rrA_eq_ok_iff, Reads4]
  have hany : ((t.splitOn '.').map ofText).any (fun n => n.isUint 255 = false) = true ↔
      ¬∀ p ∈ t.splitOn '.', ∃ n, ReadsOctet p n := by
    simp only [List.any_map, List.any_eq_true, Function.comp_apply, decide_eq_true_eq, not_forall]
    refine exists_congr fun p => ?_
    rw [exists_prop, ← Bool.not_eq_true, JsNum.isUint_iff]
    exact Iff.rfl
  unfold parseIPv4
  dsimp only
  rw [List.length_map]
  by_cases hlength : (t.splitOn '.').length = 4
  · rw [if_neg (not_not.2 hlength)]
    by_cases hall : ∀ p ∈ t.splitOn '.', ∃ n, ReadsOctet p n
    · rw [if_neg fun h => hany.1 h hall, List.map_map, Option.some.injEq]
      exact ⟨fun h => ⟨⟨hlength, hall⟩, h.symm⟩, fun h => h.2.symm⟩
    · rw [if_pos (hany.2 hall)]
      exact ⟨nofun, fun h => absurd h.1.2 hall⟩
  · rw [if_pos hlength]
    exact ⟨nofun, fun h => absurd h.1.1 hlength⟩

theorem blockBytes_eq (p : JsText) : blockBytes p = (group p).toOption := by
  unfold blockBytes group
  cases parseHex p with
  | none => rfl
  | some n =>
    dsimp only
    split <;> rfl

/-- There is one `::` at most, and none if there are eight groups. -/
structure Fits (t : JsText) : Prop where
  pieces : (splitColons t).length ≤ 2
  eight : (splitColons t).length = 1 → (leftParts t).length + (rightParts t).length = 8

theorem toOption_eq_some_iff {ε α : Type} {x : Except ε α} {a : α} :
    x.toOption = some a ↔ x = .ok a := by
  cases x with
  | error e => exact ⟨nofun, nofun⟩
  | ok b => exact ⟨fun h => congrArg _ (Option.some.inj h), fun h => congrArg _ (Except.ok.inj h)⟩

theorem parseIPv6_eq_some_iff : parseIPv6 rt t = some addr ↔
    Fits (rt.lower.apply t) ∧ rrAAAA (rt.lower.apply t) = .ok addr := by
  generalize hs : rt.lower.apply t = s
  have hparse : parseIPv6 rt t =
      if 2 < (splitColons s).length then none
      else if 8 < (leftParts s).length + (rightParts s).length then none
      else
        let blocks := leftParts s ++ (List.replicate (if (splitColons s).length = 2 then
          8 - ((leftParts s).length + (rightParts s).length) else 0) ['0'] ++ rightParts s)
        if blocks.length ≠ 8 then none else (blocks.mapM blockBytes).map List.flatten := by
    rw [← hs]
    rfl
  have hblocks (ps : List JsText) :
      (ps.mapM blockBytes).map List.flatten = ((ps.mapM group).map List.flatten).toOption := by
    rw [funext blockBytes_eq, mapM_toOption]
    cases ps.mapM group <;> rfl
  have haaaa : rrAAAA s = if (leftParts s).length + (rightParts s).length > 8 then
      .error .invalidIpv6
    else if (allParts (leftParts s) (rightParts s)).length ≠ 8 then .error .invalidIpv6
    else ((allParts (leftParts s) (rightParts s)).mapM group).map List.flatten := rfl
  have hpos : 0 < (splitColons s).length := List.length_pos_iff.2 (splitColons_ne_nil s)
  rw [hparse, haaaa]
  by_cases hpieces : 2 < (splitColons s).length
  · rw [if_pos hpieces]
    exact ⟨nofun, fun h => absurd h.1.pieces (Nat.not_le.2 hpieces)⟩
  by_cases hcount : 8 < (leftParts s).length + (rightParts s).length
  · rw [if_neg hpieces, if_pos hcount, if_pos hcount]
    exact ⟨nofun, nofun⟩
  have hall := length_allParts (Nat.not_lt.1 hcount)
  rw [if_neg hpieces, if_neg hcount, if_neg hcount, if_neg (not_not.2 hall)]
  dsimp only
  by_cases htwo : (splitColons s).length = 2
  · have hfits : Fits s := ⟨htwo.le, fun hone => by omega⟩
    rw [if_pos htwo]
    change (if (allParts (leftParts s) (rightParts s)).length ≠ 8 then none else _) = _ ↔ _
    rw [if_neg (not_not.2 hall), hblocks, toOption_eq_some_iff]
    exact (and_iff_right hfits).symm
  · rw [if_neg htwo]
    by_cases height : (leftParts s).length + (rightParts s).length = 8
    · have hfits : Fits s := ⟨Nat.not_lt.1 hpieces, fun _ => height⟩
      have hparts : leftParts s ++ (List.replicate 0 ['0'] ++ rightParts s) =
          allParts (leftParts s) (rightParts s) := by
        rw [allParts, height]
      rw [hparts, if_neg (not_not.2 hall), hblocks, toOption_eq_some_iff]
      exact (and_iff_right hfits).symm
    · rw [if_pos (by simpa using height)]
      exact ⟨nofun, fun h => absurd (h.1.eight (by omega)) height⟩

end Parse

/-! ## Grammar -/

/-- The text is an IPv6 address: groups, or groups and an IPv4 address in the place of the last two. -/
inductive Denotes6 : JsText → List UInt8 → Prop
  | groups {t : JsText} {addr : List UInt8} (text : Denotes16 t addr) : Denotes6 t addr
  | full {ps : List JsText} {ns : List ℕ} {q : JsText} {quad : List UInt8}
      (groups : List.Forall₂ IsGroup ps ns) (six : ps.length = 6) (last : Denotes4 q quad) :
      Denotes6 (join [':'] (ps ++ [q])) (groupBytes ns ++ quad)
  | short {ls rs : List JsText} {ns ms : List ℕ} {q : JsText} {quad : List UInt8}
      (left : List.Forall₂ IsGroup ls ns) (right : List.Forall₂ IsGroup rs ms)
      (fewer : ls.length + rs.length < 6) (last : Denotes4 q quad) :
      Denotes6 (join [':'] ls ++ ':' :: ':' :: join [':'] (rs ++ [q]))
        (groupBytes (ns ++ (List.replicate (6 - (ls.length + rs.length)) 0 ++ ms)) ++ quad)

section Case

variable {t t' q : JsText} {ps : List JsText} {ns : List ℕ} {addr : List UInt8}

/-- The lower case of a text. -/
def lowered (t : JsText) : JsText := t.map Char.toLower

theorem eq_of_lowered_colon {c : Char} (h : c.toLower = ':') : c = ':' :=
  eq_of_toLower_eq h (.inl (by decide))

/-- A text with the lower case of joined parts is joined from parts with their lower case. -/
theorem exists_join (h : lowered t = lowered (join [':'] ps)) :
    ∃ ps', t = join [':'] ps' ∧ ps'.map lowered = ps.map lowered := by
  induction ps generalizing t with
  | nil => exact ⟨[], List.map_eq_nil_iff.1 h, rfl⟩
  | cons p ps ih =>
    by_cases hne : ps = []
    · subst hne
      refine ⟨[t], List.intercalate_singleton.symm, ?_⟩
      rw [List.map_singleton, h, join, List.intercalate_singleton]
      rfl
    · rw [join_cons hne, lowered, lowered, List.map_append, List.map_append] at h
      obtain ⟨a, r, rfl, ha, hr⟩ := List.map_eq_append_iff.1 h
      obtain ⟨c, b, rfl, hc, hb⟩ := List.map_eq_cons_iff.1 hr
      obtain rfl := eq_of_lowered_colon hc
      obtain ⟨ps', rfl, hps⟩ := ih hb
      refine ⟨a :: ps', ?_, by rw [List.map_cons, List.map_cons, hps]; exact congrArg (· :: _) ha⟩
      rw [join_cons (by rintro rfl; exact hne (List.map_eq_nil_iff.1 hps.symm))]
      rfl

/-- The same on both sides of a `::`. -/
theorem exists_two {ls rs : List JsText}
    (h : lowered t = lowered (join [':'] ls ++ ':' :: ':' :: join [':'] rs)) :
    ∃ ls' rs', t = join [':'] ls' ++ ':' :: ':' :: join [':'] rs' ∧
      ls'.map lowered = ls.map lowered ∧ rs'.map lowered = rs.map lowered := by
  rw [lowered, lowered, List.map_append] at h
  obtain ⟨a, r, rfl, ha, hr⟩ := List.map_eq_append_iff.1 h
  obtain ⟨c, r, rfl, hc, hr⟩ := List.map_eq_cons_iff.1 hr
  obtain ⟨d, b, rfl, hd, hb⟩ := List.map_eq_cons_iff.1 hr
  obtain rfl := eq_of_lowered_colon hc
  obtain rfl := eq_of_lowered_colon hd
  obtain ⟨ls', rfl, hls⟩ := exists_join ha
  obtain ⟨rs', rfl, hrs⟩ := exists_join hb
  exact ⟨ls', rs', rfl, hls, hrs⟩

theorem groups_of_lowered {ps' : List JsText} (hps : ps'.map lowered = ps.map lowered)
    (h : List.Forall₂ IsGroup ps ns) : List.Forall₂ IsGroup ps' ns := by
  induction h generalizing ps' with
  | nil => rw [List.map_eq_nil_iff.1 hps]; exact .nil
  | @cons p n ps ns hp _ ih =>
    obtain ⟨p', ps', rfl, hp', hps'⟩ := List.map_eq_cons_iff.1 hps
    refine .cons ⟨?_, ?_⟩ (ih hps')
    · have hlength := congrArg List.length hp'
      rw [lowered, lowered, List.length_map, List.length_map] at hlength
      exact hlength.le.trans hp.1
    · rw [← digits_toLower, ← lowered, hp', lowered, digits_toLower]
      exact hp.2

theorem length_of_lowered {ps' : List JsText} (hps : ps'.map lowered = ps.map lowered) :
    ps'.length = ps.length := by
  simpa using congrArg List.length hps

/-- **Groups** may have capital letters. -/
theorem denotes16_of_lowered (h : Denotes16 t addr) (heq : lowered t' = lowered t) :
    Denotes16 t' addr := by
  cases h with
  | full groups eight =>
    obtain ⟨ps', rfl, hps⟩ := exists_join heq
    exact .full (groups_of_lowered hps groups) ((length_of_lowered hps).trans eight)
  | short left right fewer =>
    obtain ⟨ls', rs', rfl, hls, hrs⟩ := exists_two heq
    rw [← length_of_lowered hls, ← length_of_lowered hrs] at fewer ⊢
    exact .short (groups_of_lowered hls left) (groups_of_lowered hrs right) fewer

/-- The characters of an IPv4 address are points and digits. -/
theorem chars_of_denotes4 (h : Denotes4 t addr) : ∀ c ∈ t, c = '.' ∨ (digitIn 10 c).isSome := by
  obtain ⟨ps, ns, -, hoctets, rfl, -⟩ := h
  intro c hc
  rcases mem_join hc with hc | ⟨p, hp, hc⟩
  · exact .inl (List.mem_singleton.1 hc)
  · obtain ⟨hall, -⟩ := octets_iff.1 hoctets
    exact .inr ((digits_eq_some (hall p hp).2.1).2 c hc)

theorem toNat_of_digit {c : Char} (h : (digitIn 10 c).isSome) : 48 ≤ c.toNat ∧ c.toNat ≤ 57 := by
  obtain ⟨d, hd⟩ := Option.isSome_iff_exists.1 h
  obtain ⟨hval, hlt⟩ := Option.filter_eq_some_iff.1 hd
  have hlt := of_decide_eq_true hlt
  unfold digitVal at hval
  dsimp only at hval
  split_ifs at hval with hdecimal
  · exact hdecimal
  -- the letters have values of ten and more
  · have hd := Option.some.inj hval
    omega
  · have hd := Option.some.inj hval
    omega

theorem eq_of_lowered_quad (h : Denotes4 q addr) (heq : lowered t = lowered q) : t = q := by
  have hchars := chars_of_denotes4 h
  have hcode (c : Char) (hc : c ∈ q) : c.toNat < 65 := by
    rcases hchars c hc with rfl | hdigit
    · decide
    · have hrange := toNat_of_digit hdigit
      omega
  have hq : lowered q = q := by
    refine (List.map_congr_left fun c hc => ?_).trans (List.map_id q)
    exact toLower_eq_self (.inl (hcode c hc))
  rw [hq] at heq
  refine ((List.map_congr_left fun c hc => ?_).trans (List.map_id t)).symm.trans heq
  have hmem : c.toLower ∈ q := by
    rw [← heq]
    exact List.mem_map_of_mem hc
  have hlt := hcode _ hmem
  have hself : c = c.toLower := eq_of_toLower_eq rfl (.inl (by omega))
  exact hself.symm

/-- A list of parts with the lower case of `ps` and an IPv4 address behind them is such a list. -/
theorem exists_quad {qs : List JsText} (hq : Denotes4 q addr)
    (h : qs.map lowered = (ps ++ [q]).map lowered) :
    ∃ ps', qs = ps' ++ [q] ∧ ps'.map lowered = ps.map lowered := by
  rw [List.map_append] at h
  obtain ⟨ps', rest, rfl, hps, hrest⟩ := List.map_eq_append_iff.1 h
  obtain ⟨q', rest, rfl, hq', hnil⟩ := List.map_eq_cons_iff.1 hrest
  rw [List.map_eq_nil_iff.1 hnil, eq_of_lowered_quad hq hq']
  exact ⟨ps', rfl, hps⟩

theorem denotes6_of_lowered (h : Denotes6 t addr) (heq : lowered t' = lowered t) :
    Denotes6 t' addr := by
  cases h with
  | groups text => exact .groups (denotes16_of_lowered text heq)
  | full groups six last =>
    obtain ⟨qs, rfl, hqs⟩ := exists_join heq
    obtain ⟨ps', rfl, hps⟩ := exists_quad last hqs
    exact .full (groups_of_lowered hps groups) ((length_of_lowered hps).trans six) last
  | short left right fewer last =>
    obtain ⟨ls', qs, rfl, hls, hqs⟩ := exists_two heq
    obtain ⟨rs', rfl, hrs⟩ := exists_quad last hqs
    rw [← length_of_lowered hls, ← length_of_lowered hrs] at fewer ⊢
    exact .short (groups_of_lowered hls left) (groups_of_lowered hrs right) fewer last

/-- The characters of addresses. -/
def IsAddressChar (c : Char) : Prop := c = ':' ∨ c = '.' ∨ (digitIn 16 c).isSome

theorem chars_of_groups (h : List.Forall₂ IsGroup ps ns) :
    ∀ c ∈ join [':'] ps, IsAddressChar c := by
  obtain ⟨hall, -⟩ := groups_iff.1 h
  intro c hc
  rcases mem_join hc with hc | ⟨p, hp, hc⟩
  · exact .inl (List.mem_singleton.1 hc)
  · exact .inr (.inr ((digits_eq_some (hall p hp).2).2 c hc))

theorem chars_of_quad (h : List.Forall₂ IsGroup ps ns) (hq : Denotes4 q addr) :
    ∀ c ∈ join [':'] (ps ++ [q]), IsAddressChar c := by
  obtain ⟨hall, -⟩ := groups_iff.1 h
  intro c hc
  rcases mem_join hc with hc | ⟨p, hp, hc⟩
  · exact .inl (List.mem_singleton.1 hc)
  rcases List.mem_append.1 hp with hp | hp
  · exact .inr (.inr ((digits_eq_some (hall p hp).2).2 c hc))
  · rw [List.mem_singleton.1 hp] at hc
    refine .inr ((chars_of_denotes4 hq c hc).imp_right fun hdigit => ?_)
    unfold digitIn at hdigit ⊢
    obtain ⟨d, hd⟩ := Option.isSome_iff_exists.1 hdigit
    obtain ⟨hval, hlt⟩ := Option.filter_eq_some_iff.1 hd
    rw [hval]
    have hlt := of_decide_eq_true hlt
    exact Option.isSome_iff_exists.2 ⟨d, Option.filter_eq_some_iff.2
      ⟨rfl, decide_eq_true (by omega)⟩⟩

theorem chars_of_denotes6 (h : Denotes6 t addr) : ∀ c ∈ t, IsAddressChar c := by
  have htwo {l r : JsText} (hl : ∀ c ∈ l, IsAddressChar c) (hr : ∀ c ∈ r, IsAddressChar c) :
      ∀ c ∈ l ++ ':' :: ':' :: r, IsAddressChar c := by
    intro c hc
    rcases List.mem_append.1 hc with hc | hc
    · exact hl c hc
    rcases List.mem_cons.1 hc with rfl | hc
    · exact .inl rfl
    rcases List.mem_cons.1 hc with rfl | hc
    · exact .inl rfl
    · exact hr c hc
  cases h with
  | groups text =>
    cases text with
    | full groups eight => exact chars_of_groups groups
    | short left right fewer => exact htwo (chars_of_groups left) (chars_of_groups right)
  | full groups six last => exact chars_of_quad groups last
  | short left right fewer last => exact htwo (chars_of_groups left) (chars_of_quad right last)

theorem IsAddressChar.ascii {c : Char} (h : IsAddressChar c) :
    c.toNat < 128 ∧ c ≠ 'i' ∧ c ≠ 'k' := by
  rcases h with rfl | rfl | h
  · decide
  · decide
  · have hrange := digitVal_isSome h
    refine ⟨by omega, ?_, ?_⟩
    · rintro rfl
      exact absurd h (by decide)
    · rintro rfl
      exact absurd h (by decide)

variable {rt : Runtime}

/-- A text in ASCII has the lower case of ASCII. -/
theorem lower_ascii (h : ∀ c ∈ t, c.toNat < 128) : rt.lower.apply t = lowered t := by
  rw [Casing.apply, Casing.run_eq_map fun c hc hge => absurd (h c hc) (by omega)]
  refine List.map_congr_left fun c hc => ?_
  rw [if_pos (h c hc), rt.lower_ascii]

/-- Only a text in ASCII has the characters of an address in its lower case. -/
theorem ascii_of_lower (h : ∀ c ∈ rt.lower.apply t, IsAddressChar c) : ∀ c ∈ t, c.toNat < 128 := by
  intro c hc
  by_contra hge
  obtain ⟨s, r, rfl⟩ := List.append_of_mem hc
  rw [Casing.apply, Casing.run_append, Casing.run] at h
  obtain ⟨d, ds, hd⟩ := List.exists_cons_of_ne_nil (rt.lower.image_ne_nil ([] ++ s) c (r ++ []))
  have himage : d ∈ rt.lower.image ([] ++ s) c (r ++ []) := by
    rw [hd]
    exact List.mem_cons_self
  obtain ⟨hlt, hi, hk⟩ := (h d (List.mem_append_right _ (List.mem_append_left _ himage))).ascii
  rcases rt.ascii_of_mem _ _ _ (Nat.not_lt.1 hge) d himage hlt with rfl | rfl
  · exact hi rfl
  · exact hk rfl

theorem lowered_lowered (t : JsText) : lowered (lowered t) = lowered t := by
  rw [lowered, lowered, List.map_map]
  exact List.map_congr_left fun c _ => toLower_toLower c

/-- **The lower case of a text** is an address exactly if the text is. -/
theorem denotes6_lower : Denotes6 (rt.lower.apply t) addr ↔ Denotes6 t addr := by
  constructor
  · intro h
    have hascii := ascii_of_lower (chars_of_denotes6 h)
    rw [lower_ascii hascii] at h
    exact denotes6_of_lowered h (lowered_lowered t).symm
  · intro h
    rw [lower_ascii fun c hc => (chars_of_denotes6 h c hc).ascii.1]
    exact denotes6_of_lowered h (lowered_lowered t)

end Case

/-! ## IPv4 addresses behind groups -/

section Quad

variable {t q : JsText} {ls rs ps : List JsText} {ns ms : List ℕ} {addr quad : List UInt8}

/-- The IPv4 address at the end is 0.0.0.0, and so are the groups between a `::` and it. -/
inductive ZeroQuad : JsText → Prop
  | mk {ls rs : List JsText} {ns : List ℕ} {q : JsText} (left : List.Forall₂ IsGroup ls ns)
      (right : List.Forall₂ IsGroup rs (List.replicate rs.length 0))
      (fewer : ls.length + rs.length < 6) (last : Denotes4 q [0, 0, 0, 0]) :
      ZeroQuad (join [':'] ls ++ ':' :: ':' :: join [':'] (rs ++ [q]))

theorem groupBytes_append (ns ms : List ℕ) : groupBytes (ns ++ ms) = groupBytes ns ++ groupBytes ms :=
  List.flatMap_append

theorem groupBytes_inj (hns : ∀ n ∈ ns, n ≤ 0xffff) (hms : ∀ n ∈ ms, n ≤ 0xffff)
    (h : groupBytes ns = groupBytes ms) : ns = ms := by
  induction ns generalizing ms with
  | nil =>
    cases ms with
    | nil => rfl
    | cons m ms => cases h
  | cons n ns ih =>
    cases ms with
    | nil => cases h
    | cons m ms =>
      have hn := hns n List.mem_cons_self
      have hm := hms m List.mem_cons_self
      obtain ⟨hhigh, h⟩ := List.cons.inj h
      obtain ⟨hlow, h⟩ := List.cons.inj h
      have hhigh := congrArg UInt8.toNat hhigh
      have hlow := congrArg UInt8.toNat hlow
      rw [TextDecoder.toNat_ofNat_byte (by omega), TextDecoder.toNat_ofNat_byte (by omega)]
        at hhigh hlow
      rw [ih (fun k hk => hns k (List.mem_cons_of_mem n hk))
        (fun k hk => hms k (List.mem_cons_of_mem m hk)) h]
      congr 1
      omega

/-- The first octet of an IPv4 address, and its bytes as two groups. -/
theorem quad_octets (h : Denotes4 q quad) : ∃ p r a b c d, IsOctet p a ∧ q = p ++ '.' :: r ∧
    b ≤ 255 ∧ c ≤ 255 ∧ d ≤ 255 ∧ quad = groupBytes [a * 256 + b, c * 256 + d] := by
  obtain ⟨ps, ns, hlength, hoctets, rfl, rfl⟩ := h
  obtain ⟨p, ps, rfl⟩ := List.exists_cons_of_length_eq_add_one hlength
  have hne : ps ≠ [] := by
    rintro rfl
    cases hlength
  obtain - | ⟨ha, - | ⟨hb, - | ⟨hc, - | ⟨hd, hrest⟩⟩⟩⟩ := hoctets
  · exact absurd rfl hne
  · cases hlength
  · cases hlength
  cases hrest with
  | cons _ _ => exact absurd hlength (by simp)
  | nil =>
    refine ⟨p, _, _, _, _, _, ha, join_cons hne, hb.2.2, hc.2.2, hd.2.2, ?_⟩
    have hbyte (x y : ℕ) (hy : y ≤ 255) : (x * 256 + y) / 256 = x ∧ (x * 256 + y) % 256 = y := by omega
    simp only [groupBytes, List.flatMap_cons, List.flatMap_nil, List.append_nil, (hbyte _ _ hb.2.2).1,
      (hbyte _ _ hb.2.2).2, (hbyte _ _ hd.2.2).1, (hbyte _ _ hd.2.2).2]
    rfl

theorem part_quad (h : Denotes4 q quad) : Part q := by
  obtain ⟨p, r, -, -, -, -, -, hq, -⟩ := quad_octets h
  refine ⟨by rw [hq]; exact List.append_ne_nil_of_right_ne_nil _ (List.cons_ne_nil _ _), fun hc => ?_⟩
  rcases chars_of_denotes4 h ':' hc with hpoint | hdigit
  · exact absurd hpoint (by decide)
  · exact absurd hdigit (by decide)

/-- `parseInt` reads the first octet, which is zero if it is. -/
theorem groupVal_of_zero {p r : JsText} (h : IsOctet p 0) : groupVal (p ++ '.' :: r) = 0 := by
  rw [groupVal, parseHex_append (digits_zero h.2.1) (by decide) (by decide) (by decide)]
  rfl

theorem groupVal_of_zeros (h : Denotes4 q [0, 0, 0, 0]) : groupVal q = 0 := by
  obtain ⟨p, r, a, b, c, d, ha, rfl, hb, hc, hd, hquad⟩ := quad_octets h
  have hle := ha.2.2
  have hzero : [0, 0] = [a * 256 + b, c * 256 + d] := groupBytes_inj (by simp)
    (by simp only [List.mem_cons, List.not_mem_nil, or_false]; omega) hquad
  obtain ⟨hab, -⟩ := List.cons.inj hzero
  obtain rfl : a = 0 := by omega
  exact groupVal_of_zero ha

/-- A list that may be moved by one zero is made of zeros. -/
theorem zeros_of_moved {x : ℕ} (h : 0 :: ns = ns ++ [x]) :
    ns = List.replicate ns.length 0 ∧ x = 0 := by
  induction ns with
  | nil => exact ⟨rfl, (List.cons.inj h).1.symm⟩
  | cons n ns ih =>
    obtain ⟨hn, h⟩ := List.cons.inj h
    rw [← hn] at h
    obtain ⟨hns, hx⟩ := ih h
    refine ⟨?_, hx⟩
    rw [List.length_cons, List.replicate_succ, ← hns, hn]

theorem parts_groups (h : List.Forall₂ IsGroup ps ns) : ∀ p ∈ ps, Part p :=
  fun p hp => ((groups_iff.1 h).1 p hp).part

theorem parts_quad (h : List.Forall₂ IsGroup ps ns) (hq : Denotes4 q quad) :
    ∀ p ∈ ps ++ [q], Part p := by
  intro p hp
  rcases List.mem_append.1 hp with hp | hp
  · exact parts_groups h p hp
  · rw [List.mem_singleton.1 hp]
    exact part_quad hq

/-- The IPv4 address is taken for a part. -/
theorem short_parts (left : List.Forall₂ IsGroup ls ns) (right : List.Forall₂ IsGroup rs ms)
    (last : Denotes4 q quad) (ht : t = join [':'] ls ++ ':' :: ':' :: join [':'] (rs ++ [q])) :
    leftParts t = ls ∧ rightParts t = rs ++ [q] := by
  have hsplit := splitColons_two (parts_groups left) (parts_quad right last)
  rw [leftParts, rightParts, ht, hsplit]
  exact ⟨(colonParts_join (parts_groups left)).1, (colonParts_join (parts_quad right last)).1⟩

/-- It is read as one group, so that there is one group of zeros more. -/
theorem readBytes_quad (left : List.Forall₂ IsGroup ls ns) (right : List.Forall₂ IsGroup rs ms)
    (fewer : ls.length + rs.length < 6) : readBytes ls (rs ++ [q]) =
      groupBytes (ns ++ (List.replicate (6 - (ls.length + rs.length)) 0 ++
        (0 :: ms ++ [groupVal q]))) := by
  obtain ⟨-, rfl⟩ := groups_iff.1 left
  obtain ⟨-, rfl⟩ := groups_iff.1 right
  have hzeros : 8 - (ls.length + (rs ++ [q]).length) = 6 - (ls.length + rs.length) + 1 := by
    rw [List.length_append, List.length_singleton]
    omega
  rw [readBytes, hzeros, List.replicate_succ', List.map_append, List.append_assoc]
  rfl

theorem denotes6_of_zeroQuad (h : ZeroQuad t) :
    Denotes6 t (readBytes (leftParts t) (rightParts t)) := by
  obtain @⟨ls, rs, ns, q, left, right, fewer, last⟩ := h
  obtain ⟨hleft, hright⟩ := short_parts left right last rfl
  have hdenotes := Denotes6.short left right fewer last
  rw [hleft, hright, readBytes_quad left right fewer, groupVal_of_zeros last]
  convert hdenotes using 1
  rw [show ([0, 0, 0, 0] : List UInt8) = groupBytes [0, 0] from rfl, ← groupBytes_append,
    List.append_assoc, List.append_assoc, ← List.replicate_succ, List.replicate_succ',
    List.append_assoc]
  rfl

/-- Nothing but zeros is read behind the `::`. -/
theorem ZeroQuad.right (h : ZeroQuad t) : ∀ p ∈ rightParts t, groupVal p = 0 := by
  obtain @⟨ls, rs, ns, q, left, right, fewer, last⟩ := h
  obtain ⟨-, hright⟩ := short_parts left right last rfl
  rw [hright]
  intro x hx
  rcases List.mem_append.1 hx with hx | hx
  · obtain ⟨-, hzeros⟩ := groups_iff.1 right
    exact List.eq_of_mem_replicate (hzeros ▸ List.mem_map_of_mem hx)
  · rw [List.mem_singleton.1 hx]
    exact groupVal_of_zeros last

/-- A sloppy text that is read as the address that it denotes ends with zeros. -/
theorem zeroQuad_of_denotes6 (h : Denotes6 t addr) (hfits : Fits t) (hreads : Reads16 t)
    (hsloppy : Sloppy16 t) (haddr : addr = readBytes (leftParts t) (rightParts t)) :
    ZeroQuad t := by
  cases h with
  | groups text => exact absurd hsloppy text.reads.2
  | @full ps ns q quad groups six last =>
    have hsplit := splitColons_one (parts_quad groups last)
    have hleft : leftParts (join [':'] (ps ++ [q])) = ps ++ [q] := by
      rw [leftParts, hsplit]
      exact (colonParts_join (parts_quad groups last)).1
    have hright : rightParts (join [':'] (ps ++ [q])) = [] := by
      rw [rightParts, hsplit]
      rfl
    have height := hfits.eight (by rw [hsplit]; rfl)
    rw [hleft, hright, List.length_append, six] at height
    exact absurd height (by simp)
  | @short ls rs ns ms q quad left right fewer last =>
    obtain ⟨hleft, hright⟩ := short_parts left right last rfl
    obtain ⟨p, r, a, b, c, d, ha, rfl, hb, hc, hd, rfl⟩ := quad_octets last
    have hle := ha.2.2
    have hlast : groupVal (p ++ '.' :: r) ≤ 0xffff := by
      obtain ⟨n, hn⟩ := hreads.right (p ++ '.' :: r) (by rw [hright]; simp)
      rw [groupVal_of_reads hn]
      exact hn.1
    have hgroups {ps : List JsText} {ns : List ℕ} (h : List.Forall₂ IsGroup ps ns) :
        ∀ n ∈ ns, n ≤ 0xffff := by
      obtain ⟨hall, rfl⟩ := groups_iff.1 h
      rw [List.forall_mem_map]
      exact fun p hp => (hall p hp).reads.1
    have hns := hgroups left
    have hms := hgroups right
    rw [hleft, hright, readBytes_quad left right fewer, ← groupBytes_append] at haddr
    have hlists := groupBytes_inj ?_ ?_ haddr
    · rw [List.append_assoc, List.append_assoc] at hlists
      have htail : ms ++ ([a * 256 + b] ++ [c * 256 + d]) = 0 :: ms ++ [groupVal (p ++ '.' :: r)] :=
        List.append_cancel_left (List.append_cancel_left hlists)
      rw [← List.append_assoc] at htail
      obtain ⟨hmoved, hgroup⟩ := List.append_inj' htail rfl
      obtain ⟨hzeros, hab⟩ := zeros_of_moved hmoved.symm
      obtain rfl : a = 0 := by omega
      obtain rfl : b = 0 := by omega
      have hcd : c * 256 + d = 0 := by
        rw [← groupVal_of_zero (r := r) ha]
        exact (List.cons.inj hgroup).1
      have hlength : rs.length = ms.length := right.length_eq
      rw [hzeros, ← hlength] at right
      obtain ⟨rfl, rfl⟩ : c = 0 ∧ d = 0 := by omega
      exact .mk left right fewer last
    · intro n hn
      simp only [List.mem_append, List.mem_replicate, List.mem_cons, List.not_mem_nil, or_false] at hn
      rcases hn with (hn | hn | hn) | hn
      · exact hns n hn
      · omega
      · exact hms n hn
      · omega
    · intro n hn
      simp only [List.mem_append, List.mem_replicate, List.mem_cons, List.not_mem_nil, or_false] at hn
      rcases hn with hn | hn | (hn | hn) | hn
      · exact hns n hn
      · omega
      · omega
      · exact hms n hn
      · omega

end Quad

/-! ## Answers -/

/-- A text that is read, and that is no address or another one. -/
structure Sloppy6 (t : JsText) : Prop where
  reads : Reads16 t
  fits : Fits t
  sloppy : Sloppy16 t
  other : ¬ZeroQuad t

section Answers

variable {rt : Runtime} {answer : Answer} {t : JsText} {addr : List UInt8}

/-- The address that the data of an answer denotes. -/
def Answer.Denotes (answer : Answer) (addr : List UInt8) : Prop :=
  match answer.type with
  | .a => Denotes4 answer.data addr
  | .aaaa => Denotes6 answer.data addr

/-- The data of an answer is read and denotes no address or another one. -/
def Answer.Sloppy (rt : Runtime) (answer : Answer) : Prop :=
  match answer.type with
  | .a => Sloppy4 answer.data
  | .aaaa => Sloppy6 (rt.lower.apply answer.data)

theorem parseIPv4_iff : (∀ addr, parseIPv4 t = some addr → Denotes4 t addr) ↔ ¬Sloppy4 t := by
  constructor
  · rintro h ⟨hreads, p, hp, hnone⟩
    have hdenotes := h _ (parseIPv4_eq_some_iff.2 (rrA_eq_ok_iff.2 ⟨hreads, rfl⟩))
    exact hnone ((denotes4_iff.1 hdenotes).2.1 p hp)
  · exact fun h addr hparse => (rrA_meets_iff.2 h addr).1 (parseIPv4_eq_some_iff.1 hparse)

theorem parseIPv6_iff : (∀ addr, parseIPv6 rt t = some addr → Denotes6 t addr) ↔
    ¬Sloppy6 (rt.lower.apply t) := by
  constructor
  · rintro h ⟨hreads, hfits, hsloppy, hother⟩
    have hdenotes := h _ (parseIPv6_eq_some_iff.2 ⟨hfits, rrAAAA_eq_ok_iff.2 ⟨hreads, rfl⟩⟩)
    exact hother (zeroQuad_of_denotes6 (denotes6_lower.2 hdenotes) hfits hreads hsloppy rfl)
  · intro h addr hparse
    obtain ⟨hfits, hok⟩ := parseIPv6_eq_some_iff.1 hparse
    obtain ⟨hreads, rfl⟩ := rrAAAA_eq_ok_iff.1 hok
    refine denotes6_lower.1 (?_ : Denotes6 (rt.lower.apply t) _)
    by_cases hsloppy : Sloppy16 (rt.lower.apply t)
    · by_cases hother : ZeroQuad (rt.lower.apply t)
      · exact denotes6_of_zeroQuad hother
      · exact absurd ⟨hreads, hfits, hsloppy, hother⟩ h
    · exact .groups (denotes16_of_reads hreads hsloppy)

/-- **The data of an answer** is read as the address that it denotes exactly if it is not sloppy. -/
theorem addr_iff : (∀ addr, answer.addr rt = some addr → answer.Denotes addr) ↔
    ¬answer.Sloppy rt := by
  unfold Answer.addr Answer.Denotes Answer.Sloppy
  cases answer.type with
  | a => exact parseIPv4_iff
  | aaaa => exact parseIPv6_iff

/-- An address that has no IPv4 address in it. -/
def Answer.Plain (answer : Answer) (addr : List UInt8) : Prop :=
  match answer.type with
  | .a => Denotes4 answer.data addr
  | .aaaa => Denotes16 answer.data addr

/-- Such an address is read. -/
theorem addr_of_plain (h : answer.Plain addr) : answer.addr rt = some addr := by
  unfold Answer.addr
  unfold Answer.Plain at h
  cases hkind : answer.type with
  | a =>
    rw [hkind] at h
    obtain ⟨hlength, hall, haddr⟩ := denotes4_iff.1 h
    refine parseIPv4_eq_some_iff.2 (rrA_eq_ok_iff.2 ⟨⟨hlength, fun p hp => ?_⟩, haddr⟩)
    obtain ⟨n, hn⟩ := hall p hp
    exact ⟨n, hn.reads⟩
  | aaaa =>
    rw [hkind] at h
    have hascii : rt.lower.apply answer.data = lowered answer.data :=
      lower_ascii fun c hc => (chars_of_denotes6 (.groups h) c hc).ascii.1
    have hlower : Denotes16 (rt.lower.apply answer.data) addr :=
      denotes16_of_lowered h (by rw [hascii, lowered_lowered])
    obtain ⟨hok, hsloppy⟩ := hlower.reads
    refine parseIPv6_eq_some_iff.2 ⟨⟨?_, fun hone => ?_⟩, hok⟩
    · exact Nat.not_lt.1 fun hlt => hsloppy (.again hlt)
    · obtain ⟨hreads, -⟩ := rrAAAA_eq_ok_iff.1 hok
      exact le_antisymm hreads.count (Nat.not_lt.1 fun hlt => hsloppy (.missing hone hlt))

end Answers

end Ddns.CfDemo
