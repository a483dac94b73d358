import Ddns.Rewards.Program
import Ddns.Lib.Casing
import Mathlib.Logic.Relation

/-!
# The spellings of a domain

Challenges and claims are stored under `compute_domain_hash` of the name. `normalize_fqdn` trims, takes
off one dot and lower-cases, each once: what is in front of the last dot stays, more dots or white space
included. Two spellings of a domain get one hash, and a normalized name stays as it is, exactly if both
are `Tidy` or both are refused (`sameDomain_iff`).
-/

namespace Ddns.Rewards

open Tx Names

/-! ## The law -/

/-- Spellings that differ in one place: in the case of ASCII letters, or by white space around the text
or a dot at its end. -/
inductive Respelled : Text → Text → Prop where
  | case {s s' : Text} (h : toAsciiLowercase s = toAsciiLowercase s') : Respelled s s'
  | front {c : Char} {s : Text} (h : isWhitespace c = true) : Respelled s (c :: s)
  | back {c : Char} {s : Text} (h : isWhitespace c = true) : Respelled s (s ++ [c])
  | dot {s : Text} : Respelled s (s ++ ['.'])

/-- The texts differ only in ASCII case, surrounding white space or trailing dots. -/
def Alike : Text → Text → Prop := Relation.EqvGen Respelled

/-- What is accepted is normalized once and for all. -/
def Idempotent (s : Text) : Prop := ∀ n, normalizeFqdn s = .ok n → normalizeFqdn n = .ok n

/-- **One domain, one hash**: so the accounts of the two spellings, whose seeds are the hash, are the
same. -/
structure SameDomain (dep : Deployment) (s s' : Text) : Prop where
  idempotent : Idempotent s
  idempotent' : Idempotent s'
  hash : computeDomainHash dep s = computeDomainHash dep s'

/-- White space and dots. -/
def isEdge (c : Char) : Bool := isWhitespace c || c = '.'

/-- The white space and the dots at the end of a trimmed text. -/
def edge (s : Text) : Text := (trim s).rtakeWhile isEdge

/-- A trimmed text ends in no white space and in one dot at most. -/
def Tidy (s : Text) : Prop := edge s = [] ∨ edge s = ['.']

/-- Trimmed and without a dot, the text is empty or too long. -/
def Refused (s : Text) : Prop :=
  popDot (trim s) = [] ∨ 253 < len (popDot (trim s))

/-! ## Lower case -/

variable {s s' t : Text} {c : Char}

theorem isWhitespace_toLower (c : Char) : isWhitespace c.toLower = isWhitespace c := by
  refine JsText.toLower_congr (fun d hd => ?_) c
  unfold isWhitespace
  simp only [Bool.or_eq_false_iff, Bool.and_eq_false_iff, decide_eq_false_iff_not]
  omega

theorem toLower_eq_dot : c.toLower = '.' ↔ c = '.' :=
  ⟨fun h => JsText.eq_of_toLower_eq h (.inl (by decide)), by rintro rfl; rfl⟩

theorem lower_lower (s : Text) : toAsciiLowercase (toAsciiLowercase s) = toAsciiLowercase s := by
  unfold toAsciiLowercase
  rw [List.map_map]
  exact List.map_congr_left fun c _ => JsText.toLower_toLower c

/-- A part of a text in lower case is in lower case. -/
theorem lower_of_sublist (h : s.Sublist (toAsciiLowercase t)) : toAsciiLowercase s = s := by
  obtain ⟨u, -, rfl⟩ := List.sublist_map_iff.1 h
  exact lower_lower u

theorem len_lower (s : Text) : len (toAsciiLowercase s) = len s := by
  unfold len toAsciiLowercase
  rw [List.map_map]
  refine congrArg List.sum (List.map_congr_left fun c _ => ?_)
  have hsize (d : Char) : d.toNat < 128 ↔ d.utf8Size = 1 := by
    rw [Char.utf8Size_eq_one_iff, UInt32.le_iff_toNat_le]
    exact Nat.lt_succ_iff
  by_cases hc : c.toNat < 128
  · exact ((hsize _).1 (JsText.toLower_lt_iff.2 hc)).trans ((hsize c).1 hc).symm
  · exact congrArg Char.utf8Size (JsText.toLower_eq_self (.inr (by omega)))

theorem dropWhile_lower {p : Char → Bool} (h : ∀ c, p c.toLower = p c) (s : Text) :
    (toAsciiLowercase s).dropWhile p = toAsciiLowercase (s.dropWhile p) := by
  unfold toAsciiLowercase
  rw [List.dropWhile_map]
  exact congrArg (fun q => (s.dropWhile q).map Char.toLower) (funext h)

theorem rdropWhile_lower {p : Char → Bool} (h : ∀ c, p c.toLower = p c) (s : Text) :
    (toAsciiLowercase s).rdropWhile p = toAsciiLowercase (s.rdropWhile p) := by
  have hreverse (t : Text) : (toAsciiLowercase t).reverse = toAsciiLowercase t.reverse := by
    unfold toAsciiLowercase
    rw [List.map_reverse]
  rw [List.rdropWhile, List.rdropWhile, hreverse, dropWhile_lower h, hreverse]

theorem rtakeWhile_lower {p : Char → Bool} (h : ∀ c, p c.toLower = p c) (s : Text) :
    (toAsciiLowercase s).rtakeWhile p = toAsciiLowercase (s.rtakeWhile p) := by
  have hsplit := List.rdropWhile_append_rtakeWhile (p := p) (l := toAsciiLowercase s)
  rw [rdropWhile_lower h] at hsplit
  refine List.append_cancel_left (hsplit.trans ?_)
  unfold toAsciiLowercase
  rw [← List.map_append, List.rdropWhile_append_rtakeWhile]

theorem trim_lower (s : Text) : trim (toAsciiLowercase s) = toAsciiLowercase (trim s) := by
  unfold trim
  rw [dropWhile_lower isWhitespace_toLower, rdropWhile_lower isWhitespace_toLower]

theorem popDot_lower (s : Text) : popDot (toAsciiLowercase s) = toAsciiLowercase (popDot s) := by
  unfold popDot toAsciiLowercase
  have hlast : (s.map Char.toLower).getLast? = some '.' ↔ s.getLast? = some '.' := by
    rw [List.getLast?_map]
    cases s.getLast? with
    | none => rfl
    | some c =>
      rw [Option.map_some, Option.some_inj, Option.some_inj]
      exact toLower_eq_dot
  by_cases h : s.getLast? = some '.'
  · rw [if_pos h, if_pos (hlast.2 h), List.map_dropLast]
  · rw [if_neg h, if_neg (mt hlast.1 h)]

/-! ## Ends of a text -/

theorem isEdge_of_whitespace (h : isWhitespace c = true) : isEdge c = true := by
  rw [isEdge, h, Bool.true_or]

theorem isEdge_toLower (c : Char) : isEdge c.toLower = isEdge c := by
  unfold isEdge
  rw [isWhitespace_toLower, decide_eq_decide.2 toLower_eq_dot]

/-- A trimmed text does not end in white space. -/
theorem getLast_trim (h : (trim s).getLast? = some c) : isWhitespace c = false := by
  have hne : (s.dropWhile isWhitespace).rdropWhile isWhitespace ≠ [] := by
    rintro hnil
    rw [trim, hnil] at h
    cases h
  have hlast := List.rdropWhile_last_not isWhitespace (s.dropWhile isWhitespace) hne
  unfold trim at h
  rw [List.getLast?_eq_some_getLast hne] at h
  rw [← Option.some.inj h]
  simpa using hlast

theorem sublist_trim (s : Text) : (trim s).Sublist s :=
  (List.rdropWhile_prefix isWhitespace _).sublist.trans (List.dropWhile_suffix _).sublist

theorem sublist_popDot (s : Text) : (popDot s).Sublist s := by
  unfold popDot
  split
  · exact List.dropLast_sublist s
  · exact List.Sublist.refl s

theorem dropWhile_of_head {p : Char → Bool} (h : ∀ c ∈ s.head?, p c = false) : s.dropWhile p = s := by
  cases s with
  | nil => rfl
  | cons c s => exact List.dropWhile_cons_of_neg (by simp [h c rfl])

/-- Dropping some characters at the end before dropping more of them. -/
theorem rdropWhile_rdropWhile {p q : Char → Bool} (h : ∀ c, p c = true → q c = true) (s : Text) :
    (s.rdropWhile p).rdropWhile q = s.rdropWhile q := by
  induction s using List.reverseRecOn with
  | nil => rfl
  | append_singleton s c ih =>
    by_cases hc : p c = true
    · rw [List.rdropWhile_concat_pos p s c hc, List.rdropWhile_concat_pos q s c (h c hc), ih]
    · rw [List.rdropWhile_concat_neg p s c hc]

/-! ## The core of a name -/

/-- The text in lower case without what may be around it. -/
def core (s : Text) : Text := ((toAsciiLowercase s).dropWhile isWhitespace).rdropWhile isEdge

theorem core_concat (h : isEdge c = true) : core (s ++ [c]) = core s := by
  have hlower : isEdge c.toLower = true := (isEdge_toLower c).trans h
  unfold core toAsciiLowercase
  rw [List.map_append, List.map_singleton, List.dropWhile_append]
  split
  · rename_i hempty
    rw [List.isEmpty_iff.1 hempty, List.dropWhile_cons, List.dropWhile_nil]
    split
    · rfl
    · rw [List.rdropWhile_singleton, if_pos hlower, List.rdropWhile_nil]
  · exact List.rdropWhile_concat_pos _ _ _ hlower

theorem core_eq_of_respelled (h : Respelled s s') : core s = core s' := by
  cases h with
  | case h =>
    unfold core
    rw [h]
  | front h =>
    unfold core toAsciiLowercase
    rw [List.map_cons, List.dropWhile_cons_of_pos ((isWhitespace_toLower _).trans h)]
  | back h => exact (core_concat (isEdge_of_whitespace h)).symm
  | dot => exact (core_concat rfl).symm

/-- **Spellings of a domain have one core.** -/
theorem core_eq_of_alike (h : Alike s s') : core s = core s' := by
  induction h with
  | rel s s' h => exact core_eq_of_respelled h
  | refl s => rfl
  | symm s s' _ ih => exact ih.symm
  | trans s t s' _ _ ih ih' => exact ih.trans ih'

/-- The text that is checked: the name in lower case, trimmed and without a dot. -/
def folded (s : Text) : Text := popDot (trim (toAsciiLowercase s))

theorem normalizeFqdn_eq (s : Text) : normalizeFqdn s = (do
    require (folded s ≠ []) .badFqdn
    require (len (folded s) ≤ 253) .badFqdn
    pure (folded s)) := by
  have hfolded : toAsciiLowercase (popDot (trim s)) = folded s := by
    rw [folded, trim_lower, popDot_lower]
  unfold normalizeFqdn
  rw [hfolded]

theorem refused_iff : Refused s ↔ folded s = [] ∨ 253 < len (folded s) := by
  unfold Refused folded
  rw [trim_lower, popDot_lower, len_lower]
  unfold toAsciiLowercase
  rw [List.map_eq_nil_iff]

theorem normalizeFqdn_of_refused (h : Refused s) : normalizeFqdn s = .error (.custom .badFqdn) := by
  rw [normalizeFqdn_eq]
  unfold require
  by_cases hnil : folded s = []
  · rw [if_neg (not_not.2 hnil)]
    rfl
  · rw [if_pos hnil, if_neg (Nat.not_le.2 ((refused_iff.1 h).resolve_left hnil))]
    rfl

theorem normalizeFqdn_of_not_refused (h : ¬Refused s) : normalizeFqdn s = .ok (folded s) := by
  rw [refused_iff, not_or, Nat.not_lt] at h
  rw [normalizeFqdn_eq]
  unfold require
  rw [if_pos h.1, if_pos h.2]
  rfl

/-- What a trimmed text ends in ends in a dot. -/
theorem edge_eq (s : Text) : edge s = [] ∨ ∃ x, edge s = x ++ ['.'] := by
  rcases List.eq_nil_or_concat (edge s) with hnil | ⟨x, c, hx⟩
  · exact .inl hnil
  · rw [List.concat_eq_append] at hx
    have hend : (trim s).getLast? = some c := by
      have hsplit := List.rdropWhile_append_rtakeWhile (p := isEdge) (l := trim s)
      rw [← hsplit, ← edge, hx]
      simp
    have hc : isEdge c = true := by
      have hmem : c ∈ edge s := by
        rw [hx]
        simp
      exact List.mem_rtakeWhile_imp hmem
    rw [isEdge, getLast_trim hend, Bool.false_or] at hc
    rw [of_decide_eq_true hc] at hx
    exact .inr ⟨x, hx⟩

theorem lower_edge (s : Text) :
    toAsciiLowercase (edge s) = (trim (toAsciiLowercase s)).rtakeWhile isEdge := by
  rw [edge, trim_lower, rtakeWhile_lower isEdge_toLower]

theorem core_eq (s : Text) : core s = (trim (toAsciiLowercase s)).rdropWhile isEdge :=
  (rdropWhile_rdropWhile (fun _ => isEdge_of_whitespace) _).symm

/-- The checked text is the core, and what is in front of the last dot around it. -/
theorem folded_eq (s : Text) : folded s = core s ++ (toAsciiLowercase (edge s)).dropLast := by
  have hsplit : core s ++ toAsciiLowercase (edge s) = trim (toAsciiLowercase s) := by
    rw [core_eq, lower_edge, List.rdropWhile_append_rtakeWhile]
  rcases edge_eq s with hnil | ⟨x, hx⟩
  · rw [hnil, toAsciiLowercase, List.map_nil, List.append_nil] at hsplit
    have hlast : (trim (toAsciiLowercase s)).getLast? ≠ some '.' := by
      intro h
      obtain ⟨x, hx⟩ := List.getLast?_eq_some_iff.1 h
      have hdrop := core_eq s
      rw [hsplit, hx, List.rdropWhile_concat_pos _ _ _ rfl] at hdrop
      have hlength := congrArg List.length hdrop
      have hle := (List.rdropWhile_prefix isEdge x).length_le
      rw [List.length_append, List.length_singleton] at hlength
      omega
    rw [folded, popDot, if_neg hlast, ← hsplit, hnil]
    simp [toAsciiLowercase]
  · have hlower : toAsciiLowercase (edge s) = toAsciiLowercase x ++ ['.'] := by
      rw [hx, toAsciiLowercase, List.map_append]
      rfl
    rw [hlower, ← List.append_assoc] at hsplit
    rw [folded, ← hsplit, hlower, popDot, if_pos (by simp), List.dropLast_concat, List.dropLast_concat]

/-! ## Tidy names -/

theorem tidy_iff : Tidy s ↔ (toAsciiLowercase (edge s)).dropLast = [] := by
  unfold Tidy toAsciiLowercase
  rw [← List.map_dropLast, List.map_eq_nil_iff]
  rcases edge_eq s with hnil | ⟨x, hx⟩
  · simp [hnil]
  · rw [hx, List.dropLast_concat]
    simp

theorem folded_of_tidy (h : Tidy s) : folded s = core s := by
  rw [folded_eq, tidy_iff.1 h, List.append_nil]

theorem lower_folded (s : Text) : toAsciiLowercase (folded s) = folded s :=
  lower_of_sublist ((sublist_popDot _).trans (sublist_trim _))

/-- The core is folded already. -/
theorem folded_core (s : Text) : folded (core s) = core s := by
  have hlower : toAsciiLowercase (core s) = core s :=
    lower_of_sublist (((List.rdropWhile_prefix isEdge _).sublist).trans (List.dropWhile_suffix _).sublist)
  have hlast {c : Char} (h : (core s).getLast? = some c) : isEdge c = false := by
    have hne : core s ≠ [] := by
      rintro hnil
      rw [hnil] at h
      cases h
    have hnot := List.rdropWhile_last_not isEdge _ hne
    rw [List.getLast?_eq_some_getLast hne] at h
    rw [← Option.some.inj h]
    exact eq_false_of_ne_true hnot
  have hfront : (core s).dropWhile isWhitespace = core s := by
    refine dropWhile_of_head fun c hc => ?_
    obtain ⟨r, hr⟩ := List.rdropWhile_prefix isEdge ((toAsciiLowercase s).dropWhile isWhitespace)
    have hnot := List.head?_dropWhile_not isWhitespace (toAsciiLowercase s)
    rw [← hr, List.head?_append, ← core, Option.mem_def.1 hc] at hnot
    exact hnot
  have hback : (core s).rdropWhile isWhitespace = core s := by
    refine List.rdropWhile_eq_self_iff.2 fun hne hspace => ?_
    have hedge := hlast (List.getLast?_eq_some_getLast hne)
    rw [isEdge_of_whitespace hspace] at hedge
    cases hedge
  have htrim : trim (core s) = core s := by
    rw [trim, hfront, hback]
  rw [folded, hlower, htrim, popDot, if_neg]
  intro h
  cases hlast h

theorem idempotent_of_tidy (h : Tidy s) : Idempotent s := by
  intro n hn
  by_cases hrefused : Refused s
  · rw [normalizeFqdn_of_refused hrefused] at hn
    cases hn
  · rw [normalizeFqdn_of_not_refused hrefused, folded_of_tidy h] at hn
    obtain rfl := Except.ok.inj hn
    have hkept : ¬Refused (core s) := by
      rw [refused_iff, folded_core, ← folded_of_tidy h, ← refused_iff]
      exact hrefused
    rw [normalizeFqdn_of_not_refused hkept, folded_core]

/-- What is in front of the dot is taken off the next time. -/
theorem folded_folded_ne (h : ¬Tidy s) : folded (folded s) ≠ folded s := by
  intro heq
  have hedge : ∃ c, (folded s).getLast? = some c ∧ isEdge c = true := by
    have hne : (toAsciiLowercase (edge s)).dropLast ≠ [] := mt tidy_iff.2 h
    have hall : ∀ c ∈ toAsciiLowercase (edge s), isEdge c = true := by
      rw [lower_edge]
      exact fun c => List.mem_rtakeWhile_imp
    refine ⟨_, ?_, hall _ ((List.dropLast_sublist _).subset (List.getLast_mem hne))⟩
    rw [folded_eq, List.getLast?_append, List.getLast?_eq_some_getLast hne]
    rfl
  obtain ⟨c, hlast, hc⟩ := hedge
  rw [folded, lower_folded] at heq
  have htrim : trim (folded s) = folded s := by
    refine (sublist_trim _).eq_of_length_le ?_
    conv_lhs => rw [← heq]
    exact (sublist_popDot _).length_le
  rw [htrim, popDot] at heq
  have hspace : isWhitespace c = false := getLast_trim (by rw [htrim, hlast])
  rw [isEdge, hspace, Bool.false_or] at hc
  obtain rfl : c = '.' := of_decide_eq_true hc
  have hlength := congrArg List.length heq
  have hpos : 0 < (folded s).length := List.length_pos_of_mem (List.mem_of_getLast? hlast)
  rw [if_pos hlast, List.length_dropLast] at hlength
  omega

theorem not_idempotent (h : ¬Tidy s) (hrefused : ¬Refused s) : ¬Idempotent s := by
  intro hidem
  have hok := normalizeFqdn_of_not_refused hrefused
  have hagain := hidem _ hok
  by_cases hnext : Refused (folded s)
  · rw [normalizeFqdn_of_refused hnext] at hagain
    cases hagain
  · rw [normalizeFqdn_of_not_refused hnext] at hagain
    exact folded_folded_ne h (Except.ok.inj hagain)

/-! ## The hash -/

section Law

variable {dep : Deployment}

theorem computeDomainHash_of_refused (h : Refused s) :
    computeDomainHash dep s = .error (.custom .badFqdn) := by
  rw [computeDomainHash, normalizeFqdn_of_refused h]
  rfl

theorem computeDomainHash_of_not_refused (h : ¬Refused s) :
    computeDomainHash dep s = .ok (dep.sha256 (asBytes (folded s))) := by
  rw [computeDomainHash, normalizeFqdn_of_not_refused h]
  rfl

/-- Tidy spellings of a domain are refused together, and have one hash. -/
theorem computeDomainHash_of_tidy (hcore : core s = core s') (h : Tidy s) (h' : Tidy s') :
    computeDomainHash dep s = computeDomainHash dep s' := by
  have hfolded : folded s = folded s' := by
    rw [folded_of_tidy h, folded_of_tidy h', hcore]
  have hrefused : Refused s ↔ Refused s' := by
    rw [refused_iff, refused_iff, hfolded]
  by_cases hs : Refused s
  · rw [computeDomainHash_of_refused hs, computeDomainHash_of_refused (hrefused.1 hs)]
  · rw [computeDomainHash_of_not_refused hs, computeDomainHash_of_not_refused (mt hrefused.2 hs), hfolded]

theorem idempotent_of_refused (h : Refused s) : Idempotent s := by
  intro n hn
  rw [normalizeFqdn_of_refused h] at hn
  cases hn

theorem SameDomain.symm (h : SameDomain dep s s') : SameDomain dep s' s :=
  ⟨h.idempotent', h.idempotent, h.hash.symm⟩

/-- A spelling that is not tidy has to be refused, and then the other one is. -/
theorem SameDomain.refused (h : SameDomain dep s s') (htidy : ¬Tidy s) : Refused s ∧ Refused s' := by
  have hs : Refused s := by
    by_contra hs
    exact not_idempotent htidy hs h.idempotent
  refine ⟨hs, ?_⟩
  by_contra hs'
  have hhash := h.hash
  rw [computeDomainHash_of_refused hs, computeDomainHash_of_not_refused hs'] at hhash
  cases hhash

end Law

/-- **Spellings of a domain have one hash** and are normalized once and for all exactly if both end in
one dot at most, white space apart, or both are refused. -/
theorem sameDomain_iff (dep : Deployment) (s s' : Text) (h : Alike s s') :
    SameDomain dep s s' ↔ Tidy s ∧ Tidy s' ∨ Refused s ∧ Refused s' := by
  constructor
  · intro hsame
    by_cases hs : Tidy s
    · by_cases hs' : Tidy s'
      · exact .inl ⟨hs, hs'⟩
      · exact .inr (hsame.symm.refused hs').symm
    · exact .inr (hsame.refused hs)
  · rintro (⟨hs, hs'⟩ | ⟨hs, hs'⟩)
    · exact ⟨idempotent_of_tidy hs, idempotent_of_tidy hs',
        computeDomainHash_of_tidy (core_eq_of_alike h) hs hs'⟩
    · refine ⟨idempotent_of_refused hs, idempotent_of_refused hs', ?_⟩
      rw [computeDomainHash_of_refused hs, computeDomainHash_of_refused hs']

/-- A deployment that hashes to the number of bytes. -/
def exampleDeployment : Deployment where
  sha256 bytes := bytes.length
  canSign _ := false
  treasuryAuthority := Pubkey.default
  treasuryAuthority_canSign := rfl

/-- A blank in front and a capital letter; a dot. -/
theorem exampleNames_sameDomain : SameDomain exampleDeployment [' ', 'A'] ['a', '.'] := by
  have hfront : Alike ['A'] [' ', 'A'] := .rel _ _ (.front rfl)
  have hcase : Alike ['A'] ['a'] := .rel _ _ (.case rfl)
  have hdot : Alike ['a'] ['a', '.'] := .rel _ _ .dot
  exact (sameDomain_iff exampleDeployment _ _
    (.trans _ _ _ (.symm _ _ hfront) (.trans _ _ _ hcase hdot))).2 (.inl ⟨.inl rfl, .inr rfl⟩)

/-- A second dot stays, and is taken off the next time. -/
theorem exampleNames_not_sameDomain :
    Alike ['a'] ['a', '.', '.'] ∧ ¬SameDomain exampleDeployment ['a'] ['a', '.', '.'] := by
  refine ⟨.trans _ ['a', '.'] _ (.rel _ _ .dot) (.rel _ _ .dot), fun h => ?_⟩
  have hagain := h.idempotent' ['a', '.'] (by decide +kernel)
  revert hagain
  decide +kernel

end Ddns.Rewards
