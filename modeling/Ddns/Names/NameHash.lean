import Ddns.Core.Normalize
import Ddns.Names.Text

/-!
# Hashes of names

Five parts of the system derive the hash of a `.dns` name from the text that they are given: the
adapters of the gateway (`adapters/types.ts`), the toll booth, the witness gateway, the escrow scripts
and the names program. A definition without a docstring is the item of the source with the same words
in its name.
-/

namespace Ddns.Names.NameHash

open Core.Registry (Naming encodeLabel stripDot)
open JsText (isDot join)

/-! ## Model -/

/-- The labels of a domain are encoded. -/
def encodeDomain (encode : JsText → JsText) (domain : JsText) : JsText :=
  join ['.'] ((domain.splitOnP isDot).map (encodeLabel encode))

/-- The hash, and what `punycode.toASCII` makes of a mail address: the part before the first `@` is
kept, the next one encoded, and the others are dropped. -/
structure Platform extends Naming where
  toASCII_mail : ∀ t mailbox domain dropped, t.splitOn '@' = mailbox :: domain :: dropped →
    toASCII t = mailbox ++ '@' :: encodeDomain encode domain
  sha256 : List UInt8 → List UInt8

/-- `normalizeNameForHash` of the adapters. -/
def normalizeNameForHash (p : Platform) (name : JsText) : JsText :=
  let trimmed := stripDot (JsText.trim name)
  let lowered := p.toLowerCase trimmed
  p.toASCII lowered

def nameHashBytes (p : Platform) (name : JsText) : List UInt8 :=
  p.sha256 (JsText.utf8 (normalizeNameForHash p name))

/-- `normalizeFullName` of the toll booth. -/
def normalizeFullName (p : Platform) (name : JsText) : JsText :=
  let n := p.toLowerCase (JsText.trim name)
  if dnsSuffix <:+ n then n else n ++ dnsSuffix

def nameHashFromFullName (p : Platform) (fullNameLower : JsText) : List UInt8 :=
  p.sha256 (JsText.utf8 fullNameLower)

/-- `normalizeName` of the witness gateway. -/
def normalizeName (p : Platform) (input : JsText) : JsText :=
  let s0 := p.toLowerCase (JsText.trim input)
  if s0.getLast? = some '.' then s0.dropLast else s0

def isValidDnsLabel (label : JsText) : Bool :=
  let length := (JsText.codeUnits label).length
  if length < 3 || 32 < length then false
  else if label.head? = some '-' || label.getLast? = some '-' then false
  else label.all isLabelChar

inductive WitnessError where
  | invalidDnsLabelRules
  | invalidFqdnLength
  deriving DecidableEq

def normalizeAndValidateName (p : Platform) (name : JsText) : Except WitnessError JsText :=
  let n := normalizeName p name
  if dnsSuffix <:+ n then
    let label := n.take (n.length - 4)
    if isValidDnsLabel label then .ok n else .error .invalidDnsLabelRules
  else
    let length := (JsText.codeUnits n).length
    if length < 1 ∨ 253 < length then .error .invalidFqdnLength else .ok n

/-- Other names throw. -/
def nameHashFromDnsName (p : Platform) (name : JsText) : Option (List UInt8) :=
  let norm := p.toLowerCase (JsText.trim name)
  if dnsSuffix <:+ norm then some (p.sha256 (JsText.utf8 norm)) else none

/-- `hash_name` of the program. -/
def hashName (p : Platform) (value : JsText) : List UInt8 := p.sha256 (asBytes value)

inductive Service where
  | gateway
  | tollbooth
  | witnessGateway
  | escrowScripts
  | names
  deriving DecidableEq

/-- The hash that a service derives from a text that it takes for a `.dns` name. -/
def nameHash (p : Platform) (name : JsText) : Service → Option (List UInt8)
  | .gateway => if dnsSuffix <:+ normalizeNameForHash p name then some (nameHashBytes p name) else none
  | .tollbooth => some (nameHashFromFullName p (normalizeFullName p name))
  | .witnessGateway =>
    match normalizeAndValidateName p name with
    | .ok n => if dnsSuffix <:+ n then some (p.sha256 (JsText.utf8 n)) else none
    | .error _ => none
  | .escrowScripts => nameHashFromDnsName p name
  | .names =>
    match Names.normalizeFullName name with
    | .ok n => if dnsSuffix <:+ n then some (hashName p n) else none
    | .error _ => none

/-! ## The law -/

/-- The services that take the text for a `.dns` name derive the same hash. -/
def Agree (p : Platform) (name : JsText) : Prop :=
  ∀ a b h h', nameHash p name a = some h → nameHash p name b = some h' → h = h'

/-- `dns` behind a point of any script. -/
def EndsInDns (domain : JsText) : Prop := ∃ c, isDot c = true ∧ [c, 'd', 'n', 's'] <:+ domain

/-- What is encoded of the name looks like a `.dns` name. -/
def DnsDomain (name : JsText) : Prop :=
  match name.splitOn '@' with
  | [domain] => EndsInDns domain
  | _ :: domain :: _ => EndsInDns domain
  | [] => False

/-- What is encoded of the name is in ASCII; if parts of it are dropped, what is encoded does not look
like a `.dns` name. -/
def AsciiDomain (name : JsText) : Prop :=
  match name.splitOn '@' with
  | [domain] => ∀ c ∈ domain, c.toNat < 128
  | [_, domain] => ∀ c ∈ domain, c.toNat < 128
  | _ :: domain :: _ => ¬EndsInDns domain
  | [] => True

/-- What the program leaves of a text. -/
def registered (name : JsText) : JsText :=
  (toAsciiLowercase (Names.trim name)).rdropWhile (· = '.')

/-- The program takes the text for a `.dns` name. -/
def Registrable (name : JsText) : Prop :=
  dnsSuffix <:+ registered name ∧ len (registered name) ≤ 253 ∧ ¬['.', '.'] <:+: registered name

/-- The program trims the text as the services do, and its name has no letter outside ASCII that has a
lower case. -/
structure ReadAlike (p : Platform) (name : JsText) : Prop where
  trim : Names.trim name = JsText.trim name
  lower : ∀ c ∈ JsText.trim name, 128 ≤ c.toNat → ¬p.lower.Changes c

/-- The text, trimmed and in lower case, ends in `.dns` and is read alike; or it does not, and only the
toll booth takes it for a `.dns` name. -/
def ReadAsOne (p : Platform) (name : JsText) : Prop :=
  let trimmed := JsText.trim name
  let lowered := p.toLowerCase trimmed
  if dnsSuffix <:+ lowered then
    AsciiDomain lowered ∧ (Registrable name → ReadAlike p name)
  else
    ¬DnsDomain (p.toLowerCase (stripDot trimmed)) ∧
      (∀ label, isValidDnsLabel label = true → lowered ≠ label ++ dnsSuffix ++ ['.']) ∧
      ¬Registrable name

/-! ## Normal forms -/

/-- The text that is hashed. -/
def normalForm (p : Platform) (name : JsText) : Service → Option JsText
  | .gateway => some (normalizeNameForHash p name)
  | .tollbooth => some (normalizeFullName p name)
  | .witnessGateway => (normalizeAndValidateName p name).toOption
  | .escrowScripts => some (p.toLowerCase (JsText.trim name))
  | .names =>
    match Names.normalizeFullName name with
    | .ok n => some n
    | .error _ => none

variable {p : Platform} {name : JsText}

theorem suffix_normalizeFullName : dnsSuffix <:+ normalizeFullName p name := by
  unfold normalizeFullName
  dsimp only
  split
  · assumption
  · exact List.suffix_append _ _

theorem nameHash_eq_some_iff {svc : Service} {h : List UInt8} : nameHash p name svc = some h ↔
    ∃ n, normalForm p name svc = some n ∧ dnsSuffix <:+ n ∧ p.sha256 (JsText.utf8 n) = h := by
  cases svc with
  | gateway => simp [nameHash, normalForm, nameHashBytes]
  | tollbooth =>
    have hsuffix : dnsSuffix <:+ normalizeFullName p name := suffix_normalizeFullName
    simp [nameHash, normalForm, nameHashFromFullName, hsuffix]
  | witnessGateway =>
    cases hn : normalizeAndValidateName p name with
    | error e => simp [nameHash, normalForm, hn, Except.toOption]
    | ok n => simp [nameHash, normalForm, hn, Except.toOption]
  | escrowScripts => simp [nameHash, normalForm, nameHashFromDnsName]
  | names =>
    cases hn : Names.normalizeFullName name with
    | error e => simp [nameHash, normalForm, hn]
    | ok n =>
      simp only [nameHash, normalForm, hn, Option.ite_none_right_eq_some, Option.some.injEq,
        exists_eq_left', hashName]
      rfl

/-- The texts that are hashed for one text have different hashes, if they are different. -/
def CollisionFree (p : Platform) (name : JsText) : Prop :=
  ∀ a b n n', normalForm p name a = some n → normalForm p name b = some n' →
    p.sha256 (JsText.utf8 n) = p.sha256 (JsText.utf8 n') → n = n'

/-- The services agree exactly if every `.dns` name that is hashed is that of the toll booth. -/
theorem agree_iff (hsha : CollisionFree p name) : Agree p name ↔
    ∀ svc n, normalForm p name svc = some n → dnsSuffix <:+ n → n = normalizeFullName p name := by
  have htollbooth : nameHash p name .tollbooth =
    some (p.sha256 (JsText.utf8 (normalizeFullName p name))) := rfl
  constructor
  · intro h svc n hn hsuffix
    have hhash := h svc .tollbooth _ _ (nameHash_eq_some_iff.2 ⟨n, hn, hsuffix, rfl⟩) htollbooth
    exact hsha svc .tollbooth n _ hn rfl hhash
  · intro h a b x y hx hy
    obtain ⟨n, hn, hsuffix, rfl⟩ := nameHash_eq_some_iff.1 hx
    obtain ⟨n', hn', hsuffix', rfl⟩ := nameHash_eq_some_iff.1 hy
    rw [h a n hn hsuffix, h b n' hn' hsuffix']

/-! ## Points -/

theorem dots_lower (p : Platform) (t : JsText) :
    (p.toLowerCase t).countP isDot = t.countP isDot := by
  rw [p.toLowerCase_eq]
  exact JsText.Casing.countP_dot_run p.lower [] t []

/-- An encoded label has no points. -/
theorem dots_encodeLabel {l : JsText} (h : ∀ c ∈ l, isDot c = false) :
    (encodeLabel p.encode l).countP isDot = 0 := by
  refine List.countP_eq_zero.2 fun c hc hdot => ?_
  unfold encodeLabel at hc
  split at hc
  · exact absurd hdot (by rw [h c hc]; decide)
  · rcases List.mem_append.1 hc with hc | hc
    · have hprefix : (Core.Registry.acePrefix.all fun c => !isDot c) = true := by decide
      have hnot := List.all_eq_true.1 hprefix c hc
      rw [hdot] at hnot
      exact absurd hnot (by decide)
    · rcases p.mark_encode l c hc (JsText.isMark_of_dot hdot) with hmem | rfl
      · exact absurd hdot (by rw [h c hmem]; decide)
      · exact absurd hdot (by decide)

/-- A domain keeps the number of its points. -/
theorem dots_encodeDomain (domain : JsText) :
    (encodeDomain p.encode domain).countP isDot = domain.countP isDot := by
  have hlabels {q : Char → Bool} (t : JsText) : (t.splitOnP q).length = t.countP q + 1 := by
    induction t with
    | nil => rfl
    | cons c t ih =>
      rw [List.splitOnP_cons_eq_if_modifyHead]
      split
      · rename_i hc
        rw [List.length_cons, ih, List.countP_cons_of_pos hc]
      · rename_i hc
        rw [List.length_modifyHead, ih, List.countP_cons_of_neg hc]
  have hjoin (ls : List JsText) (hne : ls ≠ []) (hls : ∀ l ∈ ls, l.countP isDot = 0) :
      (join ['.'] ls).countP isDot + 1 = ls.length := by
    induction ls with
    | nil => exact absurd rfl hne
    | cons l ls ih =>
      by_cases hnil : ls = []
      · subst hnil
        have hl := hls l List.mem_cons_self
        simp [join, hl]
      · rw [JsText.join_cons hnil, List.countP_append, List.countP_append,
          hls l List.mem_cons_self]
        have hrest := ih hnil fun l' hl' => hls l' (List.mem_cons_of_mem l hl')
        rw [List.length_cons, ← hrest, show (['.'] : JsText).countP isDot = 1 by decide]
        omega
  have hencoded := hjoin ((domain.splitOnP isDot).map (encodeLabel p.encode))
    (by simp) (by
      intro x hx
      obtain ⟨l, hl, rfl⟩ := List.mem_map.1 hx
      exact dots_encodeLabel fun c hc => JsText.of_mem_splitOnP hl hc)
  rw [List.length_map, hlabels] at hencoded
  exact Nat.succ.inj hencoded

/-! ## Encoded domains -/

theorem ascii_encodeDomain {domain : JsText} :
    ∀ c ∈ encodeDomain p.encode domain, c.toNat < 128 := by
  intro c hc
  rcases JsText.mem_join hc with hdot | ⟨l, hl, hcl⟩
  · rw [List.mem_singleton.1 hdot]
    decide
  · obtain ⟨l, -, rfl⟩ := List.mem_map.1 hl
    exact @Core.Registry.ascii_encodeLabel p.toNaming l c hcl

/-- **A domain is its own code** exactly if it is in ASCII. -/
theorem encodeDomain_eq_iff {domain : JsText} :
    encodeDomain p.encode domain = domain ↔ ∀ c ∈ domain, c.toNat < 128 := by
  constructor
  · intro h c hc
    rw [← h] at hc
    exact ascii_encodeDomain c hc
  · intro h
    have hdots : domain.splitOnP isDot = domain.splitOn '.' := by
      rw [List.splitOn_eq_splitOnP]
      refine JsText.splitOnP_congr fun c hc => ?_
      have hlt := h c hc
      rw [Bool.eq_iff_iff, beq_iff_eq]
      constructor
      · intro hdot
        simp only [isDot, Bool.or_eq_true, decide_eq_true_eq] at hdot
        apply Char.toNat_inj.1
        have hcode : '.'.toNat = 46 := rfl
        omega
      · rintro rfl
        rfl
    have hjoin : join ['.'] (domain.splitOn '.') = domain := List.intercalate_splitOn '.'
    have hlabels : (domain.splitOnP isDot).map (encodeLabel p.encode) = domain.splitOnP isDot := by
      conv_rhs => rw [← List.map_id (domain.splitOnP isDot)]
      refine List.map_congr_left fun l hl => Core.Registry.encodeLabel_ascii fun c hc => ?_
      rw [hdots] at hl
      exact h c (hjoin ▸ JsText.mem_join_of_mem hl hc)
    rw [encodeDomain, hlabels, hdots, hjoin]

theorem encodeLabel_eq_dns_iff {l : JsText} :
    encodeLabel p.encode l = ['d', 'n', 's'] ↔ l = ['d', 'n', 's'] := by
  constructor
  · intro h
    unfold encodeLabel at h
    split at h
    · exact h
    · cases h
  · rintro rfl
    exact Core.Registry.encodeLabel_ascii (Core.Registry.isAscii_iff.1 (by decide))

/-- A domain is encoded as a `.dns` name exactly if it ends in `dns` behind some point. -/
theorem suffix_encodeDomain_iff {domain : JsText} :
    dnsSuffix <:+ encodeDomain p.encode domain ↔ EndsInDns domain := by
  constructor
  · intro h
    rcases JsText.exists_last_separator isDot domain with hnone | ⟨t, c, r, rfl, hc, hr⟩
    · -- one label has no point
      have hdot := (List.Sublist.countP_le (p := isDot) h.sublist)
      have hzero : domain.countP isDot = 0 :=
        List.countP_eq_zero.2 fun c hc => by rw [hnone c hc]; decide
      rw [dots_encodeDomain, hzero] at hdot
      exact absurd hdot (by decide)
    · refine ⟨c, hc, t, ?_⟩
      have hlabel : '.' ∉ encodeLabel p.encode r :=
        @Core.Registry.dot_notMem_encodeLabel p.toNaming r hr
      rw [encodeDomain, List.splitOnP_append_cons t r hc, List.splitOnP_eq_singleton hr,
        List.map_append, List.map_singleton, JsText.join_concat _ (by simp)] at h
      have hlast : ['d', 'n', 's'] = encodeLabel p.encode r := by
        obtain ⟨u, hu⟩ := h
        have hsplit : u ++ '.' :: ['d', 'n', 's'] =
          join ['.'] ((t.splitOnP isDot).map (encodeLabel p.encode)) ++
            '.' :: encodeLabel p.encode r := by simpa [dnsSuffix] using hu
        have hreverse : ['d', 'n', 's'].reverse ++ '.' :: u.reverse =
          (encodeLabel p.encode r).reverse ++
            '.' :: (join ['.'] ((t.splitOnP isDot).map (encodeLabel p.encode))).reverse := by
          simpa using congrArg List.reverse hsplit
        have hboth := JsText.split_unique (by decide) (by simpa using hlabel) hreverse
        exact List.reverse_injective hboth.1
      rw [encodeLabel_eq_dns_iff.1 hlast.symm]
  · rintro ⟨c, hc, t, rfl⟩
    have hdns : (['d', 'n', 's'] : JsText).splitOnP isDot = [['d', 'n', 's']] := rfl
    rw [encodeDomain, List.splitOnP_append_cons t ['d', 'n', 's'] hc, hdns, List.map_append,
      List.map_singleton, JsText.join_concat _ (by simp), encodeLabel_eq_dns_iff.2 rfl]
    exact List.suffix_append _ _

/-! ## Encoded names -/

/-- A name is a part that is kept, up to `@`, a domain and a part that is dropped, from `@` on. -/
structure Parts (p : Platform) (t pre domain post : JsText) : Prop where
  eq : t = pre ++ (domain ++ post)
  toASCII_eq : p.toASCII t = pre ++ encodeDomain p.encode domain
  pre_at : ∀ c ∈ pre.getLast?, c = '@'
  post_at : ∀ c ∈ post.head?, c = '@'
  domain_at : '@' ∉ domain
  dnsDomain_iff : DnsDomain t ↔ EndsInDns domain
  asciiDomain_iff : AsciiDomain t ↔
    if post = [] then ∀ c ∈ domain, c.toNat < 128 else ¬EndsInDns domain

theorem exists_parts (p : Platform) (t : JsText) : ∃ pre domain post, Parts p t pre domain post := by
  have hjoin : join ['@'] (t.splitOn '@') = t := List.intercalate_splitOn '@'
  have hat (l : JsText) (hl : l ∈ t.splitOn '@') : '@' ∉ l := by
    intro hmem
    rw [List.splitOn_eq_splitOnP] at hl
    exact absurd (JsText.of_mem_splitOnP hl hmem) (by decide)
  cases hsplit : t.splitOn '@' with
  | nil =>
    rw [List.splitOn_eq_splitOnP] at hsplit
    exact absurd hsplit (List.splitOnP_ne_nil _ t)
  | cons mailbox rest =>
    cases rest with
    | nil =>
      obtain rfl : t = mailbox := by
        rw [← hjoin, hsplit]
        simp [join]
      have hnone : '@' ∉ t := hat t (by rw [hsplit]; exact List.mem_cons_self)
      refine ⟨[], t, [], by simp, p.toASCII_eq t hnone, by simp, by simp, hnone, ?_, ?_⟩
      · unfold DnsDomain
        rw [hsplit]
      · unfold AsciiDomain
        rw [hsplit, if_pos rfl]
    | cons domain dropped =>
      have hdomain : '@' ∉ domain := hat domain (by rw [hsplit]; simp)
      have hASCII : p.toASCII t = (mailbox ++ ['@']) ++ encodeDomain p.encode domain := by
        rw [p.toASCII_mail t mailbox domain dropped hsplit]
        simp
      rw [hsplit, JsText.join_cons (List.cons_ne_nil _ _)] at hjoin
      cases dropped with
      | nil =>
        refine ⟨mailbox ++ ['@'], domain, [], ?_, hASCII, by simp, by simp, hdomain, ?_, ?_⟩
        · rw [← hjoin]
          simp [join]
        · unfold DnsDomain
          rw [hsplit]
        · unfold AsciiDomain
          rw [hsplit, if_pos rfl]
      | cons next dropped =>
        rw [JsText.join_cons (List.cons_ne_nil _ _)] at hjoin
        refine ⟨mailbox ++ ['@'], domain, ['@'] ++ join ['@'] (next :: dropped), ?_, hASCII, by simp,
          by simp, hdomain, ?_, ?_⟩
        · rw [← hjoin]
          simp
        · unfold DnsDomain
          rw [hsplit]
        · unfold AsciiDomain
          rw [hsplit, if_neg (by simp)]

theorem dots_toASCII_le (p : Platform) (t : JsText) :
    (p.toASCII t).countP isDot ≤ t.countP isDot := by
  obtain ⟨pre, domain, post, hparts⟩ := exists_parts p t
  rw [hparts.toASCII_eq, List.countP_append, dots_encodeDomain, hparts.eq, List.countP_append,
    List.countP_append]
  omega

/-- Behind a part up to `@`, the suffix is one of what follows. -/
theorem suffix_append_at {pre t : JsText} (h : ∀ c ∈ pre.getLast?, c = '@') :
    dnsSuffix <:+ pre ++ t ↔ dnsSuffix <:+ t := by
  refine ⟨fun hsuffix => ?_, fun hsuffix => hsuffix.trans (List.suffix_append _ _)⟩
  rcases List.suffix_or_suffix_of_suffix hsuffix (List.suffix_append pre t) with hshort | ⟨u, hu⟩
  · exact hshort
  rcases List.eq_nil_or_concat u with rfl | ⟨v, c, rfl⟩
  · rw [← hu]
    exact List.suffix_rfl
  · -- the last character in front is one of the suffix
    obtain ⟨w, hw⟩ := hsuffix
    rw [← hu, ← List.append_assoc] at hw
    have hpre := List.append_cancel_right hw
    have hlast : pre.getLast? = some c := by
      rw [← hpre, List.concat_eq_append, ← List.append_assoc, List.getLast?_concat]
    have hc : c ∈ dnsSuffix := by
      rw [← hu]
      simp
    rw [h c hlast] at hc
    exact absurd hc (by decide)

theorem at_encodeDomain {domain : JsText} (h : '@' ∉ domain) :
    '@' ∉ encodeDomain p.encode domain := by
  intro hat
  rcases JsText.mem_join hat with hdot | ⟨x, hx, hmem⟩
  · exact absurd hdot (by decide)
  obtain ⟨l, hl, rfl⟩ := List.mem_map.1 hx
  have hl' : '@' ∉ l := fun hmem' => h (JsText.mem_of_mem_splitOnP hl hmem')
  unfold encodeLabel at hmem
  split at hmem
  · exact hl' hmem
  · rcases List.mem_append.1 hmem with hmem | hmem
    · exact absurd hmem (by decide)
    · exact (p.mark_encode l '@' hmem (by decide)).elim hl' (by decide)

/-- What the gateway takes for a `.dns` name. -/
theorem suffix_toASCII_iff (t : JsText) : dnsSuffix <:+ p.toASCII t ↔ DnsDomain t := by
  obtain ⟨pre, domain, post, hparts⟩ := exists_parts p t
  rw [hparts.dnsDomain_iff, hparts.toASCII_eq, suffix_append_at hparts.pre_at,
    suffix_encodeDomain_iff]

/-- **A `.dns` name is hashed as it is** by the gateway, if at all, exactly if its domain is in
ASCII. -/
theorem toASCII_eq_iff {t : JsText} (ht : dnsSuffix <:+ t) :
    (dnsSuffix <:+ p.toASCII t → p.toASCII t = t) ↔ AsciiDomain t := by
  obtain ⟨pre, domain, post, hparts⟩ := exists_parts p t
  rw [hparts.asciiDomain_iff, hparts.toASCII_eq, suffix_append_at hparts.pre_at,
    suffix_encodeDomain_iff]
  by_cases hpost : post = []
  · subst hpost
    rw [if_pos rfl]
    have heq := hparts.eq
    rw [List.append_nil] at heq
    have hsuffix : dnsSuffix <:+ domain := by
      rw [heq] at ht
      exact (suffix_append_at hparts.pre_at).1 ht
    have hends : EndsInDns domain := ⟨'.', by decide, hsuffix⟩
    conv_lhs => rw [heq]
    rw [List.append_cancel_left_eq, encodeDomain_eq_iff]
    exact ⟨fun h => h hends, fun h _ => h⟩
  · rw [if_neg hpost]
    refine forall_congr' fun _ => iff_false_intro fun heq => ?_
    -- the `@` behind the domain is dropped
    have hcount := congrArg (List.count '@') heq
    obtain ⟨c, post, rfl⟩ := List.exists_cons_of_ne_nil hpost
    obtain rfl := hparts.post_at c rfl
    rw [List.count_append, List.count_eq_zero.2 (at_encodeDomain hparts.domain_at), hparts.eq,
      List.count_append, List.count_append, List.count_cons_self] at hcount
    omega

end Ddns.Names.NameHash
