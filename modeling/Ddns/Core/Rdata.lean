import Ddns.Core.Bytes
import Ddns.Lib.NumberText
import Ddns.Lib.Results

/-!
# Addresses

The texts of IPv4 and IPv6 addresses and their bytes (`core/src/rr_helpers.ts`). The parsers split a
text and convert its parts with `Number` and `parseInt`, which read much that is no address.
`addresses_iff` says exactly which texts the parsers treat as the grammar does.
-/

namespace Ddns.Core

open NumberText Results

/-! ## Model -/

inductive RdataError where
  | invalidIpv4
  | invalidIpv6
  deriving DecidableEq, Repr

/-- A byte, if the number is one. -/
def octet (n : JsNum) : Except RdataError UInt8 :=
  if n.isUint 255 = false then .error .invalidIpv4 else .ok (UInt8.ofNat (n.toUint 8))

def rrA (ipv4 : JsText) : Except RdataError (List UInt8) :=
  let parts := (ipv4.splitOn '.').map ofText
  if parts.length ≠ 4 then .error .invalidIpv4 else parts.mapM octet

/-- `text.split("::")` -/
def splitColons : JsText → List JsText
  | ':' :: ':' :: t => [] :: splitColons t
  | c :: t => (splitColons t).modifyHead (c :: ·)
  | [] => [[]]

/-- `piece.split(":").filter(Boolean)`, which is empty for an empty piece. -/
def colonParts (piece : JsText) : List JsText := (piece.splitOn ':').filter (· ≠ [])

/-- The two bytes of a part. -/
def group (p : JsText) : Except RdataError (List UInt8) :=
  match parseHex p with
  | none => .error .invalidIpv6
  | some val =>
    if val < 0 ∨ val > 0xffff then .error .invalidIpv6
    else .ok [UInt8.ofNat (val.toNat / 256), UInt8.ofNat (val.toNat % 256)]

/-- Only the first two pieces are looked at. -/
def rrAAAA (ipv6 : JsText) : Except RdataError (List UInt8) :=
  let pieces := splitColons ipv6
  let leftParts := colonParts (pieces.getD 0 [])
  let rightParts := colonParts (pieces.getD 1 [])
  if leftParts.length + rightParts.length > 8 then .error .invalidIpv6
  else
    let zerosToInsert := 8 - (leftParts.length + rightParts.length)
    let parts := leftParts ++ (List.replicate zerosToInsert ['0'] ++ rightParts)
    if parts.length ≠ 8 then .error .invalidIpv6
    else (parts.mapM group).map List.flatten

/-! ## Grammar -/

/-- A decimal octet: up to three digits. -/
def IsOctet (p : JsText) (n : ℕ) : Prop := p.length ≤ 3 ∧ digits 10 p = some n ∧ n ≤ 255

/-- The text is four decimal octets with points between them, and denotes the address. -/
def Denotes4 (t : JsText) (addr : List UInt8) : Prop :=
  ∃ ps ns, ps.length = 4 ∧ List.Forall₂ IsOctet ps ns ∧ t = JsText.join ['.'] ps ∧
    addr = ns.map UInt8.ofNat

/-- A group: up to four hexadecimal digits. -/
def IsGroup (p : JsText) (n : ℕ) : Prop := p.length ≤ 4 ∧ digits 16 p = some n

/-- The bytes of groups. -/
def groupBytes (ns : List ℕ) : List UInt8 :=
  ns.flatMap fun n => [UInt8.ofNat (n / 256), UInt8.ofNat (n % 256)]

/-- The text is eight groups, or fewer with one `::`, which stands for groups of zeros. -/
inductive Denotes16 : JsText → List UInt8 → Prop
  | full {ps : List JsText} {ns : List ℕ} (groups : List.Forall₂ IsGroup ps ns)
      (eight : ps.length = 8) : Denotes16 (JsText.join [':'] ps) (groupBytes ns)
  | short {ls rs : List JsText} {ns ms : List ℕ} (left : List.Forall₂ IsGroup ls ns)
      (right : List.Forall₂ IsGroup rs ms) (fewer : ls.length + rs.length < 8) :
      Denotes16 (JsText.join [':'] ls ++ ':' :: ':' :: JsText.join [':'] rs)
        (groupBytes (ns ++ (List.replicate (8 - (ls.length + rs.length)) 0 ++ ms)))

/-! ## IPv4 -/

section A

variable {t p : JsText} {n : ℕ} {addr : List UInt8}

/-- `Number` reads a byte. -/
def ReadsOctet (p : JsText) (n : ℕ) : Prop := n ≤ 255 ∧ ofText p = .fin n

/-- `Number` reads the four parts of the text as bytes. -/
def Reads4 (t : JsText) : Prop :=
  (t.splitOn '.').length = 4 ∧ ∀ p ∈ t.splitOn '.', ∃ n, ReadsOctet p n

/-- The byte that `Number` reads. -/
def octetVal (p : JsText) : ℕ := (ofText p).toUint 8

theorem octetVal_of_reads (h : ReadsOctet p n) : octetVal p = n := by
  rw [octetVal, h.2, JsNum.toUint_natCast]
  exact Nat.mod_eq_of_lt (Nat.lt_succ_of_le h.1)

theorem octet_eq_ok_iff {b : UInt8} :
    octet (ofText p) = .ok b ↔ ∃ n, ReadsOctet p n ∧ b = UInt8.ofNat n := by
  rw [octet, else_eq_ok_iff, Bool.not_eq_false, JsNum.isUint_iff]
  constructor
  · rintro ⟨⟨n, hn, hp⟩, hb⟩
    have hreads : ReadsOctet p n := ⟨hn, hp⟩
    refine ⟨n, hreads, ?_⟩
    rw [← octetVal_of_reads hreads]
    exact (Except.ok.inj hb).symm
  · rintro ⟨n, hreads, rfl⟩
    refine ⟨⟨n, hreads⟩, ?_⟩
    rw [← octetVal_of_reads hreads]
    rfl

theorem rrA_eq_ok_iff : rrA t = .ok addr ↔
    Reads4 t ∧ addr = (t.splitOn '.').map fun p => UInt8.ofNat (octetVal p) := by
  have hvalue (hreads : ∀ p ∈ t.splitOn '.', ∃ n, ReadsOctet p n) :
      ((t.splitOn '.').map ofText).mapM octet =
        .ok ((t.splitOn '.').map fun p => UInt8.ofNat (octetVal p)) := by
    rw [List.mapM_map]
    refine mapM_eq_map fun p hp => ?_
    obtain ⟨n, hn⟩ := hreads p hp
    exact octet_eq_ok_iff.2 ⟨n, hn, by rw [octetVal_of_reads hn]⟩
  rw [rrA, else_eq_ok_iff, not_not, List.length_map]
  constructor
  · rintro ⟨hlength, hok⟩
    have hreads (p : JsText) (hp : p ∈ t.splitOn '.') : ∃ n, ReadsOctet p n := by
      obtain ⟨b, hb⟩ := mapM_ok_iff.1 ⟨addr, hok⟩ (ofText p) (List.mem_map_of_mem hp)
      obtain ⟨n, hn, -⟩ := octet_eq_ok_iff.1 hb
      exact ⟨n, hn⟩
    exact ⟨⟨hlength, hreads⟩, Except.ok.inj (hok.symm.trans (hvalue hreads))⟩
  · rintro ⟨⟨hlength, hreads⟩, rfl⟩
    exact ⟨hlength, hvalue hreads⟩

theorem IsOctet.reads (h : IsOctet p n) : ReadsOctet p n := by
  refine ⟨h.2.2, ?_⟩
  have hexact := Rounding.nearest_intCast (n := n) (by
    rw [abs_of_nonneg (Int.natCast_nonneg n)]
    have hn := h.2.2
    omega)
  rw [ofText_digits h.2.1]
  exact hexact

theorem octets_iff {ps : List JsText} {ns : List ℕ} : List.Forall₂ IsOctet ps ns ↔
    (∀ p ∈ ps, IsOctet p (octetVal p)) ∧ ns = ps.map octetVal :=
  forall₂_iff_map fun _ _ h => octetVal_of_reads h.reads

/-- The texts that denote an address, by their parts. -/
theorem denotes4_iff : Denotes4 t addr ↔ (t.splitOn '.').length = 4 ∧
    (∀ p ∈ t.splitOn '.', ∃ n, IsOctet p n) ∧
    addr = (t.splitOn '.').map fun p => UInt8.ofNat (octetVal p) := by
  constructor
  · rintro ⟨ps, ns, hlength, hoctets, rfl, rfl⟩
    obtain ⟨hall, rfl⟩ := octets_iff.1 hoctets
    have hsplit : (JsText.join ['.'] ps).splitOn '.' = ps := by
      refine List.splitOn_intercalate '.' (fun p hp => ?_) (by rintro rfl; cases hlength)
      exact not_mem_digits (hall p hp).2.1 (by decide)
    rw [hsplit]
    exact ⟨hlength, fun p hp => ⟨_, hall p hp⟩, List.map_map ..⟩
  · rintro ⟨hlength, hall, rfl⟩
    have hoctets (p : JsText) (hp : p ∈ t.splitOn '.') : IsOctet p (octetVal p) := by
      obtain ⟨n, hn⟩ := hall p hp
      rwa [octetVal_of_reads hn.reads]
    refine ⟨t.splitOn '.', (t.splitOn '.').map octetVal, hlength, octets_iff.2 ⟨hoctets, rfl⟩,
      (List.intercalate_splitOn '.').symm, ?_⟩
    rw [List.map_map]
    rfl

/-- The parts are read as bytes, and one of them is no decimal octet. -/
structure Sloppy4 (t : JsText) : Prop where
  reads : Reads4 t
  part : ∃ p ∈ t.splitOn '.', ¬∃ n, IsOctet p n

/-- `rrA` accepts what denotes an address, and nothing else, exactly if the text is not sloppy. -/
theorem rrA_meets_iff : (∀ addr, rrA t = .ok addr ↔ Denotes4 t addr) ↔ ¬Sloppy4 t := by
  constructor
  · rintro h ⟨hreads, p, hp, hnone⟩
    obtain ⟨-, hall, -⟩ := denotes4_iff.1 ((h _).1 (rrA_eq_ok_iff.2 ⟨hreads, rfl⟩))
    exact hnone (hall p hp)
  · intro hsloppy addr
    rw [rrA_eq_ok_iff, denotes4_iff]
    constructor
    · rintro ⟨hreads, haddr⟩
      refine ⟨hreads.1, fun p hp => ?_, haddr⟩
      by_contra hnone
      exact hsloppy ⟨hreads, p, hp, hnone⟩
    · rintro ⟨hlength, hall, haddr⟩
      refine ⟨⟨hlength, fun p hp => ?_⟩, haddr⟩
      obtain ⟨n, hn⟩ := hall p hp
      exact ⟨n, hn.reads⟩

end A

/-! ## The pieces of a text -/

section Pieces

variable {t piece p : JsText} {ps : List JsText}

theorem splitColons_ne_nil (t : JsText) : splitColons t ≠ [] := by
  fun_induction splitColons t with
  | case1 t ih => exact List.cons_ne_nil _ _
  | case2 c t h ih => simpa using ih
  | case3 => exact List.cons_ne_nil _ _

theorem splitColons_cons {c : Char} (h : ¬(c = ':' ∧ t.head? = some ':')) :
    splitColons (c :: t) = (splitColons t).modifyHead (c :: ·) := by
  rw [splitColons]
  rintro t' rfl rfl
  exact h ⟨rfl, rfl⟩

/-- The pieces, with `::` between them, are the text. -/
theorem join_splitColons (t : JsText) : JsText.join [':', ':'] (splitColons t) = t := by
  have hcons (c : Char) (ps : List JsText) (h : ps ≠ []) :
      JsText.join [':', ':'] (ps.modifyHead (c :: ·)) = c :: JsText.join [':', ':'] ps := by
    cases ps with
    | nil => exact absurd rfl h
    | cons p ps => cases ps <;> simp [JsText.join, List.intercalate_cons_cons]
  fun_induction splitColons t with
  | case1 t ih =>
    obtain ⟨p, ps, hps⟩ := List.exists_cons_of_ne_nil (splitColons_ne_nil t)
    rw [hps] at ih ⊢
    unfold JsText.join at ih ⊢
    rw [List.intercalate_cons_cons, ih]
    rfl
  | case2 c t h ih => rw [hcons c _ (splitColons_ne_nil t), ih]
  | case3 => rfl

/-- A part has a character, and no colon. -/
def Part (p : JsText) : Prop := p ≠ [] ∧ ':' ∉ p

theorem splitColons_append (hp : ':' ∉ p) (t : JsText) :
    splitColons (p ++ t) = (splitColons t).modifyHead (p ++ ·) := by
  induction p with
  | nil =>
    show splitColons t = (splitColons t).modifyHead fun x => x
    cases splitColons t <;> rfl
  | cons c p ih =>
    rw [List.mem_cons, not_or] at hp
    rw [List.cons_append, splitColons_cons fun h => hp.1 h.1.symm, ih hp.2, List.modifyHead_modifyHead]
    rfl

/-- Parts with colons between them stay in one piece. -/
theorem splitColons_join (hps : ∀ p ∈ ps, Part p) (t : JsText) :
    splitColons (JsText.join [':'] ps ++ t) =
      (splitColons t).modifyHead (JsText.join [':'] ps ++ ·) := by
  induction ps with
  | nil => exact splitColons_append List.not_mem_nil t
  | cons p ps ih =>
    have hp := hps p List.mem_cons_self
    have hrest := ih fun q hq => hps q (List.mem_cons_of_mem p hq)
    cases ps with
    | nil => simpa [JsText.join] using splitColons_append hp.2 t
    | cons q ps =>
      have hjoin : JsText.join [':'] (p :: q :: ps) = p ++ ':' :: JsText.join [':'] (q :: ps) := by
        simp [JsText.join, List.intercalate_cons_cons]
      have hhead : ¬(':' = ':' ∧ (JsText.join [':'] (q :: ps) ++ t).head? = some ':') := by
        obtain ⟨hne, hcolon⟩ := hps q (List.mem_cons_of_mem p List.mem_cons_self)
        obtain ⟨c, q, rfl⟩ := List.exists_cons_of_ne_nil hne
        rintro ⟨-, hhead⟩
        have hc : (JsText.join [':'] ((c :: q) :: ps) ++ t).head? = some c := by
          cases ps <;> simp [JsText.join, List.intercalate_cons_cons]
        rw [hc] at hhead
        exact hcolon (Option.some.inj hhead ▸ List.mem_cons_self)
      rw [hjoin, List.append_assoc, splitColons_append hp.2, List.cons_append,
        splitColons_cons hhead, hrest, List.modifyHead_modifyHead, List.modifyHead_modifyHead]
      congr 1
      funext s
      simp

theorem splitColons_one (hps : ∀ p ∈ ps, Part p) :
    splitColons (JsText.join [':'] ps) = [JsText.join [':'] ps] := by
  have hsplit := splitColons_join hps []
  rw [List.append_nil] at hsplit
  rw [hsplit]
  simp [splitColons]

theorem splitColons_two {qs : List JsText} (hps : ∀ p ∈ ps, Part p) (hqs : ∀ p ∈ qs, Part p) :
    splitColons (JsText.join [':'] ps ++ ':' :: ':' :: JsText.join [':'] qs) =
      [JsText.join [':'] ps, JsText.join [':'] qs] := by
  rw [splitColons_join hps, splitColons, splitColons_one hqs]
  simp

/-- A piece with an empty part: a colon in front, at the end or next to another one. -/
def Stray (piece : JsText) : Prop := piece ≠ [] ∧ [] ∈ piece.splitOn ':'

theorem colonParts_join (hps : ∀ p ∈ ps, Part p) :
    colonParts (JsText.join [':'] ps) = ps ∧ ¬Stray (JsText.join [':'] ps) := by
  cases ps with
  | nil => exact ⟨rfl, fun h => h.1 rfl⟩
  | cons p ps =>
    have hsplit : (JsText.join [':'] (p :: ps)).splitOn ':' = p :: ps :=
      List.splitOn_intercalate ':' (fun q hq => (hps q hq).2) (List.cons_ne_nil _ _)
    rw [colonParts, Stray, hsplit]
    refine ⟨List.filter_eq_self.2 fun q hq => decide_eq_true (hps q hq).1, fun h => ?_⟩
    exact (hps [] h.2).1 rfl

/-- A piece without empty parts is its parts with colons between them. -/
theorem join_colonParts (h : ¬Stray piece) : JsText.join [':'] (colonParts piece) = piece := by
  by_cases hne : piece = []
  · rw [hne]
    rfl
  · have hall : colonParts piece = piece.splitOn ':' := by
      refine List.filter_eq_self.2 fun p hp => decide_eq_true ?_
      rintro rfl
      exact h ⟨hne, hp⟩
    rw [hall]
    exact List.intercalate_splitOn ':'

end Pieces

/-! ## IPv6 -/

section AAAA

variable {t p : JsText} {n : ℕ} {addr : List UInt8}

/-- `parseInt` reads two bytes. -/
def ReadsGroup (p : JsText) (n : ℕ) : Prop := n ≤ 0xffff ∧ parseHex p = some (n : ℤ)

/-- The number that `parseInt` reads. -/
def groupVal (p : JsText) : ℕ := ((parseHex p).getD 0).toNat

/-- The parts of the first two pieces. -/
def leftParts (t : JsText) : List JsText := colonParts ((splitColons t).getD 0 [])

def rightParts (t : JsText) : List JsText := colonParts ((splitColons t).getD 1 [])

/-- `parseInt` reads the parts as groups, and there are eight at most. -/
structure Reads16 (t : JsText) : Prop where
  count : (leftParts t).length + (rightParts t).length ≤ 8
  left : ∀ p ∈ leftParts t, ∃ n, ReadsGroup p n
  right : ∀ p ∈ rightParts t, ∃ n, ReadsGroup p n

/-- The bytes of the parts, with zeros between the left and the right ones. -/
def readBytes (ls rs : List JsText) : List UInt8 :=
  groupBytes (ls.map groupVal ++ (List.replicate (8 - (ls.length + rs.length)) 0 ++
    rs.map groupVal))

theorem groupVal_of_reads (h : ReadsGroup p n) : groupVal p = n := by
  rw [groupVal, h.2]
  rfl

theorem group_eq_ok_iff {bytes : List UInt8} : group p = .ok bytes ↔
    ∃ n, ReadsGroup p n ∧ bytes = [UInt8.ofNat (n / 256), UInt8.ofNat (n % 256)] := by
  unfold group
  constructor
  · intro h
    split at h
    · cases h
    · next val hval =>
      obtain ⟨hrange, hbytes⟩ := else_eq_ok_iff.1 h
      obtain ⟨n, rfl⟩ := Int.eq_ofNat_of_zero_le (a := val) (by omega)
      refine ⟨n, ⟨by omega, hval⟩, (Except.ok.inj hbytes).symm⟩
  · rintro ⟨n, ⟨hn, hp⟩, rfl⟩
    rw [hp]
    show (if (n : ℤ) < 0 ∨ (n : ℤ) > 0xffff then _ else _) = _
    rw [if_neg (by omega)]
    rfl

theorem mapM_group {ps : List JsText} (h : ∀ p ∈ ps, ∃ n, ReadsGroup p n) :
    (ps.mapM group).map List.flatten = .ok (groupBytes (ps.map groupVal)) := by
  have hmap : ps.mapM group = .ok (ps.map fun p =>
      [UInt8.ofNat (groupVal p / 256), UInt8.ofNat (groupVal p % 256)]) := by
    refine mapM_eq_map fun p hp => ?_
    obtain ⟨n, hn⟩ := h p hp
    exact group_eq_ok_iff.2 ⟨n, hn, by rw [groupVal_of_reads hn]⟩
  rw [hmap, groupBytes, List.flatMap_map]
  rfl

theorem readsGroup_zero : ReadsGroup ['0'] 0 := ⟨by decide, by decide⟩

/-- All eight parts, with zeros between the left and the right ones. -/
def allParts (ls rs : List JsText) : List JsText :=
  ls ++ (List.replicate (8 - (ls.length + rs.length)) ['0'] ++ rs)

theorem groupBytes_allParts (ls rs : List JsText) :
    groupBytes ((allParts ls rs).map groupVal) = readBytes ls rs := by
  rw [allParts, readBytes, List.map_append, List.map_append, List.map_replicate,
    groupVal_of_reads readsGroup_zero]

theorem length_allParts {ls rs : List JsText} (h : ls.length + rs.length ≤ 8) :
    (allParts ls rs).length = 8 := by
  rw [allParts, List.length_append, List.length_append, List.length_replicate]
  omega

theorem rrAAAA_eq_ok_iff : rrAAAA t = .ok addr ↔
    Reads16 t ∧ addr = readBytes (leftParts t) (rightParts t) := by
  have hparts : rrAAAA t = if (leftParts t).length + (rightParts t).length > 8 then
      .error .invalidIpv6
    else if (allParts (leftParts t) (rightParts t)).length ≠ 8 then .error .invalidIpv6
    else ((allParts (leftParts t) (rightParts t)).mapM group).map List.flatten := rfl
  rw [hparts, else_eq_ok_iff, else_eq_ok_iff, not_lt, not_not]
  constructor
  · rintro ⟨hcount, -, hok⟩
    have hreads (p : JsText) (hp : p ∈ allParts (leftParts t) (rightParts t)) :
        ∃ n, ReadsGroup p n := by
      obtain ⟨ys, hys⟩ : ∃ ys, (allParts (leftParts t) (rightParts t)).mapM group = .ok ys := by
        cases hm : (allParts (leftParts t) (rightParts t)).mapM group with
        | error e =>
          rw [hm] at hok
          cases hok
        | ok ys => exact ⟨ys, rfl⟩
      obtain ⟨y, hy⟩ := mapM_ok_iff.1 ⟨ys, hys⟩ p hp
      obtain ⟨n, hn, -⟩ := group_eq_ok_iff.1 hy
      exact ⟨n, hn⟩
    refine ⟨⟨hcount, fun p hp => hreads p ?_, fun p hp => hreads p ?_⟩, ?_⟩
    · exact List.mem_append_left _ hp
    · exact List.mem_append_right _ (List.mem_append_right _ hp)
    · rw [mapM_group hreads, groupBytes_allParts] at hok
      exact (Except.ok.inj hok).symm
  · rintro ⟨⟨hcount, hleft, hright⟩, rfl⟩
    refine ⟨hcount, length_allParts hcount, ?_⟩
    rw [← groupBytes_allParts]
    refine mapM_group fun p hp => ?_
    rcases List.mem_append.1 hp with hp | hp
    · exact hleft p hp
    rcases List.mem_append.1 hp with hp | hp
    · rw [List.eq_of_mem_replicate hp]
      exact ⟨0, readsGroup_zero⟩
    · exact hright p hp

theorem IsGroup.reads (h : IsGroup p n) : ReadsGroup p n := by
  refine ⟨?_, parseHex_digits h.2⟩
  have hlt := digits_lt h.2
  have hpow : 16 ^ p.length ≤ 16 ^ 4 := Nat.pow_le_pow_right (by decide) h.1
  omega

theorem IsGroup.part (h : IsGroup p n) : Part p :=
  ⟨(digits_eq_some h.2).1, not_mem_digits h.2 (by decide)⟩

theorem groups_iff {ps : List JsText} {ns : List ℕ} : List.Forall₂ IsGroup ps ns ↔
    (∀ p ∈ ps, IsGroup p (groupVal p)) ∧ ns = ps.map groupVal :=
  forall₂_iff_map fun _ _ h => groupVal_of_reads h.reads

/-- What is wrong with a text whose parts are read as groups. -/
inductive Sloppy16 (t : JsText) : Prop
  /-- A part is not one to four hexadecimal digits. -/
  | part (p : JsText) (mem : p ∈ leftParts t ∨ p ∈ rightParts t) (not : ¬∃ n, IsGroup p n)
  /-- A colon is in front of a piece, at its end or next to another one. -/
  | stray (i : ℕ) (colon : Stray ((splitColons t).getD i []))
  /-- There is a second `::`. -/
  | again (pieces : 2 < (splitColons t).length)
  /-- There is no `::`, and there are fewer than eight parts. -/
  | missing (pieces : (splitColons t).length = 1)
    (parts : (leftParts t).length + (rightParts t).length < 8)
  /-- There is a `::`, and there are eight parts already. -/
  | full (pieces : (splitColons t).length = 2)
    (parts : (leftParts t).length + (rightParts t).length = 8)

/-- Parts that are groups are read. -/
theorem rrAAAA_of_parts {ls rs : List JsText} (hleft : leftParts t = ls) (hright : rightParts t = rs)
    (hcount : ls.length + rs.length ≤ 8) (hls : ∀ p ∈ ls, IsGroup p (groupVal p))
    (hrs : ∀ p ∈ rs, IsGroup p (groupVal p)) : rrAAAA t = .ok (readBytes ls rs) := by
  subst hleft hright
  exact rrAAAA_eq_ok_iff.2
    ⟨⟨hcount, fun p hp => ⟨_, (hls p hp).reads⟩, fun p hp => ⟨_, (hrs p hp).reads⟩⟩, rfl⟩

/-- A text that denotes an address is read as it, and not sloppy. -/
theorem Denotes16.reads (h : Denotes16 t addr) : rrAAAA t = .ok addr ∧ ¬Sloppy16 t := by
  cases h with
  | @full ps ns groups eight =>
    obtain ⟨hall, rfl⟩ := groups_iff.1 groups
    have hparts (p : JsText) (hp : p ∈ ps) : Part p := (hall p hp).part
    have hsplit := splitColons_one hparts
    obtain ⟨hcolon, hstray⟩ := colonParts_join hparts
    have hleft : leftParts (JsText.join [':'] ps) = ps := by
      rw [leftParts, hsplit]
      exact hcolon
    have hright : rightParts (JsText.join [':'] ps) = [] := by
      rw [rightParts, hsplit]
      rfl
    constructor
    · rw [rrAAAA_of_parts hleft hright eight.le hall nofun, readBytes, eight]
      simp
    · rintro (⟨p, hmem, hnot⟩ | ⟨i, hcolon'⟩ | hpieces | ⟨-, hfew⟩ | ⟨hpieces, -⟩)
      · rw [hleft, hright] at hmem
        rcases hmem with hmem | hmem
        · exact hnot ⟨_, hall p hmem⟩
        · cases hmem
      · rw [hsplit] at hcolon'
        rcases i with _ | i
        · exact hstray hcolon'
        · exact hcolon'.1 (by simp)
      · rw [hsplit] at hpieces
        exact absurd hpieces (by simp)
      · rw [hleft, hright, eight] at hfew
        exact absurd hfew (by simp)
      · rw [hsplit] at hpieces
        exact absurd hpieces (by simp)
  | @short ls rs ns ms left right fewer =>
    obtain ⟨hls, rfl⟩ := groups_iff.1 left
    obtain ⟨hrs, rfl⟩ := groups_iff.1 right
    have hlparts (p : JsText) (hp : p ∈ ls) : Part p := (hls p hp).part
    have hrparts (p : JsText) (hp : p ∈ rs) : Part p := (hrs p hp).part
    have hsplit := splitColons_two hlparts hrparts
    obtain ⟨hlcolon, hlstray⟩ := colonParts_join hlparts
    obtain ⟨hrcolon, hrstray⟩ := colonParts_join hrparts
    have hleft : leftParts (JsText.join [':'] ls ++ ':' :: ':' :: JsText.join [':'] rs) = ls := by
      rw [leftParts, hsplit]
      exact hlcolon
    have hright : rightParts (JsText.join [':'] ls ++ ':' :: ':' :: JsText.join [':'] rs) = rs := by
      rw [rightParts, hsplit]
      exact hrcolon
    constructor
    · exact rrAAAA_of_parts hleft hright fewer.le hls hrs
    · rintro (⟨p, hmem, hnot⟩ | ⟨i, hcolon'⟩ | hpieces | ⟨hpieces, -⟩ | ⟨-, hfull⟩)
      · rw [hleft, hright] at hmem
        rcases hmem with hmem | hmem
        · exact hnot ⟨_, hls p hmem⟩
        · exact hnot ⟨_, hrs p hmem⟩
      · rw [hsplit] at hcolon'
        rcases i with _ | _ | i
        · exact hlstray hcolon'
        · exact hrstray hcolon'
        · exact hcolon'.1 (by simp)
      · rw [hsplit] at hpieces
        exact absurd hpieces (by simp)
      · rw [hsplit] at hpieces
        exact absurd hpieces (by simp)
      · rw [hleft, hright] at hfull
        exact absurd hfull fewer.ne

/-- A text that is read and not sloppy denotes the address that is read. -/
theorem denotes16_of_reads (h : Reads16 t) (hsloppy : ¬Sloppy16 t) :
    Denotes16 t (readBytes (leftParts t) (rightParts t)) := by
  have hgroup (p : JsText) (hp : p ∈ leftParts t ∨ p ∈ rightParts t) : IsGroup p (groupVal p) := by
    by_contra hnot
    refine hsloppy (.part p hp fun ⟨n, hn⟩ => hnot ?_)
    rwa [groupVal_of_reads hn.reads]
  have hleft := groups_iff.2 ⟨fun p hp => hgroup p (.inl hp), rfl⟩
  have hright := groups_iff.2 ⟨fun p hp => hgroup p (.inr hp), rfl⟩
  have hpiece (i : ℕ) : JsText.join [':'] (colonParts ((splitColons t).getD i [])) =
      (splitColons t).getD i [] := join_colonParts fun hstray => hsloppy (.stray i hstray)
  have htext := join_splitColons t
  have hcount := h.count
  rcases hpieces : splitColons t with _ | ⟨l, _ | ⟨r, _ | ⟨s, ps⟩⟩⟩
  · exact absurd hpieces (splitColons_ne_nil t)
  · -- no `::`: there are eight parts
    have height : ¬(leftParts t).length + (rightParts t).length < 8 := fun hfew =>
      hsloppy (.missing (by rw [hpieces]; rfl) hfew)
    have hnone : rightParts t = [] := by
      rw [rightParts, hpieces]
      rfl
    rw [hnone] at height hcount
    have hlength : (leftParts t).length = 8 := by
      rw [List.length_nil] at height hcount
      omega
    have hl : JsText.join [':'] (leftParts t) = t := by
      have hfirst := hpiece 0
      rw [leftParts, hfirst, hpieces]
      rw [hpieces] at htext
      simpa [JsText.join] using htext
    have hdenotes := Denotes16.full hleft hlength
    rw [hl] at hdenotes
    rw [hnone, readBytes, hlength]
    simpa using hdenotes
  · -- one `::`: there are fewer
    have hfewer : (leftParts t).length + (rightParts t).length < 8 := by
      refine lt_of_le_of_ne hcount fun hfull => hsloppy (.full (by rw [hpieces]; rfl) hfull)
    have hl : JsText.join [':'] (leftParts t) = l := by
      have hfirst := hpiece 0
      rw [leftParts, hfirst, hpieces]
      rfl
    have hr : JsText.join [':'] (rightParts t) = r := by
      have hsecond := hpiece 1
      rw [rightParts, hsecond, hpieces]
      rfl
    have hdenotes := Denotes16.short hleft hright hfewer
    rw [hl, hr] at hdenotes
    have ht : t = l ++ ':' :: ':' :: r := by
      rw [hpieces] at htext
      simpa [JsText.join, List.intercalate_cons_cons] using htext.symm
    rw [← ht] at hdenotes
    exact hdenotes
  · exact absurd (.again (by rw [hpieces]; simp)) hsloppy

/-- `rrAAAA` accepts what denotes an address, and nothing else, exactly if a text that it reads is
not sloppy. -/
theorem rrAAAA_meets_iff :
    (∀ addr, rrAAAA t = .ok addr ↔ Denotes16 t addr) ↔ ¬(Reads16 t ∧ Sloppy16 t) := by
  constructor
  · rintro h ⟨hreads, hsloppy⟩
    have hdenotes := (h _).1 (rrAAAA_eq_ok_iff.2 ⟨hreads, rfl⟩)
    exact hdenotes.reads.2 hsloppy
  · intro hsloppy addr
    constructor
    · intro hok
      obtain ⟨hreads, rfl⟩ := rrAAAA_eq_ok_iff.1 hok
      exact denotes16_of_reads hreads fun h => hsloppy ⟨hreads, h⟩
    · exact fun hdenotes => hdenotes.reads.1

end AAAA

/-! ## Both parsers -/

/-- **Addresses.** The parsers treat a text as the grammar does exactly if its parts are not read
although the text is malformed. -/
theorem addresses_iff (t : JsText) :
    ((∀ addr, rrA t = .ok addr ↔ Denotes4 t addr) ∧
      ∀ addr, rrAAAA t = .ok addr ↔ Denotes16 t addr) ↔
      ¬Sloppy4 t ∧ ¬(Reads16 t ∧ Sloppy16 t) :=
  and_congr rrA_meets_iff rrAAAA_meets_iff

/-- A text that is read as 1.0.30.4. -/
def exampleText : JsText :=
  ['0', 'x', '1', '.', '.', '3', 'e', '1', '.', ' ', '4']

/-- A text that is read as one group, without a `::`. -/
def exampleGroup : JsText := [':', '1', 'z', 'z']

/-- The texts are no addresses, and are accepted. -/
theorem exampleText_accepted :
    (rrA exampleText = .ok [1, 0, 30, 4] ∧ ¬∃ addr, Denotes4 exampleText addr) ∧
      rrAAAA exampleGroup = .ok [0, 1, 0, 0, 0, 0, 0, 0, 0, 0, 0, 0, 0, 0, 0, 0] ∧
        ¬∃ addr, Denotes16 exampleGroup addr := by
  refine ⟨⟨by decide +kernel, ?_⟩, by decide +kernel, ?_⟩
  · rintro ⟨addr, h⟩
    obtain ⟨-, hall, -⟩ := denotes4_iff.1 h
    obtain ⟨n, -, hn, -⟩ := hall ['0', 'x', '1'] (by decide)
    have hnone : digits 10 ['0', 'x', '1'] = none := by decide
    rw [hnone] at hn
    cases hn
  · rintro ⟨addr, h⟩
    exact h.reads.2 (.missing (by decide) (by decide))

end Ddns.Core
