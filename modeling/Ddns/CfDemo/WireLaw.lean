import Ddns.CfDemo.Addresses
import Ddns.CfDemo.Names
import Ddns.Core.Normalize

/-!
# Queries and responses

What a query and its response must say of each other (`QueryLaw`, `ResponseLaw`). The gateway does not
check that a name is well formed, repeats the class 1 whatever the query has, counts the answers in 16
bits, and reads texts that are no addresses. `wire_iff` says that these are all the ways in which a
response goes wrong.
-/

namespace Ddns.CfDemo

open JsText Bytes Results

/-! ## Law -/

/-- The question of the packet has a name, and the query that was read has the same. -/
def QueryLaw (buf : List UInt8) (query : ParsedQuestion) (next : ℕ) : Prop :=
  ∃ labels targets, Denotes buf 12 labels targets next ∧ Presents query.name labels

/-- The response, with its question up to `last`, belongs to the query with the name up to `next`. -/
structure ResponseLaw (rt : Runtime) (buf : List UInt8) (next : ℕ) (query : ParsedQuestion)
    (answers : List Answer) (out : List UInt8) (last : ℕ) : Prop where
  id : slice out 0 2 = slice buf 0 2
  name : ∃ labels, Denotes out 12 labels [] last ∧ Presents query.name labels
  whole : last + 4 ≤ out.length
  /-- The type and the class. -/
  kind : slice out last 4 = slice buf next 4
  count : uint16 out 6 = (answers.filterMap (answerBlock rt)).length
  records : out.drop (last + 4) = (answers.filterMap (answerBlock rt)).flatten
  /-- A record has the address that the data of its answer denotes. -/
  denoted : ∀ answer ∈ answers, ∀ block, answerBlock rt answer = some block →
    ∃ ttl addr, answer.Denotes addr ∧ block = recordBytes answer.type.code ttl addr
  /-- An answer with an address has a record. -/
  plain : ∀ answer ∈ answers, ∀ addr, answer.Plain addr → (answerBlock rt answer).isSome

/-- The question of the packet has a name that survives reading, and the class 1. -/
def WellAsked (rt : Runtime) (buf : List UInt8) : Prop :=
  ∃ labels targets next, Denotes buf 12 labels targets next ∧ (∀ l ∈ labels, Kept rt l) ∧
    (∀ target ∈ labels :: targets, Trimmed (text target)) ∧ slice buf (next + 2) 2 = [0, 1]

/-! ## Bytes -/

section Bytes

variable {buf pre rest : List UInt8} {rt : Runtime}

theorem slice_append (n : ℕ) : slice (pre ++ rest) pre.length n = rest.take n := by
  rw [slice, List.drop_left]

theorem slice_add (buf : List UInt8) (off m n : ℕ) :
    slice buf off (m + n) = slice buf off m ++ slice buf (off + m) n := by
  rw [slice, slice, slice, List.take_add, List.drop_drop]

/-- A number that is read from two bytes is written as them. -/
theorem uint16Bytes_uint16 {off : ℕ} (h : off + 2 ≤ buf.length) :
    uint16Bytes (uint16 buf off) = slice buf off 2 := by
  have hslice : slice buf off 2 = [buf.getD off 0, buf.getD (off + 1) 0] := by
    rw [slice, List.drop_eq_getElem_cons (by omega), List.drop_eq_getElem_cons (by omega)]
    rw [List.getD_eq_getElem?_getD, List.getD_eq_getElem?_getD, List.getElem?_eq_getElem (by omega),
      List.getElem?_eq_getElem (by omega)]
    rfl
  have hlow := (buf.getD (off + 1) 0).toNat_lt
  rw [hslice, uint16Bytes, uint16]
  congr 1
  · have hdiv : ((buf.getD off 0).toNat * 256 + (buf.getD (off + 1) 0).toNat) / 256 =
        (buf.getD off 0).toNat := by omega
    rw [hdiv, UInt8.ofNat_toNat]
  · congr 1
    apply UInt8.toNat_inj.1
    rw [UInt8.toNat_ofNat']
    omega

/-- The lower case of ASCII takes as many bytes. -/
theorem length_utf8_lowered (p : JsText) : (utf8 (lowered p)).length = (utf8 p).length := by
  have hchar (c : Char) :
      (String.utf8EncodeChar c.toLower).length = (String.utf8EncodeChar c).length := by
    by_cases hc : 65 ≤ c.toNat ∧ c.toNat ≤ 90
    · have hlower := toNat_toLower c
      rw [if_pos hc] at hlower
      have hone (d : Char) (hd : d.toNat ≤ 127) : d.utf8Size = 1 := Char.utf8Size_eq_one_iff.2 hd
      rw [String.length_utf8EncodeChar, String.length_utf8EncodeChar, hone c (by omega),
        hone c.toLower (by omega)]
    · rw [toLower_eq_self (by omega)]
  rw [utf8, utf8, lowered, List.flatMap_map, List.length_flatMap, List.length_flatMap]
  exact congrArg List.sum (List.map_congr_left fun c _ => hchar c)

/-- A label that is written. -/
theorem denotes_label {l : List UInt8} {labels : List (List UInt8)}
    {targets : List (List (List UInt8))} {next : ℕ} (hpos : 0 < l.length) (hle : l.length ≤ 63)
    (h : Denotes (pre ++ UInt8.ofNat l.length :: (l ++ rest)) (pre.length + 1 + l.length) labels
      targets next) :
    Denotes (pre ++ UInt8.ofNat l.length :: (l ++ rest)) pre.length (l :: labels) targets next := by
  have hlen : (UInt8.ofNat l.length).toNat = l.length := TextDecoder.toNat_ofNat_byte (by omega)
  generalize UInt8.ofNat l.length = len at h hlen ⊢
  have hhead : (pre ++ len :: (l ++ rest))[pre.length]? = some len := by simp
  have hslice : slice (pre ++ len :: (l ++ rest)) (pre.length + 1) l.length = l := by
    rw [← List.singleton_append, ← List.append_assoc, ← List.length_singleton (a := len),
      ← List.length_append, slice_append, List.take_left]
  have hfits : pre.length + 1 + len.toNat ≤ (pre ++ len :: (l ++ rest)).length := by
    rw [List.length_append, List.length_cons, List.length_append]
    omega
  rw [← hlen] at h hslice
  have hlabel := Denotes.label hhead (by omega) (by omega) hfits h
  rwa [hslice] at hlabel

/-- Labels that are written are a name of the packet. -/
theorem denotes_labels {ps : List JsText} (hps : ∀ p ∈ ps, 0 < p.utf8.length ∧ p.utf8.length ≤ 63) :
    Denotes (pre ++ (ps.flatMap labelBytes ++ 0 :: rest)) pre.length (ps.map utf8) []
      (pre.length + (ps.flatMap labelBytes).length + 1) := by
  induction ps generalizing pre with
  | nil => exact .root (by simp)
  | cons p ps ih =>
    obtain ⟨hpos, hle⟩ := hps p List.mem_cons_self
    have hrest : Denotes (pre ++ labelBytes p ++ (ps.flatMap labelBytes ++ 0 :: rest))
        (pre ++ labelBytes p).length (ps.map utf8) []
        ((pre ++ labelBytes p).length + (ps.flatMap labelBytes).length + 1) :=
      ih fun q hq => hps q (List.mem_cons_of_mem p hq)
    have hbuf : pre ++ ((p :: ps).flatMap labelBytes ++ 0 :: rest) = pre ++
        UInt8.ofNat p.utf8.length :: (p.utf8 ++ (ps.flatMap labelBytes ++ 0 :: rest)) := by
      rw [List.flatMap_cons, List.append_assoc]
      rfl
    have hlength : (pre ++ labelBytes p).length = pre.length + 1 + p.utf8.length := by
      rw [List.length_append, labelBytes, List.length_cons]
      omega
    have hnext : pre.length + ((p :: ps).flatMap labelBytes).length + 1 =
        (pre ++ labelBytes p).length + (ps.flatMap labelBytes).length + 1 := by
      rw [List.flatMap_cons, List.length_append, List.length_append]
      omega
    rw [hlength] at hrest hnext
    rw [List.append_assoc] at hrest
    rw [hbuf, hnext]
    exact denotes_label hpos hle hrest

end Bytes

/-! ## Questions -/

section Question

variable {rt : Runtime} {buf : List UInt8} {query : ParsedQuestion} {pos next n depths : ℕ}
  {labels : List (List UInt8)} {targets : List (List (List UInt8))} {ps : List JsText} {name : JsText}

theorem parseDnsQuery_ok (h : parseDnsQuery rt buf = .ok query) : 12 ≤ buf.length ∧
    ∃ n, decodeName rt buf 9 12 = .ok (query.name, n) ∧ n + 2 ≤ buf.length ∧
      query.id = uint16 buf 0 ∧ query.qtypeRaw = uint16 buf n := by
  rw [parseDnsQuery, else_eq_ok_iff, else_eq_ok_iff] at h
  obtain ⟨hlength, -, h⟩ := h
  refine ⟨Nat.not_lt.1 hlength, ?_⟩
  cases hname : decodeName rt buf 9 12 with
  | error e =>
    rw [hname] at h
    cases h
  | ok r =>
    rw [hname] at h
    obtain ⟨hend, hquery⟩ := else_eq_ok_iff.1 h
    cases hquery
    exact ⟨r.2, rfl, Nat.not_lt.1 hend, rfl, rfl⟩

theorem Piece.lowered {p : JsText} (h : Piece rt p) : Piece rt (lowered p) := by
  refine ⟨fun hnil => h.ne_nil (List.map_eq_nil_iff.1 hnil), fun hmem => ?_, h.steady.toLower⟩
  obtain ⟨c, hc, hpoint⟩ := List.mem_map.1 hmem
  rw [eq_of_toLower_eq hpoint (.inl (by decide))] at hc
  exact h.point hc

/-- A name that is made of pieces is written as them. -/
theorem encodeDnsName_of_pieces (hps : ∀ p ∈ ps, Piece rt p)
    (hname : normalizeName rt name = join ['.'] ps) :
    encodeDnsName rt name = ps.flatMap labelBytes ++ [0] := by
  have hparts : ((join ['.'] ps).splitOn '.').filter (· ≠ []) = ps := by
    by_cases hne : ps = []
    · subst hne
      rfl
    · have hsplit : (join ['.'] ps).splitOn '.' = ps :=
        List.splitOn_intercalate '.' (fun p hp => (hps p hp).point) hne
      rw [hsplit]
      exact List.filter_eq_self.2 fun p hp => decide_eq_true (hps p hp).ne_nil
  rw [encodeDnsName, hname, hparts]

/-- The name of a query is written as labels that it shows. -/
theorem encodeDnsName_eq (h : Denotes buf pos labels targets next)
    (hok : decodeName rt buf depths pos = .ok (name, n)) (hkept : ∀ l ∈ labels, Kept rt l)
    (htrim : ∀ target ∈ labels :: targets, Trimmed (text target)) :
    ∃ ps : List JsText, (∀ p ∈ ps, 0 < p.utf8.length ∧ p.utf8.length ≤ 63) ∧
      encodeDnsName rt name = ps.flatMap labelBytes ++ [0] ∧ Presents name (ps.map utf8) := by
  obtain ⟨hlabels, hps⟩ := pieces_of_kept h hkept
  generalize labels.map TextDecoder.decode = ps at hlabels hps
  subst hlabels
  obtain ⟨-, hsteady, houtcome⟩ := (h.loopReads rfl hps).decodeName hps hok
  have hmarks (p : JsText) (hp : p ∈ ps) : p.head? ≠ some TextDecoder.mark :=
    head_ne_mark (utf8_inj (hkept _ (List.mem_map_of_mem hp)).text)
  obtain ⟨hclean, htrimmed⟩ := (clean_pointer hps).2 ⟨hmarks, htrim⟩
  have hname : lowered name = lowered (joined ps) := houtcome.iff.2 ⟨hclean, htrimmed⟩
  have hlowered : ∀ p ∈ ps.map lowered, Piece rt p := by
    rw [List.forall_mem_map]
    exact fun p hp => (hps p hp).lowered
  have hjoined : lowered (joined ps) = join ['.'] (ps.map lowered) := by
    rw [joined_eq fun p hp => (hps p hp).ne_nil]
    exact map_join _ _ _
  have hpoint : (join ['.'] (ps.map lowered)).rdropWhile (· = '.') = join ['.'] (ps.map lowered) := by
    rw [List.rdropWhile_eq_self_iff, ← joined_eq fun p hp => (hlowered p hp).ne_nil]
    exact fun hne hlast => last_joined hlowered _ (List.getLast?_eq_some_getLast hne)
      (of_decide_eq_true hlast)
  have hnormal : normalizeName rt name = join ['.'] (ps.map lowered) := by
    have htrim : trim name = name := (trimmed_iff_of_toLower hname).2 htrimmed
    rw [hsteady.normalizeName, htrim, ← hpoint, ← hjoined, ← hname]
    rfl
  refine ⟨ps.map lowered, ?_, encodeDnsName_of_pieces hlowered hnormal, ps.map lowered, rfl,
    fun p hp => (hlowered p hp).point, ?_⟩
  · rw [List.forall_mem_map]
    intro p hp
    rw [length_utf8_lowered]
    exact h.length _ (List.mem_map_of_mem hp)
  · rw [← hjoined, ← hname]
    exact (lowered_lowered name).symm

end Question

/-! ## Responses -/

section Response

variable {rt : Runtime} {buf rest : List UInt8} {query : ParsedQuestion} {answers : List Answer}
  {answer : Answer} {rcode last : ℕ} {ps : List JsText}

theorem uint16_count (query : ParsedQuestion) (rcode n : ℕ) (rest : List UInt8) :
    uint16 (responseHeader query rcode n ++ rest) 6 = n % 65536 := by
  show (UInt8.ofNat (n / 256)).toNat * 256 + (UInt8.ofNat n).toNat = n % 65536
  rw [UInt8.toNat_ofNat', UInt8.toNat_ofNat']
  omega

/-- What stands where in a response whose name is written as `ps`. -/
structure Layout (rt : Runtime) (query : ParsedQuestion) (answers : List Answer) (ps : List JsText)
    (out : List UInt8) (last : ℕ) : Prop where
  id : slice out 0 2 = uint16Bytes query.id
  name : Denotes out 12 (ps.map utf8) [] last
  whole : last + 4 ≤ out.length
  kind : slice out last 4 = uint16Bytes query.qtypeRaw ++ [0, 1]
  count : uint16 out 6 = (answers.filterMap (answerBlock rt)).length % 65536
  records : out.drop (last + 4) = (answers.filterMap (answerBlock rt)).flatten

theorem layout_response (hps : ∀ p ∈ ps, 0 < p.utf8.length ∧ p.utf8.length ≤ 63)
    (hname : encodeDnsName rt query.name = ps.flatMap labelBytes ++ [0]) :
    Layout rt query answers ps (encodeDnsResponse rt query answers rcode)
      (12 + (ps.flatMap labelBytes).length + 1) := by
  set blocks := answers.filterMap (answerBlock rt) with hblocks
  set header := responseHeader query rcode blocks.length with hheader
  set tail := uint16Bytes query.qtypeRaw ++ [0, 1] ++ blocks.flatten with htail
  have hlength : header.length = 12 := rfl
  have hout : encodeDnsResponse rt query answers rcode =
      header ++ (ps.flatMap labelBytes ++ 0 :: tail) := by
    rw [encodeDnsResponse, hname, htail, List.append_assoc, List.append_assoc]
    rfl
  have hsplit : header ++ (ps.flatMap labelBytes ++ 0 :: tail) =
      (header ++ (ps.flatMap labelBytes ++ [0])) ++ tail := by
    simp only [List.append_assoc, List.singleton_append]
  have hlast : (header ++ (ps.flatMap labelBytes ++ [0])).length =
      12 + (ps.flatMap labelBytes).length + 1 := by
    rw [List.length_append, List.length_append, hlength, List.length_singleton]
    rfl
  rw [hout]
  constructor
  · rfl
  · exact denotes_labels hps
  · rw [hsplit, List.length_append, hlast]
    have htype : 4 ≤ tail.length := by simp [htail, uint16Bytes]
    omega
  · rw [hsplit, ← hlast, slice_append]
    rfl
  · exact uint16_count query rcode _ _
  · rw [hsplit, ← hlast, ← List.drop_drop, List.drop_left]
    rfl

theorem answerBlock_eq_some_iff {block : List UInt8} : answerBlock rt answer = some block ↔
    ∃ addr, answer.addr rt = some addr ∧
      recordBytes answer.type.code ((ttlSeconds answer.ttl).toUint 32) addr = block :=
  Option.map_eq_some_iff

theorem recordBytes_inj {type ttl ttl' : ℕ} {addr addr' : List UInt8}
    (h : recordBytes type ttl addr = recordBytes type ttl' addr') : addr = addr' :=
  congrArg (List.drop 12) h

/-- The records have the addresses that the data denote, if no data is sloppy. -/
theorem denoted_iff : (∀ answer ∈ answers, ∀ block, answerBlock rt answer = some block →
    ∃ ttl addr, answer.Denotes addr ∧ block = recordBytes answer.type.code ttl addr) ↔
    ∀ answer ∈ answers, ¬answer.Sloppy rt := by
  refine forall₂_congr fun answer _ => ?_
  rw [← addr_iff]
  constructor
  · intro h addr haddr
    obtain ⟨ttl, addr', hdenotes, hblock⟩ := h _ (answerBlock_eq_some_iff.2 ⟨addr, haddr, rfl⟩)
    rwa [recordBytes_inj hblock]
  · intro h block hblock
    obtain ⟨addr, haddr, rfl⟩ := answerBlock_eq_some_iff.1 hblock
    exact ⟨_, addr, h addr haddr, rfl⟩

theorem length_blocks (rt : Runtime) (answers : List Answer) :
    (answers.filterMap (answerBlock rt)).length =
      answers.countP fun answer => (answer.addr rt).isSome := by
  rw [List.length_filterMap_eq_countP]
  congr 1
  funext answer
  rw [answerBlock, Option.isSome_map]

/-- **Queries and responses.** An accepted query has the name of its packet, and the response belongs
to it, exactly if the name survives reading, the class is 1, fewer than 65536 answers are read, and no
data is read that denotes no address or another one. -/
theorem wire_iff (rt : Runtime) (buf : List UInt8) (query : ParsedQuestion) (answers : List Answer)
    (rcode : ℕ) (h : parseDnsQuery rt buf = .ok query) :
    (∃ next last, QueryLaw buf query next ∧ ResponseLaw rt buf next query answers
      (encodeDnsResponse rt query answers rcode) last) ↔
    WellAsked rt buf ∧ (answers.countP fun answer => (answer.addr rt).isSome) < 65536 ∧
      ∀ answer ∈ answers, ¬answer.Sloppy rt := by
  obtain ⟨hlength, n, hok, hn, hid, htype⟩ := parseDnsQuery_ok h
  have hkind : slice buf n 4 = uint16Bytes query.qtypeRaw ++ slice buf (n + 2) 2 := by
    rw [slice_add buf n 2 2, htype, uint16Bytes_uint16 hn]
  rw [← length_blocks]
  constructor
  · rintro ⟨next, last, ⟨labels, targets, hdenotes, hpresents⟩, hlaw⟩
    obtain ⟨hkept, htrim⟩ := (presents_iff hdenotes hok).1 hpresents
    obtain rfl := end_eq hdenotes hkept hok
    obtain ⟨ps, hps, hname, -⟩ := encodeDnsName_eq hdenotes hok hkept htrim
    obtain ⟨final, hlayout⟩ : ∃ last, Layout rt query answers ps
        (encodeDnsResponse rt query answers rcode) last := ⟨_, layout_response hps hname⟩
    obtain ⟨labels', hname', -⟩ := hlaw.name
    obtain ⟨-, rfl⟩ := hname'.unique hlayout.name
    refine ⟨⟨labels, targets, n, hdenotes, hkept, htrim, ?_⟩, ?_, denoted_iff.1 hlaw.denoted⟩
    · have hclass := hlayout.kind.symm.trans hlaw.kind
      rw [hkind] at hclass
      exact (List.append_cancel_left hclass).symm
    · rw [← hlaw.count, hlayout.count]
      exact Nat.mod_lt _ (by decide)
  · rintro ⟨⟨labels, targets, next, hdenotes, hkept, htrim, hclass⟩, hcount, hsloppy⟩
    obtain rfl := end_eq hdenotes hkept hok
    obtain ⟨ps, hps, hname, hpresents⟩ := encodeDnsName_eq hdenotes hok hkept htrim
    obtain ⟨final, hlayout⟩ : ∃ last, Layout rt query answers ps
        (encodeDnsResponse rt query answers rcode) last := ⟨_, layout_response hps hname⟩
    refine ⟨n, final, ⟨labels, targets, hdenotes, (presents_iff hdenotes hok).2 ⟨hkept, htrim⟩⟩, ?_⟩
    constructor
    · rw [hlayout.id, hid, uint16Bytes_uint16 (by omega)]
    · exact ⟨ps.map utf8, hlayout.name, hpresents⟩
    · exact hlayout.whole
    · rw [hlayout.kind, hkind, hclass]
    · rw [hlayout.count, Nat.mod_eq_of_lt hcount]
    · exact hlayout.records
    · exact denoted_iff.2 hsloppy
    · intro answer _ addr hplain
      rw [answerBlock, addr_of_plain hplain]
      rfl

end Response

/-! ## A query and two packets -/

section Example

/-- A platform on which only one character outside ASCII has a lower case. -/
def exampleRuntime : Runtime where
  lower := Core.Registry.exampleLower
  lower_ascii := Core.Registry.exampleNaming.lower_ascii
  ascii_of_mem _ c _ hc d hd hlt := by
    rw [List.mem_singleton.1 hd] at hlt
    dsimp only at hlt
    by_cases hkept : c = 'Ä'
    · rw [if_pos hkept] at hlt
      exact absurd hlt (by decide)
    · rw [if_neg hkept, toLower_lt_iff] at hlt
      omega

/-- A query for the address of `a.b`. -/
def exampleQuery : List UInt8 := [0, 7, 1, 0, 0, 1, 0, 0, 0, 0, 0, 0, 1, 65, 1, 98, 0, 0, 1, 0, 1]

/-- The last label of the name does not fit into the packet. -/
def exampleCut : List UInt8 := [0, 7, 1, 0, 0, 1, 0, 0, 0, 0, 0, 0, 5, 97]

/-- `::ffff:1.2.3.4` -/
def exampleMapped : JsText :=
  [':', ':', 'f', 'f', 'f', 'f', ':', '1', '.', '2', '.', '3', '.', '4']

/-- What is read of the query. -/
def exampleParsed : ParsedQuestion :=
  { id := 7, flags := 256, name := ['a', '.', 'b'], type := some .a, qtypeRaw := 1 }

theorem exampleQuery_parsed : parseDnsQuery exampleRuntime exampleQuery = .ok exampleParsed := by
  decide +kernel

theorem exampleQuery_wellAsked : WellAsked exampleRuntime exampleQuery := by
  have hname : Denotes exampleQuery 12 [[65], [98]] [] 17 :=
    .label (rfl : exampleQuery[12]? = some 1) (by decide) (by decide) (by decide)
      (.label (rfl : exampleQuery[14]? = some 1) (by decide) (by decide) (by decide) (.root rfl))
  refine ⟨_, _, _, hname, ?_, ?_, by decide⟩
  · have hkept (b : UInt8) (c : Char) (hdecode : TextDecoder.decode [b] = [c])
        (hutf8 : utf8 [c] = [b]) (hpoint : '.' ∉ [c]) (hascii : c.toNat < 128) :
        Kept exampleRuntime [b] := by
      refine ⟨by rw [hdecode, hutf8], by rwa [hdecode], ?_⟩
      rw [hdecode]
      intro d hd hge
      rw [List.mem_singleton.1 hd] at hge
      omega
    rintro l (_ | ⟨_, _ | ⟨_, ⟨⟩⟩⟩)
    · exact hkept 65 'A' (by decide) (by decide) (by decide) (by decide)
    · exact hkept 98 'b' (by decide) (by decide) (by decide) (by decide)
  · rintro target (_ | ⟨_, ⟨⟩⟩)
    show trim (text [[65], [98]]) = text [[65], [98]]
    decide +kernel

/-- The response to the query belongs to it. -/
theorem exampleQuery_law : ∃ next last, QueryLaw exampleQuery exampleParsed next ∧
    ResponseLaw exampleRuntime exampleQuery next exampleParsed []
      (encodeDnsResponse exampleRuntime exampleParsed [] 0) last :=
  (wire_iff _ _ _ [] 0 exampleQuery_parsed).2 ⟨exampleQuery_wellAsked, by decide, nofun⟩

/-- A packet whose name is cut off is accepted, and an IPv4 address behind groups is read as one
group. -/
theorem wire_broken : (parseDnsQuery exampleRuntime exampleCut =
      .ok { id := 7, flags := 256, name := ['a'], type := none, qtypeRaw := 1377 } ∧
    ∀ query next, ¬QueryLaw exampleCut query next) ∧
    ∀ next last, ¬ResponseLaw exampleRuntime exampleQuery next exampleParsed
      [{ type := .aaaa, data := exampleMapped, ttl := .fin 60 }]
      (encodeDnsResponse exampleRuntime exampleParsed
        [{ type := .aaaa, data := exampleMapped, ttl := .fin 60 }] 0) last := by
  refine ⟨⟨by decide +kernel, ?_⟩, fun next last hlaw => ?_⟩
  · rintro query next ⟨labels, targets, hname, -⟩
    cases hname with
    | root head => exact absurd head (by decide)
    | label head positive short fits rest =>
      obtain rfl := Option.some.inj head
      exact absurd fits (by decide)
    | pointer head marked second target =>
      obtain rfl := Option.some.inj head
      exact absurd marked (by decide)
  · have hlower : exampleRuntime.lower.apply exampleMapped = exampleMapped := by decide +kernel
    refine denoted_iff.1 hlaw.denoted _ (List.mem_singleton_self _) ?_
    show Sloppy6 (exampleRuntime.lower.apply exampleMapped)
    rw [hlower]
    have hright : Core.rightParts exampleMapped =
        [['f', 'f', 'f', 'f'], ['1', '.', '2', '.', '3', '.', '4']] := by decide
    have hleft : Core.leftParts exampleMapped = [] := by decide
    refine ⟨⟨?_, ?_, ?_⟩, ⟨by decide, fun hone => absurd hone (by decide)⟩,
      .part ['1', '.', '2', '.', '3', '.', '4'] (.inr ?_) fun ⟨n, hn⟩ => absurd hn.1 (by decide),
      fun hzero => ?_⟩
    · rw [hleft, hright]
      decide
    · rw [hleft]
      exact nofun
    · rw [hright]
      rintro p (_ | ⟨_, _ | ⟨_, ⟨⟩⟩⟩)
      · exact ⟨0xffff, by decide, by decide⟩
      · exact ⟨1, by decide, by decide⟩
    · rw [hright]
      exact List.mem_cons_of_mem _ List.mem_cons_self
    · have hgroup := hzero.right ['f', 'f', 'f', 'f'] (by rw [hright]; exact List.mem_cons_self)
      exact absurd hgroup (by decide)

end Example

end Ddns.CfDemo
