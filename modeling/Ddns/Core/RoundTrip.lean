import Ddns.Core.GatewayRoutes
import Ddns.Lib.Results

/-!
# The round trip of gateway routes

Gateway routes should be decoded as they were encoded, with their sets and rules sorted, unless they
are not encoded at all. The encoder checks the lengths of its byte strings and patterns and some
numbers; kinds, priorities, flags, the sets that rules name, the 64-bit numbers and the counts of
sets and rules lose their high bits, and labels the high bits of their characters. `roundTrip_iff`
says that nothing else is lost.
-/

namespace Ddns.Core

open Bytes

/-- The value that the bytes stand for. -/
def canonicalRoutes (gr : GatewayRoutesV1) : GatewayRoutesV1 :=
  { gr with
    gatewaySets := sortGatewaySetsCanonical gr.gatewaySets
    rules := sortRulesCanonical gr.rules }

/-- **The round trip**: what is encoded is decoded to the same value, sorted. -/
def RoundTrip (gr : GatewayRoutesV1) : Prop :=
  ∀ bytes, encodeGatewayRoutesV1 gr true = .ok bytes →
    decodeGatewayRoutesV1 bytes = .ok (canonicalRoutes gr)

/-! ## What is checked, and what fits -/

structure CheckedTarget (t : GatewayTarget) : Prop where
  kind : t.kind.isInteger = true
  data : t.data.length ≤ 0xffff

structure CheckedSet (set : GatewaySet) : Prop where
  gatewaySetId : set.gatewaySetId.isUint 0xffffffff = true
  count : set.targets.length ≤ 255
  targets : ∀ t ∈ set.targets, CheckedTarget t

/-- A label has 1 to 63 code units. -/
def CheckedLabel : PatternLabel → Prop
  | .wildcard => True
  | .exact label => 1 ≤ TextDecoder.units label ∧ TextDecoder.units label ≤ 63

structure CheckedRule (r : GatewayRule) : Prop where
  count : r.pattern.length ≤ 255
  pattern : ∀ l ∈ r.pattern, CheckedLabel l

/-- Gateway routes pass the checks of the encoder. -/
structure CheckedRoutes (gr : GatewayRoutesV1) : Prop where
  parentNameId : gr.parentNameId.length = 32
  ownerPub : gr.ownerPub.length = 32
  nsId : gr.nsId.isUint 0xffffffff = true
  sig : ∀ s ∈ gr.sig, s.length = 64
  gatewaySets : ∀ set ∈ gr.gatewaySets, CheckedSet set
  rules : ∀ r ∈ gr.rules, CheckedRule r

/-- A label is made of ASCII characters and replacement characters. -/
def PlainLabel : PatternLabel → Prop
  | .wildcard => True
  | .exact label => ∀ c ∈ label, TextDecoder.Plain c

structure FittingRule (r : GatewayRule) : Prop where
  priority : r.priority.isUint 255 = true
  flags : r.flags.isUint 255 = true
  pattern : ∀ l ∈ r.pattern, PlainLabel l
  gatewaySetId : r.gatewaySetId.isUint 0xffffffff = true

/-- What is not checked fits its field. -/
structure Fitting (gr : GatewayRoutesV1) : Prop where
  gSeq : 0 ≤ gr.gSeq ∧ gr.gSeq < 2 ^ 64
  gExp : 0 ≤ gr.gExp ∧ gr.gExp < 2 ^ 64
  setCount : gr.gatewaySets.length < 2 ^ 16
  ruleCount : gr.rules.length < 2 ^ 16
  kinds : ∀ set ∈ gr.gatewaySets, ∀ t ∈ set.targets, t.kind.isUint 255 = true
  rules : ∀ r ∈ gr.rules, FittingRule r

/-! ## When the encoder writes -/

theorem encodeTarget_ok_iff {t : GatewayTarget} :
    (∃ bs, encodeTarget t = .ok bs) ↔ CheckedTarget t := by
  unfold encodeTarget
  constructor
  · rintro ⟨bs, h⟩
    split at h
    · cases h
    · next hkind =>
      split at h
      · cases h
      · next hdata => exact ⟨Bool.not_eq_false _ ▸ hkind, not_lt.1 hdata⟩
  · intro h
    rw [if_neg (by rw [h.kind]; decide), if_neg (not_lt.2 h.data)]
    exact ⟨_, rfl⟩

theorem encodeGatewaySet_ok_iff {set : GatewaySet} :
    (∃ bs, encodeGatewaySet set = .ok bs) ↔ CheckedSet set := by
  have htargets : (∃ parts, set.targets.mapM encodeTarget = .ok parts) ↔
      ∀ t ∈ set.targets, CheckedTarget t :=
    Results.mapM_ok_iff.trans (forall₂_congr fun _ _ => encodeTarget_ok_iff)
  unfold encodeGatewaySet
  constructor
  · rintro ⟨bs, h⟩
    split at h
    · cases h
    · next hid =>
      split at h
      · cases h
      · next hcount =>
        split at h
        · cases h
        · next parts hparts =>
          exact ⟨Bool.not_eq_false _ ▸ hid, not_lt.1 hcount, htargets.1 ⟨parts, hparts⟩⟩
  · intro h
    obtain ⟨parts, hparts⟩ := htargets.2 h.targets
    rw [if_neg (by rw [h.gatewaySetId]; decide), if_neg (not_lt.2 h.count), hparts]
    exact ⟨_, rfl⟩

theorem length_ascii (t : JsText) : (ascii t).length = TextDecoder.units t := List.length_map _

theorem encodePatternLabel_ok_iff {l : PatternLabel} :
    (∃ bs, encodePatternLabel l = .ok bs) ↔ CheckedLabel l := by
  cases l with
  | wildcard => exact ⟨fun _ => trivial, fun _ => ⟨_, rfl⟩⟩
  | exact label =>
    unfold encodePatternLabel CheckedLabel
    dsimp only
    rw [length_ascii]
    split
    · next h => exact ⟨nofun, fun h' => by omega⟩
    · next h => exact ⟨fun _ => by omega, fun _ => ⟨_, rfl⟩⟩

theorem encodeRule_ok_iff {r : GatewayRule} : (∃ bs, encodeRule r = .ok bs) ↔ CheckedRule r := by
  have hlabels : (∃ parts, r.pattern.mapM encodePatternLabel = .ok parts) ↔
      ∀ l ∈ r.pattern, CheckedLabel l :=
    Results.mapM_ok_iff.trans (forall₂_congr fun _ _ => encodePatternLabel_ok_iff)
  unfold encodeRule encodePattern
  constructor
  · rintro ⟨bs, h⟩
    split at h
    · cases h
    · next hcount =>
      cases hparts : r.pattern.mapM encodePatternLabel with
      | error e =>
        rw [hparts] at h
        cases h
      | ok parts => exact ⟨not_lt.1 hcount, hlabels.1 ⟨parts, hparts⟩⟩
  · intro h
    obtain ⟨parts, hparts⟩ := hlabels.2 h.pattern
    rw [if_neg (not_lt.2 h.count), hparts]
    exact ⟨_, rfl⟩

theorem sortGatewaySetsCanonical_perm (sets : List GatewaySet) :
    (sortGatewaySetsCanonical sets).Perm sets := jsSort_perm _ _

theorem sortRulesCanonical_perm (rules : List GatewayRule) : (sortRulesCanonical rules).Perm rules :=
  jsSort_perm _ _

/-- The bytes of gateway routes, from those of their sets and rules. -/
def routesBytes (gr : GatewayRoutesV1) (gwParts ruleParts : List (List UInt8)) : List UInt8 :=
  gwMagic ++ ([1] ++ (u32le gr.nsId ++ (gr.parentNameId ++ (u64le gr.gSeq ++ (u64le gr.gExp ++
    (u16le (.fin gr.gatewaySets.length) ++ u16le (.fin gr.rules.length))))))) ++
      (gwParts.flatten ++ (ruleParts.flatten ++ gr.ownerPub)) ++ gr.sig.getD []

/-- What the encoder writes is what it writes for the sorted value, and it has passed the checks. -/
theorem encode_eq_ok_iff_parts {gr : GatewayRoutesV1} {bytes : List UInt8} :
    encodeGatewayRoutesV1 gr true = .ok bytes ↔
      gr.parentNameId.length = 32 ∧ gr.ownerPub.length = 32 ∧ gr.nsId.isUint 0xffffffff = true ∧
        (∀ s ∈ gr.sig, s.length = 64) ∧ ∃ gwParts ruleParts,
          (canonicalRoutes gr).gatewaySets.mapM encodeGatewaySet = .ok gwParts ∧
          (canonicalRoutes gr).rules.mapM encodeRule = .ok ruleParts ∧
          bytes = routesBytes (canonicalRoutes gr) gwParts ruleParts := by
  unfold encodeGatewayRoutesV1
  constructor
  · intro h
    split at h
    · cases h
    · next hname =>
      split at h
      · cases h
      · next howner =>
        split at h
        · cases h
        · next hns =>
          split at h
          · cases h
          · next hsig =>
            dsimp only at h
            split at h
            · cases h
            · next gwParts hgw =>
              split at h
              · cases h
              · next ruleParts hrule =>
                cases h
                exact ⟨not_not.1 hname, not_not.1 howner, Bool.not_eq_false _ ▸ hns,
                  sig_ok_iff.1 hsig, gwParts, ruleParts, hgw, hrule, rfl⟩
  · rintro ⟨hname, howner, hns, hsig, gwParts, ruleParts, hgw, hrule, rfl⟩
    rw [if_neg (not_not.2 hname), if_neg (not_not.2 howner), if_neg (by rw [hns]; decide),
      if_neg (sig_ok_iff.2 hsig)]
    dsimp only [canonicalRoutes] at hgw hrule
    dsimp only
    rw [if_pos rfl, if_pos rfl, hgw]
    dsimp only
    rw [hrule]
    rfl

theorem encode_ok_iff {gr : GatewayRoutesV1} :
    (∃ bytes, encodeGatewayRoutesV1 gr true = .ok bytes) ↔ CheckedRoutes gr := by
  have hsets : (∃ parts, (canonicalRoutes gr).gatewaySets.mapM encodeGatewaySet = .ok parts) ↔
      ∀ set ∈ gr.gatewaySets, CheckedSet set := by
    refine Results.mapM_ok_iff.trans (forall_congr' fun set => ?_)
    rw [encodeGatewaySet_ok_iff]
    exact imp_congr_left (sortGatewaySetsCanonical_perm _).mem_iff
  have hrules : (∃ parts, (canonicalRoutes gr).rules.mapM encodeRule = .ok parts) ↔
      ∀ r ∈ gr.rules, CheckedRule r := by
    refine Results.mapM_ok_iff.trans (forall_congr' fun r => ?_)
    rw [encodeRule_ok_iff]
    exact imp_congr_left (sortRulesCanonical_perm _).mem_iff
  simp only [encode_eq_ok_iff_parts]
  constructor
  · rintro ⟨bytes, hname, howner, hns, hsig, gwParts, ruleParts, hgw, hrule, -⟩
    exact ⟨hname, howner, hns, hsig, hsets.1 ⟨gwParts, hgw⟩, hrules.1 ⟨ruleParts, hrule⟩⟩
  · intro h
    obtain ⟨gwParts, hgw⟩ := hsets.2 h.gatewaySets
    obtain ⟨ruleParts, hrule⟩ := hrules.2 h.rules
    exact ⟨_, h.parentNameId, h.ownerPub, h.nsId, h.sig, gwParts, ruleParts, hgw, hrule, rfl⟩

/-! ## What is decoded -/

/-- The number that a field of `bits` bits keeps. -/
def wrap (bits : ℕ) (n : JsNum) : JsNum := .fin (n.toUint bits)

def reduceTarget (t : GatewayTarget) : GatewayTarget := ⟨wrap 8 t.kind, t.data⟩

def reduceSet (set : GatewaySet) : GatewaySet :=
  ⟨wrap 32 set.gatewaySetId, set.targets.map reduceTarget⟩

def reduceLabel : PatternLabel → PatternLabel
  | .wildcard => .wildcard
  | .exact label => .exact (TextDecoder.decode (ascii label))

def reduceRule (r : GatewayRule) : GatewayRule :=
  ⟨wrap 8 r.priority, wrap 8 r.flags, r.pattern.map reduceLabel, wrap 32 r.gatewaySetId⟩

/-- The value that the fields keep. -/
def reduce (gr : GatewayRoutesV1) : GatewayRoutesV1 where
  nsId := wrap 32 gr.nsId
  parentNameId := gr.parentNameId
  gSeq := gr.gSeq % 2 ^ 64
  gExp := gr.gExp % 2 ^ 64
  gatewaySets := gr.gatewaySets.map reduceSet
  rules := gr.rules.map reduceRule
  ownerPub := gr.ownerPub
  sig := gr.sig

theorem finds_u8 (n : JsNum) :
    Finds (Reader.byte : Reader DecodeError _) (u8 n) (some (UInt8.ofNat (n.toUint 8))) :=
  finds_byte _

theorem finds_u16le (n : JsNum) : Finds readU16le (u16le n) (n.toUint 16) :=
  finds_readU16le (JsNum.toUint_lt 16 n)

theorem finds_u32le (n : JsNum) : Finds readU32le (u32le n) (n.toUint 32) :=
  finds_readU32le (JsNum.toUint_lt 32 n)

theorem byteNum_ofNat (n : JsNum) : byteNum (some (UInt8.ofNat (n.toUint 8))) = wrap 8 n := by
  have hlt := JsNum.toUint_lt 8 n
  have hbyte : (UInt8.ofNat (n.toUint 8)).toNat = n.toUint 8 := by
    rw [UInt8.toNat_ofNat']
    omega
  show JsNum.fin (UInt8.ofNat (n.toUint 8)).toNat = .fin (n.toUint 8)
  rw [hbyte]

theorem byteCount_ofNat {k : ℕ} (h : k ≤ 255) :
    byteCount (some (UInt8.ofNat ((JsNum.fin k).toUint 8))) = k := by
  unfold byteCount
  rw [JsNum.toUint_natCast, Option.map_some, UInt8.toNat_ofNat']
  exact (Nat.mod_eq_of_lt (Nat.mod_lt _ (by decide))).trans (Nat.mod_eq_of_lt (by omega))

theorem finds_target {t : GatewayTarget} {bs : List UInt8} (h : encodeTarget t = .ok bs) :
    Finds decodeTarget bs (reduceTarget t) := by
  have hchecked := encodeTarget_ok_iff.1 ⟨bs, h⟩
  unfold encodeTarget at h
  rw [if_neg (by rw [hchecked.kind]; decide), if_neg (not_lt.2 hchecked.data)] at h
  cases h
  have hlen : (JsNum.fin t.data.length).toUint 16 = t.data.length := by
    rw [JsNum.toUint_natCast]
    exact Nat.mod_eq_of_lt (Nat.lt_succ_of_le hchecked.data)
  have hdata : Finds (do
      let data ← (Reader.bytes ((JsNum.fin t.data.length).toUint 16) : Reader DecodeError _)
      return (⟨wrap 8 t.kind, data⟩ : GatewayTarget)) (t.data ++ []) (reduceTarget t) :=
    (finds_bytes_of_length hlen.symm).bind (Finds.pure _)
  rw [List.append_nil] at hdata
  refine (finds_u8 t.kind).bind ((finds_u16le _).bind ?_)
  rw [byteNum_ofNat]
  exact hdata

theorem finds_gatewaySet {set : GatewaySet} {bs : List UInt8} (h : encodeGatewaySet set = .ok bs) :
    Finds decodeGatewaySet bs (reduceSet set) := by
  have hchecked := encodeGatewaySet_ok_iff.1 ⟨bs, h⟩
  unfold encodeGatewaySet at h
  rw [if_neg (by rw [hchecked.gatewaySetId]; decide), if_neg (not_lt.2 hchecked.count)] at h
  cases hparts : set.targets.mapM encodeTarget with
  | error e =>
    rw [hparts] at h
    cases h
  | ok parts =>
    rw [hparts] at h
    cases h
    have htargets := Finds.mapM (fun t _ _ ht => finds_target ht) hparts
    refine (finds_u32le _).bind ((finds_u8 _).bind ?_)
    rw [byteCount_ofNat hchecked.count, ← List.append_nil parts.flatten]
    exact htargets.bind (Finds.pure _)

theorem finds_label {l : PatternLabel} {bs : List UInt8} (h : encodePatternLabel l = .ok bs) :
    Finds decodePatternLabel bs (reduceLabel l) := by
  have hchecked := encodePatternLabel_ok_iff.1 ⟨bs, h⟩
  cases l with
  | wildcard =>
    cases h
    exact (finds_byte 2).bind ((finds_byte 0).bind (Finds.pure _))
  | exact label =>
    unfold encodePatternLabel at h
    dsimp only at h
    obtain ⟨hpos, hle⟩ := hchecked
    rw [← length_ascii] at hpos hle
    rw [if_neg (by omega)] at h
    cases h
    have hlen : (UInt8.ofNat (ascii label).length).toNat = (ascii label).length := by
      rw [UInt8.toNat_ofNat']
      omega
    have hlabel : Finds (do
        let lbl ← (Reader.bytes (UInt8.ofNat (ascii label).length).toNat : Reader DecodeError _)
        return PatternLabel.exact (TextDecoder.decode lbl)) (ascii label ++ [])
          (reduceLabel (.exact label)) :=
      (finds_bytes_of_length hlen.symm).bind (Finds.pure _)
    rw [List.append_nil] at hlabel
    exact (finds_byte 1).bind ((finds_byte _).bind hlabel)

theorem finds_rule {r : GatewayRule} {bs : List UInt8} (h : encodeRule r = .ok bs) :
    Finds decodeRule bs (reduceRule r) := by
  have hchecked := encodeRule_ok_iff.1 ⟨bs, h⟩
  unfold encodeRule encodePattern at h
  rw [if_neg (not_lt.2 hchecked.count)] at h
  cases hparts : r.pattern.mapM encodePatternLabel with
  | error e =>
    rw [hparts] at h
    cases h
  | ok parts =>
    rw [hparts] at h
    cases h
    have hpattern := Finds.mapM (fun l _ _ hl => finds_label hl) hparts
    refine (finds_u8 _).bind ((finds_u8 _).bind ((finds_u8 _).bind ?_))
    rw [byteCount_ofNat hchecked.count, byteNum_ofNat, byteNum_ofNat,
      ← List.append_nil (u32le r.gatewaySetId)]
    exact hpattern.bind ((finds_u32le _).bind (Finds.pure _))

theorem finds_decodeUnsignedRoutes {gr : GatewayRoutesV1} {gwParts ruleParts : List (List UInt8)}
    (hname : gr.parentNameId.length = 32) (howner : gr.ownerPub.length = 32)
    (hsets : gr.gatewaySets.length < 2 ^ 16) (hrules : gr.rules.length < 2 ^ 16)
    (hgw : gr.gatewaySets.mapM encodeGatewaySet = .ok gwParts)
    (hrule : gr.rules.mapM encodeRule = .ok ruleParts) :
    Finds decodeUnsignedRoutes (routesBytes { gr with sig := none } gwParts ruleParts)
      { reduce gr with sig := none } := by
  have hbytes : routesBytes { gr with sig := none } gwParts ruleParts =
      (gwMagic ++ ([1] ++ [])) ++ (u32le gr.nsId ++ (gr.parentNameId ++ (u64le gr.gSeq ++
        (u64le gr.gExp ++ (u16le (.fin gr.gatewaySets.length) ++ (u16le (.fin gr.rules.length) ++
          (gwParts.flatten ++ (ruleParts.flatten ++ (gr.ownerPub ++ []))))))))) := by
    simp [routesBytes]
  have hgwsets := Finds.mapM (fun set _ _ h => finds_gatewaySet h) hgw
  have hrulesFound := Finds.mapM (fun r _ _ h => finds_rule h) hrule
  have hseq : ((gr.gSeq % 2 ^ 64).toNat : ℤ) = gr.gSeq % 2 ^ 64 := by omega
  have hexp : ((gr.gExp % 2 ^ 64).toNat : ℤ) = gr.gExp % 2 ^ 64 := by omega
  rw [hbytes, u16le_natCast hsets, u16le_natCast hrules]
  refine (finds_readMagic rfl).bind ?_
  refine (finds_u32le gr.nsId).bind ?_
  refine (finds_bytes_of_length hname).bind ?_
  refine (finds_readU64le (u64_lt gr.gSeq)).bind ?_
  refine (finds_readU64le (u64_lt gr.gExp)).bind ?_
  refine (finds_readU16le hsets).bind ?_
  refine (finds_readU16le hrules).bind ?_
  refine hgwsets.bind ?_
  refine hrulesFound.bind ?_
  refine (finds_bytes_of_length howner).bind ?_
  rw [hseq, hexp]
  exact Finds.pure _

/-- The decoder finds what the fields keep, where the counts fit. -/
theorem decode_routesBytes (gr : GatewayRoutesV1) {gwParts ruleParts : List (List UInt8)}
    (hname : gr.parentNameId.length = 32) (howner : gr.ownerPub.length = 32)
    (hsig : ∀ s ∈ gr.sig, s.length = 64)
    (hsets : gr.gatewaySets.length < 2 ^ 16) (hrules : gr.rules.length < 2 ^ 16)
    (hgw : gr.gatewaySets.mapM encodeGatewaySet = .ok gwParts)
    (hrule : gr.rules.mapM encodeRule = .ok ruleParts) :
    decodeGatewayRoutesV1 (routesBytes gr gwParts ruleParts) = .ok (reduce gr) := by
  have hfind := finds_decodeUnsignedRoutes hname howner hsets hrules hgw hrule [] (gr.sig.getD [])
  have hbytes : routesBytes gr gwParts ruleParts =
      routesBytes { gr with sig := none } gwParts ruleParts ++ gr.sig.getD [] := by
    simp [routesBytes]
  rw [List.nil_append, List.length_nil, Nat.zero_add] at hfind
  unfold decodeGatewayRoutesV1
  rw [hbytes, hfind]
  exact congrArg (fun sig => Except.ok { reduce gr with sig := sig }) (readSig_append hsig)

/-- A decoded value has counts of two bytes. -/
theorem counts_of_decode {bytes : List UInt8} {gr : GatewayRoutesV1}
    (h : decodeGatewayRoutesV1 bytes = .ok gr) :
    gr.gatewaySets.length < 2 ^ 16 ∧ gr.rules.length < 2 ^ 16 := by
  have hreturns : Returns decodeUnsignedRoutes fun g =>
      g.gatewaySets.length < 2 ^ 16 ∧ g.rules.length < 2 ^ 16 := by
    refine (Returns.any _).bind fun _ _ => ?_
    refine (Returns.any _).bind fun nsId _ => ?_
    refine (Returns.any _).bind fun parentNameId _ => ?_
    refine (Returns.any _).bind fun gSeq _ => ?_
    refine (Returns.any _).bind fun gExp _ => ?_
    refine (Returns.uint _ 2).bind fun gwsetCount hgwset => ?_
    refine (Returns.uint _ 2).bind fun ruleCount hrule => ?_
    refine (Returns.many _ _).bind fun gatewaySets hsets => ?_
    refine (Returns.many _ _).bind fun rules hrules => ?_
    refine (Returns.any _).bind fun ownerPub _ => Returns.pure ?_
    exact ⟨hsets ▸ hgwset, hrules ▸ hrule⟩
  unfold decodeGatewayRoutesV1 at h
  cases hdecode : decodeUnsignedRoutes bytes 0 with
  | error e =>
    rw [hdecode] at h
    cases h
  | ok p =>
    rw [hdecode] at h
    cases h
    exact hreturns bytes 0 p.1 p.2 hdecode

/-! ## What is kept -/

theorem wrap_eq_iff (bits : ℕ) {n : JsNum} :
    wrap bits n = n ↔ n.isUint (2 ^ bits - 1) = true := by
  have hpos := Nat.two_pow_pos bits
  rw [JsNum.isUint_iff]
  constructor
  · intro h
    have hlt := JsNum.toUint_lt bits n
    exact ⟨n.toUint bits, by omega, h.symm⟩
  · rintro ⟨k, hk, rfl⟩
    have hmod : k % 2 ^ bits = k := Nat.mod_eq_of_lt (by omega)
    unfold wrap
    rw [JsNum.toUint_natCast, hmod]

theorem wrap8_eq_iff {n : JsNum} : wrap 8 n = n ↔ n.isUint 255 = true := wrap_eq_iff 8

theorem wrap32_eq_iff {n : JsNum} : wrap 32 n = n ↔ n.isUint 0xffffffff = true := wrap_eq_iff 32

theorem map_eq_self_iff {α : Type} {f : α → α} {l : List α} : l.map f = l ↔ ∀ a ∈ l, f a = a := by
  rw [← List.map_inj_left, List.map_id']

theorem reduceTarget_eq_iff {t : GatewayTarget} :
    reduceTarget t = t ↔ t.kind.isUint 255 = true := by
  rw [← wrap8_eq_iff]
  exact ⟨congrArg GatewayTarget.kind, fun h => congrArg (GatewayTarget.mk · t.data) h⟩

theorem reduceSet_eq_iff {set : GatewaySet} (h : CheckedSet set) :
    reduceSet set = set ↔ ∀ t ∈ set.targets, t.kind.isUint 255 = true := by
  have htargets : set.targets.map reduceTarget = set.targets ↔
      ∀ t ∈ set.targets, t.kind.isUint 255 = true :=
    map_eq_self_iff.trans (forall₂_congr fun _ _ => reduceTarget_eq_iff)
  have hid := wrap32_eq_iff.2 h.gatewaySetId
  rw [← htargets]
  constructor
  · exact congrArg GatewaySet.targets
  · intro heq
    unfold reduceSet
    rw [hid, heq]

theorem ascii_plain {t : JsText} (h : ∀ c ∈ t, TextDecoder.Plain c) :
    ascii t = t.map fun c => UInt8.ofNat c.toNat := by
  unfold ascii
  induction t with
  | nil => rfl
  | cons c t ih =>
    have hsmall : c.toNat < 0x10000 := by
      rcases h c List.mem_cons_self with hc | rfl
      · omega
      · decide
    have hunits : JsText.codeUnits (c :: t) = c.toNat :: JsText.codeUnits t := by
      unfold JsText.codeUnits
      rw [List.flatMap_cons]
      dsimp only
      rw [if_pos hsmall]
      rfl
    rw [hunits, List.map_cons, List.map_cons, ih fun c' hc => h c' (List.mem_cons_of_mem c hc)]

/-- A label comes back exactly if its characters are plain. -/
theorem reduceLabel_eq_iff {l : PatternLabel} : reduceLabel l = l ↔ PlainLabel l := by
  cases l with
  | wildcard => exact iff_of_true rfl trivial
  | exact label =>
    unfold reduceLabel PlainLabel
    dsimp only
    rw [PatternLabel.exact.injEq]
    constructor
    · intro h
      have hplain := TextDecoder.plain_of_length_eq (ascii label)
        (by rw [h, length_ascii])
      rw [h] at hplain
      exact hplain
    · intro h
      rw [ascii_plain h, TextDecoder.decode_plain h]

theorem reduceRule_eq_iff {r : GatewayRule} : reduceRule r = r ↔ FittingRule r := by
  have hpattern : r.pattern.map reduceLabel = r.pattern ↔ ∀ l ∈ r.pattern, PlainLabel l :=
    map_eq_self_iff.trans (forall₂_congr fun _ _ => reduceLabel_eq_iff)
  constructor
  · intro h
    exact ⟨wrap8_eq_iff.1 (congrArg GatewayRule.priority h),
      wrap8_eq_iff.1 (congrArg GatewayRule.flags h), hpattern.1 (congrArg GatewayRule.pattern h),
      wrap32_eq_iff.1 (congrArg GatewayRule.gatewaySetId h)⟩
  · intro h
    unfold reduceRule
    rw [wrap8_eq_iff.2 h.priority, wrap8_eq_iff.2 h.flags, hpattern.2 h.pattern,
      wrap32_eq_iff.2 h.gatewaySetId]

theorem emod_eq_self_iff {n : ℤ} : n % 2 ^ 64 = n ↔ 0 ≤ n ∧ n < 2 ^ 64 := by
  omega

/-- Checked routes with counts of two bytes come back exactly if the rest fits. -/
theorem reduce_eq_iff {gr : GatewayRoutesV1} (h : CheckedRoutes gr)
    (hsets : gr.gatewaySets.length < 2 ^ 16) (hrules : gr.rules.length < 2 ^ 16) :
    reduce gr = gr ↔ Fitting gr := by
  have hkinds : gr.gatewaySets.map reduceSet = gr.gatewaySets ↔
      ∀ set ∈ gr.gatewaySets, ∀ t ∈ set.targets, t.kind.isUint 255 = true :=
    map_eq_self_iff.trans (forall₂_congr fun set hset => reduceSet_eq_iff (h.gatewaySets set hset))
  have hrule : gr.rules.map reduceRule = gr.rules ↔ ∀ r ∈ gr.rules, FittingRule r :=
    map_eq_self_iff.trans (forall₂_congr fun _ _ => reduceRule_eq_iff)
  constructor
  · intro heq
    exact ⟨emod_eq_self_iff.1 (congrArg GatewayRoutesV1.gSeq heq),
      emod_eq_self_iff.1 (congrArg GatewayRoutesV1.gExp heq), hsets, hrules,
      hkinds.1 (congrArg GatewayRoutesV1.gatewaySets heq),
      hrule.1 (congrArg GatewayRoutesV1.rules heq)⟩
  · intro hfit
    unfold reduce
    rw [wrap32_eq_iff.2 h.nsId, emod_eq_self_iff.2 hfit.gSeq, emod_eq_self_iff.2 hfit.gExp,
      hkinds.2 hfit.kinds, hrule.2 hfit.rules]

/-- Sorting changes neither what is checked nor what fits. -/
theorem checkedRoutes_canonical {gr : GatewayRoutesV1} (h : CheckedRoutes gr) :
    CheckedRoutes (canonicalRoutes gr) where
  parentNameId := h.parentNameId
  ownerPub := h.ownerPub
  nsId := h.nsId
  sig := h.sig
  gatewaySets set hset := h.gatewaySets set ((sortGatewaySetsCanonical_perm _).mem_iff.1 hset)
  rules r hr := h.rules r ((sortRulesCanonical_perm _).mem_iff.1 hr)

theorem fitting_canonical_iff {gr : GatewayRoutesV1} : Fitting (canonicalRoutes gr) ↔ Fitting gr := by
  have hsets := sortGatewaySetsCanonical_perm gr.gatewaySets
  have hrules := sortRulesCanonical_perm gr.rules
  constructor
  · intro h
    exact ⟨h.gSeq, h.gExp, hsets.length_eq ▸ h.setCount, hrules.length_eq ▸ h.ruleCount,
      fun set hset => h.kinds set (hsets.mem_iff.2 hset),
      fun r hr => h.rules r (hrules.mem_iff.2 hr)⟩
  · intro h
    exact ⟨h.gSeq, h.gExp, hsets.length_eq.symm ▸ h.setCount, hrules.length_eq.symm ▸ h.ruleCount,
      fun set hset => h.kinds set (hsets.mem_iff.1 hset),
      fun r hr => h.rules r (hrules.mem_iff.1 hr)⟩

/-- **Gateway routes make the round trip** exactly if what passes the checks also fits. -/
theorem roundTrip_iff (gr : GatewayRoutesV1) :
    RoundTrip gr ↔ (CheckedRoutes gr → Fitting gr) := by
  constructor
  · intro hround hchecked
    obtain ⟨bytes, hbytes⟩ := encode_ok_iff.2 hchecked
    have hdecode := hround bytes hbytes
    obtain ⟨hname, howner, -, hsig, gwParts, ruleParts, hgw, hrule, rfl⟩ :=
      encode_eq_ok_iff_parts.1 hbytes
    obtain ⟨hsets, hrules⟩ := counts_of_decode hdecode
    have hreduce := decode_routesBytes (canonicalRoutes gr) hname howner hsig hsets hrules hgw
      hrule
    rw [hreduce] at hdecode
    rw [← fitting_canonical_iff]
    exact (reduce_eq_iff (checkedRoutes_canonical hchecked) hsets hrules).1 (Except.ok.inj hdecode)
  · intro hfits bytes hbytes
    have hchecked := encode_ok_iff.1 ⟨bytes, hbytes⟩
    have hfit := fitting_canonical_iff.2 (hfits hchecked)
    obtain ⟨hname, howner, -, hsig, gwParts, ruleParts, hgw, hrule, rfl⟩ :=
      encode_eq_ok_iff_parts.1 hbytes
    have hreduce := decode_routesBytes (canonicalRoutes gr) hname howner hsig hfit.setCount
      hfit.ruleCount hgw hrule
    rw [hreduce]
    exact congrArg Except.ok
      ((reduce_eq_iff (checkedRoutes_canonical hchecked) hfit.setCount hfit.ruleCount).2 hfit)

/-- A rule of priority 256. -/
def exampleRoutes : GatewayRoutesV1 where
  nsId := .fin 1
  parentNameId := List.replicate 32 0
  gSeq := 1
  gExp := 2
  gatewaySets := [⟨.fin 7, [⟨.fin 4, ascii ['a']⟩]⟩]
  rules := [⟨.fin 256, .fin 0, [.wildcard, .exact ['w', 'w', 'w']], .fin 7⟩]
  ownerPub := List.replicate 32 1
  sig := none

/-- Its priority is decoded as 0. -/
theorem exampleRoutes_not_roundTrip : ¬RoundTrip exampleRoutes := by
  intro h
  have hdecode := h ((encodeGatewayRoutesV1 exampleRoutes true).toOption.getD []) (by decide +kernel)
  exact absurd hdecode (by decide +kernel)

end Ddns.Core
