import Ddns.Lib.Js
import Ddns.Registry.Program
import Ddns.WatchdogPolicy.Program

/-!
# The pkdns adapter

A canonical route on the chain holds the hash of a destination, not the destination. The adapter of
the gateway (`pkdns.ts`) takes a candidate from the query or from a witness and answers with it if it
has that hash (`resolve_sound`). It reads the accounts at fixed offsets, where the programs write
them (`decodeCanonicalRoute_account`, `decodeNamePolicyState_account`). A definition without a
docstring is the item of the source with the same words in its name.
-/

namespace Ddns.Gateway.Pkdns

/-! ## Accounts on the chain -/

/-- The content of a `CanonicalRoute` account. -/
structure CanonicalRoute where
  nameHash : BitVec 256
  destHash : BitVec 256
  ttlS : BitVec 32
  version : BitVec 64
  updatedAtSlot : BitVec 64
  lastAggregate : BitVec 256
  bump : BitVec 8
  deriving DecidableEq, Repr

/-- The fields in the order in which they are serialized, behind the discriminator. -/
def CanonicalRoute.fields (route : CanonicalRoute) : List (Nat × Nat) :=
  [(32, route.nameHash.toNat), (32, route.destHash.toNat), (4, route.ttlS.toNat),
    (8, route.version.toNat), (8, route.updatedAtSlot.toNat), (32, route.lastAggregate.toNat),
    (1, route.bump.toNat)]

/-- The content of a `NamePolicyState` account. -/
structure NamePolicyState where
  nameHash : BitVec 256
  status : BitVec 8
  confidenceBps : BitVec 16
  reasonFlags : BitVec 32
  lastUpdatedUnix : BitVec 64
  lastEpochId : BitVec 64
  rollingOk : BitVec 32
  rollingFail : BitVec 32
  rollingMismatch : BitVec 32
  distinctWatchdogsLastEpoch : BitVec 16
  penaltyBps : BitVec 16
  recommendedTtlCap : BitVec 32
  bump : BitVec 8
  deriving DecidableEq, Repr

def NamePolicyState.fields (policy : NamePolicyState) : List (Nat × Nat) :=
  [(32, policy.nameHash.toNat), (1, policy.status.toNat), (2, policy.confidenceBps.toNat),
    (4, policy.reasonFlags.toNat), (8, policy.lastUpdatedUnix.toNat),
    (8, policy.lastEpochId.toNat), (4, policy.rollingOk.toNat), (4, policy.rollingFail.toNat),
    (4, policy.rollingMismatch.toNat), (2, policy.distinctWatchdogsLastEpoch.toNat),
    (2, policy.penaltyBps.toNat), (4, policy.recommendedTtlCap.toNat), (1, policy.bump.toNat)]

/-- An account with the given fields: eight bytes in front, and any bytes behind. -/
def Serializes (fields : List (Nat × Nat)) (data : List UInt8) : Prop :=
  ∃ discriminator rest, discriminator.length = 8 ∧
    data = discriminator ++ (Bytes.layout fields ++ rest)

/-! ## Decoders -/

/-- `readUInt8`, `readUInt16LE`, `readUInt32LE` and `readBigUInt64LE`, which throw at the end of the
buffer. -/
def readUInt (buf : List UInt8) (off n : Nat) : Option Nat :=
  if off + n ≤ buf.length then some (Bytes.leNat (Bytes.slice buf off n)) else none

structure CanonicalRouteDecoded where
  nameHash : List UInt8
  destHash : List UInt8
  ttlS : Nat
  version : Nat
  updatedAtSlot : Nat
  lastAggregate : Pubkey
  bump : Nat
  deriving DecidableEq, Repr

def decodeCanonicalRoute (data : List UInt8) : Option CanonicalRouteDecoded := do
  let nameHash := Bytes.slice data 8 32
  let destHash := Bytes.slice data 40 32
  let ttlS ← readUInt data 72 4
  let version ← readUInt data 76 8
  let updatedAtSlot ← readUInt data 84 8
  let lastAggregate := ofBytes (Bytes.slice data 92 32)
  let bump ← readUInt data 124 1
  return { nameHash, destHash, ttlS, version, updatedAtSlot, lastAggregate, bump }

inductive PolicyStatus where
  | ok
  | warn
  | quarantine
  deriving DecidableEq, Repr

/-- What `decodeNamePolicyState` returns; a cap of zero is left out. -/
structure PolicyDecoded where
  status : PolicyStatus
  confidenceBps : Nat
  flags : Nat
  penaltyBps : Nat
  recommendedTtlCap : Option Nat
  deriving DecidableEq, Repr

/-- The status of a code. -/
def statusOf (statusU8 : Nat) : PolicyStatus :=
  if statusU8 = 2 then .quarantine else if statusU8 = 1 then .warn else .ok

def decodeNamePolicyState (data : List UInt8) : Option PolicyDecoded := do
  let statusU8 ← readUInt data 40 1
  let confidenceBps ← readUInt data 41 2
  let flags ← readUInt data 43 4
  let penaltyBps ← readUInt data 77 2
  let recommendedTtlCap ← readUInt data 79 4
  return {
    status := statusOf statusU8, confidenceBps, flags, penaltyBps
    recommendedTtlCap := if recommendedTtlCap = 0 then none else some recommendedTtlCap }

/-! ## The adapter -/

/-- What the adapter calls: SHA-256, the conversion of names to ASCII, which a second conversion
leaves alone, and which puts no letters of another case and no white space in front, the parser of
public keys, and the witness. -/
structure Runtime where
  casing : JsText.LowerCase
  sha256 : List UInt8 → Hash
  toASCII : JsText → JsText
  toASCII_toASCII : ∀ t, toASCII (toASCII t) = toASCII t
  hasLowerCase_toASCII : ∀ t, (∀ c ∈ t, casing.hasLowerCase c = false) →
    ∀ c ∈ toASCII t, casing.hasLowerCase c = false
  head_toASCII : ∀ t, (∀ c ∈ t.head?, JsText.isWhitespace c = false) →
    ∀ c ∈ (toASCII (casing.toLowerCase t)).head?, JsText.isWhitespace c = false
  publicKey : JsText → Option Pubkey
  fetchWitnessDest : (witnessUrl name : JsText) → Option JsText

structure PkdnsAdapterConfig where
  ddnsRegistryProgramId : JsText
  ddnsWatchdogPolicyProgramId : JsText

/-- The seeds of an account, behind which the hash of the name follows. -/
inductive Seed where
  | canonical
  | namePolicy
  deriving DecidableEq, Repr

/-- The accounts as the gateway's node returns them, with the slot; `none` if the call fails. -/
def Accounts : Type := (program : Pubkey) → Seed → Hash → Option (Nat × Option (List UInt8))

/-- The query: the name, `opts.dest` and `opts.witnessUrl`. -/
structure RouteInput where
  name : JsText
  dest : Option JsText
  witnessUrl : Option JsText

inductive PkdnsError where
  | registryProgramIdMissing
  | invalidPublicKey
  | accountUnavailable
  | outOfRange
  | nameHashMismatch
  deriving DecidableEq, Repr

/-- What an answer reports instead of a destination. -/
inductive AnswerError where
  | destRequired
  | destHashMismatch
  deriving DecidableEq, Repr

/-- `CanonicalDestHash`; the address is given by the program and the hash of the name. -/
structure CanonicalDestHash where
  programId : Pubkey
  pdaNameHash : Hash
  slot : Nat
  decoded : CanonicalRouteDecoded
  deriving DecidableEq, Repr

/-- `RouteAnswer`. Hashes stand for their hexadecimal digits, and what `canonical` and `proof` repeat
of the account is there once. -/
structure RouteAnswer where
  name : JsText
  nameHash : Hash
  dest : Option JsText
  ttlS : Nat
  verified : Bool
  canonical : CanonicalDestHash
  error : Option AnswerError
  confidenceBps : Nat
  policy : Option PolicyDecoded
  candidateDest : Option JsText
  candidateDestHash : Option Hash
  deriving DecidableEq, Repr

/-- `.dns` -/
def dnsSuffix : JsText := ['.', 'd', 'n', 's']

/-- `replace(/\.$/, "")` -/
def stripDot (t : JsText) : JsText := if t.getLast? = some '.' then t.dropLast else t

def normalizeNameForHash (rt : Runtime) (name : JsText) : JsText :=
  let trimmed := stripDot (JsText.trim name)
  let lowered := rt.casing.toLowerCase trimmed
  rt.toASCII lowered

def sha256Bytes (rt : Runtime) (t : JsText) : Hash := rt.sha256 (JsText.utf8 t)

def nameHashBytes (rt : Runtime) (name : JsText) : Hash :=
  sha256Bytes rt (normalizeNameForHash rt name)

def normalizeDest (dest : JsText) : JsText := JsText.trim dest

/-- A value, or an exception. -/
def orThrow {α : Type} (e : PkdnsError) : Option α → Except PkdnsError α
  | none => .error e
  | some a => .ok a

def getCanonicalDestHash (rt : Runtime) (accounts : Accounts) (cfg : PkdnsAdapterConfig)
    (name : JsText) : Except PkdnsError (Option CanonicalDestHash) := do
  let normalized := normalizeNameForHash rt name
  if ¬dnsSuffix <:+ normalized then return none
  let programId ← orThrow .invalidPublicKey (rt.publicKey cfg.ddnsRegistryProgramId)
  let nameHash := nameHashBytes rt normalized
  let (slot, info) ← orThrow .accountUnavailable (accounts programId .canonical nameHash)
  match info with
  | none => return none
  | some data =>
    let decoded ← orThrow .outOfRange (decodeCanonicalRoute data)
    if decoded.nameHash ≠ toBytes nameHash then throw .nameHashMismatch
    return some { programId, pdaNameHash := nameHash, slot, decoded }

def verifyCandidateDest (rt : Runtime) (name dest : JsText) (canonical : CanonicalDestHash)
    (policy : Option PolicyDecoded) : RouteAnswer :=
  let normalized := normalizeNameForHash rt name
  let destNormalized := normalizeDest dest
  let dh := sha256Bytes rt destNormalized
  let ok := decide (canonical.decoded.destHash = toBytes dh)
  { name := normalized
    nameHash := nameHashBytes rt normalized
    dest := if ok then some destNormalized else none
    ttlS := canonical.decoded.ttlS
    verified := ok
    canonical
    error := if ok then none else some .destHashMismatch
    confidenceBps := if ok then 10000 else 5000
    policy
    candidateDest := if ok then some destNormalized else none
    candidateDestHash := some dh }

/-- `tryFetchPolicy`; the node's failures and short accounts are no policy. -/
def tryFetchPolicy (rt : Runtime) (accounts : Accounts) (cfg : PkdnsAdapterConfig)
    (nameHash : Hash) : Except PkdnsError (Option PolicyDecoded) := do
  if cfg.ddnsWatchdogPolicyProgramId = [] then return none
  let programId ← orThrow .invalidPublicKey (rt.publicKey cfg.ddnsWatchdogPolicyProgramId)
  return (accounts programId .namePolicy nameHash).bind fun info =>
    info.2.bind decodeNamePolicyState

/-- The candidate: the one of the query unless it is blank, and else the witness's. -/
def destCandidate (rt : Runtime) (input : RouteInput) (normalized : JsText) : Option JsText :=
  let blank (t : JsText) : Bool := JsText.trim t = []
  let given := (input.dest.filter fun t => !blank t).or
    ((input.witnessUrl.filter fun url => url ≠ []).bind fun url =>
      rt.fetchWitnessDest url normalized)
  given.filter fun t => !blank t

/-- The adapter's `resolve`. -/
def resolve (rt : Runtime) (accounts : Accounts) (cfg : PkdnsAdapterConfig) (input : RouteInput) :
    Except PkdnsError (Option RouteAnswer) := do
  if input.name = [] then return none
  let normalized := normalizeNameForHash rt input.name
  if ¬dnsSuffix <:+ normalized then return none
  if cfg.ddnsRegistryProgramId = [] then throw .registryProgramIdMissing
  match ← getCanonicalDestHash rt accounts cfg normalized with
  | none => return none
  | some canonical =>
    let policy ← tryFetchPolicy rt accounts cfg (nameHashBytes rt normalized)
    match destCandidate rt input normalized with
    | some dest => return some (verifyCandidateDest rt normalized dest canonical policy)
    | none =>
      return some {
        name := normalized
        nameHash := nameHashBytes rt normalized
        dest := none
        ttlS := canonical.decoded.ttlS
        verified := false
        canonical
        error := some .destRequired
        confidenceBps := 10000
        policy
        candidateDest := none
        candidateDestHash := none }

/-! ## Reading what was written -/

section Decoders

variable {fields after : List (Nat × Nat)} {data : List UInt8} {n v : Nat}

/-- A field of an account, at its offset. -/
theorem Serializes.slice (before : List (Nat × Nat))
    (h : Serializes (before ++ (n, v) :: after) data) (off : Nat)
    (hoff : off = 8 + Bytes.width before) : Bytes.slice data off n = Bytes.toLe n v := by
  obtain ⟨discriminator, rest, hlen, rfl⟩ := h
  rw [hoff, ← hlen]
  exact Bytes.slice_layout discriminator rest before after n v

theorem Serializes.readUInt {w : Nat} {x : BitVec w} (before : List (Nat × Nat))
    (h : Serializes (before ++ (n, x.toNat) :: after) data) (off : Nat)
    (hoff : off = 8 + Bytes.width before) (hw : w = 8 * n) :
    Pkdns.readUInt data off n = some x.toNat := by
  have hlen : off + n ≤ data.length := by
    obtain ⟨discriminator, rest, hlen, rfl⟩ := h
    simp only [List.length_append, Bytes.length_layout, Bytes.width, List.map_append, List.map_cons,
      List.sum_append, List.sum_cons, hlen] at hoff ⊢
    omega
  have hx : x.toNat < 256 ^ n :=
    calc x.toNat < 2 ^ w := x.isLt
      _ = 256 ^ n := by rw [hw, Nat.pow_mul]
  unfold Pkdns.readUInt
  rw [if_pos hlen, h.slice before off hoff, Bytes.leNat_toLe, Nat.mod_eq_of_lt hx]

/-- **The canonical route that the program writes** is the one that the gateway reads. -/
theorem decodeCanonicalRoute_account (route : CanonicalRoute) (h : Serializes route.fields data) :
    decodeCanonicalRoute data = some {
      nameHash := toBytes route.nameHash, destHash := toBytes route.destHash,
      ttlS := route.ttlS.toNat, version := route.version.toNat,
      updatedAtSlot := route.updatedAtSlot.toNat, lastAggregate := route.lastAggregate,
      bump := route.bump.toNat } := by
  have hname : Bytes.slice data 8 32 = toBytes route.nameHash := h.slice [] 8 rfl
  have hdest : Bytes.slice data 40 32 = toBytes route.destHash :=
    h.slice (route.fields.take 1) 40 rfl
  have httl := h.readUInt (route.fields.take 2) 72 rfl rfl
  have hversion := h.readUInt (route.fields.take 3) 76 rfl rfl
  have hslot := h.readUInt (route.fields.take 4) 84 rfl rfl
  have haggregate : Bytes.slice data 92 32 = toBytes route.lastAggregate :=
    h.slice (route.fields.take 5) 92 rfl
  have hbump := h.readUInt (route.fields.take 6) 124 rfl rfl
  unfold decodeCanonicalRoute
  simp only [hname, hdest, haggregate, httl, hversion, hslot, hbump, ofBytes_toBytes]
  rfl

/-- What the gateway reads of a policy state. -/
theorem decodeNamePolicyState_account (policy : NamePolicyState)
    (h : Serializes policy.fields data) :
    decodeNamePolicyState data = some {
      status := statusOf policy.status.toNat, confidenceBps := policy.confidenceBps.toNat
      flags := policy.reasonFlags.toNat, penaltyBps := policy.penaltyBps.toNat
      recommendedTtlCap := if policy.recommendedTtlCap.toNat = 0 then none
        else some policy.recommendedTtlCap.toNat } := by
  have hstatus := h.readUInt (policy.fields.take 1) 40 rfl rfl
  have hconfidence := h.readUInt (policy.fields.take 2) 41 rfl rfl
  have hflags := h.readUInt (policy.fields.take 3) 43 rfl rfl
  have hpenalty := h.readUInt (policy.fields.take 10) 77 rfl rfl
  have hcap := h.readUInt (policy.fields.take 11) 79 rfl rfl
  unfold decodeNamePolicyState
  simp only [hstatus, hconfidence, hflags, hpenalty, hcap]
  rfl

/-- The first `n` bytes fit into a field of `n` bytes. -/
theorem toNat_leNat_take (w : Nat) (bs : List UInt8) (hw : w = 8 * n) :
    (BitVec.ofNat w (Bytes.leNat (bs.take n))).toNat = Bytes.leNat (bs.take n) := by
  have hlt : Bytes.leNat (bs.take n) < 2 ^ w :=
    calc Bytes.leNat (bs.take n) < 256 ^ n := Bytes.leNat_slice_lt bs 0 n
      _ = 2 ^ w := by rw [hw, Nat.pow_mul]
  rw [BitVec.toNat_ofNat, Nat.mod_eq_of_lt hlt]

/-- Bytes that decode are a canonical route. -/
theorem exists_route {decoded : CanonicalRouteDecoded} (h : decodeCanonicalRoute data = some decoded) :
    ∃ route : CanonicalRoute, Serializes route.fields data := by
  have hlen : 125 ≤ data.length := by
    by_contra hlt
    have hbump : Pkdns.readUInt data 124 1 = none := if_neg (by omega)
    simp [decodeCanonicalRoute, hbump] at h
  let bs := data.drop 8
  let route : CanonicalRoute := {
    nameHash := BitVec.ofNat 256 (Bytes.leNat (bs.take 32))
    destHash := BitVec.ofNat 256 (Bytes.leNat ((bs.drop 32).take 32))
    ttlS := BitVec.ofNat 32 (Bytes.leNat (((bs.drop 32).drop 32).take 4))
    version := BitVec.ofNat 64 (Bytes.leNat ((((bs.drop 32).drop 32).drop 4).take 8))
    updatedAtSlot := BitVec.ofNat 64 (Bytes.leNat (((((bs.drop 32).drop 32).drop 4).drop 8).take 8))
    lastAggregate := BitVec.ofNat 256
      (Bytes.leNat ((((((bs.drop 32).drop 32).drop 4).drop 8).drop 8).take 32))
    bump := BitVec.ofNat 8
      (Bytes.leNat (((((((bs.drop 32).drop 32).drop 4).drop 8).drop 8).drop 32).take 1)) }
  have hfields : route.fields = Bytes.fields [32, 32, 4, 8, 8, 32, 1] bs := by
    simp only [CanonicalRoute.fields, route, Bytes.fields]
    rw [toNat_leNat_take 256 _ rfl, toNat_leNat_take 256 _ rfl, toNat_leNat_take 32 _ rfl,
      toNat_leNat_take 64 _ rfl, toNat_leNat_take 64 _ rfl, toNat_leNat_take 256 _ rfl,
      toNat_leNat_take 8 _ rfl]
  refine ⟨route, data.take 8, bs.drop 117, ?_, ?_⟩
  · rw [List.length_take]
    omega
  · have hlayout := Bytes.layout_fields [32, 32, 4, 8, 8, 32, 1] bs (by
      rw [List.length_drop]
      show 117 ≤ data.length - 8
      omega)
    rw [hfields]
    exact ((congrArg (data.take 8 ++ ·) hlayout).trans (List.take_append_drop 8 data)).symm

end Decoders

/-! ## Soundness -/

/-- The account of a name, at the registry that the gateway is configured with, is a canonical route
for the name and a destination. -/
def Canonical (rt : Runtime) (accounts : Accounts) (cfg : PkdnsAdapterConfig) (name dest : JsText) :
    Prop :=
  ∃ program slot data, rt.publicKey cfg.ddnsRegistryProgramId = some program ∧
    accounts program .canonical (sha256Bytes rt (normalizeNameForHash rt name)) =
      some (slot, some data) ∧
    ∃ route : CanonicalRoute, Serializes route.fields data ∧
      route.nameHash = sha256Bytes rt (normalizeNameForHash rt name) ∧
      route.destHash = sha256Bytes rt dest

/-- The code of a status, as the program writes it. -/
def PolicyStatus.code : PolicyStatus → Nat
  | .ok => 0
  | .warn => 1
  | .quarantine => 2

/-- What is read are the values on the chain. -/
structure Exposes (policy : NamePolicyState) (decoded : PolicyDecoded) : Prop where
  status : decoded.status.code = policy.status.toNat
  confidenceBps : decoded.confidenceBps = policy.confidenceBps.toNat
  flags : decoded.flags = policy.reasonFlags.toNat
  penaltyBps : decoded.penaltyBps = policy.penaltyBps.toNat
  recommendedTtlCap : decoded.recommendedTtlCap.getD 0 = policy.recommendedTtlCap.toNat

/-- **What the adapter promises**: a destination is verified against the canonical route of the name,
and what is read from an account is what the program wrote, a status without a meaning as `OK`. -/
structure PkdnsLaw (rt : Runtime) : Prop where
  sound : ∀ accounts cfg input answer dest, resolve rt accounts cfg input = .ok (some answer) →
    answer.dest = some dest → answer.verified = true ∧ Canonical rt accounts cfg input.name dest
  canonicalRoute : ∀ (route : CanonicalRoute) data, Serializes route.fields data →
    decodeCanonicalRoute data = some {
      nameHash := toBytes route.nameHash, destHash := toBytes route.destHash,
      ttlS := route.ttlS.toNat, version := route.version.toNat,
      updatedAtSlot := route.updatedAtSlot.toNat, lastAggregate := route.lastAggregate,
      bump := route.bump.toNat }
  policyState : ∀ (policy : NamePolicyState) data, Serializes policy.fields data →
    ∃ decoded, decodeNamePolicyState data = some decoded ∧
      (2 < policy.status.toNat → decoded.status = .ok) ∧
      Exposes { policy with status := if 2 < policy.status.toNat then 0 else policy.status } decoded

section Normalization

variable {rt : Runtime} {name t u : JsText}

theorem stripDot_isPrefix (t : JsText) : stripDot t <+: t := by
  unfold stripDot
  split
  · exact List.dropLast_prefix t
  · exact List.prefix_refl t

/-- A text that neither begins nor ends with white space is trimmed. -/
theorem trim_of_ends {last : Char} (hhead : ∀ c ∈ t.head?, JsText.isWhitespace c = false)
    (hlast : [last] <:+ t) (hkept : JsText.isWhitespace last = false) : JsText.trim t = t := by
  have hdrop : t.dropWhile JsText.isWhitespace = t := by
    cases t with
    | nil => rfl
    | cons c t =>
      have hc := hhead c rfl
      exact List.dropWhile_cons_of_neg (by simp [hc])
  unfold JsText.trim
  rw [hdrop]
  exact JsText.rdropWhile_of_suffix hlast hkept

/-- A normalized `.dns` name stays as it is. -/
theorem normalizeNameForHash_idem (h : dnsSuffix <:+ normalizeNameForHash rt name) :
    normalizeNameForHash rt (normalizeNameForHash rt name) = normalizeNameForHash rt name := by
  have hs : ['s'] <:+ normalizeNameForHash rt name := by
    have hdns : ['s'] <:+ dnsSuffix := ⟨['.', 'd', 'n'], rfl⟩
    exact hdns.trans h
  have hhead : ∀ c ∈ (normalizeNameForHash rt name).head?, JsText.isWhitespace c = false :=
    rt.head_toASCII _ (JsText.head_of_prefix_trim (stripDot_isPrefix _))
  have htrim : JsText.trim (normalizeNameForHash rt name) = normalizeNameForHash rt name :=
    trim_of_ends hhead hs (by decide)
  have hstrip : stripDot (normalizeNameForHash rt name) = normalizeNameForHash rt name := by
    obtain ⟨r, hr⟩ := hs
    have hlast : (normalizeNameForHash rt name).getLast? = some 's' := by
      rw [← hr, List.getLast?_concat]
    unfold stripDot
    rw [hlast]
    rfl
  have hlower : rt.casing.toLowerCase (normalizeNameForHash rt name) =
      normalizeNameForHash rt name :=
    rt.casing.toLowerCase_eq _ (rt.hasLowerCase_toASCII _ (rt.casing.hasLowerCase_of_mem _))
  have hascii : rt.toASCII (normalizeNameForHash rt name) = normalizeNameForHash rt name :=
    rt.toASCII_toASCII _
  calc normalizeNameForHash rt (normalizeNameForHash rt name)
      = rt.toASCII (rt.casing.toLowerCase
          (stripDot (JsText.trim (normalizeNameForHash rt name)))) := rfl
    _ = normalizeNameForHash rt name := by rw [htrim, hstrip, hlower, hascii]

end Normalization

section Sound

variable {rt : Runtime} {accounts : Accounts} {cfg : PkdnsAdapterConfig} {name : JsText}
  {input : RouteInput} {answer : RouteAnswer}

/-- Where the canonical hash comes from. -/
theorem getCanonicalDestHash_ok {c : CanonicalDestHash}
    (h : getCanonicalDestHash rt accounts cfg name = .ok (some c)) :
    c.pdaNameHash = nameHashBytes rt (normalizeNameForHash rt name) ∧
      rt.publicKey cfg.ddnsRegistryProgramId = some c.programId ∧
      ∃ data, accounts c.programId .canonical c.pdaNameHash = some (c.slot, some data) ∧
        decodeCanonicalRoute data = some c.decoded ∧
        c.decoded.nameHash = toBytes c.pdaNameHash := by
  unfold getCanonicalDestHash at h
  dsimp only at h
  split at h
  · cases h
  · cases hp : rt.publicKey cfg.ddnsRegistryProgramId with
    | none =>
      rw [hp] at h
      cases h
    | some programId =>
      rw [hp] at h
      cases ha : accounts programId .canonical
          (nameHashBytes rt (normalizeNameForHash rt name)) with
      | none =>
        simp only [orThrow, bind, Except.bind, ha] at h
        cases h
      | some r =>
        obtain ⟨slot, info⟩ := r
        cases info with
        | none =>
          simp only [orThrow, bind, Except.bind, ha] at h
          cases h
        | some data =>
          cases hd : decodeCanonicalRoute data with
          | none =>
            simp only [orThrow, bind, Except.bind, ha, hd] at h
            cases h
          | some decoded =>
            simp only [orThrow, bind, Except.bind, ha, hd] at h
            split at h
            · cases h
            · next hname =>
              cases h
              exact ⟨rfl, rfl, data, ha, hd, not_not.1 hname⟩

/-- An answer with a destination is a verified candidate. -/
theorem resolve_ok {dest : JsText} (h : resolve rt accounts cfg input = .ok (some answer))
    (hdest : answer.dest = some dest) :
    dnsSuffix <:+ normalizeNameForHash rt input.name ∧
      ∃ canonical candidate policy,
        getCanonicalDestHash rt accounts cfg (normalizeNameForHash rt input.name) =
          .ok (some canonical) ∧
        answer = verifyCandidateDest rt (normalizeNameForHash rt input.name) candidate canonical
          policy := by
  unfold resolve at h
  dsimp only at h
  split at h
  · cases h
  · split at h
    · cases h
    · next hdns =>
      split at h
      · cases h
      · cases hc : getCanonicalDestHash rt accounts cfg (normalizeNameForHash rt input.name) with
        | error e =>
          simp only [bind, Except.bind, hc] at h
          cases h
        | ok found =>
          cases found with
          | none =>
            simp only [bind, Except.bind, hc] at h
            cases h
          | some canonical =>
            simp only [bind, Except.bind, hc] at h
            split at h
            · cases h
            · next policy _ =>
              split at h
              · next candidate _ =>
                cases h
                exact ⟨not_not.1 hdns, canonical, candidate, policy, rfl, rfl⟩
              · cases h
                cases hdest

/-- **Soundness**: a destination in an answer is verified against the canonical route. -/
theorem resolve_sound {dest : JsText} (h : resolve rt accounts cfg input = .ok (some answer))
    (hdest : answer.dest = some dest) :
    answer.verified = true ∧ Canonical rt accounts cfg input.name dest := by
  obtain ⟨hdns, c, candidate, policy, hc, rfl⟩ := resolve_ok h hdest
  obtain ⟨hpda, hprogram, data, hdata, hdecoded, hname⟩ := getCanonicalDestHash_ok hc
  have hidem := normalizeNameForHash_idem hdns
  have hhash : c.pdaNameHash = sha256Bytes rt (normalizeNameForHash rt input.name) := by
    rw [hpda, nameHashBytes, hidem, hidem]
  obtain ⟨route, hroute⟩ := exists_route hdecoded
  have hfields := hdecoded.symm.trans (decodeCanonicalRoute_account route hroute)
  simp only [verifyCandidateDest] at hdest ⊢
  split at hdest
  · next hok =>
    cases hdest
    refine ⟨hok, c.programId, c.slot, data, hprogram, hhash ▸ hdata, route, hroute, ?_, ?_⟩
    · apply toBytes_injective
      rw [← hhash, ← hname, Option.some.inj hfields]
    · apply toBytes_injective
      rw [← of_decide_eq_true hok, Option.some.inj hfields]
  · cases hdest

end Sound

/-! ## The programs behind it -/

/-- The account of a route of the registry program. -/
def ofRegistry (route : Registry.CanonicalRoute) (bump : BitVec 8) : CanonicalRoute where
  nameHash := route.nameHash
  destHash := route.destHash
  ttlS := BitVec.ofNat 32 route.ttlS
  version := BitVec.ofNat 64 route.version
  updatedAtSlot := BitVec.ofNat 64 route.updatedAtSlot
  lastAggregate := route.lastAggregate
  bump := bump

/-- The node shows the accounts of a registry. -/
def Shows (accounts : Accounts) (program : Pubkey) (st : Registry.State) : Prop :=
  ∀ h slot data, accounts program .canonical h = some (slot, some data) →
    ∃ route bump, st.route h = some route ∧ Serializes (ofRegistry route bump).fields data

/-- Over a registry, the destination has the hash that was finalized for the name. -/
theorem resolve_registry {rt : Runtime} {accounts : Accounts} {cfg : PkdnsAdapterConfig}
    {input : RouteInput} {answer : RouteAnswer} {dest : JsText} {program : Pubkey}
    {st : Registry.State} (hprogram : rt.publicKey cfg.ddnsRegistryProgramId = some program)
    (hshows : Shows accounts program st)
    (h : resolve rt accounts cfg input = .ok (some answer)) (hdest : answer.dest = some dest) :
    ∃ route, st.route (sha256Bytes rt (normalizeNameForHash rt input.name)) = some route ∧
      route.destHash = sha256Bytes rt dest := by
  obtain ⟨-, program', slot, data, hprogram', hdata, route, hroute, -, hhash⟩ :=
    resolve_sound h hdest
  obtain rfl : program = program' := Option.some.inj (hprogram.symm.trans hprogram')
  obtain ⟨registered, bump, hregistered, hserial⟩ := hshows _ slot data hdata
  refine ⟨registered, hregistered, ?_⟩
  have hsame := (decodeCanonicalRoute_account route hroute).symm.trans
    (decodeCanonicalRoute_account _ hserial)
  have hdests := congrArg CanonicalRouteDecoded.destHash (Option.some.inj hsame)
  exact (toBytes_injective hdests).symm.trans hhash

/-- A status of the watchdog program, as the gateway calls it. -/
def ofWatchdogStatus : WatchdogPolicy.PolicyStatus → PolicyStatus
  | .ok => .ok
  | .warn => .warn
  | .quarantine => .quarantine

/-- The account of a policy state of the watchdog program. -/
def ofWatchdog (policy : WatchdogPolicy.NamePolicyState) (bump : BitVec 8) : NamePolicyState where
  nameHash := policy.nameHash
  status := BitVec.ofNat 8 (ofWatchdogStatus policy.status).code
  confidenceBps := BitVec.ofNat 16 policy.confidenceBps
  reasonFlags := BitVec.ofNat 32 policy.reasonFlags
  lastUpdatedUnix := BitVec.ofInt 64 policy.lastUpdatedUnix
  lastEpochId := BitVec.ofNat 64 policy.lastEpochId
  rollingOk := BitVec.ofNat 32 policy.rollingOk
  rollingFail := BitVec.ofNat 32 policy.rollingFail
  rollingMismatch := BitVec.ofNat 32 policy.rollingMismatch
  distinctWatchdogsLastEpoch := BitVec.ofNat 16 policy.distinctWatchdogsLastEpoch
  penaltyBps := BitVec.ofNat 16 policy.penaltyBps
  recommendedTtlCap := BitVec.ofNat 32 policy.recommendedTtlCap
  bump := bump

/-- The status that the watchdogs gave a name is the one that the gateway reads. -/
theorem decodeNamePolicyState_watchdog {policy : WatchdogPolicy.NamePolicyState} {bump : BitVec 8}
    {data : List UInt8} (h : Serializes (ofWatchdog policy bump).fields data) :
    ∃ decoded, decodeNamePolicyState data = some decoded ∧
      decoded.status = ofWatchdogStatus policy.status := by
  refine ⟨_, decodeNamePolicyState_account _ h, ?_⟩
  have hstatus : ∀ s : PolicyStatus, statusOf (BitVec.ofNat 8 s.code).toNat = s := by
    intro s
    cases s <;> rfl
  exact hstatus _

end Ddns.Gateway.Pkdns
