import Ddns.Lib.Base64
import Ddns.Lib.FinMap
import Ddns.Lib.Hex
import Ddns.Lib.Run

/-!
# Signed cache entries

`POST /cache/upsert` stores the value of a payload that the wallet has signed, in the cache of a
mint, under a key that is glued from the mint, the name and the type. The body has the types that
`docs/DOH_TRDL.md` shows; a missing field is empty or zero, which the handler refuses alike. What
the chain answers and whether the attack mode freezes writes is part of a request; a request
counts when it ends, since nothing is read or stored before its last check. A definition without a
docstring is the item of the source with the same words in its name.
-/

namespace Ddns.Gateway.SignedCache

/-- What the handler takes from the platform; `ed.verify` may throw. -/
structure Runtime where
  toLowerCase : JsText → JsText
  /-- `JSON.stringify` of a number. -/
  numberText : JsNum → JsText
  sha256 : List UInt8 → List UInt8
  edVerify : List UInt8 → List UInt8 → List UInt8 → Option Bool

structure Payload where
  mint : JsText
  walletPubkey : JsText
  name : JsText
  rrtype : JsText
  value : JsText
  ttl : JsNum
  ts : JsNum
  deriving DecidableEq

/-- A request, with the time at its end. -/
structure Request where
  payload : Payload
  sig : JsText
  freezeWrites : Bool
  mintExists : Bool
  mintOwner : Option JsText
  now : ℚ

structure CacheEntry where
  rrtype : JsText
  value : JsText
  ttl : JsNum
  expiresAt : JsNum
  walletPubkey : JsText
  deriving DecidableEq

/-- `mintCaches` -/
abbrev MintCaches := FinMap JsText (FinMap JsText CacheEntry)

inductive UpsertError where
  | attackModeFreezeWrites
  | missingFields
  | invalidPubkey
  | mintNotFound
  | ownerMismatch
  | sigInvalid
  | thrown
  deriving DecidableEq

/-- The status of the answer, and its `error` except for what was thrown. -/
def UpsertError.answer : UpsertError → ℕ × Option String
  | .attackModeFreezeWrites => (503, some "attack_mode_freeze_writes")
  | .missingFields => (400, some "missing_fields")
  | .invalidPubkey => (400, some "invalid_pubkey")
  | .mintNotFound => (400, some "mint_not_found")
  | .ownerMismatch => (403, some "owner_mismatch")
  | .sigInvalid => (403, some "sig_invalid")
  | .thrown => (500, none)

/-! ## Keys and hashes -/

def base58Alphabet : JsText :=
  "123456789ABCDEFGHJKLMNPQRSTUVWXYZabcdefghijkmnopqrstuvwxyz".toList

def isBase58Pubkey (value : JsText) : Bool :=
  32 ≤ value.length && value.length ≤ 44 && value.all (base58Alphabet.contains ·)

/-- The digits of `base58Decode`, in reverse, times 58 and with a carry. The carry stays below 58, so
the last loop pushes one byte at most. -/
def mulAdd : List UInt8 → ℕ → List UInt8
  | [], carry => if carry = 0 then [] else [UInt8.ofNat carry]
  | byte :: bytes, carry =>
    UInt8.ofNat (carry + byte.toNat * 58) :: mulAdd bytes ((carry + byte.toNat * 58) / 256)

def base58Digits : JsText → List UInt8 → Option (List UInt8)
  | [], bytes => some bytes
  | ch :: input, bytes =>
    match base58Alphabet.idxOf? ch with
    | none => none
    | some val => base58Digits input (mulAdd bytes val)

def base58Decode (input : JsText) : Option (List UInt8) :=
  (base58Digits input [0]).map fun bytes =>
    (bytes ++ List.replicate (input.takeWhile (· = '1')).length 0).reverse

def canonicalize (value : Json) : JsText := value.print (Json.sortByKey JsText.compareUnits)

def Payload.toJson (rt : Runtime) (p : Payload) : Json :=
  .obj [("mint".toList, .str p.mint), ("wallet_pubkey".toList, .str p.walletPubkey),
    ("name".toList, .str p.name), ("rrtype".toList, .str p.rrtype),
    ("value".toList, .str p.value), ("ttl".toList, .num (rt.numberText p.ttl)),
    ("ts".toList, .num (rt.numberText p.ts))]

/-- The bytes that `payloadHashHex` prints. -/
def payloadHash (rt : Runtime) (p : Payload) : List UInt8 :=
  rt.sha256 (canonicalize (p.toJson rt)).utf8

def payloadHashHex (rt : Runtime) (p : Payload) : JsText := Hex.ofBytes (payloadHash rt p)

def cacheKey (rt : Runtime) (mint name rrtype : JsText) : JsText :=
  mint ++ ':' :: (rt.toLowerCase name ++ ':' :: rrtype)

/-! ## The handler -/

/-- The checks of the handler, in order. -/
def check (rt : Runtime) (requireMintOwner : Bool) (req : Request) : Except UpsertError Unit :=
  let p := req.payload
  if req.freezeWrites then .error .attackModeFreezeWrites
  else if p.mint = [] ∨ p.walletPubkey = [] ∨ p.name = [] ∨ p.rrtype = [] ∨ p.value = [] ∨
      p.ttl.truthy = false ∨ p.ts.truthy = false ∨ req.sig = [] then
    .error .missingFields
  else if (isBase58Pubkey p.mint && isBase58Pubkey p.walletPubkey) = false then
    .error .invalidPubkey
  else if req.mintExists = false then .error .mintNotFound
  else if requireMintOwner ∧ req.mintOwner ≠ some p.walletPubkey then .error .ownerMismatch
  else match base58Decode p.walletPubkey with
    | none => .error .sigInvalid
    | some pubBytes =>
      match rt.edVerify (JsText.decodeBase64 req.sig) (payloadHash rt p) pubBytes with
      | none => .error .thrown
      | some false => .error .sigInvalid
      | some true => .ok ()

def Payload.entry (p : Payload) (now : ℚ) : CacheEntry where
  rrtype := p.rrtype
  value := p.value
  ttl := p.ttl
  expiresAt := (JsNum.fin now).add ((p.ttl.min (.fin 3600)).mul (.fin 1000))
  walletPubkey := p.walletPubkey

def store (rt : Runtime) (caches : MintCaches) (p : Payload) (now : ℚ) : MintCaches :=
  let bucket := (caches.get p.mint).getD .empty
  caches.set p.mint (bucket.set (cacheKey rt p.mint p.name p.rrtype) (p.entry now))

/-- `POST /cache/upsert`, answered with the `route_id`. -/
def upsert (rt : Runtime) (requireMintOwner : Bool) (caches : MintCaches) (req : Request) :
    MintCaches × Except UpsertError JsText :=
  match check rt requireMintOwner req with
  | .error e => (caches, .error e)
  | .ok () => (store rt caches req.payload req.now, .ok (payloadHashHex rt req.payload))

/-! ## The law -/

/-- What is stored for a mint, a name and a type. -/
def stored (rt : Runtime) (caches : MintCaches) (mint name rrtype : JsText) : Option CacheEntry :=
  (caches.get mint).bind fun bucket => bucket.get (cacheKey rt mint name rrtype)

/-- The payload is for exactly this mint, name and type; the name in any case. -/
def Payload.IsFor (rt : Runtime) (p : Payload) (mint name rrtype : JsText) : Prop :=
  p.mint = mint ∧ rt.toLowerCase p.name = rt.toLowerCase name ∧ p.rrtype = rrtype

instance (rt : Runtime) (p : Payload) (mint name rrtype : JsText) :
    Decidable (p.IsFor rt mint name rrtype) := inferInstanceAs (Decidable (_ ∧ _))

/-- The payloads for one mint, name and type. -/
def payloadsFor (rt : Runtime) (accepted : List Payload) (mint name rrtype : JsText) :
    List Payload :=
  accepted.filter fun p => p.IsFor rt mint name rrtype

/-- The entry has the values of the payload. -/
structure CacheEntry.Shows (e : CacheEntry) (p : Payload) : Prop where
  rrtype : e.rrtype = p.rrtype
  value : e.value = p.value
  ttl : e.ttl = p.ttl
  walletPubkey : e.walletPubkey = p.walletPubkey

/-- No payload has a greater `ts`. -/
def Newest (l : List Payload) (p : Payload) : Prop := p ∈ l ∧ ∀ q ∈ l, q.ts.le p.ts = true

/-- For every mint, name and type, what is stored are the values of the accepted payload with the
greatest `ts`, and nothing is stored where none was accepted. -/
def NewestStored (rt : Runtime) (accepted : List Payload) (caches : MintCaches) : Prop :=
  ∀ mint name rrtype,
    match stored rt caches mint name rrtype with
    | none => payloadsFor rt accepted mint name rrtype = []
    | some e => ∃ p, Newest (payloadsFor rt accepted mint name rrtype) p ∧ e.Shows p

/-- The payloads that were accepted, with the one of the last request. -/
def observe (accepted : List Payload)
    (e : Runs.Event MintCaches Request (Except UpsertError JsText)) : List Payload :=
  match e.out with
  | .ok _ => accepted ++ [e.input.payload]
  | .error _ => accepted

/-- No other name and type is glued to the key of the payload. -/
def OwnKey (rt : Runtime) (p : Payload) : Prop :=
  ∀ name rrtype, cacheKey rt p.mint name rrtype = cacheKey rt p.mint p.name p.rrtype →
    rt.toLowerCase name = rt.toLowerCase p.name ∧ rrtype = p.rrtype

/-- The payload has the greatest `ts` of those that were accepted for its mint, name and type, or
the values of the one that has. -/
def UpToDate (rt : Runtime) (accepted : List Payload) (p : Payload) : Prop :=
  ∃ q, Newest (payloadsFor rt (accepted ++ [p]) p.mint p.name p.rrtype) q ∧ q.value = p.value ∧
    q.ttl = p.ttl ∧ q.walletPubkey = p.walletPubkey

/-- The condition on a request that is accepted. -/
def InOrder (rt : Runtime) (requireMintOwner : Bool) (accepted : List Payload) (req : Request) :
    Prop :=
  check rt requireMintOwner req = .ok () → OwnKey rt req.payload ∧ UpToDate rt accepted req.payload

section

variable {rt : Runtime} {requireMintOwner : Bool} {caches : MintCaches} {accepted : List Payload}
  {p q : Payload} {req : Request} {mint name rrtype : JsText} {now : ℚ}

/-- What a payload stores, and what it leaves. -/
theorem stored_store (rt : Runtime) (caches : MintCaches) (p : Payload) (now : ℚ)
    (mint name rrtype : JsText) : stored rt (store rt caches p now) mint name rrtype =
      if mint = p.mint ∧ cacheKey rt p.mint name rrtype = cacheKey rt p.mint p.name p.rrtype then
        some (p.entry now)
      else stored rt caches mint name rrtype := by
  unfold stored store
  rw [FinMap.get_set]
  by_cases hmint : mint = p.mint
  · rw [if_pos hmint, Option.bind_some, FinMap.get_set, hmint]
    by_cases hkey : cacheKey rt p.mint name rrtype = cacheKey rt p.mint p.name p.rrtype
    · rw [if_pos hkey, if_pos ⟨rfl, hkey⟩]
    · rw [if_neg hkey, if_neg fun h => hkey h.2]
      cases caches.get p.mint <;> rfl
  · rw [if_neg hmint, if_neg fun h => hmint h.1]

theorem shows_entry (p q : Payload) (now : ℚ) : (p.entry now).Shows q ↔
    p.rrtype = q.rrtype ∧ p.value = q.value ∧ p.ttl = q.ttl ∧ p.walletPubkey = q.walletPubkey :=
  ⟨fun h => ⟨h.rrtype, h.value, h.ttl, h.walletPubkey⟩, fun h => ⟨h.1, h.2.1, h.2.2.1, h.2.2.2⟩⟩

theorem mem_payloadsFor :
    p ∈ payloadsFor rt accepted mint name rrtype ↔ p ∈ accepted ∧ p.IsFor rt mint name rrtype := by
  rw [payloadsFor, List.mem_filter, decide_eq_true_eq]

/-- The payloads for one name and type are those for another one in other case. -/
theorem payloadsFor_congr (h : p.IsFor rt mint name rrtype) :
    payloadsFor rt accepted mint name rrtype = payloadsFor rt accepted p.mint p.name p.rrtype := by
  obtain ⟨rfl, hname, rfl⟩ := h
  refine List.filter_congr fun q _ => decide_eq_decide.2 ?_
  unfold Payload.IsFor
  rw [hname]

/-- A payload for something else does not count. -/
theorem payloadsFor_concat (h : ¬p.IsFor rt mint name rrtype) :
    payloadsFor rt (accepted ++ [p]) mint name rrtype =
      payloadsFor rt accepted mint name rrtype := by
  rw [payloadsFor, List.filter_append, List.filter_cons_of_neg (by simpa using h), List.filter_nil,
    List.append_nil, payloadsFor]

theorem cacheKey_of_isFor (h : p.IsFor rt mint name rrtype) :
    cacheKey rt p.mint name rrtype = cacheKey rt p.mint p.name p.rrtype := by
  unfold cacheKey
  rw [h.2.1, h.2.2]

/-- **An accepted payload keeps the law exactly if it meets the condition.** -/
theorem newestStored_store_iff (h : NewestStored rt accepted caches) (p : Payload) (now : ℚ) :
    NewestStored rt (accepted ++ [p]) (store rt caches p now) ↔
      OwnKey rt p ∧ UpToDate rt accepted p := by
  constructor
  · intro hafter
    constructor
    · -- what another name and type would find there is an entry of the wrong type
      intro name rrtype hkey
      have hslot := hafter p.mint name rrtype
      rw [stored_store, if_pos ⟨rfl, hkey⟩] at hslot
      obtain ⟨q, hq, hshows⟩ := hslot
      obtain ⟨-, -, hname, htype⟩ := mem_payloadsFor.1 hq.1
      have htypes : p.rrtype = rrtype := hshows.rrtype.trans htype
      refine ⟨?_, htypes.symm⟩
      unfold cacheKey at hkey
      rw [htypes] at hkey
      have hglued := List.append_cancel_left hkey
      rw [List.cons.injEq] at hglued
      exact List.append_cancel_right hglued.2
    · have hslot := hafter p.mint p.name p.rrtype
      rw [stored_store, if_pos ⟨rfl, rfl⟩] at hslot
      obtain ⟨q, hq, hshows⟩ := hslot
      exact ⟨q, hq, hshows.value.symm, hshows.ttl.symm, hshows.walletPubkey.symm⟩
  · rintro ⟨hkey, q, hq, hvalue, httl, hwallet⟩ mint name rrtype
    rw [stored_store]
    by_cases hfor : p.IsFor rt mint name rrtype
    · rw [if_pos ⟨hfor.1.symm, cacheKey_of_isFor hfor⟩]
      have htype := (mem_payloadsFor.1 hq.1).2.2.2
      refine ⟨q, ?_, (shows_entry p q now).2 ⟨htype.symm, hvalue.symm, httl.symm, hwallet.symm⟩⟩
      rw [payloadsFor_congr hfor]
      exact hq
    · rw [payloadsFor_concat hfor, if_neg]
      · exact h mint name rrtype
      · rintro ⟨rfl, hsame⟩
        obtain ⟨hname, htype⟩ := hkey name rrtype hsame
        exact hfor ⟨rfl, hname.symm, htype.symm⟩

/-- A request that is refused changes nothing. -/
theorem monitored_of_error {e : UpsertError} (h : check rt requireMintOwner req = .error e) :
    (Runs.monitored (upsert rt requireMintOwner) observe (caches, accepted) req).1 =
      (caches, accepted) := by
  have hstep : upsert rt requireMintOwner caches req = (caches, .error e) := by
    rw [upsert, h]
  show ((upsert rt requireMintOwner caches req).1,
    observe accepted (Runs.event (upsert rt requireMintOwner) caches req)) = _
  rw [observe, Runs.event_out, hstep]

/-- A request that is accepted stores its payload. -/
theorem monitored_of_ok (h : check rt requireMintOwner req = .ok ()) :
    (Runs.monitored (upsert rt requireMintOwner) observe (caches, accepted) req).1 =
      (store rt caches req.payload req.now, accepted ++ [req.payload]) := by
  have hstep : upsert rt requireMintOwner caches req =
      (store rt caches req.payload req.now, .ok (payloadHashHex rt req.payload)) := by
    rw [upsert, h]
  show ((upsert rt requireMintOwner caches req).1,
    observe accepted (Runs.event (upsert rt requireMintOwner) caches req)) = _
  rw [observe, Runs.event_out, Runs.event_input, hstep]

theorem newestStored_empty (rt : Runtime) : NewestStored rt [] .empty := fun _ _ _ => rfl

end

/-! ## A replay -/

def exampleRuntime : Runtime where
  toLowerCase := id
  numberText := fun _ => []
  sha256 := id
  edVerify := fun _ _ _ => some true

/-- The address of the wrapped SOL mint, as a mint and as a wallet. -/
def exampleKey : JsText := "So11111111111111111111111111111111111111112".toList

def exampleRequest (value : JsText) (ts : ℚ) : Request where
  payload := ⟨exampleKey, exampleKey, ['a'], ['A'], value, .fin 300, .fin ts⟩
  sig := ['A']
  freezeWrites := false
  mintExists := true
  mintOwner := none
  now := 0

end Ddns.Gateway.SignedCache
