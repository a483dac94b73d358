import Ddns.Attack.Model
import Ddns.CacheRollup.Server
import Ddns.Core.Registry
import Ddns.Core.ResolveHash
import Ddns.Gateway.NodeQuorum
import Ddns.Lib.FinMap
import Ddns.Lib.Run

/-!
# The resolve handler

`GET /resolve` of the gateway answers a name from the registry, from a chain, from the cache or from
an upstream DNS server, and signs what it answers (`gateway/src/server.ts`). A request that leaves the
process waits in `pending`, so requests interleave at each `await`. The answers from outside the
process are inputs, and so are the outcomes of the voucher check and of the look-up in the snapshot.
Clocks are in milliseconds and read once between two `await`s. A definition without a docstring is the
item of the source with the same words in its name.
-/

namespace Ddns.Gateway.Resolve

open Attack (AttackMode AttackThresholds)
open Core.Registry (EntryValue)

/-- What the handler takes from its platform; `signAuthority` signs with the key of the gateway. -/
structure Runtime where
  toLowerCase : JsText → JsText
  localeCompare : JsText → JsText → Ordering
  numberText : CacheRollup.NumberText
  blake3 : List UInt8 → List UInt8
  signAuthority : (privateKeyHex resultHash : JsText) → JsText

structure Config where
  registryEnabled : Bool
  enableEns : Bool
  enableSns : Bool
  gatedSuffixes : List JsText
  /-- `CACHE_TTL_MAX_S`, in whole seconds. -/
  cacheTtlMaxS : ℤ
  /-- `RESOLVER_PRIVATE_KEY_HEX`, empty when answers are not signed. -/
  privateKeyHex : JsText
  pubkeyHex : JsText
  nodeAggregatorEnabled : Bool
  nodeQuorum : ℤ
  attackModeEnabled : Bool
  attackWindowSecs : JsNum
  attackThresholds : AttackThresholds
  /-- The text of a number in the reasons of a decision. -/
  reasonText : JsNum → String

/-! ## Responses -/

inductive Network where
  | dns
  | ens
  | sns
  | icann
  deriving DecidableEq

def Network.toText : Network → JsText
  | .dns => ['d', 'n', 's']
  | .ens => ['e', 'n', 's']
  | .sns => ['s', 'n', 's']
  | .icann => ['i', 'c', 'a', 'n', 'n']

structure ResolveRecord where
  type : JsText
  value : EntryValue
  ttl : Option ℚ

inductive CacheState where
  | hit
  | miss
  deriving DecidableEq

/-- The signature, next to what comes with it. -/
structure Metadata where
  cache : Option CacheState := none
  resultHash : Option JsText := none
  authoritySig : Option JsText := none
  authorityPubKey : Option JsText := none
  deriving DecidableEq

structure ResolveResponse where
  name : JsText
  network : Network
  records : List ResolveRecord
  metadata : Metadata

/-- The errors of `verifyVoucherHeader`. -/
inductive VoucherCode where
  | required
  | notImplemented
  | other (code : JsText)
  deriving DecidableEq

/-- The errors with which a request is refused. -/
inductive Refusal where
  | missingName
  | voucher (code : VoucherCode)
  | registryDisabled
  | recordNotFound
  | anchorMismatch
  | proofInvalid
  | chainNotFound (network : Network)
  | nodeQuorumFailed (message : Option String)
  | upstreamTimeout (message : JsText)
  | upstreamError (message : JsText)
  deriving DecidableEq

def Refusal.status : Refusal → ℕ
  | .missingName => 400
  | .voucher .required => 402
  | .voucher .notImplemented => 501
  | .voucher (.other _) => 403
  | .registryDisabled => 501
  | .recordNotFound => 404
  | .anchorMismatch => 409
  | .proofInvalid => 500
  | .chainNotFound _ => 404
  | .nodeQuorumFailed _ => 502
  | .upstreamTimeout _ => 502
  | .upstreamError _ => 502

abbrev Reply := Except Refusal ResolveResponse

/-! ## The authority signature -/

def EntryValue.json : EntryValue → Json
  | .text value => .str value
  | .pair key value => .obj [(['k', 'e', 'y'], .str key), (Core.valueKey, .str value)]

/-- The object that is printed for a record; a `ttl` that is absent is not printed. -/
def ResolveRecord.json (rt : Runtime) (r : ResolveRecord) : Json :=
  .obj ([(Core.typeKey, .str r.type), (Core.valueKey, EntryValue.json r.value)] ++
    (r.ttl.map fun ttl => (['t', 't', 'l'], Json.num (rt.numberText.text ttl))).toList)

theorem EntryValue.numeric_json (v : EntryValue) : (EntryValue.json v).numeric := by
  cases v <;> rfl

theorem EntryValue.distinct_json (v : EntryValue) : (EntryValue.json v).distinct := by
  cases v with
  | text value => exact rfl
  | pair key value =>
    refine Json.distinct_obj.2 ⟨?_, ?_⟩
    · exact (by decide : [['k', 'e', 'y'], Core.valueKey].Nodup)
    · simp [Json.distinct]

theorem ResolveRecord.numeric_json (rt : Runtime) (r : ResolveRecord) : (r.json rt).numeric := by
  refine Json.numeric_obj.2 fun f hf => ?_
  rcases List.mem_append.1 hf with hf | hf
  · rcases List.mem_cons.1 hf with rfl | hf
    · rfl
    · rw [List.mem_singleton.1 hf]
      exact EntryValue.numeric_json r.value
  · obtain ⟨ttl, -, rfl⟩ := Option.map_eq_some_iff.1 (Option.mem_toList.1 hf)
    exact rt.numberText.isNumText ttl

theorem ResolveRecord.distinct_json (rt : Runtime) (r : ResolveRecord) :
    (r.json rt).distinct := by
  refine Json.distinct_obj.2 ⟨?_, fun f hf => ?_⟩
  · cases r.ttl with
    | none => exact (by decide : [Core.typeKey, Core.valueKey].Nodup)
    | some ttl => exact (by decide : [Core.typeKey, Core.valueKey, ['t', 't', 'l']].Nodup)
  · rcases List.mem_append.1 hf with hf | hf
    · rcases List.mem_cons.1 hf with rfl | hf
      · exact rfl
      · rw [List.mem_singleton.1 hf]
        exact EntryValue.distinct_json r.value
    · obtain ⟨ttl, -, rfl⟩ := Option.map_eq_some_iff.1 (Option.mem_toList.1 hf)
      exact rfl

/-- A list of records as a value of JSON. -/
def recordsValue (rt : Runtime) (records : List ResolveRecord) : JsonValue where
  tree := .arr (records.map (ResolveRecord.json rt))
  numeric := Json.numeric_arr.2 <| by
    simp only [List.forall_mem_map]
    exact fun r _ => r.numeric_json rt
  distinct := Json.distinct_arr.2 <| by
    simp only [List.forall_mem_map]
    exact fun r _ => r.distinct_json rt

/-- The part of a response that is hashed. -/
def ResolveResponse.hashInput (rt : Runtime) (payload : ResolveResponse) :
    Core.ResolveHashInput where
  name := ⟨.str payload.name, rfl, rfl⟩
  network := ⟨.str payload.network.toText, rfl, rfl⟩
  records := recordsValue rt payload.records

/-- The gateway has copies of `stableStringify` and of this hash. -/
def computeResultHash (rt : Runtime) (payload : ResolveResponse) : JsText :=
  Core.computeResolveResultHash rt.blake3 rt.localeCompare (payload.hashInput rt)

def attachAuthoritySig (rt : Runtime) (config : Config) (payload : ResolveResponse) :
    ResolveResponse :=
  if config.privateKeyHex = [] then payload
  else
    let resultHash := computeResultHash rt payload
    { payload with
      metadata := { payload.metadata with
        resultHash := some resultHash
        authoritySig := some (rt.signAuthority config.privateKeyHex resultHash)
        authorityPubKey := if config.pubkeyHex = [] then payload.metadata.authorityPubKey
          else some config.pubkeyHex } }

/-! ## The attack mode -/

/-- `ttlClampS` of `policyForMode`. -/
def ttlClampS : AttackMode → ℕ
  | .normal => 0
  | .suspicious => 300
  | .underAttack => 60
  | .isolated => 60
  | .recovery => 300

/-- The counters, and what the evaluations of the attack mode hand on. -/
structure Guard where
  windowStartUnix : ℤ
  totalReq : ℕ
  gatewayErr : ℕ
  rpcTotal : ℕ
  rpcErr : ℕ
  mode : AttackMode
  memory : Attack.Memory
  deriving DecidableEq

def Guard.resetAttackWindow (config : Config) (g : Guard) (nowUnix : ℤ) : Guard :=
  if config.attackWindowSecs.le (.fin (nowUnix - g.windowStartUnix : ℤ)) then
    { g with windowStartUnix := nowUnix, totalReq := 0, gatewayErr := 0, rpcTotal := 0, rpcErr := 0 }
  else g

/-- A percentage, `0` of nothing. -/
def percent (part total : ℕ) : ℚ := if total ≠ 0 then part * 100 / total else 0

def Guard.currentAttackPolicy (config : Config) (g : Guard) (nowUnix : ℤ) : Guard :=
  let g := g.resetAttackWindow config nowUnix
  if config.attackModeEnabled = false then { g with mode := .normal }
  else
    let decision := Attack.evaluateAttackMode config.reasonText g.mode
      { rpcFailPct := some (.fin (percent g.rpcErr g.rpcTotal))
        gatewayErrorPct := some (.fin (percent g.gatewayErr g.totalReq))
        nowUnix := some nowUnix }
      config.attackThresholds g.memory 0
    { g with mode := decision.nextMode, memory := decision.memory }

/-! ## The state -/

/-- A change of the attack mode. -/
structure ModeChange where
  time : ℤ
  mode : AttackMode
  deriving DecidableEq

/-- An entry of `cache`, next to the time its records were fetched at and the number of mode changes
before it was stored, which only statements read. -/
structure CacheEntry where
  expiresAt : ℤ
  payload : ResolveResponse
  fetchedAt : ℤ
  changesBefore : ℕ

/-- A request that awaits an answer from outside. -/
inductive Stage where
  | chain (network : Network) (name : JsText)
  | upstream (name : JsText)
  /-- `verifyWithNodes`, with what is stored when it succeeds; only statements read `clamp`, that of
  the policy when the records were fetched. -/
  | nodes (key : JsText) (effectiveTtl : ℤ) (payload : ResolveResponse) (fetchedAt : ℤ)
    (clamp : ℕ)

structure State where
  guard : Guard
  cache : FinMap JsText CacheEntry
  pending : List Stage
  /-- The changes of the attack mode so far, the last one first; only statements read them. -/
  modeChanges : List ModeChange

/-- The gateway when it starts. -/
def State.start (now : ℤ) : State where
  guard := ⟨now / 1000, 0, 0, 0, 0, .normal, ⟨none⟩⟩
  cache := .empty
  pending := []
  modeChanges := []

/-- `currentAttackPolicy(Math.floor(Date.now() / 1000))` -/
def State.currentAttackPolicy (config : Config) (s : State) (now : ℤ) : State :=
  let guard := s.guard.currentAttackPolicy config (now / 1000)
  { s with
    guard
    modeChanges := if guard.mode = s.guard.mode then s.modeChanges
      else ⟨now, guard.mode⟩ :: s.modeChanges }

/-- The clamp of the current policy. -/
def State.clamp (s : State) : ℕ := ttlClampS s.guard.mode

def State.countGatewayErr (s : State) : State :=
  { s with guard := { s.guard with gatewayErr := s.guard.gatewayErr + 1 } }

def State.countReq (s : State) : State :=
  { s with guard := { s.guard with totalReq := s.guard.totalReq + 1 } }

def State.await (s : State) (stage : Stage) : State := { s with pending := s.pending ++ [stage] }

/-- The cache without the entry, if it is stale, and the answer. -/
def cacheGet (cache : FinMap JsText CacheEntry) (key : JsText) (now : ℤ) :
    FinMap JsText CacheEntry × Option ResolveResponse :=
  match cache.get key with
  | none => (cache, none)
  | some hit => if now > hit.expiresAt then (cache.erase key, none) else (cache, some hit.payload)

def State.cacheSet (s : State) (key : JsText) (ttlMs : ℤ) (payload : ResolveResponse)
    (fetchedAt now : ℤ) : State :=
  { s with cache := s.cache.set key ⟨now + ttlMs, payload, fetchedAt, s.modeChanges.length⟩ }

/-! ## The upstream answer -/

/-- An answer of the DNS server; `data` is the text of its data, unless it has none. -/
structure DohAnswer where
  type : JsText
  data : Option JsText
  ttl : ℕ
  deriving DecidableEq

/-- A record of the answer: type, value and ttl. -/
structure DohRecord where
  type : JsText
  value : JsText
  ttl : ℕ
  deriving DecidableEq

def DohRecord.toRecord (r : DohRecord) : ResolveRecord := ⟨r.type, .text r.value, some r.ttl⟩

def dohRecords (answers : List DohAnswer) : List DohRecord :=
  answers.filterMap fun a => if a.type = [] then none else a.data.map fun data => ⟨a.type, data, a.ttl⟩

/-- `ttl` of `resolveViaDoh`, from the first record. -/
def dohTtl (config : Config) : List DohRecord → ℤ
  | [] => 60
  | r :: _ => max 30 (min config.cacheTtlMaxS (if r.ttl = 0 then 60 else r.ttl))

def effectiveTtl (clamp : ℕ) (ttl : ℤ) : ℤ := if 0 < clamp then min ttl clamp else ttl

/-! ## Requests -/

/-- What the look-up in the snapshot comes to; `thrown` leaves the request without an answer. -/
inductive Lookup where
  | notFound
  | anchorMismatch
  | proofInvalid
  | thrown
  | found (records : List ResolveRecord)

structure Request where
  name : JsText
  /-- The error of the voucher, if it has one. -/
  voucher : Option VoucherCode
  registry : Lookup

def dnsSuffix : JsText := ['.', 'd', 'n', 's']

def ensSuffix : JsText := ['.', 'e', 't', 'h']

def snsSuffix : JsText := ['.', 's', 'o', 'l']

def cacheKey (rt : Runtime) (name : JsText) : JsText :=
  ['r', 'e', 's', 'o', 'l', 'v', 'e', ':'] ++ rt.toLowerCase name

/-- Where a request is answered from. -/
inductive Source where
  | registry
  | chain (network : Network)
  | cacheOrUpstream
  deriving DecidableEq

/-- The checks before a name is looked up. -/
def Request.source (rt : Runtime) (config : Config) (req : Request) : Except Refusal Source :=
  let lowered := rt.toLowerCase req.name
  let gated := config.gatedSuffixes.any fun suffix => suffix.isSuffixOf lowered
  match (if gated then req.voucher else none) with
  | some code => .error (.voucher code)
  | none =>
    if dnsSuffix <:+ lowered then
      if config.registryEnabled then .ok .registry else .error .registryDisabled
    else if config.enableEns ∧ ensSuffix <:+ lowered then .ok (.chain .ens)
    else if config.enableSns ∧ snsSuffix <:+ lowered then .ok (.chain .sns)
    else .ok .cacheOrUpstream

/-- What the policy makes of a record of the registry. -/
def clampRecord (clamp : ℕ) (r : ResolveRecord) : ResolveRecord :=
  { r with ttl := some (min (r.ttl.getD clamp) clamp) }

def clampRecords (clamp : ℕ) (payload : ResolveResponse) : ResolveResponse :=
  if 0 < clamp then { payload with records := payload.records.map (clampRecord clamp) } else payload

/-- The registry path. -/
def State.fromRegistry (rt : Runtime) (config : Config) (s : State) (now : ℤ) (req : Request) :
    State × Option Reply :=
  match req.registry with
  | .notFound => (s, some (.error .recordNotFound))
  | .anchorMismatch => (s, some (.error .anchorMismatch))
  | .proofInvalid => (s, some (.error .proofInvalid))
  | .thrown => (s, none)
  | .found records =>
    let payload := attachAuthoritySig rt config ⟨req.name, .dns, records, {}⟩
    let s := s.currentAttackPolicy config now
    (s, some (.ok (clampRecords s.clamp payload)))

/-- The ICANN path, up to the first `await`. -/
def State.fromCache (rt : Runtime) (s : State) (now : ℤ) (name : JsText) : State × Option Reply :=
  match cacheGet s.cache (cacheKey rt name) now with
  | (cache, some cached) =>
    ({ s with cache },
      some (.ok { cached with metadata := { cached.metadata with cache := some .hit } }))
  | (cache, none) => ({ s with cache }.await (.upstream name), none)

/-- The handler, up to its first `await`. -/
def State.resolve (rt : Runtime) (config : Config) (s : State) (now : ℤ) (req : Request) :
    State × Option Reply :=
  if req.name = [] then (s, some (.error .missingName))
  else
    let s := s.countReq
    match req.source rt config with
    | .error refusal => (s, some (.error refusal))
    | .ok .registry => s.fromRegistry rt config now req
    | .ok (.chain network) => (s.await (.chain network req.name), none)
    | .ok .cacheOrUpstream => s.fromCache rt now req.name

/-! ## Answers from outside -/

/-- The records of a chain, or the message of what was thrown. -/
abbrev ChainAnswer := Except JsText (List (JsText × EntryValue))

def upstreamRefusal (timeout message : JsText) : Refusal :=
  if message = timeout then .upstreamTimeout message else .upstreamError message

/-- The message of a timeout. -/
def timeoutMessage : Network → JsText
  | .ens => "ENS_TIMEOUT".toList
  | .sns => "SNS_TIMEOUT".toList
  | _ => "upstream_timeout".toList

def chainReply (rt : Runtime) (config : Config) (network : Network) (name : JsText) :
    ChainAnswer → Reply
  | .error message => .error (upstreamRefusal (timeoutMessage network) message)
  | .ok [] => .error (.chainNotFound network)
  | .ok (r :: rs) => .ok <| attachAuthoritySig rt config
      ⟨name, network, (r :: rs).map fun r => ⟨r.1, r.2, none⟩, {}⟩

/-- What `catch` of the ICANN path does. -/
def State.upstreamFailed (s : State) (message : JsText) : State × Option Reply :=
  (s.countGatewayErr, some (.error (upstreamRefusal (timeoutMessage .icann) message)))

/-- The signed payload of the ICANN path. -/
def dohPayload (rt : Runtime) (config : Config) (name : JsText) (records : List DohRecord) :
    ResolveResponse :=
  attachAuthoritySig rt config
    ⟨name, .icann, records.map DohRecord.toRecord, { cache := some .miss }⟩

/-- The ICANN path, when the upstream server has answered or failed. -/
def State.fromDoh (rt : Runtime) (config : Config) (s : State) (name : JsText) (now : ℤ) :
    Except JsText (List DohAnswer) → State × Option Reply
  | .error message => s.upstreamFailed message
  | .ok answers =>
    let records := dohRecords answers
    let s := s.currentAttackPolicy config now
    let ttl := effectiveTtl s.clamp (dohTtl config records)
    let payload := dohPayload rt config name records
    let key := cacheKey rt name
    if config.nodeAggregatorEnabled then (s.await (.nodes key ttl payload now s.clamp), none)
    else (s.cacheSet key (ttl * 1000) payload now now, some (.ok payload))

/-- A record as it is sent to be compared with those of the nodes. -/
def ResolveRecord.toNode (rt : Runtime) (r : ResolveRecord) : NodeQuorum.ResolveRecord where
  type := r.type
  value := match r.value with
    | .text t => .text t
    | .pair key value => .object key value false
  ttl := r.ttl.map fun q => ⟨rt.numberText.text q, rt.numberText.isNumText q⟩

/-- The ICANN path, when the nodes have answered or the question to them failed. -/
def State.fromNodes (rt : Runtime) (config : Config) (s : State) (key : JsText) (ttl : ℤ)
    (payload : ResolveResponse) (fetchedAt now : ℤ) :
    Except JsText (List NodeQuorum.Asked) → State × Option Reply
  | .error message => s.upstreamFailed message
  | .ok asked =>
    let result := NodeQuorum.verifyWithNodes rt.localeCompare config.nodeQuorum
      (payload.records.map (ResolveRecord.toNode rt)) asked
    if result.ok then (s.cacheSet key (ttl * 1000) payload fetchedAt now, some (.ok payload))
    else (s, some (.error (.nodeQuorumFailed result.message)))

/-! ## Steps -/

/-- Each request of the gateway passes the gate of the attack mode first, which evaluates the mode;
`evaluate` is one for another handler. -/
inductive Input where
  | rpc (failed : Bool)
  | evaluate (now : ℤ)
  | request (now : ℤ) (req : Request)
  | chainDone (k : ℕ) (answer : ChainAnswer)
  | dohDone (k : ℕ) (now : ℤ) (answer : Except JsText (List DohAnswer))
  | nodesDone (k : ℕ) (now : ℤ) (answer : Except JsText (List NodeQuorum.Asked))

/-- The requests that wait, without the `k`-th. -/
def State.resume (s : State) (k : ℕ) : State := { s with pending := s.pending.eraseIdx k }

def State.countRpc (s : State) (failed : Bool) : State :=
  { s with guard := { s.guard with
      rpcTotal := s.guard.rpcTotal + 1
      rpcErr := if failed then s.guard.rpcErr + 1 else s.guard.rpcErr } }

def step (rt : Runtime) (config : Config) (s : State) : Input → State × Option Reply
  | .rpc failed => (s.countRpc failed, none)
  | .evaluate now => (s.currentAttackPolicy config now, none)
  | .request now req => (s.currentAttackPolicy config now).resolve rt config now req
  | .chainDone k answer =>
    match s.pending[k]? with
    | some (.chain network name) => (s.resume k, some (chainReply rt config network name answer))
    | _ => (s, none)
  | .dohDone k now answer =>
    match s.pending[k]? with
    | some (.upstream name) => (s.resume k).fromDoh rt config name now answer
    | _ => (s, none)
  | .nodesDone k now answer =>
    match s.pending[k]? with
    | some (.nodes key ttl payload fetchedAt _) =>
      (s.resume k).fromNodes rt config key ttl payload fetchedAt now answer
    | _ => (s, none)

end Ddns.Gateway.Resolve
