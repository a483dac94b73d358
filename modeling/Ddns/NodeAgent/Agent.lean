import Ddns.NodeAgent.Agreement
import Ddns.NodeAgent.CacheLaw
import Ddns.Core.Registry

/-!
# The node agent

The agent fetches the names that are hot from a resolver, one after the other, stores the responses that
pass its check, and serves them until they expire (`tasks/prefetch.rs`, `http_server.rs`, `verify.rs`).
In every run a response that is served is the last one that was stored for the name, within its ttl, and
its receipt repeats one that the agent sent when it fetched it (`served_is_last`). With room for the hot
names the agent serves that response and nothing else, and its queue of keys grows for ever
(`serves_last_iff`). A definition without a docstring
is the item of the source with the same words in its name.
-/

namespace Ddns.NodeAgent

open Core.Registry (bytesToHex)

/-- What the agent takes from its crates and its platform: the two hashes, the reader of JSON, and the
last `Instant`. -/
structure Crates where
  sha256 : List UInt8 → List UInt8
  blake3 : List UInt8 → List UInt8
  fromStr : JsText → Option Value
  instantMax : ℕ

/-! ## The check of a response -/

structure ProofStep where
  hash : JsText
  position : JsText

def leftText : JsText := ['l', 'e', 'f', 't']

/-- What a step of the proof makes of the hash so far. -/
def ProofStep.combine (crates : Crates) (computed : JsText) (step : ProofStep) : JsText :=
  let combined := if step.position = leftText then step.hash ++ computed else computed ++ step.hash
  bytesToHex (crates.sha256 combined.utf8)

def verifyProof (crates : Crates) (root leaf : JsText) (proof : List ProofStep) : Bool :=
  proof.foldl (ProofStep.combine crates) leaf = root

/-- `get`, of a key. -/
def Value.get (key : JsText) : Value → Option Value
  | .object map => (map.find? fun e => e.1 = key).map Prod.snd
  | _ => none

def Value.asStr : Value → Option JsText
  | .string s => some s
  | _ => none

def hashKey : JsText := ['h', 'a', 's', 'h']
def positionKey : JsText := ['p', 'o', 's', 'i', 't', 'i', 'o', 'n']
def metadataKey : JsText := ['m', 'e', 't', 'a', 'd', 'a', 't', 'a']
def proofKey : JsText := ['p', 'r', 'o', 'o', 'f']
def rootKey : JsText := ['r', 'o', 'o', 't']
def leafKey : JsText := ['l', 'e', 'a', 'f']

/-- A step is read from an object, or from an array of its two fields. -/
def ProofStep.fromValue : Value → Option ProofStep
  | .object map =>
    match ((Value.object map).get hashKey).bind Value.asStr,
      ((Value.object map).get positionKey).bind Value.asStr with
    | some hash, some position => some ⟨hash, position⟩
    | _, _ => none
  | .array [.string hash, .string position] => some ⟨hash, position⟩
  | _ => none

/-- `from_value`, for a list of steps. -/
def stepsFromValue : Value → Option (List ProofStep)
  | .array items => items.mapM ProofStep.fromValue
  | _ => none

/-- What `should_cache_response` does with a proof. -/
def Value.proves (crates : Crates) (proof : Value) : Bool :=
  match (proof.get rootKey).bind Value.asStr, (proof.get leafKey).bind Value.asStr,
    proof.get proofKey with
  | some root, some leaf, some steps =>
    match stepsFromValue steps with
    | some steps => verifyProof crates root leaf steps
    | none => false
  | _, _, _ => false

def shouldCacheResponse (crates : Crates) (body : JsText) : Bool :=
  match crates.fromStr body with
  | none => false
  | some value =>
    match (value.get metadataKey).bind (Value.get proofKey) with
    | none => true
    | some proof => proof.proves crates

/-! ## The agent -/

structure Config where
  nodeId : JsText
  hotNames : List JsText
  ttlSeconds : ℕ
  maxCacheItems : ℕ
  maxCachedBytes : ℕ

/-- `Duration::from_secs(ttl_seconds)` -/
def Config.ttl (config : Config) : ℕ := config.ttlSeconds * 1000000000

/-- Where the prefetch loop is: it awaits the response for a name, or sleeps, or a panic ended it. -/
inductive Loop where
  | fetching (name : JsText) (rest : List JsText)
  | sleeping
  | ended
  deriving DecidableEq

/-- The rest of a round. -/
def Loop.through : List JsText → Loop
  | [] => .sleeping
  | name :: rest => .fetching name rest

structure State where
  cache : Cache
  loop : Loop

def State.start (config : Config) : State where
  cache := .new config.maxCacheItems config.maxCachedBytes
  loop := .through config.hotNames

def hashResponse (crates : Crates) (body : JsText) : JsText :=
  JsText.encodeBase64 (crates.blake3 body.utf8)

/-- The receipt for the response of a name. -/
def receiptFor (config : Config) (receiptType : JsText) (ts : UInt64) (name resultHash : JsText)
    (bytes : ℕ) : Receipt where
  receiptType := receiptType
  nodeId := config.nodeId
  ts := ts
  request := some ⟨name⟩
  resultHash := some resultHash
  bytes := some (.ofNat bytes)
  details := none

def serveType : JsText := ['S', 'E', 'R', 'V', 'E']
def verifyType : JsText := ['V', 'E', 'R', 'I', 'F', 'Y']

/-- An answer of the HTTP server. -/
inductive HttpReply where
  | served (body : JsText)
  | notCached
  | rateLimited
  /-- A signed receipt about nothing. -/
  | audited (receipt : Receipt)

/-- What a step sends: an answer, and a signed receipt to the coordinator. -/
structure Output where
  reply : Option HttpReply := none
  posted : Option Receipt := none

/-- The response for the name that the loop awaits; `none` if there is none with a status and a text
that count. -/
def State.fetched (crates : Crates) (config : Config) (s : State) (now : ℕ) (ts : UInt64)
    (body : Option JsText) : State × Output :=
  match s.loop with
  | .fetching name rest =>
    match body.filter (shouldCacheResponse crates) with
    | none => ({ s with loop := .through rest }, {})
    | some body =>
      let resultHash := hashResponse crates body
      match s.cache.set crates.instantMax now name body config.ttl resultHash with
      | (cache, .panicked) => (⟨cache, .ended⟩, {})
      | (cache, _) => (⟨cache, .through rest⟩,
          { posted := some (receiptFor config verifyType ts name resultHash (Cache.size body)) })
  | _ => (s, {})

def State.woken (config : Config) (s : State) : State :=
  match s.loop with
  | .sleeping => { s with loop := .through config.hotNames }
  | _ => s

/-- `GET /resolve`, where the limiter admits it. -/
def State.resolve (config : Config) (s : State) (now : ℕ) (ts : UInt64) (name : JsText) :
    State × Output :=
  match s.cache.get now name with
  | (cache, some item) => ({ s with cache },
      { reply := some (.served item.body)
        posted := some (receiptFor config serveType ts name item.resultHash item.bytes) })
  | (cache, none) => ({ s with cache }, { reply := some .notCached })

def respondToAuditStub (config : Config) (ts : UInt64) : Receipt where
  receiptType := verifyType
  nodeId := config.nodeId
  ts := ts
  request := none
  resultHash := none
  bytes := none
  details := none

/-- What wakes the agent, with the readings of its two clocks and the answer of the limiter. -/
inductive Input where
  | fetched (now : ℕ) (ts : UInt64) (body : Option JsText)
  | woken
  | resolve (now : ℕ) (ts : UInt64) (name : JsText) (admitted : Bool)
  | audit (ts : UInt64) (admitted : Bool)

def step (crates : Crates) (config : Config) (s : State) : Input → State × Output
  | .fetched now ts body => s.fetched crates config now ts body
  | .woken => (s.woken config, {})
  | .resolve now ts name admitted =>
    if admitted then s.resolve config now ts name else (s, { reply := some .rateLimited })
  | .audit ts admitted =>
    (s, { reply := some (if admitted then .audited (respondToAuditStub config ts) else .rateLimited) })

abbrev Event := Runs.Event State Input Output

/-! ## What is served -/

/-- The name that the loop awaits. -/
def Loop.awaited : Loop → Option JsText
  | .fetching name _ => some name
  | _ => none

/-- The response that comes in, with the time. -/
def Input.response : Input → Option (ℕ × JsText)
  | .fetched now _ (some body) => some (now, body)
  | _ => none

section Agent

variable (crates : Crates) (config : Config)

/-- What an event stores: the name, the time and the response. -/
def storedBy (e : Event) : Option (JsText × ℕ × JsText) :=
  match e.input.response with
  | none => none
  | some (now, body) =>
    if shouldCacheResponse crates body ∧ Cache.size body ≤ config.maxCachedBytes ∧
      now + config.ttl ≤ crates.instantMax then e.pre.loop.awaited.map fun name => (name, now, body)
    else none

/-- The last response that was stored for a name, with its time. -/
def lastStored (l : List Event) (name : JsText) : Option (ℕ × JsText) :=
  (((l.filterMap (storedBy crates config)).filter fun e => e.1 = name).getLast?).map Prod.snd

/-- The entry of a response. -/
def itemFor (time : ℕ) (body : JsText) : CachedItem :=
  Cache.itemOf time body config.ttl (hashResponse crates body)

variable {crates config} {s : State} {l : List Event} {e : Event} {name k : JsText} {item : CachedItem}
  {time now : ℕ} {body : JsText} {ts : UInt64}

theorem lastStored_append_none (h : storedBy crates config e = none) :
    lastStored crates config (l ++ [e]) k = lastStored crates config l k := by
  unfold lastStored
  rw [Runs.filterMap_concat_none h]

theorem lastStored_append_self (h : storedBy crates config e = some (name, time, body)) :
    lastStored crates config (l ++ [e]) name = some (time, body) := by
  unfold lastStored
  rw [Runs.filterMap_concat_some h, List.filter_append]
  simp

theorem lastStored_append_ne (h : storedBy crates config e = some (name, time, body)) (hk : k ≠ name) :
    lastStored crates config (l ++ [e]) k = lastStored crates config l k := by
  unfold lastStored
  rw [Runs.filterMap_concat_some h, List.filter_append]
  simp [hk.symm]

/-- What was stored last was stored by an event. -/
theorem exists_of_lastStored (h : lastStored crates config l name = some (time, body)) :
    ∃ e ∈ l, storedBy crates config e = some (name, time, body) := by
  unfold lastStored at h
  obtain ⟨⟨name', time', body'⟩, hlast, heq⟩ := Option.map_eq_some_iff.1 h
  cases heq
  obtain ⟨hmem, hname⟩ := List.mem_filter.1 (List.mem_of_getLast? hlast)
  obtain rfl : name' = name := of_decide_eq_true hname
  exact List.mem_filterMap.1 hmem

/-! ### One step -/

/-- The receipt that is sent for a response. -/
def verifyReceipt (crates : Crates) (config : Config) (ts : UInt64) (name body : JsText) : Receipt :=
  receiptFor config verifyType ts name (hashResponse crates body) (Cache.size body)

theorem fetched_refused (config : Config) (c : Cache) (name : JsText) (rest : List JsText) (now : ℕ) (ts : UInt64)
    {body : Option JsText} (h : body.filter (shouldCacheResponse crates) = none) :
    State.fetched crates config ⟨c, .fetching name rest⟩ now ts body =
      (⟨c, .through rest⟩, {}) := by
  unfold State.fetched
  dsimp only
  rw [h]

/-- A response that passes the check: one that is too large is not stored and still receipted, one that
would expire too late ends the loop. -/
theorem fetched_accepted (config : Config) (c : Cache) (name : JsText) (rest : List JsText) (now : ℕ) (ts : UInt64)
    (h : shouldCacheResponse crates body = true) :
    State.fetched crates config ⟨c, .fetching name rest⟩ now ts (some body) =
      if c.maxBytes < Cache.size body then
        (⟨c, .through rest⟩, { posted := some (verifyReceipt crates config ts name body) })
      else if crates.instantMax < now + config.ttl then (⟨c, .ended⟩, {})
      else (⟨(c.insert name (itemFor crates config now body)).trim, .through rest⟩,
        { posted := some (verifyReceipt crates config ts name body) }) := by
  unfold State.fetched Cache.set
  dsimp only
  rw [Option.filter_some_pos h]
  dsimp only
  by_cases hsize : c.maxBytes < Cache.size body
  · rw [if_pos hsize, if_pos hsize]
    rfl
  · rw [if_neg hsize, if_neg hsize]
    by_cases hlate : crates.instantMax < now + config.ttl
    · rw [if_pos hlate, if_pos hlate]
    · rw [if_neg hlate, if_neg hlate]
      rfl

/-- What a step does with the entries: it stores the response of its event, it drops what has expired
by the time it reads, or it leaves them. -/
inductive Entries (crates : Crates) (config : Config) (e : Event) : Prop where
  | stored {name body : JsText} {time : ℕ} {ts : UInt64}
      (hstored : storedBy crates config e = some (name, time, body))
      (hposted : e.out.posted = some (verifyReceipt crates config ts name body))
      (hcache : e.post.cache = (e.pre.cache.insert name (itemFor crates config time body)).trim)
  | evicted {now : ℕ} {ts : UInt64} {name : JsText} (hinput : e.input = .resolve now ts name true)
      (hnone : storedBy crates config e = none) (hcache : e.post.cache = e.pre.cache.evictExpired now)
  | kept (hnone : storedBy crates config e = none) (hcache : e.post.cache = e.pre.cache)

/-- **What a step does with the entries.** -/
theorem entries_event (hmax : s.cache.maxBytes = config.maxCachedBytes) (i : Input) :
    Entries crates config (Runs.event (step crates config) s i) := by
  cases i with
  | woken =>
    refine .kept rfl ?_
    show (s.woken config).cache = s.cache
    unfold State.woken
    split <;> rfl
  | audit ts admitted => exact .kept rfl rfl
  | resolve now ts name admitted =>
    cases admitted with
    | false => exact .kept rfl rfl
    | true =>
      refine .evicted rfl rfl ?_
      show (s.resolve config now ts name).1.cache = s.cache.evictExpired now
      unfold State.resolve Cache.get
      dsimp only
      cases (s.cache.evictExpired now).entries.get name <;> rfl
  | fetched now ts body =>
    obtain ⟨c, loop⟩ := s
    cases body with
    | none =>
      refine .kept rfl ?_
      show (State.fetched crates config ⟨c, loop⟩ now ts none).1.cache = c
      cases loop <;> rfl
    | some body =>
      have hresponse : storedBy crates config (Runs.event (step crates config) ⟨c, loop⟩
          (.fetched now ts (some body))) = if shouldCacheResponse crates body ∧
            Cache.size body ≤ config.maxCachedBytes ∧ now + config.ttl ≤ crates.instantMax then
              loop.awaited.map fun name => (name, now, body) else none := rfl
      cases loop with
      | sleeping =>
        refine .kept ?_ rfl
        rw [hresponse]
        split <;> rfl
      | ended =>
        refine .kept ?_ rfl
        rw [hresponse]
        split <;> rfl
      | fetching name rest =>
        change c.maxBytes = _ at hmax
        by_cases hcheck : shouldCacheResponse crates body = true
        · have hstep := fetched_accepted config c name rest now ts hcheck
          rw [hmax] at hstep
          by_cases hsize : config.maxCachedBytes < Cache.size body
          · rw [if_pos hsize] at hstep
            refine .kept ?_ (congrArg (fun r => r.1.cache) hstep)
            rw [hresponse, if_neg (by omega)]
          · rw [if_neg hsize] at hstep
            by_cases hlate : crates.instantMax < now + config.ttl
            · rw [if_pos hlate] at hstep
              refine .kept ?_ (congrArg (fun r => r.1.cache) hstep)
              rw [hresponse, if_neg (by omega)]
            · rw [if_neg hlate] at hstep
              refine .stored ?_ (congrArg (fun r => r.2.posted) hstep)
                (congrArg (fun r => r.1.cache) hstep)
              rw [hresponse, if_pos ⟨hcheck, by omega, by omega⟩]
              rfl
        · refine .kept ?_ ?_
          · rw [hresponse, if_neg fun h => hcheck h.1]
          · have hrefused := fetched_refused config c name rest now ts
              (Option.filter_some_eq_none.2 hcheck)
            exact congrArg (fun r => r.1.cache) hrefused

/-- A response that is stored passed the check. -/
theorem shouldCache_of_storedBy (h : storedBy crates config e = some (name, time, body)) :
    shouldCacheResponse crates body = true := by
  unfold storedBy at h
  split at h
  · cases h
  · split at h
    · next hstores =>
      obtain ⟨_, -, heq⟩ := Option.map_eq_some_iff.1 h
      cases heq
      exact hstores.1
    · cases h

/-! ### Runs -/

/-- The cache is in order, and each entry is that of the last response stored for its name. -/
structure Knows (crates : Crates) (config : Config) (s : State) (l : List Event) : Prop where
  inv : ∃ h, Cache.Inv config.maxCacheItems config.maxCachedBytes s.cache h
  last : ∀ k item, s.cache.entries.get k = some item → ∃ time body,
    lastStored crates config l k = some (time, body) ∧ item = itemFor crates config time body

theorem Knows.maxBytes_eq (h : Knows crates config s l) :
    s.cache.maxBytes = config.maxCachedBytes := by
  obtain ⟨_, hinv⟩ := h.inv
  exact hinv.maxBytes_eq

theorem get_insert (c : Cache) (name k : JsText) (item : CachedItem) :
    (c.insert name item).entries.get k = if k = name then some item else c.entries.get k :=
  FinMap.get_set c.entries name k item

theorem knows_step (h : Knows crates config s l) (i : Input) :
    Knows crates config (step crates config s i).1 (l ++ [Runs.event (step crates config) s i]) := by
  obtain ⟨g, hinv⟩ := h.inv
  show Knows crates config (Runs.event (step crates config) s i).post _
  cases entries_event h.maxBytes_eq i with
  | @stored name body time ts hstored hposted hcache =>
    change _ = (s.cache.insert name (itemFor crates config time body)).trim at hcache
    refine ⟨⟨_, hcache ▸ hinv.set name rfl⟩, fun k item hget => ?_⟩
    rw [hcache] at hget
    rcases Cache.get_trimQueue (s.cache.insert name (itemFor crates config time body)) _ k with
      hkept | hgone
    · have hinsert := hkept.symm.trans hget
      rw [get_insert] at hinsert
      split at hinsert
      · next hk =>
        subst hk
        exact ⟨time, body, lastStored_append_self hstored, (Option.some.inj hinsert).symm⟩
      · next hk =>
        obtain ⟨time', body', hlast, hitem⟩ := h.last k item hinsert
        exact ⟨time', body', (lastStored_append_ne hstored hk).trans hlast, hitem⟩
    · cases hgone.symm.trans hget
  | @evicted now _ _ _ hnone hcache =>
    change _ = s.cache.evictExpired now at hcache
    refine ⟨⟨g, hcache ▸ hinv.evictExpired now⟩, fun k item hget => ?_⟩
    rw [hcache] at hget
    obtain ⟨time, body, hlast, hitem⟩ := h.last k item (Cache.get_evictExpired.1 hget).1
    exact ⟨time, body, (lastStored_append_none hnone).trans hlast, hitem⟩
  | kept hnone hcache =>
    change _ = s.cache at hcache
    refine ⟨⟨g, hcache ▸ hinv⟩, fun k item hget => ?_⟩
    rw [hcache] at hget
    obtain ⟨time, body, hlast, hitem⟩ := h.last k item hget
    exact ⟨time, body, (lastStored_append_none hnone).trans hlast, hitem⟩

theorem knows_exec (crates : Crates) (config : Config) (is : List Input) :
    Knows crates config (Runs.exec (step crates config) (.start config) is)
      (Runs.trace (step crates config) (.start config) is) := by
  refine Runs.history_of_step (J := Knows crates config) (fun _ _ i h => knows_step h i) ?_ is
  refine ⟨⟨[], Cache.inv_new _ _⟩, fun k item hget => ?_⟩
  cases hget

/-- The answer to a request that is admitted. -/
theorem resolve_out (s : State) (now : ℕ) (ts : UInt64) (name : JsText) :
    (step crates config s (.resolve now ts name true)).2 =
      ((s.cache.evictExpired now).entries.get name).elim ⟨some .notCached, none⟩ fun item =>
        ⟨some (.served item.body),
          some (receiptFor config serveType ts name item.resultHash item.bytes)⟩ := by
  show (s.resolve config now ts name).2 = _
  unfold State.resolve Cache.get
  dsimp only
  cases (s.cache.evictExpired now).entries.get name <;> rfl

/-- The receipt for a response that is served. -/
def serveReceipt (crates : Crates) (config : Config) (ts : UInt64) (name body : JsText) : Receipt :=
  receiptFor config serveType ts name (hashResponse crates body) (Cache.size body)

/-- **What is served is the last response** that was stored for the name; it has not expired, it passed
the check, and its receipt repeats the hash and the size of the receipt that was sent when it was
fetched. -/
theorem served_is_last (crates : Crates) (config : Config) (is : List Input) (now : ℕ) (ts : UInt64)
    (name : JsText) (admitted : Bool) {body : JsText} {posted : Option Receipt}
    (h : (step crates config (Runs.exec (step crates config) (.start config) is)
      (.resolve now ts name admitted)).2 = ⟨some (.served body), posted⟩) :
    ∃ time, lastStored crates config (Runs.trace (step crates config) (.start config) is) name =
        some (time, body) ∧ now < time + config.ttl ∧ shouldCacheResponse crates body = true ∧
      posted = some (serveReceipt crates config ts name body) ∧
      ∃ e ∈ Runs.trace (step crates config) (.start config) is, ∃ ts',
        e.out.posted = some (verifyReceipt crates config ts' name body) := by
  cases admitted with
  | false => cases h
  | true =>
    rw [resolve_out] at h
    cases hget : ((Runs.exec (step crates config) (.start config) is).cache.evictExpired
        now).entries.get name with
    | none =>
      rw [hget] at h
      cases h
    | some item =>
      rw [hget] at h
      obtain ⟨hstored, hfresh⟩ := Cache.get_evictExpired.1 hget
      obtain ⟨time, body', hlast, rfl⟩ := (knows_exec crates config is).last name item hstored
      cases h
      obtain ⟨e, he, hby⟩ := exists_of_lastStored hlast
      refine ⟨time, hlast, hfresh, shouldCache_of_storedBy hby, rfl, e, he, ?_⟩
      obtain ⟨pre, i, post, rfl, rfl⟩ := Runs.mem_trace he
      cases entries_event (knows_exec crates config pre).maxBytes_eq i with
      | stored hby' hposted _ =>
        cases hby.symm.trans hby'
        exact ⟨_, hposted⟩
      | evicted _ hnone _ => cases hnone.symm.trans hby
      | kept hnone _ => cases hnone.symm.trans hby

/-! ### Room for the hot names -/

/-- The limits leave room for a response of that size for every hot name. -/
structure Room (config : Config) (largest : ℕ) : Prop where
  items : config.hotNames.dedup.length ≤ config.maxCacheItems
  bytes : config.hotNames.dedup.length * largest ≤ config.maxCachedBytes

/-- The names that the loop still has to fetch are hot. -/
def Loop.Within (hotNames : List JsText) : Loop → Prop
  | .fetching name rest => name ∈ hotNames ∧ rest ⊆ hotNames
  | _ => True

theorem within_through {hotNames rest : List JsText} (h : rest ⊆ hotNames) :
    (Loop.through rest).Within hotNames := by
  cases rest with
  | nil => trivial
  | cons name rest => exact List.cons_subset.1 h

theorem within_step (crates : Crates) (h : s.loop.Within config.hotNames) (i : Input) :
    (step crates config s i).1.loop.Within config.hotNames := by
  cases i with
  | audit ts admitted => exact h
  | resolve now ts name admitted =>
    cases admitted with
    | false => exact h
    | true =>
      show (s.resolve config now ts name).1.loop.Within _
      unfold State.resolve
      split <;> exact h
  | woken =>
    show (s.woken config).loop.Within _
    unfold State.woken
    split
    · exact within_through (List.Subset.refl _)
    · exact h
  | fetched now ts body =>
    show (s.fetched crates config now ts body).1.loop.Within _
    unfold State.fetched
    split
    · next name rest hloop =>
      rw [hloop] at h
      split
      · exact within_through h.2
      · dsimp only
        split
        · trivial
        · exact within_through h.2
    · exact h

/-- The event awaited the name that it stores. -/
theorem awaited_of_storedBy (h : storedBy crates config e = some (name, time, body)) :
    e.pre.loop.awaited = some name ∧ e.input.response = some (time, body) := by
  unfold storedBy at h
  split at h
  · cases h
  · next now body' hresponse =>
    split at h
    · obtain ⟨name', hname, heq⟩ := Option.map_eq_some_iff.1 h
      cases heq
      exact ⟨hname, hresponse⟩
    · cases h

theorem mem_hotNames_of_awaited (hwithin : s.loop.Within config.hotNames)
    (h : s.loop.awaited = some name) : name ∈ config.hotNames := by
  cases hloop : s.loop with
  | fetching name' rest =>
    rw [hloop] at h hwithin
    cases h
    exact hwithin.1
  | sleeping =>
    rw [hloop] at h
    cases h
  | ended =>
    rw [hloop] at h
    cases h

/-- The entries are of hot names, and none is larger than `largest`. -/
def Small (config : Config) (largest : ℕ) (c : Cache) : Prop :=
  ∀ k item, c.entries.get k = some item → k ∈ config.hotNames ∧ Cache.size item.body ≤ largest

/-- **With room for the hot names** the cache is never over its limits. -/
theorem not_over_of_small {largest : ℕ} (hroom : Room config largest) {c : Cache}
    (hitems : c.maxItems = config.maxCacheItems) (hbytes : c.maxBytes = config.maxCachedBytes)
    (hcounted : c.Counted) (hsmall : Small config largest c) : ¬c.Over := by
  have hkeys : c.entries.entries.length ≤ config.hotNames.dedup.length := by
    have hsub : c.entries.entries.map Prod.fst ⊆ config.hotNames.dedup := by
      intro k hk
      obtain ⟨⟨k', item⟩, hmem, rfl⟩ := List.mem_map.1 hk
      exact List.mem_dedup.2 (hsmall k' item (FinMap.mem_entries.1 hmem)).1
    have hle := (c.entries.nodup.subperm hsub).length_le
    rwa [List.length_map] at hle
  have htotal : c.currentBytes ≤ c.entries.entries.length * largest := by
    rw [hcounted.total]
    unfold Cache.storedBytes FinMap.total
    refine (List.sum_le_card_nsmul _ largest ?_).trans (by simp)
    intro n hn
    obtain ⟨⟨k, item⟩, hmem, rfl⟩ := List.mem_map.1 hn
    exact (hsmall k item (FinMap.mem_entries.1 hmem)).2
  have hle := Nat.mul_le_mul_right largest hkeys
  have hroomItems := hroom.items
  have hroomBytes := hroom.bytes
  unfold Cache.Over
  omega

/-- The clock that a request reads. -/
def Input.clock : Input → Option ℕ
  | .resolve now _ _ true => some now
  | _ => none

/-- What holds with room for the hot names: an entry that is gone expired before some request, and the
queue holds the name of every response that was ever stored. -/
structure Keeps (crates : Crates) (config : Config) (largest : ℕ) (s : State) (l : List Event) :
    Prop where
  knows : Knows crates config s l
  within : s.loop.Within config.hotNames
  small : Small config largest s.cache
  kept : ∀ k time body, lastStored crates config l k = some (time, body) →
    s.cache.entries.get k = some (itemFor crates config time body) ∨
      ∃ e ∈ l, ∃ now, e.input.clock = some now ∧ time + config.ttl ≤ now
  order : s.cache.order = (l.filterMap (storedBy crates config)).map Prod.fst

theorem order_evictExpired (c : Cache) (now : ℕ) : (c.evictExpired now).order = c.order :=
  Cache.foldl_remove_inv (P := fun d => d.order = c.order)
    (fun d key hd => (Cache.remove_order d key).trans hd) _ rfl

theorem keeps_step {largest : ℕ} (hroom : Room config largest) (h : Keeps crates config largest s l)
    (i : Input) (hsize : ∀ now body, i.response = some (now, body) → Cache.size body ≤ largest) :
    Keeps crates config largest (step crates config s i).1
      (l ++ [Runs.event (step crates config) s i]) := by
  have hknows := knows_step h.knows i
  have hwithin := within_step crates h.within i
  have hlater (P : Event → Prop) (hp : ∃ e ∈ l, P e) :
      ∃ e ∈ l ++ [Runs.event (step crates config) s i], P e := by
    obtain ⟨e, he, hpe⟩ := hp
    exact ⟨e, List.mem_append_left _ he, hpe⟩
  have hpost : (Runs.event (step crates config) s i).post = (step crates config s i).1 := rfl
  cases entries_event h.knows.maxBytes_eq i with
  | @stored name body time ts hstored hposted hcache =>
    obtain ⟨g, hinv⟩ := h.knows.inv
    obtain ⟨hawaited, hresponse⟩ := awaited_of_storedBy hstored
    have hhot := mem_hotNames_of_awaited h.within hawaited
    have hbody : Cache.size body ≤ largest := hsize time body hresponse
    let item := itemFor crates config time body
    have hsmall : Small config largest (s.cache.insert name item) := by
      intro k item' hget
      rw [get_insert] at hget
      split at hget
      · next hk =>
        obtain rfl := Option.some.inj hget
        exact ⟨hk ▸ hhot, hbody⟩
      · exact h.small k item' hget
    have hnot : ¬(s.cache.insert name item).Over :=
      not_over_of_small hroom hinv.maxItems_eq hinv.maxBytes_eq (hinv.counted.insert name rfl) hsmall
    have htrim : (step crates config s i).1.cache = s.cache.insert name item :=
      hcache.trans (Cache.trimQueue_of_not_over hnot _)
    refine ⟨hknows, hwithin, htrim ▸ hsmall, ?_, ?_⟩
    · intro k time' body' hlast
      rw [htrim, get_insert]
      split
      · next hk =>
        subst hk
        rw [lastStored_append_self hstored] at hlast
        cases hlast
        exact .inl rfl
      · next hk =>
        rw [lastStored_append_ne hstored hk] at hlast
        exact (h.kept k time' body' hlast).imp_right (hlater _)
    · rw [htrim, Runs.filterMap_concat_some hstored, List.map_append, ← h.order]
      rfl
  | @evicted now ts name hinput hnone hcache =>
    rw [hpost] at hcache
    change _ = s.cache.evictExpired now at hcache
    refine ⟨hknows, hwithin, ?_, ?_, ?_⟩
    · intro k item hget
      rw [hcache] at hget
      exact h.small k item (Cache.get_evictExpired.1 hget).1
    · intro k time body hlast
      rw [lastStored_append_none hnone] at hlast
      rcases h.kept k time body hlast with hget | hgone
      · by_cases hfresh : now < time + config.ttl
        · left
          rw [hcache]
          exact Cache.get_evictExpired.2 ⟨hget, hfresh⟩
        · right
          refine ⟨_, List.mem_append_right _ (List.mem_singleton_self _), now, ?_, not_lt.1 hfresh⟩
          rw [hinput]
          rfl
      · exact .inr (hlater _ hgone)
    · rw [hcache, order_evictExpired, Runs.filterMap_concat_none hnone]
      exact h.order
  | kept hnone hcache =>
    rw [hpost] at hcache
    change _ = s.cache at hcache
    refine ⟨hknows, hwithin, hcache ▸ h.small, ?_, ?_⟩
    · intro k time body hlast
      rw [lastStored_append_none hnone] at hlast
      rw [hcache]
      exact (h.kept k time body hlast).imp_right (hlater _)
    · rw [hcache, Runs.filterMap_concat_none hnone]
      exact h.order

theorem keeps_exec (crates : Crates) {largest : ℕ} (hroom : Room config largest) (is : List Input)
    (hsize : ∀ i ∈ is, ∀ now body, i.response = some (now, body) → Cache.size body ≤ largest) :
    Keeps crates config largest (Runs.exec (step crates config) (.start config) is)
      (Runs.trace (step crates config) (.start config) is) := by
  refine Runs.history_induction (J := Keeps crates config largest)
    (Q := fun _ i => ∀ now body, i.response = some (now, body) → Cache.size body ≤ largest) (l := [])
    (fun _ _ i h hi => keeps_step hroom h i hi) ?_ ?_
  · refine ⟨knows_exec crates config [], within_through (List.Subset.refl _), ?_, ?_, rfl⟩
    · intro k item hget
      cases hget
    · intro k time body hlast
      cases hlast
  · refine Runs.each_iff_mem_trace.2 fun e he => ?_
    obtain ⟨pre, i, post, rfl, rfl⟩ := Runs.mem_trace he
    exact hsize i (List.mem_append_right _ List.mem_cons_self)

/-- **With room for the hot names** the agent serves the last response that was stored for a name until
it expires, and nothing else; and the queue has grown by a name for every response stored. -/
theorem serves_last_iff (crates : Crates) {largest : ℕ} (hroom : Room config largest)
    (is : List Input)
    (hsize : ∀ i ∈ is, ∀ now body, i.response = some (now, body) → Cache.size body ≤ largest)
    (now : ℕ) (hclock : ∀ i ∈ is, ∀ earlier, i.clock = some earlier → earlier ≤ now) (ts : UInt64)
    (name : JsText) :
    (step crates config (Runs.exec (step crates config) (.start config) is)
      (.resolve now ts name true)).2 =
        ((lastStored crates config (Runs.trace (step crates config) (.start config) is) name).filter
          fun stored => now < stored.1 + config.ttl).elim ⟨some .notCached, none⟩ (fun stored =>
            ⟨some (.served stored.2), some (serveReceipt crates config ts name stored.2)⟩) ∧
    (Runs.exec (step crates config) (.start config) is).cache.order.length =
      ((Runs.trace (step crates config) (.start config) is).filterMap
        (storedBy crates config)).length := by
  have hkeeps := keeps_exec crates hroom is hsize
  refine ⟨?_, by rw [hkeeps.order, List.length_map]⟩
  rw [resolve_out]
  cases hget : ((Runs.exec (step crates config) (.start config) is).cache.evictExpired
      now).entries.get name with
  | some item =>
    obtain ⟨hstored, hfresh⟩ := Cache.get_evictExpired.1 hget
    obtain ⟨time, body, hlast, rfl⟩ := hkeeps.knows.last name item hstored
    have hkept : (some (time, body)).filter (fun stored : ℕ × JsText => now < stored.1 + config.ttl) =
        some (time, body) := Option.filter_some_pos (decide_eq_true hfresh)
    rw [hlast, hkept]
    rfl
  | none =>
    cases hlast : lastStored crates config (Runs.trace (step crates config) (.start config) is)
        name with
    | none => rfl
    | some stored =>
      obtain ⟨time, body⟩ := stored
      have hexpired : ¬now < time + config.ttl := by
        intro hfresh
        rcases hkeeps.kept name time body hlast with hstill | ⟨e, he, earlier, hearlier, hle⟩
        · rw [Cache.get_evictExpired.2 ⟨hstill, hfresh⟩] at hget
          cases hget
        · obtain ⟨pre, i, post, rfl, rfl⟩ := Runs.mem_trace he
          have hbefore := hclock i (List.mem_append_right _ List.mem_cons_self) earlier hearlier
          omega
      have hdropped : (some (time, body)).filter
          (fun stored : ℕ × JsText => now < stored.1 + config.ttl) = none :=
        Option.filter_some_neg (decide_eq_false hexpired)
      rw [hdropped]
      rfl

end Agent

section Example

/-- The crates, where only the empty object is read. -/
def exampleCrates : Crates where
  sha256 _ := List.replicate 32 0
  blake3 _ := List.replicate 32 0
  fromStr t := if t = ['{', '}'] then some (.object []) else none
  instantMax := 1000000000000000000

/-- An agent with one hot name. -/
def exampleConfig : Config := ⟨['k'], [['a']], 60, 1, 10⟩

/-- The empty object is stored, and later a text that is not read. -/
def exampleRun : List Input :=
  [.fetched 5 0 (some ['{', '}']), .woken, .fetched 70 0 (some ['x'])]

theorem served_is_last_example : ∃ time,
    lastStored exampleCrates exampleConfig
      (Runs.trace (step exampleCrates exampleConfig) (.start exampleConfig) exampleRun) ['a'] =
        some (time, ['{', '}']) ∧ 80 < time + exampleConfig.ttl := by
  obtain ⟨time, hlast, hfresh, -⟩ := served_is_last exampleCrates exampleConfig exampleRun 80 0
    ['a'] true rfl
  exact ⟨time, hlast, hfresh⟩

theorem exampleRoom : Room exampleConfig 5 := ⟨by decide, by decide⟩

theorem exampleRun_small (i : Input) (hi : i ∈ exampleRun) (now : ℕ) (body : JsText)
    (h : i.response = some (now, body)) : Cache.size body ≤ 5 := by
  simp only [exampleRun, List.mem_cons, List.not_mem_nil, or_false] at hi
  rcases hi with rfl | rfl | rfl
  · cases h
    decide
  · cases h
  · cases h
    decide

theorem exampleRun_unread (i : Input) (hi : i ∈ exampleRun) (now : ℕ) (h : i.clock = some now) :
    now ≤ 80 := by
  simp only [exampleRun, List.mem_cons, List.not_mem_nil, or_false] at hi
  rcases hi with rfl | rfl | rfl <;> cases h

theorem serves_last_iff_example :
    (step exampleCrates exampleConfig
      (Runs.exec (step exampleCrates exampleConfig) (.start exampleConfig) exampleRun)
      (.resolve 80 0 ['a'] true)).2.reply = some (.served ['{', '}']) := by
  rw [(serves_last_iff exampleCrates exampleRoom exampleRun exampleRun_small 80 exampleRun_unread
    0 ['a']).1]
  rfl

end Example

end Ddns.NodeAgent
