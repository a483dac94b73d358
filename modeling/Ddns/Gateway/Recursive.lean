import Ddns.Gateway.Upstream
import Ddns.Lib.FinMap
import Ddns.Lib.Run
import Mathlib.Data.Rat.Floor

/-!
# The recursive resolver of the gateway

`resolveRecursive` answers from a cache, refreshes an entry in the background when it is about to
expire, and shares the refreshes that are in flight. The code runs on one thread: a job of the queue
runs to its end, and what awaits a promise goes on in a job that is queued when the promise settles.

A state holds the cache, the promises, `inFlight` and the queue. An input queues a call or the end of
the upstream queries of a refresh, or runs the first job of the queue at a reading of the clock.
-/

namespace Ddns.Gateway

/-- The configuration of an adapter. -/
structure RecursiveConfig extends SelectConfig where
  urls : List JsText
  staleMaxS : ℚ
  prefetchFraction : ℚ
  cacheMaxEntries : ℚ
  staleMaxS_nonneg : 0 ≤ staleMaxS
  one_le_cacheMaxEntries : 1 ≤ cacheMaxEntries

/-- An entry, next to the choice that it was made of. -/
structure CacheEntry where
  chosen : Chosen
  qname : JsText
  qtype : Qtype
  answers : List DnsRecord
  ttlS : ℚ
  fetchedAt : ℚ
  expiresAt : ℚ
  staleUntil : ℚ
  sourceStatus : UpstreamStatus
  confidence : Confidence
  rrsetHash : JsText
  chosenUpstream : JsText
  deriving DecidableEq

inductive Source where
  | cache
  | upstream
  | stale
  deriving DecidableEq

/-- A result: what it hands out of an entry, under the name of the one that asked, and the clock when
it was made. -/
structure Answer where
  name : JsText
  entry : CacheEntry
  madeAt : ℚ
  ttlS : ℚ
  source : Source
  deriving DecidableEq

structure RecursiveResolveResult where
  name : JsText
  type : Qtype
  answers : List DnsRecord
  ttlS : ℚ
  source : Source
  status : UpstreamStatus
  confidence : Confidence
  rrsetHash : JsText
  chosenUpstream : JsText

/-- The other fields of a result are those of the entry. -/
def Answer.result (a : Answer) : RecursiveResolveResult where
  name := a.name
  type := a.entry.qtype
  answers := a.entry.answers
  ttlS := a.ttlS
  source := a.source
  status := a.entry.sourceStatus
  confidence := a.entry.confidence
  rrsetHash := a.entry.rrsetHash
  chosenUpstream := a.entry.chosenUpstream

/-- A call that awaits a refresh. -/
structure Waiting where
  qname : JsText
  start : ℚ
  existing : Option CacheEntry
  deriving DecidableEq

/-- What is done when a promise settles. -/
inductive Reaction where
  /-- `finally(() => inFlight.delete(k))`. -/
  | forget (k : JsText)
  /-- The call goes on after its `await`. -/
  | deliver (call : Waiting)
  deriving DecidableEq

/-- A promise is fulfilled with an answer or rejected. -/
abbrev Settled := Option Answer

/-- The promise of a refresh; that of a prefetch catches failures. -/
structure Refresh where
  qname : JsText
  qtype : Qtype
  /-- The entry that a prefetch hands out if its refresh fails. -/
  prefetched : Option CacheEntry
  /-- The upstream queries are not over. -/
  awaiting : Bool
  settled : Option Settled
  reactions : List Reaction
  deriving DecidableEq

inductive Job where
  | call (name qtype : JsText)
  /-- The upstream queries of a promise are over; `persisted` says whether the file is written. -/
  | replied (p : ℕ) (replies : List TimedReply) (persisted : Bool)
  /-- The refresh under a prefetch is settled. -/
  | caught (p : ℕ) (outcome : Settled)
  | react (reaction : Reaction) (outcome : Settled)

structure Adapter where
  cache : FinMap JsText CacheEntry
  inFlight : FinMap JsText ℕ
  promises : List Refresh
  jobs : List Job

/-- The adapter with an empty cache. -/
def Adapter.initial : Adapter := ⟨.empty, .empty, [], []⟩

/-- What becomes of a call. -/
inductive Output where
  | returned (start : ℚ) (answer : Answer)
  | thrown
  deriving DecidableEq

def colon : JsText := [':']

def keyOf (rt : Runtime) (qname : JsText) (qtype : Qtype) : JsText :=
  normalizeNameForHash rt qname ++ colon ++ qtype.text

def Refresh.key (rt : Runtime) (r : Refresh) : JsText := keyOf rt r.qname r.qtype

/-! ## Promises -/

/-- The promise `p` changes. -/
def Adapter.updatePromise (s : Adapter) (p : ℕ) (f : Refresh → Refresh) : Adapter :=
  { s with promises := s.promises.modify p f }

/-- The reactions of a promise that settles are queued in their order. -/
def Adapter.settle (s : Adapter) (p : ℕ) (outcome : Settled) : Adapter :=
  match s.promises[p]? with
  | none => s
  | some r =>
    { s.updatePromise p fun r => { r with settled := some outcome, reactions := [] } with
      jobs := s.jobs ++ r.reactions.map (Job.react · outcome) }

/-- A reaction to a settled promise is queued at once. -/
def Adapter.register (s : Adapter) (p : ℕ) (reaction : Reaction) : Adapter :=
  match s.promises[p]? with
  | none => s
  | some r =>
    match r.settled with
    | some outcome => { s with jobs := s.jobs ++ [.react reaction outcome] }
    | none => s.updatePromise p fun r => { r with reactions := r.reactions ++ [reaction] }

/-! ## Refreshing -/

def maxEntries (config : RecursiveConfig) : ℚ := max 1 (orNumber config.cacheMaxEntries 50000)

/-- The entries that were fetched first are deleted. -/
def evictIfNeeded (config : RecursiveConfig) (cache : FinMap JsText CacheEntry) :
    FinMap JsText CacheEntry :=
  if (cache.entries.length : ℚ) ≤ maxEntries config then cache
  else
    let items := cache.entries.insertionSort fun a b => a.2.fetchedAt ≤ b.2.fetchedAt
    let surplus := ⌈(items.length : ℚ) - maxEntries config⌉.toNat
    (items.take surplus).foldl (fun cache item => cache.erase item.1) cache

/-- How long an expired entry may be handed out. -/
def staleFor (config : RecursiveConfig) : ℚ := max 0 (orNumber config.staleMaxS 1800)

def entryOf (config : RecursiveConfig) (qname : JsText) (qtype : Qtype) (chosen : Chosen)
    (now : ℚ) : CacheEntry where
  chosen := chosen
  qname := qname
  qtype := qtype
  answers := if chosen.status = .noError then chosen.chosen.answers else []
  ttlS := chosen.ttlS
  fetchedAt := now
  expiresAt := now + chosen.ttlS
  staleUntil := now + chosen.ttlS + staleFor config
  sourceStatus := chosen.status
  confidence := chosen.confidence
  rrsetHash := chosen.chosen.rrsetHash
  chosenUpstream := chosen.chosen.url

/-- `refresh` starts; its promise is the last one. -/
def Adapter.startRefresh (s : Adapter) (qname : JsText) (qtype : Qtype)
    (prefetched : Option CacheEntry) : Adapter × ℕ :=
  ({ s with promises := s.promises ++ [⟨qname, qtype, prefetched, true, none, []⟩] },
    s.promises.length)

/-- The rest of `refresh`: a failure to choose or to write the file is a throw. -/
def Adapter.store (rt : Runtime) (config : RecursiveConfig) (s : Adapter) (r : Refresh)
    (replies : List TimedReply) (persisted : Bool) (now : ℚ) : Adapter × Settled :=
  let upstreams := queryUpstreams rt config.urls r.qname r.qtype replies
  match selectBest config.toSelectConfig upstreams with
  | none => (s, none)
  | some chosen =>
    let entry := entryOf config r.qname r.qtype chosen now
    ({ s with cache := evictIfNeeded config (s.cache.set (r.key rt) entry) },
      if persisted then some ⟨r.qname, entry, now, entry.ttlS, .upstream⟩ else none)

/-- The promise of `refresh` is settled; that of a prefetch settles in a job of its own. -/
def Adapter.conclude (s : Adapter) (p : ℕ) (r : Refresh) (outcome : Settled) : Adapter :=
  let s := s.updatePromise p fun r => { r with awaiting := false }
  match r.prefetched with
  | some _ => { s with jobs := s.jobs ++ [.caught p outcome] }
  | none => s.settle p outcome

def Adapter.finishRefresh (rt : Runtime) (config : RecursiveConfig) (s : Adapter) (p : ℕ)
    (r : Refresh) (replies : List TimedReply) (persisted : Bool) (now : ℚ) : Adapter :=
  let (s, outcome) := s.store rt config r replies persisted now
  s.conclude p r outcome

/-- `replied` runs for a promise whose upstream queries were not over. -/
def Adapter.replied (rt : Runtime) (config : RecursiveConfig) (s : Adapter) (p : ℕ)
    (replies : List TimedReply) (persisted : Bool) (now : ℚ) : Adapter :=
  match s.promises[p]? with
  | none => s
  | some r => if r.awaiting then s.finishRefresh rt config p r replies persisted now else s

/-- An expired entry, for as long as `ttlS` says. -/
def staleAnswer (qname : JsText) (now : ℚ) (e : CacheEntry) : Answer :=
  ⟨qname, e, now, max 0 (e.expiresAt - now), .stale⟩

/-- A prefetch hands out its entry if its refresh failed. -/
def Adapter.caught (s : Adapter) (p : ℕ) (outcome : Settled) (now : ℚ) : Adapter :=
  match s.promises[p]? with
  | none => s
  | some r => s.settle p (outcome <|> r.prefetched.map (staleAnswer r.qname now))

/-! ## Calls -/

def prefetchThreshold (config : RecursiveConfig) (e : CacheEntry) : ℚ :=
  max 5 ⌊e.ttlS * orNumber config.prefetchFraction (1 / 10)⌋

/-- A fresh entry that is about to expire is refreshed, unless its name is in flight. -/
def Adapter.prefetch (rt : Runtime) (config : RecursiveConfig) (s : Adapter) (qname : JsText)
    (qtype : Qtype) (e : CacheEntry) (now : ℚ) : Adapter :=
  let k := keyOf rt qname qtype
  if e.expiresAt - now < prefetchThreshold config e ∧ s.inFlight.get k = none then
    let (s, p) := s.startRefresh qname qtype (some e)
    { s with inFlight := s.inFlight.set k p }.register p (.forget k)
  else s

/-- `inFlight.get(k) || refresh(qname, q, k)`. -/
def Adapter.shared (rt : Runtime) (s : Adapter) (qname : JsText) (qtype : Qtype) : Adapter × ℕ :=
  match s.inFlight.get (keyOf rt qname qtype) with
  | some p => (s, p)
  | none => s.startRefresh qname qtype none

/-- Without a fresh entry a call awaits the refresh in flight, or a new one. -/
def Adapter.join (rt : Runtime) (s : Adapter) (qtype : Qtype) (call : Waiting) : Adapter :=
  let k := keyOf rt call.qname qtype
  let (s, p) := s.shared rt call.qname qtype
  ({ s with inFlight := s.inFlight.set k p }.register p (.forget k)).register p (.deliver call)

def parseQtype (rt : Runtime) (qtype : JsText) : Option Qtype :=
  [.a, .aaaa].find? fun q : Qtype => q.text = rt.toUpperCase qtype

def Adapter.resolveRecursive (rt : Runtime) (config : RecursiveConfig) (s : Adapter)
    (name qtype : JsText) (now : ℚ) : Adapter × Option Output :=
  let qname := normalizeNameForHash rt name
  match parseQtype rt qtype with
  | none => (s, some .thrown)
  | some q =>
    let existing := s.cache.get (keyOf rt qname q)
    match existing.filter fun e => now < e.expiresAt with
    | some e =>
      (s.prefetch rt config qname q e now,
        some (.returned now ⟨qname, e, now, e.expiresAt - now, .cache⟩))
    | none => (s.join rt q ⟨qname, now, existing⟩, none)

/-- After the `await`: an expired entry takes the place of a failure for a while. -/
def delivered (call : Waiting) : Settled → Output
  | some answer => .returned call.start answer
  | none =>
    match call.existing.filter fun e => call.start ≤ e.staleUntil with
    | some e => .returned call.start (staleAnswer call.qname call.start e)
    | none => .thrown

/-! ## Steps -/

inductive Input where
  /-- A job comes from outside. -/
  | enqueue (job : Job)
  /-- The first job of the queue runs. -/
  | turn (now : ℚ)

/-- Jobs that come from outside are calls and ends of upstream queries. -/
def Job.external : Job → Bool
  | .call _ _ => true
  | .replied _ _ _ => true
  | _ => false

def Adapter.run (rt : Runtime) (config : RecursiveConfig) (s : Adapter) (now : ℚ) :
    Job → Adapter × Option Output
  | .call name qtype => s.resolveRecursive rt config name qtype now
  | .replied p replies persisted => (s.replied rt config p replies persisted now, none)
  | .caught p outcome => (s.caught p outcome now, none)
  | .react (.forget k) _ => ({ s with inFlight := s.inFlight.erase k }, none)
  | .react (.deliver call) outcome => (s, some (delivered call outcome))

def Adapter.step (rt : Runtime) (config : RecursiveConfig) (s : Adapter) :
    Input → Adapter × Option Output
  | .enqueue job => (if job.external then { s with jobs := s.jobs ++ [job] } else s, none)
  | .turn now =>
    match s.jobs with
    | [] => (s, none)
    | job :: jobs => { s with jobs }.run rt config now job

end Ddns.Gateway
