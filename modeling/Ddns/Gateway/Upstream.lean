import Mathlib.Data.List.Sort
import Ddns.Lib.Js

/-!
# Upstream answers of the recursive resolver

The gateway asks several upstreams for the addresses of a name. `normalizeAndExtract` reads the JSON
of an answer: it follows the CNAME records from the question name and keeps the addresses of the
last name, or those of the question name if there are none. `selectBest` chooses among the answers
of the upstreams.

The fields of an answer are typed here: a name and the data are texts (absent ones are empty), a TTL
is a number.
-/

namespace Ddns.Gateway

/-- What the gateway takes from its platform. -/
structure Runtime where
  sha256Hex : List UInt8 → JsText
  toLowerCase : JsText → JsText
  toUpperCase : JsText → JsText
  /-- `punycode.toASCII`. -/
  toASCII : JsText → JsText
  localeCompare : JsText → JsText → Ordering

def hashHex (rt : Runtime) (input : JsText) : JsText := rt.sha256Hex input.utf8

/-! ## Names and types -/

/-- A text without its final dot. -/
def stripDot (t : JsText) : JsText := if t.getLast? = some '.' then t.dropLast else t

def normalizeHost (rt : Runtime) (input : JsText) : JsText := stripDot (rt.toLowerCase input.trim)

def normalizeNameForHash (rt : Runtime) (name : JsText) : JsText :=
  rt.toASCII (rt.toLowerCase (stripDot name.trim))

/-- The types that the resolver answers. -/
inductive Qtype where
  | a
  | aaaa
  deriving DecidableEq

def aText : JsText := ['A']
def aaaaText : JsText := ['A', 'A', 'A', 'A']
def cnameText : JsText := ['C', 'N', 'A', 'M', 'E']

def Qtype.text : Qtype → JsText
  | .a => aText
  | .aaaa => aaaaText

/-- The type of a record as the JSON has it. -/
inductive JsonType where
  | number (n : ℕ)
  | text (t : JsText)
  | absent

def mapType (rt : Runtime) : JsonType → JsText
  | .text t => rt.toUpperCase t
  | .number 1 => aText
  | .number 28 => aaaaText
  | .number 5 => cnameText
  | .number 16 => ['T', 'X', 'T']
  | .number n => Nat.toDigits 10 n
  | .absent => ['u', 'n', 'd', 'e', 'f', 'i', 'n', 'e', 'd']

/-! ## Answers -/

/-- An element of `Answer`. -/
structure JsonRecord where
  name : JsText
  type : JsonType
  data : JsText
  ttl : Option ℚ

/-- The JSON of an upstream. -/
structure JsonAnswer where
  status : Option ℚ
  answer : List JsonRecord

/-- A record, next to the TTL that the JSON has for it. -/
structure DnsRecord where
  name : JsText
  type : JsText
  data : JsText
  ttl : ℚ
  jsonTtl : Option ℚ
  deriving DecidableEq

inductive UpstreamStatus where
  | noError
  | nxDomain
  | error
  deriving DecidableEq

/-- The result of an upstream, next to the CNAME records whose targets are its `chain`. -/
structure UpstreamResult where
  url : JsText
  rttMs : ℚ
  status : UpstreamStatus
  cnames : List DnsRecord
  chain : List JsText
  answers : List DnsRecord
  ips : List JsText
  ttlS : ℚ
  rrsetHash : JsText
  deriving DecidableEq

/-- `Number(value || fallback)`. -/
def orNumber (value : Option ℚ) (fallback : ℚ) : ℚ :=
  match value with
  | some q => if q = 0 then fallback else q
  | none => fallback

/-- `Math.min` of some numbers. -/
def minOf : ℚ → List ℚ → ℚ
  | q, [] => q
  | q, r :: rs => min q (minOf r rs)

def minTtl (records : List DnsRecord) (fallback : ℚ) : ℚ :=
  match records.map DnsRecord.ttl with
  | [] => fallback
  | ttl :: ttls => max 1 (minOf ttl ttls)

def toRecord (rt : Runtime) (a : JsonRecord) : DnsRecord where
  name := normalizeHost rt a.name
  type := mapType rt a.type
  data := a.data
  ttl := max 1 (orNumber a.ttl 60)
  jsonTtl := a.ttl

/-- The records of an answer that have a name, a type and data. -/
def recordsOf (rt : Runtime) (json : JsonAnswer) : List DnsRecord :=
  (json.answer.map (toRecord rt)).filter fun r => r.name ≠ [] ∧ r.type ≠ [] ∧ r.data ≠ []

/-- The CNAME records from `current` on, and the name at which they end. A name is left at most once,
and at most `fuel` names are left. -/
def followCnames (rt : Runtime) (records : List DnsRecord) :
    (fuel : ℕ) → (visited : List JsText) → (current : JsText) → List DnsRecord × JsText
  | 0, _, current => ([], current)
  | fuel + 1, visited, current =>
    if current ∈ visited then ([], current)
    else
      match records.find? fun r => r.name = current ∧ r.type = cnameText with
      | none => ([], current)
      | some r =>
        let target := normalizeHost rt r.data
        if target = [] then ([], current)
        else
          let (followed, last) := followCnames rt records fuel (current :: visited) target
          (r :: followed, last)

/-- The CNAME records that are followed for a question, and the name at which they end. -/
def followed (rt : Runtime) (qname : JsText) (records : List DnsRecord) :
    List DnsRecord × JsText :=
  followCnames rt records 10 [] (normalizeHost rt qname)

/-- The addresses of the last name, or those of the question name if there are none. -/
def usableRecords (rt : Runtime) (qname : JsText) (qtype : Qtype) (records : List DnsRecord) :
    List DnsRecord :=
  let current := (followed rt qname records).2
  let finalAnswers := records.filter fun r => r.name = current ∧ r.type = qtype.text
  let fallbackAnswers := records.filter fun r =>
    r.type = qtype.text ∧ r.name = normalizeHost rt qname
  if finalAnswers ≠ [] then finalAnswers else fallbackAnswers

def sortTexts (rt : Runtime) (texts : List JsText) : List JsText :=
  texts.insertionSort fun a b => (rt.localeCompare a b).isLE

def bar : JsText := ['|']

/-- `${qtype}|${name}|${rest}`, hashed. -/
def rrsetHashOf (rt : Runtime) (qtype : Qtype) (name rest : JsText) : JsText :=
  hashHex rt (qtype.text ++ bar ++ name ++ bar ++ rest)

def nxDomainText : JsText := ['N', 'X', 'D', 'O', 'M', 'A', 'I', 'N']
def errorText : JsText := ['E', 'R', 'R', 'O', 'R']

def normalizeAndExtract (rt : Runtime) (url : JsText) (rttMs : ℚ) (qname : JsText) (qtype : Qtype)
    (json : JsonAnswer) : UpstreamResult :=
  let statusCode := json.status.getD 2
  let records := recordsOf rt json
  if statusCode = 3 then
    { url, rttMs
      status := .nxDomain
      cnames := []
      chain := []
      answers := []
      ips := []
      ttlS := 30
      rrsetHash := rrsetHashOf rt qtype (normalizeHost rt qname) nxDomainText }
  else if statusCode ≠ 0 then
    { url, rttMs
      status := .error
      cnames := []
      chain := []
      answers := []
      ips := []
      ttlS := 1
      rrsetHash := rrsetHashOf rt qtype (normalizeHost rt qname) errorText }
  else
    let (cnames, current) := followed rt qname records
    let usable := usableRecords rt qname qtype records
    let ips := sortTexts rt (usable.map DnsRecord.data).eraseDups
    { url, rttMs
      status := .noError
      cnames
      chain := cnames.map fun r => normalizeHost rt r.data
      answers := usable
      ips
      ttlS := minTtl usable 60
      rrsetHash := rrsetHashOf rt qtype current (JsText.join [','] ips) }

/-- What comes back from an upstream. -/
inductive Reply where
  | json (answer : JsonAnswer)
  | httpError (status : ℕ)
  /-- The request fails or is aborted, or its body is not JSON. -/
  | failed

def queryOneUpstream (rt : Runtime) (url qname : JsText) (qtype : Qtype) (reply : Reply)
    (rttMs : ℚ) : UpstreamResult :=
  let failure (reason : JsText) : UpstreamResult :=
    { url, rttMs
      status := .error
      cnames := []
      chain := []
      answers := []
      ips := []
      ttlS := 1
      rrsetHash := rrsetHashOf rt qtype (normalizeHost rt qname) reason }
  match reply with
  | .json answer => normalizeAndExtract rt url rttMs qname qtype answer
  | .httpError status => failure (['H', 'T', 'T', 'P', '_'] ++ Nat.toDigits 10 status)
  | .failed => failure ['T', 'I', 'M', 'E', 'O', 'U', 'T']

/-- The reply of an upstream and the time it took. -/
structure TimedReply where
  reply : Reply
  rttMs : ℚ

/-- Every upstream is asked; the results come in the order of the upstreams. -/
def queryUpstreams (rt : Runtime) (urls : List JsText) (qname : JsText) (qtype : Qtype)
    (replies : List TimedReply) : List UpstreamResult :=
  urls.zipIdx.map fun e =>
    let r := replies.getD e.2 ⟨.failed, 0⟩
    queryOneUpstream rt e.1 qname qtype r.reply r.rttMs

/-! ## Choosing -/

inductive Confidence where
  | high
  | medium
  | low
  deriving DecidableEq

structure Chosen where
  status : UpstreamStatus
  confidence : Confidence
  chosen : UpstreamResult
  considered : List UpstreamResult
  ttlS : ℚ
  deriving DecidableEq

structure SelectConfig where
  quorumMin : ℚ
  overlapThreshold : ℚ
  ttlCapS : ℚ
  one_le_quorumMin : 1 ≤ quorumMin
  one_le_ttlCapS : 1 ≤ ttlCapS

def overlapRatio (a b : List JsText) : ℚ :=
  if a = [] ∨ b = [] then 0
  else
    let sa := a.eraseDups
    let sb := b.eraseDups
    (sa.filter fun ip => ip ∈ sb).length / max 1 (min sa.length sb.length : ℚ)

def hasSharedIp (a b : List JsText) : Bool := a.any fun ip => ip ∈ b

/-- The groups of results with the same hash, in the order in which their hashes come. -/
def byHash (results : List UpstreamResult) : List (List UpstreamResult) :=
  (results.map UpstreamResult.rrsetHash).eraseDups.map fun hash =>
    results.filter fun u => u.rrsetHash = hash

/-- The largest group, the first one of several. -/
def strongestGroup (results : List UpstreamResult) : List UpstreamResult :=
  (((byHash results).insertionSort fun a b => b.length ≤ a.length).head?).getD []

/-- The result that came fastest, the first one of several. -/
def fastest (results : List UpstreamResult) : Option UpstreamResult :=
  (results.insertionSort fun a b => a.rttMs ≤ b.rttMs).head?

def pairs {α : Type*} : List α → List (α × α)
  | [] => []
  | a :: as => as.map (a, ·) ++ pairs as

/-- The members of the pairs that overlap, one after the other. -/
def overlapCandidates (config : SelectConfig) (results : List UpstreamResult) :
    List UpstreamResult :=
  ((pairs results).filter fun p => hasSharedIp p.1.ips p.2.ips ∨
    config.overlapThreshold ≤ overlapRatio p.1.ips p.2.ips).flatMap fun p => [p.1, p.2]

/-- One result for each address of an upstream: in the place of the first one, the last one. -/
def uniqueByUrl (results : List UpstreamResult) : List UpstreamResult :=
  (results.map UpstreamResult.url).eraseDups.filterMap fun url =>
    results.reverse.find? fun u => u.url = url

/-- The least TTL of some results. -/
def baseTtl (chosen : UpstreamResult) (results : List UpstreamResult) : ℚ :=
  match results.map UpstreamResult.ttlS with
  | [] => chosen.ttlS
  | ttl :: ttls => minOf ttl ttls

/-- `n.ttlS || 30`. -/
def orThirty (n : UpstreamResult) : UpstreamResult := { n with ttlS := orNumber (some n.ttlS) 30 }

/-- `none` is the error `UPSTREAM_FAILED`. -/
def selectBest (config : SelectConfig) (upstreams : List UpstreamResult) : Option Chosen :=
  let successful := upstreams.filter fun u => u.status = .noError ∧ u.ips ≠ []
  if successful ≠ [] then
    let strongest := strongestGroup successful
    let candidates := overlapCandidates config successful
    if config.quorumMin ≤ strongest.length then
      (fastest strongest).map fun chosen =>
        { status := .noError
          confidence := .high
          chosen
          considered := strongest
          ttlS := max 1 (min (baseTtl chosen strongest) config.ttlCapS) }
    else if candidates ≠ [] then
      let considered := uniqueByUrl candidates
      (fastest considered).map fun chosen =>
        { status := .noError
          confidence := .medium
          chosen
          considered
          ttlS := max 1 (min (baseTtl chosen considered) (min config.ttlCapS 120)) }
    else
      (fastest successful).map fun chosen =>
        { status := .noError
          confidence := .low
          chosen
          considered := [chosen]
          ttlS := max 1 (min chosen.ttlS (min config.ttlCapS 30)) }
  else
    let nxdomain := upstreams.filter fun u => u.status = .nxDomain
    (fastest nxdomain).map fun chosen =>
      { status := .nxDomain
        confidence := if config.quorumMin ≤ nxdomain.length then .medium else .low
        chosen
        considered := nxdomain
        ttlS := max 1 (min (baseTtl chosen (nxdomain.map orThirty)) 30) }

end Ddns.Gateway
