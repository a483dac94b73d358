import Ddns.Core.Credits
import Ddns.Gateway.Upstream

/-!
# Renewals

Two routes of the gateway renew a domain. `POST /v1/registrar/renew` asks the registrar for a quote
and compares it with the credits that the registrar has for the domain; `POST /v1/domain/renew` reads
the ledger of credits. Both then call `renewDomain` of the mock registrar
(`gateway/src/lib/registrar_mock.ts`), which charges the credits of its own record, and the second
debits the ledger as well. A request gives way to the others wherever it awaits.

The ledger is the one of `Ddns.Core.Credits`; the other numbers are exact. What a request does after
its credits are settled is left out.
-/

namespace Ddns.Gateway.Renewals

open Core.Credits (Platform File constructorKey protoKey normalizeKey)

/-! ## The mock registrar -/

inductive RegistrarDomainStatus where
  | active
  | expiring
  | expired
  | redemption
  | pendingTransfer
  | unknown
  deriving DecidableEq

/-- What a record says about renewals and credits; times in milliseconds. -/
structure RegistrarDomainRecord where
  status : Option RegistrarDomainStatus
  renewalDueDate : Option ℚ
  graceExpiresAt : Option ℚ
  creditsBalance : Option ℚ
  deriving DecidableEq

/-- `credits_balance || 0` -/
def RegistrarDomainRecord.credits (r : RegistrarDomainRecord) : ℚ := r.creditsBalance.getD 0

/-- The store that `ensureStore` reads. -/
abbrev MockRegistrarStore := FinMap JsText RegistrarDomainRecord

def normalizeDomain (rt : Platform) (value : JsText) : JsText :=
  Gateway.stripDot (rt.toLowerCase value.trim)

/-- `store.domains[key]`. An object has two such properties from its prototype, without the fields
of a record. -/
def find (store : MockRegistrarStore) (key : JsText) : Option RegistrarDomainRecord :=
  match store.get key with
  | some r => some r
  | none => if key = constructorKey ∨ key = protoKey then some ⟨none, none, none, none⟩ else none

/-- The record of a domain that the store does not have. -/
def unknownRecord : RegistrarDomainRecord := ⟨some .unknown, none, none, some 0⟩

def getDomain (rt : Platform) (store : MockRegistrarStore) (domain : JsText) :
    RegistrarDomainRecord :=
  (find store (normalizeDomain rt domain)).getD unknownRecord

/-- `price_usd` of `getRenewalQuote`. -/
def getRenewalQuote (rt : Platform) (store : MockRegistrarStore) (domain : JsText) : ℚ :=
  if (getDomain rt store domain).status = some .expired then 14 else 11

inductive RenewalError where
  | invalidYears
  | domainUnknown
  deriving DecidableEq

/-- What `renewDomain` has read when it awaits the quote. -/
structure Renewal where
  key : JsText
  years : ℚ
  useCredits : Bool
  store : MockRegistrarStore
  existing : RegistrarDomainRecord
  price : ℚ

/-- `renewDomain` up to the quote. -/
def beginRenewal (rt : Platform) (store : MockRegistrarStore) (domain : JsText) (years : ℚ)
    (useCredits : Bool) : Except RenewalError Renewal :=
  let key := normalizeDomain rt domain
  if years < 1 then .error .invalidYears
  else
    let existing := (find store key).getD unknownRecord
    if existing.status = some .unknown then .error .domainUnknown
    else .ok { key, years, useCredits, store, existing, price := getRenewalQuote rt store key }

def creditsNeeded (price : ℚ) : ℚ := ⌈price * 10⌉

def Renewal.creditsApplied (r : Renewal) : ℚ :=
  if r.useCredits then min r.existing.credits (creditsNeeded r.price) else 0

def day : ℚ := 24 * 60 * 60 * 1000

/-- The last time that a date can be. -/
def maxTime : ℚ := 8640000000000000

/-- `store.domains[key] = record`, as it is saved. -/
def assign (store : MockRegistrarStore) (key : JsText) (r : RegistrarDomainRecord) :
    MockRegistrarStore :=
  if key = protoKey ∧ store.get key = none then store else store.set key r

/-- `renewDomain` from the quote on; it throws if a date is too late. -/
def finishRenewal (r : Renewal) (now : ℚ) : Option MockRegistrarStore :=
  let renewalDueDate := now + r.years * 365 * day
  let graceExpiresAt := now + (r.years * 365 + 30) * day
  if maxTime < renewalDueDate ∨ maxTime < graceExpiresAt then none
  else some (assign r.store r.key
    { status := some .active
      renewalDueDate := some renewalDueDate
      graceExpiresAt := some graceExpiresAt
      creditsBalance := some (max 0 (r.existing.credits - r.creditsApplied)) })

/-! ## The routes -/

/-- `Number(value.toFixed(2))` -/
def toFixed2 (value : ℚ) : ℚ := ⌊value * 100 + 1 / 2⌋ / 100

/-- The credits that the years need at a price. -/
def requiredCredits (price years : ℚ) : ℚ := ⌈toFixed2 (price * years) * 10⌉

/-- `covered_amount` of `estimateRenewalSubsidy`. -/
def coveredAmount (rt : Platform) (ledger : File) (domain : JsText) : JsNum :=
  let key := normalizeKey rt domain
  let balance := if key = [] then .fin 0 else (Core.Credits.ensureStore ledger).read key
  (JsNum.fin 110).min balance

/-- What the route keeps for the time after `renewDomain`. -/
inductive Endpoint where
  | registrar (covered : ℚ)
  | domain (creditsToApply : JsNum)
  deriving DecidableEq

/-- Where a request awaits. -/
inductive Flight where
  /-- `/v1/registrar/renew`, for the quote and the record, which are read. -/
  | quoted (domain : JsText) (years price credits : ℚ)
  /-- `/v1/domain/renew`, for the policy of the treasury. -/
  | checked (domain : JsText) (years : ℚ) (useCredits : Bool)
  /-- `renewDomain`, for its quote. -/
  | renewing (endpoint : Endpoint) (domain : JsText) (r : Renewal)
  /-- The route, for the result of `renewDomain`. -/
  | returned (endpoint : Endpoint) (domain : JsText) (result : Except RenewalError Renewal)

def Flight.domain : Flight → JsText
  | .quoted domain _ _ _ | .checked domain _ _ | .renewing _ domain _ | .returned _ domain _ => domain

inductive Answer where
  | missingDomain
  | insufficientCredits
  | blockedByTreasuryPolicy
  /-- `/v1/registrar/renew`: `status`, and the credits that are covered. -/
  | registrar (submitted : Bool) (covered : ℚ)
  /-- `/v1/domain/renew`: `accepted`, the credits that are applied, and if their debit failed. -/
  | domain (accepted : Bool) (creditsApplied : JsNum) (debitFailed : Bool)
  | thrown
  deriving DecidableEq

/-- The files of the gateway, and the requests that wait. -/
structure System where
  registrar : MockRegistrarStore
  ledger : File
  flights : FinMap ℕ Flight
  next : ℕ

inductive Input where
  | registrarRenew (domain : JsText) (years : ℚ)
  | domainRenew (domain : JsText) (years : ℚ) (useCredits : Bool)
  /-- A request goes on. `allowed` is what the policy of the treasury says, if it is asked. -/
  | resume (id : ℕ) (now : ℚ) (nowText : JsText) (allowed : Bool)

def renewalSubsidy : JsText :=
  ['r', 'e', 'n', 'e', 'w', 'a', 'l', '_', 's', 'u', 'b', 's', 'i', 'd', 'y']

/-- A new request waits. -/
def System.start (s : System) (f : Flight) : System :=
  { s with flights := s.flights.set s.next f, next := s.next + 1 }

/-- A request waits elsewhere. -/
def System.wait (s : System) (id : ℕ) (f : Flight) : System :=
  { s with flights := s.flights.set id f }

/-- A request is answered. -/
def System.done (s : System) (id : ℕ) : System := { s with flights := s.flights.erase id }

/-- The route calls `renewDomain`. -/
def System.renew (rt : Platform) (s : System) (id : ℕ) (endpoint : Endpoint) (domain : JsText)
    (years : ℚ) (useCredits : Bool) : System :=
  match beginRenewal rt s.registrar domain years useCredits with
  | .error e => s.wait id (.returned endpoint domain (.error e))
  | .ok r => s.wait id (.renewing endpoint domain r)

/-- The route goes on after `renewDomain`. -/
def System.settle (rt : Platform) (s : System) (id : ℕ) (endpoint : Endpoint) (domain : JsText)
    (submitted : Bool) (nowText : JsText) : System × Answer :=
  match endpoint with
  | .registrar covered => (s.done id, .registrar submitted covered)
  | .domain creditsToApply =>
    if submitted = true ∧ (JsNum.fin 0).lt creditsToApply = true then
      match Core.Credits.debit rt s.ledger domain creditsToApply renewalSubsidy nowText with
      | (ledger, .balance _) => ({ s with ledger }.done id, .domain submitted creditsToApply false)
      | (ledger, .thrown _) => ({ s with ledger }.done id, .domain submitted (.fin 0) true)
    else (s.done id, .domain submitted (.fin 0) false)

/-- A request runs up to its next `await`. -/
def resume (rt : Platform) (s : System) (id : ℕ) (now : ℚ) (nowText : JsText) (allowed : Bool) :
    Flight → System × Option (ℕ × Answer)
  | .quoted domain years price credits =>
    let required := requiredCredits price years
    let covered := min required credits
    if covered < required then (s.done id, some (id, .insufficientCredits))
    else (s.renew rt id (.registrar covered) domain years true, none)
  | .checked domain years useCredits =>
    if useCredits = true ∧ allowed = false then (s.done id, some (id, .blockedByTreasuryPolicy))
    else
      let creditsToApply := if useCredits then coveredAmount rt s.ledger domain else .fin 0
      (s.renew rt id (.domain creditsToApply) domain years useCredits, none)
  | .renewing endpoint domain r =>
    match finishRenewal r now with
    | none => (s.done id, some (id, .thrown))
    | some registrar => ({ s with registrar }.wait id (.returned endpoint domain (.ok r)), none)
  | .returned endpoint domain result =>
    let (s, answer) := s.settle rt id endpoint domain result.isOk nowText
    (s, some (id, answer))

def step (rt : Platform) (s : System) : Input → System × Option (ℕ × Answer)
  | .registrarRenew domain years =>
    if domain = [] then ({ s with next := s.next + 1 }, some (s.next, .missingDomain))
    else
      let record := getDomain rt s.registrar domain
      (s.start (.quoted domain (max 1 years) (getRenewalQuote rt s.registrar domain) record.credits),
        none)
  | .domainRenew domain years useCredits =>
    if domain = [] then ({ s with next := s.next + 1 }, some (s.next, .missingDomain))
    else (s.start (.checked domain years useCredits), none)
  | .resume id now nowText allowed =>
    match s.flights.get id with
    | none => (s, none)
    | some flight => resume rt s id now nowText allowed flight

end Ddns.Gateway.Renewals
