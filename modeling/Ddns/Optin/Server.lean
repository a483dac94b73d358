import Ddns.Lib.Double
import Ddns.Lib.NumberText
import Ddns.Lib.Results
import Ddns.Optin.Guards

/-!
# The opt-in server

A site that an administrator has entered lets its visitors opt in from the origins on its list. A
submission passes the rate limiter, the checks of its body, the clock and the nonce cache before the
site is looked up at all, and leaves a record. `url` stands for the parser of URLs, with the
protocol and the host of a text that is one.
-/

namespace Ddns.Optin

structure SiteConfig where
  siteId : JsText
  allowedOrigins : List JsText
  allowedCategories : List JsText
  enabled : Bool
  createdAt : ℤ
  updatedAt : ℤ
  deriving DecidableEq

structure ServerConfig where
  adminApiKey : JsText
  rateLimitPerMin : JsNum
  maxSkewSec : JsNum

/-- `CATEGORY_ENUM`. -/
def categoryEnum : List JsText :=
  ["SITE_AVAILABILITY".toList, "DNS_COMPAT".toList, "ROUTING_HINTS".toList,
    "SECURITY_HEADERS".toList, "PERF_LIGHT".toList]

/-! ## Bodies -/

/-- What is thrown; `cannotConvert` is the error of `String` and `Number` for an object that hides
`toString`. -/
inductive BodyError where
  | bodyMustBeObject | siteIdRequired | tsRequired | nonceRequired | allowedOriginsRequired
  | cannotConvert
  | skew (delta : JsNum)
  deriving DecidableEq

/-- The message, given how numbers are printed. -/
def BodyError.message (print : JsNum → String) : BodyError → String
  | .bodyMustBeObject => "body must be object"
  | .siteIdRequired => "site_id required"
  | .tsRequired => "ts required"
  | .nonceRequired => "nonce required"
  | .allowedOriginsRequired => "allowed_origins required"
  | .cannotConvert => "Cannot convert object to primitive value"
  | .skew delta => "timestamp skew too large (" ++ print delta ++ "s)"

/-- `if (!c) throw e`. -/
def check (c : Prop) [Decidable c] (e : BodyError) : Except BodyError Unit :=
  if c then .ok () else .error e

structure OptinSubmitBody where
  siteId : JsText
  email : Option JsText
  categories : List JsText
  ts : ℚ
  nonce : JsText
  pageUrl : Option JsText

/-- `typeof x === "object"`, of a value that is not `null`. -/
def isObject : Json → Bool
  | .obj _ => true
  | .arr _ => true
  | _ => false

/-- `String(value)`. -/
def toText (j : Json) : Except BodyError JsText :=
  match j.toText with
  | some t => .ok t
  | none => .error .cannotConvert

/-- `String(x.key || "").trim()`. -/
def trimmed (x : Json) (key : JsText) : Except BodyError JsText :=
  match x.field key with
  | none => .ok []
  | some j => if j.truthy then (toText j).map JsText.trim else .ok []

/-- `x.key ? String(x.key).trim() : undefined`. -/
def optional (x : Json) (key : JsText) : Except BodyError (Option JsText) :=
  match x.field key with
  | none => .ok none
  | some j => if j.truthy then (toText j).map fun t => some t.trim else .ok none

/-- `Number(value)`. -/
def toNumber : Option Json → Except BodyError JsNum
  | none => .ok .nan
  | some .null => .ok (.fin 0)
  | some (.bool b) => .ok (.fin (if b then 1 else 0))
  | some (.num t) => .ok (NumberText.ofText t)
  | some (.str s) => .ok (NumberText.ofText s)
  | some j => (toText j).map NumberText.ofText

/-- `Array.isArray(x.key) ? x.key.map(String) : []`. -/
def texts (x : Json) (key : JsText) : Except BodyError (List JsText) :=
  match x.field key with
  | some (.arr items) => items.mapM toText
  | _ => .ok []

/-- A finite positive number. -/
def positive : JsNum → Option ℚ
  | .fin q => if 0 < q then some q else none
  | _ => none

/-- `validateOptinBody`. -/
def validateOptinBody (x : Json) : Except BodyError OptinSubmitBody := do
  check (isObject x = true) .bodyMustBeObject
  let siteId ← trimmed x "site_id".toList
  check (siteId ≠ []) .siteIdRequired
  let number ← toNumber (x.field "ts".toList)
  let ts ← (positive number).elim (.error .tsRequired) .ok
  let nonce ← trimmed x "nonce".toList
  check (nonce ≠ [] ∧ 8 ≤ nonce.codeUnits.length) .nonceRequired
  let email ← optional x "email".toList
  let pageUrl ← optional x "page_url".toList
  let categories ← texts x "categories".toList
  pure ⟨siteId, email, categories.filter (categoryEnum.contains ·), ts, nonce, pageUrl⟩

structure SiteUpsert where
  siteId : JsText
  allowedOrigins : List JsText
  allowedCategories : List JsText
  enabled : Bool

/-- `validateSiteUpsertBody`. -/
def validateSiteUpsertBody (x : Json) : Except BodyError SiteUpsert := do
  check (isObject x = true) .bodyMustBeObject
  let siteId ← trimmed x "site_id".toList
  check (siteId ≠ []) .siteIdRequired
  let origins ← texts x "allowed_origins".toList
  let allowedOrigins := (origins.map JsText.trim).filter (· ≠ [])
  check (allowedOrigins ≠ []) .allowedOriginsRequired
  let categories ← texts x "allowed_categories".toList
  let enabled := (x.field "enabled".toList).elim true Json.truthy
  pure ⟨siteId, allowedOrigins, categories.filter (categoryEnum.contains ·), enabled⟩

/-! ## Origins -/

/-- The parser of URLs: the protocol and the host of a text that is a URL. -/
abbrev Url := JsText → Option (JsText × JsText)

/-- `${protocol}//${host}`. -/
def originText (u : JsText × JsText) : JsText := u.1 ++ ['/', '/'] ++ u.2

def normalizeOrigin (url : Url) (o : JsText) : JsText :=
  match url o with
  | some u => originText u
  | none => o

def isOriginAllowed (url : Url) (origin : Option JsText) (allowed : List JsText) : Bool :=
  match origin with
  | none => false
  | some o => o ≠ [] && (allowed.map (normalizeOrigin url)).contains (normalizeOrigin url o)

/-- What is read of a request. -/
structure Request where
  forwardedFor : Option JsText
  remoteAddress : Option JsText
  origin : Option JsText
  referer : Option JsText
  body : Json

/-- The header `Origin`, else the origin of the `Referer`. -/
def extractOrigin (url : Url) (req : Request) : Option JsText :=
  match req.origin.filter (· ≠ []) with
  | some o => some o
  | none => (req.referer.filter (· ≠ [])).bind fun r => (url r).map originText

/-- The first address of `X-Forwarded-For`, else that of the socket. -/
def clientIp (req : Request) : JsText :=
  ((req.forwardedFor.map fun h => JsText.trim (h.takeWhile (· ≠ ','))).filter (· ≠ [])).getD
    ((req.remoteAddress.filter (· ≠ [])).getD "unknown".toList)

/-- The distance of a time from the clock. -/
def skew (now : ℤ) (ts : ℚ) : JsNum := Rounding.nearest |(now : ℚ) - ts|

/-! ## The server -/

structure OptinRecord where
  receivedAt : ℤ
  ip : JsText
  origin : Option JsText
  siteId : JsText
  email : Option JsText
  categories : List JsText
  pageUrl : Option JsText
  clientTs : ℚ
  nonce : JsText

structure Server where
  limiter : RateLimiter
  nonces : NonceCache
  sites : FinMap JsText SiteConfig
  optins : List OptinRecord

inductive Response where
  | ok
  | site (s : SiteConfig)
  | rateLimited
  | badRequest (e : BodyError)
  | replayDetected
  | unknownSite
  | originNotAllowed
  | unauthorized
  deriving DecidableEq

/-- The status and the error of a response. -/
def Response.status : Response → ℕ × Option String
  | .ok => (200, none)
  | .site _ => (200, none)
  | .rateLimited => (429, some "rate_limited")
  | .badRequest _ => (400, none)
  | .replayDetected => (409, some "replay_detected")
  | .unknownSite => (404, some "unknown_site")
  | .originNotAllowed => (403, some "origin_not_allowed")
  | .unauthorized => (401, some "unauthorized")

/-- A server that starts with the sites of its file; it remembers ten thousand nonces. -/
def start (cfg : ServerConfig) (sites : FinMap JsText SiteConfig) : Server :=
  ⟨.init cfg.rateLimitPerMin, .init 10000, sites, []⟩

section Handlers

variable (cfg : ServerConfig) (url : Url)

/-- `body.email || null`. -/
def orNull (t : Option JsText) : Option JsText := t.filter (· ≠ [])

/-- The record of a submission. -/
def record (now : ℤ) (req : Request) (body : OptinSubmitBody) (site : SiteConfig) : OptinRecord where
  receivedAt := now
  ip := clientIp req
  origin := extractOrigin url req
  siteId := body.siteId
  email := orNull body.email
  categories := (if body.categories ≠ [] then body.categories else site.allowedCategories).filter
    (site.allowedCategories.contains ·)
  pageUrl := orNull body.pageUrl
  clientTs := body.ts
  nonce := body.nonce

/-- What a site answers to a submission that has come through. -/
def admitSite (site : Option SiteConfig) (req : Request) : Except Response SiteConfig :=
  match site with
  | none => .error .unknownSite
  | some site =>
    if site.enabled = false then .error .unknownSite
    else if isOriginAllowed url (extractOrigin url req) site.allowedOrigins = false then
      .error .originNotAllowed
    else .ok site

/-- `optinSubmitHandler`. -/
def submit (now : ℤ) (req : Request) (s : Server) : Server × Response :=
  let allowed := s.limiter.allow now (clientIp req)
  let s := { s with limiter := allowed.1 }
  if allowed.2 = false then (s, .rateLimited)
  else match validateOptinBody req.body with
    | .error e => (s, .badRequest e)
    | .ok body =>
      if cfg.maxSkewSec.lt (skew now body.ts) = true then
        (s, .badRequest (.skew (skew now body.ts)))
      else if s.nonces.seen body.nonce = true then (s, .replayDetected)
      else
        let s := { s with nonces := s.nonces.add body.nonce }
        match admitSite url (s.sites.get body.siteId) req with
        | .error r => (s, r)
        | .ok site => ({ s with optins := s.optins ++ [record url now req body site] }, .ok)

/-- `adminUpsertSite` behind `requireAdmin`. -/
def upsertSite (now : ℤ) (key : Option JsText) (body : Json) (s : Server) : Server × Response :=
  if key.filter (· ≠ []) ≠ some cfg.adminApiKey then (s, .unauthorized)
  else match validateSiteUpsertBody body with
    | .error e => (s, .badRequest e)
    | .ok input =>
      let site : SiteConfig := {
        siteId := input.siteId
        allowedOrigins := input.allowedOrigins
        allowedCategories := if input.allowedCategories ≠ [] then input.allowedCategories
          else ["SITE_AVAILABILITY".toList]
        enabled := input.enabled
        createdAt := ((s.sites.get input.siteId).map SiteConfig.createdAt).getD now
        updatedAt := now }
      ({ s with sites := s.sites.set input.siteId site }, .site site)

/-- A request at some time. -/
inductive Input where
  | submit (now : ℤ) (req : Request)
  | upsertSite (now : ℤ) (key : Option JsText) (body : Json)

def step (s : Server) : Input → Server × Response
  | .submit now req => submit cfg url now req s
  | .upsertSite now key body => upsertSite cfg now key body s

end Handlers

end Ddns.Optin

/-!
## The opt-in server as a function of its history

The server keeps counters, a cache and a table; what they stand for is in the requests so far. The
abstract answer to a submission (`answer`) is computed from these alone: from the minutes in which
its address has asked, from the nonces that were used and from the last entry of its site. The
server gives this answer in every run (`submit_answer`), and its log has one record for each
submission that was answered well. A nonce is used up before the site is looked at, by requests for
any site and from any origin, so what protects a record from being entered twice is only that ten
thousand nonces are remembered (`replay_distance`).
-/

namespace Ddns.Optin

variable {cfg : ServerConfig} {url : Url} {sites : FinMap JsText SiteConfig}

/-- An answered request. -/
abbrev Answered := Runs.Event Server Input Response

/-! ## What the requests so far say -/

/-- The minute of a submission from this address. -/
def minuteOf (ip : JsText) (e : Answered) : Option ℤ :=
  match e.input with
  | .submit now req => if clientIp req = ip then some (RateLimiter.minute now) else none
  | .upsertSite _ _ _ => none

/-- The response says that the nonce of the request was new. -/
def Response.pastNonce : Response → Bool
  | .rateLimited => false
  | .badRequest _ => false
  | .replayDetected => false
  | _ => true

/-- The nonce that a submission uses up. -/
def nonceOf (e : Answered) : Option JsText :=
  match e.input with
  | .submit _ req =>
    if e.out.pastNonce then (validateOptinBody req.body).toOption.map OptinSubmitBody.nonce
    else none
  | .upsertSite _ _ _ => none

/-- The site that a request enters. -/
def siteOf (e : Answered) : Option SiteConfig :=
  match e.out with
  | .site s => some s
  | _ => none

/-- The record of a submission that was answered well, if its site was `site`. -/
def recordOf (url : Url) (site : JsText → Option SiteConfig) (e : Answered) : Option OptinRecord :=
  match e.input with
  | .submit now req => do
    let body ← (validateOptinBody req.body).toOption
    let site ← site body.siteId
    if e.out = .ok then some (record url now req body site) else none
  | .upsertSite _ _ _ => none

/-- The last entry of a site. -/
def lastSite (sites : FinMap JsText SiteConfig) (l : List Answered) (siteId : JsText) :
    Option SiteConfig :=
  ((l.filterMap siteOf).filter fun s => s.siteId = siteId).getLast?.or (sites.get siteId)

/-- The answer to a submission after the given requests. -/
def answer (cfg : ServerConfig) (url : Url) (sites : FinMap JsText SiteConfig) (l : List Answered)
    (now : ℤ) (req : Request) : Response :=
  if RateLimiter.passes cfg.rateLimitPerMin (RateLimiter.runLength
      (l.filterMap (minuteOf (clientIp req))) (RateLimiter.minute now)) = false then .rateLimited
  else match validateOptinBody req.body with
    | .error e => .badRequest e
    | .ok body =>
      if cfg.maxSkewSec.lt (skew now body.ts) = true then .badRequest (.skew (skew now body.ts))
      else if body.nonce ∈ (l.filterMap nonceOf).rtake 10000 then .replayDetected
      else match admitSite url (lastSite sites l body.siteId) req with
        | .error r => r
        | .ok _ => .ok

/-! ## What the state stands for -/

/-- The state stands for the requests so far. -/
structure Stands (cfg : ServerConfig) (sites : FinMap JsText SiteConfig) (s : Server)
    (l : List Answered) : Prop where
  perMin_eq : s.limiter.perMin = cfg.rateLimitPerMin
  counts : ∀ ip, RateLimiter.Counts cfg.rateLimitPerMin (l.filterMap (minuteOf ip))
    (s.limiter.buckets.get ip)
  maxSize_eq : s.nonces.maxSize = 10000
  remembers : s.nonces.Remembers (l.filterMap nonceOf)
  site_eq : ∀ siteId, s.sites.get siteId = lastSite sites l siteId

theorem stands_start (cfg : ServerConfig) (sites : FinMap JsText SiteConfig) :
    Stands cfg sites (start cfg sites) [] where
  perMin_eq := rfl
  counts _ := rfl
  maxSize_eq := rfl
  remembers := NonceCache.remembers_init 10000
  site_eq _ := rfl

@[simp] theorem check_eq_ok {c : Prop} [Decidable c] {e : BodyError} {u : Unit} :
    check c e = .ok u ↔ c := by
  unfold check
  split <;> simp_all

/-- A validated nonce is not empty. -/
theorem nonce_ne_nil {x : Json} {body : OptinSubmitBody} (h : validateOptinBody x = .ok body) :
    body.nonce ≠ [] := by
  simp only [validateOptinBody, Results.bind_eq_ok_iff, check_eq_ok] at h
  obtain ⟨-, -, siteId, -, -, -, number, -, ts, -, nonce, -, -, hnonce, email, -, pageUrl, -, categories,
    -, hbody⟩ := h
  cases hbody
  exact hnonce.1

/-! ## One request -/

/-- A request that is not a submission tells no minute and no nonce. -/
theorem minuteOf_upsert {ip : JsText} {s : Server} {now : ℤ} {key : Option JsText} {body : Json} :
    minuteOf ip (Runs.event (step cfg url) s (.upsertSite now key body)) = none := rfl

theorem nonceOf_upsert {s : Server} {now : ℤ} {key : Option JsText} {body : Json} :
    nonceOf (Runs.event (step cfg url) s (.upsertSite now key body)) = none := rfl

theorem lastSite_concat (sites : FinMap JsText SiteConfig) (l : List Answered) (e : Answered)
    (siteId : JsText) : lastSite sites (l ++ [e]) siteId =
      match siteOf e with
      | none => lastSite sites l siteId
      | some s => if s.siteId = siteId then some s else lastSite sites l siteId := by
  unfold lastSite
  cases hs : siteOf e with
  | none => rw [Runs.filterMap_concat_none hs]
  | some s =>
    rw [Runs.filterMap_concat_some hs, List.filter_append, List.filter_singleton]
    by_cases hid : s.siteId = siteId
    · simp [hid]
    · simp [hid]

/-- What a submission does: what it is answered, and what it leaves in the cache and the log. -/
inductive Submitted (cfg : ServerConfig) (url : Url) (now : ℤ) (req : Request) (s : Server) :
    Server × Response → Prop where
  | rateLimited (h : (s.limiter.allow now (clientIp req)).2 = false) :
      Submitted cfg url now req s
        ({ s with limiter := (s.limiter.allow now (clientIp req)).1 }, .rateLimited)
  | badRequest {e : BodyError} (h : (s.limiter.allow now (clientIp req)).2 = true)
      (hbody : validateOptinBody req.body = .error e ∨ ∃ body,
        validateOptinBody req.body = .ok body ∧ cfg.maxSkewSec.lt (skew now body.ts) = true ∧
          e = .skew (skew now body.ts)) :
      Submitted cfg url now req s
        ({ s with limiter := (s.limiter.allow now (clientIp req)).1 }, .badRequest e)
  | replayDetected {body : OptinSubmitBody} (h : (s.limiter.allow now (clientIp req)).2 = true)
      (hbody : validateOptinBody req.body = .ok body)
      (hskew : cfg.maxSkewSec.lt (skew now body.ts) = false)
      (hseen : s.nonces.seen body.nonce = true) :
      Submitted cfg url now req s
        ({ s with limiter := (s.limiter.allow now (clientIp req)).1 }, .replayDetected)
  | refused {body : OptinSubmitBody} {r : Response}
      (h : (s.limiter.allow now (clientIp req)).2 = true)
      (hbody : validateOptinBody req.body = .ok body)
      (hskew : cfg.maxSkewSec.lt (skew now body.ts) = false)
      (hseen : s.nonces.seen body.nonce = false)
      (hadmitted : admitSite url (s.sites.get body.siteId) req = .error r) :
      Submitted cfg url now req s
        ({ s with
            limiter := (s.limiter.allow now (clientIp req)).1
            nonces := s.nonces.add body.nonce }, r)
  | recorded {body : OptinSubmitBody} {site : SiteConfig}
      (h : (s.limiter.allow now (clientIp req)).2 = true)
      (hbody : validateOptinBody req.body = .ok body)
      (hskew : cfg.maxSkewSec.lt (skew now body.ts) = false)
      (hseen : s.nonces.seen body.nonce = false)
      (hadmitted : admitSite url (s.sites.get body.siteId) req = .ok site) :
      Submitted cfg url now req s
        ({ s with
            limiter := (s.limiter.allow now (clientIp req)).1
            nonces := s.nonces.add body.nonce
            optins := s.optins ++ [record url now req body site] }, .ok)

theorem submitted (cfg : ServerConfig) (url : Url) (now : ℤ) (req : Request) (s : Server) :
    Submitted cfg url now req s (submit cfg url now req s) := by
  cases hallow : (s.limiter.allow now (clientIp req)).2 with
  | false =>
    simp only [submit, hallow, if_true]
    exact .rateLimited hallow
  | true =>
    cases hbody : validateOptinBody req.body with
    | error e =>
      simp only [submit, hallow, hbody, Bool.true_eq_false, if_false]
      exact .badRequest hallow (.inl hbody)
    | ok body =>
      cases hskew : cfg.maxSkewSec.lt (skew now body.ts) with
      | true =>
        simp only [submit, hallow, hbody, hskew, Bool.true_eq_false, if_false, if_true]
        exact .badRequest hallow (.inr ⟨body, hbody, hskew, rfl⟩)
      | false =>
        cases hseen : s.nonces.seen body.nonce with
        | true =>
          simp only [submit, hallow, hbody, hskew, hseen, Bool.true_eq_false, Bool.false_eq_true,
            if_false, if_true]
          exact .replayDetected hallow hbody hskew hseen
        | false =>
          cases hadmitted : admitSite url (s.sites.get body.siteId) req with
          | error r =>
            simp only [submit, hallow, hbody, hskew, hseen, hadmitted, Bool.true_eq_false,
              Bool.false_eq_true, if_false]
            exact .refused hallow hbody hskew hseen hadmitted
          | ok site =>
            simp only [submit, hallow, hbody, hskew, hseen, hadmitted, Bool.true_eq_false,
              Bool.false_eq_true, if_false]
            exact .recorded hallow hbody hskew hseen hadmitted

/-- What a site refuses with. -/
theorem admitSite_error {site : Option SiteConfig} {req : Request} {r : Response}
    (h : admitSite url site req = .error r) : r = .unknownSite ∨ r = .originNotAllowed := by
  unfold admitSite at h
  split at h
  · exact .inl (Except.error.inj h).symm
  · split at h
    · exact .inl (Except.error.inj h).symm
    · split at h
      · exact .inr (Except.error.inj h).symm
      · cases h

theorem pastNonce_of_admitSite {site : Option SiteConfig} {req : Request} {r : Response}
    (h : admitSite url site req = .error r) : r.pastNonce = true := by
  rcases admitSite_error h with rfl | rfl
  · rfl
  · rfl

theorem lastSite_of_none {l : List Answered} {e : Answered} (h : siteOf e = none)
    (siteId : JsText) : lastSite sites (l ++ [e]) siteId = lastSite sites l siteId := by
  rw [lastSite_concat, h]

section Steps

variable {s : Server} {l : List Answered} {now : ℤ} {req : Request}

/-- A submission is counted under its address. -/
theorem counts_submit (url : Url) (now : ℤ) (req : Request) (hs : Stands cfg sites s l)
    (ip : JsText) :
    RateLimiter.Counts cfg.rateLimitPerMin
      ((l ++ [Runs.event (step cfg url) s (.submit now req)]).filterMap (minuteOf ip))
      ((s.limiter.allow now (clientIp req)).1.buckets.get ip) := by
  by_cases hip : clientIp req = ip
  · have hminute : minuteOf ip (Runs.event (step cfg url) s (.submit now req)) =
        some (RateLimiter.minute now) := if_pos hip
    rw [Runs.filterMap_concat_some hminute]
    subst hip
    have hcounts := hs.counts (clientIp req)
    rw [← hs.perMin_eq] at hcounts ⊢
    exact (RateLimiter.allow_step now hcounts).2
  · have hminute : minuteOf ip (Runs.event (step cfg url) s (.submit now req)) = none := if_neg hip
    rw [Runs.filterMap_concat_none hminute, RateLimiter.allow_other now (Ne.symm hip)]
    exact hs.counts ip

/-- A response to a submission enters no site. -/
theorem siteOf_submit (cfg : ServerConfig) (url : Url) (s : Server) (now : ℤ) (req : Request) :
    siteOf (Runs.event (step cfg url) s (.submit now req)) = none := by
  have h := submitted cfg url now req s
  show siteOf ⟨s, .submit now req, (submit cfg url now req s).2, _⟩ = none
  generalize submit cfg url now req s = r at h
  cases h with
  | refused _ _ _ _ hadmitted =>
    rcases admitSite_error hadmitted with rfl | rfl
    · rfl
    · rfl
  | _ => rfl

/-- The nonce of a submission is used up once it is past the checks and new. -/
theorem nonceOf_submit (cfg : ServerConfig) (url : Url) (s : Server) (now : ℤ) (req : Request) :
    nonceOf (Runs.event (step cfg url) s (.submit now req)) =
      if (submit cfg url now req s).2.pastNonce then
        (validateOptinBody req.body).toOption.map OptinSubmitBody.nonce
      else none := rfl

/-- One submission keeps what the state stands for. -/
theorem stands_submit (hs : Stands cfg sites s l) :
    Stands cfg sites (submit cfg url now req s).1
      (l ++ [Runs.event (step cfg url) s (.submit now req)]) := by
  have hcounts := counts_submit url now req hs
  have hsites (siteId : JsText) := (hs.site_eq siteId).trans
    (lastSite_of_none (siteOf_submit cfg url s now req) siteId).symm
  have hnonce := nonceOf_submit cfg url s now req
  have hperMin : (s.limiter.allow now (clientIp req)).1.perMin = cfg.rateLimitPerMin :=
    (RateLimiter.allow_perMin _ _ _).trans hs.perMin_eq
  have h := submitted cfg url now req s
  generalize submit cfg url now req s = r at h hnonce
  -- Nothing is used up, or the nonce of the body.
  have hsame (hpast : r.2.pastNonce = false) : s.nonces.Remembers
      ((l ++ [Runs.event (step cfg url) s (.submit now req)]).filterMap nonceOf) := by
    rw [Runs.filterMap_concat_none (hnonce.trans (if_neg (by rw [hpast]; exact Bool.false_ne_true)))]
    exact hs.remembers
  have hused {body : OptinSubmitBody} (hpast : r.2.pastNonce = true)
      (hbody : validateOptinBody req.body = .ok body) (hseen : s.nonces.seen body.nonce = false) :
      (s.nonces.add body.nonce).Remembers
        ((l ++ [Runs.event (step cfg url) s (.submit now req)]).filterMap nonceOf) ∧
      (s.nonces.add body.nonce).maxSize = 10000 := by
    rw [if_pos hpast, hbody] at hnonce
    rw [Runs.filterMap_concat_some hnonce]
    obtain ⟨hremembers, hmax⟩ := hs.remembers.add hseen (nonce_ne_nil hbody)
    exact ⟨hremembers, hmax.trans hs.maxSize_eq⟩
  cases h with
  | rateLimited => exact ⟨hperMin, hcounts, hs.maxSize_eq, hsame rfl, hsites⟩
  | badRequest => exact ⟨hperMin, hcounts, hs.maxSize_eq, hsame rfl, hsites⟩
  | replayDetected => exact ⟨hperMin, hcounts, hs.maxSize_eq, hsame rfl, hsites⟩
  | refused _ hbody _ hseen hadmitted =>
    obtain ⟨hremembers, hmax⟩ := hused (pastNonce_of_admitSite hadmitted) hbody hseen
    exact ⟨hperMin, hcounts, hmax, hremembers, hsites⟩
  | recorded _ hbody _ hseen _ =>
    obtain ⟨hremembers, hmax⟩ := hused rfl hbody hseen
    exact ⟨hperMin, hcounts, hmax, hremembers, hsites⟩

/-- Entering a site, or being refused to. -/
theorem stands_upsert (hs : Stands cfg sites s l) {key : Option JsText} {body : Json} :
    Stands cfg sites (upsertSite cfg now key body s).1
      (l ++ [Runs.event (step cfg url) s (.upsertSite now key body)]) := by
  have hminutes (ip : JsText) : (l ++ [Runs.event (step cfg url) s
      (.upsertSite now key body)]).filterMap (minuteOf ip) = l.filterMap (minuteOf ip) :=
    Runs.filterMap_concat_none minuteOf_upsert l
  have hnonces : (l ++ [Runs.event (step cfg url) s
      (.upsertSite now key body)]).filterMap nonceOf = l.filterMap nonceOf :=
    Runs.filterMap_concat_none nonceOf_upsert l
  have hcase : (upsertSite cfg now key body s).1 = s ∧
      siteOf (Runs.event (step cfg url) s (.upsertSite now key body)) = none ∨
      ∃ site : SiteConfig, (upsertSite cfg now key body s).1 =
        { s with sites := s.sites.set site.siteId site } ∧
        siteOf (Runs.event (step cfg url) s (.upsertSite now key body)) = some site := by
    simp only [siteOf, Runs.event_out, step, upsertSite]
    by_cases hkey : key.filter (· ≠ []) ≠ some cfg.adminApiKey
    · rw [if_pos hkey]
      exact .inl ⟨rfl, rfl⟩
    · rw [if_neg hkey]
      cases validateSiteUpsertBody body with
      | error e => exact .inl ⟨rfl, rfl⟩
      | ok input => exact .inr ⟨_, rfl, rfl⟩
  rcases hcase with ⟨hstate, hnone⟩ | ⟨site, hstate, hsome⟩
  · rw [hstate]
    refine ⟨hs.perMin_eq, fun ip => ?_, hs.maxSize_eq, ?_, fun siteId => ?_⟩
    · rw [hminutes]
      exact hs.counts ip
    · rw [hnonces]
      exact hs.remembers
    · rw [lastSite_of_none hnone]
      exact hs.site_eq siteId
  · rw [hstate]
    refine ⟨hs.perMin_eq, fun ip => ?_, hs.maxSize_eq, ?_, fun siteId => ?_⟩
    · rw [hminutes]
      exact hs.counts ip
    · rw [hnonces]
      exact hs.remembers
    · rw [lastSite_concat, hsome]
      by_cases hid : site.siteId = siteId
      · subst hid
        simp
      · simp only [if_neg hid]
        rw [FinMap.get_set_ne _ _ (Ne.symm hid)]
        exact hs.site_eq siteId

theorem stands_of_run (cfg : ServerConfig) (url : Url) (sites : FinMap JsText SiteConfig)
    (is : List Input) : Stands cfg sites (Runs.exec (step cfg url) (start cfg sites) is)
      (Runs.trace (step cfg url) (start cfg sites) is) := by
  refine Runs.history_of_step (fun s l i hs => ?_) (stands_start cfg sites) is
  cases i with
  | submit now req => exact stands_submit hs
  | upsertSite now key body => exact stands_upsert hs

/-- In a state that stands for the requests so far, the answer is the abstract one. -/
theorem submit_eq_answer (hs : Stands cfg sites s l) :
    (submit cfg url now req s).2 = answer cfg url sites l now req := by
  have hcounts := hs.counts (clientIp req)
  rw [← hs.perMin_eq] at hcounts
  have hpasses := (RateLimiter.allow_step now hcounts).1
  rw [hs.perMin_eq] at hpasses
  have hseen (nonce : JsText) : s.nonces.seen nonce = true ↔
      nonce ∈ (l.filterMap nonceOf).rtake 10000 := by
    rw [hs.remembers.seen_iff, hs.maxSize_eq]
  unfold answer
  rw [← hpasses]
  have h := submitted cfg url now req s
  generalize submit cfg url now req s = r at h
  cases h with
  | rateLimited hallow => rw [if_pos hallow]
  | badRequest hallow hbody =>
    rw [if_neg (by rw [hallow]; exact Bool.true_eq_false_eq_False)]
    rcases hbody with hbody | ⟨body, hbody, hskew, rfl⟩
    · simp only [hbody]
    · simp only [hbody, hskew, if_true]
  | replayDetected hallow hbody hskew hnonce =>
    rw [if_neg (by rw [hallow]; exact Bool.true_eq_false_eq_False)]
    simp only [hbody, hskew, Bool.false_eq_true, if_false, if_pos ((hseen _).1 hnonce)]
  | refused hallow hbody hskew hnonce hadmitted =>
    have hnot := fun hin => Bool.false_ne_true (hnonce.symm.trans ((hseen _).2 hin))
    rw [hs.site_eq] at hadmitted
    rw [if_neg (by rw [hallow]; exact Bool.true_eq_false_eq_False)]
    simp only [hbody, hskew, Bool.false_eq_true, if_false, if_neg hnot, hadmitted]
  | recorded hallow hbody hskew hnonce hadmitted =>
    have hnot := fun hin => Bool.false_ne_true (hnonce.symm.trans ((hseen _).2 hin))
    rw [hs.site_eq] at hadmitted
    rw [if_neg (by rw [hallow]; exact Bool.true_eq_false_eq_False)]
    simp only [hbody, hskew, Bool.false_eq_true, if_false, if_neg hnot, hadmitted]

end Steps

/-! ## Runs -/

/-- **The server is a function of its history.** In every run of submissions and administration, at
any times and from any addresses, a submission is answered as `answer` says of the requests before
it: by the run of its address in the minute, its body, the clock, the last ten thousand nonces used
and the last entry of its site. -/
theorem submit_answer (cfg : ServerConfig) (url : Url) (sites : FinMap JsText SiteConfig)
    (before : List Input) (now : ℤ) (req : Request) :
    (step cfg url (Runs.exec (step cfg url) (start cfg sites) before) (.submit now req)).2 =
      answer cfg url sites (Runs.trace (step cfg url) (start cfg sites) before) now req :=
  submit_eq_answer (stands_of_run cfg url sites before)

/-- A record was left by a submission that its site, as entered last, was right to admit. -/
def Lawful (cfg : ServerConfig) (url : Url) (sites : FinMap JsText SiteConfig) (is : List Input)
    (r : OptinRecord) : Prop :=
  ∃ before now req after body site, is = before ++ .submit now req :: after ∧
    validateOptinBody req.body = .ok body ∧
    lastSite sites (Runs.trace (step cfg url) (start cfg sites) before) body.siteId = some site ∧
    site.enabled = true ∧ isOriginAllowed url (extractOrigin url req) site.allowedOrigins = true ∧
    r = record url now req body site ∧ ∀ c ∈ r.categories, c ∈ site.allowedCategories

theorem Lawful.append {is : List Input} {r : OptinRecord} (h : Lawful cfg url sites is r)
    (i : Input) : Lawful cfg url sites (is ++ [i]) r := by
  obtain ⟨before, now, req, after, body, site, rfl, hrest⟩ := h
  exact ⟨before, now, req, after ++ [i], body, site, by simp, hrest⟩

theorem admitSite_ok {site : Option SiteConfig} {req : Request} {s : SiteConfig}
    (h : admitSite url site req = .ok s) : site = some s ∧ s.enabled = true ∧
      isOriginAllowed url (extractOrigin url req) s.allowedOrigins = true := by
  unfold admitSite at h
  split at h
  · cases h
  · next s' =>
    cases henabled : s'.enabled with
    | false =>
      rw [if_pos henabled] at h
      cases h
    | true =>
      rw [if_neg (by rw [henabled]; exact Bool.true_eq_false_eq_False)] at h
      cases hallowed : isOriginAllowed url (extractOrigin url req) s'.allowedOrigins with
      | false =>
        rw [if_pos hallowed] at h
        cases h
      | true =>
        rw [if_neg (by rw [hallowed]; exact Bool.true_eq_false_eq_False), Except.ok.injEq] at h
        subst h
        exact ⟨rfl, henabled, hallowed⟩

/-- The categories of a record are among those that its site allows. -/
theorem record_categories (url : Url) (now : ℤ) (req : Request) (body : OptinSubmitBody) (site : SiteConfig) :
    ∀ c ∈ (record url now req body site).categories, c ∈ site.allowedCategories := by
  intro c hc
  have hkept := (List.mem_filter.1 hc).2
  rwa [List.contains_iff_mem] at hkept

/-- **Every record is lawful.** Whatever was asked of the server, each line of its log comes from a
submission to a site that was enabled by its last entry, from an origin on the list of that entry,
and has no category that the entry does not allow. -/
theorem record_lawful (cfg : ServerConfig) (url : Url) (sites : FinMap JsText SiteConfig)
    (is : List Input) :
    ∀ r ∈ (Runs.exec (step cfg url) (start cfg sites) is).optins, Lawful cfg url sites is r := by
  induction is using List.reverseRecOn with
  | nil => exact fun r hr => absurd hr List.not_mem_nil
  | append_singleton is i ih =>
    intro r hr
    rw [Runs.exec_append] at hr
    have hsites := (stands_of_run cfg url sites is).site_eq
    generalize Runs.exec (step cfg url) (start cfg sites) is = s at hr ih hsites
    cases i with
    | upsertSite now key body =>
      have hsame : (upsertSite cfg now key body s).1.optins = s.optins := by
        unfold upsertSite
        split
        · rfl
        · split <;> rfl
      have hr' : r ∈ (upsertSite cfg now key body s).1.optins := hr
      rw [hsame] at hr'
      exact (ih r hr').append _
    | submit now req =>
      have h := submitted cfg url now req s
      have hr' : r ∈ (submit cfg url now req s).1.optins := hr
      generalize submit cfg url now req s = out at h hr'
      cases h with
      | @recorded body site _ hbody _ _ hadmitted =>
        rcases List.mem_append.1 hr' with hold | hnew
        · exact (ih r hold).append _
        · obtain ⟨hsite, henabled, hallowed⟩ := admitSite_ok hadmitted
          rw [hsites] at hsite
          have hr := List.mem_singleton.1 hnew
          exact ⟨is, now, req, [], body, site, rfl, hbody, hsite, henabled, hallowed, hr,
            hr ▸ record_categories url now req body site⟩
      | _ => exact (ih r hr').append _

/-- The last `n` of a list include what fewer came after. -/
theorem mem_rtake_of_length {α : Type*} {l l' : List α} {a : α} {n : ℕ} (h : l'.length < n) :
    a ∈ (l ++ a :: l').rtake n := by
  have hdrop : (l ++ a :: l').rtake n = (l.drop (l.length + (l'.length + 1) - n)) ++ a :: l' := by
    unfold List.rtake
    rw [List.length_append, List.length_cons, List.drop_append_of_le_length (by omega)]
  rw [hdrop]
  exact List.mem_append_right _ List.mem_cons_self

/-- **A nonce is used once in ten thousand.** After a submission that used up a nonce, no other uses
it until ten thousand nonces have been used in between, be it for other sites, for none, or from
other origins. -/
theorem replay_distance (cfg : ServerConfig) (url : Url) (sites : FinMap JsText SiteConfig)
    (before between : List Input) (i j : Input) (nonce : JsText)
    (hused : nonceOf (Runs.event (step cfg url)
      (Runs.exec (step cfg url) (start cfg sites) before) i) = some nonce)
    (hfew : ((Runs.trace (step cfg url)
      (Runs.exec (step cfg url) (start cfg sites) (before ++ [i])) between).filterMap
        nonceOf).length < 10000) :
    nonceOf (Runs.event (step cfg url)
      (Runs.exec (step cfg url) (start cfg sites) (before ++ i :: between)) j) ≠ some nonce := by
  intro hagain
  have hstands := stands_of_run cfg url sites (before ++ i :: between)
  -- The nonce is among the last ones when it comes again.
  have hrecent : nonce ∈ ((Runs.trace (step cfg url) (start cfg sites)
      (before ++ i :: between)).filterMap nonceOf).rtake 10000 := by
    rw [Runs.trace_append, Runs.trace_cons, List.filterMap_append,
      List.filterMap_cons_some hused]
    refine mem_rtake_of_length ?_
    rw [Runs.exec_append] at hfew
    exact hfew
  generalize Runs.exec (step cfg url) (start cfg sites) (before ++ i :: between) = s
    at hagain hstands
  generalize Runs.trace (step cfg url) (start cfg sites) (before ++ i :: between) = l
    at hstands hrecent
  have hseen : s.nonces.seen nonce = true := by
    rw [hstands.remembers.seen_iff, hstands.maxSize_eq]
    exact hrecent
  cases j with
  | upsertSite now key body => cases hagain
  | submit now req =>
    rw [nonceOf_submit] at hagain
    have h := submitted cfg url now req s
    generalize submit cfg url now req s = r at h hagain
    have hnew {body : OptinSubmitBody} (hbody : validateOptinBody req.body = .ok body)
        (hnot : s.nonces.seen body.nonce = false) : False := by
      split at hagain
      · rw [hbody] at hagain
        have hnonce : body.nonce = nonce := Option.some.inj hagain
        rw [hnonce, hseen] at hnot
        cases hnot
      · cases hagain
    cases h with
    | rateLimited => cases hagain
    | badRequest => cases hagain
    | replayDetected => cases hagain
    | refused _ hbody _ hnot _ => exact hnew hbody hnot
    | recorded _ hbody _ hnot _ => exact hnew hbody hnot

/-- A submission for no site; its time is the number that `true` stands for. -/
def exampleSubmission : Input := .submit 60 ⟨none, none, none, none,
  .obj [("site_id".toList, .str ['s']), ("ts".toList, .bool true),
    ("nonce".toList, .str "abcdefgh".toList)]⟩

theorem replay_distance_example :
    nonceOf (Runs.event (step ⟨[], .posInf, .nan⟩ fun _ => none)
      (Runs.exec (step ⟨[], .posInf, .nan⟩ fun _ => none) (start ⟨[], .posInf, .nan⟩ .empty)
        ([] ++ exampleSubmission :: [])) exampleSubmission) ≠ some "abcdefgh".toList :=
  replay_distance ⟨[], .posInf, .nan⟩ (fun _ => none) .empty [] [] exampleSubmission
    exampleSubmission "abcdefgh".toList rfl (Nat.succ_pos _)

end Ddns.Optin
