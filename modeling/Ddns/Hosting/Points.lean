import Ddns.Lib.FinMap
import Ddns.Lib.Js

/-!
# The points ledger

The hosting control plane awards points (`services/hosting-control-plane`). It keeps the events, the
balances and the keys of the events in separate maps, writes them to a file after each award and
reads them back when it starts. A definition without a docstring is the item of the source with the
same words in its name. Points
are exact numbers, and the metadata of an event is left out.
-/

namespace Ddns.Hosting

/-- `toLowerCase`, and the order in which an object lists its properties. -/
structure Runtime where
  toLowerCase : JsText → JsText
  order : List (JsText × ℚ) → List (JsText × ℚ)
  order_perm : ∀ es, (order es).Perm es

def normalizeDomain (rt : Runtime) (domain : JsText) : JsText :=
  (rt.toLowerCase (JsText.trim domain)).rdropWhile (· = '.')

/-! ## Awards -/

inductive Reason where
  | nsDelegationVerified
  | dnsActionsApplied
  | workerTemplateRequested
  | webHostInstall
  deriving DecidableEq, Repr

/-- The text before the user in the key of an award. -/
def Reason.keyHead : Reason → JsText
  | .nsDelegationVerified => ['n', 's', '_', 'v', 'e', 'r', 'i', 'f', 'i', 'e', 'd']
  | .dnsActionsApplied => ['d', 'n', 's', '_', 'a', 'c', 't', 'i', 'o', 'n', 's']
  | .workerTemplateRequested =>
    ['w', 'o', 'r', 'k', 'e', 'r', '_', 't', 'e', 'm', 'p', 'l', 'a', 't', 'e']
  | .webHostInstall =>
    ['w', 'e', 'b', '_', 'h', 'o', 's', 't', '_', 'i', 'n', 's', 't', 'a', 'l', 'l']

/-- `${head}:${userId}:${domain}` -/
def awardKey (reason : Reason) (userId domain : JsText) : JsText :=
  reason.keyHead ++ ':' :: (userId ++ ':' :: domain)

/-- The key of an install; an install id that is not empty follows. -/
def installKey (userId domain installId : JsText) : JsText :=
  if installId = [] then awardKey .webHostInstall userId domain
  else awardKey .webHostInstall userId domain ++ ':' :: installId

structure PointsEvent where
  eventId : JsText
  userId : JsText
  domain : JsText
  points : ℚ
  reason : Reason
  createdAt : ℤ
  deriving DecidableEq

structure PointsStore where
  events : List PointsEvent
  balancesByUser : FinMap JsText ℚ
  balancesByUserDomain : FinMap JsText (FinMap JsText ℚ)
  idempotency : FinMap JsText JsText

/-- The argument of `addPoints`; `points` is a finite number. -/
structure Award where
  userId : JsText
  domain : JsText
  points : ℚ
  reason : Reason
  idempotencyKey : JsText

inductive GrantReason where
  | invalidPointsRequest
  | duplicateEvent
  deriving DecidableEq, Repr

/-- What `addPoints` returns. -/
structure Grant where
  awarded : Bool
  reason : Option GrantReason
  pointsAwarded : ℚ
  eventId : Option JsText
  totalPoints : ℚ
  domainPoints : Option ℚ
  deriving DecidableEq

namespace PointsStore

def empty : PointsStore := ⟨[], .empty, .empty, .empty⟩

def userBalance (p : PointsStore) (userId : JsText) : ℚ := (p.balancesByUser.get userId).getD 0

def userDomainBalance (p : PointsStore) (userId domain : JsText) : ℚ :=
  ((p.balancesByUserDomain.get userId).bind (·.get domain)).getD 0

/-- The writes of an award. -/
def record (p : PointsStore) (evt : PointsEvent) (key : JsText) : PointsStore where
  events := p.events ++ [evt]
  balancesByUser := p.balancesByUser.set evt.userId (p.userBalance evt.userId + evt.points)
  balancesByUserDomain := p.balancesByUserDomain.set evt.userId
    (((p.balancesByUserDomain.get evt.userId).getD .empty).set evt.domain
      (p.userDomainBalance evt.userId evt.domain + evt.points))
  idempotency := if key = [] then p.idempotency else p.idempotency.set key evt.eventId

def addPoints (rt : Runtime) (p : PointsStore) (a : Award) (eventId : JsText) (now : ℤ) :
    PointsStore × Grant :=
  let domain := normalizeDomain rt a.domain
  if a.userId = [] ∨ domain = [] ∨ a.points ≤ 0 then
    (p, {
      awarded := false, reason := some .invalidPointsRequest, pointsAwarded := 0, eventId := none,
      totalPoints := p.userBalance a.userId, domainPoints := none })
  else if a.idempotencyKey ≠ [] ∧ (p.idempotency.get a.idempotencyKey).isSome then
    (p, {
      awarded := false, reason := some .duplicateEvent, pointsAwarded := 0,
      eventId := p.idempotency.get a.idempotencyKey, totalPoints := p.userBalance a.userId,
      domainPoints := some (p.userDomainBalance a.userId domain) })
  else
    let p := p.record ⟨eventId, a.userId, domain, a.points, a.reason, now⟩ a.idempotencyKey
    (p, {
      awarded := true, reason := none, pointsAwarded := a.points, eventId := some eventId,
      totalPoints := p.userBalance a.userId,
      domainPoints := some (p.userDomainBalance a.userId domain) })

end PointsStore

/-! ## The file -/

/-- `__proto__` -/
def protoKey : JsText := ['_', '_', 'p', 'r', 'o', 't', 'o', '_', '_']

/-- A map, copied property by property into an object literal: an assignment to `__proto__` makes no
property. -/
def toObject {ν : Type} (m : FinMap JsText ν) : FinMap JsText ν := m.erase protoKey

/-- The content of the points file. -/
structure PointsFile where
  events : List PointsEvent
  balancesByUser : FinMap JsText ℚ
  balancesByUserDomain : FinMap JsText (FinMap JsText ℚ)
  idempotency : FinMap JsText JsText

def pointsSnapshot (p : PointsStore) : PointsFile where
  events := p.events
  balancesByUser := toObject p.balancesByUser
  balancesByUserDomain := (toObject p.balancesByUserDomain).mapValues toObject
  idempotency := toObject p.idempotency

/-- The domains of a user, as they are read back. -/
def loadDomains (rt : Runtime) (domains : FinMap JsText ℚ) : FinMap JsText ℚ :=
  .ofList ((rt.order domains.entries).map fun e => (normalizeDomain rt e.1, e.2))

/-- The part of `loadStore` that reads the points file. -/
def loadPoints (rt : Runtime) (file : PointsFile) : PointsStore where
  events := file.events.filter fun evt => evt.eventId ≠ [] ∧ evt.userId ≠ []
  balancesByUser := file.balancesByUser
  balancesByUserDomain := file.balancesByUserDomain.mapValues (loadDomains rt)
  idempotency := .ofList (file.idempotency.entries.filter fun e => e.1 ≠ [] ∧ e.2 ≠ [])

/-! ## Sums -/

/-- The points of the events that meet `q`. -/
def eventSum (q : PointsEvent → Bool) (es : List PointsEvent) : ℚ :=
  ((es.filter q).map fun evt => evt.points).sum

@[simp] theorem eventSum_nil (q : PointsEvent → Bool) : eventSum q [] = 0 := rfl

theorem eventSum_concat (q : PointsEvent → Bool) (es : List PointsEvent) (evt : PointsEvent) :
    eventSum q (es ++ [evt]) = eventSum q es + if q evt then evt.points else 0 := by
  unfold eventSum
  rw [List.filter_append, List.map_append, List.sum_append]
  by_cases h : q evt <;> simp [h]

/-- The balances are the sums of the events. -/
structure Balanced (p : PointsStore) : Prop where
  user : ∀ u, p.userBalance u = eventSum (fun evt => evt.userId = u) p.events
  domain : ∀ u d,
    p.userDomainBalance u d = eventSum (fun evt => evt.userId = u ∧ evt.domain = d) p.events

theorem balanced_empty : Balanced .empty := ⟨fun _ => rfl, fun _ _ => rfl⟩

section Record

variable {p : PointsStore} {evt : PointsEvent} {key : JsText}

theorem userBalance_record (u : JsText) : (p.record evt key).userBalance u =
    p.userBalance u + if evt.userId = u then evt.points else 0 := by
  unfold PointsStore.userBalance PointsStore.record
  dsimp only
  rw [FinMap.get_set]
  by_cases hu : u = evt.userId
  · rw [if_pos hu, if_pos hu.symm, hu]
    rfl
  · rw [if_neg hu, if_neg (Ne.symm hu), add_zero]

theorem userDomainBalance_record (u d : JsText) : (p.record evt key).userDomainBalance u d =
    p.userDomainBalance u d + if evt.userId = u ∧ evt.domain = d then evt.points else 0 := by
  unfold PointsStore.userDomainBalance PointsStore.record
  dsimp only
  rw [FinMap.get_set]
  by_cases hu : u = evt.userId
  · subst hu
    rw [if_pos rfl, Option.bind_some, FinMap.get_set]
    by_cases hd : d = evt.domain
    · subst hd
      rw [if_pos rfl, if_pos ⟨rfl, rfl⟩]
      rfl
    · rw [if_neg hd, if_neg fun h => hd h.2.symm, add_zero]
      cases p.balancesByUserDomain.get evt.userId <;> rfl
  · rw [if_neg hu, if_neg fun h => hu h.1.symm, add_zero]

theorem Balanced.record (h : Balanced p) : Balanced (p.record evt key) := by
  constructor
  · intro u
    show _ = eventSum _ (p.events ++ [evt])
    rw [userBalance_record, h.user u, eventSum_concat]
    simp
  · intro u d
    show _ = eventSum _ (p.events ++ [evt])
    rw [userDomainBalance_record, h.domain u d, eventSum_concat]
    simp

end Record

/-! ## What an award does -/

/-- An award is refused, and nothing changes. -/
structure Refused (rt : Runtime) (p : PointsStore) (a : Award) (r : PointsStore × Grant) : Prop where
  store : r.1 = p
  awarded : r.2.awarded = false
  because : a.userId = [] ∨ normalizeDomain rt a.domain = [] ∨ a.points ≤ 0 ∨
    a.idempotencyKey ≠ [] ∧ p.idempotency.get a.idempotencyKey ≠ none

/-- An award is recorded. -/
structure Recorded (rt : Runtime) (p : PointsStore) (a : Award) (evt : PointsEvent)
    (r : PointsStore × Grant) : Prop where
  store : r.1 = p.record evt a.idempotencyKey
  awarded : r.2.awarded = true
  userId : evt.userId = a.userId
  domain : evt.domain = normalizeDomain rt a.domain
  points : evt.points = a.points
  reason : evt.reason = a.reason
  userId_ne : a.userId ≠ []
  domain_ne : evt.domain ≠ []
  positive : 0 < a.points
  unused : a.idempotencyKey ≠ [] → p.idempotency.get a.idempotencyKey = none

theorem addPoints_cases (rt : Runtime) (p : PointsStore) (a : Award) (eventId : JsText) (now : ℤ) :
    Refused rt p a (p.addPoints rt a eventId now) ∨
      ∃ evt, evt.eventId = eventId ∧ Recorded rt p a evt (p.addPoints rt a eventId now) := by
  unfold PointsStore.addPoints
  dsimp only
  split
  · next h => exact .inl ⟨rfl, rfl, by tauto⟩
  · next h =>
    rw [not_or, not_or, not_le] at h
    split
    · next hkey =>
      exact .inl ⟨rfl, rfl, .inr (.inr (.inr ⟨hkey.1, Option.isSome_iff_ne_none.1 hkey.2⟩))⟩
    · next hkey =>
      refine .inr ⟨_, rfl, rfl, rfl, rfl, rfl, rfl, rfl, h.1, h.2.1, h.2.2, fun hne => ?_⟩
      by_contra hused
      exact hkey ⟨hne, Option.isSome_iff_ne_none.2 hused⟩

/-! ## What the file keeps -/

/-- Events and keys that are read back as they are. -/
structure Keyed (p : PointsStore) : Prop where
  events : ∀ evt ∈ p.events, evt.eventId ≠ [] ∧ evt.userId ≠ []
  keys : ∀ key id, p.idempotency.get key = some id → key ≠ protoKey ∧ key ≠ [] ∧ id ≠ []

/-- Balances that are read back as they are: no user and no domain is called `__proto__`, and the
domains are in normal form. -/
structure Storable (rt : Runtime) (p : PointsStore) : Prop where
  user : p.balancesByUser.get protoKey = none
  userDomain : p.balancesByUserDomain.get protoKey = none
  domain : ∀ u m, p.balancesByUserDomain.get u = some m → m.get protoKey = none ∧
    ∀ d v, m.get d = some v → normalizeDomain rt d = d

section Load

variable {rt : Runtime} {p : PointsStore}

theorem get_toObject {ν : Type} {m : FinMap JsText ν} (h : m.get protoKey = none) (k : JsText) :
    (toObject m).get k = m.get k := by
  unfold toObject
  rw [FinMap.get_erase]
  split
  · next hk => rw [hk, h]
  · rfl

theorem events_load (h : Keyed p) : (loadPoints rt (pointsSnapshot p)).events = p.events := by
  show p.events.filter _ = p.events
  rw [List.filter_eq_self]
  intro evt hevt
  simpa using h.events evt hevt

theorem idempotency_load (h : Keyed p) (key : JsText) :
    (loadPoints rt (pointsSnapshot p)).idempotency.get key = p.idempotency.get key := by
  have hproto : p.idempotency.get protoKey = none := by
    cases hget : p.idempotency.get protoKey with
    | none => rfl
    | some id => exact absurd rfl (h.keys _ _ hget).1
  have hall : (toObject p.idempotency).entries.filter (fun e => e.1 ≠ [] ∧ e.2 ≠ []) =
      (toObject p.idempotency).entries := by
    rw [List.filter_eq_self]
    rintro ⟨k, id⟩ hmem
    have hget := FinMap.mem_entries.1 hmem
    rw [get_toObject hproto] at hget
    simpa using (h.keys k id hget).2
  show (FinMap.ofList ((toObject p.idempotency).entries.filter _)).get key = _
  rw [hall, FinMap.get_ofList_perm (List.Perm.refl _), get_toObject hproto]

theorem userBalance_load (h : Storable rt p) (u : JsText) :
    (loadPoints rt (pointsSnapshot p)).userBalance u = p.userBalance u := by
  show ((toObject p.balancesByUser).get u).getD 0 = _
  rw [get_toObject h.user]
  rfl

/-- The domains of a user are read back as they are. -/
theorem get_loadDomains {m : FinMap JsText ℚ} (hproto : m.get protoKey = none)
    (hstable : ∀ d v, m.get d = some v → normalizeDomain rt d = d) (d : JsText) :
    (loadDomains rt (toObject m)).get d = m.get d := by
  have hsame : ((rt.order (toObject m).entries).map fun e => (normalizeDomain rt e.1, e.2)) =
      rt.order (toObject m).entries := by
    refine (List.map_congr_left fun e he => ?_).trans (List.map_id _)
    obtain ⟨k, v⟩ := e
    have hget := FinMap.mem_entries.1 ((rt.order_perm _).subset he)
    rw [get_toObject hproto] at hget
    show (normalizeDomain rt k, v) = (k, v)
    rw [hstable k v hget]
  unfold loadDomains
  rw [hsame, FinMap.get_ofList_perm (rt.order_perm _), get_toObject hproto]

theorem domains_load (h : Storable rt p) (u : JsText) :
    (loadPoints rt (pointsSnapshot p)).balancesByUserDomain.get u =
      (p.balancesByUserDomain.get u).map fun m => loadDomains rt (toObject m) := by
  show (((toObject p.balancesByUserDomain).mapValues toObject).mapValues (loadDomains rt)).get u = _
  rw [FinMap.get_mapValues, FinMap.get_mapValues, get_toObject h.userDomain, Option.map_map]
  rfl

theorem userDomainBalance_load (h : Storable rt p) (u d : JsText) :
    (loadPoints rt (pointsSnapshot p)).userDomainBalance u d = p.userDomainBalance u d := by
  unfold PointsStore.userDomainBalance
  rw [domains_load h]
  cases hm : p.balancesByUserDomain.get u with
  | none => rfl
  | some m =>
    obtain ⟨hproto, hstable⟩ := h.domain u m hm
    show ((loadDomains rt (toObject m)).get d).getD 0 = _
    rw [get_loadDomains hproto hstable]
    rfl

theorem Keyed.load (h : Keyed p) : Keyed (loadPoints rt (pointsSnapshot p)) := by
  constructor
  · rw [events_load h]
    exact h.events
  · intro key id hget
    rw [idempotency_load h] at hget
    exact h.keys key id hget

theorem Storable.load (h : Storable rt p) : Storable rt (loadPoints rt (pointsSnapshot p)) := by
  constructor
  · show (toObject p.balancesByUser).get protoKey = none
    rw [get_toObject h.user, h.user]
  · rw [domains_load h, h.userDomain]
    rfl
  · intro u m hm
    rw [domains_load h] at hm
    obtain ⟨m', hm', rfl⟩ := Option.map_eq_some_iff.1 hm
    obtain ⟨hproto, hstable⟩ := h.domain u m' hm'
    constructor
    · rw [get_loadDomains hproto hstable, hproto]
    · intro d v hd
      rw [get_loadDomains hproto hstable] at hd
      exact hstable d v hd

theorem Balanced.load (hb : Balanced p) (hk : Keyed p) (hs : Storable rt p) :
    Balanced (loadPoints rt (pointsSnapshot p)) := by
  constructor
  · intro u
    rw [userBalance_load hs, events_load hk, hb.user]
  · intro u d
    rw [userDomainBalance_load hs, events_load hk, hb.domain]

theorem Keyed.record {evt : PointsEvent} {key : JsText} (h : Keyed p) (hid : evt.eventId ≠ [])
    (huser : evt.userId ≠ []) (hproto : key ≠ protoKey) : Keyed (p.record evt key) := by
  constructor
  · intro e he
    rcases List.mem_append.1 he with he | he
    · exact h.events e he
    · obtain rfl := List.mem_singleton.1 he
      exact ⟨hid, huser⟩
  · intro k id hget
    unfold PointsStore.record at hget
    dsimp only at hget
    split at hget
    · exact h.keys k id hget
    · next hne =>
      rw [FinMap.get_set] at hget
      split at hget
      · next hk =>
        cases hget
        exact ⟨hk ▸ hproto, hk ▸ hne, hid⟩
      · exact h.keys k id hget

theorem Storable.record {evt : PointsEvent} {key : JsText} (h : Storable rt p)
    (huser : evt.userId ≠ protoKey) (hdomain : evt.domain ≠ protoKey)
    (hstable : normalizeDomain rt evt.domain = evt.domain) : Storable rt (p.record evt key) := by
  constructor
  · exact (FinMap.get_set_ne _ _ huser.symm).trans h.user
  · exact (FinMap.get_set_ne _ _ huser.symm).trans h.userDomain
  · intro u m hm
    have hm : (p.balancesByUserDomain.set evt.userId _).get u = some m := hm
    rw [FinMap.get_set] at hm
    split at hm
    · cases hm
      have hold : ∀ m', p.balancesByUserDomain.get evt.userId = some m' ∨ m' = .empty →
          m'.get protoKey = none ∧ ∀ d v, m'.get d = some v → normalizeDomain rt d = d := by
        rintro m' (hm' | rfl)
        · exact h.domain _ m' hm'
        · refine ⟨rfl, ?_⟩
          rintro _ _ ⟨⟩
      obtain ⟨hproto, hkeys⟩ := hold ((p.balancesByUserDomain.get evt.userId).getD .empty) (by
        cases p.balancesByUserDomain.get evt.userId with
        | none => exact .inr rfl
        | some m' => exact .inl rfl)
      constructor
      · rw [FinMap.get_set_ne _ _ hdomain.symm, hproto]
      · intro d v hd
        rw [FinMap.get_set] at hd
        split at hd
        · next heq => rw [heq, hstable]
        · exact hkeys d v hd
    · exact h.domain u m hm

end Load

end Ddns.Hosting
