import Ddns.Gateway.Renewals

/-!
# Credits of renewals

A renewal that is paid with credits is meant to take the credits that its years need, once.
`renewal_law` says when it does, in every interleaving: nothing is written to the registrar's store
while a renewal awaits its quote, the two balances together pay for the years, and the ledger still
has what it was asked for. Else the store that is written brings back older balances, both files are
charged for one renewal, one year is charged for several, or a debit fails behind a renewal that is
accepted.
-/

namespace Ddns.Gateway.Renewals

open Runs
open Core.Credits (Platform File normalizeKey protoKey constructorKey)

/-! ## The law -/

/-- A step of the gateway. -/
abbrev Part := Event System Input (Option (ℕ × Answer))

/-- The credits that a store has for a key. -/
def balanceIn (store : MockRegistrarStore) (key : JsText) : ℚ :=
  ((store.get key).map RegistrarDomainRecord.credits).getD 0

def System.registrarBalance (s : System) (key : JsText) : ℚ := balanceIn s.registrar key

def System.ledgerBalance (s : System) (key : JsText) : ℚ := Core.Credits.stored s.ledger key

/-- The request that a step runs, and where it waited. -/
def running (e : Part) : Option (ℕ × Flight) :=
  match e.input with
  | .resume id _ _ _ => (e.pre.flights.get id).map (id, ·)
  | _ => none

/-- What a step takes from the balances of a domain. -/
def taken (rt : Platform) (e : Part) (domain : JsText) : ℚ :=
  e.pre.registrarBalance (normalizeDomain rt domain) -
      e.post.registrarBalance (normalizeDomain rt domain) +
    (e.pre.ledgerBalance (normalizeKey rt domain) - e.post.ledgerBalance (normalizeKey rt domain))

/-- What the step of a request takes from the balances of its domain. -/
def takenBy (rt : Platform) (id : ℕ) (e : Part) : ℚ :=
  match running e with
  | some (id', f) => if id' = id then taken rt e f.domain else 0
  | none => 0

/-- What the steps of a request take from the balances of its domain. -/
def spent (rt : Platform) (id : ℕ) (l : List Part) : ℚ := (l.map (takenBy rt id)).sum

def Answer.accepted : Answer → Bool
  | .registrar submitted _ => submitted
  | .domain accepted _ _ => accepted
  | _ => false

/-- The request is told that its renewal is accepted. -/
def Accepted (e : Part) (id : ℕ) (r : Renewal) : Prop :=
  ∃ endpoint domain answer, running e = some (id, .returned endpoint domain (.ok r)) ∧
    e.out = some (id, answer) ∧ answer.accepted = true

/-- No request waits. -/
def idle (registrar : MockRegistrarStore) (ledger : File) : System := ⟨registrar, ledger, .empty, 0⟩

/-- No balance is negative. -/
def System.NonNegative (s : System) : Prop :=
  ∀ key, 0 ≤ s.registrarBalance key ∧ 0 ≤ s.ledgerBalance key

/-- **The renewal law** of a run: a renewal that is accepted and paid with credits has taken what its
years need from the balances of its domain, a step takes nothing from other balances and adds nothing
to them, and no balance gets negative. -/
structure RenewalLaw (rt : Platform) (start : System) (inputs : List Input) : Prop where
  exact : ∀ e ∈ trace (step rt) start inputs, ∀ id r, Accepted e id r → r.useCredits = true →
    spent rt id (trace (step rt) start inputs) = requiredCredits r.price r.years
  others : ∀ e ∈ trace (step rt) start inputs, ∀ key,
    ((∀ id f, running e = some (id, f) → normalizeDomain rt f.domain ≠ key) →
      e.post.registrarBalance key = e.pre.registrarBalance key) ∧
    ((∀ id f, running e = some (id, f) → normalizeKey rt f.domain ≠ key) →
      e.post.ledgerBalance key = e.pre.ledgerBalance key)
  nonneg : start.NonNegative → ∀ pre post, inputs = pre ++ post →
    (exec (step rt) start pre).NonNegative

/-! ## When it holds -/

/-- What is asked of the ledger. -/
def Endpoint.due : Endpoint → ℚ
  | .domain (.fin q) => max 0 q
  | _ => 0

/-- The ledger has the credits, and their debit is not rounded. -/
structure Pays (rt : Platform) (ledger : File) (domain : JsText) (q : ℚ) : Prop where
  key : normalizeKey rt domain ≠ []
  ordinary : Core.Credits.Ordinary ledger (normalizeKey rt domain)
  covered : q ≤ Core.Credits.stored ledger (normalizeKey rt domain)
  exact : Rounding.nearest (Core.Credits.stored ledger (normalizeKey rt domain) - q) =
    .fin (Core.Credits.stored ledger (normalizeKey rt domain) - q)

/-- The next step of the request is as it should be: the store that it read has the balances of the
registrar, what it finds there and asks of the ledger is what its years need, and the ledger has
what was asked. -/
def Flight.Undisturbed (rt : Platform) (s : System) : Flight → Prop
  | .renewing endpoint _ r => (∀ key, balanceIn r.store key = s.registrarBalance key) ∧
      (r.useCredits = true → min (s.registrarBalance r.key) (creditsNeeded r.price) + endpoint.due =
        requiredCredits r.price r.years)
  | .returned (.domain (.fin q)) domain (.ok _) => 0 < q → Pays rt s.ledger domain q
  | _ => True

def Undisturbed (rt : Platform) (s : System) : Input → Prop
  | .resume id _ _ _ => ∀ f ∈ s.flights.get id, f.Undisturbed rt s
  | _ => True

/-! ## Steps -/

section Steps

variable {rt : Platform} {s s' : System} {id id' : ℕ} {f : Flight} {now : ℚ} {nowText : JsText}
  {allowed : Bool} {r : Renewal} {domain key : JsText} {endpoint : Endpoint}

@[simp] theorem get_wait (s : System) (id id' : ℕ) (f : Flight) :
    (s.wait id f).flights.get id' = if id' = id then some f else s.flights.get id' := by
  rw [System.wait, FinMap.get_set]

@[simp] theorem get_done (s : System) (id id' : ℕ) :
    (s.done id).flights.get id' = if id' = id then none else s.flights.get id' := by
  rw [System.done, FinMap.get_erase]

/-- A renewal is of the domain, and has read its record. -/
structure Renewal.Sound (rt : Platform) (domain : JsText) (r : Renewal) : Prop where
  key : r.key = normalizeDomain rt domain
  credits : r.existing.credits = balanceIn r.store r.key
  price : 0 ≤ creditsNeeded r.price

/-- What a renewal takes from the balance that it has read. -/
def Renewal.charged (r : Renewal) : ℚ :=
  r.existing.credits - max 0 (r.existing.credits - r.creditsApplied)

theorem Renewal.charged_eq (h : r.useCredits = true) :
    r.charged = min r.existing.credits (creditsNeeded r.price) := by
  have hleft : 0 ≤ r.existing.credits - min r.existing.credits (creditsNeeded r.price) :=
    sub_nonneg.2 (min_le_left _ _)
  rw [Renewal.charged, Renewal.creditsApplied, if_pos h, max_eq_right hleft, sub_sub_cancel]

theorem credits_find (store : MockRegistrarStore) (key : JsText) :
    ((find store key).getD unknownRecord).credits = balanceIn store key := by
  unfold find balanceIn
  cases store.get key with
  | some record => rfl
  | none =>
    dsimp only
    split <;> rfl

theorem sound_of_beginRenewal {store : MockRegistrarStore} {years : ℚ} {useCredits : Bool}
    (h : beginRenewal rt store domain years useCredits = .ok r) : r.Sound rt domain := by
  unfold beginRenewal at h
  dsimp only at h
  split at h
  · cases h
  · split at h
    · cases h
    · cases h
      refine ⟨rfl, credits_find _ _, ?_⟩
      dsimp only
      unfold creditsNeeded getRenewalQuote
      split <;> norm_num

/-- The ledger after the route has gone on. -/
def ledgerAfter (rt : Platform) (ledger : File) (domain nowText : JsText) : Endpoint → File
  | .registrar _ => ledger
  | .domain q =>
    if (JsNum.fin 0).lt q = true then
      (Core.Credits.debit rt ledger domain q renewalSubsidy nowText).1
    else ledger

/-- The renewal that the registrar has written. -/
def Flight.submitted : Flight → Option Renewal
  | .returned _ _ (.ok r) => some r
  | _ => none

/-- What a step of a request does. -/
inductive Effect (rt : Platform) (s : System) (id : ℕ) (nowText : JsText) : Flight → System → Prop
  | done {f : Flight} (h : f.submitted = none) :
    Effect rt s id nowText f (s.done id)
  | refused {f : Flight} (endpoint : Endpoint) (e : RenewalError)
    (h : f.submitted = none) :
    Effect rt s id nowText f (s.wait id (.returned endpoint f.domain (.error e)))
  | begun {f : Flight} (endpoint : Endpoint) {r : Renewal} (hr : r.Sound rt f.domain)
    (h : f.submitted = none) :
    Effect rt s id nowText f (s.wait id (.renewing endpoint f.domain r))
  | written {endpoint : Endpoint} {domain : JsText} {r : Renewal} (record : RegistrarDomainRecord)
    (hcredits : record.credits = max 0 (r.existing.credits - r.creditsApplied)) :
    Effect rt s id nowText (.renewing endpoint domain r)
      ({ s with registrar := assign r.store r.key record }.wait id
        (.returned endpoint domain (.ok r)))
  | settled {endpoint : Endpoint} {domain : JsText} {r : Renewal} :
    Effect rt s id nowText (.returned endpoint domain (.ok r))
      ({ s with ledger := ledgerAfter rt s.ledger domain nowText endpoint }.done id)

theorem renew_effect (endpoint : Endpoint) (years : ℚ) (useCredits : Bool)
    (h : f.submitted = none) :
    Effect rt s id nowText f (s.renew rt id endpoint f.domain years useCredits) := by
  unfold System.renew
  split
  · exact .refused endpoint _ h
  · next hbegin => exact .begun endpoint (sound_of_beginRenewal hbegin) h

theorem settle_eq (submitted : Bool) : (s.settle rt id endpoint domain submitted nowText).1 =
    if submitted = true then
      { s with ledger := ledgerAfter rt s.ledger domain nowText endpoint }.done id
    else s.done id := by
  cases endpoint with
  | registrar covered => cases submitted <;> rfl
  | domain q =>
    cases submitted with
    | false => rfl
    | true =>
      unfold System.settle ledgerAfter
      dsimp only
      by_cases hpos : (JsNum.fin 0).lt q = true
      · rw [if_pos (And.intro (Eq.refl true) hpos), if_pos (Eq.refl true), if_pos hpos]
        generalize Core.Credits.debit rt s.ledger domain q renewalSubsidy nowText = result
        obtain ⟨ledger, answer⟩ := result
        cases answer <;> rfl
      · rw [if_neg fun h => hpos h.2, if_pos (Eq.refl true), if_neg hpos]

theorem resume_effect (rt : Platform) (s : System) (id : ℕ) (now : ℚ) (nowText : JsText)
    (allowed : Bool) (f : Flight) :
    Effect rt s id nowText f (resume rt s id now nowText allowed f).1 := by
  cases f with
  | quoted domain years price credits =>
    simp only [resume]
    split
    · exact .done rfl
    · exact renew_effect (f := .quoted domain years price credits) _ _ _ rfl
  | checked domain years useCredits =>
    simp only [resume]
    split
    · exact .done rfl
    · exact renew_effect (f := .checked domain years useCredits) _ _ _ rfl
  | renewing endpoint domain r =>
    simp only [resume]
    cases hfinish : finishRenewal r now with
    | none => exact .done rfl
    | some store =>
      unfold finishRenewal at hfinish
      dsimp only at hfinish
      split at hfinish
      · cases hfinish
      · cases hfinish
        exact .written _ rfl
  | returned endpoint domain result =>
    simp only [resume, settle_eq]
    cases result with
    | error e => exact .done rfl
    | ok r => exact .settled

/-! ### Balances -/

theorem stored_debit_ne {ledger : File} {q : JsNum} (hkey : key ≠ normalizeKey rt domain) :
    Core.Credits.stored (Core.Credits.debit rt ledger domain q renewalSubsidy nowText).1 key =
      Core.Credits.stored ledger key := by
  have heffect := Core.Credits.step_effect rt ledger ⟨.debit, domain, q, renewalSubsidy, nowText⟩
  rw [show Core.Credits.debit rt ledger domain q renewalSubsidy nowText =
    Core.Credits.step rt ledger ⟨.debit, domain, q, renewalSubsidy, nowText⟩ from rfl]
  generalize Core.Credits.step rt ledger _ = result at heffect
  cases heffect with
  | invalid _ => rfl
  | insufficient _ _ _ _ _ => exact Core.Credits.stored_ensured _ _
  | accepted _ _ _ _ => exact Core.Credits.stored_accept_ne hkey

theorem stored_debit {ledger : File} {q : ℚ} (h : Pays rt ledger domain q) (hpos : 0 < q) :
    Core.Credits.stored (Core.Credits.debit rt ledger domain (.fin q) renewalSubsidy nowText).1
      (normalizeKey rt domain) = Core.Credits.stored ledger (normalizeKey rt domain) - q := by
  have heffect :=
    Core.Credits.step_effect rt ledger ⟨.debit, domain, .fin q, renewalSubsidy, nowText⟩
  rw [show Core.Credits.debit rt ledger domain (.fin q) renewalSubsidy nowText =
    Core.Credits.step rt ledger ⟨.debit, domain, .fin q, renewalSubsidy, nowText⟩ from rfl]
  generalize Core.Credits.step rt ledger _ = result at heffect
  cases heffect with
  | invalid hno => exact absurd hpos (hno q h.key rfl)
  | insufficient _ hamount _ _ hlt =>
    cases hamount
    exact absurd ((Core.Credits.lt_ordinary h.ordinary).1 hlt) (not_lt.2 h.covered)
  | accepted _ hamount _ _ =>
    cases hamount
    have hstored : Core.Credits.stored (Core.Credits.accept rt ledger
        ⟨.debit, domain, .fin q, renewalSubsidy, nowText⟩ q) (normalizeKey rt domain) =
        (Core.Credits.written (Rounding.nearest
          (Core.Credits.stored ledger (normalizeKey rt domain) - q))).getD 0 :=
      Core.Credits.stored_accept h.ordinary
    rw [hstored, h.exact]
    rfl

theorem stored_ledgerAfter_ne {ledger : File} (hkey : key ≠ normalizeKey rt domain) :
    Core.Credits.stored (ledgerAfter rt ledger domain nowText endpoint) key =
      Core.Credits.stored ledger key := by
  cases endpoint with
  | registrar covered => rfl
  | domain q =>
    unfold ledgerAfter
    dsimp only
    split
    · exact stored_debit_ne hkey
    · rfl

/-- The ledger is asked for what is due. -/
theorem stored_ledgerAfter
    (h : (Flight.returned endpoint domain (.ok r)).Undisturbed rt s) :
    Core.Credits.stored (ledgerAfter rt s.ledger domain nowText endpoint) (normalizeKey rt domain) =
      Core.Credits.stored s.ledger (normalizeKey rt domain) - endpoint.due := by
  cases endpoint with
  | registrar covered => exact (sub_zero _).symm
  | domain q =>
    unfold ledgerAfter
    dsimp only
    cases q with
    | fin q =>
      by_cases hpos : 0 < q
      · rw [if_pos (show (JsNum.fin 0).lt (.fin q) = true from decide_eq_true hpos),
          stored_debit (h hpos) hpos, Endpoint.due, max_eq_right hpos.le]
      · have hlt : ¬(JsNum.fin 0).lt (.fin q) = true := fun hlt => hpos (of_decide_eq_true hlt)
        rw [if_neg hlt, Endpoint.due, max_eq_left (not_lt.1 hpos), sub_zero]
    | nan => exact (sub_zero _).symm
    | negInf => exact (sub_zero _).symm
    | posInf =>
      have hsame : (Core.Credits.debit rt s.ledger domain .posInf renewalSubsidy nowText).1 =
          s.ledger := by
        unfold Core.Credits.debit
        dsimp only
        split <;> rfl
      rw [hsame, ite_self]
      exact (sub_zero _).symm

theorem balanceIn_assign_ne {store : MockRegistrarStore} {record : RegistrarDomainRecord}
    {own : JsText} (hkey : key ≠ own) : balanceIn (assign store own record) key = balanceIn store key := by
  unfold assign balanceIn
  split
  · rfl
  · rw [FinMap.get_set_ne _ _ hkey]

/-- The record of the renewal has its credits, also where it cannot be saved. -/
theorem Renewal.Sound.balanceIn_assign (h : r.Sound rt domain) {record : RegistrarDomainRecord}
    (hcredits : record.credits = max 0 (r.existing.credits - r.creditsApplied)) :
    balanceIn (assign r.store r.key record) r.key = balanceIn r.store r.key - r.charged := by
  have hleft : balanceIn r.store r.key - r.charged = record.credits := by
    rw [← h.credits, hcredits, Renewal.charged, sub_sub_cancel]
  rw [hleft]
  unfold assign
  split
  · next hproto =>
    have hzero : r.existing.credits = 0 := by
      rw [h.credits, balanceIn, hproto.2]
      rfl
    have happlied : r.creditsApplied = 0 := by
      rw [Renewal.creditsApplied, hzero, min_eq_left h.price, ite_self]
    rw [hcredits, hzero, happlied, sub_zero, max_self, ← h.credits, hzero]
  · rw [balanceIn, FinMap.get_set_self]
    rfl

/-- A renewal is of its domain; after it, the ledger owes what the registrar did not take. -/
def Flight.Sound (rt : Platform) : Flight → Prop
  | .renewing _ domain r => r.Sound rt domain
  | .returned endpoint _ (.ok r) =>
    r.useCredits = true → r.charged + endpoint.due = requiredCredits r.price r.years
  | _ => True

/-- **What a step takes** from the balances of a domain: `a` from the registrar's, `b` from the
ledger's. -/
structure Takes (rt : Platform) (s s' : System) (domain : JsText) (a b : ℚ) : Prop where
  registrar : s'.registrarBalance (normalizeDomain rt domain) =
    s.registrarBalance (normalizeDomain rt domain) - a
  ledger : s'.ledgerBalance (normalizeKey rt domain) = s.ledgerBalance (normalizeKey rt domain) - b
  registrar_ne : ∀ key ≠ normalizeDomain rt domain, s'.registrarBalance key = s.registrarBalance key
  ledger_ne : ∀ key ≠ normalizeKey rt domain, s'.ledgerBalance key = s.ledgerBalance key

theorem balances_of_eq (hregistrar : s'.registrar = s.registrar) (hledger : s'.ledger = s.ledger)
    (key : JsText) : s'.registrarBalance key = s.registrarBalance key ∧
      s'.ledgerBalance key = s.ledgerBalance key := by
  unfold System.registrarBalance System.ledgerBalance
  rw [hregistrar, hledger]
  exact ⟨rfl, rfl⟩

/-- A step that writes nothing takes nothing. -/
theorem Takes.of_eq (hregistrar : s'.registrar = s.registrar) (hledger : s'.ledger = s.ledger) :
    Takes rt s s' domain 0 0 := by
  have hsame := balances_of_eq hregistrar hledger
  exact ⟨by rw [sub_zero, (hsame _).1], by rw [sub_zero, (hsame _).2], fun key _ => (hsame key).1,
    fun key _ => (hsame key).2⟩

theorem takes_written {record : RegistrarDomainRecord} (hsound : r.Sound rt domain)
    (hquiet : (Flight.renewing endpoint domain r).Undisturbed rt s)
    (hcredits : record.credits = max 0 (r.existing.credits - r.creditsApplied)) (f : Flight) :
    Takes rt s ({ s with registrar := assign r.store r.key record }.wait id f) domain
      r.charged 0 where
  registrar := by
    rw [← hsound.key]
    show balanceIn (assign r.store r.key record) r.key = _
    rw [hsound.balanceIn_assign hcredits, hquiet.1]
  ledger := (sub_zero _).symm
  registrar_ne key hkey := by
    rw [← hsound.key] at hkey
    show balanceIn (assign r.store r.key record) key = _
    rw [balanceIn_assign_ne hkey, hquiet.1]
  ledger_ne _ _ := rfl

theorem takes_settled (hquiet : (Flight.returned endpoint domain (.ok r)).Undisturbed rt s) :
    Takes rt s ({ s with ledger := ledgerAfter rt s.ledger domain nowText endpoint }.done id) domain
      0 endpoint.due where
  registrar := (sub_zero _).symm
  ledger := stored_ledgerAfter hquiet
  registrar_ne _ _ := rfl
  ledger_ne _ hkey := stored_ledgerAfter_ne hkey

/-- What is due is there. -/
theorem due_le (hquiet : (Flight.returned endpoint domain (.ok r)).Undisturbed rt s)
    (hpos : 0 ≤ s.ledgerBalance (normalizeKey rt domain)) :
    endpoint.due ≤ s.ledgerBalance (normalizeKey rt domain) := by
  cases endpoint with
  | registrar covered => exact hpos
  | domain q =>
    cases q with
    | fin q =>
      rw [Endpoint.due]
      refine max_le hpos ?_
      by_cases hq : 0 < q
      · exact (hquiet hq).covered
      · exact (not_lt.1 hq).trans hpos
    | nan | negInf | posInf => exact hpos

/-- A step takes from the balances of its domain only, and no more than there is. -/
theorem Effect.takes (h : Effect rt s id nowText f s') (hsound : f.Sound rt)
    (hquiet : f.Undisturbed rt s) : ∃ a b, Takes rt s s' f.domain a b ∧ (s.NonNegative →
      a ≤ s.registrarBalance (normalizeDomain rt f.domain) ∧
        b ≤ s.ledgerBalance (normalizeKey rt f.domain)) := by
  cases h with
  | done _ | refused _ _ _ | begun _ _ _ => exact ⟨0, 0, .of_eq rfl rfl, fun h => ⟨(h _).1, (h _).2⟩⟩
  | @written endpoint domain r record hcredits =>
    refine ⟨_, 0, takes_written hsound hquiet hcredits _, fun h => ⟨?_, (h _).2⟩⟩
    have hleft : 0 ≤ balanceIn r.store r.key - r.charged := by
      rw [← hsound.credits, Renewal.charged, sub_sub_cancel]
      exact le_max_left _ _
    rw [hquiet.1, hsound.key] at hleft
    exact sub_nonneg.1 hleft
  | settled => exact ⟨0, _, takes_settled hquiet, fun h => ⟨(h _).1, due_le hquiet (h _).2⟩⟩

theorem Takes.nonneg {a b : ℚ} (h : Takes rt s s' domain a b) (hs : s.NonNegative)
    (ha : a ≤ s.registrarBalance (normalizeDomain rt domain))
    (hb : b ≤ s.ledgerBalance (normalizeKey rt domain)) : s'.NonNegative := by
  intro key
  constructor
  · by_cases hkey : key = normalizeDomain rt domain
    · rw [hkey, h.registrar]
      exact sub_nonneg.2 ha
    · rw [h.registrar_ne key hkey]
      exact (hs key).1
  · by_cases hkey : key = normalizeKey rt domain
    · rw [hkey, h.ledger]
      exact sub_nonneg.2 hb
    · rw [h.ledger_ne key hkey]
      exact (hs key).2

end Steps

/-! ## Runs -/

section Law

variable {rt : Platform} {s s' : System} {l : List Part} {id id' : ℕ} {f : Flight}
  {i : Input} {e : Part} {r : Renewal} {nowText : JsText}

/-- What the registrar has taken for a request that waits. -/
def Flight.charged (f : Flight) : ℚ := (f.submitted.map Renewal.charged).getD 0

theorem Flight.charged_of_none (h : f.submitted = none) : f.charged = 0 := by
  rw [Flight.charged, h]
  rfl

theorem spent_concat (rt : Platform) (id : ℕ) (l : List Part) (e : Part) :
    spent rt id (l ++ [e]) = spent rt id l + takenBy rt id e := by
  rw [spent, List.map_append, List.sum_append, List.map_singleton, List.sum_singleton]
  rfl

theorem takenBy_none (h : running e = none) : takenBy rt id e = 0 := by
  rw [takenBy, h]

theorem takenBy_ne (h : running e = some (id', f)) (hne : id ≠ id') : takenBy rt id e = 0 := by
  rw [takenBy, h]
  exact if_neg (Ne.symm hne)

theorem takenBy_eq {a b : ℚ} (h : running e = some (id, f))
    (ht : Takes rt e.pre e.post f.domain a b) : takenBy rt id e = a + b := by
  rw [takenBy, h]
  show (if id = id then taken rt e f.domain else 0) = _
  rw [if_pos rfl, taken, ht.registrar, ht.ledger, sub_sub_cancel, sub_sub_cancel]

/-- What the state says of the steps so far: a request that waits has been charged by the registrar
if its renewal is written, and one that is accepted has spent what it should. -/
structure History (rt : Platform) (s : System) (l : List Part) : Prop where
  fresh : ∀ id, s.next ≤ id → s.flights.get id = none ∧ spent rt id l = 0
  flying : ∀ id f, s.flights.get id = some f → f.Sound rt ∧ spent rt id l = f.charged
  accepted : ∀ e ∈ l, ∀ id r, Accepted e id r → id < s.next ∧ s.flights.get id = none ∧
    (r.useCredits = true → spent rt id l = requiredCredits r.price r.years)

theorem History.lt_next (h : History rt s l) (hf : s.flights.get id = some f) : id < s.next := by
  by_contra hle
  rw [(h.fresh id (not_lt.1 hle)).1] at hf
  cases hf

/-- A step that runs no request, and may start one. -/
theorem History.start (h : History rt s l) (hrun : running e = none) (hnext : s.next ≤ s'.next)
    (hflights : ∀ id f, s'.flights.get id = some f →
      s.flights.get id = some f ∨ s.next ≤ id ∧ id < s'.next ∧ f.Sound rt ∧ f.submitted = none)
    (hkeep : ∀ id, s'.next ≤ id ∨ id < s.next → s.flights.get id = none → s'.flights.get id = none) :
    History rt s' (l ++ [e]) where
  fresh id hid := by
    obtain ⟨hnone, hspent⟩ := h.fresh id (hnext.trans hid)
    rw [spent_concat, takenBy_none hrun, add_zero]
    exact ⟨hkeep id (.inl hid) hnone, hspent⟩
  flying id f hf := by
    rw [spent_concat, takenBy_none hrun, add_zero]
    rcases hflights id f hf with hold | ⟨hid, -, hsound, hsubmitted⟩
    · exact h.flying id f hold
    · exact ⟨hsound, (h.fresh id hid).2.trans (Flight.charged_of_none hsubmitted).symm⟩
  accepted e' he' id r hacc := by
    rcases List.mem_append.1 he' with he' | he'
    · obtain ⟨hid, hnone, hspent⟩ := h.accepted e' he' id r hacc
      rw [spent_concat, takenBy_none hrun, add_zero]
      exact ⟨hid.trans_le hnext, hkeep id (.inr hid) hnone, hspent⟩
    · rw [List.mem_singleton.1 he'] at hacc
      obtain ⟨endpoint, domain, answer, hrunning, -⟩ := hacc
      rw [hrun] at hrunning
      cases hrunning

/-- A step that runs a request: it is enough to look at this request. -/
theorem History.resume (h : History rt s l) (hrun : running e = some (id, f))
    (hf : s.flights.get id = some f) (hnext : s'.next = s.next)
    (hother : ∀ id' ≠ id, s'.flights.get id' = s.flights.get id')
    (hflying : ∀ f', s'.flights.get id = some f' →
      f'.Sound rt ∧ f.charged + takenBy rt id e = f'.charged)
    (haccepted : ∀ endpoint domain r, f = .returned endpoint domain (.ok r) →
      s'.flights.get id = none ∧
        (r.useCredits = true → f.charged + takenBy rt id e = requiredCredits r.price r.years)) :
    History rt s' (l ++ [e]) where
  fresh id' hid := by
    rw [hnext] at hid
    have hne : id' ≠ id := by
      rintro rfl
      exact absurd (h.lt_next hf) (not_lt.2 hid)
    obtain ⟨hnone, hspent⟩ := h.fresh id' hid
    rw [spent_concat, takenBy_ne hrun hne, add_zero, hother id' hne]
    exact ⟨hnone, hspent⟩
  flying id' f' hf' := by
    by_cases hne : id' = id
    · subst hne
      rw [spent_concat, (h.flying id' f hf).2]
      exact hflying f' hf'
    · rw [hother id' hne] at hf'
      rw [spent_concat, takenBy_ne hrun hne, add_zero]
      exact h.flying id' f' hf'
  accepted e' he' id' r hacc := by
    rw [hnext]
    rcases List.mem_append.1 he' with he' | he'
    · obtain ⟨hid, hnone, hspent⟩ := h.accepted e' he' id' r hacc
      have hne : id' ≠ id := by
        rintro rfl
        rw [hnone] at hf
        cases hf
      rw [spent_concat, takenBy_ne hrun hne, add_zero, hother id' hne]
      exact ⟨hid, hnone, hspent⟩
    · rw [List.mem_singleton.1 he'] at hacc
      obtain ⟨endpoint, domain, answer, hrunning, -⟩ := hacc
      rw [hrun] at hrunning
      obtain ⟨rfl, rfl⟩ := Prod.mk.inj (Option.some.inj hrunning)
      obtain ⟨hnone, hspent⟩ := haccepted endpoint domain r rfl
      rw [spent_concat, (h.flying id _ hf).2]
      exact ⟨h.lt_next hf, hnone, hspent⟩

theorem History.started (h : History rt s l) (hrun : running e = none) {f : Flight}
    (hsound : f.Sound rt) (hsubmitted : f.submitted = none) :
    History rt (s.start f) (l ++ [e]) := by
  have hget (id : ℕ) : (s.start f).flights.get id =
      if id = s.next then some f else s.flights.get id := FinMap.get_set _ _ _ _
  refine h.start hrun (Nat.le_succ _) (fun id f' hf' => ?_) fun id hid hnone => ?_
  · rw [hget] at hf'
    split at hf'
    · next heq =>
      cases hf'
      exact .inr ⟨heq.ge, heq.trans_lt (Nat.lt_succ_self _), hsound, hsubmitted⟩
    · exact .inl hf'
  · have hne : id ≠ s.next := by
      rcases hid with hid | hid
      · exact (Nat.lt_of_succ_le hid).ne'
      · exact hid.ne
    rw [hget, if_neg hne]
    exact hnone

/-- **Every undisturbed step** keeps the history. -/
theorem history_step (h : History rt s l) (hquiet : Undisturbed rt s i) :
    History rt (step rt s i).1 (l ++ [event (step rt) s i]) := by
  have hskip (s' : System) (hflights : s'.flights = s.flights) (hnext : s.next ≤ s'.next)
      (hrun : running (event (step rt) s i) = none) :
      History rt s' (l ++ [event (step rt) s i]) := by
    refine h.start hrun hnext (fun id f hf => ?_) fun id _ hnone => ?_
    · rw [hflights] at hf
      exact .inl hf
    · rw [hflights]
      exact hnone
  cases i with
  | registrarRenew domain years =>
    simp only [step]
    split
    · exact hskip _ rfl (Nat.le_succ _) rfl
    · exact h.started rfl trivial rfl
  | domainRenew domain years useCredits =>
    simp only [step]
    split
    · exact hskip _ rfl (Nat.le_succ _) rfl
    · exact h.started rfl trivial rfl
  | resume id now nowText allowed =>
    cases hf : s.flights.get id with
    | none =>
      have hrun : running (event (step rt) s (.resume id now nowText allowed)) = none := by
        simp [running, hf]
      have hstep : (step rt s (.resume id now nowText allowed)).1 = s := by
        simp only [step, hf]
      rw [hstep]
      exact hskip s rfl (Nat.le_refl _) hrun
    | some f =>
      have hrun : running (event (step rt) s (.resume id now nowText allowed)) = some (id, f) := by
        simp [running, hf]
      have hstep : (step rt s (.resume id now nowText allowed)).1 =
          (resume rt s id now nowText allowed f).1 := by
        simp only [step, hf]
      have hquiet := hquiet f hf
      obtain ⟨hsound, -⟩ := h.flying id f hf
      have heffect := resume_effect rt s id now nowText allowed f
      have htaken {a b : ℚ} (ht : Takes rt s (resume rt s id now nowText allowed f).1 f.domain a b) :
          takenBy rt id (event (step rt) s (.resume id now nowText allowed)) = a + b := by
        refine takenBy_eq hrun ?_
        rw [event_post, hstep]
        exact ht
      rw [hstep]
      generalize (resume rt s id now nowText allowed f).1 = s' at heffect htaken
      cases heffect with
      | done hsubmitted =>
        refine h.resume hrun hf rfl (fun id' hne => ?_) (fun f' hf' => ?_) fun endpoint domain r heq => ?_
        · rw [get_done, if_neg hne]
        · rw [get_done, if_pos rfl] at hf'
          cases hf'
        · subst heq
          cases hsubmitted
      | refused endpoint error hsubmitted =>
        have hzero := (htaken (.of_eq rfl rfl)).trans (add_zero 0)
        refine h.resume hrun hf rfl (fun id' hne => ?_) (fun f' hf' => ?_) fun endpoint domain r heq => ?_
        · rw [get_wait, if_neg hne]
        · rw [get_wait, if_pos rfl] at hf'
          cases hf'
          rw [hzero, Flight.charged_of_none hsubmitted, Flight.charged_of_none rfl]
          exact ⟨trivial, add_zero 0⟩
        · subst heq
          cases hsubmitted
      | begun endpoint hr hsubmitted =>
        have hzero := (htaken (.of_eq rfl rfl)).trans (add_zero 0)
        refine h.resume hrun hf rfl (fun id' hne => ?_) (fun f' hf' => ?_) fun endpoint domain r heq => ?_
        · rw [get_wait, if_neg hne]
        · rw [get_wait, if_pos rfl] at hf'
          cases hf'
          rw [hzero, Flight.charged_of_none hsubmitted, Flight.charged_of_none rfl]
          exact ⟨hr, add_zero 0⟩
        · subst heq
          cases hsubmitted
      | @written endpoint domain r record hcredits =>
        have hcharged := (htaken (takes_written hsound hquiet hcredits _)).trans (add_zero _)
        refine h.resume hrun hf rfl (fun id' hne => ?_) (fun f' hf' => ?_) fun _ _ _ heq => ?_
        · rw [get_wait, if_neg hne]
        · rw [get_wait, if_pos rfl] at hf'
          cases hf'
          rw [hcharged, Flight.charged_of_none rfl, zero_add]
          refine ⟨fun huse => ?_, rfl⟩
          rw [Renewal.charged_eq huse, hsound.credits, hquiet.1]
          exact hquiet.2 huse
        · cases heq
      | @settled endpoint domain r =>
        have hdue := (htaken (takes_settled hquiet)).trans (zero_add _)
        refine h.resume hrun hf rfl (fun id' hne => ?_) (fun f' hf' => ?_) fun _ _ r' heq => ?_
        · rw [get_done, if_neg hne]
        · rw [get_done, if_pos rfl] at hf'
          cases hf'
        · cases heq
          refine ⟨by rw [get_done, if_pos rfl], fun huse => ?_⟩
          rw [hdue]
          exact hsound huse

/-- What an undisturbed step takes is taken from the balances of its domain, and there. -/
theorem takes_of_step (hsound : ∀ id f, s.flights.get id = some f → f.Sound rt)
    (hquiet : Undisturbed rt s i) :
    (running (event (step rt) s i) = none ∧ (step rt s i).1.registrar = s.registrar ∧
        (step rt s i).1.ledger = s.ledger) ∨
      ∃ id f a b, running (event (step rt) s i) = some (id, f) ∧
        Takes rt s (step rt s i).1 f.domain a b ∧ (s.NonNegative →
          a ≤ s.registrarBalance (normalizeDomain rt f.domain) ∧
            b ≤ s.ledgerBalance (normalizeKey rt f.domain)) := by
  cases i with
  | registrarRenew domain years | domainRenew domain years useCredits =>
    refine .inl ⟨rfl, ?_⟩
    simp only [step]
    split <;> exact ⟨rfl, rfl⟩
  | resume id now nowText allowed =>
    cases hf : s.flights.get id with
    | none => exact .inl ⟨by simp [running, hf], by simp only [step, hf], by simp only [step, hf]⟩
    | some f =>
      obtain ⟨a, b, htakes⟩ := (resume_effect rt s id now nowText allowed f).takes
        (hsound id f hf) (hquiet f hf)
      refine .inr ⟨id, f, a, b, by simp [running, hf], ?_⟩
      simp only [step, hf]
      exact htakes

theorem history_idle (rt : Platform) (registrar : MockRegistrarStore) (ledger : File) :
    History rt (idle registrar ledger) [] where
  fresh _ _ := ⟨rfl, rfl⟩
  flying _ _ hf := by cases hf
  accepted _ he := by cases he

/-- **Credits of renewals** are taken once, and exactly, in every run without disturbance. -/
theorem renewal_law (rt : Platform) (registrar : MockRegistrarStore) (ledger : File)
    (inputs : List Input)
    (hquiet : Each (step rt) (Undisturbed rt) (idle registrar ledger) inputs) :
    RenewalLaw rt (idle registrar ledger) inputs := by
  have hhistory (pre post : List Input) (hi : inputs = pre ++ post) :
      History rt (exec (step rt) (idle registrar ledger) pre)
        (trace (step rt) (idle registrar ledger) pre) := by
    rw [hi, each_append] at hquiet
    exact history_induction (fun s l i h hq => history_step h hq) (history_idle rt registrar ledger)
      hquiet.1
  have htakes (pre : List Input) (i : Input) (post : List Input) (hi : inputs = pre ++ i :: post) :=
    takes_of_step (fun id f hf => ((hhistory pre (i :: post) hi).flying id f hf).1)
      (each_iff_initial.1 hquiet pre i post hi)
  constructor
  · intro e he id r hacc huse
    exact ((hhistory inputs [] (List.append_nil _).symm).accepted e he id r hacc).2.2 huse
  · intro e he key
    obtain ⟨pre, i, post, hi, rfl⟩ := mem_trace he
    rcases htakes pre i post hi with ⟨-, hregistrar, hledger⟩ | ⟨id, f, a, b, hrun, ht, -⟩
    · obtain ⟨hsame, hsame'⟩ := balances_of_eq hregistrar hledger key
      exact ⟨fun _ => hsame, fun _ => hsame'⟩
    · exact ⟨fun hkey => ht.registrar_ne key (hkey id f hrun).symm,
        fun hkey => ht.ledger_ne key (hkey id f hrun).symm⟩
  · intro hstart pre
    induction pre using List.reverseRecOn with
    | nil => exact fun _ _ => hstart
    | append_singleton pre i ih =>
      intro post hi
      rw [List.append_assoc, List.singleton_append] at hi
      have hbefore := ih (i :: post) hi
      rw [exec_append, exec_cons, exec_nil]
      rcases htakes pre i post hi with ⟨-, hregistrar, hledger⟩ | ⟨id, f, a, b, -, ht, hle⟩
      · intro key
        obtain ⟨hsame, hsame'⟩ := balances_of_eq hregistrar hledger key
        rw [hsame, hsame']
        exact hbefore key
      · exact ht.nonneg hbefore (hle hbefore).1 (hle hbefore).2

end Law

/-! ## Runs with disturbances -/

section Examples

open Core.Credits (goodTraffic lowTraffic)

/-- A platform for texts in ASCII. -/
def exampleRt : Platform := ⟨fun t => t.map Char.toLower⟩

/-- Two records of `defaultStore`. -/
def exampleStore : MockRegistrarStore :=
  (FinMap.empty.set goodTraffic ⟨some .expiring, none, none, some 180⟩).set lowTraffic
    ⟨some .expired, none, none, some 20⟩

/-- A gateway after its first start. -/
def exampleStart : System := idle exampleStore .missing

/-- One request, which goes on as often as it waits. -/
def aloneRun (i : Input) : List Input := i :: List.replicate 3 (.resume 0 0 [] true)

/-- One year of a domain, from the registrar's credits. -/
def oneYear : List Input := aloneRun (.registrarRenew goodTraffic 1)

/-- One year of a domain, from the ledger's credits. -/
def subsidized : List Input := aloneRun (.domainRenew goodTraffic 1 true)

/-- Two renewals of a domain that wait for their quotes at the same time. -/
def overtaken : List Input :=
  [.registrarRenew goodTraffic 1, .registrarRenew goodTraffic 1, .resume 0 0 [] true,
    .resume 1 0 [] true, .resume 0 0 [] true, .resume 1 0 [] true, .resume 0 0 [] true,
    .resume 1 0 [] true]

/-- A domain without the credits. -/
def uncovered : List Input := aloneRun (.domainRenew lowTraffic 1 true)

/-- The renewal of `oneYear`. -/
def oneYearRenewal : Renewal where
  key := goodTraffic
  years := 1
  useCredits := true
  store := exampleStore
  existing := ⟨some .expiring, none, none, some 180⟩
  price := 11

/-- A renewal that nothing disturbs takes its 110 credits. -/
theorem oneYear_law : RenewalLaw exampleRt exampleStart oneYear := by
  refine renewal_law exampleRt exampleStore .missing oneYear
    ⟨trivial, fun f hf => ?_, fun f hf => ?_, fun f hf => ?_, trivial⟩
  · cases hf
    trivial
  · have hflight : (exec (step exampleRt) exampleStart (oneYear.take 2)).flights.get 0 =
        some (.renewing (.registrar 110) goodTraffic oneYearRenewal) := by
      with_unfolding_all rfl
    obtain rfl := Option.some.inj (hf.symm.trans hflight)
    have hstore : (exec (step exampleRt) exampleStart (oneYear.take 2)).registrar = exampleStore := by
      with_unfolding_all rfl
    exact ⟨fun key => (congrArg (balanceIn · key) hstore).symm, fun _ => by decide +kernel⟩
  · have hflight : (exec (step exampleRt) exampleStart (oneYear.take 3)).flights.get 0 =
        some (.returned (.registrar 110) goodTraffic (.ok oneYearRenewal)) := by
      with_unfolding_all rfl
    obtain rfl := Option.some.inj (hf.symm.trans hflight)
    trivial

/-- Two years of a domain with the credits for them. -/
def twoYears : List Input := aloneRun (.registrarRenew goodTraffic 2)

def richRecord : RegistrarDomainRecord := ⟨some .active, none, none, some 300⟩

def richStore : MockRegistrarStore := FinMap.empty.set goodTraffic richRecord

def richStart : System := idle richStore .missing

/-- The renewals of `twoYears` and of `uncovered`. -/
def twoYearRenewal : Renewal := ⟨goodTraffic, 2, true, richStore, richRecord, 11⟩

def uncoveredRenewal : Renewal :=
  ⟨lowTraffic, 1, true, exampleStore, ⟨some .expired, none, none, some 20⟩, 14⟩

/-- What the last step of a run accepts has spent what it should. -/
theorem RenewalLaw.spent_eq {start : System} {inputs : List Input} (h : RenewalLaw exampleRt start
    inputs) {pre : List Input} {i : Input} (hinputs : inputs = pre ++ [i]) {id : ℕ}
    {endpoint : Endpoint} {domain : JsText} (r : Renewal) {answer : Answer}
    (hrun : running (event (step exampleRt) (exec (step exampleRt) start pre) i) =
      some (id, .returned endpoint domain (.ok r)))
    (hout : (step exampleRt (exec (step exampleRt) start pre) i).2 = some (id, answer))
    (haccepted : answer.accepted = true) (huse : r.useCredits = true) :
    spent exampleRt id (trace (step exampleRt) start inputs) = requiredCredits r.price r.years :=
  h.exact _ (event_mem_trace pre [] hinputs) id r
    ⟨endpoint, domain, answer, hrun, hout, haccepted⟩ huse

/-- A renewal that charges both files, one for which neither has the credits, one that is overtaken,
and one of two years. -/
theorem renewals_disturbed : ¬RenewalLaw exampleRt exampleStart subsidized ∧
    ¬RenewalLaw exampleRt exampleStart uncovered ∧
    ¬RenewalLaw exampleRt exampleStart overtaken ∧
    ¬RenewalLaw exampleRt richStart twoYears := by
  refine ⟨fun h => ?_, fun h => ?_, fun h => ?_, fun h => ?_⟩
  · have hspent : spent exampleRt 0 (trace (step exampleRt) exampleStart subsidized) = _ :=
      h.spent_eq (List.dropLast_concat_getLast (by decide)).symm oneYearRenewal
        (by with_unfolding_all rfl) (by with_unfolding_all rfl) rfl rfl
    exact absurd hspent (by decide +kernel)
  · have hspent : spent exampleRt 0 (trace (step exampleRt) exampleStart uncovered) = _ :=
      h.spent_eq (List.dropLast_concat_getLast (by decide)).symm uncoveredRenewal
        (by with_unfolding_all rfl) (by with_unfolding_all rfl) rfl rfl
    exact absurd hspent (by decide +kernel)
  · have hspent : spent exampleRt 1 (trace (step exampleRt) exampleStart overtaken) = _ :=
      h.spent_eq (List.dropLast_concat_getLast (by decide)).symm oneYearRenewal
        (by with_unfolding_all rfl) (by with_unfolding_all rfl) rfl rfl
    exact absurd hspent (by decide +kernel)
  · have hspent : spent exampleRt 0 (trace (step exampleRt) richStart twoYears) = _ :=
      h.spent_eq (List.dropLast_concat_getLast (by decide)).symm twoYearRenewal
        (by with_unfolding_all rfl) (by with_unfolding_all rfl) rfl rfl
    exact absurd hspent (by decide +kernel)

end Examples

end Ddns.Gateway.Renewals
