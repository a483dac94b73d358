import Ddns.Hosting.Server

/-!
# What the ledger adds up to

A balance should be the sum of the events behind it, and an award should be recorded once for its
reason, user and domain, over every run and through restarts. The key of an install ends in an id
that the client chooses, so one install is awarded as often as there are ids; the domain of an award
is brought to normal form once more when it is recorded, so that two domains with keys of their own
can become one; and what belongs to `__proto__` is not written to the file. `ledgerLaw_of_plain` says
that nothing else goes wrong.
-/

namespace Ddns.Hosting

open Runs

/-- A request with its effect. -/
abbrev Step := Event Server Input (Option Answer)

/-- What an event is awarded for. -/
def PointsEvent.award (evt : PointsEvent) : Reason × JsText × JsText :=
  (evt.reason, evt.userId, evt.domain)

/-- **The ledger** after a run: the balances are the sums of the events, an award is recorded at most
once, and no event is lost. -/
structure LedgerLaw (rt : Runtime) (config : Config) (inputs : List Input) : Prop where
  balanced : Balanced (exec (Server.step rt config) .start inputs).points
  once : ((exec (Server.step rt config) .start inputs).points.events.map PointsEvent.award).Nodup
  kept : ∀ e ∈ trace (Server.step rt config) .start inputs,
    e.pre.points.events <+: e.post.points.events

/-- An award that `addPoints` records. -/
structure Accepts (rt : Runtime) (p : PointsStore) (a : Award) : Prop where
  userId_ne : a.userId ≠ []
  domain_ne : normalizeDomain rt a.domain ≠ []
  positive : 0 < a.points
  unused : p.idempotency.get a.idempotencyKey = none

/-- An award that the ledger can keep: the file holds its user and its domain, the domain is in
normal form, and an install is not recorded yet. -/
structure Plain (rt : Runtime) (p : PointsStore) (a : Award) : Prop where
  user : a.userId ≠ protoKey
  domain : a.domain ≠ protoKey
  stable : normalizeDomain rt a.domain = a.domain
  install : a.reason = .webHostInstall →
    (a.reason, a.userId, a.domain) ∉ p.events.map PointsEvent.award

/-! ## One award -/

/-- The books of a ledger, and what is read back from them. -/
structure Ledger (rt : Runtime) (p : PointsStore) (file : PointsFile) : Prop where
  saved : Saved rt p file
  storable : Storable rt p
  balanced : Balanced p
  once : (p.events.map PointsEvent.award).Nodup
  held : ∀ reason ≠ .webHostInstall, Held reason p
  storable_load : Storable rt (loadPoints rt file)
  balanced_load : Balanced (loadPoints rt file)

section Awards

variable {rt : Runtime} {config : Config} {p : PointsStore} {file : PointsFile}

theorem Ledger.snapshot (h : Ledger rt p file) : Ledger rt p (pointsSnapshot p) where
  saved := .snapshot h.saved.keyed
  storable := h.storable
  balanced := h.balanced
  once := h.once
  held := h.held
  storable_load := h.storable.load
  balanced_load := h.balanced.load h.saved.keyed h.storable

theorem Ledger.load (h : Ledger rt p file) : Ledger rt (loadPoints rt file) file where
  saved := h.saved.load
  storable := h.storable_load
  balanced := h.balanced_load
  once := by
    rw [h.saved.events]
    exact h.once
  held reason hreason := (h.held reason hreason).load h.saved
  storable_load := h.storable_load
  balanced_load := h.balanced_load

/-- An award that is recorded is new. -/
theorem Recorded.award_notMem {a : Award} {evt : PointsEvent} {r : PointsStore × Grant}
    (h : Recorded rt p a evt r) (ha : Glued a) (hplain : Plain rt p a)
    (hheld : ∀ reason ≠ .webHostInstall, Held reason p) :
    evt.award ∉ p.events.map PointsEvent.award := by
  have hdomain : evt.domain = a.domain := h.domain.trans hplain.stable
  have haward : evt.award = (a.reason, a.userId, a.domain) := by
    unfold PointsEvent.award
    rw [h.reason, h.userId, hdomain]
  intro hmem
  by_cases hinstall : a.reason = .webHostInstall
  · rw [haward] at hmem
    exact hplain.install hinstall hmem
  · obtain ⟨e, he, heq⟩ := List.mem_map.1 hmem
    obtain ⟨hr, hu, hd⟩ : e.reason = evt.reason ∧ e.userId = evt.userId ∧ e.domain = evt.domain := by
      simpa [PointsEvent.award] using heq
    exact h.unrecorded ha hinstall hplain.stable (hheld _ hinstall) e he
      ⟨hr.trans h.reason, hu.trans h.userId, hd⟩

theorem Ledger.record {a : Award} {evt : PointsEvent} {r : PointsStore × Grant}
    (hp : Ledger rt p file) (h : Recorded rt p a evt r) (ha : Glued a) (hid : evt.eventId ≠ [])
    (hplain : Plain rt p a) :
    Ledger rt (p.record evt a.idempotencyKey) (pointsSnapshot (p.record evt a.idempotencyKey)) := by
  have hdomain : evt.domain = a.domain := h.domain.trans hplain.stable
  have hkeyed := h.keyed ha hid hp.saved.keyed
  have hstorable : Storable rt (p.record evt a.idempotencyKey) := by
    refine hp.storable.record ?_ ?_ ?_
    · rw [h.userId]
      exact hplain.user
    · rw [hdomain]
      exact hplain.domain
    · rw [hdomain, hplain.stable]
  have hbalanced : Balanced (p.record evt a.idempotencyKey) := hp.balanced.record
  refine ⟨.snapshot hkeyed, hstorable, hbalanced, ?_, ?_, hstorable.load,
    hbalanced.load hkeyed hstorable⟩
  · show ((p.events ++ [evt]).map PointsEvent.award).Nodup
    rw [List.map_append, List.map_singleton]
    refine List.nodup_append.2 ⟨hp.once, List.nodup_singleton _, ?_⟩
    rintro x hx y hy rfl
    rw [List.mem_singleton.1 hy] at hx
    exact h.award_notMem ha hplain hp.held hx
  · intro reason hreason
    exact h.held ha hreason (fun _ => hplain.stable) (hp.held reason hreason)

theorem ledger_start (rt : Runtime) : Ledger rt Server.start.points Server.start.pointsFile := by
  have hstorable : Storable rt .empty := ⟨rfl, rfl, nofun⟩
  exact ⟨saved_start, hstorable, balanced_empty, List.nodup_nil, nofun, hstorable.load,
    balanced_empty.load ⟨nofun, nofun⟩ hstorable⟩

/-! ## Every run -/

theorem ledger_step (s : Server) (i : Input) (h : Ledger rt s.points s.pointsFile)
    (hplain : ∀ a ∈ s.awards rt config i, Accepts rt s.points a → Plain rt s.points a) :
    Ledger rt (s.step rt config i).1.points (s.step rt config i).1.pointsFile := by
  refine books_step rt config s i (Ledger rt) (fun _ _ h => h.snapshot) ?_ (fun _ _ h => h.load) h
  intro a ha p file evt r hid hrecorded hused hinstall hp
  have hplain := hplain a ha {
    userId_ne := hrecorded.userId_ne
    domain_ne := hrecorded.domain ▸ hrecorded.domain_ne
    positive := hrecorded.positive
    unused := hused _ (hrecorded.unused (glued_awards ha).ne_nil) }
  exact hp.record hrecorded (glued_awards ha) hid
    ⟨hplain.user, hplain.domain, hplain.stable, fun hr => hinstall hr ▸ hplain.install hr⟩

/-- A step only adds events. -/
theorem events_step (s : Server) (i : Input) (h : Saved rt s.points s.pointsFile) :
    s.points.events <+: (s.step rt config i).1.points.events := by
  have hbooks := books_step rt config s i
    (fun p file => Saved rt p file ∧ s.points.events <+: p.events)
    (fun _ _ h => ⟨.snapshot h.1.keyed, h.2⟩) ?_ ?_ ⟨h, List.prefix_refl _⟩
  · exact hbooks.2
  · intro a ha p file evt r hid hrecorded _ _ hp
    exact ⟨.snapshot (hrecorded.keyed (glued_awards ha) hid hp.1.keyed),
      hp.2.trans (List.prefix_append _ _)⟩
  · intro p file hp
    exact ⟨hp.1.load, hp.1.events ▸ hp.2⟩

/-- **A run keeps the ledger** if every award that it records is plain. -/
theorem ledgerLaw_of_plain (rt : Runtime) (config : Config) (inputs : List Input)
    (h : Each (Server.step rt config)
      (fun s i => ∀ a ∈ s.awards rt config i, Accepts rt s.points a → Plain rt s.points a)
      .start inputs) :
    ∀ pre post, inputs = pre ++ post → LedgerLaw rt config pre := by
  rintro pre post rfl
  have hpre := ((each_append _ _ _).1 h).1
  have hledger : Always (Server.step rt config)
      (fun s : Server => Ledger rt s.points s.pointsFile) .start pre :=
    Always.of_each ledger_step (ledger_start rt) hpre
  have hsaved (is : List Input) : Saved rt (exec (Server.step rt config) .start is).points
      (exec (Server.step rt config) .start is).pointsFile :=
    exec_induction (P := fun s : Server => Saved rt s.points s.pointsFile) saved_step saved_start is
  refine ⟨hledger.exec.balanced, hledger.exec.once, fun e he => ?_⟩
  obtain ⟨is, i, post, -, rfl⟩ := mem_trace he
  exact events_step _ i (hsaved is)

end Awards

/-! ## Examples -/

def exampleRuntime : Runtime where
  toLowerCase t := t.map Char.toLower
  order es := es
  order_perm es := List.Perm.refl es

def exampleConfig : Config where
  tokenRef token := token
  tokenStoreKey := false
  providerNs1 := ['n', '1']
  providerNs2 := ['n', '2']
  pointsInstallWebHost := 250
  pointsNsVerified := 120
  pointsDnsActions := 80
  pointsWorkerTemplate := 20

def exampleToken : Token := ⟨['t'], nofun⟩

/-- A user claims the install of a domain under an install id. -/
def exampleInstall (installId : JsText) : Input :=
  .install [] ['u'] ['d'] installId exampleToken 0

/-- The same install, a restart in between. -/
def exampleInstalls : List Input := [exampleInstall ['1'], .restart, exampleInstall ['1']]

theorem exampleInstalls_ledgerLaw : LedgerLaw exampleRuntime exampleConfig exampleInstalls := by
  refine ledgerLaw_of_plain exampleRuntime exampleConfig exampleInstalls ⟨?_, nofun, ?_, trivial⟩
    exampleInstalls [] (List.append_nil _).symm
  · intro a ha _
    obtain rfl := List.mem_singleton.1 ha
    exact ⟨by decide, by decide, by decide, nofun⟩
  · intro a ha haccepts
    obtain rfl := List.mem_singleton.1 ha
    exact absurd haccepts.unused (by decide +kernel)

/-- The install of one domain, under two ids. -/
def exampleTwoIds : List Input := [exampleInstall ['1'], exampleInstall ['2']]

/-- It is awarded twice. -/
theorem exampleTwoIds_not_ledgerLaw : ¬LedgerLaw exampleRuntime exampleConfig exampleTwoIds := by
  intro h
  exact absurd h.once (by decide +kernel)

end Ddns.Hosting
