import Ddns.Hosting.Ledger

/-!
# Updates of a connection

Zone selections and verifications of a connection should not lose each other's updates. A
verification writes the row that it read before its look-ups, so what was written in between is gone:
a zone, the time of another verification, or the TXT value that another verification has told the
user to publish. `connectionLaw_of_calm` says that nothing is lost, and every verified domain is
rewarded once, in the runs whose verifications find the row as they left it.
-/

namespace Ddns.Hosting

open Runs

/-! ## What the answers say -/

/-- The last of what the events say. -/
def lastOf {α : Type} (f : Step → Option α) (es : List Step) : Option α := (es.filterMap f).getLast?

/-- The zone that a completed request chooses for `c`, and its name. -/
def Step.zoneOf (c : JsText) (e : Step) : Option (JsText × Option JsText) :=
  match e.out, e.input with
  | some (.selected _), .zone c' z n =>
    if c' = c then some (JsText.trim z, orNull (some (JsText.trim n))) else none
  | _, _ => none

/-- The result of a completed verification of `c`. -/
def Step.checkOf (c : JsText) (e : Step) : Option Checked :=
  match e.out with
  | some (.checked a) => if a.connectionId = c then some a else none
  | _ => none

/-- The result, if the domain is verified. -/
def Step.verifiedOf (c : JsText) (e : Step) : Option Checked :=
  (e.checkOf c).filter fun a => a.status = .verified

/-- The TXT value that an answer hands out for `c`. -/
def Step.handsOut (c : JsText) (e : Step) : Option JsText :=
  match e.out, e.input with
  | some (.checked a), _ => if a.connectionId = c then some a.verification.txtValue else none
  | some (.status _ _ v), .status c' => if c' = c then v.map (·.txtValue) else none
  | _, _ => none

/-- The event verifies `d` for the user `u` of the connection. -/
def Step.Verifies (u d : JsText) (e : Step) : Prop :=
  ∃ a row, e.out = some (.checked a) ∧ a.status = .verified ∧ a.domain = d ∧
    e.post.connections.get a.connectionId = some row ∧ row.userId = u

/-- How often `u` was rewarded for `d`. -/
def rewards (p : PointsStore) (u d : JsText) : ℕ :=
  p.events.countP fun evt => evt.award = (.nsDelegationVerified, u, d)

/-- A field of the row of `c`. -/
def Server.read {α : Type} (s : Server) (c : JsText) (f : Connection → Option α) : Option α :=
  (s.connections.get c).bind f

/-- **No update is lost.** -/
structure Kept (s : Server) (es : List Step) : Prop where
  zoneId : ∀ c, s.read c (·.zoneId) = (lastOf (Step.zoneOf c) es).map Prod.fst
  zoneName : ∀ c, s.read c (·.zoneName) = (lastOf (Step.zoneOf c) es).bind Prod.snd
  domain : ∀ c, s.read c (·.domain) = (lastOf (Step.checkOf c) es).map (·.domain)
  verification : ∀ c, s.read c (·.verification) = (lastOf (Step.checkOf c) es).map (·.verification)
  lastVerifiedAt : ∀ c,
    s.read c (·.lastVerifiedAt) = (lastOf (Step.verifiedOf c) es).bind (·.lastVerifiedAt)
  /-- A TXT value that was handed out stays. -/
  txtValue : ∀ c, ∀ e ∈ es, ∀ v, e.handsOut c = some v → s.read c Connection.txtValue = some v

/-- **A verified domain is rewarded once**, and no other is. -/
structure RewardedOnce (s : Server) (es : List Step) : Prop where
  once : ∀ u d, (∃ e ∈ es, e.Verifies u d) → rewards s.points u d = 1
  only : ∀ u d, (¬∃ e ∈ es, e.Verifies u d) → rewards s.points u d = 0

/-- **The law of the connections**, after a run. -/
structure ConnectionLaw (rt : Runtime) (config : Config) (inputs : List Input) : Prop where
  kept : Kept (exec (Server.step rt config) .start inputs)
    (trace (Server.step rt config) .start inputs)
  rewarded : RewardedOnce (exec (Server.step rt config) .start inputs)
    (trace (Server.step rt config) .start inputs)

/-- A verification finds the row as it read it, up to what it writes itself. -/
structure Calm (rt : Runtime) (config : Config) (s : Server) (p : PendingCheck) (v : Verification) :
    Prop where
  zone : ∀ row, s.connections.get p.connectionId = some row →
    row.zoneId = p.row.zoneId ∧ row.zoneName = p.row.zoneName
  lastVerifiedAt : v.status ≠ .verified → ∀ row, s.connections.get p.connectionId = some row →
    row.lastVerifiedAt = p.row.lastVerifiedAt
  txtValue : ∀ row, s.connections.get p.connectionId = some row → ∀ t, row.txtValue = some t →
    t = p.verificationValue
  /-- The award counts, its domain is in normal form, and no other domain has its key. -/
  reward : v.status = .verified → 0 < config.pointsNsVerified ∧
    normalizeDomain rt p.domain = p.domain ∧
    (s.points.idempotency.get (p.award config).idempotencyKey = none ∨
      rewards s.points p.row.userId p.domain ≠ 0)

/-- A new connection has a new id, and a verification is calm. -/
def CalmStep (rt : Runtime) (config : Config) (s : Server) : Input → Prop
  | .connect _ _ _ _ uuid _ => s.connections.get uuid = none
  | .resolved k txt ns _ now => ∀ p, s.checks[k]? = some p →
    Calm rt config s p (p.verification rt config txt ns now)
  | _ => True

/-! ## Rows and their file -/

/-- A row that is read back as it is. -/
structure Solid (row : Connection) : Prop where
  userId : row.userId ≠ []
  zoneId : row.zoneId ≠ some []
  zoneName : row.zoneName ≠ some []
  domain : row.domain ≠ some []
  txtValue : row.verification.map (·.txtValue) ≠ some []

/-- The rows and the verifications that wait. -/
structure Rows (s : Server) : Prop where
  row : ∀ c row, s.connections.get c = some row → row.connectionId = c ∧ c ≠ [] ∧ Solid row
  check : ∀ p ∈ s.checks, p.row.connectionId = p.connectionId ∧ Solid p.row ∧ p.domain ≠ [] ∧
    p.verificationValue ≠ [] ∧ s.connections.get p.connectionId ≠ none
  file : ∀ c, (loadConnections s.connectionsFile).get c = s.connections.get c

theorem orNull_of_ne {t : Option JsText} (h : t ≠ some []) : orNull t = t := by
  cases t with
  | none => rfl
  | some t =>
    unfold orNull
    rw [Option.filter_some, if_pos (by simpa using h)]

theorem orNull_ne (t : Option JsText) : orNull t ≠ some [] := by
  intro h
  simp [orNull, Option.filter_eq_some_iff] at h

theorem Solid.load {row : Connection} (h : Solid row) :
    loadConnection (serializeConnection row) = row := by
  unfold loadConnection serializeConnection
  dsimp only
  rw [orNull_of_ne h.zoneId, orNull_of_ne h.zoneName, orNull_of_ne h.domain, orNull_of_ne h.zoneName,
    orNull_of_ne h.domain]

/-- The rows that are saved are read back. -/
theorem get_loadConnections {m : FinMap JsText Connection}
    (h : ∀ c row, m.get c = some row → row.connectionId = c ∧ c ≠ [] ∧ Solid row) (c : JsText) :
    (loadConnections (m.entries.map fun e => serializeConnection e.2)).get c = m.get c := by
  have hentries : ((m.entries.map fun e => serializeConnection e.2).filter fun row =>
      row.connectionId ≠ []).map (fun row => (row.connectionId, loadConnection row)) =
      m.entries := by
    have hall : (m.entries.map fun e => serializeConnection e.2).filter
        (fun row => row.connectionId ≠ []) = m.entries.map fun e => serializeConnection e.2 := by
      rw [List.filter_eq_self]
      intro row hrow
      obtain ⟨⟨c, row⟩, he, rfl⟩ := List.mem_map.1 hrow
      obtain ⟨hid, hne, -⟩ := h c row (FinMap.mem_entries.1 he)
      have : (serializeConnection row).connectionId = c := hid
      simpa [this] using hne
    rw [hall, List.map_map]
    refine (List.map_congr_left fun e he => ?_).trans (List.map_id _)
    obtain ⟨c, row⟩ := e
    obtain ⟨hid, -, hsolid⟩ := h c row (FinMap.mem_entries.1 he)
    show (row.connectionId, loadConnection (serializeConnection row)) = (c, row)
    rw [hid, hsolid.load]
  unfold loadConnections
  rw [hentries, FinMap.get_ofList_perm (List.Perm.refl _)]

section Rows

variable {rt : Runtime} {config : Config} {s : Server}

/-- A row is saved. -/
theorem Rows.save (h : Rows s) {row : Connection} (hid : row.connectionId ≠ []) (hrow : Solid row) :
    Rows (s.saveConnection row) := by
  have hrows : ∀ c r, (s.connections.set row.connectionId row).get c = some r →
      r.connectionId = c ∧ c ≠ [] ∧ Solid r := by
    intro c r hr
    rw [FinMap.get_set] at hr
    split at hr
    · next hc =>
      cases hr
      exact ⟨hc.symm, hc ▸ hid, hrow⟩
    · exact h.row c r hr
  refine ⟨hrows, fun p hp => ?_, get_loadConnections hrows⟩
  obtain ⟨hid, hsolid, hdomain, hvalue, hget⟩ := h.check p hp
  refine ⟨hid, hsolid, hdomain, hvalue, ?_⟩
  show (s.connections.set row.connectionId row).get p.connectionId ≠ none
  rw [FinMap.get_set]
  split
  · exact Option.some_ne_none _
  · exact hget

/-- Only the fields that `Rows` reads matter. -/
theorem Rows.congr {s' : Server} (h : Rows s) (hconnections : s'.connections = s.connections)
    (hfile : s'.connectionsFile = s.connectionsFile) (hchecks : ∀ p ∈ s'.checks, p ∈ s.checks) :
    Rows s' := by
  refine ⟨?_, fun p hp => ?_, ?_⟩
  · rw [hconnections]
    exact h.row
  · rw [hconnections]
    exact h.check p (hchecks p hp)
  · rw [hconnections, hfile]
    exact h.file

theorem txtValue_ne {row : Connection} : row.txtValue ≠ some [] := orNull_ne _

theorem Solid.updated {p : PendingCheck} {v : Verification} (h : Solid p.row) (hdomain : p.domain ≠ [])
    (hvalue : v.txtValue ≠ []) (now : ℤ) : Solid (p.updated v now) where
  userId := h.userId
  zoneId := h.zoneId
  zoneName := h.zoneName
  domain heq := hdomain (Option.some.inj heq)
  txtValue heq := hvalue (Option.some.inj heq)

theorem rows_start : Rows .start := ⟨nofun, nofun, fun _ => rfl⟩

/-- A verification saves its row; the rest of it is points. -/
theorem check_saves (rt : Runtime) (config : Config) (s : Server) (p : PendingCheck) (v : Verification) (uuid : Token) (now : ℤ) :
    (s.check rt config p v uuid now).1.connections = (s.saveConnection (p.updated v now)).connections ∧
      (s.check rt config p v uuid now).1.connectionsFile =
        (s.saveConnection (p.updated v now)).connectionsFile ∧
      (s.check rt config p v uuid now).1.checks = s.checks := by
  unfold Server.check
  dsimp only
  split <;> exact ⟨rfl, rfl, rfl⟩

theorem apply_connections (rt : Runtime) (config : Config) (s : Server) (p : PendingActions) (uuid uuid' : Token) (now : ℤ) :
    (s.apply rt config p uuid uuid' now).1.connections = s.connections ∧
      (s.apply rt config p uuid uuid' now).1.connectionsFile = s.connectionsFile ∧
      (s.apply rt config p uuid uuid' now).1.checks = s.checks := by
  unfold Server.apply
  dsimp only
  split <;> exact ⟨rfl, rfl, rfl⟩

/-- The verification at `k` is one of those that wait, and the others stay. -/
theorem Rows.erase (h : Rows s) (k : ℕ) : Rows { s with checks := s.checks.eraseIdx k } :=
  h.congr rfl rfl fun _ hp => List.mem_of_mem_eraseIdx hp

theorem rows_step (s : Server) (i : Input) (h : Rows s) : Rows (s.step rt config i).1 := by
  have heffect := step_effect rt config s i
  revert heffect
  generalize s.step rt config i = r
  intro heffect
  cases heffect with
  | idle | late | status | acting | failed | installed => exact h.congr rfl rfl fun _ => id
  | @connected u t t' scopes uuid now tokenSecrets tokenRef userId scopes' points huser =>
    have hrows : Rows { s with tokenSecrets := tokenSecrets } := h.congr rfl rfl fun _ => id
    refine hrows.save uuid.2 ⟨huser, ?_, ?_, ?_, ?_⟩
    all_goals rintro ⟨⟩
  | @selected c z n row hrow hzone =>
    obtain ⟨hid, hne, hsolid⟩ := h.row c row hrow
    have hname := orNull_ne (some (JsText.trim n))
    exact h.save (hid ▸ hne) {
      userId := hsolid.userId
      zoneId heq := hzone (Option.some.inj heq)
      zoneName := hname
      domain := hsolid.domain
      txtValue := hsolid.txtValue }
  | @started c d token row domain hrow hdomain =>
    refine ⟨h.row, fun p hp => ?_, h.file⟩
    rcases List.mem_append.1 hp with hp | hp
    · exact h.check p hp
    · obtain rfl := List.mem_singleton.1 hp
      obtain ⟨hid, -, hsolid⟩ := h.row c row hrow
      refine ⟨hid, hsolid, hdomain, ?_, by simp [hrow]⟩
      show row.txtValue.getD token ≠ []
      cases ht : row.txtValue with
      | none => exact token.2
      | some t =>
        rintro rfl
        exact txtValue_ne ht
  | @checked k txt ns uuid now p hp =>
    obtain ⟨hid, hsolid, hdomain, hvalue, hget⟩ := h.check p (List.mem_of_getElem? hp)
    have hne : (p.updated (p.verification rt config txt ns now) now).connectionId ≠ [] := by
      show p.row.connectionId ≠ []
      cases hrow : s.connections.get p.connectionId with
      | none => exact absurd hrow hget
      | some row => exact hid ▸ (h.row _ _ hrow).2.1
    obtain ⟨hconnections, hfile, hchecks⟩ := check_saves rt config
      { s with checks := s.checks.eraseIdx k } p (p.verification rt config txt ns now) uuid now
    have hupdated : Solid (p.updated (p.verification rt config txt ns now) now) :=
      hsolid.updated hdomain hvalue now
    have hsaved := (h.erase k).save hne hupdated
    exact hsaved.congr hconnections hfile fun _ hq => hchecks ▸ hq
  | @applied k uuid uuid' now p hp =>
    obtain ⟨hconnections, hfile, hchecks⟩ := apply_connections rt config
      { s with actions := s.actions.eraseIdx k } p uuid uuid' now
    exact h.congr hconnections hfile fun _ hq => hchecks ▸ hq
  | restarted =>
    refine ⟨fun c row hrow => h.row c row ((h.file c).symm.trans hrow), ?_, fun c => rfl⟩
    rintro _ ⟨⟩

end Rows

/-! ## Updates -/

theorem lastOf_concat {α : Type} (f : Step → Option α) (es : List Step) (e : Step) :
    lastOf f (es ++ [e]) = (f e).or (lastOf f es) := by
  unfold lastOf
  cases h : f e with
  | none => rw [filterMap_concat_none h, Option.none_or]
  | some a => rw [filterMap_concat_some h, List.getLast?_concat, Option.some_or]

section Updates

variable {rt : Runtime} {config : Config} {s s' : Server} {es : List Step} {e : Step}

/-- A step that changes no row and says nothing new about one. -/
theorem Kept.quiet (h : Kept s es) (hget : ∀ c, s'.connections.get c = s.connections.get c)
    (hzone : ∀ c, e.zoneOf c = none) (hcheck : ∀ c, e.checkOf c = none)
    (hout : ∀ c v, e.handsOut c = some v → s.read c Connection.txtValue = some v) :
    Kept s' (es ++ [e]) := by
  have hread {α : Type} (c : JsText) (f : Connection → Option α) : s'.read c f = s.read c f := by
    unfold Server.read
    rw [hget]
  have hverified (c : JsText) : e.verifiedOf c = none := by
    unfold Step.verifiedOf
    rw [hcheck]
    rfl
  constructor
  · intro c
    rw [hread, lastOf_concat, hzone, Option.none_or, h.zoneId]
  · intro c
    rw [hread, lastOf_concat, hzone, Option.none_or, h.zoneName]
  · intro c
    rw [hread, lastOf_concat, hcheck, Option.none_or, h.domain]
  · intro c
    rw [hread, lastOf_concat, hcheck, Option.none_or, h.verification]
  · intro c
    rw [hread, lastOf_concat, hverified, Option.none_or, h.lastVerifiedAt]
  · intro c x hx v hv
    rw [hread]
    rcases List.mem_append.1 hx with hx | hx
    · exact h.txtValue c x hx v hv
    · exact hout c v (List.mem_singleton.1 hx ▸ hv)

/-- One row is written: its field is what the event says, or stays. -/
theorem read_write {α β : Type} {c₀ : JsText} {row : Connection} {f : Connection → Option α}
    {g : JsText → Step → Option β} {m : β → Option α}
    (hset : s'.connections = s.connections.set c₀ row)
    (h : ∀ c, s.read c f = (lastOf (g c) es).bind m) (hother : ∀ c, c ≠ c₀ → g c e = none)
    (hself : f row = (g c₀ e).elim (s.read c₀ f) m) (c : JsText) :
    s'.read c f = (lastOf (g c) (es ++ [e])).bind m := by
  unfold Server.read
  rw [hset, FinMap.get_set, lastOf_concat]
  by_cases hc : c = c₀
  · subst hc
    rw [if_pos rfl, Option.bind_some, hself]
    cases g c e with
    | none => exact h c
    | some a => rfl
  · rw [if_neg hc, hother c hc, Option.none_or]
    exact h c

/-- A row is written, with what the event says; what it does not say stays. -/
theorem Kept.write (h : Kept s es) {c₀ : JsText} {row : Connection}
    (hset : s'.connections = s.connections.set c₀ row)
    (hother : ∀ c, c ≠ c₀ → e.zoneOf c = none ∧ e.checkOf c = none)
    (hzoneId : row.zoneId = (e.zoneOf c₀).elim (s.read c₀ (·.zoneId)) fun z => some z.1)
    (hzoneName : row.zoneName = (e.zoneOf c₀).elim (s.read c₀ (·.zoneName)) Prod.snd)
    (hdomain : row.domain = (e.checkOf c₀).elim (s.read c₀ (·.domain)) fun a => some a.domain)
    (hverification : row.verification =
      (e.checkOf c₀).elim (s.read c₀ (·.verification)) fun a => some a.verification)
    (hlast : row.lastVerifiedAt =
      (e.verifiedOf c₀).elim (s.read c₀ (·.lastVerifiedAt)) (·.lastVerifiedAt))
    (hkeep : ∀ v, s.read c₀ Connection.txtValue = some v → row.txtValue = some v)
    (hout : ∀ c v, e.handsOut c = some v → c = c₀ ∧ row.txtValue = some v) :
    Kept s' (es ++ [e]) := by
  have hverified (c : JsText) (hc : c ≠ c₀) : e.verifiedOf c = none := by
    unfold Step.verifiedOf
    rw [(hother c hc).2]
    rfl
  constructor
  · simp only [Option.map_eq_bind]
    refine read_write hset (fun c => ?_) (fun c hc => (hother c hc).1) hzoneId
    rw [h.zoneId, Option.map_eq_bind, Function.comp_def]
  · exact read_write hset h.zoneName (fun c hc => (hother c hc).1) hzoneName
  · simp only [Option.map_eq_bind]
    refine read_write hset (fun c => ?_) (fun c hc => (hother c hc).2) hdomain
    rw [h.domain, Option.map_eq_bind, Function.comp_def]
  · simp only [Option.map_eq_bind]
    refine read_write hset (fun c => ?_) (fun c hc => (hother c hc).2) hverification
    rw [h.verification, Option.map_eq_bind, Function.comp_def]
  · exact read_write hset h.lastVerifiedAt hverified hlast
  · intro c x hx v hv
    unfold Server.read
    rw [hset, FinMap.get_set]
    rcases List.mem_append.1 hx with hx | hx
    · have hold := h.txtValue c x hx v hv
      split
      · next hc => exact hkeep v (hc ▸ hold)
      · exact hold
    · obtain rfl := List.mem_singleton.1 hx
      obtain ⟨hc, hrow⟩ := hout c v hv
      rw [if_pos hc, Option.bind_some, hrow]

theorem Server.read_of_get {c : JsText} {row : Connection} (h : s.connections.get c = some row)
    {α : Type} (f : Connection → Option α) : s.read c f = f row := by
  unfold Server.read
  rw [h]
  rfl

theorem Server.read_of_none {c : JsText} (h : s.connections.get c = none) {α : Type}
    (f : Connection → Option α) : s.read c f = none := by
  unfold Server.read
  rw [h]
  rfl

theorem kept_step (s : Server) (es : List Step) (i : Input) (h : Kept s es) (hrows : Rows s)
    (hcalm : CalmStep rt config s i) :
    Kept (s.step rt config i).1 (es ++ [event (Server.step rt config) s i]) := by
  have heffect := step_effect rt config s i
  unfold event
  revert heffect
  generalize s.step rt config i = r
  intro heffect
  cases heffect with
  | idle | late | started | acting | failed | installed =>
    exact h.quiet (fun _ => rfl) (fun _ => rfl) (fun _ => rfl) nofun
  | @status c₀ =>
    unfold Server.statusOf
    cases hrow : s.connections.get c₀ with
    | none => exact h.quiet (fun _ => rfl) (fun _ => rfl) (fun _ => rfl) nofun
    | some row =>
      refine h.quiet (fun _ => rfl) (fun _ => rfl) (fun _ => rfl) fun c v hv => ?_
      have hout : (if c₀ = c then row.verification.map (·.txtValue) else none) = some v := hv
      split at hout
      · next hc =>
        rw [← hc, Server.read_of_get hrow]
        exact (orNull_of_ne (hrows.row _ _ hrow).2.2.txtValue).trans hout
      · cases hout
  | @connected u t t' scopes uuid now tokenSecrets tokenRef userId scopes' points huser =>
    have hnew : s.connections.get uuid = none := hcalm
    have hread {α : Type} (f : Connection → Option α) : none = s.read uuid f :=
      (Server.read_of_none hnew f).symm
    refine h.write rfl (fun _ _ => ⟨rfl, rfl⟩) (hread _) (hread _) (hread _) (hread _) (hread _)
      (fun v hv => ?_) nofun
    exact absurd ((hread _).trans hv) nofun
  | @selected c z n row hrow hzone =>
    obtain ⟨hid, -⟩ := hrows.row c row hrow
    have hread {α : Type} (f : Connection → Option α) : s.read row.connectionId f = f row :=
      Server.read_of_get (hid ▸ hrow) f
    have hkeep : ∀ v, s.read row.connectionId Connection.txtValue = some v →
        row.txtValue = some v := fun v hv => (hread _).symm.trans hv
    have hother : ∀ c', c' ≠ row.connectionId → ¬c = c' := fun _ hc heq => hc (heq ▸ hid.symm)
    refine h.write rfl (fun c' hc => ⟨if_neg (hother c' hc), rfl⟩) ?_ ?_
      (hread (·.domain)).symm (hread (·.verification)).symm (hread (·.lastVerifiedAt)).symm hkeep
      nofun
    · show _ = Option.elim (if c = row.connectionId then some (_, _) else none) _ _
      rw [if_pos hid.symm]
      rfl
    · show _ = Option.elim (if c = row.connectionId then some (_, _) else none) _ _
      rw [if_pos hid.symm]
      rfl
  | @checked k txt ns uuid now p hp =>
    have hcalm := hcalm p hp
    obtain ⟨hid, hsolid, -, hvalue, hget⟩ := hrows.check p (List.mem_of_getElem? hp)
    obtain ⟨row, hrow⟩ := Option.ne_none_iff_exists'.1 hget
    have hread {α : Type} (f : Connection → Option α) : s.read p.row.connectionId f = f row :=
      Server.read_of_get (hid ▸ hrow) f
    obtain ⟨hset, -, -⟩ := check_saves rt config { s with checks := s.checks.eraseIdx k } p
      (p.verification rt config txt ns now) uuid now
    have hout : ∀ c v, (if p.connectionId = c then some p.verificationValue else none) = some v →
        c = p.row.connectionId ∧ (p.updated (p.verification rt config txt ns now) now).txtValue =
          some v := by
      intro c v hv
      split at hv
      · next hc =>
        cases hv
        exact ⟨hc.symm.trans hid.symm, orNull_of_ne fun heq => hvalue (Option.some.inj heq)⟩
      · cases hv
    have hother : ∀ c, c ≠ p.row.connectionId → ¬p.connectionId = c :=
      fun _ hc heq => hc (heq ▸ hid.symm)
    refine h.write hset (fun c hc => ⟨rfl, if_neg (hother c hc)⟩) ?_ ?_ ?_ ?_ ?_
      (fun v hv => ?_) hout
    · exact (hcalm.zone row hrow).1.symm.trans (hread (·.zoneId)).symm
    · exact (hcalm.zone row hrow).2.symm.trans (hread (·.zoneName)).symm
    · show _ = Option.elim (if p.connectionId = p.row.connectionId then some _ else none) _ _
      rw [if_pos hid.symm]
      rfl
    · show _ = Option.elim (if p.connectionId = p.row.connectionId then some _ else none) _ _
      rw [if_pos hid.symm]
      rfl
    · show (if _ then some now else p.row.lastVerifiedAt) =
        (Option.filter _ (if p.connectionId = p.row.connectionId then some _ else none)).elim _ _
      rw [if_pos hid.symm, Option.filter_some]
      by_cases hverified : (p.verification rt config txt ns now).status = .verified
      · rw [if_pos hverified, if_pos (by simpa using hverified)]
        exact (if_pos hverified).symm
      · rw [if_neg hverified, if_neg (by simpa using hverified)]
        exact (hcalm.lastVerifiedAt hverified row hrow).symm.trans (hread (·.lastVerifiedAt)).symm
    · have hv := (hread Connection.txtValue).symm.trans hv
      rw [hcalm.txtValue row hrow v hv]
      exact orNull_of_ne fun heq => hvalue (Option.some.inj heq)
  | @applied k uuid uuid' now p hp =>
    refine h.quiet (fun c => ?_) (fun _ => rfl) (fun _ => rfl) nofun
    exact congrArg (FinMap.get · c) (apply_connections rt config _ p uuid uuid' now).1
  | restarted => exact h.quiet hrows.file (fun _ => rfl) (fun _ => rfl) nofun

end Updates

/-! ## Rewards -/

section Rewards

variable {rt : Runtime} {config : Config} {s : Server} {es : List Step} {i : Input}

theorem rewards_record (p : PointsStore) (evt : PointsEvent) (key u d : JsText) :
    rewards (p.record evt key) u d =
      rewards p u d + if evt.award = (.nsDelegationVerified, u, d) then 1 else 0 := by
  show (p.events ++ [evt]).countP _ = _
  rw [List.countP_append, List.countP_singleton]
  simp only [decide_eq_true_eq]
  rfl

theorem rewards_eq_zero {p : PointsStore} {u d : JsText}
    (h : ∀ e ∈ p.events, ¬(e.reason = .nsDelegationVerified ∧ e.userId = u ∧ e.domain = d)) :
    rewards p u d = 0 := by
  refine List.countP_eq_zero.2 fun e he heq => h e he ?_
  simpa [PointsEvent.award] using heq

/-- The award for a verified domain comes from a verification. -/
theorem award_of_verified {a : Award} (ha : a ∈ s.awards rt config i)
    (hreason : a.reason = .nsDelegationVerified) : ∃ k txt ns uuid now p,
      i = .resolved k txt ns uuid now ∧ s.checks[k]? = some p ∧
        (p.verification rt config txt ns now).status = .verified ∧ a = p.award config := by
  unfold Server.awards at ha
  cases i with
  | resolved k txt ns uuid now =>
    dsimp only at ha
    cases hp : s.checks[k]? with
    | none =>
      rw [hp] at ha
      cases ha
    | some p =>
      rw [hp] at ha
      dsimp only at ha
      split at ha
      · next hverified =>
        exact ⟨k, txt, ns, uuid, now, p, rfl, hp, hverified, List.mem_singleton.1 ha⟩
      · cases ha
  | upserted k ok uuid uuid' now =>
    dsimp only at ha
    split at ha
    · cases ha
    · split at ha
      · rcases List.mem_cons.1 ha with rfl | ha
        · cases hreason
        · split at ha
          · obtain rfl := List.mem_singleton.1 ha
            cases hreason
          · cases ha
      · cases ha
  | install c u d n uuid now =>
    obtain rfl := List.mem_singleton.1 ha
    cases hreason
  | _ => cases ha

/-- The rewards have their keys, in calm runs. -/
theorem held_step (s : Server) (i : Input) (hsaved : Saved rt s.points s.pointsFile)
    (h : Held .nsDelegationVerified s.points) (hcalm : CalmStep rt config s i) :
    Held .nsDelegationVerified (s.step rt config i).1.points := by
  have hbooks := books_step rt config s i (fun p file => Saved rt p file ∧ Held .nsDelegationVerified p)
    (fun _ _ h => ⟨.snapshot h.1.keyed, h.2⟩) ?_ (fun _ _ h => ⟨h.1.load, h.2.load h.1⟩) ⟨hsaved, h⟩
  · exact hbooks.2
  · intro a ha p file evt r hid hrecorded _ _ hp
    refine ⟨.snapshot (hrecorded.keyed (glued_awards ha) hid hp.1.keyed), ?_⟩
    refine hrecorded.held (glued_awards ha) nofun (fun hreason => ?_) hp.2
    obtain ⟨k, txt, ns, uuid, now, q, rfl, hq, hverified, rfl⟩ := award_of_verified ha hreason
    exact ((hcalm q hq).reward hverified).2.1

/-- A step that verifies nothing rewards nothing. -/
theorem rewards_step_other (hsaved : Saved rt s.points s.pointsFile)
    (hother : ∀ a ∈ s.awards rt config i, a.reason ≠ .nsDelegationVerified) (u d : JsText) :
    rewards (s.step rt config i).1.points u d = rewards s.points u d := by
  have hbooks := books_step rt config s i
    (fun p file => Saved rt p file ∧ rewards p u d = rewards s.points u d)
    (fun _ _ h => ⟨.snapshot h.1.keyed, h.2⟩) ?_ ?_ ⟨hsaved, rfl⟩
  · exact hbooks.2
  · intro a ha p file evt r hid hrecorded _ _ hp
    refine ⟨.snapshot (hrecorded.keyed (glued_awards ha) hid hp.1.keyed), ?_⟩
    rw [rewards_record, if_neg, add_zero, hp.2]
    intro heq
    exact hother a ha (hrecorded.reason.symm.trans (congrArg Prod.fst heq))
  · intro p file hp
    refine ⟨hp.1.load, ?_⟩
    unfold rewards
    rw [hp.1.events]
    exact hp.2

/-- A verified domain is rewarded, if it is not yet. -/
theorem rewards_check {p : PendingCheck} {v : Verification} {uuid : Token} {now : ℤ}
    (hverified : v.status = .verified) (hreward : 0 < config.pointsNsVerified ∧
      normalizeDomain rt p.domain = p.domain ∧
      (s.points.idempotency.get (p.award config).idempotencyKey = none ∨
        rewards s.points p.row.userId p.domain ≠ 0))
    (huser : p.row.userId ≠ []) (hdomain : p.domain ≠ [])
    (hheld : Held .nsDelegationVerified s.points) (u d : JsText) :
    rewards (s.check rt config p v uuid now).1.points u d =
      if p.row.userId = u ∧ p.domain = d then max 1 (rewards s.points u d)
      else rewards s.points u d := by
  obtain ⟨hpos, hstable, hkey⟩ := hreward
  have hpoints : (s.check rt config p v uuid now).1.points =
      (s.points.addPoints rt (p.award config) uuid now).1 := by
    unfold Server.check
    dsimp only
    rw [if_pos hverified]
    rfl
  rw [hpoints]
  rcases addPoints_cases rt s.points (p.award config) uuid now with hrefused | ⟨evt, -, hrecorded⟩
  · rw [hrefused.store]
    split
    · next heq =>
      obtain ⟨rfl, rfl⟩ := heq
      have hpositive : rewards s.points p.row.userId p.domain ≠ 0 := by
        rcases hrefused.because with hu | hd | hle | ⟨-, hused⟩
        · exact absurd hu huser
        · exact absurd (hstable.symm.trans hd) hdomain
        · exact absurd hle (not_le.2 hpos)
        · exact hkey.resolve_left hused
      omega
    · rfl
  · have haward : evt.award = (.nsDelegationVerified, p.row.userId, p.domain) := by
      unfold PointsEvent.award
      rw [hrecorded.reason, hrecorded.userId, hrecorded.domain]
      exact congrArg (_, _, ·) hstable
    rw [hrecorded.store, rewards_record, haward]
    by_cases heq : p.row.userId = u ∧ p.domain = d
    · obtain ⟨rfl, rfl⟩ := heq
      have hzero : rewards s.points p.row.userId p.domain = 0 := by
        refine rewards_eq_zero fun e he heq => ?_
        refine hrecorded.unrecorded ⟨colon_mem_awardKey _ _ _, fun _ => rfl⟩ nofun hstable hheld e he ?_
        exact ⟨heq.1, heq.2.1, heq.2.2.trans (hrecorded.domain.trans hstable).symm⟩
      rw [if_pos rfl, if_pos ⟨rfl, rfl⟩, hzero]
      rfl
    · rw [if_neg heq, if_neg, add_zero]
      intro h
      exact heq (by simpa using h)

theorem step_resolved {k : ℕ} {p : PendingCheck} (hp : s.checks[k]? = some p)
    (txt : Option (List (List JsText))) (ns : Option (List JsText)) (uuid : Token) (now : ℤ) :
    s.step rt config (.resolved k txt ns uuid now) =
      ({ s with checks := s.checks.eraseIdx k }.check rt config p
        (p.verification rt config txt ns now) uuid now).map id some := by
  show s.resolved rt config k txt ns uuid now = _
  unfold Server.resolved
  rw [hp]

/-- What a verification verifies. -/
theorem verifies_check (hrows : Rows s) {k : ℕ} {p : PendingCheck} (hp : s.checks[k]? = some p)
    (txt : Option (List (List JsText))) (ns : Option (List JsText)) (uuid : Token) (now : ℤ)
    (u d : JsText) :
    Step.Verifies u d (event (Server.step rt config) s (.resolved k txt ns uuid now)) ↔
      (p.verification rt config txt ns now).status = .verified ∧ p.row.userId = u ∧ p.domain = d := by
  obtain ⟨hset, -, -⟩ := check_saves rt config { s with checks := s.checks.eraseIdx k } p
    (p.verification rt config txt ns now) uuid now
  obtain ⟨hid, -⟩ := hrows.check p (List.mem_of_getElem? hp)
  have hget : ({ s with checks := s.checks.eraseIdx k }.check rt config p
      (p.verification rt config txt ns now) uuid now).1.connections.get p.connectionId =
        some (p.updated (p.verification rt config txt ns now) now) := by
    rw [hset, ← hid]
    exact FinMap.get_set_self _ _ _
  unfold Step.Verifies
  rw [event_out, event_post, step_resolved hp]
  constructor
  · rintro ⟨a, row, hout, hstatus, hdomain, hrow, huser⟩
    obtain rfl : _ = a := Answer.checked.inj (Option.some.inj hout)
    obtain rfl : _ = row := Option.some.inj (hget.symm.trans hrow)
    exact ⟨hstatus, huser, hdomain⟩
  · rintro ⟨hstatus, huser, hdomain⟩
    exact ⟨_, _, rfl, hstatus, hdomain, hget, huser⟩

/-- Nothing else verifies. -/
theorem resolved_of_verifies {u d : JsText}
    (h : Step.Verifies u d (event (Server.step rt config) s i)) :
    ∃ k txt ns uuid now p, i = .resolved k txt ns uuid now ∧ s.checks[k]? = some p := by
  obtain ⟨a, row, hout, -⟩ := h
  rw [event_out] at hout
  have heffect := step_effect rt config s i
  revert heffect hout
  generalize s.step rt config i = r
  intro hout heffect
  cases heffect with
  | @checked k txt ns uuid now p hp => exact ⟨k, txt, ns, uuid, now, p, rfl, hp⟩
  | @status c =>
    unfold Server.statusOf at hout
    split at hout <;> cases hout
  | _ => cases hout

theorem rewarded_step (s : Server) (es : List Step) (i : Input) (h : RewardedOnce s es)
    (hrows : Rows s) (hsaved : Saved rt s.points s.pointsFile)
    (hheld : Held .nsDelegationVerified s.points) (hcalm : CalmStep rt config s i) :
    RewardedOnce (s.step rt config i).1 (es ++ [event (Server.step rt config) s i]) := by
  have hexists (u d : JsText) : (∃ e ∈ es ++ [event (Server.step rt config) s i], e.Verifies u d) ↔
      (∃ e ∈ es, e.Verifies u d) ∨
        Step.Verifies u d (event (Server.step rt config) s i) := by
    simp only [List.mem_append, List.mem_singleton, or_and_right, exists_or, exists_eq_left]
  by_cases hverified : ∃ k txt ns uuid now p, i = .resolved k txt ns uuid now ∧
      s.checks[k]? = some p ∧ (p.verification rt config txt ns now).status = .verified
  · obtain ⟨k, txt, ns, uuid, now, p, rfl, hp, hverified⟩ := hverified
    obtain ⟨-, hsolid, hdomain, -⟩ := hrows.check p (List.mem_of_getElem? hp)
    have hrewards (u d : JsText) :
        rewards (s.step rt config (.resolved k txt ns uuid now)).1.points u d =
          if p.row.userId = u ∧ p.domain = d then max 1 (rewards s.points u d)
          else rewards s.points u d := by
      rw [step_resolved hp]
      exact rewards_check (s := { s with checks := s.checks.eraseIdx k }) hverified
        ((hcalm p hp).reward hverified) hsolid.userId hdomain hheld u d
    constructor
    · intro u d hex
      rw [hexists, verifies_check hrows hp] at hex
      rw [hrewards]
      split
      · by_cases hold : ∃ e ∈ es, e.Verifies u d
        · rw [h.once u d hold]
          rfl
        · rw [h.only u d hold]
          rfl
      · next hne => exact h.once u d (hex.resolve_right fun hnew => hne hnew.2)
    · intro u d hex
      rw [hexists, verifies_check hrows hp, not_or] at hex
      rw [hrewards, if_neg fun heq => hex.2 ⟨hverified, heq⟩]
      exact h.only u d hex.1
  · have hnone (u d : JsText) : ¬Step.Verifies u d (event (Server.step rt config) s i) := by
      intro hver
      obtain ⟨k, txt, ns, uuid, now, p, rfl, hp⟩ := resolved_of_verifies hver
      exact hverified ⟨k, txt, ns, uuid, now, p, rfl, hp, ((verifies_check hrows hp ..).1 hver).1⟩
    have hother : ∀ a ∈ s.awards rt config i, a.reason ≠ .nsDelegationVerified := by
      intro a ha hr
      obtain ⟨k, txt, ns, uuid, now, p, rfl, hp, hv, -⟩ := award_of_verified ha hr
      exact hverified ⟨k, txt, ns, uuid, now, p, rfl, hp, hv⟩
    have hsame (u d : JsText) := rewards_step_other hsaved hother u d
    constructor
    · intro u d hex
      rw [hsame]
      exact h.once u d (((hexists u d).1 hex).resolve_right (hnone u d))
    · intro u d hex
      rw [hsame]
      exact h.only u d fun hold => hex ((hexists u d).2 (.inl hold))

/-- The invariant of calm runs. -/
structure Settled (rt : Runtime) (s : Server) (es : List Step) : Prop where
  kept : Kept s es
  rewarded : RewardedOnce s es
  rows : Rows s
  saved : Saved rt s.points s.pointsFile
  held : Held .nsDelegationVerified s.points

theorem settled_start : Settled rt .start [] where
  kept := ⟨fun _ => rfl, fun _ => rfl, fun _ => rfl, fun _ => rfl, fun _ => rfl,
    fun _ _ he => absurd he List.not_mem_nil⟩
  rewarded := ⟨fun _ _ ⟨_, he, _⟩ => absurd he List.not_mem_nil, fun _ _ _ => rfl⟩
  rows := rows_start
  saved := saved_start
  held _ he := absurd he List.not_mem_nil

theorem settled_step (s : Server) (es : List Step) (i : Input) (h : Settled rt s es)
    (hcalm : CalmStep rt config s i) :
    Settled rt (s.step rt config i).1 (es ++ [event (Server.step rt config) s i]) where
  kept := kept_step s es i h.kept h.rows hcalm
  rewarded := rewarded_step s es i h.rewarded h.rows h.saved h.held hcalm
  rows := rows_step s i h.rows
  saved := saved_step s i h.saved
  held := held_step s i h.saved h.held hcalm

end Rewards

/-- **The law of the connections** holds after every prefix of a calm run. -/
theorem connectionLaw_of_calm (rt : Runtime) (config : Config) (inputs : List Input)
    (h : Each (Server.step rt config) (CalmStep rt config) .start inputs) :
    ∀ pre post, inputs = pre ++ post → ConnectionLaw rt config pre := by
  rintro pre post rfl
  have hpre := ((each_append _ _ _).1 h).1
  have hsettled := history_induction (J := Settled rt) settled_step settled_start hpre
  exact ⟨hsettled.kept, hsettled.rewarded⟩

/-! ## Examples -/

/-- The TXT value is published, and the domain is delegated. -/
def exampleResolved : Input :=
  .resolved 0 (some [[['t']]]) (some [['n', '1'], ['n', '2']]) exampleToken 1

def exampleConnect : Input := .connect ['u'] ['k'] [] [] ⟨['c'], nofun⟩ 0

def exampleZone : Input := .zone ['c'] ['z'] []

def exampleVerify : Input := .verifyDomain ['c'] ['d'] exampleToken

/-- The zone is selected, and then the domain is verified. -/
def exampleInTurn : List Input := [exampleConnect, exampleZone, exampleVerify, exampleResolved]

theorem exampleInTurn_connectionLaw :
    ConnectionLaw exampleRuntime exampleConfig exampleInTurn := by
  refine connectionLaw_of_calm exampleRuntime exampleConfig exampleInTurn
    ⟨rfl, trivial, trivial, fun p hp => ?_, trivial⟩ exampleInTurn [] (List.append_nil _).symm
  obtain rfl := Option.some.inj hp
  refine ⟨fun row hrow => ?_, fun hne => ?_, fun row hrow t ht => ?_, fun _ => ?_⟩
  · obtain rfl := Option.some.inj hrow
    exact ⟨rfl, rfl⟩
  · exact absurd (by decide +kernel) hne
  · obtain rfl := Option.some.inj hrow
    cases ht
  · exact ⟨by decide +kernel, by decide +kernel, .inl (by decide +kernel)⟩

/-- The zone is selected while the domain is looked up. -/
def exampleBetween : List Input := [exampleConnect, exampleVerify, exampleZone, exampleResolved]

/-- The zone is lost. -/
theorem exampleBetween_not_connectionLaw :
    ¬ConnectionLaw exampleRuntime exampleConfig exampleBetween := by
  intro h
  exact absurd (h.kept.zoneId ['c']) (by decide +kernel)

end Ddns.Hosting
