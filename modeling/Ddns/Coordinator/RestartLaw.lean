import Ddns.Coordinator.Restart

/-!
# When a restart goes unnoticed

`restartLaw` says when a restart at any point of a run goes unnoticed: no receipt is recorded and
no window counts anything, the files hold what the memory holds, and whatever else a restart forgets
is over for the requests that follow. The first two conditions are also necessary, since the
recorded receipts and the windows are never loaded.
-/

namespace Ddns.Coordinator

open Runs
open Comments (CommentHold textOf createHold submitHold finalizeHold)

section Law

variable (rt : ServerRuntime) (config : ServerConfig) (snapshot : Snapshot)

/-- The process ends and a fresh one starts at `now`. -/
def restart (s : Server) (now : ℚ) : Server := loadState rt config snapshot s.disk now

/-- What the daily window of a wallet has credited. -/
def creditedToday (s : Server) (wallet : JsText) : JsNum :=
  ((s.creditWindows.get wallet).map Window.credited).getD (.fin 0)

/-- **A restart goes unnoticed**: every accepted receipt is still recognised, every daily window
keeps its amount, and the requests that follow move the same credits. -/
structure Unnoticed (s : Server) (requests : List Request) (now : ℚ) : Prop where
  recognised : ∀ id, (s.credits.receipts.get id).isSome →
    ((restart rt config snapshot s now).credits.receipts.get id).isSome
  windows : ∀ wallet, creditedToday (restart rt config snapshot s now) wallet =
    creditedToday s wallet
  balances : ∀ wallet,
    (exec (serve rt config snapshot) (restart rt config snapshot s now) requests).balance wallet =
      (exec (serve rt config snapshot) s requests).balance wallet
  pools : ∀ site,
    (exec (serve rt config snapshot) (restart rt config snapshot s now) requests).pool site =
      (exec (serve rt config snapshot) s requests).pool site
  treasury :
    (exec (serve rt config snapshot) (restart rt config snapshot s now) requests).treasuryBalance =
      (exec (serve rt config snapshot) s requests).treasuryBalance

/-- Restarts go unnoticed at every point of a run that starts with the files `disk`, up to every
later point. -/
def RestartLaw (disk : Disk) (began : ℚ) (requests : List Request) : Prop :=
  ∀ pre post rest, requests = pre ++ (post ++ rest) → ∀ now, Unnoticed rt config snapshot
    (exec (serve rt config snapshot) (loadState rt config snapshot disk began) pre) post now

/-- No receipt is recorded and no window counts anything. -/
structure NothingCredited (s : Server) : Prop where
  receipts : ∀ id, s.credits.receipts.get id = none
  windows : ∀ wallet window, s.creditWindows.get wallet = some window → window.credited = .fin 0

/-- The files hold what the memory holds. -/
structure Current (s : Server) : Prop where
  passports : ∀ p, p ∈ config.passportAllowlist ++ s.disk.passports ↔ p ∈ s.credits.passports
  ledger : ∀ wallet, (s.disk.ledger.get wallet).getD 0 = s.balance wallet
  holds : ∀ ticket, (loadHolds s.disk.holds).get ticket = s.comments.holds.get ticket
  pools : ∀ site, (s.disk.pools.get site).getD 0 = s.pool site
  treasury : s.disk.treasury = s.treasuryBalance

/-- What else a restart forgets is over at the times and dates of `L`. -/
structure Over (L : Reads) (s : Server) : Prop where
  challenges : ∀ id c, s.credits.challenges.get id = some c → Expired L c.expiresAt
  rate : ∀ key r, s.credits.rate.get key = some r → DeadRate L r
  sessions : ∀ token c, s.sessions.get token = some c → Expired L c.expiresAt
  authChallenges : ∀ wallet c, s.authChallenges.get wallet = some c → Expired L c.expiresAt
  passportCache : ∀ address c, s.passportCache.get address = some c →
    ∀ now, L.clock now → ¬now < c.expiresAt
  walletRate : ∀ key r, s.comments.walletRate.get key = some r → DeadRate L r
  siteRate : ∀ key r, s.comments.siteRate.get key = some r → DeadRate L r
  walletCooldown : ∀ wallet last, s.comments.walletCooldown.get wallet = some last →
    DeadCooldown config L last
  poolWindows : ∀ site w, s.poolWindows.get site = some w → DeadWindow L w
  bonusWindows : ∀ wallet w, s.bonusWindows.get wallet = some w → DeadWindow L w
  nodeVerifications : ∀ id v, s.nodeVerifications.get id = some v → Expired L (.fin v.expiresAt)

/-- At every point of the run nothing is credited, the files are current, and what else a restart
forgets is over for the requests that follow. -/
def Restartable (disk : Disk) (began : ℚ) (requests : List Request) : Prop :=
  ∀ pre post, requests = pre ++ post →
    let s := exec (serve rt config snapshot) (loadState rt config snapshot disk began) pre
    NothingCredited s ∧ Current config s ∧ Over config (readsOf post) s

end Law

section Restarting

variable {rt : ServerRuntime} {config : ServerConfig} {snapshot : Snapshot} {L : Reads} {s s' : Server}

theorem creditedToday_restart (s : Server) (wallet : JsText) (now : ℚ) :
    creditedToday (restart rt config snapshot s now) wallet = .fin 0 := rfl

theorem within_readsOf {requests : List Request} {r : Request} (h : r ∈ requests) :
    Within (readsOf requests) r :=
  ⟨fun _ hnow => ⟨r, h, hnow⟩, fun _ htoday => ⟨r, h, htoday⟩⟩

/-- Requests within `L` keep the relation to a restarted server. -/
theorem exec_agrees {requests : List Request} (hwithin : ∀ r ∈ requests, Within L r)
    (h : Agrees rt config snapshot L s s') :
    Agrees rt config snapshot L (exec (serve rt config snapshot) s requests)
      (exec (serve rt config snapshot) s' requests) :=
  exec_related (fun s s' r hr hs => serve_agrees s s' r hr hs) hwithin h

/-- A server that knows the keys of the registry agrees with itself. -/
theorem Agrees.self (h : s.credits.nodePubkeys = registryPubkeys rt snapshot) :
    Agrees rt config snapshot L s s where
  balance _ := rfl
  receipts := .refl _
  passports _ := Iff.rfl
  nodePubkeys := h
  nodePubkeys' := h
  challenges := .refl _
  rate := .refl _
  sessions := .refl _
  authChallenges := .refl _
  passportCache := .refl _
  creditWindows := .refl _
  holds := .refl _
  walletRate := .refl _
  siteRate := .refl _
  walletCooldown := .refl _
  pool _ := rfl
  poolWindows := .refl _
  bonusWindows := .refl _
  nodeVerifications := .refl _
  treasuryBalance := rfl

/-- The keys of the registry stay known. -/
theorem nodePubkeys_exec (disk : Disk) (began : ℚ) (requests : List Request) :
    (exec (serve rt config snapshot) (loadState rt config snapshot disk began)
      requests).credits.nodePubkeys = registryPubkeys rt snapshot := by
  have hself : Agrees rt config snapshot (readsOf requests)
      (loadState rt config snapshot disk began) (loadState rt config snapshot disk began) :=
    .self rfl
  exact (exec_agrees (fun r hr => within_readsOf hr) hself).nodePubkeys

/-- **What a restart forgets**: with nothing credited and current files, the fresh process agrees
with the old one about requests for which the rest is over. -/
theorem agrees_restart (hkeys : s.credits.nodePubkeys = registryPubkeys rt snapshot)
    (hnothing : NothingCredited s) (hcurrent : Current config s) (hover : Over config L s)
    (now : ℚ) : Agrees rt config snapshot L s (restart rt config snapshot s now) where
  balance wallet := hcurrent.ledger wallet
  receipts := .of_get fun id => (FinMap.get_empty id).trans (hnothing.receipts id).symm
  passports p := by
    rw [← hcurrent.passports p]
    exact List.mem_dedup
  nodePubkeys := hkeys
  nodePubkeys' := rfl
  challenges := .of_dead hover.challenges
  rate := .of_dead hover.rate
  sessions := .of_dead hover.sessions
  authChallenges := .of_dead hover.authChallenges
  passportCache := .of_dead hover.passportCache
  creditWindows := .of_dead fun wallet window hw => .inl (hnothing.windows wallet window hw)
  holds := .of_get hcurrent.holds
  walletRate := .of_dead hover.walletRate
  siteRate := .of_dead hover.siteRate
  walletCooldown := .of_dead hover.walletCooldown
  pool site := hcurrent.pools site
  poolWindows := .of_dead hover.poolWindows
  bonusWindows := .of_dead hover.bonusWindows
  nodeVerifications := .of_dead hover.nodeVerifications
  treasuryBalance := hcurrent.treasury

theorem unnoticed_of {post : List Request} (hwithin : ∀ r ∈ post, Within L r)
    (hkeys : s.credits.nodePubkeys = registryPubkeys rt snapshot) (hnothing : NothingCredited s)
    (hcurrent : Current config s) (hover : Over config L s) (now : ℚ) :
    Unnoticed rt config snapshot s post now := by
  have hagrees := exec_agrees hwithin (agrees_restart hkeys hnothing hcurrent hover now)
  refine ⟨?_, ?_, hagrees.balance, hagrees.pool, hagrees.treasuryBalance⟩
  · intro id hid
    rw [hnothing.receipts id] at hid
    cases hid
  · intro wallet
    rw [creditedToday_restart]
    unfold creditedToday
    cases hw : s.creditWindows.get wallet with
    | none => rfl
    | some window => exact (hnothing.windows wallet window hw).symm

/-- The fresh process has recorded no receipt and counted nothing. -/
theorem Unnoticed.nothing {post : List Request} {now : ℚ}
    (h : Unnoticed rt config snapshot s post now) : NothingCredited s := by
  constructor
  · intro id
    by_contra hsome
    have hfound := h.recognised id (Option.isSome_iff_ne_none.2 hsome)
    have hnone : (restart rt config snapshot s now).credits.receipts.get id = none :=
      FinMap.get_empty id
    rw [hnone] at hfound
    cases hfound
  · intro wallet window hw
    have hkept := h.windows wallet
    rw [creditedToday_restart] at hkept
    unfold creditedToday at hkept
    rw [hw] at hkept
    exact hkept.symm

/-- **When restarts go unnoticed**: in a run in which, at every point, nothing is credited, the files
are current and the rest is over. The first of these is also necessary, and so is it that the files
hold the balances, the pools and the treasury. -/
theorem restartLaw_iff (rt : ServerRuntime) (config : ServerConfig) (snapshot : Snapshot)
    (disk : Disk) (began : ℚ) (requests : List Request) :
    (Restartable rt config snapshot disk began requests →
      RestartLaw rt config snapshot disk began requests) ∧
    (RestartLaw rt config snapshot disk began requests → ∀ pre post, requests = pre ++ post →
      let s := exec (serve rt config snapshot) (loadState rt config snapshot disk began) pre
      NothingCredited s ∧ (∀ wallet, (s.disk.ledger.get wallet).getD 0 = s.balance wallet) ∧
        (∀ site, (s.disk.pools.get site).getD 0 = s.pool site) ∧
        s.disk.treasury = s.treasuryBalance) := by
  constructor
  · intro h pre post rest hsplit now
    obtain ⟨hnothing, hcurrent, hover⟩ := h pre (post ++ rest) hsplit
    have hwithin : ∀ r ∈ post, Within (readsOf (post ++ rest)) r :=
      fun r hr => within_readsOf (List.mem_append_left rest hr)
    exact unnoticed_of hwithin (nodePubkeys_exec disk began pre) hnothing hcurrent hover now
  · intro h pre post hsplit
    have hhere := h pre [] post hsplit 0
    exact ⟨hhere.nothing, hhere.balances, hhere.pools, hhere.treasury⟩

end Restarting

/-! ## A receipt after a restart -/

/-- The files of a coordinator that knows one node. -/
def exampleDisk : Disk := ⟨.empty, [exampleNode], [], [], [], .empty, 0, .empty⟩

/-- An accepted receipt. -/
def exampleReceiptRequest : Request := .receipt exampleEnvelope 0 ⟨0, exampleToday⟩

/-- The receipt is not recognised after a restart. -/
theorem exampleReceipt_not_restartLaw :
    ¬RestartLaw exampleServerRuntime exampleServerConfig none exampleDisk 0
      [exampleReceiptRequest] := by
  intro h
  have hrecognised := (h [exampleReceiptRequest] [] [] rfl 1).recognised exampleId
  exact absurd hrecognised (by decide +kernel)

end Ddns.Coordinator
