import Ddns.Coordinator.Sessions
import Ddns.Coordinator.Interleaving
import Ddns.Lib.FinMap

/-!
# Restarting the coordinator

`saveState` writes some parts of the memory to files, and `loadState` reads some files in a fresh
process. A restart is meant to go unnoticed: accepted receipts stay recognised, the daily windows
keep what they counted, and later requests move the same credits. `loadState` reads neither the
receipts nor the windows that `saveState` writes, and sessions, challenges, verifications, rates and
the other windows are written nowhere.

`Agrees` relates a server to one that was restarted: what a restart forgets is dead for the requests
that follow, which read the clock at the times of `Reads`. `serve_agrees` says that requests keep it.
-/

namespace Ddns.Coordinator

open Runs
open Comments (CommentHold HoldPayload HoldTimes SubmitPayload CommentConfig amountOf textOf
  createHold submitHold finalizeHold)

/-- The holds of a file, under their tickets. -/
def loadHolds (holds : List CommentHold) : FinMap JsText CommentHold :=
  holds.foldl (fun m hold => if hold.ticketId = [] then m else m.set hold.ticketId hold) .empty

/-- A fresh process that has read its files. -/
def loadState (rt : ServerRuntime) (config : ServerConfig) (snapshot : Snapshot) (disk : Disk)
    (now : ℚ) : Server where
  credits :=
    { receipts := .empty
      credits := disk.ledger
      passports := (config.passportAllowlist ++ disk.passports).dedup
      nodePubkeys := registryPubkeys rt snapshot
      challenges := .empty
      rate := .empty }
  nodeRegistryLoadedAt := now
  sessions := .empty
  authChallenges := .empty
  passportCache := .empty
  creditWindows := .empty
  comments := ⟨loadHolds disk.holds, .empty, .empty, .empty⟩
  sitePools := disk.pools
  poolWindows := .empty
  bonusWindows := .empty
  nodeVerifications := .empty
  treasuryBalance := disk.treasury
  siteReceipts := disk.siteReceipts
  disk := disk

/-- The clock reads and the dates that requests get. -/
structure Reads where
  clock : ℚ → Prop
  day : JsText → Prop

section Relation

variable (rt : ServerRuntime) (config : ServerConfig) (snapshot : Snapshot) (L : Reads)

/-- At every clock read of the requests the time is over. -/
def Expired (expiresAt : JsNum) : Prop := ∀ now, L.clock now → expiresAt.lt (.fin now) = true

/-- The calls were counted more than a minute ago. -/
def DeadRate (rate : Rate) : Prop := ∀ now, L.clock now → now - rate.windowStart > 60000

/-- The window counts nothing, or the date is over. -/
def DeadWindow (window : Window) : Prop := window.credited = .fin 0 ∨ ¬L.day window.date

/-- The wallet may comment again, as if it had not commented before. -/
def DeadCooldown (last : ℚ) : Prop :=
  ∀ now, L.clock now → (JsNum.fin (now - last)).lt config.comments.walletCooldownMs =
    (JsNum.fin (now - 0)).lt config.comments.walletCooldownMs

/-- `s'` is `s` after a restart, as far as the requests can tell. -/
structure Agrees (s s' : Server) : Prop where
  balance : ∀ w, s'.balance w = s.balance w
  receipts : Forgets (fun _ => False) s.credits.receipts s'.credits.receipts
  passports : ∀ p, p ∈ s'.credits.passports ↔ p ∈ s.credits.passports
  nodePubkeys : s.credits.nodePubkeys = registryPubkeys rt snapshot
  nodePubkeys' : s'.credits.nodePubkeys = registryPubkeys rt snapshot
  challenges : Forgets (fun c => Expired L c.expiresAt) s.credits.challenges s'.credits.challenges
  rate : Forgets (DeadRate L) s.credits.rate s'.credits.rate
  sessions : Forgets (fun c => Expired L c.expiresAt) s.sessions s'.sessions
  authChallenges : Forgets (fun c => Expired L c.expiresAt) s.authChallenges s'.authChallenges
  passportCache : Forgets (fun c => ∀ now, L.clock now → ¬now < c.expiresAt) s.passportCache
    s'.passportCache
  creditWindows : Forgets (DeadWindow L) s.creditWindows s'.creditWindows
  holds : Forgets (fun _ => False) s.comments.holds s'.comments.holds
  walletRate : Forgets (DeadRate L) s.comments.walletRate s'.comments.walletRate
  siteRate : Forgets (DeadRate L) s.comments.siteRate s'.comments.siteRate
  walletCooldown : Forgets (DeadCooldown config L) s.comments.walletCooldown
    s'.comments.walletCooldown
  pool : ∀ site, s'.pool site = s.pool site
  poolWindows : Forgets (DeadWindow L) s.poolWindows s'.poolWindows
  bonusWindows : Forgets (DeadWindow L) s.bonusWindows s'.bonusWindows
  nodeVerifications : Forgets (fun v => Expired L (.fin v.expiresAt)) s.nodeVerifications
    s'.nodeVerifications
  treasuryBalance : s'.treasuryBalance = s.treasuryBalance

end Relation

/-! ## Reading what may be forgotten -/

section Reading

variable {rt : ServerRuntime} {config : ServerConfig} {snapshot : Snapshot} {L : Reads}
  {s s' : Server} {now : ℚ} {today : JsText}

theorem countCall_forgets {m m' : FinMap JsText Rate} (h : Forgets (DeadRate L) m m')
    (hnow : L.clock now) (key : JsText) : countCall m' key now = countCall m key now := by
  let count (found : Option Rate) : Rate :=
    let rate := found.getD ⟨0, now⟩
    let rate := if now - rate.windowStart > 60000 then ⟨0, now⟩ else rate
    { rate with count := rate.count + 1 }
  have hdead (rate : Rate) (hrate : DeadRate L rate) : count (some rate) = count none := by
    simp [count, hrate now hnow]
  exact h.read count hdead key

theorem limitRate_forgets {m m' : FinMap JsText Rate} (h : Forgets (DeadRate L) m m')
    (hnow : L.clock now) (key : JsText) (max : JsNum) :
    (limitRate m' key max now).2 = (limitRate m key max now).2 ∧
      Forgets (DeadRate L) (limitRate m key max now).1 (limitRate m' key max now).1 := by
  simp only [limitRate, countCall_forgets h hnow, true_and]
  exact h.set key _

/-- The window in which an amount is counted today. -/
def todaysWindow (today : JsText) (found : Option Window) : Window :=
  let entry := found.getD ⟨today, .fin 0⟩
  if entry.date ≠ today then ⟨today, .fin 0⟩ else entry

theorem todaysWindow_none : todaysWindow today none = ⟨today, .fin 0⟩ := by
  simp [todaysWindow]

theorem todaysWindow_dead (htoday : L.day today) {window : Window} (h : DeadWindow L window) :
    todaysWindow today (some window) = ⟨today, .fin 0⟩ := by
  obtain ⟨date, credited⟩ := window
  by_cases hdate : date = today
  · subst hdate
    rcases h with hzero | hday
    · subst hzero
      simp [todaysWindow]
    · exact absurd htoday hday
  · simp [todaysWindow, hdate]

/-- A dead window counts like a new one, and stays dead if nothing is counted. -/
theorem applyCap_forgets {m m' : FinMap JsText Window} (h : Forgets (DeadWindow L) m m')
    (htoday : L.day today) (key : JsText) (delta cap : JsNum) :
    (applyCap m' key delta cap today).2 = (applyCap m key delta cap today).2 ∧
      Forgets (DeadWindow L) (applyCap m key delta cap today).1
        (applyCap m' key delta cap today).1 := by
  have hread : todaysWindow today (m'.get key) = todaysWindow today (m.get key) :=
    h.read (todaysWindow today) (fun v hv =>
      (todaysWindow_dead htoday hv).trans todaysWindow_none.symm) key
  have heq (m : FinMap JsText Window) : applyCap m key delta cap today =
      if cap.lt ((todaysWindow today (m.get key)).credited.add delta) then
        (if (m.get key).isSome then m.set key (todaysWindow today (m.get key)) else m, false)
      else
        (m.set key { todaysWindow today (m.get key) with
          credited := (todaysWindow today (m.get key)).credited.add delta }, true) := rfl
  rw [heq, heq, hread]
  split
  · refine ⟨rfl, ?_⟩
    simp only
    rcases h key with hsame | ⟨hnone, hdead⟩
    · rw [hsame]
      split
      · exact h.set key _
      · exact h
    · rw [hnone]
      cases hk : m.get key with
      | none => exact h
      | some window =>
        rw [todaysWindow_dead htoday (hdead window hk)]
        exact h.set_dead hnone (.inl rfl)
  · exact ⟨rfl, h.set key _⟩

theorem Agrees.saved (h : Agrees rt config snapshot L s s') :
    Agrees rt config snapshot L (saveState s) (saveState s') :=
  { h with }

theorem Agrees.logged (h : Agrees rt config snapshot L s s') (site : JsText)
    (entry : SiteReceipt) :
    Agrees rt config snapshot L (logReceipt s site entry) (logReceipt s' site entry) :=
  { h with }

/-! ## The handlers -/

/-- A handler answers the restarted server alike and keeps the relation. -/
abbrev Keeps (rt : ServerRuntime) (config : ServerConfig) (snapshot : Snapshot) (L : Reads)
    (a b : Server × ServerAnswer) : Prop :=
  SameOut (Agrees rt config snapshot L) a b

theorem Agrees.setBalance (h : Agrees rt config snapshot L s s') (wallet : JsText) (amount : ℚ) :
    Agrees rt config snapshot L
      { s with
        credits := { s.credits with credits := s.credits.credits.set wallet amount } }
      { s' with
        credits := { s'.credits with credits := s'.credits.credits.set wallet amount } } := by
  refine { h with balance := fun w => ?_ }
  have hbalance := h.balance w
  unfold Server.balance at hbalance ⊢
  rw [getBalance_set, getBalance_set, hbalance]

theorem Agrees.credited (h : Agrees rt config snapshot L s s') (wallet : JsText) (amount : ℚ) :
    Agrees rt config snapshot L { s with credits := credit s.credits wallet amount }
      { s' with credits := credit s'.credits wallet amount } := by
  have hbalance : getBalance s'.credits wallet = getBalance s.credits wallet := h.balance wallet
  unfold credit
  rw [hbalance]
  exact h.setBalance wallet _

theorem keeps_spend (h : Agrees rt config snapshot L s s') (token : Option JsText)
    (amount : Option JsNum) (hnow : L.clock now) :
    Keeps rt config snapshot L (postSpend s token amount now) (postSpend s' token amount now) := by
  have hrefused := SameOut.mk (ServerAnswer.refused .notAuthenticated) h
  unfold postSpend
  cases token.filter (· ≠ []) with
  | none => exact hrefused
  | some key =>
    simp only [Option.bind_some]
    rcases h.sessions.eq_or_dead key with heq | ⟨session, hsession, hnone, hdead⟩
    · rw [heq]
      cases s.sessions.get key with
      | none => exact hrefused
      | some session =>
        refine .ite (fun _ => hrefused) fun _ => .ite (fun _ => .mk _ h) fun _ => ?_
        unfold spendCredits
        cases amountOf amount with
        | fin q =>
          simp only [h.balance]
          by_cases hlt : s.balance session.nodeId < q
          · rw [if_pos hlt, if_pos hlt]
            exact .mk _ h
          · rw [if_neg hlt, if_neg hlt]
            have hspent := (h.setBalance session.nodeId (s.balance session.nodeId - q)).saved
            refine ⟨?_, hspent⟩
            simp only [ServerAnswer.balance.injEq, true_and]
            exact (hspent.balance session.nodeId).symm
        | _ => exact .mk _ h
    · rw [hsession, hnone]
      simp only [hdead now hnow, if_true]
      exact hrefused

/-! ## Receipts -/

theorem Agrees.refreshed (h : Agrees rt config snapshot L s s') (now : ℚ) :
    Agrees rt config snapshot L (refreshNodePubkeys rt s snapshot now)
      (refreshNodePubkeys rt s' snapshot now) := by
  have hleft (x : Server) : Agrees rt config snapshot L s x →
      Agrees rt config snapshot L (refreshNodePubkeys rt s snapshot now) x := by
    intro hx
    unfold refreshNodePubkeys
    split
    · exact hx
    · exact { hx with nodePubkeys := rfl }
  have hright (x : Server) : Agrees rt config snapshot L x s' →
      Agrees rt config snapshot L x (refreshNodePubkeys rt s' snapshot now) := by
    intro hx
    unfold refreshNodePubkeys
    split
    · exact hx
    · exact { hx with nodePubkeys' := rfl }
  exact hright _ (hleft _ h)

theorem same_validate (h : Agrees rt config snapshot L s s') (envelope : ReceiptEnvelope)
    (hnow : L.clock now) :
    SameOut (fun c c' => Agrees rt config snapshot L { s with credits := c }
        { s' with credits := c' })
      (validateAndApplyReceipt rt.toRuntime config.receipts s.credits envelope now)
      (validateAndApplyReceipt rt.toRuntime config.receipts s'.credits envelope now) := by
  unfold validateAndApplyReceipt
  cases validateReceiptShape envelope with
  | error code => exact .mk _ h
  | ok shaped =>
    have hmember : (shaped.nodeId ∈ s'.credits.passports ∨
        shaped.nodeId ∈ s'.credits.nodePubkeys) ↔ (shaped.nodeId ∈ s.credits.passports ∨
        shaped.nodeId ∈ s.credits.nodePubkeys) := by
      rw [h.passports, h.nodePubkeys, h.nodePubkeys']
    obtain ⟨hwithin, hrate⟩ :=
      limitRate_forgets h.rate hnow shaped.nodeId config.receipts.maxPerMinute
    simp only [hmember, h.receipts.get_eq]
    refine .ite (fun _ => .mk _ h) fun _ => .ite (fun _ => .mk _ h) fun _ => ?_
    refine ⟨?_, { h with rate := hrate }⟩
    simp only [hwithin]

theorem same_beginReceipt (h : Agrees rt config snapshot L s s') (envelope : ReceiptEnvelope)
    (hnow : L.clock now) :
    SameOut (Agrees rt config snapshot L) (beginReceipt rt config s envelope snapshot now)
      (beginReceipt rt config s' envelope snapshot now) := by
  unfold beginReceipt
  cases envelope.receipt.bind (truthyField nodeIdKey) with
  | none => exact .mk _ h
  | some nodeId =>
    have hrefresh := h.refreshed now
    have hbefore : balanceBefore (refreshNodePubkeys rt s' snapshot now) nodeId =
        balanceBefore (refreshNodePubkeys rt s snapshot now) nodeId := by
      cases nodeId with
      | str wallet => exact hrefresh.balance wallet
      | _ => rfl
    obtain ⟨credits, credits', verdict, hv, hv', hagrees⟩ :=
      (same_validate hrefresh envelope hnow).cases
    simp only [hbefore, hv, hv']
    cases verdict with
    | error code => exact .mk _ hagrees
    | ok shaped => exact .mk _ hagrees

/-- A challenge that is over is refused like a missing one. -/
theorem checkType_agrees (h : Agrees rt config snapshot L s s') (shaped : Shaped)
    (hnow : L.clock now) : checkType rt.toRuntime config.receipts s'.credits shaped now =
      checkType rt.toRuntime config.receipts s.credits shaped now := by
  unfold checkType
  cases shaped.type with
  | serve => rfl
  | store => rfl
  | verify =>
    simp only [checkVerify, challengeOf]
    cases (detail challengeIdKey shaped.receipt).filter Json.truthy with
    | none => rfl
    | some id =>
      cases id with
      | str id =>
        simp only
        rcases h.challenges.eq_or_dead id with heq | ⟨challenge, hchallenge, hnone, hdead⟩
        · rw [heq]
        · rw [hchallenge, hnone]
          simp [hdead now hnow]
      | _ => rfl

theorem same_creditReceipt (h : Agrees rt config snapshot L s s') (flight : Flight)
    (hnow : L.clock now) :
    SameOut (Agrees rt config snapshot L) (creditReceipt rt config s flight now)
      (creditReceipt rt config s' flight now) := by
  unfold creditReceipt
  rw [checkType_agrees h flight.shaped hnow]
  have hcredit := h.credited flight.shaped.nodeId (creditDelta config flight)
  cases checkType rt.toRuntime config.receipts s.credits flight.shaped now with
  | ok => exact .mk _ { hcredit with receipts := hcredit.receipts.set _ _ }
  | error code => exact .mk _ h
  | thrown => exact .mk _ h

theorem same_applyDailyCap (h : Agrees rt config snapshot L s s') (wallet : JsText)
    (delta : JsNum) (htoday : L.day today) : SameOut (Agrees rt config snapshot L)
      (applyDailyCap config s wallet delta today) (applyDailyCap config s' wallet delta today) := by
  obtain ⟨hwithin, hwindows⟩ :=
    applyCap_forgets h.creditWindows htoday wallet delta config.dailyCreditCap
  exact ⟨hwithin.symm, { h with creditWindows := hwindows }⟩

theorem keeps_finishReceipt (h : Agrees rt config snapshot L s s') (flight : Flight)
    (htoday : L.day today) : Keeps rt config snapshot L (finishReceipt rt config s flight today)
      (finishReceipt rt config s' flight today) := by
  obtain ⟨x, x', within, hx, hx', hagrees⟩ := (same_applyDailyCap h flight.shaped.nodeId
    (.fin (creditDelta config flight)) htoday).cases
  simp only [finishReceipt, hx, hx']
  cases within with
  | false =>
    have hback := hagrees.setBalance flight.shaped.nodeId flight.before
    exact .mk _ { hback with receipts := hback.receipts.erase _ }
  | true =>
    refine ⟨?_, hagrees.saved⟩
    simp only [hagrees.balance]

theorem same_resumeReceipt (h : Agrees rt config snapshot L s s') (flight : Flight)
    (times : Times) (hnow : L.clock times.now) (htoday : L.day times.today) :
    SameOut (Agrees rt config snapshot L) (resumeReceipt rt config s flight times)
      (resumeReceipt rt config s' flight times) := by
  unfold resumeReceipt
  cases flight.phase with
  | signature =>
    simp only
    cases verifyReceiptSignature rt.toRuntime flight.shaped.nodeId flight.shaped.receipt
        flight.shaped.signature with
    | none => exact .mk _ h
    | some valid =>
      cases valid with
      | false => exact .mk _ h
      | true => exact .ite (fun _ => .mk _ h) fun _ => same_creditReceipt h flight hnow
  | authority => exact same_creditReceipt h flight hnow
  | credited =>
    obtain ⟨x, x', answer, hx, hx', hagrees⟩ := (keeps_finishReceipt h flight htoday).cases
    simp only [hx, hx']
    exact .mk _ hagrees

theorem keeps_settleReceipt (times : Times) (hnow : L.clock times.now)
    (htoday : L.day times.today) (n : ℕ) (outcome : Outcome)
    (h : Agrees rt config snapshot L s s') : Keeps rt config snapshot L
      (settleReceipt rt config times n (s, outcome))
      (settleReceipt rt config times n (s', outcome)) := by
  induction n generalizing s s' outcome with
  | zero => cases outcome <;> exact .mk _ h
  | succ n ih =>
    cases outcome with
    | answered answer => exact .mk _ h
    | awaits flight =>
      obtain ⟨x, x', outcome, hx, hx', hagrees⟩ :=
        (same_resumeReceipt h flight times hnow htoday).cases
      simp only [settleReceipt, hx, hx']
      exact ih outcome hagrees

theorem keeps_receipts (h : Agrees rt config snapshot L s s') (envelope : ReceiptEnvelope)
    (times : Times) (hnow : L.clock now) (hnow' : L.clock times.now) (htoday : L.day times.today) :
    Keeps rt config snapshot L (postReceipts rt config s envelope snapshot now times)
      (postReceipts rt config s' envelope snapshot now times) := by
  obtain ⟨x, x', outcome, hx, hx', hagrees⟩ := (same_beginReceipt h envelope hnow).cases
  simp only [postReceipts, hx, hx']
  exact keeps_settleReceipt times hnow' htoday 3 outcome hagrees

/-! ## Comments -/

theorem same_createHold (h : Agrees rt config snapshot L s s') (payload : HoldPayload)
    (times : HoldTimes) (random : JsText) (hwalletRate : L.clock times.walletRate)
    (hsiteRate : L.clock times.siteRate) (hcooldown : L.clock times.cooldown) :
    SameOut (fun st st' => Agrees rt config snapshot L (s.withComments st) (s'.withComments st'))
      (createHold config.comments ⟨s.credits, s.comments⟩ payload times random)
      (createHold config.comments ⟨s'.credits, s'.comments⟩ payload times random) := by
  obtain ⟨hwalletWithin, hwalletRates⟩ := limitRate_forgets h.walletRate hwalletRate
    (textOf payload.wallet) config.comments.maxPerMinuteWallet
  obtain ⟨hsiteWithin, hsiteRates⟩ := limitRate_forgets h.siteRate hsiteRate
    (textOf payload.siteId) config.comments.maxPerMinuteSite
  have hcool : (JsNum.fin (times.cooldown -
        (s'.comments.walletCooldown.get (textOf payload.wallet)).getD 0)).lt
          config.comments.walletCooldownMs =
      (JsNum.fin (times.cooldown -
        (s.comments.walletCooldown.get (textOf payload.wallet)).getD 0)).lt
          config.comments.walletCooldownMs :=
    h.walletCooldown.read (fun last => (JsNum.fin (times.cooldown - last.getD 0)).lt
      config.comments.walletCooldownMs) (fun last hdead => hdead _ hcooldown) _
  have hbalance (w : JsText) : getBalance s'.credits w = getBalance s.credits w := h.balance w
  have hlimited : Agrees rt config snapshot L
      (s.withComments ⟨s.credits, { s.comments with
        walletRate := (limitRate s.comments.walletRate (textOf payload.wallet)
          config.comments.maxPerMinuteWallet times.walletRate).1 }⟩)
      (s'.withComments ⟨s'.credits, { s'.comments with
        walletRate := (limitRate s'.comments.walletRate (textOf payload.wallet)
          config.comments.maxPerMinuteWallet times.walletRate).1 }⟩) :=
    { h with walletRate := hwalletRates }
  have hcounted : Agrees rt config snapshot L
      (s.withComments ⟨s.credits, { s.comments with
        walletRate := (limitRate s.comments.walletRate (textOf payload.wallet)
          config.comments.maxPerMinuteWallet times.walletRate).1
        siteRate := (limitRate s.comments.siteRate (textOf payload.siteId)
          config.comments.maxPerMinuteSite times.siteRate).1 }⟩)
      (s'.withComments ⟨s'.credits, { s'.comments with
        walletRate := (limitRate s'.comments.walletRate (textOf payload.wallet)
          config.comments.maxPerMinuteWallet times.walletRate).1
        siteRate := (limitRate s'.comments.siteRate (textOf payload.siteId)
          config.comments.maxPerMinuteSite times.siteRate).1 }⟩) :=
    { hlimited with siteRate := hsiteRates }
  unfold createHold
  simp only [hwalletWithin, hsiteWithin, hcool, hbalance]
  refine .ite (fun _ => .mk _ h) fun _ => .ite (fun _ => .mk _ hlimited) fun _ =>
    .ite (fun _ => .mk _ hcounted) fun _ => .ite (fun _ => .mk _ hcounted) fun _ => ?_
  cases amountOf payload.amount with
  | fin amount =>
    refine .ite (fun _ => .mk _ hcounted) fun _ => .mk _ ?_
    have hpaid := hcounted.setBalance (textOf payload.wallet)
      (getBalance s.credits (textOf payload.wallet) - amount)
    exact { hpaid with
      walletCooldown := hpaid.walletCooldown.set _ _
      holds := hpaid.holds.set _ _ }
  | _ => exact .mk _ hcounted

theorem keeps_hold (h : Agrees rt config snapshot L s s') (token : Option JsText)
    (body : HoldPayload) (times : HoldTimes) (random : JsText)
    (hwalletRate : L.clock times.walletRate) (hsiteRate : L.clock times.siteRate)
    (hcooldown : L.clock times.cooldown) : Keeps rt config snapshot L
      (postHold rt config s token body times random)
      (postHold rt config s' token body times random) := by
  unfold postHold
  refine .ite (fun _ => .mk _ h) fun _ => .ite (fun _ => .mk _ h) fun _ => ?_
  obtain ⟨st, st', out, hst, hst', hagrees⟩ :=
    (same_createHold h body times random hwalletRate hsiteRate hcooldown).cases
  simp only [hst, hst']
  cases out with
  | error error => exact .mk _ hagrees
  | ok made => exact .mk _ hagrees.saved

theorem keeps_submit (h : Agrees rt config snapshot L s s') (token : Option JsText)
    (body : SubmitPayload) (now : ℚ) : Keeps rt config snapshot L
      (postSubmit config s token body now) (postSubmit config s' token body now) := by
  unfold postSubmit submitHold
  refine .ite (fun _ => .mk _ h) fun _ => ?_
  simp only [h.holds.get_eq]
  by_cases hvalid : (textOf body.ticketId = [] || textOf body.commentHash = []) = true
  · simp only [hvalid, if_true]
    exact .mk _ h
  · simp only [hvalid, Bool.false_eq_true, if_false]
    cases s.comments.holds.get (textOf body.ticketId) with
    | none => exact .mk _ h
    | some hold =>
      simp only
      by_cases hexpired : hold.expiresAt.lt (.fin now) = true
      · simp only [hexpired, if_true]
        exact .mk _ h
      · simp only [hexpired, Bool.false_eq_true, if_false]
        have hstored := h.holds.set (textOf body.ticketId)
          { hold with commentHash := some (textOf body.commentHash), status := .submitted }
        have hagrees : Agrees rt config snapshot L
            { s with comments := { s.comments with holds := s.comments.holds.set _ _ } }
            { s' with comments := { s'.comments with holds := s'.comments.holds.set _ _ } } :=
          { h with holds := hstored }
        exact .mk _ hagrees.saved

/-! ## Finalizations -/

theorem same_finalizeHold (h : Agrees rt config snapshot L s s')
    (payload : Comments.FinalizePayload) (now : ℚ) :
    SameOut (fun st st' => Agrees rt config snapshot L (s.withComments st) (s'.withComments st'))
      (finalizeHold ⟨s.credits, s.comments⟩ payload now)
      (finalizeHold ⟨s'.credits, s'.comments⟩ payload now) := by
  unfold finalizeHold
  simp only [h.holds.get_eq]
  refine .ite (fun _ => .mk _ h) fun _ => ?_
  cases s.comments.holds.get (textOf payload.ticketId) with
  | none => exact .mk _ h
  | some hold =>
    simp only
    refine .ite (fun _ => .mk _ h) fun _ => ?_
    cases Comments.resultStatus (textOf payload.result) with
    | none => exact .mk _ h
    | some status =>
      simp only
      by_cases happroved : status = .approved
      · simp only [if_pos happroved]
        have hcredited := h.credited hold.wallet hold.amount
        refine ⟨?_, { hcredited with holds := hcredited.holds.set _ _ }⟩
        simp only [Except.ok.injEq, Comments.Finalized.mk.injEq, and_true, true_and]
        exact (hcredited.balance hold.wallet).symm
      · simp only [if_neg happroved]
        refine ⟨?_, { h with holds := h.holds.set _ _ }⟩
        simp only [Except.ok.injEq, Comments.Finalized.mk.injEq, and_true, true_and]
        exact (h.balance hold.wallet).symm

theorem Agrees.setPool (h : Agrees rt config snapshot L s s') (site : JsText) (q : ℚ) :
    Agrees rt config snapshot L { s with sitePools := s.sitePools.set site q }
      { s' with sitePools := s'.sitePools.set site q } := by
  refine { h with pool := fun site' => ?_ }
  have hpool := h.pool site'
  unfold Server.pool at hpool ⊢
  rw [FinMap.get_set, FinMap.get_set]
  by_cases hsite : site' = site
  · rw [if_pos hsite, if_pos hsite]
  · rw [if_neg hsite, if_neg hsite]
    exact hpool

theorem Agrees.paidFromPool (h : Agrees rt config snapshot L s s') (wallet site : JsText)
    (bonus : JsNum) : Agrees rt config snapshot L (payFromPool s wallet site bonus)
      (payFromPool s' wallet site bonus) := by
  cases bonus with
  | fin q =>
    simp only [payFromPool, h.pool]
    by_cases hle : q ≤ s.pool site
    · simp only [if_pos hle]
      have hpaid := (h.setPool site (s.pool site - q)).credited wallet q
      exact hpaid
    · simp only [if_neg hle]
      exact h
  | _ => exact h

theorem Agrees.forfeited (h : Agrees rt config snapshot L s s') (hold : CommentHold) :
    Agrees rt config snapshot L (forfeit config s hold) (forfeit config s' hold) := by
  have hshared := h.setPool hold.siteId (s.pool hold.siteId + hold.amount * forfeitSplit config)
  unfold forfeit
  simp only [h.pool]
  refine { hshared with treasuryBalance := ?_ }
  exact congrArg (· + (hold.amount - hold.amount * forfeitSplit config)) h.treasuryBalance

theorem same_applyBonusCap (h : Agrees rt config snapshot L s s') (wallet : JsText)
    (delta : JsNum) (htoday : L.day today) : SameOut (Agrees rt config snapshot L)
      (applyBonusCap config s wallet delta today) (applyBonusCap config s' wallet delta today) := by
  obtain ⟨hwithin, hwindows⟩ :=
    applyCap_forgets h.bonusWindows htoday wallet delta config.bonusDailyCap
  exact ⟨hwithin.symm, { h with bonusWindows := hwindows }⟩

theorem same_payBonus (h : Agrees rt config snapshot L s s') (body : FinalizeBody)
    (result : Comments.Finalized) (htoday : L.day today) : SameOut (Agrees rt config snapshot L)
      (payBonus config s body result today) (payBonus config s' body result today) := by
  unfold payBonus
  refine .ite (fun _ => ?_) fun _ => .mk _ h
  obtain ⟨x, x', within, hx, hx', hagrees⟩ := (same_applyBonusCap h result.wallet
    (bonusOf config body result.hold.amount) htoday).cases
  simp only [hx, hx']
  cases within with
  | false => exact .mk _ hagrees
  | true => exact .mk _ (hagrees.paidFromPool _ _ _)

theorem keeps_finalize (h : Agrees rt config snapshot L s s') (token : Option JsText)
    (body : FinalizeBody) (times : LoggedTimes) (htoday : L.day times.today) :
    Keeps rt config snapshot L (postFinalize config s token body times)
      (postFinalize config s' token body times) := by
  unfold postFinalize
  refine .ite (fun _ => .mk _ h) fun _ => ?_
  obtain ⟨st, st', out, hst, hst', hagrees⟩ :=
    (same_finalizeHold h body.toFinalizePayload times.now).cases
  simp only [hst, hst']
  cases out with
  | error error => exact .mk _ hagrees
  | ok result =>
    simp only
    have hnamed : Agrees rt config snapshot L
        (s.withComments { st with comments := { st.comments with
          holds := st.comments.holds.set (textOf body.ticketId) (renameSite body result.hold) } })
        (s'.withComments { st' with comments := { st'.comments with
          holds := st'.comments.holds.set (textOf body.ticketId) (renameSite body result.hold) } }) :=
      { hagrees with holds := hagrees.holds.set _ _ }
    obtain ⟨x, x', paid, hx, hx', hpaid⟩ :=
      (SameOut.ite (c := body.result = some approvedText)
        (fun _ => same_payBonus hnamed body { result with hold := renameSite body result.hold } htoday)
        fun _ => .mk true hnamed).cases
    simp only [hx, hx']
    cases paid with
    | false => exact .mk _ hpaid
    | true =>
      simp only
      by_cases hforfeit : body.result = some spamText ∨ body.result = some trashText
      · simp only [if_pos hforfeit]
        exact .mk _ ((hpaid.forfeited (renameSite body result.hold)).logged _ _).saved
      · simp only [if_neg hforfeit]
        exact .mk _ (hpaid.logged _ _).saved

/-! ## Node receipts, sessions and challenges -/

theorem keeps_nodeReceipts (h : Agrees rt config snapshot L s s') (token : Option JsText)
    (body : NodeReceiptBody) (times : LoggedTimes) (hnow : L.clock times.now)
    (htoday : L.day times.today) : Keeps rt config snapshot L
      (postNodeReceipts rt config s token body snapshot times)
      (postNodeReceipts rt config s' token body snapshot times) := by
  have hverified (receipt : Json) (site : JsText) :
      verifiedFor s' receipt site times.now = verifiedFor s receipt site times.now := by
    let verified (found : Option NodeVerification) : Bool :=
      found.any fun v => !decide (v.expiresAt < times.now) && v.siteId = site
    have hread (id : JsText) : verified (s'.nodeVerifications.get id) =
        verified (s.nodeVerifications.get id) := by
      refine h.nodeVerifications.read verified (fun v hdead => ?_) id
      have hover : v.expiresAt < times.now := by simpa [JsNum.lt] using hdead times.now hnow
      simp [verified, hover]
    unfold verifiedFor
    cases (receipt.field verificationIdKey).filter Json.truthy with
    | none => exact hread []
    | some id =>
      cases id with
      | str id => exact hread id
      | _ => rfl
  have hcheck : checkNodeReceipt rt config s' token body snapshot times.now =
      checkNodeReceipt rt config s token body snapshot times.now := by
    unfold checkNodeReceipt
    simp only [hverified]
  unfold postNodeReceipts
  rw [hcheck]
  cases checkNodeReceipt rt config s token body snapshot times.now with
  | error error => exact .mk _ h
  | ok passed =>
    obtain ⟨hwithin, hwindows⟩ := applyCap_forgets h.poolWindows htoday passed.2 (.fin 1)
      config.poolDailyCap
    have hcap : SameOut (Agrees rt config snapshot L)
        (applyPoolCap config s passed.2 (.fin 1) times.today)
        (applyPoolCap config s' passed.2 (.fin 1) times.today) :=
      ⟨hwithin.symm, { h with poolWindows := hwindows }⟩
    obtain ⟨x, x', within, hx, hx', hagrees⟩ := hcap.cases
    simp only [hx, hx']
    cases within with
    | false => exact .mk _ hagrees
    | true =>
      simp only [hagrees.pool]
      have hadded := hagrees.setPool passed.2 (x.pool passed.2 + 1)
      have hsaved := (hadded.logged passed.2 (.nodeReceipt times.logged passed.1)).saved
      refine ⟨?_, hsaved⟩
      exact congrArg ServerAnswer.pool (hsaved.pool passed.2).symm

theorem keeps_authChallenge (h : Agrees rt config snapshot L s s') (wallet : Option JsText)
    (random : JsText) (now : ℚ) : Keeps rt config snapshot L
      (postAuthChallenge rt config s wallet random now)
      (postAuthChallenge rt config s' wallet random now) := by
  unfold postAuthChallenge
  cases wallet.filter (· ≠ []) with
  | none => exact .mk _ h
  | some wallet =>
    simp only
    cases checkChain rt config wallet with
    | error error => exact .mk _ h
    | ok chain => exact .mk _ { h with authChallenges := h.authChallenges.set _ _ }

theorem keeps_openSession (h : Agrees rt config snapshot L s s') (wallet random : JsText)
    (now : ℚ) : Keeps rt config snapshot L (openSession config s wallet random now)
      (openSession config s' wallet random now) :=
  .mk _ { h with
    authChallenges := h.authChallenges.erase wallet
    sessions := h.sessions.set random _ }

theorem same_passportOwns (h : Agrees rt config snapshot L s s') (address : JsText) (owned : Bool)
    (hnow : L.clock now) : SameOut (Agrees rt config snapshot L)
      (passportOwns s address owned now) (passportOwns s' address owned now) := by
  have hfetched := SameOut.mk owned (s := { s with
    passportCache := s.passportCache.set address ⟨owned, now + 90000⟩ }) (t := { s' with
    passportCache := s'.passportCache.set address ⟨owned, now + 90000⟩ })
    (R := Agrees rt config snapshot L) { h with passportCache := h.passportCache.set _ _ }
  unfold passportOwns
  refine .ite (fun _ => .mk _ h) fun _ => ?_
  rcases h.passportCache.eq_or_dead address with heq | ⟨entry, hentry, hnone, hdead⟩
  · rw [heq]
    cases s.passportCache.get address with
    | none => exact hfetched
    | some cached => exact .ite (fun _ => .mk _ h) fun _ => hfetched
  · rw [hentry, hnone]
    simp only [if_neg (hdead now hnow)]
    exact hfetched

theorem keeps_authVerify (h : Agrees rt config snapshot L s s') (body : LoginBody) (owned : Bool)
    (random : JsText) (hnow : L.clock now) : Keeps rt config snapshot L
      (postAuthVerify rt config s body owned random now)
      (postAuthVerify rt config s' body owned random now) := by
  have hexpired := SameOut.mk (ServerAnswer.refused .challengeExpired) h
  have hlogin (chain : Chain) (wallet signature challenge : JsText) :
      checkLogin rt config s' chain body wallet signature challenge =
        checkLogin rt config s chain body wallet signature challenge := by
    unfold checkLogin
    simp only [h.passports]
  unfold postAuthVerify
  cases body.wallet.filter (· ≠ []) with
  | none => exact .mk _ h
  | some wallet =>
    cases body.signature.filter (· ≠ []) with
    | none => exact .mk _ h
    | some signature =>
      simp only
      cases checkChain rt config wallet with
      | error error => exact .mk _ h
      | ok chain =>
        simp only
        rcases h.authChallenges.eq_or_dead wallet with heq | ⟨challenge, hfound, hnone, hdead⟩
        · rw [heq]
          cases s.authChallenges.get wallet with
          | none => exact hexpired
          | some challenge =>
            refine .ite (fun _ => hexpired) fun _ => ?_
            rw [hlogin]
            cases checkLogin rt config s chain body wallet signature challenge.challenge with
            | error error => exact .mk _ h
            | ok address =>
              cases address with
              | none => exact keeps_openSession h wallet random now
              | some address =>
                obtain ⟨x, x', owns, hx, hx', hagrees⟩ :=
                  (same_passportOwns h address owned hnow).cases
                simp only [hx, hx']
                cases owns with
                | false => exact .mk _ hagrees
                | true => exact keeps_openSession hagrees wallet random now
        · rw [hfound, hnone]
          simp only [hdead now hnow, if_true]
          exact hexpired

theorem keeps_auditChallenge (h : Agrees rt config snapshot L s s') (token : Option JsText)
    (wallet chunkHash : Option JsText) (random : JsText) (now : ℚ) : Keeps rt config snapshot L
      (postAuditChallenge config s token wallet chunkHash random now)
      (postAuditChallenge config s' token wallet chunkHash random now) := by
  unfold postAuditChallenge
  refine .ite (fun _ => .mk _ h) fun _ => ?_
  cases wallet.filter (· ≠ []) with
  | none => exact .mk _ h
  | some wallet =>
    cases chunkHash.filter (· ≠ []) with
    | none => exact .mk _ h
    | some chunkHash => exact .mk _ { h with challenges := h.challenges.set _ _ }

theorem keeps_nodeVerify (h : Agrees rt config snapshot L s s') (token : Option JsText)
    (verified : Option JsText) (random : JsText) (now : ℚ) : Keeps rt config snapshot L
      (postNodeVerify config s token verified random now)
      (postNodeVerify config s' token verified random now) := by
  unfold postNodeVerify
  refine .ite (fun _ => .mk _ h) fun _ => ?_
  cases verified with
  | none => exact .mk _ h
  | some site => exact .mk _ { h with nodeVerifications := h.nodeVerifications.set _ _ }

end Reading

/-! ## Requests -/

/-- The clock reads of a request at which something may be over. -/
def Request.clockReads : Request → List ℚ
  | .authChallenge _ _ now => [now]
  | .authVerify _ _ _ now => [now]
  | .spend _ _ now => [now]
  | .receipt _ now times => [now, times.now]
  | .hold _ _ times _ => [times.walletRate, times.siteRate, times.cooldown]
  | .submit _ _ now => [now]
  | .finalize _ _ times => [times.now]
  | .nodeVerify _ _ _ now => [now]
  | .nodeReceipt _ _ times => [times.now]
  | .auditChallenge _ _ _ _ now => [now]

/-- The dates of a request. -/
def Request.days : Request → List JsText
  | .receipt _ _ times => [times.today]
  | .finalize _ _ times => [times.today]
  | .nodeReceipt _ _ times => [times.today]
  | _ => []

/-- What a list of requests reads. -/
def readsOf (requests : List Request) : Reads where
  clock now := ∃ r ∈ requests, now ∈ r.clockReads
  day today := ∃ r ∈ requests, today ∈ r.days

/-- The request reads the clock and the date within `L`. -/
structure Within (L : Reads) (r : Request) : Prop where
  clock : ∀ now ∈ r.clockReads, L.clock now
  day : ∀ today ∈ r.days, L.day today

/-- **A request** is answered alike by a restarted server. -/
theorem serve_agrees {rt : ServerRuntime} {config : ServerConfig} {snapshot : Snapshot} {L : Reads}
    (s s' : Server) (r : Request) (hr : Within L r) (h : Agrees rt config snapshot L s s') :
    Keeps rt config snapshot L (serve rt config snapshot s r) (serve rt config snapshot s' r) := by
  obtain ⟨hclock, hday⟩ := hr
  cases r with
  | authChallenge wallet random now => exact keeps_authChallenge h wallet random now
  | authVerify body owned random now =>
    exact keeps_authVerify h body owned random (hclock now (by simp [Request.clockReads]))
  | spend token amount now =>
    exact keeps_spend h token amount (hclock now (by simp [Request.clockReads]))
  | receipt envelope now times =>
    exact keeps_receipts h envelope times (hclock _ (by simp [Request.clockReads]))
      (hclock _ (by simp [Request.clockReads])) (hday _ (by simp [Request.days]))
  | hold token body times random =>
    exact keeps_hold h token body times random (hclock _ (by simp [Request.clockReads]))
      (hclock _ (by simp [Request.clockReads])) (hclock _ (by simp [Request.clockReads]))
  | submit token body now => exact keeps_submit h token body now
  | finalize token body times => exact keeps_finalize h token body times (hday _ (by simp [Request.days]))
  | nodeVerify token verified random now => exact keeps_nodeVerify h token verified random now
  | nodeReceipt token body times =>
    exact keeps_nodeReceipts h token body times (hclock _ (by simp [Request.clockReads]))
      (hday _ (by simp [Request.days]))
  | auditChallenge token wallet chunkHash random now =>
    exact keeps_auditChallenge h token wallet chunkHash random now

end Ddns.Coordinator
