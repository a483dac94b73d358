import Ddns.Coordinator.Pools

/-!
# Refused finalizations

A finalization that is refused is meant to change nothing. The handler settles the hold before it
looks at the cap on bonuses, and a refusal there does not undo the settlement: the amount is back
with the wallet, the hold has its new status and site, and a window of an earlier day is emptied.
`finalizeKeeps_iff` says that no other refusal changes anything.
-/

namespace Ddns.Coordinator

open Comments (CommentHold Finalizes textOf ticketOf)

/-- Nothing that a finalization writes has changed. -/
structure Kept (s s' : Server) : Prop where
  credits : s'.credits.credits = s.credits.credits
  holds : s'.comments.holds = s.comments.holds
  pools : s'.sitePools = s.sitePools
  treasury : s'.treasuryBalance = s.treasuryBalance
  windows : s'.bonusWindows = s.bonusWindows

/-- **The atomicity of a finalization**: one that is refused changes nothing. -/
def FinalizeKeeps (config : ServerConfig) (s : Server) (token : Option JsText) (body : FinalizeBody)
    (times : LoggedTimes) : Prop :=
  ∀ error, (postFinalize config s token body times).2 = .refused error →
    Kept s (postFinalize config s token body times).1

/-- What a window has counted today. -/
def countedToday (windows : FinMap JsText Window) (key today : JsText) : JsNum :=
  match windows.get key with
  | some window => if window.date = today then window.credited else .fin 0
  | none => .fin 0

/-- The body approves a hold that is open, and its bonus does not fit under the cap of the day. -/
structure OverBonusCap (config : ServerConfig) (s : Server) (token : Option JsText)
    (body : FinalizeBody) (times : LoggedTimes) (hold : CommentHold) : Prop where
  authorized : authorized config token = true
  ticket : textOf body.ticketId ≠ []
  found : s.comments.holds.get (textOf body.ticketId) = some hold
  unexpired : hold.expiresAt.lt (.fin times.now) = false
  approved : body.result = some approvedText
  bonus : (JsNum.fin 0).lt (bonusOf config body hold.amount) = true
  cap : config.bonusDailyCap.lt ((countedToday s.bonusWindows hold.wallet times.today).add
    (bonusOf config body hold.amount)) = true

section Steps

variable {config : ServerConfig} {s : Server} {token : Option JsText} {body : FinalizeBody}
  {times : LoggedTimes} {hold : CommentHold}

/-- When a cap refuses. -/
theorem applyCap_snd (windows : FinMap JsText Window) (key : JsText) (delta cap : JsNum)
    (today : JsText) : (applyCap windows key delta cap today).2 =
      !cap.lt ((countedToday windows key today).add delta) := by
  have hcounted : (let entry := (windows.get key).getD ⟨today, .fin 0⟩
      if entry.date ≠ today then (⟨today, .fin 0⟩ : Window) else entry).credited =
        countedToday windows key today := by
    unfold countedToday
    cases windows.get key with
    | none => simp
    | some window => by_cases hdate : window.date = today <;> simp [hdate]
  simp only [applyCap]
  simp only at hcounted
  rw [hcounted]
  split
  · next h => rw [h]; rfl
  · next h => rw [Bool.eq_false_of_not_eq_true h]; rfl

/-- The refusals of the cap, by what is there before the call. -/
theorem bonusRefused_iff : BonusRefused config s token body times hold ↔
    OverBonusCap config s token body times hold := by
  have hcap : (applyBonusCap config s hold.wallet (bonusOf config body hold.amount) times.today).2 =
      !config.bonusDailyCap.lt ((countedToday s.bonusWindows hold.wallet times.today).add
        (bonusOf config body hold.amount)) := applyCap_snd ..
  constructor
  · intro h
    have hover := h.cap
    rw [hcap, Bool.not_eq_false'] at hover
    exact ⟨h.authorized, h.finalizes.ticket, h.finalizes.found, h.finalizes.unexpired, h.approved,
      h.bonus, hover⟩
  · intro h
    refine ⟨h.authorized, ⟨h.ticket, h.found, h.unexpired, ?_⟩, h.approved, h.bonus, ?_⟩
    · rw [h.approved]
      rfl
    · rw [hcap, h.cap]
      rfl

theorem postFinalize_overBonusCap (h : OverBonusCap config s token body times hold) :
    (postFinalize config s token body times).2 = .refused .bonusCapExceeded := by
  have hrefused := bonusRefused_iff.2 h
  have heffect := postFinalize_effect config s token body times
  generalize postFinalize config s token body times = result at heffect
  cases heffect with
  | refused hno => exact absurd ⟨hrefused.authorized, hrefused.finalizes⟩ (hno hold .approved)
  | overCap => rfl
  | accepted hsettles =>
    have hsame := Comments.Finalizes.hold_eq hrefused.finalizes hsettles.finalizes
    exact absurd (hsame ▸ hrefused) hsettles.bonus

/-- A bonus above 0 is on an amount above 0. -/
theorem amount_pos_of_bonus {amount : ℚ} (h : (JsNum.fin 0).lt (bonusOf config body amount) = true) :
    0 < amount := by
  unfold bonusOf at h
  simp only at h
  split at h
  · next hmult =>
    cases hm : bonusMultiplier config body with
    | fin m =>
      rw [hm] at h hmult
      have hone : 1 < m := of_decide_eq_true hmult
      have hpos : 0 < amount * (m + -1) := of_decide_eq_true h
      exact pos_of_mul_pos_left hpos (by linarith)
    | posInf =>
      rw [hm] at h
      have hinf : (JsNum.fin 0).lt (JsNum.scaledInf amount) = true := h
      unfold JsNum.scaledInf at hinf
      split at hinf
      · next hpos => exact hpos
      · split at hinf <;> cases hinf
    | negInf =>
      rw [hm] at hmult
      cases hmult
    | nan =>
      rw [hm] at hmult
      cases hmult
  · exact absurd h (by decide)

end Steps

/-- **Exactly when a refused finalization changes nothing.** Only the cap on bonuses refuses a
finalization that is settled already. -/
theorem finalizeKeeps_iff (config : ServerConfig) (s : Server) (token : Option JsText)
    (body : FinalizeBody) (times : LoggedTimes) :
    FinalizeKeeps config s token body times ↔
      ∀ hold, ¬OverBonusCap config s token body times hold := by
  have heffect := postFinalize_effect config s token body times
  unfold FinalizeKeeps
  generalize hresult : postFinalize config s token body times = result at heffect
  cases heffect with
  | refused hno =>
    refine iff_of_true (fun _ _ => ⟨rfl, rfl, rfl, rfl, rfl⟩) fun hold hover => ?_
    have hrefused := bonusRefused_iff.2 hover
    exact hno hold _ ⟨hrefused.authorized, hrefused.finalizes⟩
  | @overCap s' hold hover hbalance hholds hpools htreasury =>
    refine iff_of_false (fun hkept => ?_) fun hno => hno hold (bonusRefused_iff.1 hover)
    -- The amount is back with the wallet.
    have hback := hbalance hold.wallet
    have hsame : s'.balance hold.wallet = s.balance hold.wallet := by
      unfold Server.balance getBalance
      rw [(hkept .bonusCapExceeded rfl).credits]
    rw [hsame, moveTo_self] at hback
    have hpos := amount_pos_of_bonus hover.bonus
    linarith
  | @accepted s' hold status result h hresult hbalance hholds hpools htreasury =>
    refine iff_of_true (fun error herror => nomatch herror) fun hold' hover => ?_
    have hrefused := bonusRefused_iff.2 hover
    have hsame := Comments.Finalizes.hold_eq hrefused.finalizes h.finalizes
    exact h.bonus (hsame ▸ hrefused)

/-! ## A bonus above the cap -/

/-- The author has held 20 credits for a comment. -/
def exampleHeldServer : Server :=
  { examplePoolServer with
    comments :=
      { examplePoolServer.comments with
        holds := FinMap.empty.set (ticketOf Comments.exampleRandom)
          { exampleCommentHold with amount := 20 } } }

/-- The comment is approved with the bonus multiplier 3. -/
def exampleApproval : FinalizeBody where
  ticketId := some (ticketOf Comments.exampleRandom)
  result := some approvedText
  siteId := none
  bonusMultiplier := some (.fin 3)

/-- The bonus of 40 is above the cap, and the 20 credits are paid back nevertheless. -/
theorem exampleApproval_not_keeps : ¬FinalizeKeeps examplePoolConfig exampleHeldServer
    exampleSiteToken exampleApproval ⟨⟨2, exampleToday⟩, 2⟩ := by
  intro h
  have hover : OverBonusCap examplePoolConfig exampleHeldServer exampleSiteToken exampleApproval
      ⟨⟨2, exampleToday⟩, 2⟩ { exampleCommentHold with amount := 20 } :=
    ⟨by decide +kernel, by decide +kernel, by decide +kernel, by decide +kernel, rfl,
      by decide +kernel, by decide +kernel⟩
  have hkept := h .bonusCapExceeded (postFinalize_overBonusCap hover)
  exact absurd (congrArg (fun credits => credits.get exampleAuthor) hkept.credits)
    (by decide +kernel)

end Ddns.Coordinator
