import Ddns.Coordinator.CommentLaw
import Ddns.Coordinator.Server

/-!
# What the handlers do

The handlers move credits between wallets, holds, the pools of the sites and the treasury. One
lemma for each handler says which of them it moves and which it leaves alone. A finalization is
refused and moves nothing, is settled but refused by the bonus cap, or is accepted.
-/

namespace Ddns.Coordinator

open Comments (CommentHold HoldPayload HoldStatus HoldTimes Finalized Finalizes amountOf createHold
  textOf ticketOf)

/-- What a move of credits adds to the wallet or site `w`. -/
def moveTo (w : JsText) (move : JsText × ℚ) : ℚ := if w = move.1 then move.2 else 0

@[simp] theorem moveTo_self (w : JsText) (q : ℚ) : moveTo w (w, q) = q := if_pos rfl

@[simp] theorem moveTo_zero (w w' : JsText) : moveTo w (w', 0) = 0 := ite_self 0

theorem moveTo_add (w w' : JsText) (q q' : ℚ) :
    moveTo w (w', q) + moveTo w (w', q') = moveTo w (w', q + q') := by
  unfold moveTo
  split
  · rfl
  · exact add_zero 0

/-- What a pool pays of a bonus. -/
def payable (pool : ℚ) : JsNum → ℚ
  | .fin bonus => if 0 < bonus ∧ bonus ≤ pool then bonus else 0
  | _ => 0

section Values

variable (config : ServerConfig) (s : Server)

/-- The bonus that an accepted finalization of `hold` pays. -/
def bonusPaid (body : FinalizeBody) (hold : CommentHold) : ℚ :=
  if body.result = some approvedText then
    payable (s.pool hold.siteId) (bonusOf config body hold.amount)
  else 0

/-- The amount that an accepted finalization of `hold` shares out. -/
def forfeitShared (body : FinalizeBody) (hold : CommentHold) : ℚ :=
  if body.result = some spamText ∨ body.result = some trashText then hold.amount else 0

/-- A finalization of `hold` gets to the bonus cap and is refused there. -/
structure BonusRefused (token : Option JsText) (body : FinalizeBody) (times : LoggedTimes)
    (hold : CommentHold) : Prop where
  authorized : authorized config token = true
  finalizes : Finalizes ⟨s.credits, s.comments⟩ body.toFinalizePayload times.now hold .approved
  approved : body.result = some approvedText
  bonus : (JsNum.fin 0).lt (bonusOf config body hold.amount) = true
  cap : (applyBonusCap config s hold.wallet (bonusOf config body hold.amount) times.today).2 = false

/-- A finalization of `hold` is accepted. -/
structure Settles (token : Option JsText) (body : FinalizeBody) (times : LoggedTimes)
    (hold : CommentHold) (status : HoldStatus) : Prop where
  authorized : authorized config token = true
  finalizes : Finalizes ⟨s.credits, s.comments⟩ body.toFinalizePayload times.now hold status
  bonus : ¬BonusRefused config s token body times hold

/-- What a settled hold becomes. -/
def settledHold (body : FinalizeBody) (hold : CommentHold) (status : HoldStatus) : CommentHold :=
  renameSite body { hold with status }

/-- The amount that goes back to the wallet. -/
def refunded (hold : CommentHold) (status : HoldStatus) : ℚ :=
  if status = .approved then hold.amount else 0

/-- What a finalization does to the credits, the holds, the pools and the treasury. -/
inductive FinalizeEffect (token : Option JsText) (body : FinalizeBody) (times : LoggedTimes) :
    Server × ServerAnswer → Prop
  | refused {error} (hno : ∀ hold status,
        ¬(authorized config token = true ∧
          Finalizes ⟨s.credits, s.comments⟩ body.toFinalizePayload times.now hold status)) :
      FinalizeEffect token body times (s, .refused error)
  | overCap {s' hold} (h : BonusRefused config s token body times hold)
      (hbalance : ∀ w, s'.balance w = s.balance w + moveTo w (hold.wallet, hold.amount))
      (hholds : s'.comments.holds =
        s.comments.holds.set (textOf body.ticketId) (settledHold body hold .approved))
      (hpools : s'.sitePools = s.sitePools) (htreasury : s'.treasuryBalance = s.treasuryBalance) :
      FinalizeEffect token body times (s', .refused .bonusCapExceeded)
  | accepted {s' hold status result} (h : Settles config s token body times hold status)
      (hresult : result.wallet = hold.wallet ∧ result.hold = settledHold body hold status)
      (hbalance : ∀ w, s'.balance w = s.balance w + moveTo w (hold.wallet,
        refunded hold status + bonusPaid config s body (settledHold body hold status)))
      (hholds : s'.comments.holds =
        s.comments.holds.set (textOf body.ticketId) (settledHold body hold status))
      (hpools : ∀ site, s'.pool site = s.pool site +
        moveTo site ((settledHold body hold status).siteId,
          forfeitShared body hold * forfeitSplit config -
            bonusPaid config s body (settledHold body hold status)))
      (htreasury : s'.treasuryBalance = s.treasuryBalance +
        (forfeitShared body hold - forfeitShared body hold * forfeitSplit config)) :
      FinalizeEffect token body times (s', .finalized result)

end Values

section Effects

variable {rt : ServerRuntime} {config : ServerConfig} {s : Server} {token : Option JsText} {body : FinalizeBody}
  {times : LoggedTimes}

/-! ## Balances and pools -/

@[simp] theorem balance_saveState (w : JsText) : (saveState s).balance w = s.balance w := rfl

@[simp] theorem pool_saveState (site : JsText) : (saveState s).pool site = s.pool site := rfl

@[simp] theorem balance_applyBonusCap (wallet : JsText) (delta : JsNum) (today w : JsText) :
    (applyBonusCap config s wallet delta today).1.balance w = s.balance w := rfl

@[simp] theorem balance_logReceipt (siteId : JsText) (entry : SiteReceipt) (w : JsText) :
    (logReceipt s siteId entry).balance w = s.balance w := rfl

@[simp] theorem pool_logReceipt (siteId : JsText) (entry : SiteReceipt) (site : JsText) :
    (logReceipt s siteId entry).pool site = s.pool site := rfl

@[simp] theorem balance_forfeit (hold : CommentHold) (w : JsText) :
    (forfeit config s hold).balance w = s.balance w := rfl

theorem pool_set {s' : Server} {site : JsText} {q : ℚ}
    (h : s'.sitePools = s.sitePools.set site (s.pool site + q)) (site' : JsText) :
    s'.pool site' = s.pool site' + moveTo site' (site, q) := by
  unfold Server.pool moveTo
  rw [h, FinMap.get_set]
  by_cases hs : site' = site
  · rw [if_pos hs, if_pos hs, hs]
    rfl
  · rw [if_neg hs, if_neg hs, add_zero]

theorem renameSite_amount (body : FinalizeBody) (hold : CommentHold) :
    (renameSite body hold).amount = hold.amount ∧ (renameSite body hold).wallet = hold.wallet ∧
      (renameSite body hold).status = hold.status := by
  unfold renameSite
  split <;> exact ⟨rfl, rfl, rfl⟩

@[simp] theorem settledHold_amount (hold : CommentHold) (status : HoldStatus) :
    (settledHold body hold status).amount = hold.amount := (renameSite_amount body _).1

@[simp] theorem settledHold_wallet (hold : CommentHold) (status : HoldStatus) :
    (settledHold body hold status).wallet = hold.wallet := (renameSite_amount body _).2.1

@[simp] theorem settledHold_status (hold : CommentHold) (status : HoldStatus) :
    (settledHold body hold status).status = status := (renameSite_amount body _).2.2

/-- A forfeited amount goes to the pool and the treasury. -/
theorem forfeit_shared (config : ServerConfig) (s : Server) (hold : CommentHold) :
    (∀ site, (forfeit config s hold).pool site =
      s.pool site + moveTo site (hold.siteId, hold.amount * forfeitSplit config)) ∧
    (forfeit config s hold).treasuryBalance =
      s.treasuryBalance + (hold.amount - hold.amount * forfeitSplit config) :=
  ⟨pool_set rfl, rfl⟩

theorem getBalance_set (state : CreditsState) (wallet : JsText) (amount : ℚ) (w : JsText) :
    getBalance { state with credits := state.credits.set wallet amount } w =
      if w = wallet then amount else getBalance state w := by
  by_cases h : w = wallet
  · simp [getBalance, h]
  · simp [getBalance, FinMap.get_set_ne, h]

/-- Writing a balance moves what it adds. -/
theorem balance_set {s' : Server} {wallet : JsText} {q : ℚ}
    (h : s'.credits.credits = s.credits.credits.set wallet (s.balance wallet + q)) (w : JsText) :
    s'.balance w = s.balance w + moveTo w (wallet, q) := by
  unfold Server.balance moveTo getBalance
  rw [h, FinMap.get_set]
  by_cases hw : w = wallet
  · rw [if_pos hw, if_pos hw, hw]
    rfl
  · rw [if_neg hw, if_neg hw, add_zero]

/-- A finalization is about one hold. -/
theorem Comments.Finalizes.hold_eq {st : Comments.State} {payload : Comments.FinalizePayload}
    {now : ℚ} {hold hold' : CommentHold} {status status' : HoldStatus}
    (h : Finalizes st payload now hold status) (h' : Finalizes st payload now hold' status') :
    hold = hold' :=
  Option.some.inj (h.found.symm.trans h'.found)

/-! ## Spending and holding -/

/-- The finite part of a number. -/
def finiteOr0 : JsNum → ℚ
  | .fin q => q
  | _ => 0

/-- An accepted spend takes its amount from the wallet of the session. -/
theorem postSpend_effect (s : Server) (token : Option JsText) (amount : Option JsNum) (now : ℚ) :
    (∃ error, postSpend s token amount now = (s, .refused error)) ∨
      ∃ s' wallet balance, postSpend s token amount now = (s', .balance wallet balance) ∧
        (∀ w, s'.balance w = s.balance w + moveTo w (wallet, -finiteOr0 (amountOf amount))) ∧
        s'.comments = s.comments ∧ s'.sitePools = s.sitePools ∧
        s'.treasuryBalance = s.treasuryBalance := by
  unfold postSpend
  split
  · exact .inl ⟨_, rfl⟩
  · next session hsession =>
    split
    · exact .inl ⟨_, rfl⟩
    · simp only
      split
      · exact .inl ⟨_, rfl⟩
      · unfold spendCredits
        cases hamount : amountOf amount with
        | fin q =>
          simp only
          by_cases hlt : s.balance session.nodeId < q
          · rw [if_pos hlt]
            exact .inl ⟨_, rfl⟩
          · rw [if_neg hlt]
            refine .inr ⟨_, _, _, rfl, balance_set ?_, rfl, rfl, rfl⟩
            rw [← sub_eq_add_neg]
            rfl
        | _ => exact .inl ⟨_, rfl⟩

/-- A new hold takes its amount from the wallet. -/
theorem createHold_effect (config : Comments.CommentConfig) (st : Comments.State)
    (payload : HoldPayload) (times : HoldTimes) (random : JsText) :
    (∃ st' error, createHold config st payload times random = (st', .error error) ∧
      st'.credits = st.credits ∧ st'.comments.holds = st.comments.holds) ∨
    ∃ st' expiresAt hold, createHold config st payload times random =
        (st', .ok (ticketOf random, expiresAt)) ∧
      hold.wallet = textOf payload.wallet ∧ amountOf payload.amount = .fin hold.amount ∧
      0 < hold.amount ∧ hold.status = .held ∧
      st'.credits.credits = st.credits.credits.set hold.wallet
        (getBalance st.credits hold.wallet - hold.amount) ∧
      st'.comments.holds = st.comments.holds.set (ticketOf random) hold := by
  unfold createHold
  simp only
  split
  · exact .inl ⟨_, _, rfl, rfl, rfl⟩
  · next hvalid =>
    split
    · exact .inl ⟨_, _, rfl, rfl, rfl⟩
    · split
      · exact .inl ⟨_, _, rfl, rfl, rfl⟩
      · split
        · exact .inl ⟨_, _, rfl, rfl, rfl⟩
        · split
          · next amount hamount =>
            split
            · exact .inl ⟨_, _, rfl, rfl, rfl⟩
            · rw [Bool.not_eq_true, Bool.or_eq_false_iff, hamount] at hvalid
              have hpos : 0 < amount := not_le.1 (by simpa [JsNum.le] using hvalid.2)
              exact .inr ⟨_, _, ⟨_, _, _, _, amount, .held, _, _, none⟩, rfl, rfl, hamount, hpos,
                rfl, rfl, rfl⟩
          · exact .inl ⟨_, _, rfl, rfl, rfl⟩

/-- What a call of `POST /comments/hold` does to the credits and the holds. -/
inductive HoldEffect (s : Server) (body : HoldPayload) (random : JsText) :
    Server × ServerAnswer → Prop
  | refused {s' error} (hbalance : ∀ w, s'.balance w = s.balance w)
      (hholds : s'.comments.holds = s.comments.holds) (hpools : s'.sitePools = s.sitePools)
      (htreasury : s'.treasuryBalance = s.treasuryBalance) :
      HoldEffect s body random (s', .refused error)
  | created {s' expiresAt hold} (hwallet : hold.wallet = textOf body.wallet)
      (hamount : amountOf body.amount = .fin hold.amount) (hpos : 0 < hold.amount)
      (hstatus : hold.status = .held)
      (hbalance : ∀ w, s'.balance w = s.balance w + moveTo w (hold.wallet, -hold.amount))
      (hholds : s'.comments.holds = s.comments.holds.set (ticketOf random) hold)
      (hpools : s'.sitePools = s.sitePools) (htreasury : s'.treasuryBalance = s.treasuryBalance) :
      HoldEffect s body random (s', .held (ticketOf random) expiresAt)

theorem postHold_effect (rt : ServerRuntime) (config : ServerConfig) (s : Server)
    (token : Option JsText) (body : HoldPayload) (times : HoldTimes) (random : JsText) :
    HoldEffect s body random (postHold rt config s token body times random) := by
  unfold postHold
  split
  · exact .refused (fun _ => rfl) rfl rfl rfl
  · split
    · exact .refused (fun _ => rfl) rfl rfl rfl
    · rcases createHold_effect config.comments ⟨s.credits, s.comments⟩ body times random with
        ⟨st', error, heq, hcredits, hholds⟩ |
          ⟨st', expiresAt, hold, heq, hwallet, hamount, hpos, hstatus, hcredits, hholds⟩
      · rw [heq]
        refine .refused (fun w => ?_) hholds rfl rfl
        unfold Server.balance Server.withComments
        rw [hcredits]
      · rw [heq]
        refine .created hwallet hamount hpos hstatus (balance_set ?_) hholds rfl rfl
        rw [← sub_eq_add_neg]
        exact hcredits

/-! ## The bonus -/

/-- A bonus that the cap refuses leaves only its windows behind. -/
theorem payBonus_over {result : Finalized} {today : JsText}
    (hbonus : (JsNum.fin 0).lt (bonusOf config body result.hold.amount) = true)
    (hcap : (applyBonusCap config s result.wallet (bonusOf config body result.hold.amount)
      today).2 = false) :
    payBonus config s body result today =
      ((applyBonusCap config s result.wallet (bonusOf config body result.hold.amount) today).1,
        false) := by
  unfold payBonus
  simp only [hbonus, if_true]
  split
  · next s' h => rw [h]
  · next s' h => simp [h] at hcap

/-- A bonus goes from the pool to the wallet, if the pool has it. -/
theorem payFromPool_effect (wallet siteId : JsText) {bonus : JsNum}
    (hbonus : (JsNum.fin 0).lt bonus = true) :
    (∀ w, (payFromPool s wallet siteId bonus).balance w =
      s.balance w + moveTo w (wallet, payable (s.pool siteId) bonus)) ∧
    (∀ site, (payFromPool s wallet siteId bonus).pool site =
      s.pool site + moveTo site (siteId, -payable (s.pool siteId) bonus)) ∧
    (payFromPool s wallet siteId bonus).comments = s.comments ∧
    (payFromPool s wallet siteId bonus).treasuryBalance = s.treasuryBalance := by
  cases bonus with
  | fin q =>
    have hpos : 0 < q := by simpa [JsNum.lt] using hbonus
    by_cases hle : q ≤ s.pool siteId
    · have hpay : payable (s.pool siteId) (.fin q) = q := if_pos ⟨hpos, hle⟩
      rw [hpay]
      simp only [payFromPool, if_pos hle]
      refine ⟨fun w => getBalance_credit _ _ _ w, pool_set ?_, True.intro, True.intro⟩
      rw [← sub_eq_add_neg]
    · have hpay : payable (s.pool siteId) (.fin q) = 0 := if_neg fun h => hle h.2
      rw [hpay]
      simp only [payFromPool, if_neg hle]
      simp
  | _ => simp [payFromPool, payable]

/-- Any other bonus is paid from the pool to the wallet, if the pool has it. -/
theorem payBonus_within {result : Finalized} {today : JsText}
    (hcap : (JsNum.fin 0).lt (bonusOf config body result.hold.amount) = true →
      (applyBonusCap config s result.wallet (bonusOf config body result.hold.amount)
        today).2 = true) :
    ∃ s', payBonus config s body result today = (s', true) ∧
      (∀ w, s'.balance w = s.balance w + moveTo w (result.wallet,
        payable (s.pool result.hold.siteId) (bonusOf config body result.hold.amount))) ∧
      (∀ site, s'.pool site = s.pool site + moveTo site (result.hold.siteId,
        -payable (s.pool result.hold.siteId) (bonusOf config body result.hold.amount))) ∧
      s'.comments = s.comments ∧ s'.treasuryBalance = s.treasuryBalance := by
  unfold payBonus
  by_cases hbonus : (JsNum.fin 0).lt (bonusOf config body result.hold.amount) = true
  · simp only [hbonus, if_true]
    split
    · next s' h => simp [h] at hcap; exact absurd hbonus (by simp [hcap])
    · next s' h =>
      obtain rfl : s' = (applyBonusCap config s result.wallet
        (bonusOf config body result.hold.amount) today).1 := by rw [h]
      exact ⟨_, rfl, payFromPool_effect result.wallet result.hold.siteId hbonus⟩
  · have hnone : payable (s.pool result.hold.siteId) (bonusOf config body result.hold.amount) = 0 := by
      cases hb : bonusOf config body result.hold.amount with
      | fin q =>
        rw [hb] at hbonus
        exact if_neg fun h => hbonus (by simpa [JsNum.lt] using h.1)
      | _ => rfl
    rw [hnone]
    simp only [hbonus, Bool.false_eq_true, if_false]
    exact ⟨s, rfl, by simp⟩

/-! ## The finalization -/

theorem status_of_approvedText {hold : CommentHold} {status : HoldStatus}
    (hf : Finalizes ⟨s.credits, s.comments⟩ body.toFinalizePayload times.now hold status)
    (hbody : body.result = some approvedText) : status = .approved := by
  have hresult := hf.result
  rw [hbody] at hresult
  exact (Option.some.inj hresult).symm

/-- The server after `finalizeHold`, with the site that the body names. -/
def finalizedServer (s : Server) (body : FinalizeBody) (hold : CommentHold)
    (status : HoldStatus) : Server :=
  s.withComments
    ⟨if status = .approved then credit s.credits hold.wallet hold.amount else s.credits,
      { s.comments with
        holds := (s.comments.holds.set (textOf body.ticketId) { hold with status }).set
          (textOf body.ticketId) (settledHold body hold status) }⟩

theorem finalizedServer_balance (body : FinalizeBody) (hold : CommentHold) (status : HoldStatus)
    (w : JsText) :
    (finalizedServer s body hold status).balance w =
      s.balance w + moveTo w (hold.wallet, refunded hold status) := by
  unfold finalizedServer refunded
  by_cases hs : status = .approved
  · rw [if_pos hs, if_pos hs]
    exact getBalance_credit s.credits hold.wallet hold.amount w
  · rw [if_neg hs, if_neg hs, moveTo_zero, add_zero]
    rfl

theorem finalizedServer_holds (hold : CommentHold) (status : HoldStatus) :
    (finalizedServer s body hold status).comments.holds =
      s.comments.holds.set (textOf body.ticketId) (settledHold body hold status) :=
  FinMap.set_set _ _ _ _

/-- A finalization that passes the checks goes on from `finalizedServer`. -/
theorem postFinalize_finalizes {hold : CommentHold} {status : HoldStatus}
    (hauth : authorized config token = true)
    (hf : Finalizes ⟨s.credits, s.comments⟩ body.toFinalizePayload times.now hold status) :
    ∃ result : Finalized, result.wallet = hold.wallet ∧
      result.hold = settledHold body hold status ∧
      postFinalize config s token body times =
        match if body.result = some approvedText then
            payBonus config (finalizedServer s body hold status) body result times.today
          else (finalizedServer s body hold status, true) with
        | (s, false) => (s, .refused .bonusCapExceeded)
        | (s, true) =>
          (saveState (logReceipt (if body.result = some spamText ∨ body.result = some trashText
            then forfeit config s result.hold else s) result.hold.siteId
              (.commentFinalized times.logged result.hold.ticketId body.result result.hold.amount
                result.hold.wallet)), .finalized result) := by
  unfold postFinalize
  rw [if_neg (by simp [hauth]), Comments.finalizeHold_ok hf]
  exact ⟨_, rfl, rfl, rfl⟩

/-- A finalization that the bonus cap does not refuse pays its bonus. -/
theorem payBonus_settles {hold : CommentHold} {status : HoldStatus} {result : Finalized}
    (h : Settles config s token body times hold status) (hwallet : result.wallet = hold.wallet)
    (hhold : result.hold = settledHold body hold status) :
    ∃ s', (if body.result = some approvedText then
          payBonus config (finalizedServer s body hold status) body result times.today
        else (finalizedServer s body hold status, true)) = (s', true) ∧
      (∀ w, s'.balance w = s.balance w + moveTo w (hold.wallet,
        refunded hold status + bonusPaid config s body (settledHold body hold status))) ∧
      (∀ site, s'.pool site = s.pool site + moveTo site ((settledHold body hold status).siteId,
        -bonusPaid config s body (settledHold body hold status))) ∧
      s'.comments = (finalizedServer s body hold status).comments ∧
      s'.treasuryBalance = s.treasuryBalance := by
  unfold bonusPaid
  by_cases hbody : body.result = some approvedText
  · have hstatus := status_of_approvedText h.finalizes hbody
    have hcap : (JsNum.fin 0).lt (bonusOf config body result.hold.amount) = true →
        (applyBonusCap config (finalizedServer s body hold status) result.wallet
          (bonusOf config body result.hold.amount) times.today).2 = true := by
      intro hbonus
      rw [hhold, settledHold_amount] at hbonus ⊢
      rw [hwallet]
      by_contra hcap
      refine h.bonus ⟨h.authorized, hstatus ▸ h.finalizes, hbody, hbonus, ?_⟩
      exact Bool.eq_false_iff.2 hcap
    obtain ⟨s', hs', hbalance, hpool, hcomments, htreasury⟩ := payBonus_within hcap
    rw [if_pos hbody, if_pos hbody]
    refine ⟨s', hs', fun w => ?_, fun site => ?_, hcomments, htreasury⟩
    · rw [hbalance, finalizedServer_balance, hwallet, hhold, add_assoc, moveTo_add]
      rfl
    · rw [hpool, hhold]
      rfl
  · rw [if_neg hbody, if_neg hbody]
    refine ⟨_, rfl, fun w => ?_, fun site => ?_, rfl, rfl⟩
    · rw [add_zero]
      exact finalizedServer_balance body hold status w
    · rw [neg_zero, moveTo_zero, add_zero]
      rfl

/-- **What a finalization does.** -/
theorem postFinalize_effect (config : ServerConfig) (s : Server) (token : Option JsText)
    (body : FinalizeBody) (times : LoggedTimes) :
    FinalizeEffect config s token body times (postFinalize config s token body times) := by
  by_cases h : ∃ hold status, authorized config token = true ∧
      Finalizes ⟨s.credits, s.comments⟩ body.toFinalizePayload times.now hold status
  · obtain ⟨hold, status, hauth, hf⟩ := h
    obtain ⟨result, hwallet, hhold, heq⟩ := postFinalize_finalizes hauth hf
    rw [heq]
    by_cases hover : BonusRefused config s token body times hold
    · have hstatus := status_of_approvedText hf hover.approved
      subst hstatus
      have hbonus : (JsNum.fin 0).lt (bonusOf config body result.hold.amount) = true := by
        rw [hhold, settledHold_amount]
        exact hover.bonus
      have hcap : (applyBonusCap config (finalizedServer s body hold .approved) result.wallet
          (bonusOf config body result.hold.amount) times.today).2 = false := by
        rw [hhold, hwallet, settledHold_amount]
        exact hover.cap
      rw [if_pos hover.approved, payBonus_over hbonus hcap]
      exact .overCap hover (finalizedServer_balance body hold .approved)
        (finalizedServer_holds hold .approved) rfl rfl
    · have hsettles : Settles config s token body times hold status := ⟨hauth, hf, hover⟩
      obtain ⟨s', hs', hbalance, hpool, hcomments, htreasury⟩ :=
        payBonus_settles hsettles hwallet hhold
      rw [hs']
      simp only
      have hholds : s'.comments.holds =
          s.comments.holds.set (textOf body.ticketId) (settledHold body hold status) := by
        rw [hcomments, finalizedServer_holds]
      by_cases hforfeit : body.result = some spamText ∨ body.result = some trashText
      · rw [if_pos hforfeit]
        obtain ⟨hshared, htreasury'⟩ := forfeit_shared config s' result.hold
        have hamount : forfeitShared body hold = result.hold.amount := by
          rw [hhold, settledHold_amount]
          exact if_pos hforfeit
        refine .accepted hsettles ⟨hwallet, hhold⟩ hbalance hholds (fun site => ?_) ?_
        · rw [pool_saveState, pool_logReceipt, hshared, hpool, hamount, hhold, add_assoc,
            moveTo_add, neg_add_eq_sub]
        · rw [hamount, ← htreasury]
          exact htreasury'
      · rw [if_neg hforfeit]
        have hamount : forfeitShared body hold = 0 := if_neg hforfeit
        refine .accepted hsettles ⟨hwallet, hhold⟩ hbalance hholds (fun site => ?_) ?_
        · rw [pool_saveState, pool_logReceipt, hpool, hamount, zero_mul, zero_sub]
        · rw [hamount, zero_mul, sub_zero, add_zero]
          exact htreasury
  · have hno : ∀ hold status, ¬(authorized config token = true ∧
        Finalizes ⟨s.credits, s.comments⟩ body.toFinalizePayload times.now hold status) :=
      fun hold status hf => h ⟨hold, status, hf⟩
    suffices hsame : ∃ error, postFinalize config s token body times = (s, .refused error) by
      obtain ⟨error, heq⟩ := hsame
      rw [heq]
      exact .refused hno
    unfold postFinalize
    by_cases hauth : authorized config token = true
    · obtain ⟨error, heq⟩ := Comments.finalizeHold_error
        (s := ⟨s.credits, s.comments⟩) fun hold status hf => hno hold status ⟨hauth, hf⟩
      rw [if_neg (by simp [hauth]), heq]
      exact ⟨_, rfl⟩
    · rw [if_pos (by simpa using hauth)]
      exact ⟨_, rfl⟩

end Effects

end Ddns.Coordinator
