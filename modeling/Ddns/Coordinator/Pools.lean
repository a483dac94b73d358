import Ddns.Coordinator.Interleaving

/-!
# The pool ledger

Wallets, unsettled holds, the pools of the sites and the treasury are meant to hold together what
they held at the start, and one credit for each distinct node receipt. The code does not look at
the status of a hold before it settles it, shares a forfeited hold out to a site that the caller
names and only if the result comes without white space, and keeps no record of the node receipts it
has counted. `poolLaw_iff` says that the law holds exactly in the runs without these calls.
-/

namespace Ddns.Coordinator

open Runs
open Comments (CommentHold HoldPayload HoldStatus HoldTimes Finalized Finalizes amountOf textOf
  ticketOf)

inductive PoolCall where
  | finalize (token : Option JsText) (body : FinalizeBody) (times : LoggedTimes)
  | hold (token : Option JsText) (body : HoldPayload) (times : HoldTimes) (random : JsText)
  | nodeReceipt (token : Option JsText) (body : NodeReceiptBody) (snapshot : Snapshot)
      (times : LoggedTimes)

def poolStep (rt : ServerRuntime) (config : ServerConfig) (s : Server) :
    PoolCall → Server × ServerAnswer
  | .finalize token body times => postFinalize config s token body times
  | .hold token body times random => postHold rt config s token body times random
  | .nodeReceipt token body snapshot times => postNodeReceipts rt config s token body snapshot times

/-- A step of the ledger. -/
abbrev PoolEvent := Event Server PoolCall ServerAnswer

/-- A hold that waits for its result. -/
def Unsettled (hold : CommentHold) : Prop := hold.status = .held ∨ hold.status = .submitted

instance (hold : CommentHold) : Decidable (Unsettled hold) := inferInstanceAs (Decidable (_ ∨ _))

/-- What a hold keeps until it is settled. -/
def due (hold : CommentHold) : ℚ := if Unsettled hold then hold.amount else 0

/-- The amounts of the unsettled holds. -/
def Server.held (s : Server) : ℚ := s.comments.holds.total fun _ hold => due hold

/-- **The total of the ledger.** -/
def Server.total (s : Server) : ℚ :=
  s.credits.credits.total (fun _ credits => credits) + s.held +
    s.sitePools.total (fun _ credits => credits) + s.treasuryBalance

section Law

variable (rt : ServerRuntime) (config : ServerConfig)

/-- The hold that a step finalizes, as it was before, and the result. -/
def finalizedHold (e : PoolEvent) : Option (CommentHold × HoldStatus) :=
  match e.input, e.out with
  | .finalize _ body _, .finalized result =>
    (e.pre.comments.holds.get (textOf body.ticketId)).map (·, result.hold.status)
  | _, _ => none

/-- The message of the node receipt that a step submits. -/
def submittedMessage (e : PoolEvent) : Option JsText :=
  match e.input with
  | .nodeReceipt _ body _ _ => body.receipt.map (nodeReceiptMessage rt)
  | _ => none

/-- The message of the node receipt that a step accepts. -/
def acceptedMessage (e : PoolEvent) : Option JsText :=
  match e.out with
  | .pool _ => submittedMessage rt e
  | _ => none

/-- The messages of the node receipts that the steps accept. -/
def messages (l : List PoolEvent) : List JsText := l.filterMap (acceptedMessage rt)

/-- **The pool law** of a run. The total grows by one for each distinct accepted node receipt; a
forfeited hold gives what it still keeps to the pool of its site and the treasury; an approved one
gives it to the wallet, with a bonus that some pool pays; and a node receipt that was accepted
before adds nothing. -/
structure PoolLaw (start : Server) (calls : List PoolCall) : Prop where
  total : ∀ pre post, calls = pre ++ post → (exec (poolStep rt config) start pre).total =
    start.total + (messages rt (trace (poolStep rt config) start pre)).toFinset.card
  forfeited : ∀ e ∈ trace (poolStep rt config) start calls, ∀ hold status,
    finalizedHold e = some (hold, status) → status ≠ .approved →
    (∀ site, e.post.pool site =
      e.pre.pool site + moveTo site (hold.siteId, due hold * forfeitSplit config)) ∧
    e.post.treasuryBalance =
      e.pre.treasuryBalance + (due hold - due hold * forfeitSplit config)
  approved : ∀ e ∈ trace (poolStep rt config) start calls, ∀ hold,
    finalizedHold e = some (hold, .approved) → ∃ site bonus, 0 ≤ bonus ∧
    (∀ w, e.post.balance w = e.pre.balance w + moveTo w (hold.wallet, due hold + bonus)) ∧
    (∀ site', e.post.pool site' = e.pre.pool site' + moveTo site' (site, -bonus))
  repeated : ∀ l₁ e l₂, trace (poolStep rt config) start calls = l₁ ++ e :: l₂ →
    ∀ m ∈ submittedMessage rt e, m ∈ messages rt l₁ → e.post.total = e.pre.total

/-- The finalization moves the amount of the hold. -/
def Moves (body : FinalizeBody) (status : HoldStatus) : Prop :=
  status = .approved ∨ body.result = some spamText ∨ body.result = some trashText

instance (body : FinalizeBody) (status : HoldStatus) : Decidable (Moves body status) :=
  inferInstanceAs (Decidable (_ ∨ _))

/-- A finalization that passes the checks settles an unsettled hold with a result that moves its
amount, or moves nothing; and what it forfeits goes to the site of the hold. A node receipt that
passes the checks was not accepted before. -/
def Fair (s : Server) (seen : List JsText) : PoolCall → Prop
  | .finalize token body times => ∀ hold status, authorized config token = true →
      Finalizes ⟨s.credits, s.comments⟩ body.toFinalizePayload times.now hold status →
      (hold.amount ≠ 0 → (Unsettled hold ↔ Moves body status)) ∧
      (status ≠ .approved → due hold * forfeitSplit config ≠ 0 →
        (renameSite body hold).siteId = hold.siteId)
  | .hold .. => True
  | .nodeReceipt token body snapshot times => ∀ receipt site,
      checkNodeReceipt rt config s token body snapshot times.now = .ok (receipt, site) →
      (applyPoolCap config s site (.fin 1) times.today).2 = true →
      nodeReceiptMessage rt receipt ∉ seen

/-- The random part of a new ticket makes a ticket that is not in use. -/
def FreshTicket (s : Server) : PoolCall → Prop
  | .hold _ _ _ random => s.comments.holds.get (ticketOf random) = none
  | _ => True

end Law

/-! ## Totals -/

section Totals

variable {rt : ServerRuntime} {config : ServerConfig} {s s' : Server}

/-- What the parts of the ledger get, the total gets. -/
theorem total_of_moves {wallet site : JsText} {q p t h : ℚ}
    (hbalance : ∀ w, s'.balance w = s.balance w + moveTo w (wallet, q))
    (hheld : s'.held = s.held + h)
    (hpool : ∀ site', s'.pool site' = s.pool site' + moveTo site' (site, p))
    (htreasury : s'.treasuryBalance = s.treasuryBalance + t) :
    s'.total = s.total + (q + h + p + t) := by
  have hcredits := FinMap.total_add_at (k := wallet) (q := q) hbalance
  have hpools := FinMap.total_add_at (k := site) (q := p) hpool
  unfold Server.total
  rw [hcredits, hheld, hpools, htreasury]
  linarith

theorem total_of_same (hbalance : ∀ w, s'.balance w = s.balance w)
    (hholds : s'.comments.holds = s.comments.holds) (hpools : s'.sitePools = s.sitePools)
    (htreasury : s'.treasuryBalance = s.treasuryBalance) : s'.total = s.total := by
  have hcredits : s'.credits.credits.total (fun _ credits => credits) =
      s.credits.credits.total fun _ credits => credits := by
    refine FinMap.total_eq_of_getD _ fun w => ?_
    simp only [Option.map_id']
    exact hbalance w
  unfold Server.total Server.held
  rw [hcredits, hholds, hpools, htreasury]

/-- Settling a hold takes what it keeps from the unsettled holds. -/
theorem held_settled {ticket : JsText} {hold hold' : CommentHold}
    (hfound : s.comments.holds.get ticket = some hold) (hsettled : ¬Unsettled hold')
    (hholds : s'.comments.holds = s.comments.holds.set ticket hold') :
    s'.held = s.held + -due hold := by
  have htotal := FinMap.total_set (fun _ hold => due hold) hfound hold'
  have hzero : due hold' = 0 := if_neg hsettled
  unfold Server.held
  rw [hholds]
  linarith

theorem held_created {ticket : JsText} {hold : CommentHold}
    (hfresh : s.comments.holds.get ticket = none) (hstatus : hold.status = .held)
    (hholds : s'.comments.holds = s.comments.holds.set ticket hold) :
    s'.held = s.held + hold.amount := by
  have hdue : due hold = hold.amount := if_pos (.inl hstatus)
  unfold Server.held
  rw [hholds, FinMap.total_set_new _ hfresh, hdue]

theorem settledHold_settled (body : FinalizeBody) (hold : CommentHold) {text : JsText}
    {status : HoldStatus} (hstatus : Comments.resultStatus text = some status) :
    ¬Unsettled (settledHold body hold status) := by
  unfold Unsettled
  rw [settledHold_status]
  rcases Comments.resultStatus_eq_some hstatus with rfl | rfl | rfl <;> simp

end Totals

/-! ## One step -/

section Steps

variable {rt : ServerRuntime} {config : ServerConfig} {s : Server} {c : PoolCall}
  {seen : List JsText}

/-- What the step adds to the number of distinct accepted node receipts. -/
def minted (rt : ServerRuntime) (seen : List JsText) (e : PoolEvent) : ℚ :=
  match acceptedMessage rt e with
  | some m => if m ∈ seen then 0 else 1
  | none => 0

theorem minted_none {e : PoolEvent} (h : acceptedMessage rt e = none) : minted rt seen e = 0 := by
  rw [minted, h]

/-- The law of one step, after steps that accepted the messages `seen`. -/
structure StepLaw (rt : ServerRuntime) (config : ServerConfig) (seen : List JsText)
    (e : PoolEvent) : Prop where
  total : e.post.total = e.pre.total + minted rt seen e
  forfeited : ∀ hold status, finalizedHold e = some (hold, status) → status ≠ .approved →
    (∀ site, e.post.pool site =
      e.pre.pool site + moveTo site (hold.siteId, due hold * forfeitSplit config)) ∧
    e.post.treasuryBalance =
      e.pre.treasuryBalance + (due hold - due hold * forfeitSplit config)
  approved : ∀ hold, finalizedHold e = some (hold, .approved) → ∃ site bonus, 0 ≤ bonus ∧
    (∀ w, e.post.balance w = e.pre.balance w + moveTo w (hold.wallet, due hold + bonus)) ∧
    (∀ site', e.post.pool site' = e.pre.pool site' + moveTo site' (site, -bonus))

/-- A new hold moves its amount from the wallet to the holds. -/
theorem stepLaw_hold {token : Option JsText} {body : HoldPayload} {times : HoldTimes}
    {random : JsText} (hfresh : s.comments.holds.get (ticketOf random) = none) :
    StepLaw rt config seen (event (poolStep rt config) s (.hold token body times random)) := by
  have heffect := postHold_effect rt config s token body times random
  refine ⟨?_, nofun, nofun⟩
  have hnone : acceptedMessage rt
      (event (poolStep rt config) s (.hold token body times random)) = none := by
    unfold acceptedMessage submittedMessage
    split <;> rfl
  rw [minted_none hnone, add_zero]
  change (postHold rt config s token body times random).1.total = s.total
  cases heq : postHold rt config s token body times random with
  | mk s' answer =>
    rw [heq] at heffect
    cases heffect with
    | refused hbalance hholds hpools htreasury =>
      exact total_of_same hbalance hholds hpools htreasury
    | @created _ _ hold hwallet hamount hpos hstatus hbalance hholds hpools htreasury =>
      have hpool (site : JsText) : s'.pool site = s.pool site + moveTo site ([], 0) := by
        rw [Server.pool, hpools, moveTo_zero, add_zero]
        rfl
      have hsame : s'.treasuryBalance = s.treasuryBalance + 0 := by rw [htreasury, add_zero]
      rw [total_of_moves hbalance (held_created hfresh hstatus hholds) hpool hsame]
      linarith

/-- What a finalization moves, next to what the hold keeps. -/
def moved (body : FinalizeBody) (hold : CommentHold) (status : HoldStatus) : ℚ :=
  refunded hold status + forfeitShared body hold

/-- The amount moves once, exactly if an unsettled hold is settled so that its amount moves. -/
theorem moved_eq_due_iff {body : FinalizeBody} {hold : CommentHold} {status : HoldStatus}
    {times : LoggedTimes}
    (hf : Finalizes ⟨s.credits, s.comments⟩ body.toFinalizePayload times.now hold status) :
    moved body hold status = due hold ↔ (hold.amount ≠ 0 → (Unsettled hold ↔ Moves body status)) := by
  have hmoved : moved body hold status = if Moves body status then hold.amount else 0 := by
    unfold moved refunded forfeitShared
    by_cases hstatus : status = .approved
    · have hbody : ¬(body.result = some spamText ∨ body.result = some trashText) := by
        have hresult := hf.result
        rintro (h | h) <;> rw [h, hstatus] at hresult <;> cases hresult
      have hmoves : Moves body status := .inl hstatus
      rw [if_pos hstatus, if_neg hbody, if_pos hmoves, add_zero]
    · rw [if_neg hstatus, zero_add]
      by_cases hbody : body.result = some spamText ∨ body.result = some trashText
      · have hmoves : Moves body status := .inr hbody
        rw [if_pos hbody, if_pos hmoves]
      · have hmoves : ¬Moves body status := fun h => h.elim hstatus hbody
        rw [if_neg hbody, if_neg hmoves]
  rw [hmoved, due]
  by_cases hamount : hold.amount = 0
  · simp [hamount]
  · by_cases hu : Unsettled hold <;> by_cases hm : Moves body status <;>
      simp [hu, hm, hamount, Ne.symm hamount]

/-- The same site gets the same, exactly if it is one site or nothing is given. -/
theorem moveTo_eq_iff {site site' : JsText} {q : ℚ} :
    (∀ w, moveTo w (site, q) = moveTo w (site', q)) ↔ (q ≠ 0 → site = site') := by
  constructor
  · intro h hq
    by_contra hne
    have hw := h site
    rw [moveTo_self, moveTo, if_neg hne] at hw
    exact hq hw
  · intro h w
    by_cases hq : q = 0
    · rw [hq, moveTo_zero, moveTo_zero]
    · rw [h hq]

theorem payable_nonneg (pool : ℚ) (bonus : JsNum) : 0 ≤ payable pool bonus := by
  unfold payable
  split
  · split
    · next h => exact h.1.le
    · exact le_rfl
  · exact le_rfl

theorem bonusPaid_nonneg (body : FinalizeBody) (hold : CommentHold) :
    0 ≤ bonusPaid config s body hold := by
  unfold bonusPaid
  split
  · exact payable_nonneg _ _
  · exact le_rfl

/-- The hold that an accepted finalization reports. -/
theorem finalizedHold_eq {token : Option JsText} {body : FinalizeBody} {times : LoggedTimes}
    {s' : Server} {hold : CommentHold} {status : HoldStatus} {result : Finalized}
    (hf : Finalizes ⟨s.credits, s.comments⟩ body.toFinalizePayload times.now hold status)
    (heq : postFinalize config s token body times = (s', .finalized result))
    (hresult : result.hold = settledHold body hold status) :
    finalizedHold (event (poolStep rt config) s (.finalize token body times)) =
      some (hold, status) := by
  have hfound : s.comments.holds.get (textOf body.ticketId) = some hold := hf.found
  simp only [finalizedHold, event_input, event_out, event_pre, poolStep, heq, hfound, hresult,
    settledHold_status, Option.map_some]

theorem settledHold_siteId (body : FinalizeBody) (hold : CommentHold) (status : HoldStatus) :
    (settledHold body hold status).siteId = (renameSite body hold).siteId := by
  unfold settledHold renameSite
  split <;> rfl

/-- A forfeited hold pays no bonus and refunds nothing. -/
theorem forfeited_shares (config : ServerConfig) {body : FinalizeBody} {times : LoggedTimes}
    {hold : CommentHold} {status : HoldStatus} (hold' : CommentHold)
    (hf : Finalizes ⟨s.credits, s.comments⟩ body.toFinalizePayload times.now hold status)
    (hstatus : status ≠ .approved) :
    bonusPaid config s body hold' = 0 ∧ moved body hold status = forfeitShared body hold := by
  constructor
  · exact if_neg fun hbody => hstatus (status_of_approvedText hf hbody)
  · rw [moved, refunded, if_neg hstatus, zero_add]

/-- What an approved hold moves is refunded. -/
theorem approved_shares {body : FinalizeBody} {times : LoggedTimes} {hold : CommentHold}
    (hf : Finalizes ⟨s.credits, s.comments⟩ body.toFinalizePayload times.now hold .approved) :
    forfeitShared body hold = 0 ∧ moved body hold .approved = refunded hold .approved := by
  have hbody : ¬(body.result = some spamText ∨ body.result = some trashText) := by
    have hresult := hf.result
    rintro (h | h) <;> rw [h] at hresult <;> cases hresult
  have hzero : forfeitShared body hold = 0 := if_neg hbody
  exact ⟨hzero, by rw [moved, hzero, add_zero]⟩

/-- **A finalization** keeps the law exactly if it is fair. -/
theorem stepLaw_finalize_iff (token : Option JsText) (body : FinalizeBody) (times : LoggedTimes) :
    StepLaw rt config seen (event (poolStep rt config) s (.finalize token body times)) ↔
      Fair rt config s seen (.finalize token body times) := by
  have heffect := postFinalize_effect config s token body times
  have hnone : acceptedMessage rt
      (event (poolStep rt config) s (.finalize token body times)) = none := by
    unfold acceptedMessage submittedMessage
    split <;> rfl
  cases heq : postFinalize config s token body times with
  | mk s' answer =>
    have hpost : (event (poolStep rt config) s (.finalize token body times)).post = s' := by
      simp only [event_post, poolStep, heq]
    rw [heq] at heffect
    cases heffect with
    | @refused error hno =>
      refine iff_of_true ⟨?_, ?_, ?_⟩ fun hold status hauth hf => absurd ⟨hauth, hf⟩ (hno hold _)
      · rw [minted_none hnone, hpost, add_zero]
        rfl
      · intro hold status h
        simp [finalizedHold, poolStep, heq] at h
      · intro hold h
        simp [finalizedHold, poolStep, heq] at h
    | @overCap _ hold h hbalance hholds hpools htreasury =>
      have hpool (site : JsText) : s'.pool site = s.pool site + moveTo site ([], 0) := by
        rw [Server.pool, hpools, moveTo_zero, add_zero]
        rfl
      have hsame : s'.treasuryBalance = s.treasuryBalance + 0 := by rw [htreasury, add_zero]
      have hheld := held_settled h.finalizes.found
        (settledHold_settled body hold h.finalizes.result) hholds
      have htotal := total_of_moves hbalance hheld hpool hsame
      have hmoved : moved body hold .approved = hold.amount := by
        rw [(approved_shares h.finalizes).2, refunded, if_pos rfl]
      constructor
      · intro hlaw hold' status hauth hf
        obtain rfl := h.finalizes.hold_eq hf
        obtain rfl := status_of_approvedText hf h.approved
        refine ⟨(moved_eq_due_iff hf).1 ?_, fun hne => absurd rfl hne⟩
        have ht := hlaw.total
        rw [minted_none hnone, hpost, event_pre, htotal] at ht
        rw [hmoved]
        linarith
      · intro hfair
        have hdue := (moved_eq_due_iff h.finalizes).2
          (hfair hold .approved h.authorized h.finalizes).1
        refine ⟨?_, ?_, ?_⟩
        · rw [minted_none hnone, hpost, event_pre, htotal]
          linarith
        · intro hold' status h'
          simp [finalizedHold, poolStep, heq] at h'
        · intro hold' h'
          simp [finalizedHold, poolStep, heq] at h'
    | @accepted _ hold status result h hresult hbalance hholds hpools htreasury =>
      have hheld := held_settled h.finalizes.found
        (settledHold_settled body hold h.finalizes.result) hholds
      have htotal : s'.total = s.total + (moved body hold status - due hold) := by
        rw [total_of_moves hbalance hheld hpools htreasury, moved]
        linarith
      have hfinal : finalizedHold (event (poolStep rt config) s (.finalize token body times)) =
          some (hold, status) := finalizedHold_eq h.finalizes heq hresult.2
      constructor
      · intro hlaw hold' status' hauth hf
        obtain rfl := h.finalizes.hold_eq hf
        obtain rfl : status = status' := Option.some.inj (h.finalizes.result.symm.trans hf.result)
        have hdue : moved body hold status = due hold := by
          have ht := hlaw.total
          rw [minted_none hnone, hpost, event_pre, htotal] at ht
          linarith
        refine ⟨(moved_eq_due_iff hf).1 hdue, fun hstatus hne => ?_⟩
        obtain ⟨hbonus, hshared⟩ := forfeited_shares config
          (settledHold body hold status) hf hstatus
        obtain ⟨hsites, -⟩ := hlaw.forfeited hold status hfinal hstatus
        rw [← settledHold_siteId body hold status]
        refine moveTo_eq_iff.1 (fun site => ?_) hne
        have hsite := hsites site
        rw [hpost, event_pre, hpools, ← hshared, hdue, hbonus, sub_zero] at hsite
        exact add_left_cancel hsite
      · intro hfair
        obtain ⟨hmoves, hsite⟩ := hfair hold status h.authorized h.finalizes
        have hdue := (moved_eq_due_iff h.finalizes).2 hmoves
        refine ⟨?_, fun hold' status' hfinal' hstatus => ?_, fun hold' hfinal' => ?_⟩
        · rw [minted_none hnone, hpost, event_pre, htotal, hdue, sub_self]
        · rw [hfinal] at hfinal'
          obtain ⟨rfl, rfl⟩ := Prod.mk.inj (Option.some.inj hfinal')
          obtain ⟨hbonus, hshared⟩ := forfeited_shares config
            (settledHold body hold status) h.finalizes hstatus
          rw [hpost, event_pre, htreasury, ← hshared, hdue]
          refine ⟨fun site => ?_, rfl⟩
          rw [hpools, ← hshared, hdue, hbonus, sub_zero, settledHold_siteId,
            moveTo_eq_iff.2 (hsite hstatus) site]
        · rw [hfinal] at hfinal'
          obtain ⟨rfl, rfl⟩ := Prod.mk.inj (Option.some.inj hfinal')
          obtain ⟨hzero, hrefunded⟩ := approved_shares h.finalizes
          refine ⟨(settledHold body hold .approved).siteId,
            bonusPaid config s body (settledHold body hold .approved), bonusPaid_nonneg body _,
            fun w => ?_, fun site => ?_⟩
          · rw [hpost, event_pre, hbalance, ← hrefunded, hdue]
          · rw [hpost, event_pre, hpools, hzero, zero_mul, zero_sub]

theorem checkNodeReceipt_receipt {token : Option JsText} {body : NodeReceiptBody}
    {snapshot : Snapshot} {now : ℚ} {receipt : Json} {site : JsText}
    (h : checkNodeReceipt rt config s token body snapshot now = .ok (receipt, site)) :
    body.receipt = some receipt := by
  unfold checkNodeReceipt at h
  simp only [bind, Except.bind, pure, Except.pure] at h
  split at h
  · cases h
  · split at h
    · next receipt' hr =>
      have hreceipt : body.receipt = some receipt' := (Option.filter_eq_some_iff.1 hr).1
      repeat' split at h
      all_goals cases h
      exact hreceipt
    · cases h

/-- A node receipt that passes the checks and the cap adds one credit to the pool. -/
theorem postNodeReceipts_accepts {token : Option JsText} {body : NodeReceiptBody}
    {snapshot : Snapshot} {times : LoggedTimes} {receipt : Json} {site : JsText}
    (hcheck : checkNodeReceipt rt config s token body snapshot times.now = .ok (receipt, site))
    (hcap : (applyPoolCap config s site (.fin 1) times.today).2 = true) :
    ∃ s' balance, postNodeReceipts rt config s token body snapshot times = (s', .pool balance) ∧
      s'.total = s.total + 1 := by
  unfold postNodeReceipts
  rw [hcheck]
  simp only
  split
  · next s' h => simp [h] at hcap
  · next s' h =>
    obtain rfl : s' = (applyPoolCap config s site (.fin 1) times.today).1 := by rw [h]
    refine ⟨_, _, rfl, ?_⟩
    have htotal := FinMap.total_set_getD (fun (_ : JsText) (q : ℚ) => q) s.sitePools site
      (z := 0) rfl (s.pool site + 1)
    change _ + s.pool site = _ at htotal
    change s.credits.credits.total _ + s.held +
      (s.sitePools.set site (s.pool site + 1)).total _ + s.treasuryBalance = _
    unfold Server.total
    linarith

/-- Any other node receipt is refused and leaves the ledger alone. -/
theorem postNodeReceipts_refuses {token : Option JsText} {body : NodeReceiptBody}
    {snapshot : Snapshot} {times : LoggedTimes}
    (h : ∀ receipt site,
      checkNodeReceipt rt config s token body snapshot times.now = .ok (receipt, site) →
      (applyPoolCap config s site (.fin 1) times.today).2 = false) :
    ∃ s' error, postNodeReceipts rt config s token body snapshot times = (s', stopped error) ∧
      s'.total = s.total := by
  unfold postNodeReceipts
  cases hcheck : checkNodeReceipt rt config s token body snapshot times.now with
  | error error => exact ⟨s, error, rfl, rfl⟩
  | ok passed =>
    have hcap := h passed.1 passed.2 hcheck
    simp only
    split
    · next s' hs' =>
      obtain rfl : s' = (applyPoolCap config s passed.2 (.fin 1) times.today).1 := by rw [hs']
      exact ⟨_, some .poolCapExceeded, rfl, rfl⟩
    · next s' hs' => simp [hs'] at hcap

/-- **A node receipt** keeps the law exactly if it is not accepted again. -/
theorem stepLaw_nodeReceipt_iff (token : Option JsText) (body : NodeReceiptBody)
    (snapshot : Snapshot) (times : LoggedTimes) :
    StepLaw rt config seen
        (event (poolStep rt config) s (.nodeReceipt token body snapshot times)) ↔
      Fair rt config s seen (.nodeReceipt token body snapshot times) := by
  by_cases h : ∃ receipt site,
      checkNodeReceipt rt config s token body snapshot times.now = .ok (receipt, site) ∧
      (applyPoolCap config s site (.fin 1) times.today).2 = true
  · obtain ⟨receipt, site, hcheck, hcap⟩ := h
    obtain ⟨s', balance, heq, htotal⟩ := postNodeReceipts_accepts hcheck hcap
    have haccepted : acceptedMessage rt
        (event (poolStep rt config) s (.nodeReceipt token body snapshot times)) =
        some (nodeReceiptMessage rt receipt) := by
      simp [acceptedMessage, submittedMessage, poolStep, heq, checkNodeReceipt_receipt hcheck]
    have hpost : (event (poolStep rt config) s
        (.nodeReceipt token body snapshot times)).post = s' := by
      simp only [event_post, poolStep, heq]
    constructor
    · intro hlaw receipt' site' hcheck' _ hseen
      rw [hcheck] at hcheck'
      obtain ⟨rfl, -⟩ := Prod.mk.inj (Except.ok.inj hcheck')
      have ht := hlaw.total
      rw [minted, haccepted, hpost, event_pre, htotal] at ht
      simp only [if_pos hseen] at ht
      linarith
    · intro hfair
      refine ⟨?_, nofun, nofun⟩
      rw [minted, haccepted, hpost, event_pre, htotal]
      simp only [if_neg (hfair receipt site hcheck hcap)]
  · have hover : ∀ receipt site,
        checkNodeReceipt rt config s token body snapshot times.now = .ok (receipt, site) →
        (applyPoolCap config s site (.fin 1) times.today).2 = false :=
      fun receipt site hcheck => Bool.eq_false_iff.2 fun hcap => h ⟨receipt, site, hcheck, hcap⟩
    obtain ⟨s', error, heq, htotal⟩ := postNodeReceipts_refuses hover
    have hnone : acceptedMessage rt
        (event (poolStep rt config) s (.nodeReceipt token body snapshot times)) = none := by
      cases error <;> simp [acceptedMessage, poolStep, heq, stopped]
    refine iff_of_true ⟨?_, nofun, nofun⟩ fun receipt site hcheck hcap =>
      absurd ⟨receipt, site, hcheck, hcap⟩ h
    rw [minted_none hnone, add_zero, event_post, event_pre]
    simp only [poolStep, heq, htotal]

/-- **One step** keeps the law exactly if it is fair. -/
theorem stepLaw_iff (hfresh : FreshTicket s c) :
    StepLaw rt config seen (event (poolStep rt config) s c) ↔ Fair rt config s seen c := by
  cases c with
  | finalize token body times => exact stepLaw_finalize_iff token body times
  | hold token body times random => exact iff_of_true (stepLaw_hold hfresh) trivial
  | nodeReceipt token body snapshot times =>
    exact stepLaw_nodeReceipt_iff token body snapshot times

/-- One message more, counted if it is new. -/
theorem messages_concat (l : List PoolEvent) (e : PoolEvent) :
    ((messages rt (l ++ [e])).toFinset.card : ℚ) =
      (messages rt l).toFinset.card + minted rt (messages rt l) e := by
  unfold minted messages
  cases h : acceptedMessage rt e with
  | none => rw [filterMap_concat_none h, add_zero]
  | some m =>
    have hinsert : (l.filterMap (acceptedMessage rt) ++ [m]).toFinset =
        insert m (l.filterMap (acceptedMessage rt)).toFinset := by
      rw [List.toFinset_append, Finset.union_comm]
      rfl
    rw [filterMap_concat_some h, hinsert]
    by_cases hm : m ∈ l.filterMap (acceptedMessage rt)
    · rw [Finset.insert_eq_of_mem (List.mem_toFinset.2 hm)]
      simp only [if_pos hm, add_zero]
    · rw [Finset.card_insert_of_notMem (mt List.mem_toFinset.1 hm)]
      simp only [if_neg hm, Nat.cast_add, Nat.cast_one]

/-- A node receipt that was accepted before mints nothing. -/
theorem minted_repeated {e : PoolEvent} {m : JsText} (hm : m ∈ submittedMessage rt e)
    (hseen : m ∈ seen) : minted rt seen e = 0 := by
  unfold minted acceptedMessage
  split
  · next m' h =>
    split at h
    · obtain rfl : m = m' := Option.some.inj (hm.symm.trans h)
      exact if_pos hseen
    · cases h
  · rfl

end Steps

def exampleAuthor : JsText := ['0', 'x'] ++ List.replicate 40 'a'

def exampleSite : JsText := ['s', '1']

def exampleSiteToken : Option JsText := some exampleServerConfig.commentsSiteToken

def examplePoolConfig : ServerConfig := { exampleServerConfig with authChain := ['e', 'v', 'm'] }

/-- The author has 5 credits. -/
def examplePoolServer : Server :=
  { exampleServer with credits := { exampleStart with credits := FinMap.empty.set exampleAuthor 5 } }

def exampleHold : PoolCall :=
  .hold exampleSiteToken ⟨some exampleAuthor, some exampleSite, some ['p'], some (.fin 1)⟩
    ⟨1, 1, 1, 1, 1⟩ Comments.exampleRandom

def exampleForfeit : PoolCall :=
  .finalize exampleSiteToken ⟨⟨some (ticketOf Comments.exampleRandom), some spamText⟩, none, none⟩
    ⟨⟨2, exampleToday⟩, 2⟩

deriving instance DecidableEq for CommentHold

def exampleCommentHold : CommentHold where
  ticketId := ticketOf Comments.exampleRandom
  wallet := exampleAuthor
  siteId := exampleSite
  postId := ['p']
  amount := 1
  status := .held
  createdAt := 1
  expiresAt := .fin 900001
  commentHash := none

theorem exampleHold_found :
    (poolStep exampleServerRuntime examplePoolConfig examplePoolServer exampleHold).1.comments.holds.get
      (ticketOf Comments.exampleRandom) = some exampleCommentHold := by
  decide +kernel

end Ddns.Coordinator
