import Ddns.Coordinator.Effects
import Ddns.Coordinator.ReceiptLaw

/-!
# Credits of interleaved calls

Calls of the coordinator interleave where a handler awaits. Whatever the order, a wallet is meant to
have what it started with, the credits and refunds of the accepted calls more and their spends and
holds less. Two calls that are refused break this: a receipt refused by the daily cap writes back
the balance read at its start, and a finalization refused by the bonus cap has already refunded its
hold. `ledgerLaw_iff` says that the law holds exactly in the runs where the first finds its own
credit and nothing else on top of that balance, and the second refunds nothing.
-/

namespace Ddns.Coordinator

open Runs
open Comments (HoldPayload HoldTimes amountOf textOf)

/-- The server and the calls of `POST /receipts` that wait. -/
structure System where
  server : Server
  flights : List Flight

/-- No call waits. -/
def idle (s : Server) : System := ⟨s, []⟩

/-- A call that arrives, or the `i`-th waiting call going on. -/
inductive Input where
  | receipt (envelope : ReceiptEnvelope) (snapshot : Snapshot) (now : ℚ)
  | resume (i : ℕ) (times : Times)
  | spend (token : Option JsText) (amount : Option JsNum) (now : ℚ)
  | hold (token : Option JsText) (body : HoldPayload) (times : HoldTimes) (random : JsText)
  | finalize (token : Option JsText) (body : FinalizeBody) (times : LoggedTimes)

/-- A part of a call has run: it is answered, or waits with `flights`. -/
def Outcome.settle (flights : List Flight) : Server × Outcome → System × Option ServerAnswer
  | (s, .answered answer) => (⟨s, flights⟩, some answer)
  | (s, .awaits flight) => (⟨s, flight :: flights⟩, none)

def interleave (rt : ServerRuntime) (config : ServerConfig) (s : System) :
    Input → System × Option ServerAnswer
  | .receipt envelope snapshot now =>
    Outcome.settle s.flights (beginReceipt rt config s.server envelope snapshot now)
  | .resume i times =>
    match s.flights[i]? with
    | none => (s, none)
    | some flight =>
      Outcome.settle (s.flights.eraseIdx i) (resumeReceipt rt config s.server flight times)
  | .spend token amount now =>
    let (server, answer) := postSpend s.server token amount now
    ({ s with server }, some answer)
  | .hold token body times random =>
    let (server, answer) := postHold rt config s.server token body times random
    ({ s with server }, some answer)
  | .finalize token body times =>
    let (server, answer) := postFinalize config s.server token body times
    ({ s with server }, some answer)

/-- A step of the interleaved calls. -/
abbrev Part := Event System Input (Option ServerAnswer)

section Law

variable (rt : ServerRuntime) (config : ServerConfig)

/-- The wallet and the credits that an accepted call moves, at the step that accepts it. -/
def acceptedMove (e : Part) : Option (JsText × ℚ) :=
  match e.input, e.out with
  | .resume i _, some (.balance wallet _) =>
    e.pre.flights[i]?.map fun flight => (wallet, creditDelta config flight)
  | .spend _ amount _, some (.balance wallet _) => some (wallet, -finiteOr0 (amountOf amount))
  | .hold _ body _ _, some (.held _ _) =>
    some (textOf body.wallet, -finiteOr0 (amountOf body.amount))
  | .finalize _ body _, some (.finalized result) =>
    some (result.wallet, refunded result.hold result.hold.status +
      bonusPaid config e.pre.server body result.hold)
  | _, _ => none

/-- What the accepted calls add to the wallet `w`. -/
def movedTo (w : JsText) (l : List Part) : ℚ :=
  ((l.filterMap (acceptedMove config)).map (moveTo w)).sum

/-- The credits of a receipt that is credited and neither accepted nor refused so far. -/
def undecided (w : JsText) (flight : Flight) : ℚ :=
  if flight.phase = .credited then moveTo w (flight.shaped.nodeId, creditDelta config flight) else 0

/-- The undecided credits of a wallet. -/
def pending (s : System) (w : JsText) : ℚ := (s.flights.map (undecided config w)).sum

/-- **The ledger law** of a run. A wallet has what it started with and what the accepted calls add,
next to its undecided credits; and a receipt refused by the daily cap takes its own credit back. -/
structure LedgerLaw (start : Server) (inputs : List Input) : Prop where
  accounted : ∀ pre post, inputs = pre ++ post → ∀ w,
    (exec (interleave rt config) (idle start) pre).server.balance w = start.balance w +
      movedTo config w (trace (interleave rt config) (idle start) pre) +
      pending config (exec (interleave rt config) (idle start) pre) w
  rolledBack : ∀ e ∈ trace (interleave rt config) (idle start) inputs,
    e.out = some (.refused .creditCapExceeded) → ∀ i times, e.input = .resume i times →
    ∀ flight ∈ e.pre.flights[i]?, ∀ w, e.post.server.balance w = e.pre.server.balance w -
      moveTo w (flight.shaped.nodeId, creditDelta config flight)

/-- A receipt that the daily cap refuses finds its own credit and nothing else on top of the balance
read at its start; and a finalization that the bonus cap refuses refunds nothing. -/
def LosesNothing (s : System) : Input → Prop
  | .resume i times => ∀ flight ∈ s.flights[i]?, flight.phase = .credited →
      (applyDailyCap config s.server flight.shaped.nodeId (.fin (creditDelta config flight))
        times.today).2 = false →
      s.server.balance flight.shaped.nodeId = flight.before + creditDelta config flight
  | .finalize token body times => ∀ hold, BonusRefused config s.server token body times hold →
      hold.amount = 0
  | _ => True

end Law

/-! ## Balances -/

section Balances

variable {rt : ServerRuntime} {config : ServerConfig} {s : Server}

@[simp] theorem balance_refreshNodePubkeys (snapshot : Snapshot) (now : ℚ) (w : JsText) :
    (refreshNodePubkeys rt s snapshot now).balance w = s.balance w := by
  unfold refreshNodePubkeys
  split <;> rfl

/-- Up to the first await no credits move, and a call that waits is not credited yet. -/
theorem beginReceipt_effect (rt : ServerRuntime) (config : ServerConfig) (s : Server)
    (envelope : ReceiptEnvelope) (snapshot : Snapshot) (now : ℚ) :
    (∀ w, (beginReceipt rt config s envelope snapshot now).1.balance w = s.balance w) ∧
      ∀ flight, (beginReceipt rt config s envelope snapshot now).2 = .awaits flight →
        flight.phase = .signature := by
  unfold beginReceipt
  split
  · exact ⟨fun _ => rfl, nofun⟩
  · next nodeId hid =>
    simp only
    obtain ⟨rate, hstate, -⟩ := validateAndApplyReceipt_eq rt.toRuntime config.receipts
      (refreshNodePubkeys rt s snapshot now).credits envelope now
    split
    · next credits code hv =>
      rw [hv] at hstate
      refine ⟨fun w => ?_, nofun⟩
      subst hstate
      exact balance_refreshNodePubkeys snapshot now w
    · next credits shaped hv =>
      rw [hv] at hstate
      refine ⟨fun w => ?_, ?_⟩
      · subst hstate
        exact balance_refreshNodePubkeys snapshot now w
      · rintro flight ⟨⟩
        rfl

/-- What the part of a call does that may credit its receipt. -/
inductive Credits (config : ServerConfig) (s : Server) (flight : Flight) :
    Server × Outcome → Prop
  | refused {answer} (hanswer : answer = .thrown ∨ ∃ code, answer = .refused (.receipt code)) :
      Credits config s flight (s, .answered answer)
  | waits : Credits config s flight (s, .awaits { flight with phase := .authority })
  | credited {s'} (hbalance : ∀ w, s'.balance w =
        s.balance w + moveTo w (flight.shaped.nodeId, creditDelta config flight)) :
      Credits config s flight (s', .awaits { flight with phase := .credited })

theorem creditReceipt_effect (flight : Flight) (now : ℚ) :
    Credits config s flight (creditReceipt rt config s flight now) := by
  unfold creditReceipt
  split
  · exact .credited fun w => getBalance_credit s.credits _ _ w
  · next code hcheck => exact .refused (.inr ⟨code, rfl⟩)
  · exact .refused (.inl rfl)

/-- A call that is not credited yet is refused, waits on or gets its credit. -/
theorem resumeReceipt_effect {flight : Flight} (hphase : flight.phase ≠ .credited) (times : Times) :
    Credits config s flight (resumeReceipt rt config s flight times) := by
  unfold resumeReceipt
  split
  · simp only
    split
    · exact .refused (.inl rfl)
    · exact .refused (.inr ⟨_, rfl⟩)
    · split
      · exact .waits
      · exact creditReceipt_effect flight times.now
  · exact creditReceipt_effect flight times.now
  · next hcredited => exact absurd hcredited hphase

/-- Under the cap the receipt is accepted and the balance stays. -/
theorem finishReceipt_within (rt : ServerRuntime) {flight : Flight} {today : JsText}
    (hcap : (applyDailyCap config s flight.shaped.nodeId (.fin (creditDelta config flight))
      today).2 = true) :
    (∃ balance, (finishReceipt rt config s flight today).2 =
        .balance flight.shaped.nodeId balance) ∧
      ∀ w, (finishReceipt rt config s flight today).1.balance w = s.balance w := by
  unfold finishReceipt
  simp only
  split
  · next s' h => simp [h] at hcap
  · next s' h =>
    refine ⟨⟨_, rfl⟩, fun w => ?_⟩
    have hs : s' = (applyDailyCap config s flight.shaped.nodeId
      (.fin (creditDelta config flight)) today).1 := by rw [h]
    rw [hs]
    rfl

/-- Over the cap the balance read at the start is written back. -/
theorem finishReceipt_over (rt : ServerRuntime) {flight : Flight} {today : JsText}
    (hcap : (applyDailyCap config s flight.shaped.nodeId (.fin (creditDelta config flight))
      today).2 = false) :
    (finishReceipt rt config s flight today).2 = .refused .creditCapExceeded ∧
      ∀ w, (finishReceipt rt config s flight today).1.balance w =
        if w = flight.shaped.nodeId then flight.before else s.balance w := by
  unfold finishReceipt
  simp only
  split
  · next s' h =>
    refine ⟨rfl, fun w => ?_⟩
    have hs : s' = (applyDailyCap config s flight.shaped.nodeId
      (.fin (creditDelta config flight)) today).1 := by rw [h]
    rw [hs]
    exact getBalance_set s.credits flight.shaped.nodeId flight.before w
  · next s' h => simp [h] at hcap

end Balances

/-! ## Calls that nobody interrupts -/

section Uninterrupted

variable (rt : ServerRuntime) (config : ServerConfig) (times : Times)

/-- A call that goes on alone, `n` times. -/
theorem exec_resume (n : ℕ) (s : Server) (outcome : Outcome) :
    exec (interleave rt config) (Outcome.settle [] (s, outcome)).1
        (List.replicate n (.resume 0 times)) =
      match outcome, n with
      | .answered _, _ => idle s
      | .awaits flight, 0 => ⟨s, [flight]⟩
      | .awaits flight, n + 1 =>
        exec (interleave rt config)
          (Outcome.settle [] (resumeReceipt rt config s flight times)).1
          (List.replicate n (.resume 0 times)) := by
  cases outcome with
  | answered answer =>
    induction n with
    | zero => rfl
    | succ n ih => exact ih
  | awaits flight =>
    cases n <;> rfl

/-- A call moves on at every resumption. -/
def Phase.left : Phase → ℕ
  | .signature => 3
  | .authority => 2
  | .credited => 1

theorem resumeReceipt_left {s s' : Server} {flight flight' : Flight}
    (h : resumeReceipt rt config s flight times = (s', .awaits flight')) :
    flight'.phase.left < flight.phase.left := by
  cases hphase : flight.phase with
  | credited => simp [resumeReceipt, hphase] at h
  | signature =>
    have heffect : Credits config s flight (resumeReceipt rt config s flight times) :=
      resumeReceipt_effect (by rw [hphase]; nofun) times
    rw [h] at heffect
    cases heffect with
    | waits => simp [Phase.left]
    | credited hbalance => simp [Phase.left]
  | authority =>
    have hcredit : creditReceipt rt config s flight times.now = (s', .awaits flight') := by
      simpa [resumeReceipt, hphase] using h
    unfold creditReceipt at hcredit
    split at hcredit
    · cases hcredit
      simp [Phase.left]
    · cases hcredit
    · cases hcredit

theorem settleReceipt_alone (n : ℕ) (s : Server) (outcome : Outcome)
    (hn : ∀ flight, outcome = .awaits flight → flight.phase.left ≤ n) :
    exec (interleave rt config) (Outcome.settle [] (s, outcome)).1
        (List.replicate n (.resume 0 times)) =
      idle (settleReceipt rt config times n (s, outcome)).1 := by
  induction n generalizing s outcome with
  | zero =>
    cases outcome with
    | answered answer => rfl
    | awaits flight =>
      have hle := hn flight rfl
      cases hphase : flight.phase <;> simp [hphase, Phase.left] at hle
  | succ n ih =>
    rw [exec_resume]
    cases outcome with
    | answered answer => rfl
    | awaits flight =>
      simp only [settleReceipt]
      cases hr : resumeReceipt rt config s flight times with
      | mk s' outcome' =>
        refine ih s' outcome' fun flight' hf => ?_
        subst hf
        have hlt := resumeReceipt_left rt config times hr
        have hle := hn flight rfl
        omega

/-- **A call of `POST /receipts` that nobody interrupts** is `postReceipts`. -/
theorem exec_uninterrupted (s : Server) (envelope : ReceiptEnvelope) (snapshot : Snapshot)
    (now : ℚ) :
    exec (interleave rt config) (idle s)
        (.receipt envelope snapshot now :: List.replicate 3 (.resume 0 times)) =
      idle (postReceipts rt config s envelope snapshot now times).1 := by
  have hphase := (beginReceipt_effect rt config s envelope snapshot now).2
  rw [exec_cons]
  change exec (interleave rt config)
    (Outcome.settle [] (beginReceipt rt config s envelope snapshot now)).1 _ = _
  unfold postReceipts
  cases hb : beginReceipt rt config s envelope snapshot now with
  | mk s' outcome =>
    rw [hb] at hphase
    refine settleReceipt_alone rt config times 3 s' outcome fun flight hf => ?_
    rw [hphase flight hf]
    rfl

end Uninterrupted

/-! ## One step -/

section Steps

variable {rt : ServerRuntime} {config : ServerConfig} {s : System}

/-- What a wallet has without its undecided credits. -/
def settled (config : ServerConfig) (s : System) (w : JsText) : ℚ :=
  s.server.balance w - pending config s w

theorem pending_cons (server : Server) (flight : Flight) (flights : List Flight) (w : JsText) :
    pending config ⟨server, flight :: flights⟩ w =
      undecided config w flight + pending config ⟨server, flights⟩ w := by
  simp [pending]

theorem undecided_of_ne {flight : Flight} (h : flight.phase ≠ .credited) (w : JsText) :
    undecided config w flight = 0 := if_neg h

/-- A waiting call and the others. -/
theorem pending_eraseIdx {i : ℕ} {flight : Flight} (h : s.flights[i]? = some flight)
    (server : Server) (w : JsText) :
    pending config s w =
      undecided config w flight + pending config ⟨server, s.flights.eraseIdx i⟩ w := by
  obtain ⟨hi, rfl⟩ := List.getElem?_eq_some_iff.1 h
  have hperm := (List.getElem_cons_eraseIdx_perm hi).map (undecided config w)
  unfold pending
  rw [← hperm.sum_eq, List.map_cons, List.sum_cons]

theorem movedTo_none {e : Part} (h : acceptedMove config e = none) (w : JsText) :
    movedTo config w [e] = 0 := by
  simp [movedTo, h]

theorem movedTo_some {e : Part} {move : JsText × ℚ} (h : acceptedMove config e = some move)
    (w : JsText) : movedTo config w [e] = moveTo w move := by
  simp [movedTo, h]

theorem movedTo_append (w : JsText) (l l' : List Part) :
    movedTo config w (l ++ l') = movedTo config w l + movedTo config w l' := by
  simp [movedTo]

/-- The step accounts for what it does to the credits of every wallet. -/
def Accounts (rt : ServerRuntime) (config : ServerConfig) (s : System) (i : Input) : Prop :=
  ∀ w, settled config (interleave rt config s i).1 w =
    settled config s w + movedTo config w [event (interleave rt config) s i]

theorem accounts_receipt (envelope : ReceiptEnvelope) (snapshot : Snapshot) (now : ℚ) :
    Accounts rt config s (.receipt envelope snapshot now) := by
  intro w
  obtain ⟨hbalance, hphase⟩ := beginReceipt_effect rt config s.server envelope snapshot now
  rw [movedTo_none (by rfl), add_zero]
  change settled config (Outcome.settle s.flights
    (beginReceipt rt config s.server envelope snapshot now)).1 w = _
  cases hb : beginReceipt rt config s.server envelope snapshot now with
  | mk server outcome =>
    rw [hb] at hbalance hphase
    cases outcome with
    | answered answer => exact congrArg (· - pending config s w) (hbalance w)
    | awaits flight =>
      have hzero : undecided config w flight = 0 :=
        undecided_of_ne (by rw [hphase flight rfl]; nofun) w
      change server.balance w - pending config ⟨server, flight :: s.flights⟩ w = _
      rw [pending_cons, hzero, zero_add, hbalance]
      rfl

theorem accounts_spend (token : Option JsText) (amount : Option JsNum) (now : ℚ) :
    Accounts rt config s (.spend token amount now) := by
  intro w
  rcases postSpend_effect s.server token amount now with
    ⟨error, heq⟩ | ⟨server, wallet, balance, heq, hbalance, -⟩
  · have hmove : acceptedMove config
        (event (interleave rt config) s (.spend token amount now)) = none := by
      simp [acceptedMove, interleave, heq]
    rw [movedTo_none hmove, add_zero]
    simp only [interleave, heq]
  · have hmove : acceptedMove config (event (interleave rt config) s (.spend token amount now)) =
        some (wallet, -finiteOr0 (Comments.amountOf amount)) := by
      simp [acceptedMove, interleave, heq]
    rw [movedTo_some hmove]
    simp only [interleave, heq, settled, hbalance]
    exact add_sub_right_comm _ _ _

theorem accounts_hold (token : Option JsText) (body : HoldPayload) (times : HoldTimes)
    (random : JsText) : Accounts rt config s (.hold token body times random) := by
  intro w
  have heffect := postHold_effect rt config s.server token body times random
  cases heq : postHold rt config s.server token body times random with
  | mk server answer =>
    rw [heq] at heffect
    cases heffect with
    | @refused _ error hbalance _ _ _ =>
      have hmove : acceptedMove config
          (event (interleave rt config) s (.hold token body times random)) = none := by
        simp [acceptedMove, interleave, heq]
      rw [movedTo_none hmove, add_zero]
      simp only [interleave, heq, settled, hbalance]
      rfl
    | @created _ expiresAt hold hwallet hamount hpos hstatus hbalance hholds _ _ =>
      have hmove : acceptedMove config
          (event (interleave rt config) s (.hold token body times random)) =
          some (hold.wallet, -hold.amount) := by
        simp [acceptedMove, interleave, heq, hwallet, hamount, finiteOr0]
      rw [movedTo_some hmove]
      simp only [interleave, heq, settled, hbalance]
      exact add_sub_right_comm _ _ _

/-- A finalization accounts for its credits unless it refunds and is refused. -/
theorem accounts_finalize_iff (token : Option JsText) (body : FinalizeBody)
    (times : LoggedTimes) : Accounts rt config s (.finalize token body times) ↔
      LosesNothing config s (.finalize token body times) := by
  have heffect := postFinalize_effect config s.server token body times
  cases heq : postFinalize config s.server token body times with
  | mk server answer =>
    rw [heq] at heffect
    cases heffect with
    | @refused error hno =>
      refine iff_of_true (fun w => ?_) fun hold h => ?_
      · have hmove : acceptedMove config
            (event (interleave rt config) s (.finalize token body times)) = none := by
          simp [acceptedMove, interleave, heq]
        rw [movedTo_none hmove, add_zero]
        simp only [interleave, heq]
      · exact absurd ⟨h.authorized, h.finalizes⟩ (hno hold _)
    | @overCap _ hold h hbalance hholds hpools htreasury =>
      have hmove : acceptedMove config
          (event (interleave rt config) s (.finalize token body times)) = none := by
        simp [acceptedMove, interleave, heq]
      have hsettled (w : JsText) :
          settled config (interleave rt config s (.finalize token body times)).1 w =
            settled config s w + moveTo w (hold.wallet, hold.amount) := by
        simp only [interleave, heq, settled, hbalance]
        exact add_sub_right_comm _ _ _
      constructor
      · intro haccounts hold' h'
        obtain rfl : hold' = hold := h'.finalizes.hold_eq h.finalizes
        have hw := haccounts hold'.wallet
        rw [hsettled, movedTo_none hmove, add_zero, moveTo_self] at hw
        exact add_eq_left.1 hw
      · intro hloses w
        rw [hsettled, movedTo_none hmove, hloses hold h, moveTo_zero]
    | @accepted _ hold status result h hresult hbalance hholds hpools htreasury =>
      refine iff_of_true (fun w => ?_) fun hold' h' => ?_
      · have hmove : acceptedMove config
            (event (interleave rt config) s (.finalize token body times)) =
            some (hold.wallet, refunded hold status +
              bonusPaid config s.server body (settledHold body hold status)) := by
          simp [acceptedMove, interleave, heq, hresult.1, hresult.2, refunded]
        rw [movedTo_some hmove]
        simp only [interleave, heq, settled, hbalance]
        exact add_sub_right_comm _ _ _
      · exact absurd (h'.finalizes.hold_eq h.finalizes ▸ h') h.bonus

/-- Nothing is accepted before the receipt is credited. -/
theorem accounts_resume_credits {i : ℕ} {times : Times} {flight : Flight}
    (hflight : s.flights[i]? = some flight) (hphase : flight.phase ≠ .credited) :
    Accounts rt config s (.resume i times) := by
  intro w
  have heffect : Credits config s.server flight
      (resumeReceipt rt config s.server flight times) := resumeReceipt_effect hphase times
  have hpending : pending config s w = pending config ⟨s.server, s.flights.eraseIdx i⟩ w := by
    rw [pending_eraseIdx hflight s.server, undecided_of_ne hphase, zero_add]
  cases heq : resumeReceipt rt config s.server flight times with
  | mk server outcome =>
    have hstep : interleave rt config s (.resume i times) =
        Outcome.settle (s.flights.eraseIdx i) (server, outcome) := by
      simp only [interleave, hflight, heq]
    rw [heq] at heffect
    cases heffect with
    | @refused answer hanswer =>
      have hmove : acceptedMove config (event (interleave rt config) s (.resume i times)) =
          none := by
        rcases hanswer with rfl | ⟨code, rfl⟩ <;> simp [acceptedMove, hstep, Outcome.settle]
      rw [movedTo_none hmove, hstep, add_zero]
      simp only [Outcome.settle, settled, hpending]
    | waits =>
      have hmove : acceptedMove config (event (interleave rt config) s (.resume i times)) =
          none := by
        simp [acceptedMove, hstep, Outcome.settle]
      rw [movedTo_none hmove, hstep, add_zero]
      simp only [Outcome.settle, settled, hpending]
      rw [pending_cons, undecided_of_ne (by nofun), zero_add]
    | credited hbalance =>
      have hmove : acceptedMove config (event (interleave rt config) s (.resume i times)) =
          none := by
        simp [acceptedMove, hstep, Outcome.settle]
      have hcredit : undecided config w { flight with phase := .credited } =
          moveTo w (flight.shaped.nodeId, creditDelta config flight) := if_pos rfl
      rw [movedTo_none hmove, hstep, add_zero]
      simp only [Outcome.settle, settled, hpending, hbalance]
      rw [pending_cons, hcredit, add_comm (moveTo _ _), add_sub_add_right_eq_sub]
      rfl

/-- The decision about a credited receipt accounts for its credit, unless it writes a balance back
that others have changed. -/
theorem accounts_resume_finish {i : ℕ} {times : Times} {flight : Flight}
    (hflight : s.flights[i]? = some flight) (hphase : flight.phase = .credited) :
    Accounts rt config s (.resume i times) ↔ LosesNothing config s (.resume i times) := by
  let credit : JsText × ℚ := (flight.shaped.nodeId, creditDelta config flight)
  have hpending (server : Server) (w : JsText) : pending config s w =
      moveTo w credit + pending config ⟨server, s.flights.eraseIdx i⟩ w := by
    rw [pending_eraseIdx hflight server, undecided, if_pos hphase]
  have hstep : interleave rt config s (.resume i times) =
      (⟨(finishReceipt rt config s.server flight times.today).1, s.flights.eraseIdx i⟩,
        some (finishReceipt rt config s.server flight times.today).2) := by
    simp only [interleave, hflight, resumeReceipt, hphase, Outcome.settle]
  cases hcap : (applyDailyCap config s.server flight.shaped.nodeId
      (.fin (creditDelta config flight)) times.today).2 with
  | true =>
    obtain ⟨⟨balance, hanswer⟩, hbalance⟩ := finishReceipt_within rt hcap
    refine iff_of_true (fun w => ?_) fun flight' hflight' _ hcap' => ?_
    · have hmove : acceptedMove config (event (interleave rt config) s (.resume i times)) =
          some credit := by
        simp [acceptedMove, hstep, hanswer, hflight, credit]
      rw [movedTo_some hmove, hstep]
      simp only [settled, hbalance]
      rw [hpending (finishReceipt rt config s.server flight times.today).1 w]
      linarith
    · obtain rfl : flight = flight' := Option.some.inj (hflight.symm.trans hflight')
      rw [hcap] at hcap'
      cases hcap'
  | false =>
    obtain ⟨hanswer, hbalance⟩ := finishReceipt_over rt hcap
    have hmove : acceptedMove config (event (interleave rt config) s (.resume i times)) =
        none := by
      simp [acceptedMove, hstep, hanswer]
    have haccounts : Accounts rt config s (.resume i times) ↔
        s.server.balance flight.shaped.nodeId = flight.before + creditDelta config flight := by
      unfold Accounts
      simp only [movedTo_none hmove, add_zero, hstep, settled, hbalance,
        fun w => hpending (finishReceipt rt config s.server flight times.today).1 w]
      constructor
      · intro h
        have hw := h flight.shaped.nodeId
        rw [if_pos rfl, moveTo_self] at hw
        linarith
      · intro h w
        by_cases hw : w = flight.shaped.nodeId
        · rw [if_pos hw, hw, h, moveTo_self]
          linarith
        · rw [if_neg hw, moveTo, if_neg hw, zero_add]
    rw [haccounts]
    constructor
    · intro h flight' hflight' _ _
      obtain rfl : flight = flight' := Option.some.inj (hflight.symm.trans hflight')
      exact h
    · intro h
      exact h flight hflight hphase hcap

/-- **One step.** A step accounts for the credits of every wallet exactly if it loses nothing. -/
theorem accounts_iff (rt : ServerRuntime) (i : Input) :
    Accounts rt config s i ↔ LosesNothing config s i := by
  cases i with
  | receipt envelope snapshot now =>
    exact iff_of_true (accounts_receipt envelope snapshot now) trivial
  | spend token amount now => exact iff_of_true (accounts_spend token amount now) trivial
  | hold token body times random =>
    exact iff_of_true (accounts_hold token body times random) trivial
  | finalize token body times => exact accounts_finalize_iff token body times
  | resume i times =>
    cases hflight : s.flights[i]? with
    | none =>
      refine iff_of_true (fun w => ?_) fun flight hf => ?_
      · have hstep : interleave rt config s (.resume i times) = (s, none) := by
          simp only [interleave, hflight]
        rw [movedTo_none (by simp [acceptedMove, hstep]), hstep, add_zero]
      · rw [hflight] at hf
        cases hf
    | some flight =>
      by_cases hphase : flight.phase = .credited
      · exact accounts_resume_finish hflight hphase
      · refine iff_of_true (accounts_resume_credits hflight hphase) fun flight' hf hcredited => ?_
        obtain rfl : flight = flight' := Option.some.inj (hflight.symm.trans hf)
        exact absurd hcredited hphase

/-- A receipt refused by the daily cap that loses nothing takes its own credit back. -/
theorem rolledBack_of_losesNothing {i : ℕ} {times : Times} {flight : Flight}
    (hflight : s.flights[i]? = some flight)
    (hout : (interleave rt config s (.resume i times)).2 = some (.refused .creditCapExceeded))
    (h : LosesNothing config s (.resume i times)) (w : JsText) :
    (interleave rt config s (.resume i times)).1.server.balance w =
      s.server.balance w - moveTo w (flight.shaped.nodeId, creditDelta config flight) := by
  by_cases hphase : flight.phase = .credited
  · have hstep : interleave rt config s (.resume i times) =
        (⟨(finishReceipt rt config s.server flight times.today).1, s.flights.eraseIdx i⟩,
          some (finishReceipt rt config s.server flight times.today).2) := by
      simp only [interleave, hflight, resumeReceipt, hphase, Outcome.settle]
    cases hcap : (applyDailyCap config s.server flight.shaped.nodeId
        (.fin (creditDelta config flight)) times.today).2 with
    | true =>
      obtain ⟨⟨balance, hanswer⟩, -⟩ := finishReceipt_within rt hcap
      rw [hstep, hanswer] at hout
      cases hout
    | false =>
      obtain ⟨-, hbalance⟩ := finishReceipt_over rt hcap
      rw [hstep, hbalance, moveTo]
      split
      · next hw => rw [hw, h flight hflight hphase hcap, add_sub_cancel_right]
      · exact (sub_zero _).symm
  · have heffect : Credits config s.server flight
        (resumeReceipt rt config s.server flight times) := resumeReceipt_effect hphase times
    simp only [interleave, hflight] at hout
    cases heq : resumeReceipt rt config s.server flight times with
    | mk server outcome =>
      rw [heq] at hout heffect
      cases heffect with
      | refused hanswer => rcases hanswer with rfl | ⟨code, rfl⟩ <;> cases hout
      | waits => cases hout
      | credited hbalance => cases hout

end Steps

def exampleServerRuntime : ServerRuntime where
  toRuntime := exampleRuntime
  bs58Decode _ := none
  toLowerCase t := t
  toASCII t := t
  naclVerify _ _ _ := none
  verifyMessage _ _ := none

def exampleServerConfig : ServerConfig where
  receipts := exampleConfig
  comments := Comments.exampleConfig
  adminToken := []
  sessionTtlMs := .fin 600000
  authChain := ['s', 'o', 'l', 'a', 'n', 'a']
  passportAllowlist := []
  passportEnabled := false
  dailyCreditCap := .fin 100
  commentsBonusMax := .fin 3
  bonusDailyCap := .fin 20
  poolDailyCap := .fin 500
  poolForfeitSplit := .fin (1 / 2)
  commentsSiteToken := ['s', 't']

def exampleToken : JsText := ['t']

def exampleToday : JsText := ['2', '0', '2', '6', '-', '0', '1', '-', '0', '1']

/-- The node has 10 credits, a session, and no room under its daily cap. -/
def exampleServer : Server where
  credits := { exampleStart with credits := FinMap.empty.set exampleNode 10 }
  nodeRegistryLoadedAt := 0
  sessions := FinMap.empty.set exampleToken ⟨exampleNode, .fin 600000⟩
  authChallenges := .empty
  passportCache := .empty
  creditWindows := FinMap.empty.set exampleNode ⟨exampleToday, .fin 100⟩
  comments := ⟨.empty, .empty, .empty, .empty⟩
  sitePools := .empty
  poolWindows := .empty
  bonusWindows := .empty
  nodeVerifications := .empty
  treasuryBalance := 0
  siteReceipts := .empty
  disk := ⟨.empty, [], [], [], [], .empty, 0, .empty⟩

/-- While the signature of a receipt is verified, the node spends 5 credits. -/
def exampleRace : List Input :=
  [.receipt exampleEnvelope none 1, .spend (some exampleToken) (some (.fin 5)) 2,
    .resume 0 ⟨3, exampleToday⟩, .resume 0 ⟨4, exampleToday⟩]

end Ddns.Coordinator
