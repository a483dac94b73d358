import Ddns.Coordinator.Credits
import Ddns.Lib.Run

/-!
# Comment holds of the coordinator

To post a comment a wallet pays an amount into a hold (`createHold`), the comment is submitted for
the hold's ticket (`submitHold`), and the site finalizes the hold with a result (`finalizeHold`):
an approved comment gets the amount back, any other result forfeits it.

A step is one call. Each read of the clock and the random part of a ticket are arguments.
-/

namespace Ddns.Coordinator.Comments

inductive HoldStatus where
  | held
  | submitted
  | approved
  | spam
  | trash
  deriving DecidableEq

structure CommentHold where
  ticketId : JsText
  wallet : JsText
  siteId : JsText
  postId : JsText
  amount : ℚ
  status : HoldStatus
  createdAt : ℚ
  expiresAt : JsNum
  commentHash : Option JsText

structure CommentState where
  holds : FinMap JsText CommentHold
  walletRate : FinMap JsText Rate
  siteRate : FinMap JsText Rate
  walletCooldown : FinMap JsText ℚ

structure CommentConfig where
  holdTtlMs : JsNum
  maxPerMinuteWallet : JsNum
  maxPerMinuteSite : JsNum
  walletCooldownMs : JsNum

/-- The texts with which a call is refused. -/
inductive CommentError where
  | invalidRequest
  | rateLimited
  | cooldownActive
  | insufficientCredits
  | ticketNotFound
  | ticketExpired
  | invalidResult
  deriving DecidableEq

structure State where
  credits : CreditsState
  comments : CommentState

/-! ## Creating a hold -/

structure HoldPayload where
  wallet : Option JsText
  siteId : Option JsText
  postId : Option JsText
  amount : Option JsNum

/-- The reads of the clock, in order. -/
structure HoldTimes where
  walletRate : ℚ
  siteRate : ℚ
  cooldown : ℚ
  created : ℚ
  stored : ℚ

/-- A field of a payload; a missing one is empty. -/
def textOf (field : Option JsText) : JsText := (field.getD []).trim

/-- `Number(payload.amount || 0)`. -/
def amountOf (amount : Option JsNum) : JsNum := (amount.filter JsNum.truthy).getD (.fin 0)

def ticketOf (random : JsText) : JsText := ['h', 'o', 'l', 'd', '_'] ++ random

/-- The calls are counted on failure too. -/
def createHold (config : CommentConfig) (state : State) (payload : HoldPayload)
    (times : HoldTimes) (random : JsText) : State × Except CommentError (JsText × JsNum) :=
  let ⟨credits, comments⟩ := state
  let wallet := textOf payload.wallet
  let siteId := textOf payload.siteId
  let postId := textOf payload.postId
  let amount := amountOf payload.amount
  if wallet = [] || siteId = [] || postId = [] || !amount.truthy || amount.le (.fin 0) then
    (state, .error .invalidRequest)
  else
    let (walletRate, within) :=
      limitRate comments.walletRate wallet config.maxPerMinuteWallet times.walletRate
    let comments := { comments with walletRate }
    if !within then (⟨credits, comments⟩, .error .rateLimited)
    else
      let (siteRate, within) :=
        limitRate comments.siteRate siteId config.maxPerMinuteSite times.siteRate
      let comments := { comments with siteRate }
      if !within then (⟨credits, comments⟩, .error .rateLimited)
      else
        let last := (comments.walletCooldown.get wallet).getD 0
        if (JsNum.fin (times.cooldown - last)).lt config.walletCooldownMs then
          (⟨credits, comments⟩, .error .cooldownActive)
        else
          match amount with
          | .fin amount =>
            let balance := getBalance credits wallet
            if balance < amount then (⟨credits, comments⟩, .error .insufficientCredits)
            else
              let ticketId := ticketOf random
              let createdAt := times.created
              let expiresAt := (JsNum.fin createdAt).add config.holdTtlMs
              let hold : CommentHold :=
                ⟨ticketId, wallet, siteId, postId, amount, .held, createdAt, expiresAt, none⟩
              (⟨{ credits with credits := credits.credits.set wallet (balance - amount) },
                { comments with
                  walletCooldown := comments.walletCooldown.set wallet times.stored
                  holds := comments.holds.set ticketId hold }⟩,
                .ok (ticketId, expiresAt))
          -- An infinite amount is above every balance.
          | _ => (⟨credits, comments⟩, .error .insufficientCredits)

/-! ## Submitting and finalizing -/

structure SubmitPayload where
  ticketId : Option JsText
  commentHash : Option JsText

def submitHold (state : State) (payload : SubmitPayload) (now : ℚ) :
    State × Except CommentError Unit :=
  let ticketId := textOf payload.ticketId
  let commentHash := textOf payload.commentHash
  if ticketId = [] || commentHash = [] then (state, .error .invalidRequest)
  else
    match state.comments.holds.get ticketId with
    | none => (state, .error .ticketNotFound)
    | some hold =>
      if hold.expiresAt.lt (.fin now) then (state, .error .ticketExpired)
      else
        let hold := { hold with commentHash := some commentHash, status := .submitted }
        ({ state with
            comments := { state.comments with holds := state.comments.holds.set ticketId hold } },
          .ok ())

structure FinalizePayload where
  ticketId : Option JsText
  result : Option JsText

def resultStatus (result : JsText) : Option HoldStatus :=
  if result = ['a', 'p', 'p', 'r', 'o', 'v', 'e', 'd'] then some .approved
  else if result = ['s', 'p', 'a', 'm'] then some .spam
  else if result = ['t', 'r', 'a', 's', 'h'] then some .trash
  else none

structure Finalized where
  wallet : JsText
  balance : ℚ
  hold : CommentHold

def finalizeHold (state : State) (payload : FinalizePayload) (now : ℚ) :
    State × Except CommentError Finalized :=
  let ticketId := textOf payload.ticketId
  let result := textOf payload.result
  if ticketId = [] || result = [] then (state, .error .invalidRequest)
  else
    match state.comments.holds.get ticketId with
    | none => (state, .error .ticketNotFound)
    | some hold =>
      if hold.expiresAt.lt (.fin now) then (state, .error .ticketExpired)
      else
        match resultStatus result with
        | none => (state, .error .invalidResult)
        | some status =>
          let wallet := hold.wallet
          let credits :=
            if status = .approved then credit state.credits wallet hold.amount else state.credits
          let hold := { hold with status }
          (⟨credits,
              { state.comments with holds := state.comments.holds.set ticketId hold }⟩,
            .ok ⟨wallet, getBalance credits wallet, hold⟩)

/-! ## Runs -/

inductive Call where
  | create (payload : HoldPayload) (times : HoldTimes) (random : JsText)
  | submit (payload : SubmitPayload) (now : ℚ)
  | finalize (payload : FinalizePayload) (now : ℚ)

inductive Answer where
  | created (result : Except CommentError (JsText × JsNum))
  | submitted (result : Except CommentError Unit)
  | finalized (result : Except CommentError Finalized)

def step (config : CommentConfig) (state : State) : Call → State × Answer
  | .create payload times random =>
    let (state, result) := createHold config state payload times random
    (state, .created result)
  | .submit payload now =>
    let (state, result) := submitHold state payload now
    (state, .submitted result)
  | .finalize payload now =>
    let (state, result) := finalizeHold state payload now
    (state, .finalized result)

end Ddns.Coordinator.Comments
