import Ddns.Lib.FinMap
import Ddns.Lib.Js

/-!
# Credits of the coordinator

The state that the routes of the coordinator share: the credits of each wallet, the accepted
receipts under their ids, the wallets that may submit receipts, the open challenges and the rate
windows. Credits are rational, and a wallet without an entry has none.

Times are milliseconds; every read of the clock is an argument of its own. A definition without a
docstring is the item of the source with the same words in its name.
-/

namespace Ddns.Coordinator

/-- A receipt in its envelope, as the request carries it. -/
structure ReceiptEnvelope where
  receipt : Option Json
  signature : Option JsText
  publicKey : Option JsText

structure Challenge where
  wallet : JsText
  chunkHash : JsText
  expiresAt : JsNum

/-- The calls counted since `windowStart`. -/
structure Rate where
  count : Nat
  windowStart : ℚ

structure CreditsState where
  receipts : FinMap JsText ReceiptEnvelope
  credits : FinMap JsText ℚ
  passports : List JsText
  nodePubkeys : List JsText
  challenges : FinMap JsText Challenge
  rate : FinMap JsText Rate

def getBalance (state : CreditsState) (wallet : JsText) : ℚ := (state.credits.get wallet).getD 0

def credit (state : CreditsState) (wallet : JsText) (amount : ℚ) : CreditsState :=
  { state with credits := state.credits.set wallet (getBalance state wallet + amount) }

@[simp] theorem getBalance_credit (state : CreditsState) (wallet : JsText) (amount : ℚ)
    (w : JsText) : getBalance (credit state wallet amount) w =
      getBalance state w + if w = wallet then amount else 0 := by
  by_cases h : w = wallet
  · simp [getBalance, credit, h]
  · simp [getBalance, credit, FinMap.get_set_ne, h]

/-! ## Rate windows -/

/-- The rate of `key` after one more call at `now`; a window lasts a minute. -/
def countCall (rates : FinMap JsText Rate) (key : JsText) (now : ℚ) : Rate :=
  let rate := (rates.get key).getD ⟨0, now⟩
  let rate := if now - rate.windowStart > 60000 then ⟨0, now⟩ else rate
  { rate with count := rate.count + 1 }

/-- The rates with this call counted, and whether it is within the limit. -/
def limitRate (rates : FinMap JsText Rate) (key : JsText) (maxPerMinute : JsNum) (now : ℚ) :
    FinMap JsText Rate × Bool :=
  let rate := countCall rates key now
  (rates.set key rate, !maxPerMinute.lt (.fin rate.count))

end Ddns.Coordinator
