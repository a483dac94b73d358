import Ddns.Coordinator.Comments
import Mathlib.Tactic.Linarith

/-!
# Holds are settled once

A hold takes its amount from the wallet. Settling it either gives the amount back or forfeits it,
so what a wallet has, its unsettled and its forfeited holds together stay what the wallet started
with. `finalizeHold` does not look at the status of the hold, so it settles a hold again;
`holdLaw_iff` says that this is the only way to break the law.
-/

namespace Ddns.Coordinator.Comments

open Runs

/-- A step of the routes. -/
abbrev Step := Event State Call Answer

def balance (s : State) (w : JsText) : ℚ := getBalance s.credits w

/-- The results with which each ticket was finalized. -/
abbrev Settlements := JsText → List HoldStatus

/-- The ticket that a step finalizes, and the result. -/
def settlement (e : Step) : Option (JsText × HoldStatus) :=
  match e.input, e.out with
  | .finalize payload _, .finalized (.ok finalized) =>
    some (textOf payload.ticketId, finalized.hold.status)
  | _, _ => none

def Settlements.add (g : Settlements) : Option (JsText × HoldStatus) → Settlements
  | some (t, result) => Function.update g t (g t ++ [result])
  | none => g

def record (g : Settlements) (e : Step) : Settlements := g.add (settlement e)

/-- The settlements of a run. -/
def settlements (l : List Step) : Settlements := l.foldl record fun _ => []

/-- The amount of an unsettled hold of the wallet `w`. -/
def unsettledAmount (g : Settlements) (w t : JsText) (h : CommentHold) : ℚ :=
  if h.wallet = w ∧ g t = [] then h.amount else 0

/-- The amount of a hold of the wallet `w` that was settled as spam or trash. -/
def forfeitedAmount (g : Settlements) (w t : JsText) (h : CommentHold) : ℚ :=
  if h.wallet = w ∧ (.spam ∈ g t ∨ .trash ∈ g t) then h.amount else 0

/-- **The hold law** of a state: no hold was settled twice, and each wallet's credits, unsettled
and forfeited holds make up what it had at the start. -/
structure Balanced (start s : State) (g : Settlements) : Prop where
  once : ∀ t, (g t).length ≤ 1
  conserved : ∀ w, balance s w + s.comments.holds.total (unsettledAmount g w) +
    s.comments.holds.total (forfeitedAmount g w) = balance start w
  bounded : ∀ w, balance s w ≤ balance start w

/-- The law holds in every state of the run. -/
def HoldLaw (config : CommentConfig) (start : State) (calls : List Call) : Prop :=
  ∀ pre post, calls = pre ++ post →
    Balanced start (exec (step config) start pre) (settlements (trace (step config) start pre))

/-- The call passes the checks of `finalizeHold`. -/
structure Finalizes (s : State) (payload : FinalizePayload) (now : ℚ) (hold : CommentHold)
    (result : HoldStatus) : Prop where
  ticket : textOf payload.ticketId ≠ []
  found : s.comments.holds.get (textOf payload.ticketId) = some hold
  unexpired : hold.expiresAt.lt (.fin now) = false
  result : resultStatus (textOf payload.result) = some result

/-- The call finalizes a hold that was finalized before. -/
def Refinalizes (s : State) (g : Settlements) : Call → Prop
  | .finalize payload now =>
    (∃ hold result, Finalizes s payload now hold result) ∧ g (textOf payload.ticketId) ≠ []
  | _ => False

/-- The random part of a new ticket makes a ticket that is not in use. -/
def Unused (s : State) : Call → Prop
  | .create _ _ random => s.comments.holds.get (ticketOf random) = none
  | _ => True

/-! ## What a call does -/

/-- What a call does to the credits and the holds, and the hold that it settles. -/
inductive Effect (s s' : State) : Call → Option (JsText × HoldStatus) → Prop
  | keeps {c} (hholds : s'.comments.holds = s.comments.holds)
      (hbal : ∀ w, balance s' w = balance s w) : Effect s s' c none
  | creates {payload times random hold}
      (hholds : s'.comments.holds = s.comments.holds.set (ticketOf random) hold)
      (hpos : 0 < hold.amount)
      (hbal : ∀ w, balance s' w = balance s w - if w = hold.wallet then hold.amount else 0) :
      Effect s s' (.create payload times random) none
  | submits {c t hold hold'} (hfound : s.comments.holds.get t = some hold)
      (hholds : s'.comments.holds = s.comments.holds.set t hold')
      (hwallet : hold'.wallet = hold.wallet) (hamount : hold'.amount = hold.amount)
      (hbal : ∀ w, balance s' w = balance s w) : Effect s s' c none
  | finalizes {payload now hold result} (hchecks : Finalizes s payload now hold result)
      (hholds : s'.comments.holds =
        s.comments.holds.set (textOf payload.ticketId) { hold with status := result })
      (hbal : ∀ w, balance s' w =
        balance s w + if result = .approved ∧ w = hold.wallet then hold.amount else 0) :
      Effect s s' (.finalize payload now) (some (textOf payload.ticketId, result))

section Steps

variable {config : CommentConfig} {s s' start : State} {g : Settlements} {c : Call}

theorem createHold_effect (payload : HoldPayload) (times : HoldTimes) (random : JsText) :
    Effect s (createHold config s payload times random).1 (.create payload times random) none := by
  unfold createHold
  simp only
  split
  · exact .keeps rfl fun _ => rfl
  · next hvalid =>
    split
    · exact .keeps rfl fun _ => rfl
    · split
      · exact .keeps rfl fun _ => rfl
      · split
        · exact .keeps rfl fun _ => rfl
        · split
          · next amount hamount =>
            split
            · exact .keeps rfl fun _ => rfl
            · rw [Bool.not_eq_true, Bool.or_eq_false_iff, hamount] at hvalid
              have hpos : 0 < amount := not_le.1 (by simpa [JsNum.le] using hvalid.2)
              refine .creates rfl hpos fun w => ?_
              by_cases hw : w = textOf payload.wallet
              · simp [balance, getBalance, hw]
              · simp [balance, getBalance, FinMap.get_set_ne, hw]
          · exact .keeps rfl fun _ => rfl

theorem submitHold_effect (payload : SubmitPayload) (now : ℚ) :
    Effect s (submitHold s payload now).1 (.submit payload now) none := by
  unfold submitHold
  simp only
  split
  · exact .keeps rfl fun _ => rfl
  · split
    · exact .keeps rfl fun _ => rfl
    · next hold hfound =>
      split
      · exact .keeps rfl fun _ => rfl
      · exact .submits hfound rfl rfl rfl fun _ => rfl

/-- The result of a finalization that passes the checks. -/
theorem finalizeHold_ok {payload : FinalizePayload} {now : ℚ} {hold : CommentHold}
    {result : HoldStatus} (h : Finalizes s payload now hold result) :
    finalizeHold s payload now =
      (⟨if result = .approved then credit s.credits hold.wallet hold.amount else s.credits,
        { s.comments with
          holds := s.comments.holds.set (textOf payload.ticketId) { hold with status := result } }⟩,
      .ok ⟨hold.wallet, getBalance (if result = .approved then
        credit s.credits hold.wallet hold.amount else s.credits) hold.wallet,
        { hold with status := result }⟩) := by
  have hresult : textOf payload.result ≠ [] := by
    intro hempty
    have hno := h.result
    rw [hempty] at hno
    cases hno
  simp [finalizeHold, h.ticket, hresult, h.found, h.unexpired, h.result]

/-- Any other finalization is refused and changes nothing. -/
theorem finalizeHold_error {payload : FinalizePayload} {now : ℚ}
    (h : ∀ hold result, ¬Finalizes s payload now hold result) :
    ∃ error, finalizeHold s payload now = (s, .error error) := by
  unfold finalizeHold
  simp only
  split
  · exact ⟨_, rfl⟩
  · next hvalid =>
    split
    · exact ⟨_, rfl⟩
    · next hold hfound =>
      split
      · exact ⟨_, rfl⟩
      · next hexpired =>
        split
        · exact ⟨_, rfl⟩
        · next result hresult =>
          refine absurd ⟨?_, hfound, by simpa using hexpired, hresult⟩ (h hold result)
          intro hempty
          simp [hempty] at hvalid

/-- Every call has an effect, and settles the hold that its event reports. -/
theorem step_effect (config : CommentConfig) (s : State) (c : Call) :
    Effect s (step config s c).1 c (settlement (event (step config) s c)) := by
  cases c with
  | create payload times random => exact createHold_effect payload times random
  | submit payload now => exact submitHold_effect payload now
  | finalize payload now =>
    change Effect s (finalizeHold s payload now).1 (.finalize payload now)
      (settlement ⟨s, .finalize payload now, .finalized (finalizeHold s payload now).2, _⟩)
    by_cases h : ∃ hold result, Finalizes s payload now hold result
    · obtain ⟨hold, result, h⟩ := h
      rw [finalizeHold_ok h]
      refine .finalizes h rfl fun w => ?_
      by_cases hr : result = .approved
      · simp [balance, hr]
      · simp [balance, hr]
    · obtain ⟨error, heq⟩ := finalizeHold_error fun hold result hf => h ⟨hold, result, hf⟩
      rw [heq]
      exact .keeps rfl fun _ => rfl

/-- A call that passes the checks of `finalizeHold` settles its hold. -/
theorem settlement_of_finalizes {payload : FinalizePayload} {now : ℚ} {hold : CommentHold}
    {result : HoldStatus} (h : Finalizes s payload now hold result) :
    settlement (event (step config) s (.finalize payload now)) =
      some (textOf payload.ticketId, result) := by
  change settlement ⟨s, .finalize payload now, .finalized (finalizeHold s payload now).2, _⟩ = _
  rw [finalizeHold_ok h]
  rfl

/-! ## The sums of a wallet -/

/-- What a hold keeps from its wallet. -/
def keptAmount (g : Settlements) (w t : JsText) (h : CommentHold) : ℚ :=
  unsettledAmount g w t h + forfeitedAmount g w t h

theorem keptAmount_unsettled {t : JsText} (ht : g t = []) (w : JsText) (h : CommentHold) :
    keptAmount g w t h = if w = h.wallet then h.amount else 0 := by
  simp [keptAmount, unsettledAmount, forfeitedAmount, ht, eq_comm]

theorem resultStatus_eq_some {text : JsText} {result : HoldStatus}
    (h : resultStatus text = some result) :
    result = .approved ∨ result = .spam ∨ result = .trash := by
  unfold resultStatus at h
  repeat' split at h
  all_goals cases h
  · exact .inl rfl
  · exact .inr (.inl rfl)
  · exact .inr (.inr rfl)

/-- A hold settled as approved keeps nothing, any other keeps its amount. -/
theorem keptAmount_settled {t text : JsText} {result : HoldStatus} (ht : g t = [result])
    (hresult : resultStatus text = some result) (w : JsText) (h : CommentHold) :
    keptAmount g w t h =
      if w = h.wallet then (if result = .approved then 0 else h.amount) else 0 := by
  rcases resultStatus_eq_some hresult with rfl | rfl | rfl <;>
    simp [keptAmount, unsettledAmount, forfeitedAmount, ht, eq_comm]

/-- **The invariant**: only known tickets are settled, and holds have positive amounts. -/
structure Known (s : State) (g : Settlements) : Prop where
  unknown : ∀ t, s.comments.holds.get t = none → g t = []
  positive : ∀ t h, s.comments.holds.get t = some h → 0 < h.amount

theorem Known.kept_nonneg (hk : Known s g) (w : JsText) :
    0 ≤ s.comments.holds.total (keptAmount g w) := by
  refine FinMap.total_nonneg fun t h ht => ?_
  have hpos := hk.positive t h ht
  refine add_nonneg ?_ ?_
  · unfold unsettledAmount
    split
    · exact hpos.le
    · exact le_rfl
  · unfold forfeitedAmount
    split
    · exact hpos.le
    · exact le_rfl

/-- The law, with the sums of a wallet taken together. -/
theorem balanced_iff (hk : Known s g) : Balanced start s g ↔
    (∀ t, (g t).length ≤ 1) ∧
      ∀ w, balance s w + s.comments.holds.total (keptAmount g w) = balance start w := by
  have hsum : ∀ w, s.comments.holds.total (keptAmount g w) =
      s.comments.holds.total (unsettledAmount g w) +
        s.comments.holds.total (forfeitedAmount g w) :=
    fun w => FinMap.total_add _ _ _
  constructor
  · intro h
    refine ⟨h.once, fun w => ?_⟩
    rw [hsum, ← add_assoc]
    exact h.conserved w
  · rintro ⟨honce, hcons⟩
    refine ⟨honce, fun w => ?_, fun w => ?_⟩
    · rw [add_assoc, ← hsum]
      exact hcons w
    · rw [← hcons w]
      exact le_add_of_nonneg_right (hk.kept_nonneg w)

/-! ## One step -/

section Effects

variable {o : Option (JsText × HoldStatus)}

theorem Effect.known (h : Effect s s' c o) (hu : Unused s c) (hk : Known s g) :
    Known s' (g.add o) := by
  cases h with
  | keeps hholds hbal => exact ⟨hholds ▸ hk.unknown, hholds ▸ hk.positive⟩
  | @creates payload times random hold hholds hpos hbal =>
    refine ⟨fun t ht => ?_, fun t h ht => ?_⟩
    · rw [hholds, FinMap.get_set] at ht
      split at ht
      · cases ht
      · exact hk.unknown t ht
    · rw [hholds, FinMap.get_set] at ht
      split at ht
      · cases ht
        exact hpos
      · exact hk.positive t h ht
  | @submits c t₀ hold hold' hfound hholds hwallet hamount hbal =>
    refine ⟨fun t ht => ?_, fun t h ht => ?_⟩
    · rw [hholds, FinMap.get_set] at ht
      split at ht
      · cases ht
      · exact hk.unknown t ht
    · rw [hholds, FinMap.get_set] at ht
      split at ht
      · cases ht
        rw [hamount]
        exact hk.positive _ _ hfound
      · exact hk.positive t h ht
  | @finalizes payload now hold result hchecks hholds hbal =>
    refine ⟨fun t ht => ?_, fun t h ht => ?_⟩
    · rw [hholds, FinMap.get_set] at ht
      split at ht
      · cases ht
      · next hne =>
        rw [Settlements.add, Function.update_of_ne hne]
        exact hk.unknown t ht
    · rw [hholds, FinMap.get_set] at ht
      split at ht
      · cases ht
        exact hk.positive _ hold hchecks.found
      · exact hk.positive t h ht

/-- What a wallet has and what its holds keep stay the same together. -/
theorem Effect.kept (h : Effect s s' c o) (hu : Unused s c) (hk : Known s g)
    (hq : ¬Refinalizes s g c) (w : JsText) :
    balance s' w + s'.comments.holds.total (keptAmount (g.add o) w) =
      balance s w + s.comments.holds.total (keptAmount g w) := by
  cases h with
  | keeps hholds hbal => rw [hholds, hbal, Settlements.add]
  | creates hholds hpos hbal =>
    rw [hholds, hbal, Settlements.add, FinMap.total_set_new _ hu,
      keptAmount_unsettled (hk.unknown _ hu)]
    linarith
  | @submits c t hold hold' hfound hholds hwallet hamount hbal =>
    have hsame : keptAmount g w t hold' = keptAmount g w t hold := by
      simp only [keptAmount, unsettledAmount, forfeitedAmount, hwallet, hamount]
    have htotal := FinMap.total_set (keptAmount g w) hfound hold'
    rw [hsame] at htotal
    rw [hholds, hbal, Settlements.add, add_right_cancel htotal]
  | @finalizes payload now hold result hchecks hholds hbal =>
    have hfresh : g (textOf payload.ticketId) = [] :=
      not_not.1 fun hne => hq ⟨⟨hold, result, hchecks⟩, hne⟩
    have htotal := FinMap.total_set_of_eq (f := keptAmount g w)
      (g := keptAmount (g.add (some (textOf payload.ticketId, result))) w) hchecks.found
      (fun t ht => by
        funext h
        simp only [keptAmount, unsettledAmount, forfeitedAmount, Settlements.add,
          Function.update_of_ne ht]) { hold with status := result }
    rw [keptAmount_unsettled hfresh,
      keptAmount_settled (by simp [Settlements.add, hfresh]) hchecks.result] at htotal
    rw [hholds, hbal]
    by_cases hw : w = hold.wallet
    · by_cases hr : result = .approved
      · rw [if_pos hw, if_pos hw, if_pos hr, add_zero] at htotal
        rw [if_pos ⟨hr, hw⟩, ← htotal, add_assoc, add_comm hold.amount]
      · rw [if_pos hw, if_pos hw, if_neg hr] at htotal
        rw [if_neg fun h => hr h.1, add_zero, add_right_cancel htotal]
    · rw [if_neg hw, if_neg hw, add_zero, add_zero] at htotal
      rw [if_neg fun h => hw h.2, add_zero, htotal]

theorem Effect.once (h : Effect s s' c o) (hq : ¬Refinalizes s g c)
    (honce : ∀ t, (g t).length ≤ 1) (t : JsText) : (g.add o t).length ≤ 1 := by
  cases h with
  | @finalizes payload now hold result hchecks hholds hbal =>
    have hfresh : g (textOf payload.ticketId) = [] :=
      not_not.1 fun hne => hq ⟨⟨hold, result, hchecks⟩, hne⟩
    by_cases ht : t = textOf payload.ticketId
    · simp [Settlements.add, ht, hfresh]
    · rw [Settlements.add, Function.update_of_ne ht]
      exact honce t
  | _ => exact honce t

end Effects

/-- A step keeps the law exactly if it does not finalize a hold again. -/
theorem balanced_step_iff (hk : Known s g) (hu : Unused s c) (hb : Balanced start s g) :
    Balanced start (step config s c).1 (record g (event (step config) s c)) ↔
      ¬Refinalizes s g c := by
  have he := step_effect config s c
  have hk' : Known (step config s c).1 (record g (event (step config) s c)) := he.known hu hk
  constructor
  · intro hb' hre
    cases c with
    | finalize payload now =>
      obtain ⟨⟨hold, result, hf⟩, hne⟩ := hre
      have htwice := hb'.once (textOf payload.ticketId)
      rw [record, settlement_of_finalizes hf, Settlements.add, Function.update_self,
        List.length_append] at htwice
      have hpos := List.length_pos_of_ne_nil hne
      simp only [List.length_singleton] at htwice
      omega
    | create payload times random => exact hre
    | submit payload now => exact hre
  · intro hq
    obtain ⟨honce, hcons⟩ := (balanced_iff hk).1 hb
    refine (balanced_iff hk').2 ⟨he.once hq honce, fun w => ?_⟩
    rw [← hcons w]
    exact he.kept hu hk hq w

end Steps

def exampleWallet : JsText := ['0', 'x', 'a', 'b', 'c']

def exampleRandom : JsText := List.replicate 32 'a'

def exampleConfig : CommentConfig := ⟨.fin 900000, .fin 5, .fin 20, .fin 0⟩

/-- The wallet has 5 credits. -/
def exampleStart : State :=
  ⟨⟨.empty, FinMap.empty.set exampleWallet 5, [], [], .empty, .empty⟩,
    ⟨.empty, .empty, .empty, .empty⟩⟩

def exampleApproval : Call :=
  .finalize ⟨some (ticketOf exampleRandom), some ['a', 'p', 'p', 'r', 'o', 'v', 'e', 'd']⟩ 3

/-- A comment from its hold to its approval. -/
def exampleComment : List Call :=
  [.create ⟨some exampleWallet, some ['s', '1'], some ['1', '0'], some (.fin 1)⟩
      ⟨1, 1, 1, 1, 1⟩ exampleRandom,
    .submit ⟨some (ticketOf exampleRandom), some ['h']⟩ 2, exampleApproval]

end Ddns.Coordinator.Comments
