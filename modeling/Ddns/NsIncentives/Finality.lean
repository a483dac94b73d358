import Ddns.NsIncentives.Payout
import Ddns.Lib.Updates

/-!
# Finality of usage reports

A usage report is written as final, "allowlisted implies final". But its account is created with
`init_if_needed` and nothing looks at the flag, so while the epoch lasts every verifier overwrites
it, before or after the owner has claimed. `usage_final_iff` says which runs keep what is final:
those where no accepted submission changes a final report.
-/

namespace Ddns.NsIncentives

open Tx Runs

/-- The report `v` says what the final report `u` said, so it is worth the same at all rates. -/
structure SameReport (u v : EpochUsageAggregate) : Prop where
  finalized : v.finalized = true
  queryCount : v.queryCount = u.queryCount
  receiptsRoot : v.receiptsRoot = u.receiptsRoot
  submittedBy : v.submittedBy = u.submittedBy
  reward : ∀ rewardPerQuery maxReward,
    min (v.queryCount * rewardPerQuery) maxReward = min (u.queryCount * rewardPerQuery) maxReward

/-- What is final at `st` is the same at `st'`. -/
def Keeps (st st' : State) : Prop :=
  ∀ h e u, st.usage h e = some u → u.finalized = true →
    ∃ v, st'.usage h e = some v ∧ SameReport u v

/-- **The finality law** of a run: what is final in one of its states is the same in all later
ones. -/
def Final (dep : Deployment) (c : Chain State) (is : List (Action Instr)) : Prop :=
  ∀ pre mid post, is = pre ++ mid ++ post →
    Keeps (exec (step dep) c pre).accounts (exec (step dep) c (pre ++ mid)).accounts

/-- A report of the verifier passes the checks. -/
structure Admits (c : Chain State) (attestor : Signer) (h : Hash) (e : Nat) : Prop where
  claim : ∃ claim, c.accounts.claim h = some claim ∧ claim.domainHash = h ∧ claim.status = .active
  listed : attestor.key ∈ c.accounts.config.allowlistedVerifiers
  epochLen : 0 < c.accounts.config.epochLenSlots
  epoch : c.clock.slot / c.accounts.config.epochLenSlots = e

/-- The action submits a report that passes the checks and differs from the final one there is. -/
def Overwrites (c : Chain State) (a : Action Instr) : Prop :=
  ∃ s h e q root slot u, a = .submit (.submitUsageAggregate s h e q root slot) ∧ Admits c s h e ∧
    c.accounts.usage h e = some u ∧ u.finalized = true ∧
    ¬(q = u.queryCount ∧ root = u.receiptsRoot ∧ s.key = u.submittedBy)

section Steps

variable {dep : Deployment} {clock : Clock} {st st' st'' : State} {i : Instr} {h : Hash} {e : Nat}
  {s : Signer} {q slot : Nat} {root : Hash} {u v : EpochUsageAggregate}

theorem SameReport.of_count (hfinal : v.finalized = true) (hcount : v.queryCount = u.queryCount)
    (hroot : v.receiptsRoot = u.receiptsRoot) (hby : v.submittedBy = u.submittedBy) :
    SameReport u v :=
  ⟨hfinal, hcount, hroot, hby, fun _ _ => by rw [hcount]⟩

theorem Keeps.refl (st : State) : Keeps st st :=
  fun _ _ u hu hfinal => ⟨u, hu, .of_count hfinal rfl rfl rfl⟩

theorem Keeps.trans (h₁ : Keeps st st') (h₂ : Keeps st' st'') : Keeps st st'' := by
  intro h e u hu hfinal
  obtain ⟨v, hv, hsame⟩ := h₁ h e u hu hfinal
  obtain ⟨w, hw, hsame'⟩ := h₂ h e v hv hsame.finalized
  exact ⟨w, hw, .of_count hsame'.finalized (hsame'.queryCount.trans hsame.queryCount)
    (hsame'.receiptsRoot.trans hsame.receiptsRoot) (hsame'.submittedBy.trans hsame.submittedBy)⟩

theorem Keeps.of_eq (h : st'.usage = st.usage) : Keeps st st' := by
  intro k e u hu hfinal
  exact ⟨u, by rw [h, hu], .of_count hfinal rfl rfl rfl⟩

/-- The report that a submission writes. -/
def reportOf (s : Signer) (h : Hash) (e q : Nat) (root : Hash) (slot : Nat) :
    EpochUsageAggregate where
  domainHash := h
  epochId := e
  queryCount := q
  receiptsRoot := root
  attestorCount := 1
  submittedBy := s.key
  submittedAtSlot := slot
  finalized := true

theorem submitUsageAggregate_eq_ok :
    submitUsageAggregate clock st s h e q root slot = .ok st' ↔
      Admits ⟨clock, st⟩ s h e ∧ st.setUsage h e (reportOf s h e q root slot) = st' := by
  simp only [submitUsageAggregate, requireIsAllowlisted, epochIdFromSlot, bind_eq_ok, load_eq_ok,
    require_eq_ok, exists_unit, pure_eq_ok]
  constructor
  · rintro ⟨claim, hclaim, hlisted, rfl, hactive, epoch, ⟨hlen, rfl⟩, rfl, hpost⟩
    exact ⟨⟨⟨claim, hclaim, rfl, hactive⟩, hlisted, hlen, rfl⟩, hpost⟩
  · rintro ⟨⟨⟨claim, hclaim, rfl, hactive⟩, hlisted, hlen, rfl⟩, hpost⟩
    exact ⟨claim, hclaim, hlisted, rfl, hactive, _, ⟨hlen, rfl⟩, rfl, hpost⟩

/-- What an instruction does to the reports: a submission writes one, and nothing else does. -/
theorem handle_usage (hok : handle dep clock st i = .ok st') :
    st'.usage = st.usage ∨ ∃ s h e q root slot, i = .submitUsageAggregate s h e q root slot ∧
      submitUsageAggregate clock st s h e q root slot = .ok st' := by
  cases i with
  | updateNsConfig s p =>
    simp only [handle, updateNsConfig, bind_eq_ok, demand_eq_ok, require_eq_ok, exists_unit,
      pure_eq_ok] at hok
    obtain ⟨-, -, -, -, -, rfl⟩ := hok
    exact .inl rfl
  | fundRewards s src prog n =>
    simp only [handle, fundRewards, bind_eq_ok, demand_eq_ok, require_eq_ok, exists_unit,
      pure_eq_ok] at hok
    obtain ⟨-, -, -, tokens, -, rfl⟩ := hok
    exact .inl rfl
  | createNsClaim s d k =>
    simp only [handle, createNsClaim, bind_eq_ok, vacant_eq_ok, require_eq_ok, exists_unit,
      pure_eq_ok] at hok
    obtain ⟨-, bytes, -, -, rfl⟩ := hok
    exact .inl rfl
  | revokeNsClaim s k =>
    simp only [handle, revokeNsClaim, bind_eq_ok, ownClaim_eq_ok, pure_eq_ok] at hok
    obtain ⟨c, -, rfl⟩ := hok
    exact .inl rfl
  | submitDelegationAttestation s k e proof slot =>
    simp only [handle, submitDelegationAttestation, bind_eq_ok, pure_eq_ok] at hok
    obtain ⟨c, -, -, -, -, -, -, -, -, -, epoch, -, -, -, rfl⟩ := hok
    exact .inl rfl
  | submitUsageAggregate s k e q root slot => exact .inr ⟨s, k, e, q, root, slot, rfl, hok⟩
  | claimNsRewards s k dst prog accounts a b =>
    simp only [handle, claimNsRewards, bind_eq_ok, ownClaim_eq_ok, require_eq_ok, exists_unit,
      pure_eq_ok] at hok
    obtain ⟨c, -, -, -, -, -, -, -, total, -, -, tokens, -, rfl⟩ := hok
    exact .inl rfl
  | splTransfer s src dst n =>
    simp only [handle, splTransfer, bind_eq_ok, pure_eq_ok] at hok
    obtain ⟨tokens, -, rfl⟩ := hok
    exact .inl rfl

/-- A report that says the same may be written over a final one, and no other. -/
theorem setUsage_keeps : Keeps st (st.setUsage h e (reportOf s h e q root slot)) ↔
    ∀ u, st.usage h e = some u → u.finalized = true →
      q = u.queryCount ∧ root = u.receiptsRoot ∧ s.key = u.submittedBy := by
  constructor
  · intro hkeeps u hu hfinal
    obtain ⟨v, hv, hsame⟩ := hkeeps h e u hu hfinal
    obtain rfl := Option.some.inj ((Updates.update₂_self ..).symm.trans hv)
    exact ⟨hsame.queryCount, hsame.receiptsRoot, hsame.submittedBy⟩
  · intro hsame k f u hu hfinal
    by_cases hkey : k = h ∧ f = e
    · obtain ⟨rfl, rfl⟩ := hkey
      obtain ⟨hcount, hroot, hby⟩ := hsame u hu hfinal
      exact ⟨_, Updates.update₂_self .., .of_count rfl hcount hroot hby⟩
    · exact ⟨u, (Updates.update₂_ne _ hkey).trans hu, .of_count hfinal rfl rfl rfl⟩

/-- **Step lemma**: an action keeps what is final exactly if it does not overwrite it. -/
theorem step_keeps_iff (dep : Deployment) (c : Chain State) (a : Action Instr) :
    Keeps c.accounts (step dep c a).1.accounts ↔ ¬Overwrites c a := by
  have hquiet (husage : (step dep c a).1.accounts.usage = c.accounts.usage)
      (hno : ¬Overwrites c a) : Keeps c.accounts (step dep c a).1.accounts ↔ ¬Overwrites c a :=
    iff_of_true (.of_eq husage) hno
  by_cases hsubmit : ∃ s h e q root slot, a = .submit (.submitUsageAggregate s h e q root slot) ∧
      Admits c s h e
  · obtain ⟨s, h, e, q, root, slot, rfl, hadmits⟩ := hsubmit
    have hok : process dep c.clock c.accounts (.submitUsageAggregate s h e q root slot) =
        .ok (c.accounts.setUsage h e (reportOf s h e q root slot), ()) :=
      process_eq_ok.2 (submitUsageAggregate_eq_ok.2 ⟨hadmits, rfl⟩)
    rw [step, chainStep_ok hok, setUsage_keeps]
    constructor
    · rintro hsame ⟨s', h', e', q', root', slot', u, heq, -, hu, hfinal, hdiffers⟩
      cases heq
      exact hdiffers (hsame u hu hfinal)
    · intro hno u hu hfinal
      by_contra hdiffers
      exact hno ⟨s, h, e, q, root, slot, u, rfl, hadmits, hu, hfinal, hdiffers⟩
  · refine hquiet ?_ fun ⟨s, h, e, q, root, slot, u, ha, hadmits, _⟩ =>
      hsubmit ⟨s, h, e, q, root, slot, ha, hadmits⟩
    rcases chainStep_commits (process dep) c a with ⟨hsame, -⟩ | ⟨i, st', w, rfl, hok, hs⟩
    · rw [step, hsame]
    · rw [step, hs]
      rcases handle_usage (process_eq_ok.1 hok) with husage | ⟨s, h, e, q, root, slot, rfl, hx⟩
      · exact husage
      · exact absurd ⟨s, h, e, q, root, slot, rfl, (submitUsageAggregate_eq_ok.1 hx).1⟩ hsubmit

end Steps

/-- **Exactly when reports are final.** In a run what is final stays the same, and so does the
reward of its epoch at all rates, if and only if no action overwrites a final report. -/
theorem usage_final_iff (dep : Deployment) (c : Chain State) (is : List (Action Instr)) :
    Final dep c is ↔ Each (step dep) (fun c a => ¬Overwrites c a) c is := by
  constructor
  · intro hfinal
    refine each_iff_initial.2 fun pre a post his => (step_keeps_iff dep _ a).1 ?_
    have hkeeps := hfinal pre [a] post (by rw [his, List.append_assoc]; rfl)
    rw [exec_append] at hkeeps
    exact hkeeps
  · intro heach pre mid post his
    induction mid using List.reverseRecOn generalizing post with
    | nil =>
      rw [List.append_nil]
      exact .refl _
    | append_singleton mid a ih =>
      have hmid := ih (a :: post) (by rw [his, ← List.append_assoc pre, List.append_assoc _ [a]]; rfl)
      have hstep := (step_keeps_iff dep (exec (step dep) c (pre ++ mid)) a).2
        (each_iff_initial.1 heach (pre ++ mid) a post
          (by rw [his, ← List.append_assoc pre, List.append_assoc _ [a]]; rfl))
      rw [← List.append_assoc, exec_append]
      exact hmid.trans hstep

/-! ## A report that is claimed and then changed -/

/-- A report of five queries, the claim for it, and another report of the same epoch. -/
def overwritingRun : List (Action Instr) :=
  [.submit (.fundRewards exampleAdmin 13 10 100),
    .submit (.createNsClaim exampleOwner ['a'] 97),
    .submit (.submitDelegationAttestation exampleVerifier 97 1 0 1),
    .submit (.submitUsageAggregate exampleVerifier 97 1 5 0 1),
    .submit (.claimNsRewards exampleOwner 97 14 10 [.usage 97 1, .attestation 97 1 3] 1 1),
    .submit (.submitUsageAggregate exampleVerifier 97 1 9 0 1)]

/-- The epoch is paid for five queries and reports nine. -/
theorem overwritingRun_not_final :
    (exec (step exampleDeployment) exampleGenesis overwritingRun).accounts.tokens.amount 14 = 5 ∧
    (exec (step exampleDeployment) exampleGenesis overwritingRun).accounts.queryCount 97 1 = 9 ∧
    ¬Final exampleDeployment exampleGenesis overwritingRun := by
  refine ⟨by decide, by decide, fun hfinal => ?_⟩
  obtain ⟨v, hv, hsame⟩ := hfinal (overwritingRun.take 5) (overwritingRun.drop 5) [] rfl 97 1
    (reportOf exampleVerifier 97 1 5 0 1) (by decide) rfl
  have hcount : (exec (step exampleDeployment) exampleGenesis
      (overwritingRun.take 5 ++ overwritingRun.drop 5)).accounts.queryCount 97 1 = 9 := by decide
  rw [State.queryCount, hv, Option.map_some, Option.getD_some, hsame.queryCount] at hcount
  exact absurd hcount (by decide)

end Ddns.NsIncentives
