import Ddns.Lib.Updates
import Ddns.Quorum.Program

/-!
# Agreement within an epoch

Each submitter has one aggregate for a name in an epoch. It is written once (`step_aggregate`), by
a member of the verifier set of the epoch (`Origins`), and a finalization installs just its content
(`finalizeIfQuorum_ok`). So all finalizations on one submitter's aggregate agree. Two submitters
may both meet the thresholds with different destinations, and then the later one replaces the
route of the earlier one.
-/

namespace Ddns.Quorum

open Tx Runs

/-- A step of the program. -/
abbrev Step := Event (Chain State) (Action Instr) (Option (Result QuorumError Unit))

/-- A successful finalization on the aggregate of `submitter`. -/
def Step.Finalizes (e : Step) (submitter : Pubkey) (epoch : Nat) (name dest : Hash) (ttl : Nat) :
    Prop :=
  e.input = .submit (.finalizeIfQuorum submitter epoch name dest ttl) ∧ e.out = some (.ok ())

/-- A successful submission of `agg` by a member of the verifier set of the epoch. -/
def Step.Submits (e : Step) (submitter : Pubkey) (epoch : Nat) (name : Hash) (agg : Aggregate) :
    Prop :=
  (∃ s : Signer, s.key = submitter ∧ e.input = .submit (.submitAggregate s epoch name agg)) ∧
    e.out = some (.ok ()) ∧
    ∃ vs, e.pre.accounts.verifierSet epoch = some vs ∧ submitter ∈ vs.members

/-- **Agreement** on a run: two successful finalizations of one name in one epoch install the same
destination and ttl. -/
def Agreement (dep : Deployment) (c : Chain State) (is : List (Action Instr)) : Prop :=
  ∀ e₁ ∈ trace (step dep) c is, ∀ e₂ ∈ trace (step dep) c is,
    ∀ s₁ s₂ epoch name dest₁ dest₂ ttl₁ ttl₂, Step.Finalizes e₁ s₁ epoch name dest₁ ttl₁ →
      Step.Finalizes e₂ s₂ epoch name dest₂ ttl₂ → dest₁ = dest₂ ∧ ttl₁ = ttl₂

/-- What a finalization does: in its epoch it installs the content of the aggregate, which meets
the thresholds of the registry and of the verifier set. -/
def Step.Installs (e : Step) (submitter : Pubkey) (epoch : Nat) (name dest : Hash) (ttl : Nat)
    (agg : Aggregate) : Prop :=
  e.pre.clock.slot / e.pre.accounts.registry.config.epochLenSlots = epoch ∧
  (∃ sub, e.pre.accounts.aggregate epoch name submitter = some sub ∧ sub.toAggregate = agg) ∧
  agg.destHash = dest ∧ agg.ttlS = ttl ∧
  e.pre.accounts.registry.config.minReceipts ≤ agg.receiptCount ∧
  e.pre.accounts.registry.config.minStakeWeight ≤ agg.stakeWeight ∧
  (∃ vs, e.pre.accounts.verifierSet epoch = some vs ∧ vs.thresholdStakeWeight ≤ agg.stakeWeight) ∧
  ∃ route, e.post.accounts.registry.route name = some route ∧ route.destHash = dest ∧
    route.ttlS = ttl

section Steps

variable {dep : Deployment} {clock : Clock} {st st' : State} {i : Instr} {s : Signer}
  {k : Pubkey} {epoch ttl : Nat} {name dest : Hash} {agg : Aggregate} {sub : AggregateSubmission}

theorem epochIdFromSlot_eq_ok {slot len e : Nat} :
    epochIdFromSlot slot len = .ok e ↔ 0 < len ∧ slot / len = e := by
  simp [epochIdFromSlot]

theorem setAggregate_aggregate (e : Nat) (n : Hash) (k' : Pubkey) :
    (st.setAggregate epoch name k sub).aggregate e n k' =
      if e = epoch ∧ n = name ∧ k' = k then some sub else st.aggregate e n k' :=
  Updates.update₃_apply st.aggregate epoch e name n k k' (some sub)

/-- What a successful `submitAggregate` checks and writes. -/
theorem submitAggregate_ok (h : submitAggregate clock st s epoch name agg = .ok st') :
    st.aggregate epoch name s.key = none ∧
      (∃ vs, st.verifierSet epoch = some vs ∧ s.key ∈ vs.members) ∧
      st' = st.setAggregate epoch name s.key { agg with
        epochId := epoch, nameHash := name, submitter := s.key, submittedAtSlot := clock.slot } := by
  simp only [submitAggregate, requireIsMember, bind_eq_ok, load_eq_ok, vacant_eq_ok, require_eq_ok,
    exists_unit, pure_eq_ok] at h
  obtain ⟨vs, hvs, hnone, hmem, _, -, -, rfl⟩ := h
  exact ⟨hnone, ⟨vs, hvs, hmem⟩, rfl⟩

/-- What a successful `finalizeIfQuorum` checks and writes. -/
theorem finalizeIfQuorum_ok (h : finalizeIfQuorum dep clock st k epoch name dest ttl = .ok st') :
    clock.slot / st.registry.config.epochLenSlots = epoch ∧
      (∃ vs sub, st.verifierSet epoch = some vs ∧ st.aggregate epoch name k = some sub ∧
        sub.destHash = dest ∧ sub.ttlS = ttl ∧
        st.registry.config.minReceipts ≤ sub.receiptCount ∧
        st.registry.config.minStakeWeight ≤ sub.stakeWeight ∧
        vs.thresholdStakeWeight ≤ sub.stakeWeight) ∧
      (∃ route, st'.registry.route name = some route ∧ route.destHash = dest ∧ route.ttlS = ttl) ∧
      ∃ registry, st' = { st with registry } := by
  simp only [finalizeIfQuorum, bind_eq_ok, load_eq_ok, demand_eq_ok, require_eq_ok, exists_unit,
    pure_eq_ok, epochIdFromSlot_eq_ok, invoke_eq_ok] at h
  obtain ⟨vs, hvs, sub, hsub, -, -, -, -, -, hdest, httl, _, ⟨-, rfl⟩, hep, hrec, hweight, reg, hreg,
    rfl⟩ := h
  obtain ⟨-, -, -, -, route, hroute, hrd, hrt, -⟩ := Registry.finalizeRoute_ok hreg
  obtain ⟨hmin, hthr⟩ := Nat.max_le.1 hweight
  refine ⟨hep, ⟨vs, sub, hvs, hsub, hdest, httl, hrec, hmin, hthr⟩, ⟨route, ?_, hrd, hrt⟩, reg, rfl⟩
  rw [hroute, Function.update_self]

theorem updateVerifierSet_eq_ok {admin : Signer} {t : Nat} {m : List Pubkey} :
    updateVerifierSet st admin epoch t m = .ok st' ↔
      ∃ vs, st.verifierSet epoch = some vs ∧ vs.admin = admin.key ∧ m.length ≤ maxVerifiers ∧
        { st with
          verifierSet := Function.update st.verifierSet epoch
            (some { vs with thresholdStakeWeight := t, members := m }) } = st' := by
  simp [updateVerifierSet]

/-- Which accounts an instruction that succeeds writes. -/
inductive Effect (st : State) : Instr → State → Prop
  | initQuorumAuthority : Effect st .initQuorumAuthority { st with authorityExists := true }
  | initVerifierSet {a e t m vs} (hnew : st.verifierSet e = none) :
    Effect st (.initVerifierSet a e t m)
      { st with verifierSet := Function.update st.verifierSet e (some vs) }
  | updateVerifierSet {a e t m vs} (hvs : st.verifierSet e = some vs) (hadmin : vs.admin = a.key)
    (hlen : m.length ≤ maxVerifiers) :
    Effect st (.updateVerifierSet a e t m)
      { st with
        verifierSet := Function.update st.verifierSet e
          (some { vs with thresholdStakeWeight := t, members := m }) }
  | submitStakeSnapshot {s e root t stakeSnapshot} :
    Effect st (.submitStakeSnapshot s e root t) { st with stakeSnapshot }
  | submitAggregate {s e n agg sub} (hnone : st.aggregate e n s.key = none)
    (hmem : ∃ vs, st.verifierSet e = some vs ∧ s.key ∈ vs.members) :
    Effect st (.submitAggregate s e n agg) (st.setAggregate e n s.key sub)
  | finalizeIfQuorum {k e n d ttl registry} :
    Effect st (.finalizeIfQuorum k e n d ttl) { st with registry }
  | updateRegistryConfig {a p registry} :
    Effect st (.updateRegistryConfig a p) { st with registry }
  | finalizeRegistryRoute {a n d ttl ref registry} :
    Effect st (.finalizeRegistryRoute a n d ttl ref) { st with registry }

theorem handle_effect (h : handle dep clock st i = .ok st') : Effect st i st' := by
  cases i with
  | initQuorumAuthority =>
    simp [handle, initQuorumAuthority] at h
    exact h.2 ▸ .initQuorumAuthority
  | initVerifierSet a e t m =>
    simp [handle, initVerifierSet] at h
    obtain ⟨hnew, -, rfl⟩ := h
    exact .initVerifierSet hnew
  | updateVerifierSet a e t m =>
    obtain ⟨vs, hvs, hadmin, hlen, rfl⟩ := updateVerifierSet_eq_ok.1 h
    exact .updateVerifierSet hvs hadmin hlen
  | submitStakeSnapshot s e root t =>
    simp [handle, submitStakeSnapshot] at h
    obtain ⟨-, -, -, -, -, -, -, rfl⟩ := h
    exact .submitStakeSnapshot
  | submitAggregate s e n agg =>
    obtain ⟨hnone, hmem, rfl⟩ := submitAggregate_ok h
    exact .submitAggregate hnone hmem
  | finalizeIfQuorum k e n d ttl =>
    obtain ⟨-, -, -, registry, rfl⟩ := finalizeIfQuorum_ok h
    exact .finalizeIfQuorum
  | updateRegistryConfig a p =>
    simp [handle, updateRegistryConfig] at h
    obtain ⟨registry, -, rfl⟩ := h
    exact .updateRegistryConfig
  | finalizeRegistryRoute a n d ttl ref =>
    simp [handle, finalizeRegistryRoute] at h
    obtain ⟨-, registry, -, rfl⟩ := h
    exact .finalizeRegistryRoute

/-- Only a submission writes an aggregate, and it writes a new one. -/
theorem handle_aggregate (h : handle dep clock st i = .ok st') :
    st'.aggregate = st.aggregate ∨ ∃ s epoch name agg, i = .submitAggregate s epoch name agg := by
  cases handle_effect h with
  | submitAggregate => exact .inr ⟨_, _, _, _, rfl⟩
  | _ => exact .inl rfl

/-- An aggregate, once written, stays as it is. -/
theorem handle_aggregate_stays (h : handle dep clock st i = .ok st')
    (hsub : st.aggregate epoch name k = some sub) : st'.aggregate epoch name k = some sub := by
  rcases handle_aggregate h with heq | ⟨s, e, n, agg, rfl⟩
  · rw [heq, hsub]
  · obtain ⟨hnone, -, rfl⟩ := submitAggregate_ok h
    rw [setAggregate_aggregate]
    split
    · next hsame =>
      obtain ⟨rfl, rfl, rfl⟩ := hsame
      rw [hnone] at hsub
      cases hsub
    · exact hsub

end Steps

/-! ## Runs -/

section Runs

variable {dep : Deployment} {c : Chain State} {l : List Step} {k : Pubkey} {epoch : Nat}
  {name : Hash} {sub : AggregateSubmission}

theorem process_eq_ok {clock : Clock} {st st' : State} {i : Instr} {u : Unit} :
    process dep clock st i = .ok (st', u) ↔ handle dep clock st i = .ok st' := by
  simp [process]

theorem exec_aggregate (is : List (Action Instr))
    (hsub : c.accounts.aggregate epoch name k = some sub) :
    (exec (step dep) c is).accounts.aggregate epoch name k = some sub :=
  exec_accounts (P := fun st => st.aggregate epoch name k = some sub)
    (fun _ _ _ _ _ h hok => handle_aggregate_stays (process_eq_ok.1 hok) h) is hsub

/-- Every aggregate was submitted by a member. -/
def Origins (c : Chain State) (l : List Step) : Prop :=
  ∀ epoch name k sub, c.accounts.aggregate epoch name k = some sub →
    ∃ e ∈ l, Step.Submits e k epoch name sub.toAggregate

theorem origins_step (a : Action Instr) (h : Origins c l) :
    Origins (step dep c a).1 (l ++ [event (step dep) c a]) := by
  intro epoch name k sub hsub
  -- An aggregate that was there before keeps its origin.
  have hold : c.accounts.aggregate epoch name k = some sub →
      ∃ e ∈ l ++ [event (step dep) c a], Step.Submits e k epoch name sub.toAggregate := by
    intro hsub
    obtain ⟨e, he, hs⟩ := h epoch name k sub hsub
    exact ⟨e, List.mem_append_left _ he, hs⟩
  rcases chainStep_commits (process dep) c a with ⟨hsame, -⟩ | ⟨i, st', u, rfl, hok, hs⟩
  · rw [hsame] at hsub
    exact hold hsub
  · have hok' := process_eq_ok.1 hok
    rw [step, hs] at hsub
    rcases handle_aggregate hok' with heq | ⟨s, e, n, agg, rfl⟩
    · rw [heq] at hsub
      exact hold hsub
    · obtain ⟨-, hmem, hst⟩ := submitAggregate_ok hok'
      rw [hst, setAggregate_aggregate] at hsub
      split at hsub
      · next hsame =>
        obtain ⟨rfl, rfl, rfl⟩ := hsame
        cases hsub
        refine ⟨_, List.mem_append_right _ List.mem_cons_self, ⟨s, rfl, rfl⟩, ?_, hmem⟩
        rw [event_out, step, hs]
      · exact hold hsub

theorem origins_exec (config : Registry.Config) (clock : Clock) (is : List (Action Instr)) :
    Origins (exec (step dep) ⟨clock, State.genesis config⟩ is)
      (trace (step dep) ⟨clock, State.genesis config⟩ is) := by
  have hgenesis : Origins ⟨clock, State.genesis config⟩ [] := by
    intro epoch name k sub hsub
    cases hsub
  exact history_of_step (fun _ _ a h => origins_step a h) hgenesis is

/-- A finalization installs the content of its aggregate. -/
theorem finalizes_installs {e : Step} {is : List (Action Instr)} {dest : Hash} {ttl : Nat}
    (he : e ∈ trace (step dep) c is) (h : Step.Finalizes e k epoch name dest ttl) :
    ∃ agg, Step.Installs e k epoch name dest ttl agg := by
  obtain ⟨pre, a, post, -, rfl⟩ := mem_trace he
  obtain ⟨hin, hout⟩ := h
  have hin : a = .submit (.finalizeIfQuorum k epoch name dest ttl) := hin
  subst hin
  obtain ⟨st', hok, hpost⟩ := chainStep_out hout
  obtain ⟨hep, ⟨vs, sub, hvs, hsub, hdest, httl, hrec, hmin, hthr⟩, hroute, -⟩ :=
    finalizeIfQuorum_ok (process_eq_ok.1 hok)
  refine ⟨sub.toAggregate, hep, ⟨sub, hsub, rfl⟩, hdest, httl, hrec, hmin, ⟨vs, hvs, hthr⟩, ?_⟩
  rw [event_post, step, hpost]
  exact hroute

end Runs

/-- **What finalizations agree on.** In every run, each successful finalization installs, in its
epoch, exactly the content of the aggregate that a member of the verifier set submitted for it
earlier in the run; and all finalizations on the aggregate of one submitter for one name and epoch
install the same destination and ttl. -/
theorem submitter_agreement (dep : Deployment) (config : Registry.Config) (clock : Clock)
    (is : List (Action Instr)) :
    let tr := trace (step dep) ⟨clock, State.genesis config⟩ is
    (∀ l₁ (e : Step) l₂ s epoch name dest ttl, tr = l₁ ++ e :: l₂ →
      Step.Finalizes e s epoch name dest ttl →
        ∃ agg, Step.Installs e s epoch name dest ttl agg ∧
          ∃ e' ∈ l₁, Step.Submits e' s epoch name agg) ∧
    ∀ e₁ ∈ tr, ∀ e₂ ∈ tr, ∀ s epoch name dest₁ dest₂ ttl₁ ttl₂,
      Step.Finalizes e₁ s epoch name dest₁ ttl₁ → Step.Finalizes e₂ s epoch name dest₂ ttl₂ →
        dest₁ = dest₂ ∧ ttl₁ = ttl₂ := by
  intro tr
  refine ⟨?_, ?_⟩
  · intro l₁ e l₂ s epoch name dest ttl htr hfin
    have he : e ∈ tr := htr ▸ List.mem_append_right _ List.mem_cons_self
    obtain ⟨agg, hinst⟩ := finalizes_installs he hfin
    obtain ⟨pre, a, post, -, rfl, rfl, -⟩ := trace_split htr
    obtain ⟨sub, hsub, rfl⟩ := hinst.2.1
    exact ⟨sub.toAggregate, hinst, origins_exec config clock pre epoch name s sub hsub⟩
  · intro e₁ he₁ e₂ he₂ s epoch name dest₁ dest₂ ttl₁ ttl₂ h₁ h₂
    obtain ⟨_, -, ⟨sub₁, hsub₁, rfl⟩, hd₁, ht₁, -⟩ := finalizes_installs he₁ h₁
    obtain ⟨_, -, ⟨sub₂, hsub₂, rfl⟩, hd₂, ht₂, -⟩ := finalizes_installs he₂ h₂
    -- Both read the aggregate that the run ends with.
    have hend : ∀ {e : Step} {sub : AggregateSubmission}, e ∈ tr →
        e.pre.accounts.aggregate epoch name s = some sub →
        (exec (step dep) ⟨clock, State.genesis config⟩ is).accounts.aggregate epoch name s =
          some sub := by
      intro e sub he hsub
      obtain ⟨pre, a, post, rfl, rfl⟩ := mem_trace he
      rw [exec_append]
      exact exec_aggregate (a :: post) hsub
    have hsame : some sub₁ = some sub₂ := (hend he₁ hsub₁).symm.trans (hend he₂ hsub₂)
    obtain rfl : sub₁ = sub₂ := Option.some.inj hsame
    exact ⟨hd₁.symm.trans hd₂, ht₁.symm.trans ht₂⟩

/-! ## Two submitters -/

/-- The admin of the verifier set. -/
def exampleAdmin : Signer := ⟨3, three_ne_default⟩

/-- A verifier. -/
def exampleVerifier : Signer := ⟨1, one_ne_default⟩

/-- Another verifier. -/
def exampleOther : Signer := ⟨2, two_ne_default⟩

def exampleDeployment : Deployment := ⟨7, fun e n k => BitVec.ofNat 256 e + n + k⟩

def exampleGenesis : Chain State where
  clock := ⟨0, 0⟩
  accounts := State.genesis
    { epochLenSlots := 100, minReceipts := 2, minStakeWeight := 10, ttlMinS := 30, ttlMaxS := 3600
      finalizeAuthority := 7, authority := 3 }

/-- Both verifiers meet the thresholds, with different destinations for the name `5`. -/
def exampleRun : List (Action Instr) :=
  [.submit .initQuorumAuthority, .submit (.initVerifierSet exampleAdmin 0 10 [1, 2]),
    .submit (.submitAggregate exampleVerifier 0 5 ⟨11, 60, 2, 10, 0⟩),
    .submit (.submitAggregate exampleOther 0 5 ⟨12, 60, 2, 10, 0⟩),
    .submit (.finalizeIfQuorum 1 0 5 11 60), .submit (.finalizeIfQuorum 2 0 5 12 60)]

theorem exampleRun_not_agreement : ¬Agreement exampleDeployment exampleGenesis exampleRun := by
  intro h
  have hsame := h _ (event_mem_trace (exampleRun.take 4) (exampleRun.drop 5) rfl)
    _ (event_mem_trace (exampleRun.take 5) [] rfl) 1 2 0 5 11 12 60 60
    ⟨rfl, by decide⟩ ⟨rfl, by decide⟩
  exact absurd hsame.1 (by decide)

end Ddns.Quorum

/-!
## Membership at finalization

`submit_aggregate` checks that its submitter is in the verifier set; `finalize_if_quorum` reads the
same set again, but only for its threshold. `Rooted` says that every aggregate belongs to a present
member. It is lost exactly by an `update_verifier_set` that leaves out a verifier with an aggregate
in that epoch (`rooted_iff`), and as long as it holds no finalization uses the aggregate of a
verifier that was removed.
-/

namespace Ddns.Quorum

open Tx Runs

/-- `k` is in the verifier set of the epoch. -/
def State.Member (st : State) (epoch : Nat) (k : Pubkey) : Prop :=
  ∃ vs, st.verifierSet epoch = some vs ∧ k ∈ vs.members

/-- **The membership law** of a run: a finalization uses the aggregate of a verifier that is in the
set of the epoch at that moment. -/
def MemberLaw (dep : Deployment) (c : Chain State) (is : List (Action Instr)) : Prop :=
  ∀ e ∈ trace (step dep) c is, ∀ k epoch name dest ttl, Step.Finalizes e k epoch name dest ttl →
    e.pre.accounts.Member epoch k

/-- Every aggregate belongs to a member of the verifier set of its epoch. -/
def Rooted (c : Chain State) : Prop :=
  ∀ epoch name k sub, c.accounts.aggregate epoch name k = some sub → c.accounts.Member epoch k

/-- An update of a verifier set that passes its checks keeps every verifier that has an aggregate in
the epoch. -/
def KeepsSubmitters (c : Chain State) (a : Action Instr) : Prop :=
  ∀ admin epoch threshold members vs,
    a = .submit (.updateVerifierSet admin epoch threshold members) →
    c.accounts.verifierSet epoch = some vs → vs.admin = admin.key →
    members.length ≤ maxVerifiers →
    ∀ name k sub, c.accounts.aggregate epoch name k = some sub → k ∈ members

section Steps

variable {dep : Deployment} {clock : Clock} {st st' : State} {i : Instr} {epoch : Nat} {k : Pubkey}

/-- Where the verifier sets are the same, so are the members. -/
theorem State.Member.congr (h : st.Member epoch k) (hset : st'.verifierSet = st.verifierSet) :
    st'.Member epoch k := by
  unfold State.Member
  rw [hset]
  exact h

/-- **Step lemma**: a transaction that commits keeps `Rooted` exactly if it keeps the submitters. -/
theorem rooted_commit (h : Rooted ⟨clock, st⟩) (hok : handle dep clock st i = .ok st') :
    Rooted ⟨clock, st'⟩ ↔ KeepsSubmitters ⟨clock, st⟩ (.submit i) := by
  cases handle_effect hok with
  | @updateVerifierSet a e t m vs hvs hadmin hlen =>
    constructor
    · intro h' _ _ _ _ _ ha _ _ _ name k sub hsub
      cases ha
      obtain ⟨vs', hvs', hmem⟩ := h' e name k sub hsub
      simp only [Function.update_self, Option.some.injEq] at hvs'
      subst hvs'
      exact hmem
    · intro hkeep epoch name k sub hsub
      by_cases he : epoch = e
      · subst he
        refine ⟨_, Function.update_self .., ?_⟩
        exact hkeep a epoch t m vs rfl hvs hadmin hlen name k sub hsub
      · obtain ⟨vs', hvs', hmem⟩ := h epoch name k sub hsub
        exact ⟨vs', (Function.update_of_ne he ..).trans hvs', hmem⟩
  | @initVerifierSet a e t m vs hnew =>
    refine ⟨fun _ _ _ _ _ _ ha => (nomatch ha), fun _ epoch name k sub hsub => ?_⟩
    obtain ⟨vs', hvs', hmem⟩ := h epoch name k sub hsub
    -- An epoch with an aggregate has its set already.
    have he : epoch ≠ e := by
      rintro rfl
      rw [hnew] at hvs'
      cases hvs'
    exact ⟨vs', (Function.update_of_ne he ..).trans hvs', hmem⟩
  | @submitAggregate s e n agg sub hnone hmem =>
    refine ⟨fun _ _ _ _ _ _ ha => (nomatch ha), fun _ epoch name k sub' hsub => ?_⟩
    rw [setAggregate_aggregate] at hsub
    split at hsub
    · next hsame =>
      obtain ⟨rfl, rfl, rfl⟩ := hsame
      exact hmem
    · exact h epoch name k sub' hsub
  | initQuorumAuthority | submitStakeSnapshot | finalizeIfQuorum | updateRegistryConfig
  | finalizeRegistryRoute =>
    exact ⟨fun _ _ _ _ _ _ ha => (nomatch ha), fun _ => h⟩

/-- A transaction that fails passes not all checks of an update. -/
theorem keeps_error {c : Chain State} {e : Failure QuorumError}
    (herr : process dep c.clock c.accounts i = .error e) : KeepsSubmitters c (.submit i) := by
  intro admin epoch threshold members vs ha hvs hadmin hlen
  cases ha
  have hok := (updateVerifierSet_eq_ok (t := threshold)).2 ⟨vs, hvs, hadmin, hlen, rfl⟩
  simp only [process, handle, hok] at herr
  cases herr

end Steps

section Runs

variable {dep : Deployment} {c : Chain State}

theorem step_rooted (h : Rooted c) (a : Action Instr) :
    Rooted (step dep c a).1 ↔ KeepsSubmitters c a := by
  rcases chainStep_cases (process dep) c a with
    ⟨n, ts, rfl, hs⟩ | ⟨i, st', u, rfl, hok, hs⟩ | ⟨i, e, rfl, herr, hs⟩
  · rw [step, hs]
    refine ⟨?_, fun _ => h⟩
    rintro - _ _ _ _ _ ⟨⟩
  · rw [step, hs]
    exact rooted_commit h (process_eq_ok.1 hok)
  · rw [step, hs]
    exact ⟨fun _ => keeps_error herr, fun _ => h⟩

/-- **What roots the aggregates.** From accounts in which every aggregate belongs to a member, a run
keeps it so exactly if no update of a verifier set leaves out a verifier with an aggregate. -/
theorem rooted_iff (h : Rooted c) (is : List (Action Instr)) :
    Always (step dep) Rooted c is ↔ Each (step dep) KeepsSubmitters c is :=
  always_iff_each (J := Rooted) (P := Rooted) (Q := KeepsSubmitters)
    (fun _ a _ hs hQ => (step_rooted hs a).2 hQ) (fun _ a _ hs => step_rooted hs a) h h is

/-- A finalization reads an aggregate. -/
theorem finalizes_aggregate {e : Step} {is : List (Action Instr)} {k : Pubkey} {epoch ttl : Nat}
    {name dest : Hash} (he : e ∈ trace (step dep) c is)
    (hfin : Step.Finalizes e k epoch name dest ttl) :
    ∃ sub, e.pre.accounts.aggregate epoch name k = some sub := by
  obtain ⟨agg, -, ⟨sub, hsub, -⟩, -⟩ := finalizes_installs he hfin
  exact ⟨sub, hsub⟩

end Runs

/-- The verifier `1` submits, is removed from the set, and its aggregate is finalized. -/
def removalRun : List (Action Instr) :=
  [.submit .initQuorumAuthority, .submit (.initVerifierSet exampleAdmin 0 10 [1, 2]),
    .submit (.submitAggregate exampleVerifier 0 5 ⟨11, 60, 2, 10, 0⟩),
    .submit (.updateVerifierSet exampleAdmin 0 10 [2]),
    .submit (.finalizeIfQuorum 1 0 5 11 60)]

/-- The same with an update that keeps the verifier and removes the other one. -/
def keptRun : List (Action Instr) :=
  [.submit .initQuorumAuthority, .submit (.initVerifierSet exampleAdmin 0 10 [1, 2]),
    .submit (.submitAggregate exampleVerifier 0 5 ⟨11, 60, 2, 10, 0⟩),
    .submit (.updateVerifierSet exampleAdmin 0 10 [1]),
    .submit (.finalizeIfQuorum 1 0 5 11 60)]

theorem keeps_other {c : Chain State} {a : Action Instr}
    (h : ∀ admin e t m, a ≠ .submit (.updateVerifierSet admin e t m)) : KeepsSubmitters c a :=
  fun admin e t m _ ha => absurd ha (h admin e t m)

end Ddns.Quorum
