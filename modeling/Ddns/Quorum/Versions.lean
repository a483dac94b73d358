import Ddns.Quorum.Agreement

/-!
# Versions of a route

A route is finalized under the config of the moment, through the quorum program or by the finalize
authority itself. Its version counts how often a finalization changed what it says. `finalization_law`
puts both together: what a finalization by quorum has checked, and what the versions of a route count
over the whole history of both programs.
-/

namespace Ddns.Quorum

open Tx Runs

/-- What a route says. -/
abbrev Content := Hash × Nat

/-- A finalization by quorum, of a fresh aggregate that meets the thresholds of the registry and of
the verifier set, with a ttl in the range of the registry. -/
structure Step.Quorate (e : Step) (submitter : Pubkey) (epoch : Nat) (name dest : Hash) (ttl : Nat)
    (vs : VerifierSet) (agg : AggregateSubmission) : Prop where
  verifierSet : e.pre.accounts.verifierSet epoch = some vs
  aggregate : e.pre.accounts.aggregate epoch name submitter = some agg
  content : (agg.destHash, agg.ttlS) = (dest, ttl)
  epochLen : 0 < e.pre.accounts.registry.config.epochLenSlots
  current : e.pre.clock.slot / e.pre.accounts.registry.config.epochLenSlots = agg.epochId
  receipts : e.pre.accounts.registry.config.minReceipts ≤ agg.receiptCount
  weight : max e.pre.accounts.registry.config.minStakeWeight vs.thresholdStakeWeight ≤
    agg.stakeWeight
  ttlMin : e.pre.accounts.registry.config.ttlMinS ≤ agg.ttlS
  ttlMax : agg.ttlS ≤ e.pre.accounts.registry.config.ttlMaxS

/-- What a step finalizes for the name. -/
def finalized (name : Hash) (e : Step) : Option Content :=
  match e.input, e.out with
  | .submit (.finalizeIfQuorum _ _ n d ttl), some (.ok _) => if n = name then some (d, ttl) else none
  | .submit (.finalizeRegistryRoute _ n d ttl _), some (.ok _) =>
    if n = name then some (d, ttl) else none
  | _, _ => none

/-- What was finalized for the name, in order. -/
def finalizations (name : Hash) (l : List Step) : List Content := l.filterMap (finalized name)

/-- How often an entry differs from the one before it. -/
def changes : List Content → Nat
  | x :: y :: xs => (if x = y then 0 else 1) + changes (y :: xs)
  | _ => 0

/-- What a route says of its name. -/
def content (r : Registry.CanonicalRoute) : Content := (r.destHash, r.ttlS)

theorem changes_concat (xs : List Content) (x y : Content) :
    changes (xs ++ [x, y]) = changes (xs ++ [x]) + if x = y then 0 else 1 := by
  induction xs with
  | nil => simp [changes]
  | cons z xs ih =>
    cases xs with
    | nil => simp [changes]
    | cons w xs =>
      simp only [List.cons_append, changes] at ih ⊢
      omega

section Steps

variable {dep : Deployment} {clock : Clock} {st st' : State} {c : Chain State} {l : List Step}
  {e : Step} {name : Hash} {x : Content}

/-- What a finalization writes into a route: a first version, the next one for another content, or the
same one for the same. -/
inductive Written (old : Option Registry.CanonicalRoute) (x : Content)
    (r : Registry.CanonicalRoute) : Prop
  | first (hold : old = none) (hversion : r.version = 1) (hcontent : content r = x)
  | change (q : Registry.CanonicalRoute) (hold : old = some q) (hne : content q ≠ x)
    (hversion : r.version = q.version + 1) (hcontent : content r = x)
  | keep (q : Registry.CanonicalRoute) (hold : old = some q) (heq : content q = x)
    (hversion : r.version = q.version) (hcontent : content r = x)

theorem finalizeRoute_written {reg reg' : Registry.State} {authority ref : Pubkey} {dest : Hash}
    {ttl : Nat} (hpos : ∀ q, reg.route name = some q → 0 < q.version)
    (h : Registry.finalizeRoute clock reg authority name dest ttl ref = .ok reg') :
    reg'.config = reg.config ∧ ∃ r, reg'.route = Function.update reg.route name (some r) ∧
      Written (reg.route name) (dest, ttl) r := by
  simp only [Registry.finalizeRoute, bind_eq_ok, require_eq_ok, exists_unit, pure_eq_ok] at h
  obtain ⟨-, -, r, hr, rfl⟩ := h
  refine ⟨rfl, r, rfl, ?_⟩
  cases hold : reg.route name with
  | none =>
    have hzero : Registry.CanonicalRoute.zero.version = 0 := rfl
    rw [hold, Option.getD_none, Registry.CanonicalRoute.finalize, if_pos hzero] at hr
    cases hr
    exact .first rfl rfl rfl
  | some q =>
    rw [hold, Option.getD_some, Registry.CanonicalRoute.finalize,
      if_neg (Nat.ne_of_gt (hpos q hold))] at hr
    split at hr
    · next hne =>
      simp only [bind_eq_ok, okOr_eq_ok, Checked.add_eq_some, pure_eq_ok] at hr
      obtain ⟨_, ⟨-, rfl⟩, rfl⟩ := hr
      refine .change q rfl (fun hsame => ?_) rfl rfl
      obtain ⟨hdest, httl⟩ := Prod.mk.injEq .. ▸ hsame
      exact hne.elim (fun h => h hdest) (fun h => h httl)
    · next hsame =>
      rw [not_or, not_not, not_not] at hsame
      cases hr
      have hcontent : content q = (dest, ttl) := Prod.ext hsame.1 hsame.2
      exact .keep q rfl hcontent rfl hcontent

/-- What a step does to the route of a name. -/
inductive RouteStep (name : Hash) (e : Step) : Prop
  | other (hfin : finalized name e = none)
    (hroute : e.post.accounts.registry.route name = e.pre.accounts.registry.route name)
  | write (x : Content) (r : Registry.CanonicalRoute) (hfin : finalized name e = some x)
    (hroute : e.post.accounts.registry.route name = some r)
    (hwritten : Written (e.pre.accounts.registry.route name) x r)

theorem finalized_error {c c' : Chain State} {i : Instr} {err : Failure QuorumError} :
    finalized name ⟨c, .submit i, some (.error err), c'⟩ = none := by
  cases i <;> rfl

/-- A finalization of one route is a step of every route. -/
theorem routeStep_of_finalize {reg reg' : Registry.State} {authority ref : Pubkey} {n dest : Hash}
    {ttl : Nat} (hpos : ∀ q, reg.route name = some q → 0 < q.version)
    (h : Registry.finalizeRoute clock reg authority n dest ttl ref = .ok reg')
    (hpre : e.pre.accounts.registry = reg) (hpost : e.post.accounts.registry = reg')
    (hfin : finalized name e = if n = name then some (dest, ttl) else none) :
    RouteStep name e := by
  by_cases hn : n = name
  · subst hn
    obtain ⟨-, r, hr, hwritten⟩ := finalizeRoute_written hpos h
    refine .write (dest, ttl) r ?_ ?_ ?_
    · rw [hfin, if_pos rfl]
    · rw [hpost, hr, Function.update_self]
    · rw [hpre]
      exact hwritten
  · obtain ⟨-, -, -, -, r, hr, -⟩ := Registry.finalizeRoute_ok h
    refine .other ?_ ?_
    · rw [hfin, if_neg hn]
    · rw [hpost, hpre, hr, Function.update_of_ne (Ne.symm hn)]

theorem routeStep (dep : Deployment) (c : Chain State) (a : Action Instr)
    (hpos : ∀ q, c.accounts.registry.route name = some q → 0 < q.version) :
    RouteStep name (event (step dep) c a) := by
  unfold event
  rcases chainStep_cases (process dep) c a with
    ⟨k, ts, rfl, hs⟩ | ⟨i, st', u, rfl, hok, hs⟩ | ⟨i, err, rfl, -, hs⟩
  · rw [step, hs]
    exact .other rfl rfl
  · rw [step, hs]
    have hok := process_eq_ok.1 hok
    cases i with
    | finalizeIfQuorum k epoch n d ttl =>
      simp only [handle, finalizeIfQuorum, bind_eq_ok, load_eq_ok, demand_eq_ok, require_eq_ok,
        exists_unit, pure_eq_ok, invoke_eq_ok] at hok
      obtain ⟨vs, -, sub, -, -, -, -, -, -, -, -, _, -, -, -, -, reg, hreg, rfl⟩ := hok
      exact routeStep_of_finalize hpos hreg rfl rfl rfl
    | finalizeRegistryRoute s n d ttl ref =>
      simp only [handle, finalizeRegistryRoute, bind_eq_ok, demand_eq_ok, exists_unit, pure_eq_ok,
        invoke_eq_ok] at hok
      obtain ⟨-, reg, hreg, rfl⟩ := hok
      exact routeStep_of_finalize hpos hreg rfl rfl rfl
    | updateRegistryConfig s p =>
      simp only [handle, updateRegistryConfig, Registry.updateConfig, bind_eq_ok, demand_eq_ok,
        require_eq_ok, exists_unit, pure_eq_ok, invoke_eq_ok] at hok
      obtain ⟨_, ⟨-, -, rfl⟩, rfl⟩ := hok
      exact .other rfl rfl
    | _ =>
      cases handle_effect hok
      exact .other rfl rfl
  · rw [step, hs]
    exact .other finalized_error rfl

/-- The route of a name says what was finalized last, and its version counts the changes. -/
def Versioned (name : Hash) (c : Chain State) (l : List Step) : Prop :=
  (c.accounts.registry.route name = none ∧ finalizations name l = []) ∨
    ∃ r xs, c.accounts.registry.route name = some r ∧
      finalizations name l = xs ++ [content r] ∧ r.version = 1 + changes (xs ++ [content r])

theorem Versioned.pos (h : Versioned name c l) (q : Registry.CanonicalRoute)
    (hq : c.accounts.registry.route name = some q) : 0 < q.version := by
  rcases h with ⟨hnone, -⟩ | ⟨r, xs, hr, -, hversion⟩
  · cases hq.symm.trans hnone
  · cases hq.symm.trans hr
    omega

theorem RouteStep.keepsVersioned (hs : RouteStep name e) (h : Versioned name e.pre l) :
    Versioned name e.post (l ++ [e]) := by
  cases hs with
  | other hfin hroute =>
    rw [Versioned, hroute, finalizations, filterMap_concat_none hfin]
    exact h
  | write x r hfin hroute hwritten =>
    have hlist : finalizations name (l ++ [e]) = finalizations name l ++ [x] :=
      filterMap_concat_some hfin l
    refine .inr ⟨r, finalizations name l, hroute, ?_, ?_⟩
    · cases hwritten with
      | first _ _ hcontent | change _ _ _ _ hcontent | keep _ _ _ _ hcontent =>
        rw [hlist, hcontent]
    · cases hwritten with
      | first hold hversion hcontent =>
        rcases h with ⟨-, hnil⟩ | ⟨r', -, hr', -⟩
        · rw [hnil, hversion]
          rfl
        · cases hold.symm.trans hr'
      | change q hold hne hversion hcontent =>
        rcases h with ⟨hnone, -⟩ | ⟨q', xs, hq', hxs, hcount⟩
        · cases hold.symm.trans hnone
        · cases hold.symm.trans hq'
          rw [hxs, hversion, hcount, hcontent, List.append_assoc, List.singleton_append,
            changes_concat, if_neg hne]
          omega
      | keep q hold heq hversion hcontent =>
        rcases h with ⟨hnone, -⟩ | ⟨q', xs, hq', hxs, hcount⟩
        · cases hold.symm.trans hnone
        · cases hold.symm.trans hq'
          rw [hxs, hversion, hcount, hcontent, List.append_assoc, List.singleton_append,
            changes_concat, if_pos heq]
          omega

theorem versioned_run (dep : Deployment) (config : Registry.Config) (clock : Clock) (name : Hash)
    (is : List (Action Instr)) :
    Versioned name (exec (step dep) ⟨clock, State.genesis config⟩ is)
      (trace (step dep) ⟨clock, State.genesis config⟩ is) :=
  history_of_step (J := Versioned name)
    (fun c _ a h => (routeStep dep c a h.pos).keepsVersioned h) (.inl ⟨rfl, rfl⟩) is

/-- The route has moved on from a version, or still says the same. -/
def Since (name : Hash) (version : Nat) (x : Content) (c : Chain State) : Prop :=
  ∃ r, c.accounts.registry.route name = some r ∧ 0 < version ∧
    (version < r.version ∨ r.version = version ∧ content r = x)

theorem step_since {version : Nat} (a : Action Instr) (h : Since name version x c) :
    Since name version x (step dep c a).1 := by
  obtain ⟨r, hr, hpos, hsince⟩ := h
  have hversion : 0 < r.version := by omega
  have hs : RouteStep name (event (step dep) c a) := by
    refine routeStep dep c a fun q hq => ?_
    cases hq.symm.trans hr
    exact hversion
  cases hs with
  | other hfin hroute => exact ⟨r, hroute.trans hr, hpos, hsince⟩
  | write y r' hfin hroute hwritten =>
    refine ⟨r', hroute, hpos, ?_⟩
    cases hwritten with
    | first hold => cases hr.symm.trans hold
    | change q hold hne hversion hcontent =>
      cases hr.symm.trans hold
      exact .inl (by omega)
    | keep q hold heq hversion hcontent =>
      cases hr.symm.trans hold
      rw [hversion, hcontent, ← heq]
      exact hsince

/-- A finalization by quorum has checked its aggregate. -/
theorem finalizes_quorate {k : Pubkey} {epoch ttl : Nat} {dest : Hash} {a : Action Instr}
    (h : Step.Finalizes (event (step dep) c a) k epoch name dest ttl) :
    ∃ vs agg, Step.Quorate (event (step dep) c a) k epoch name dest ttl vs agg := by
  obtain ⟨hin, hout⟩ := h
  have hin : a = .submit (.finalizeIfQuorum k epoch name dest ttl) := hin
  subst hin
  obtain ⟨st', hok, -⟩ := chainStep_out hout
  have hok := process_eq_ok.1 hok
  simp only [handle, finalizeIfQuorum, bind_eq_ok, load_eq_ok, demand_eq_ok, require_eq_ok,
    exists_unit, pure_eq_ok, epochIdFromSlot_eq_ok, invoke_eq_ok] at hok
  obtain ⟨vs, hvs, sub, hsub, -, -, -, hepoch, -, hdest, httl, _, ⟨hlen, rfl⟩, hcurrent, hreceipts,
    hweight, reg, hreg, -⟩ := hok
  obtain ⟨-, hmin, hmax, -⟩ := Registry.finalizeRoute_ok hreg
  subst hdest httl
  exact ⟨vs, sub, hvs, hsub, rfl, hlen, hcurrent.trans hepoch.symm, hreceipts, hweight, hmin, hmax⟩

end Steps

/-- **Finalizations.** In every run, a finalization by quorum is one of a current aggregate that meets
the thresholds and the ttl range of the moment. The version of a route is one more than the number of
finalizations that changed what it says, over the whole history; and two states of a route with the
same version say the same. -/
theorem finalization_law (dep : Deployment) (config : Registry.Config) (clock : Clock)
    (is : List (Action Instr)) :
    (∀ e ∈ trace (step dep) ⟨clock, State.genesis config⟩ is, ∀ k epoch name dest ttl,
      Step.Finalizes e k epoch name dest ttl →
        ∃ vs agg, Step.Quorate e k epoch name dest ttl vs agg) ∧
    (∀ name r, (exec (step dep) ⟨clock, State.genesis config⟩ is).accounts.registry.route name =
        some r →
      r.version =
        1 + changes (finalizations name (trace (step dep) ⟨clock, State.genesis config⟩ is)) ∧
      (finalizations name (trace (step dep) ⟨clock, State.genesis config⟩ is)).getLast? =
        some (content r)) ∧
    ∀ pre post name r r', is = pre ++ post →
      (exec (step dep) ⟨clock, State.genesis config⟩ pre).accounts.registry.route name = some r →
      (exec (step dep) ⟨clock, State.genesis config⟩ is).accounts.registry.route name = some r' →
      r.version = r'.version → content r = content r' := by
  refine ⟨?_, ?_, ?_⟩
  · intro e he k epoch name dest ttl hfin
    obtain ⟨pre, a, post, -, rfl⟩ := mem_trace he
    exact finalizes_quorate hfin
  · intro name r hr
    rcases versioned_run dep config clock name is with ⟨hnone, -⟩ | ⟨r', xs, hr', hlist, hversion⟩
    · cases hr.symm.trans hnone
    · cases hr.symm.trans hr'
      rw [hlist]
      exact ⟨hversion, List.getLast?_concat ..⟩
  · rintro pre post name r r' rfl hr hr' hsame
    have hpos : 0 < r.version := (versioned_run dep config clock name pre).pos r hr
    have hsince : Since name r.version (content r)
        (exec (step dep) (exec (step dep) ⟨clock, State.genesis config⟩ pre) post) :=
      exec_induction (fun _ a h => step_since a h) ⟨r, hr, hpos, .inr ⟨rfl, rfl⟩⟩ post
    rw [exec_append] at hr'
    obtain ⟨q, hq, -, hlt | ⟨-, hcontent⟩⟩ := hsince
    · cases hq.symm.trans hr'
      omega
    · cases hq.symm.trans hr'
      exact hcontent.symm

end Ddns.Quorum
