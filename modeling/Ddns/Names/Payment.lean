import Ddns.Names.Auction
import Ddns.Names.Binding
import Ddns.Lib.Balances

/-!
# The payment of auctions

`place_bid` moves lamports from the wallet of a bidder into its vault, `withdraw_losing_bid` moves
them back, and nothing else touches a vault, so the lamports of every vault are accounted for
(`exec_accounted`). `settle_auction` names the winner's vault and the treasury and records the
highest bid as the price of the name, but it moves nothing: `payment_iff` says that a run obeys the
payment law only if no auction is settled in it.
-/

namespace Ddns.Names

open Tx Runs

/-- What the wallet of each bidder has paid into its vault, what the vault has refunded to it, and
what a treasury has collected. -/
structure Flows where
  paid : Hash → Pubkey → Nat
  refunded : Hash → Pubkey → Nat
  collected : Hash → Pubkey → Nat

def Flows.none : Flows := ⟨fun _ _ => 0, fun _ _ => 0, fun _ _ => 0⟩

/-- A bid pays what leaves the wallet of the bidder, a withdrawal refunds what reaches it, and a
settlement collects what reaches the treasury. -/
def Flows.observe (f : Flows) (e : Step) : Flows :=
  let before := e.pre.accounts.lamports
  let after := e.post.accounts.lamports
  match e.input, e.out with
  | .submit (.placeBid b h _), some (.ok _) =>
    { f with paid := addFor f.paid h b.key (before (.wallet b.key) - after (.wallet b.key)) }
  | .submit (.withdrawLosingBid b h), some (.ok _) =>
    { f with
      refunded := addFor f.refunded h b.key (after (.wallet b.key) - before (.wallet b.key)) }
  | .submit (.settleAuction w h t), some (.ok _) =>
    { f with collected := addFor f.collected h w.key (after (.wallet t) - before (.wallet t)) }
  | _, _ => f

/-- The flows of a run. -/
def flows (l : List Step) : Flows := l.foldl Flows.observe Flows.none

/-- The lamports of every vault are accounted for. -/
def Accounted (st : State) (f : Flows) : Prop :=
  ∀ h k, f.paid h k = st.lamports (.escrowVault h k) + f.refunded h k + f.collected h k

/-- A settlement of the auction of `h` by `w` pays its highest bid, which it records as the price of
the name, from the vault of the winner to the treasury vault. -/
structure Paid (e : Step) (w : Signer) (h : Hash) (pcfg : PremiumConfig) (a : Auction)
    (p : PremiumName) : Prop where
  config : e.pre.accounts.premiumConfig = some pcfg
  auction : e.pre.accounts.auction h = some a
  premium : e.post.accounts.premium h = some p
  price : p.purchaseLamports = a.highestBidLamports
  vault : e.post.accounts.lamports (.escrowVault h w.key) + a.highestBidLamports =
    e.pre.accounts.lamports (.escrowVault h w.key)
  treasury : e.post.accounts.lamports (.wallet pcfg.treasuryVault) =
    e.pre.accounts.lamports (.wallet pcfg.treasuryVault) + a.highestBidLamports

/-- **The payment law** of a run: every settlement is paid, and what the bidders have paid into the
vaults is still there, was refunded or was collected, in each vault and in all of them together. -/
structure PaymentLaw (dep : Deployment) (c : Chain State) (is : List (Action Instr)) : Prop where
  settlement : ∀ e ∈ trace (step dep) c is, ∀ w h t, e.input = .submit (.settleAuction w h t) →
    e.out = some (.ok ()) → ∃ pcfg a p, Paid e w h pcfg a p
  vaults : ∀ pre post, is = pre ++ post →
    Accounted (exec (step dep) c pre).accounts (flows (trace (step dep) c pre))
  total : ∀ pre post, is = pre ++ post →
    ∑ h, ∑ k, (flows (trace (step dep) c pre)).paid h k =
      ∑ h, ∑ k, (exec (step dep) c pre).accounts.lamports (.escrowVault h k) +
        ∑ h, ∑ k, (flows (trace (step dep) c pre)).refunded h k +
        ∑ h, ∑ k, (flows (trace (step dep) c pre)).collected h k

/-- The next action is a settlement that passes its checks: the highest bidder settles an auction
that has ended and is not settled, for a name that nobody has. -/
def Settlement (c : Chain State) (act : Action Instr) : Prop :=
  ∃ w h pcfg a, act = .submit (.settleAuction w h pcfg.treasuryVault) ∧ c.accounts.config ≠ none ∧
    c.accounts.premiumConfig = some pcfg ∧ c.accounts.auction h = some a ∧
    c.accounts.premium h = none ∧ a.nameHash = h ∧ a.settled = false ∧ a.endSlot ≤ c.clock.slot ∧
    0 < a.highestBidLamports ∧ a.highestBidder = w.key

section Accounts

variable {dep : Deployment} {clock : Clock} {st st' : State} {f f' : Flows} {i : Instr} {h : Hash}
  {k : Pubkey}

/-- Where one vault changes at most, with its flows, the others stay accounted for. -/
theorem Accounted.update (hacc : Accounted st f)
    (hself : f'.paid h k =
      st'.lamports (.escrowVault h k) + f'.refunded h k + f'.collected h k)
    (hother : ∀ h' k', (h', k') ≠ (h, k) → f'.paid h' k' = f.paid h' k' ∧
      f'.refunded h' k' = f.refunded h' k' ∧ f'.collected h' k' = f.collected h' k' ∧
      st'.lamports (.escrowVault h' k') = st.lamports (.escrowVault h' k')) :
    Accounted st' f' := by
  intro h' k'
  by_cases heq : (h', k') = (h, k)
  · cases heq
    exact hself
  · obtain ⟨hp, hr, hc, hv⟩ := hother h' k' heq
    rw [hp, hr, hc, hv]
    exact hacc h' k'

/-- Where no vault changes, and nothing flows, nothing does. -/
theorem Accounted.of_sameVaults (hacc : Accounted st f)
    (hv : SameVaults st.lamports st'.lamports) : Accounted st' f := by
  intro h k
  rw [hv h k]
  exact hacc h k

/-- **Step lemma**: an instruction keeps the vaults accounted for. -/
theorem effect_accounted (hacc : Accounted st f) (heff : Effect dep clock st i st') :
    Accounted st' (f.observe ⟨⟨clock, st⟩, .submit i, some (.ok ()), ⟨clock, st'⟩⟩) := by
  cases heff with
  | @placeBid b h n pcfg a e paid endSlot hbid =>
    have hold := hacc h b.key
    have hwallet := hbid.wallet
    have hvault := hbid.vault
    refine hacc.update (h := h) (k := b.key) ?_ ?_
    · show addFor f.paid h b.key (st.lamports (.wallet b.key) - paid (.wallet b.key)) h b.key =
        paid (.escrowVault h b.key) + f.refunded h b.key + f.collected h b.key
      rw [addFor_self]
      omega
    · intro h' k' hne
      exact ⟨addFor_ne _ _ hne, rfl, rfl, hbid.vaults h' k' hne⟩
  | @withdrawLosingBid b h a e hw =>
    have hold := hacc h b.key
    have hcovered := hw.covered
    refine hacc.update (h := h) (k := b.key) ?_ ?_
    · show f.paid h b.key = _ + addFor f.refunded h b.key _ h b.key + f.collected h b.key
      rw [addFor_self]
      simp only [State.setLamports, ne_eq, reduceCtorEq, not_false_eq_true, Function.update_of_ne,
        Function.update_self]
      omega
    · intro h' k' hne
      refine ⟨rfl, addFor_ne _ _ hne, rfl, ?_⟩
      have hvault : Holder.escrowVault h' k' ≠ .escrowVault h b.key := by
        intro heq
        cases heq
        exact hne rfl
      simp [State.setLamports, hvault]
  | @settleAuction w h t pcfg a hpcfg ha =>
    have hold := hacc h w.key
    refine hacc.update (h := h) (k := w.key) ?_ ?_
    · show f.paid h w.key = st.lamports (.escrowVault h w.key) + f.refunded h w.key +
        addFor f.collected h w.key (st.lamports (.wallet t) - st.lamports (.wallet t)) h w.key
      rw [addFor_self]
      omega
    · intro h' k' hne
      exact ⟨rfl, rfl, addFor_ne _ _ hne, rfl⟩
  | purchasePremium cfg pcfg label paid hcfg hpcfg hnone hlabel hclass hpaid =>
    exact hacc.of_sameVaults hpaid
  | claimSubdomain cfg paid hcfg hnone hpaid => exact hacc.of_sameVaults hpaid
  | _ => exact hacc

end Accounts

/-! ## Runs -/

section Runs

variable {dep : Deployment} {c : Chain State} {f : Flows} {act : Action Instr}

theorem Flows.observe_rejected {e : Step} (hout : e.out ≠ some (.ok ())) : f.observe e = f := by
  unfold Flows.observe
  split
  · next hok => exact absurd hok hout
  · next hok => exact absurd hok hout
  · next hok => exact absurd hok hout
  · rfl

theorem step_accounted (dep : Deployment) (act : Action Instr) (hacc : Accounted c.accounts f) :
    Accounted (step dep c act).1.accounts (f.observe (event (step dep) c act)) := by
  rcases step_effect dep c act with ⟨hsame, hno⟩ | ⟨i, st', rfl, heff, hs⟩
  · rw [Flows.observe_rejected hno, hsame]
    exact hacc
  · unfold event
    rw [hs]
    exact effect_accounted hacc heff

/-- **Run lemma**: after every run the vaults are accounted for. -/
theorem exec_accounted (dep : Deployment) (lamports : Pubkey → Nat) (clock : Clock)
    (is : List (Action Instr)) :
    Accounted (exec (step dep) ⟨clock, State.genesis lamports⟩ is).accounts
      (flows (trace (step dep) ⟨clock, State.genesis lamports⟩ is)) := by
  have hstart : Accounted (State.genesis lamports) Flows.none := fun _ _ => rfl
  have hall : Always (monitored (step dep) Flows.observe) (fun x => Accounted x.1.accounts x.2)
      (⟨clock, State.genesis lamports⟩, Flows.none) is :=
    Always.of_step (fun _ act h => step_accounted dep act h) hstart is
  exact (always_monitored Flows.observe).1 hall is [] (List.append_nil is).symm

/-- What holds of each vault holds of all of them together. -/
theorem Accounted.total {st : State} (hacc : Accounted st f) :
    ∑ h, ∑ k, f.paid h k = ∑ h, ∑ k, st.lamports (.escrowVault h k) + ∑ h, ∑ k, f.refunded h k +
      ∑ h, ∑ k, f.collected h k := by
  simp only [← Finset.sum_add_distrib]
  exact Finset.sum_congr rfl fun h _ => Finset.sum_congr rfl fun k _ => hacc h k

/-- A settlement that passes its checks succeeds, and moves no lamports. -/
theorem settlement_ok (dep : Deployment) (hQ : Settlement c act) :
    ∃ w h t pcfg a, act = .submit (.settleAuction w h t) ∧ c.accounts.premiumConfig = some pcfg ∧
      c.accounts.auction h = some a ∧ 0 < a.highestBidLamports ∧
      (step dep c act).2 = some (.ok ()) ∧
      (step dep c act).1.accounts.lamports = c.accounts.lamports := by
  obtain ⟨w, h, pcfg, a, rfl, hcfg, hpcfg, ha, hnone, hname, hset, hended, hbid, hwinner⟩ := hQ
  have hok := settleAuction_eq_ok.2
    ⟨pcfg, a, hcfg, hpcfg, ha, rfl, hnone, hname, hset, hended, hbid, hwinner, rfl⟩
  have hproc : process dep c.clock c.accounts (.settleAuction w h pcfg.treasuryVault) =
      .ok (_, ()) := map_eq_ok.2 ⟨_, hok, rfl⟩
  refine ⟨w, h, _, pcfg, a, rfl, hpcfg, ha, hbid, ?_, ?_⟩
  · rw [step, chainStep_ok hproc]
  · rw [step, chainStep_ok hproc]
    rfl

end Runs

/-- **Exactly when auctions are paid.** A run obeys the payment law if and only if no step of it is a
settlement that passes its checks. -/
theorem payment_iff (dep : Deployment) (lamports : Pubkey → Nat) (clock : Clock)
    (is : List (Action Instr)) :
    PaymentLaw dep ⟨clock, State.genesis lamports⟩ is ↔
      Each (step dep) (fun c act => ¬Settlement c act) ⟨clock, State.genesis lamports⟩ is := by
  constructor
  · intro hlaw
    refine each_iff_mem_trace.2 fun e he hQ => ?_
    have hsettle := hlaw.settlement e he
    obtain ⟨pre, act, post, -, rfl⟩ := mem_trace he
    rw [event_pre, event_input] at hQ
    obtain ⟨w, h, t, pcfg, a, hi, hpcfg, ha, hbid, hout, hlam⟩ := settlement_ok dep hQ
    obtain ⟨pcfg', a', p, hpaid⟩ := hsettle w h t hi hout
    obtain rfl : a' = a := Option.some.inj (hpaid.auction.symm.trans ha)
    have hvault := hpaid.vault
    have hsame := congrFun hlam (.escrowVault h w.key)
    dsimp only [event_post, event_pre] at hvault hsame
    omega
  · intro hQ
    have hmem := each_iff_mem_trace.1 hQ
    refine ⟨?_, ?_, ?_⟩
    · intro e he w h t hi hout
      have hno := hmem e he
      obtain ⟨pre, act, post, -, rfl⟩ := mem_trace he
      obtain ⟨st', heff, -⟩ := event_effect hi hout
      cases heff with
      | settleAuction pcfg a hpcfg ha htreasury hnone hname hset hended hbid hwinner hcfg =>
        subst htreasury
        exact absurd ⟨w, h, pcfg, a, hi, hcfg, hpcfg, ha, hnone, hname, hset, hended, hbid,
          hwinner⟩ hno
    · exact fun pre _ _ => exec_accounted dep lamports clock pre
    · exact fun pre _ _ => (exec_accounted dep lamports clock pre).total

/-! ## A winner that is not charged -/

/-- The deployment knows the SHA-256 of `abc.dns` and of `user.dns`. -/
def settleDeployment : Deployment :=
  { exampleDeployment with
    sha256 := fun bytes =>
      if bytes = asBytes exampleName then exampleHash
      else if bytes = asBytes saleZone then saleZoneHash else 0 }

/-- A bid of 10 wins the auction of `abc.dns`, which is settled at its end. -/
def settleRun : List (Action Instr) :=
  [.submit (.initNamesConfig exampleAuthority 8 saleZone 5 0 true true),
    .submit (.initPremiumConfig exampleAuthority 8 9 1 100 0 true),
    .submit (.createAuction exampleAuthority exampleName exampleHash none none),
    .submit (.placeBid exampleBidder exampleHash 10), .elapse 100 0,
    .submit (.settleAuction exampleBidder exampleHash 8)]

/-- The settlement leaves the bid of the winner in its vault. -/
theorem settleRun_not_paid : ¬PaymentLaw settleDeployment exampleGenesis settleRun := by
  intro hlaw
  obtain ⟨pcfg, a, p, hpaid⟩ := hlaw.settlement _ (event_mem_trace (settleRun.take 5) [] rfl)
    exampleBidder exampleHash 8 rfl (by decide)
  have hbid : (exec (step settleDeployment) exampleGenesis (settleRun.take 5)).accounts.auction
      exampleHash = some ⟨exampleHash, 0, 100, 1, 2, 10, false⟩ := by decide
  have ha := Option.some.inj (hpaid.auction.symm.trans hbid)
  have hvault := hpaid.vault
  rw [ha] at hvault
  exact absurd hvault (by decide)

end Ddns.Names
