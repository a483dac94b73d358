import Ddns.Names.Auction
import Ddns.Lib.Updates

/-!
# The outcome of an auction

The bids of a bidder add up in its record, and each accepted bid lifts that record above the highest
bid so far. So the highest bid is the record of the highest bidder and above every other record
(`Ranked`), through withdrawals and settlements too. The end of an auction only moves forward
(`Advances`), and a settled auction stays settled.
-/

namespace Ddns.Names

open Tx Runs

/-- The highest bid is the record of the highest bidder, and every other record is below it. Without
a bid there are no records. -/
structure Standing (st : State) (h : Hash) (a : Auction) : Prop where
  unbid : a.highestBidLamports = 0 → ∀ k, st.escrow h k = none
  highest : 0 < a.highestBidLamports →
    ∃ e, st.escrow h a.highestBidder = some e ∧ e.amountLamports = a.highestBidLamports
  others : ∀ k e, st.escrow h k = some e → k ≠ a.highestBidder →
    e.amountLamports < a.highestBidLamports

/-- Every auction has its highest bidder in front, and there are no bids without an auction. -/
structure Ranked (st : State) : Prop where
  unopened : ∀ h, st.auction h = none → ∀ k, st.escrow h k = none
  standing : ∀ h a, st.auction h = some a → Standing st h a

/-- An auction goes on: neither its highest bid nor its end falls back, and it is not reopened. -/
structure Auction.Advances (a a' : Auction) : Prop where
  highest : a.highestBidLamports ≤ a'.highestBidLamports
  ends : a.endSlot ≤ a'.endSlot
  settled : a.settled = true → a'.settled = true

/-- The bidder `b` bids on the auction of `h`, and the bid is accepted. -/
def Step.Bids (e : Step) (b : Signer) (h : Hash) : Prop :=
  ∃ n, e.input = .submit (.placeBid b h n) ∧ e.out = some (.ok ())

/-- The winner `w` settles the auction of `h`. -/
def Step.Settles (e : Step) (w : Signer) (h : Hash) : Prop :=
  ∃ treasury, e.input = .submit (.settleAuction w h treasury) ∧ e.out = some (.ok ())

/-- What an accepted bid does to its auction, which gets more than the extension to go on. -/
structure BidOutcome (e : Step) (b : Signer) (h : Hash) (pcfg : PremiumConfig) (a a' : Auction) :
    Prop where
  config : e.pre.accounts.premiumConfig = some pcfg
  before : e.pre.accounts.auction h = some a
  after : e.post.accounts.auction h = some a'
  higher : a.highestBidLamports < a'.highestBidLamports
  bidder : a'.highestBidder = b.key
  live : e.post.clock.slot < a'.endSlot
  extended : 0 < pcfg.antiSnipingExtensionSlots →
    e.post.clock.slot + pcfg.antiSnipingExtensionSlots < a'.endSlot

/-- What a settlement finds and leaves: an auction that has ended, and its highest bidder. -/
structure SettleOutcome (e : Step) (w : Signer) (h : Hash) (a a' : Auction) : Prop where
  before : e.pre.accounts.auction h = some a
  after : e.post.accounts.auction h = some a'
  ended : a.endSlot ≤ e.pre.clock.slot
  bid : 0 < a.highestBidLamports
  winner : a.highestBidder = w.key
  unsettled : a.settled = false
  settled : a'.settled = true

/-- **The outcome law** of a run. -/
structure OutcomeLaw (dep : Deployment) (c : Chain State) (is : List (Action Instr)) : Prop where
  standing : ∀ pre post, is = pre ++ post → ∀ h a,
    (exec (step dep) c pre).accounts.auction h = some a →
      Standing (exec (step dep) c pre).accounts h a
  advances : ∀ pre mid post, is = pre ++ mid ++ post → ∀ h a,
    (exec (step dep) c pre).accounts.auction h = some a →
      ∃ a', (exec (step dep) c (pre ++ mid)).accounts.auction h = some a' ∧ a.Advances a'
  bid : ∀ e ∈ trace (step dep) c is, ∀ b h, Step.Bids e b h →
    ∃ pcfg a a', BidOutcome e b h pcfg a a'
  settle : ∀ e ∈ trace (step dep) c is, ∀ w h, Step.Settles e w h → ∃ a a', SettleOutcome e w h a a'
  closed : ∀ l₁ e l₂, trace (step dep) c is = l₁ ++ e :: l₂ → ∀ w h, Step.Settles e w h →
    ∀ e' ∈ l₂, ∀ k, ¬Step.Bids e' k h ∧ ¬Step.Settles e' k h

section Auctions

variable {a a' a'' : Auction}

theorem Auction.Advances.refl (a : Auction) : a.Advances a := ⟨le_rfl, le_rfl, id⟩

theorem Auction.Advances.trans (h₁ : a.Advances a') (h₂ : a'.Advances a'') : a.Advances a'' :=
  ⟨h₁.highest.trans h₂.highest, h₁.ends.trans h₂.ends, fun h => h₂.settled (h₁.settled h)⟩

/-- A bid never brings the end forward, and leaves more than the extension. -/
theorem extendedEnd_ok {pcfg : PremiumConfig} {endSlot now newEnd : Nat}
    (hok : extendedEnd pcfg endSlot now = .ok newEnd) (hlive : now < endSlot) :
    endSlot ≤ newEnd ∧ (0 < pcfg.antiSnipingExtensionSlots →
      now + pcfg.antiSnipingExtensionSlots < newEnd) := by
  unfold extendedEnd at hok
  split at hok
  · rw [okOr_eq_ok, Checked.add_eq_some] at hok
    obtain ⟨-, rfl⟩ := hok
    omega
  · next hfar =>
    rw [pure_eq_ok] at hok
    subst hok
    omega

end Auctions

section States

variable {dep : Deployment} {clock : Clock} {st st' : State} {i : Instr} {h : Hash}

/-- Where the records of the auction of `h` are the same, so is the standing. -/
theorem Standing.congr {a : Auction} (hs : Standing st h a) (he : st'.escrow h = st.escrow h) :
    Standing st' h a := by
  obtain ⟨hun, hhigh, hoth⟩ := hs
  rw [← he] at hun hhigh hoth
  exact ⟨hun, hhigh, hoth⟩

/-- An accepted bid takes the lead. -/
theorem Standing.bid {a : Auction} {e : BidEscrow} {n : Nat} {k : Pubkey}
    (hs : Standing st h a) (hhigher : a.highestBidLamports < e.amountLamports + n)
    (hescrow : ∀ k', st'.escrow h k' =
      if k' = k then some { e with amountLamports := e.amountLamports + n } else st.escrow h k')
    (endSlot : Nat) :
    Standing st' h
      { a with highestBidder := k, highestBidLamports := e.amountLamports + n, endSlot } := by
  refine ⟨?_, ?_, ?_⟩
  · intro hzero
    dsimp only at hzero
    omega
  · intro _
    exact ⟨_, (hescrow k).trans (if_pos rfl), rfl⟩
  · intro k' e' he' hne
    rw [hescrow, if_neg hne] at he'
    refine lt_of_le_of_lt ?_ hhigher
    -- The old leader has the old highest bid, and everybody else had less.
    by_cases hlead : k' = a.highestBidder
    · rcases Nat.eq_zero_or_pos a.highestBidLamports with hzero | hpos
      · rw [hs.unbid hzero k'] at he'
        cases he'
      · obtain ⟨r, hr, hamount⟩ := hs.highest hpos
        rw [← hlead, he', Option.some.injEq] at hr
        rw [hr, hamount]
    · exact (hs.others k' e' he' hlead).le

/-- Where no auction and no record changes, nothing does. -/
theorem Ranked.of_eq (hr : Ranked st) (hauction : st'.auction = st.auction)
    (hescrow : st'.escrow = st.escrow) : Ranked st' := by
  constructor
  · rw [hauction, hescrow]
    exact hr.unopened
  · intro h a ha
    rw [hauction] at ha
    exact (hr.standing h a ha).congr (congrFun hescrow h)

/-- A write of the auction of `h`, which touches no record of another auction. -/
theorem Ranked.write {a : Auction} (hr : Ranked st)
    (hauction : st'.auction = Function.update st.auction h (some a))
    (hescrow : ∀ h', h' ≠ h → st'.escrow h' = st.escrow h') (hnew : Standing st' h a) :
    Ranked st' := by
  constructor
  · intro h' hnone k
    by_cases hh : h' = h
    · rw [hauction, hh, Function.update_self] at hnone
      cases hnone
    · rw [hauction, Function.update_of_ne hh] at hnone
      rw [hescrow h' hh]
      exact hr.unopened h' hnone k
  · intro h' a' ha'
    rw [hauction] at ha'
    rcases Updates.update_eq_some ha' with ⟨rfl, rfl⟩ | ⟨hh, hold⟩
    · exact hnew
    · exact (hr.standing h' a' hold).congr (hescrow h' hh)

/-- **Step lemma**: every instruction keeps the auctions ranked. -/
theorem effect_ranked (hr : Ranked st) (heff : Effect dep clock st i st') : Ranked st' := by
  cases heff with
  | @createAuction o name h m d pcfg label a hpcfg hnone hauth hlabel hlen hname hstart hend hbidder
      hbid =>
    have hempty : ∀ k, (st.setAuction h a).escrow h k = none := hr.unopened h hnone
    refine hr.write rfl (fun _ _ => rfl) ⟨fun _ => hempty, fun hpos => ?_, fun k e he => ?_⟩
    · rw [hbid] at hpos
      exact absurd hpos (lt_irrefl 0)
    · rw [hempty k] at he
      cases he
  | @placeBid b h n pcfg a e paid endSlot hbid =>
    have hescrow : ∀ h' k', ((st.setLamports paid).setEscrow h b.key
        { e with amountLamports := e.amountLamports + n }).escrow h' k' =
        if (h', k') = (h, b.key) then some { e with amountLamports := e.amountLamports + n }
        else st.escrow h' k' := fun h' k' => setEscrow_escrow (st.setLamports paid) h h' b.key k' _
    refine hr.write rfl ?_ ((hr.standing h a hbid.auction).bid hbid.higher ?_ endSlot)
    · intro h' hne
      funext k
      exact (hescrow h' k).trans (if_neg fun heq => hne (congrArg Prod.fst heq))
    · intro k
      refine (hescrow h k).trans ?_
      simp only [Prod.mk.injEq, true_and]
  | @settleAuction w h t pcfg a hpcfg ha =>
    obtain ⟨hun, hhigh, hoth⟩ := hr.standing h a ha
    exact hr.write rfl (fun _ _ => rfl) ⟨hun, hhigh, hoth⟩
  | _ => exact hr.of_eq rfl rfl

/-- Every instruction lets every auction go on. -/
theorem effect_advances {a : Auction} (heff : Effect dep clock st i st')
    (ha : st.auction h = some a) : ∃ a', st'.auction h = some a' ∧ a.Advances a' := by
  have hwrite : ∀ k b b', st.auction k = some b → b.Advances b' →
      ∃ a', Function.update st.auction k (some b') h = some a' ∧ a.Advances a' := by
    intro k b b' hb hadv
    by_cases hk : h = k
    · subst hk
      obtain rfl : b = a := Option.some.inj (hb.symm.trans ha)
      exact ⟨b', Function.update_self .., hadv⟩
    · exact ⟨a, (Function.update_of_ne hk ..).trans ha, .refl a⟩
  cases heff with
  | @createAuction o name k m d pcfg label b hpcfg hnone =>
    have hk : h ≠ k := by
      rintro rfl
      rw [hnone] at ha
      cases ha
    exact ⟨a, (Function.update_of_ne hk ..).trans ha, .refl a⟩
  | @placeBid b k n pcfg b' e paid endSlot hbid =>
    have hends := (extendedEnd_ok hbid.ends hbid.live).1
    exact hwrite k b' _ hbid.auction ⟨hbid.higher.le, hends, id⟩
  | @settleAuction w k t pcfg b hpcfg hb =>
    exact hwrite k b _ hb ⟨le_rfl, le_rfl, fun _ => rfl⟩
  | _ => exact ⟨a, ha, .refl a⟩

end States

/-! ## Runs -/

section Runs

variable {dep : Deployment} {c : Chain State} {act : Action Instr} {h : Hash} {a : Auction}

theorem genesis_ranked (lamports : Pubkey → Nat) : Ranked (State.genesis lamports) := by
  refine ⟨fun _ _ _ => rfl, ?_⟩
  intro h a ha
  cases ha

theorem exec_ranked (hr : Ranked c.accounts) (is : List (Action Instr)) :
    Ranked (exec (step dep) c is).accounts :=
  exec_invariant (fun _ _ _ _ hr heff => effect_ranked hr heff) is hr

theorem step_advances (dep : Deployment) (act : Action Instr) (ha : c.accounts.auction h = some a) :
    ∃ a', (step dep c act).1.accounts.auction h = some a' ∧ a.Advances a' := by
  rcases step_effect dep c act with ⟨hsame, -⟩ | ⟨i, st', -, heff, hs⟩
  · rw [hsame]
    exact ⟨a, ha, .refl a⟩
  · rw [hs]
    exact effect_advances heff ha

/-- **Run lemma**: along a run every auction goes on. -/
theorem exec_advances (dep : Deployment) (is : List (Action Instr))
    (ha : c.accounts.auction h = some a) :
    ∃ a', (exec (step dep) c is).accounts.auction h = some a' ∧ a.Advances a' := by
  induction is generalizing c a with
  | nil => exact ⟨a, ha, .refl a⟩
  | cons act is ih =>
    obtain ⟨a₁, ha₁, hadv₁⟩ := step_advances dep act ha
    obtain ⟨a₂, ha₂, hadv₂⟩ := ih ha₁
    exact ⟨a₂, ha₂, hadv₁.trans hadv₂⟩

theorem event_bid {b : Signer} (hb : Step.Bids (event (step dep) c act) b h) :
    ∃ pcfg a a', BidOutcome (event (step dep) c act) b h pcfg a a' := by
  obtain ⟨n, hi, hout⟩ := hb
  obtain ⟨st', heff, hs⟩ := event_effect hi hout
  cases heff with
  | placeBid pcfg a e paid endSlot hbid =>
    obtain ⟨hends, hext⟩ := extendedEnd_ok hbid.ends hbid.live
    have hafter : (event (step dep) c act).post.accounts.auction h = some { a with
        highestBidder := b.key, highestBidLamports := e.amountLamports + n, endSlot } := by
      rw [hs]
      exact Function.update_self ..
    refine ⟨pcfg, a, _, hbid.config, hbid.auction, hafter, hbid.higher, rfl, ?_, ?_⟩
    · rw [hs]
      exact lt_of_lt_of_le hbid.live hends
    · rw [hs]
      exact hext

theorem event_settle {w : Signer} (hw : Step.Settles (event (step dep) c act) w h) :
    ∃ a a', SettleOutcome (event (step dep) c act) w h a a' := by
  obtain ⟨t, hi, hout⟩ := hw
  obtain ⟨st', heff, hs⟩ := event_effect hi hout
  cases heff with
  | settleAuction pcfg a hpcfg ha htreasury hnone hname hsettled hended hbid hwinner =>
    have hafter : (event (step dep) c act).post.accounts.auction h = some { a with settled := true } := by
      rw [hs]
      exact Function.update_self ..
    exact ⟨a, _, ha, hafter, hended, hbid, hwinner, hsettled, rfl⟩

/-- A settled auction takes no bid and is not settled again. -/
theorem settled_closed (ha : c.accounts.auction h = some a) (hset : a.settled = true) (k : Signer) :
    ¬Step.Bids (event (step dep) c act) k h ∧ ¬Step.Settles (event (step dep) c act) k h := by
  constructor
  · rintro ⟨n, hi, hout⟩
    obtain ⟨st', heff, -⟩ := event_effect hi hout
    cases heff with
    | placeBid pcfg b e paid endSlot hbid =>
      obtain rfl : b = a := Option.some.inj (hbid.auction.symm.trans ha)
      exact absurd (hbid.unsettled.symm.trans hset) Bool.false_ne_true
  · intro hw
    obtain ⟨b, b', hout⟩ := event_settle hw
    obtain rfl : b = a := Option.some.inj (hout.before.symm.trans ha)
    exact absurd (hout.unsettled.symm.trans hset) Bool.false_ne_true

end Runs

/-- **The outcome of auctions.** In every run the highest bid is the record of the highest bidder and
above all others, the end only moves forward, and an auction is settled once, after its end, by its
highest bidder. -/
theorem outcome_law (dep : Deployment) (lamports : Pubkey → Nat) (clock : Clock)
    (is : List (Action Instr)) : OutcomeLaw dep ⟨clock, State.genesis lamports⟩ is := by
  have hstart : Ranked (State.genesis lamports) := genesis_ranked lamports
  refine ⟨?_, ?_, ?_, ?_, ?_⟩
  · intro pre post _ h a ha
    exact (exec_ranked hstart pre).standing h a ha
  · intro pre mid post _ h a ha
    rw [exec_append]
    exact exec_advances dep mid ha
  · intro e he b h hb
    obtain ⟨pre, act, post, -, rfl⟩ := mem_trace he
    exact event_bid hb
  · intro e he w h hw
    obtain ⟨pre, act, post, -, rfl⟩ := mem_trace he
    exact event_settle hw
  · intro l₁ e l₂ hsplit w h hw e' he' k
    obtain ⟨pre, act, post, -, -, rfl, rfl⟩ := trace_split hsplit
    obtain ⟨a, a', hout⟩ := event_settle hw
    obtain ⟨pre', act', post', -, rfl⟩ := mem_trace he'
    have hafter : (exec (step dep) ⟨clock, State.genesis lamports⟩
        (pre ++ [act])).accounts.auction h = some a' := by
      rw [exec_append]
      exact hout.after
    obtain ⟨a'', ha'', hadv⟩ := exec_advances dep pre' hafter
    exact settled_closed ha'' (hadv.settled hout.settled) k

end Ddns.Names
