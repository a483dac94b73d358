import Ddns.Names.Effects
import Ddns.Lib.Updates

/-!
# The backing of bids

A bid is recorded twice: in the `BidEscrow` of the bidder and in the lamports of the bidder's vault.
`place_bid` moves both. `withdraw_losing_bid` pays the recorded amount out of the vault and leaves
the record active, so from then on the record is no longer backed. While no outbid bidder withdraws,
every record is backed exactly (`Ledgered`), and `backing_iff` says that this condition is sharp.
-/

namespace Ddns.Names

open Tx Runs

/-- A step of the program. -/
abbrev Step := Event (Chain State) (Action Instr) (Option (Result NamesError Unit))

/-- The lamports of a vault beyond its rent deposit. -/
def held (dep : Deployment) (st : State) (h : Hash) (k : Pubkey) : Nat :=
  st.lamports (.escrowVault h k) - dep.vaultRent

/-- What every bidder has paid into an auction, and been refunded from it. -/
structure Payments where
  paid : Hash → Pubkey → Nat
  refunded : Hash → Pubkey → Nat

def Payments.none : Payments := ⟨fun _ _ => 0, fun _ _ => 0⟩

/-- `m` with `n` added for the bidder `k` of the auction of `h`. -/
def addFor (m : Hash → Pubkey → Nat) (h : Hash) (k : Pubkey) (n : Nat) : Hash → Pubkey → Nat :=
  fun h' k' => m h' k' + if (h', k') = (h, k) then n else 0

/-- A bid pays its lamports; a withdrawal refunds what it takes out of the vault. -/
def observe (pay : Payments) (e : Step) : Payments :=
  match e.input, e.out with
  | .submit (.placeBid b h n), some (.ok _) => { pay with paid := addFor pay.paid h b.key n }
  | .submit (.withdrawLosingBid b h), some (.ok _) =>
    { pay with
      refunded := addFor pay.refunded h b.key
        (e.pre.accounts.lamports (.escrowVault h b.key) -
          e.post.accounts.lamports (.escrowVault h b.key)) }
  | _, _ => pay

/-- The payments of a run. -/
def payments (l : List Step) : Payments := l.foldl observe Payments.none

/-- The bids are backed: every open escrow by the vault of its bidder, the highest bid by the vault
of the highest bidder, and every refund by what its bidder paid. -/
structure Backed (dep : Deployment) (st : State) (pay : Payments) : Prop where
  escrow : ∀ h k e, st.escrow h k = some e → e.active = true → e.refunded = false →
    e.amountLamports ≤ held dep st h k
  highest : ∀ h a, st.auction h = some a → a.highestBidLamports ≤ held dep st h a.highestBidder
  refunds : ∀ h k, pay.refunded h k ≤ pay.paid h k

/-- **The backing law** of a run: the bids are backed in every state on the way. -/
def BackingLaw (dep : Deployment) (c : Chain State) (is : List (Action Instr)) : Prop :=
  ∀ pre post, is = pre ++ post →
    Backed dep (exec (step dep) c pre).accounts (payments (trace (step dep) c pre))

/-- The next action is the withdrawal of a bidder that has bid and is not the highest bidder, and
whose wallet can take the recorded amount. -/
def OutbidWithdrawal (c : Chain State) (act : Action Instr) : Prop :=
  ∃ b h a e, act = .submit (.withdrawLosingBid b h) ∧ c.accounts.auction h = some a ∧
    c.accounts.escrow h b.key = some e ∧ a.highestBidder ≠ b.key ∧
    c.accounts.lamports (.wallet b.key) + e.amountLamports < 2 ^ 64

section States

variable {dep : Deployment} {clock : Clock} {st st' : State} {pay : Payments} {i : Instr}
  {h : Hash} {k : Pubkey} {e : BidEscrow} {n : Nat}

/-! ## The ledger -/

theorem addFor_self (m : Hash → Pubkey → Nat) (h : Hash) (k : Pubkey) (n : Nat) :
    addFor m h k n h k = m h k + n := by
  simp [addFor]

theorem addFor_ne (m : Hash → Pubkey → Nat) {h h' : Hash} {k k' : Pubkey} (n : Nat)
    (hne : (h', k') ≠ (h, k)) : addFor m h k n h' k' = m h' k' := by
  simp [addFor, hne]

/-- An escrow record that is open, and agrees with its vault and with what was paid. -/
structure Entry (dep : Deployment) (st : State) (pay : Payments) (h : Hash) (k : Pubkey)
    (e : BidEscrow) : Prop where
  name : e.nameHash = h
  bidder : e.bidder = k
  signed : k ≠ Pubkey.default
  active : e.active = true
  unrefunded : e.refunded = false
  pos : 0 < e.amountLamports
  vault : st.lamports (.escrowVault h k) = dep.vaultRent + e.amountLamports
  paid : pay.paid h k = e.amountLamports
  refunded : pay.refunded h k = 0

/-- The highest bid of an auction is what its highest bidder has on record. -/
def Leads (st : State) (h : Hash) (a : Auction) : Prop :=
  a.nameHash = h ∧ (a.highestBidLamports = 0 ∨
    ∃ e, st.escrow h a.highestBidder = some e ∧ e.amountLamports = a.highestBidLamports)

/-- The records, the vaults and the payments agree. -/
structure Ledgered (dep : Deployment) (st : State) (pay : Payments) : Prop where
  blank : ∀ h k, st.escrow h k = none →
    st.lamports (.escrowVault h k) = 0 ∧ pay.paid h k = 0 ∧ pay.refunded h k = 0
  entry : ∀ h k e, st.escrow h k = some e → Entry dep st pay h k e
  leads : ∀ h a, st.auction h = some a → Leads st h a

theorem Entry.held (he : Entry dep st pay h k e) : held dep st h k = e.amountLamports := by
  unfold Names.held
  rw [he.vault]
  exact Nat.add_sub_cancel_left ..

/-- Where the ledger agrees, the bids are backed. -/
theorem Ledgered.backed (hl : Ledgered dep st pay) : Backed dep st pay := by
  refine ⟨?_, ?_, ?_⟩
  · intro h k e he _ _
    rw [(hl.entry h k e he).held]
  · intro h a ha
    rcases (hl.leads h a ha).2 with hzero | ⟨e, he, hamount⟩
    · rw [hzero]
      exact Nat.zero_le _
    · rw [(hl.entry h _ e he).held, hamount]
  · intro h k
    cases he : st.escrow h k with
    | none => rw [(hl.blank h k he).2.2]; exact Nat.zero_le _
    | some e => rw [(hl.entry h k e he).refunded]; exact Nat.zero_le _

theorem genesis_ledgered (dep : Deployment) (lamports : Pubkey → Nat) :
    Ledgered dep (State.genesis lamports) Payments.none := by
  refine ⟨fun _ _ _ => ⟨rfl, rfl, rfl⟩, ?_, ?_⟩
  · intro h k e he
    cases he
  · intro h a ha
    cases ha

/-! ## Instructions that move no bid -/

/-- No escrow and no vault changes, and no auction but for one that is new or settled. -/
structure SameBids (st st' : State) : Prop where
  escrow : st'.escrow = st.escrow
  vaults : SameVaults st.lamports st'.lamports
  auction : ∀ h a', st'.auction h = some a' → a'.nameHash = h ∧ a'.highestBidLamports = 0 ∨
    ∃ a, st.auction h = some a ∧ a'.nameHash = a.nameHash ∧ a'.highestBidder = a.highestBidder ∧
      a'.highestBidLamports = a.highestBidLamports

theorem SameBids.of_eq (he : st'.escrow = st.escrow) (hv : SameVaults st.lamports st'.lamports)
    (ha : st'.auction = st.auction) : SameBids st st' :=
  ⟨he, hv, fun h a' ha' => .inr ⟨a', by rw [← ha]; exact ha', rfl, rfl, rfl⟩⟩

theorem SameBids.setAuction {h : Hash} {a' : Auction} (hs : SameBids st st')
    (ha : a'.nameHash = h ∧ a'.highestBidLamports = 0 ∨
      ∃ a, st.auction h = some a ∧ a'.nameHash = a.nameHash ∧ a'.highestBidder = a.highestBidder ∧
        a'.highestBidLamports = a.highestBidLamports) : SameBids st (st'.setAuction h a') := by
  refine ⟨hs.escrow, hs.vaults, ?_⟩
  intro h' b hb
  have hb : Function.update st'.auction h (some a') h' = some b := hb
  rcases Updates.update_eq_some hb with ⟨rfl, rfl⟩ | ⟨-, hold⟩
  · exact ha
  · exact hs.auction h' b hold

theorem Ledgered.of_sameBids (hl : Ledgered dep st pay) (hs : SameBids st st') :
    Ledgered dep st' pay := by
  refine ⟨?_, ?_, ?_⟩
  · intro h k he
    rw [hs.escrow] at he
    rw [hs.vaults h k]
    exact hl.blank h k he
  · intro h k e he
    rw [hs.escrow] at he
    have hent := hl.entry h k e he
    exact { hent with vault := (hs.vaults h k).trans hent.vault }
  · intro h a' ha'
    unfold Leads
    rw [hs.escrow]
    rcases hs.auction h a' ha' with ⟨hname, hzero⟩ | ⟨a, ha, hname, hbidder, hbid⟩
    · exact ⟨hname, .inl hzero⟩
    · rw [hname, hbidder, hbid]
      exact hl.leads h a ha

/-- Only bids and withdrawals move bids. -/
theorem effect_sameBids (heff : Effect dep clock st i st') (hbid : ∀ b h n, i ≠ .placeBid b h n)
    (hw : ∀ b h, i ≠ .withdrawLosingBid b h) : SameBids st st' := by
  have hsame : SameVaults st.lamports st.lamports := fun _ _ => rfl
  cases heff with
  | placeBid => exact absurd rfl (hbid _ _ _)
  | withdrawLosingBid => exact absurd rfl (hw _ _)
  | createAuction pcfg label a hpcfg hnone hauth hlabel hlen hname hstart hend hbidder hzero =>
    exact (SameBids.of_eq rfl hsame rfl).setAuction (.inl ⟨hname, hzero⟩)
  | @settleAuction w h t pcfg a hpcfg ha =>
    have hcreate : SameBids st (createPremium clock st h w.key a.highestBidLamports) :=
      SameBids.of_eq rfl hsame rfl
    exact hcreate.setAuction (.inr ⟨a, ha, rfl, rfl, rfl⟩)
  | purchasePremium cfg pcfg label paid hcfg hpcfg hnone hlabel hclass hpaid =>
    exact .of_eq rfl hpaid rfl
  | claimSubdomain cfg paid hcfg hnone hpaid => exact .of_eq rfl hpaid rfl
  | _ => exact .of_eq rfl hsame rfl

/-! ## Bids -/

/-- The record that a bid adds to agrees with the ledger: a new one records nothing. -/
theorem Ledgered.openEscrow (hl : Ledgered dep st pay) (hk : k ≠ Pubkey.default)
    (ho : openEscrow ((st.escrow h k).getD BidEscrow.zero) h k = .ok e) :
    e.nameHash = h ∧ e.bidder = k ∧ e.active = true ∧ e.refunded = false ∧
      max (st.lamports (.escrowVault h k)) dep.vaultRent = dep.vaultRent + e.amountLamports ∧
      pay.paid h k = e.amountLamports ∧ pay.refunded h k = 0 := by
  cases he : st.escrow h k with
  | none =>
    rw [he] at ho
    cases ho
    obtain ⟨hvault, hpaid, href⟩ := hl.blank h k he
    exact ⟨rfl, rfl, rfl, rfl, by rw [hvault]; exact Nat.zero_max _, hpaid, href⟩
  | some r =>
    rw [he, Option.getD_some] at ho
    have hr := hl.entry h k r he
    have hne : r.bidder ≠ Pubkey.default := hr.bidder.symm ▸ hk
    simp only [Names.openEscrow, if_neg hne, bind_eq_ok, require_eq_ok, exists_unit,
      pure_eq_ok] at ho
    obtain ⟨-, -, -, rfl⟩ := ho
    have hvault := hr.vault
    exact ⟨hr.name, hr.bidder, hr.active, hr.unrefunded, by omega, hr.paid, hr.refunded⟩

theorem setEscrow_escrow (st : State) (h h' : Hash) (k k' : Pubkey) (e : BidEscrow) :
    (st.setEscrow h k e).escrow h' k' =
      if (h', k') = (h, k) then some e else st.escrow h' k' := by
  simp only [Prod.mk.injEq]
  exact Updates.update₂_apply st.escrow h h' k k' (some e)

/-- A bid keeps the ledger. -/
theorem Ledgered.placeBid {b : Signer} {pcfg : PremiumConfig} {a : Auction}
    {paid : Holder → Nat} {endSlot : Nat} (hl : Ledgered dep st pay)
    (hbid : Bid dep clock st b.key h n pcfg a e paid endSlot) :
    Ledgered dep (((st.setLamports paid).setEscrow h b.key
      { e with amountLamports := e.amountLamports + n }).setAuction h { a with
        highestBidder := b.key, highestBidLamports := e.amountLamports + n, endSlot })
      { pay with paid := addFor pay.paid h b.key n } := by
  obtain ⟨hname, hbidder, hact, href, hvault, hpaid, hzero⟩ :=
    hl.openEscrow b.ne_default hbid.escrow
  have hescrow : ∀ h' k', (((st.setLamports paid).setEscrow h b.key
      { e with amountLamports := e.amountLamports + n }).setAuction h { a with
        highestBidder := b.key, highestBidLamports := e.amountLamports + n, endSlot }).escrow h' k' =
      if (h', k') = (h, b.key) then some { e with amountLamports := e.amountLamports + n }
      else st.escrow h' k' := fun h' k' => setEscrow_escrow (st.setLamports paid) h h' b.key k' _
  refine ⟨?_, ?_, ?_⟩
  · intro h' k' he'
    rw [hescrow] at he'
    split at he'
    · cases he'
    · next hne =>
      obtain ⟨hv, hp, hr⟩ := hl.blank h' k' he'
      exact ⟨(hbid.vaults h' k' hne).trans hv, (addFor_ne _ n hne).trans hp, hr⟩
  · intro h' k' e' he'
    rw [hescrow] at he'
    split at he'
    · next heq =>
      cases heq
      cases he'
      refine ⟨hname, hbidder, b.ne_default, hact, href, Nat.add_pos_right _ hbid.pos, ?_, ?_, hzero⟩
      · show paid (.escrowVault h b.key) = _
        rw [hbid.vault, hvault, Nat.add_assoc]
      · show addFor pay.paid h b.key n h b.key = _
        rw [addFor_self, hpaid]
    · next hne =>
      have hent := hl.entry h' k' e' he'
      exact { hent with
        vault := (hbid.vaults h' k' hne).trans hent.vault
        paid := (addFor_ne _ n hne).trans hent.paid }
  · intro h' a' ha'
    have ha' : Function.update st.auction h _ h' = some a' := ha'
    unfold Leads
    rcases Updates.update_eq_some ha' with ⟨rfl, rfl⟩ | ⟨hh, hold⟩
    · refine ⟨hbid.name, .inr ⟨{ e with amountLamports := e.amountLamports + n }, ?_, rfl⟩⟩
      rw [hescrow, if_pos rfl]
    · rw [hescrow, if_neg (fun heq => hh (congrArg Prod.fst heq))]
      exact hl.leads h' a' hold

/-! ## Withdrawals -/

/-- Where the ledger agrees, the checks of a withdrawal hold for every outbid bidder. -/
theorem Ledgered.withdrawal {a : Auction} (hl : Ledgered dep st pay) (ha : st.auction h = some a)
    (he : st.escrow h k = some e) (hout : a.highestBidder ≠ k)
    (hcred : st.lamports (.wallet k) + e.amountLamports < 2 ^ 64) :
    Withdrawal dep st k h a e := by
  have hent := hl.entry h k e he
  have hvault := hent.vault
  exact ⟨ha, he, (hl.leads h a ha).1, hout, hent.name, hent.bidder, hent.active, hent.unrefunded,
    hent.pos, by omega, hcred, .inr (by omega)⟩

/-- After a withdrawal the record of the bidder is not backed. -/
theorem Ledgered.not_backed {b : Signer} {credited : Nat} (hl : Ledgered dep st pay)
    (he : st.escrow h b.key = some e) (pay' : Payments) :
    ¬Backed dep (st.setLamports (Function.update (Function.update st.lamports
      (.escrowVault h b.key) (st.lamports (.escrowVault h b.key) - e.amountLamports))
      (.wallet b.key) credited)) pay' := by
  intro hb
  have hent := hl.entry h b.key e he
  have hle := hb.escrow h b.key e he hent.active hent.unrefunded
  have hpos := hent.pos
  have hvault := hent.vault
  simp only [held, State.setLamports, ne_eq, reduceCtorEq, not_false_eq_true,
    Function.update_of_ne, Function.update_self] at hle
  omega

end States

/-! ## Runs -/

section Runs

variable {dep : Deployment} {c : Chain State} {pay : Payments} {act : Action Instr}

theorem observe_other {i : Instr} {out : Option (Result NamesError Unit)} {c' : Chain State}
    (hbid : ∀ b h n, i ≠ .placeBid b h n) (hw : ∀ b h, i ≠ .withdrawLosingBid b h) :
    observe pay ⟨c, .submit i, out, c'⟩ = pay := by
  cases i with
  | placeBid b h n => exact absurd rfl (hbid b h n)
  | withdrawLosingBid b h => exact absurd rfl (hw b h)
  | _ => rfl

theorem observe_rejected {e : Step} (hout : e.out ≠ some (.ok ())) : observe pay e = pay := by
  unfold observe
  split
  · next hok => exact absurd hok hout
  · next hok => exact absurd hok hout
  · rfl

/-- A step that is no withdrawal of an outbid bidder keeps the ledger. -/
theorem ledgered_step (hl : Ledgered dep c.accounts pay) (hQ : ¬OutbidWithdrawal c act) :
    Ledgered dep (step dep c act).1.accounts (observe pay (event (step dep) c act)) := by
  rcases step_effect dep c act with ⟨hsame, hno⟩ | ⟨i, st', rfl, heff, hs⟩
  · rw [observe_rejected hno, hsame]
    exact hl
  · unfold event
    rw [hs]
    by_cases hbid : ∃ b h n, i = .placeBid b h n
    · obtain ⟨b, h, n, rfl⟩ := hbid
      cases heff with
      | placeBid pcfg a e paid endSlot hbid => exact hl.placeBid hbid
    · by_cases hw : ∃ b h, i = .withdrawLosingBid b h
      · obtain ⟨b, h, rfl⟩ := hw
        cases heff with
        | withdrawLosingBid a e hw =>
          exact absurd ⟨b, h, a, e, rfl, hw.auction, hw.escrow, hw.outbid, hw.credited⟩ hQ
      · have hbid' : ∀ b h n, i ≠ .placeBid b h n := fun b h n he => hbid ⟨b, h, n, he⟩
        have hw' : ∀ b h, i ≠ .withdrawLosingBid b h := fun b h he => hw ⟨b, h, he⟩
        rw [observe_other hbid' hw']
        exact hl.of_sameBids (effect_sameBids heff hbid' hw')

/-- The withdrawal of an outbid bidder leaves an unbacked record. -/
theorem withdrawal_not_backed (hl : Ledgered dep c.accounts pay) (hQ : OutbidWithdrawal c act)
    (pay' : Payments) : ¬Backed dep (step dep c act).1.accounts pay' := by
  obtain ⟨b, h, a, e, rfl, ha, he, hout, hcred⟩ := hQ
  have hok := withdrawLosingBid_eq_ok.2 ⟨a, e, hl.withdrawal ha he hout hcred, rfl⟩
  have hproc : process dep c.clock c.accounts (.withdrawLosingBid b h) = .ok (_, ()) :=
    map_eq_ok.2 ⟨_, hok, rfl⟩
  rw [step, chainStep_ok hproc]
  exact hl.not_backed he pay'

end Runs

def exampleAuthority : Signer := ⟨1, one_ne_default⟩

def exampleBidder : Signer := ⟨2, two_ne_default⟩

def exampleRival : Signer := ⟨3, three_ne_default⟩

/-- `abc.dns` -/
def exampleName : Text := ['a', 'b', 'c', '.', 'd', 'n', 's']

/-- The SHA-256 of `abc.dns`. -/
def exampleHash : Hash := 0xf0249efdfe5d11c5dbb66c9b142c9098de44b27153b2f037ff084835fe5cd0ea

/-- A deployment with the rent of the cluster. -/
def exampleDeployment : Deployment where
  sha256 bytes := if bytes = asBytes exampleName then exampleHash else 0
  vaultRent := 890880
  premiumNftMint _ := 4
  subNftMint _ _ := 5
  associatedToken mint owner := mint + 16 * owner
  nftAuthority := 6
  nftCustodyAuthority := 7
  premiumNftMint_ne _ := by decide
  subNftMint_ne _ _ := by decide

/-- Wallets with a billion lamports each. -/
def exampleGenesis : Chain State := ⟨⟨0, 0⟩, State.genesis fun _ => 10 ^ 9⟩

/-- A bid of 10 is outbid and withdrawn, and then raised by 2. -/
def exampleRun : List (Action Instr) :=
  [.submit (.initPremiumConfig exampleAuthority 8 9 1 100 0 true),
    .submit (.createAuction exampleAuthority exampleName exampleHash none none),
    .submit (.placeBid exampleBidder exampleHash 10),
    .submit (.placeBid exampleRival exampleHash 11),
    .submit (.withdrawLosingBid exampleBidder exampleHash),
    .submit (.placeBid exampleBidder exampleHash 2)]

end Ddns.Names
