import Ddns.DomainRewards.Program
import Ddns.Lib.Run
import Ddns.Lib.Updates

/-!
# Who decides the split of a toll

The record of the name is passed by the account that pays, unchecked, and where it is not the record
the defaults are used without an error. A payer withholds the owner's share by passing any other
account (`exampleRun_withholds`). `toll_split_iff` is the exact condition on a toll for a registered
name: the record was passed, or its shares of the amount happen to be the shares that are paid
without it.
-/

namespace Ddns.DomainRewards

open Tx Runs Shares

/-- A step of the program. -/
abbrev Step := Event (Chain State) (Action Instr) (Option (Result DomainRewardsError Unit))

/-- Of the `n` tokens that leave `src`, `o` go to `payout`, `m` to the miners vault and the rest to
the treasury, and no other balance changes. -/
structure SplitTo (cfg : Config) (t t' : Tokens) (src payout : Pubkey) (n o m : Nat) : Prop where
  le : o + m ≤ n
  balance : ∀ a, t'.amount a + (if a = src then n else 0) =
    t.amount a + (if a = payout then o else 0) + (if a = cfg.minersVault then m else 0) +
      (if a = cfg.treasuryVault then n - o - m else 0)

/-- **The split law** of a toll of `n` for the name of the record `d`: its owner is paid the floored
share at a token account of its own, the miners theirs, and the treasury the remainder. -/
def PaysRecord (st st' : State) (d : DomainOwner) (src : Pubkey) (n : Nat) : Prop :=
  ∃ payout,
    (0 < share 10000 n d.splits.ownerBps →
      (st.tokens payout).map TokenAccount.owner = some d.ownerWallet) ∧
    SplitTo st.config st.tokens st'.tokens src payout n (share 10000 n d.splits.ownerBps)
      (share 10000 n d.splits.minersBps)

/-- The account that a toll of `n` passes is the record of the name, or the record's owner has no
share in `n` and the miners have the same share by the defaults. -/
def Honours (st : State) (ref : AccountRef) (h : Hash) (d : DomainOwner) (n : Nat) : Prop :=
  ref = .domainOwner h ∨
    (share 10000 n d.splits.ownerBps = 0 ∧
      share 10000 n d.splits.minersBps = share 10000 n st.config.defaults.minersBps)

/-- The split law of a run: every toll for a registered name that succeeds pays by its record. -/
def SplitLaw (run : List Step) : Prop :=
  ∀ x ∈ run, ∀ (accs : TollPayForRoute) (h : Hash) (amount : UInt64) (d : DomainOwner),
    x.input = .submit (.tollPayForRoute accs h amount) → x.out = some (.ok ()) →
    x.pre.accounts.domainOwner h = some d →
    PaysRecord x.pre.accounts x.post.accounts d accs.payerTollAta amount.toNat

/-! ## One toll -/

section Steps

variable {dep : Deployment} {clock : Clock} {st st' : State} {accs : TollPayForRoute} {h : Hash}
  {amount : UInt64} {d : DomainOwner}

theorem bpsAmount_eq {n bps : Nat} (hn : n < 2 ^ 64) (hbps : bps ≤ 10000) :
    bpsAmount n bps = .ok (share 10000 n bps) := by
  simp only [bpsAmount, bind_eq_ok, okOr_eq_ok, Checked.mul_eq_some, pure_eq_ok]
  exact ⟨n * bps, ⟨product_lt hn hbps (by decide), rfl⟩, cast_share hn hbps⟩

theorem readSplTokenAccount_eq_ok {tokens : Tokens} {a : Pubkey} {acc : TokenAccount} :
    readSplTokenAccount tokens a = .ok acc ↔ tokens a = some acc := by
  simp only [readSplTokenAccount, okOr_eq_ok]

/-- The owner's share arrives at an account of the wallet. -/
theorem payOwner_ok {cfg : Config} {tokens tokens' : Tokens} {wallet : Pubkey} {n : Nat}
    (hpay : payOwner cfg tokens accs wallet n = .ok tokens') :
    (0 < n → wallet ≠ Pubkey.default ∧
      (tokens accs.ownerPayoutAta).map TokenAccount.owner = some wallet) ∧
    ∀ a, tokens'.amount a + (if a = accs.payerTollAta then n else 0) =
      tokens.amount a + (if a = accs.ownerPayoutAta then n else 0) := by
  unfold payOwner at hpay
  split at hpay
  · simp only [bind_eq_ok, readSplTokenAccount_eq_ok, require_eq_ok, exists_unit] at hpay
    obtain ⟨acc, hacc, -, hwallet, howner, htransfer⟩ := hpay
    refine ⟨fun _ => ⟨hwallet, ?_⟩, Tokens.transfer_amount htransfer⟩
    rw [hacc, Option.map_some, howner]
  · next hn =>
    obtain rfl : n = 0 := by omega
    cases hpay
    exact ⟨fun h => absurd h hn, fun a => by simp only [ite_self]⟩

/-- **What a toll pays**, by the splits it uses. -/
structure Paid (dep : Deployment) (st st' : State) (accs : TollPayForRoute) (h : Hash) (n : Nat) :
    Prop where
  records : st'.domainOwner = st.domainOwner
  treasury : (st.tokens st.config.treasuryVault).map TokenAccount.owner = some dep.vaultAuthority
  miners : (st.tokens st.config.minersVault).map TokenAccount.owner = some dep.vaultAuthority
  wallet : 0 < share 10000 n (st.splitsFor accs.domainOwner h).1.ownerBps →
    (st.splitsFor accs.domainOwner h).2 ≠ Pubkey.default ∧
      (st.tokens accs.ownerPayoutAta).map TokenAccount.owner =
        some (st.splitsFor accs.domainOwner h).2
  split : SplitTo st.config st.tokens st'.tokens accs.payerTollAta accs.ownerPayoutAta n
    (share 10000 n (st.splitsFor accs.domainOwner h).1.ownerBps)
    (share 10000 n (st.splitsFor accs.domainOwner h).1.minersBps)

theorem tollPayForRoute_ok (hok : tollPayForRoute dep st accs h amount = .ok st') :
    Paid dep st st' accs h amount.toNat := by
  have hn : amount.toNat < 2 ^ 64 := amount.toNat_lt
  have hsum := (st.splitsFor accs.domainOwner h).1.sum
  simp only [tollPayForRoute, bind_eq_ok, require_eq_ok, readSplTokenAccount_eq_ok,
    requireSplitsOk_eq_ok, bpsAmount_eq hn (show (st.splitsFor accs.domainOwner h).1.ownerBps ≤ 10000
      by omega), bpsAmount_eq hn (show (st.splitsFor accs.domainOwner h).1.minersBps ≤ 10000 by omega),
    Except.ok.injEq, okOr_eq_ok, Option.bind_eq_some_iff, Checked.sub_eq_some, exists_unit,
    exists_eq_left', pure_eq_ok] at hok
  obtain ⟨-, -, -, payerAta, -, -, -, htreasury, hminers, treasuryAta, htacc, minersAta, hmacc, -, -,
    htowner, hmowner, -, rest, ⟨_, ⟨hole, rfl⟩, hmle, rfl⟩, t₁, h₁, t₂, h₂, t₃, h₃, rfl⟩ := hok
  rw [htreasury] at htacc h₃
  rw [hminers] at hmacc h₂
  obtain ⟨hwallet, ha₁⟩ := payOwner_ok h₁
  refine ⟨rfl, by rw [htacc, Option.map_some, htowner], by rw [hmacc, Option.map_some, hmowner], hwallet,
    by omega, fun a => ?_⟩
  have ha₁ := ha₁ a
  have ha₂ := Tokens.pay_amount h₂ a
  have ha₃ := Tokens.pay_amount h₃ a
  show t₃.amount a + _ = _
  split at ha₃
  · next hsrc =>
    rw [if_pos hsrc] at ha₁ ha₂ ⊢
    omega
  · next hsrc =>
    rw [if_neg hsrc] at ha₁ ha₂ ⊢
    omega

/-- The records: each is the one of its name, and its owner has signed. -/
def Registered (dep : Deployment) (st : State) : Prop :=
  ∀ h d, st.domainOwner h = some d → d.nameHash = h ∧ dep.canSign d.ownerWallet = true

/-- The record of the name is used when it is passed. -/
theorem splitsFor_record (hreg : Registered dep st) (hd : st.domainOwner h = some d) :
    st.splitsFor (.domainOwner h) h = (d.splits, d.ownerWallet) := by
  have hread : st.readDomainOwner (.domainOwner h) = some d := hd
  unfold State.splitsFor
  rw [hread]
  exact if_pos (hreg h d hd).1

/-- Whatever else is passed, the defaults are used. -/
theorem splitsFor_other (hreg : Registered dep st) {ref : AccountRef} (href : ref ≠ .domainOwner h) :
    st.splitsFor ref h = (st.config.defaults, Pubkey.default) := by
  unfold State.splitsFor
  cases hread : st.readDomainOwner ref with
  | none => rfl
  | some o =>
    cases ref with
    | domainOwner k =>
      have hname : o.nameHash = k := (hreg k o hread).1
      refine if_neg fun he => href ?_
      rw [← hname, he]
    | config => cases hread
    | other => cases hread

/-- A token account of somebody who can sign is no vault. -/
theorem ne_vault {a vault : Pubkey} (ha : (st.tokens a).map TokenAccount.owner = some d.ownerWallet)
    (hv : (st.tokens vault).map TokenAccount.owner = some dep.vaultAuthority)
    (hsign : dep.canSign d.ownerWallet = true) : a ≠ vault := by
  rintro rfl
  rw [ha, Option.some.injEq] at hv
  rw [hv, dep.vaultAuthority_canSign] at hsign
  cases hsign

/-- **One toll** for a registered name: it pays by the record exactly if it honours it. -/
theorem paid_iff (hreg : Registered dep st) (hd : st.domainOwner h = some d) {n : Nat}
    (hpaid : Paid dep st st' accs h n) :
    PaysRecord st st' d accs.payerTollAta n ↔ Honours st accs.domainOwner h d n := by
  by_cases href : accs.domainOwner = .domainOwner h
  · refine ⟨fun _ => .inl href, fun _ => ⟨accs.ownerPayoutAta, ?_⟩⟩
    obtain ⟨-, -, -, hwallet, hsplit⟩ := hpaid
    rw [href, splitsFor_record hreg hd] at hwallet hsplit
    exact ⟨fun hpos => (hwallet hpos).2, hsplit⟩
  · obtain ⟨-, htreasury, hminers, hwallet, hsplit⟩ := hpaid
    simp only [splitsFor_other hreg href] at hwallet hsplit
    -- Without a record there is no wallet to pay a share to.
    have hzero : share 10000 n st.config.defaults.ownerBps = 0 := by
      by_contra hne
      exact (hwallet (Nat.pos_of_ne_zero hne)).1 rfl
    rw [hzero] at hsplit
    have hvaults := st.config.vaults_ne
    constructor
    · rintro ⟨payout, howned, hrecord⟩
      have howner : share 10000 n d.splits.ownerBps = 0 := by
        by_contra hne
        have hown := howned (Nat.pos_of_ne_zero hne)
        have hsign := (hreg h d hd).2
        have hp := hsplit.balance payout
        have hq := hrecord.balance payout
        have hm := ne_vault hown hminers hsign
        have ht := ne_vault hown htreasury hsign
        rw [if_neg hm, if_neg ht, ite_self] at hp
        rw [if_neg hm, if_neg ht, if_pos rfl] at hq
        omega
      refine .inr ⟨howner, ?_⟩
      rw [howner] at hrecord
      have hp := hsplit.balance st.config.minersVault
      have hq := hrecord.balance st.config.minersVault
      rw [ite_self, if_pos rfl, if_neg hvaults] at hp hq
      omega
    · rintro (he | ⟨howner, hsame⟩)
      · exact absurd he href
      · refine ⟨accs.ownerPayoutAta, fun hpos => by omega, ?_⟩
        rw [howner, hsame]
        exact hsplit

end Steps

/-! ## Every run -/

section Runs

variable {dep : Deployment} {clock : Clock} {st st' : State}

theorem Registered.set (hreg : Registered dep st) {h : Hash} {o : DomainOwner} (hname : o.nameHash = h)
    (hsign : dep.canSign o.ownerWallet = true) : Registered dep (st.setDomainOwner h o) := by
  intro k d hd
  exact Updates.forall_update hreg ⟨hname, hsign⟩ k d hd

/-- Every instruction keeps the records. -/
theorem process_registered {i : Instr} {w : Unit} (hreg : Registered dep st)
    (hok : process dep clock st i = .ok (st', w)) : Registered dep st' := by
  simp only [process, bind_eq_ok, demand_eq_ok, exists_unit, pure_eq_ok, Prod.mk.injEq] at hok
  obtain ⟨hsign, _, hok, rfl, -⟩ := hok
  cases i with
  | registerDomainOwner s h o m t =>
    simp only [handle, registerDomainOwner, bind_eq_ok, vacant_eq_ok, exists_unit, pure_eq_ok] at hok
    obtain ⟨-, splits, -, rfl⟩ := hok
    exact hreg.set rfl hsign
  | updateDomainSplits s h o m t =>
    simp only [handle, updateDomainSplits, bind_eq_ok, load_eq_ok, demand_eq_ok, require_eq_ok,
      exists_unit, pure_eq_ok] at hok
    obtain ⟨old, hold, hname, -, splits, -, rfl⟩ := hok
    exact hreg.set hname (hreg h old hold).2
  | tollPayForRoute accs h n =>
    intro k d hd
    rw [(tollPayForRoute_ok hok).records] at hd
    exact hreg k d hd
  | splTransfer s src dst n =>
    simp only [handle, splTransfer, bind_eq_ok, pure_eq_ok] at hok
    obtain ⟨-, -, rfl⟩ := hok
    exact hreg
  | openTokenAccount s a m o =>
    simp only [handle, openTokenAccount, bind_eq_ok, vacant_eq_ok, exists_unit, pure_eq_ok] at hok
    obtain ⟨-, rfl⟩ := hok
    exact hreg

theorem genesis_registered (dep : Deployment) (config : Config) (tokens : Tokens) :
    Registered dep (State.genesis dep config tokens) := by
  intro h d hd
  cases hd

end Runs

/-- **Exactly when a toll is split by the record.** In a run of the program, whoever pays and
whatever account is passed, a toll for a registered name that succeeds pays by the record of the
name if and only if the record is passed, or gives the shares that are paid without it. -/
theorem toll_split_iff (dep : Deployment) (config : Config) (tokens : Tokens) (clock : Clock)
    (is : List (Action Instr)) (x : Step)
    (hx : x ∈ trace (step dep) ⟨clock, State.genesis dep config tokens⟩ is) (accs : TollPayForRoute)
    (h : Hash) (amount : UInt64) (hinput : x.input = .submit (.tollPayForRoute accs h amount))
    (hout : x.out = some (.ok ())) (d : DomainOwner)
    (hd : x.pre.accounts.domainOwner h = some d) :
    PaysRecord x.pre.accounts x.post.accounts d accs.payerTollAta amount.toNat ↔
      Honours x.pre.accounts accs.domainOwner h d amount.toNat := by
  obtain ⟨pre, a, post, -, rfl⟩ := mem_trace hx
  obtain rfl : a = .submit (.tollPayForRoute accs h amount) := hinput
  have hreg : Registered dep (exec (step dep) ⟨clock, State.genesis dep config tokens⟩ pre).accounts :=
    exec_accounts (P := Registered dep) (fun _ _ _ _ _ hreg hok => process_registered hreg hok) pre
      (genesis_registered dep config tokens)
  obtain ⟨st', hok, hpost⟩ := chainStep_out hout
  simp only [process, bind_eq_ok, demand_eq_ok, exists_unit, pure_eq_ok, Prod.mk.injEq, and_true] at hok
  obtain ⟨-, _, htoll, rfl⟩ := hok
  have hpaid := tollPayForRoute_ok htoll
  rw [event_post, step, hpost]
  exact paid_iff hreg hd hpaid

/-! ## A toll that withholds the owner's share -/

/-- The owner of the name 9. -/
def exampleOwner : Signer := ⟨1, one_ne_default⟩

/-- A resolver that pays tolls. -/
def examplePayer : Signer := ⟨2, two_ne_default⟩

/-- A deployment whose vault authority is the key 3. -/
def exampleDeployment : Deployment := ⟨fun k => k ≠ 3, 3, by decide⟩

/-- A fresh deployment that pays by default half to the miners and half to the treasury. -/
def exampleGenesis : Chain State where
  clock := ⟨0, 0⟩
  accounts := State.genesis exampleDeployment
    { authority := 4, tollMint := 5, treasuryVault := 6, minersVault := 7
      defaults := ⟨0, 5000, 5000, rfl⟩, minTollAmount := 1, enabled := true
      minToll_pos := by decide, vaults_ne := by decide }
    (fun a => if a = 10 then some ⟨5, 2, 5000⟩ else if a = 11 then some ⟨5, 1, 0⟩ else none)

/-- The accounts of a toll, with the given one as the record. -/
def exampleAccounts (ref : AccountRef) : TollPayForRoute := ⟨examplePayer, 10, ref, 11, 6, 7⟩

/-- The owner registers 70 percent, and a toll passes an account that is not the record. -/
def exampleRun (ref : AccountRef) : List (Action Instr) :=
  [.submit (.registerDomainOwner exampleOwner 9 7000 2000 1000),
    .submit (.tollPayForRoute (exampleAccounts ref) 9 1000)]

/-- The record of the example. -/
def exampleRecord : DomainOwner := ⟨9, 1, ⟨7000, 2000, 1000, rfl⟩, 0⟩

/-- The toll of the example. -/
def exampleToll (ref : AccountRef) : Step :=
  event (step exampleDeployment)
    (exec (step exampleDeployment) exampleGenesis ((exampleRun ref).take 1))
    (.submit (.tollPayForRoute (exampleAccounts ref) 9 1000))

theorem exampleToll_mem (ref : AccountRef) :
    exampleToll ref ∈ trace (step exampleDeployment) exampleGenesis (exampleRun ref) :=
  event_mem_trace ((exampleRun ref).take 1) [] rfl

/-- With its record passed, the owner is paid. -/
theorem exampleRun_pays :
    PaysRecord (exampleToll (.domainOwner 9)).pre.accounts
      (exampleToll (.domainOwner 9)).post.accounts exampleRecord 10 1000 :=
  (toll_split_iff _ _ _ _ _ _ (exampleToll_mem (.domainOwner 9)) (exampleAccounts (.domainOwner 9)) 9
    1000 rfl (by rfl) exampleRecord (by rfl)).2 (.inl rfl)

/-- With another account passed, the toll succeeds and the owner's 700 tokens stay away: the miners
and the treasury have 500 each. -/
theorem exampleRun_withholds :
    ¬SplitLaw (trace (step exampleDeployment) exampleGenesis (exampleRun .other)) := by
  intro hlaw
  obtain ⟨payout, howner, -, hbalance⟩ := hlaw _ (exampleToll_mem .other) (exampleAccounts .other) 9
    1000 exampleRecord rfl (by rfl) (by rfl)
  have hown := howner (by decide)
  have hpayout : (7 : Pubkey) ≠ payout := by
    rintro rfl
    exact absurd hown (by decide)
  have hminers := hbalance 7
  rw [if_neg hpayout] at hminers
  exact absurd hminers (by decide)

end Ddns.DomainRewards
