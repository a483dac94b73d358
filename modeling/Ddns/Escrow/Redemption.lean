import Ddns.Escrow.Program
import Ddns.Lib.Shares
import Ddns.Solana.Keys
import Mathlib.Data.List.Nodup

/-!
# Redemption of vouchers

A redemption is recorded at `["redeemed", payer, redeem_seed]`, and the seed has to be the hash of
payer and nonce. So the record is one for each payer and nonce (`Recorded`), whatever else the
voucher says. A redemption takes the shares of its amount out of the vault of the payer and out of
no other account (`Debited`). A share whose destination is that vault itself comes back to it.
-/

namespace Ddns.Escrow

open Tx Runs

/-- A step of the program. -/
abbrev Step := Event (Chain State) (Action Instr) (Option (Result EscrowError (Option TollPaid)))

/-- The event that a step emits. -/
def emitted (e : Step) : Option TollPaid :=
  match e.out with
  | some (.ok (some t)) => some t
  | _ => none

/-- The redemptions that succeeded. -/
def redemptions (l : List Step) : List TollPaid := l.filterMap emitted

/-- The amounts redeemed for a payer. -/
def redeemedFor (p : Pubkey) (ts : List TollPaid) : Nat :=
  ((ts.filter fun t => t.payer = p).map TollPaid.amount).sum

/-- What the redemption `t` moves out of `vault`: shares that sum up to its amount, in three
transfers. The vault loses the amount, less the shares that it is itself the destination of. -/
structure Moves (dep : Deployment) (pre post : State) (vault payout : Pubkey) (t : TollPaid) :
    Prop where
  domain : t.domainAmt = t.amount * pre.config.domainBps / bpsDenom
  miners : t.minersAmt = t.amount * pre.config.minersBps / bpsDenom
  sum : t.domainAmt + t.minersAmt + t.treasuryAmt = t.amount
  bounded : t.amount < 2 ^ 64
  transfers : ∃ t₁ t₂,
    payShare pre.tokens vault payout (dep.escrowKey t.payer) t.domainAmt = .ok t₁ ∧
    payShare t₁ vault pre.config.minersVault (dep.escrowKey t.payer) t.minersAmt = .ok t₂ ∧
    payShare t₂ vault pre.config.treasuryVault (dep.escrowKey t.payer) t.treasuryAmt =
      .ok post.tokens
  net : post.tokens.amount vault + t.amount = pre.tokens.amount vault +
    (if vault = payout then t.domainAmt else 0) +
    (if vault = pre.config.minersVault then t.minersAmt else 0) +
    (if vault = pre.config.treasuryVault then t.treasuryAmt else 0)

/-- The step redeems a voucher with the payer, nonce and amount of `t`, out of the vault of the
payer's escrow. -/
def Step.Redeems (dep : Deployment) (e : Step) (t : TollPaid) : Prop :=
  ∃ vault domain ixs bs sig seed v esc d,
    e.input = .submit (.redeemTollVoucher t.payer vault domain ixs bs sig t.nonce seed) ∧
    VoucherV1.tryFromSlice bs = some v ∧ v.payer = t.payer ∧ v.nonce = t.nonce ∧
    v.amount = t.amount ∧
    e.pre.accounts.userEscrow t.payer = some esc ∧ esc.vault = vault ∧
    e.pre.accounts.domainOwner domain = some d ∧
    Moves dep e.pre.accounts e.post.accounts vault d.payoutTokenAccount t

/-! ## The shares -/

section Shares

variable {cfg : EscrowConfig} {amount : Nat} {tokens tokens' : Tokens} {src dst authority : Pubkey}

theorem mulBps_eq {bps : Nat} (ha : amount < 2 ^ 64) (hb : bps ≤ bpsDenom) :
    mulBps amount bps = .ok (amount * bps / bpsDenom) := by
  simp only [mulBps, bind_eq_ok, okOr_eq_ok, Checked.mul_eq_some, pure_eq_ok]
  exact ⟨_, ⟨Shares.product_lt ha hb (by decide), rfl⟩, Shares.cast_share ha hb⟩

/-- **The split never fails**, and its parts sum up to the amount. -/
theorem splitAmounts_eq (cfg : EscrowConfig) (ha : amount < 2 ^ 64) :
    ∃ t, splitAmounts cfg amount =
        .ok (amount * cfg.domainBps / bpsDenom, amount * cfg.minersBps / bpsDenom, t) ∧
      amount * cfg.domainBps / bpsDenom + amount * cfg.minersBps / bpsDenom + t = amount := by
  have hsum := cfg.bps_sum
  have hd : cfg.domainBps ≤ bpsDenom := by omega
  have hm : cfg.minersBps ≤ bpsDenom := by omega
  have hbps : cfg.domainBps + cfg.minersBps ≤ bpsDenom := by omega
  have hle : amount * cfg.domainBps / bpsDenom + amount * cfg.minersBps / bpsDenom ≤ amount :=
    Shares.share_add_le hbps
  generalize hx : amount * cfg.domainBps / bpsDenom = x at hle ⊢
  generalize hy : amount * cfg.minersBps / bpsDenom = y at hle ⊢
  refine ⟨amount - x - y, ?_, by omega⟩
  simp only [splitAmounts, mulBps_eq ha hd, mulBps_eq ha hm, hx, hy, bind_eq_ok, okOr_eq_ok,
    Option.bind_eq_some_iff, Checked.sub_eq_some, pure_eq_ok]
  exact ⟨_, rfl, _, rfl, _, ⟨_, ⟨by omega, rfl⟩, by omega, rfl⟩, rfl⟩

theorem payShare_amount {n : Nat} (h : payShare tokens src dst authority n = .ok tokens')
    (a : Pubkey) : tokens'.amount a + (if a = src then n else 0) =
      tokens.amount a + (if a = dst then n else 0) :=
  Tokens.pay_amount h a

theorem payShare_frame {n : Nat} (h : payShare tokens src dst authority n = .ok tokens')
    (a : Pubkey) : (tokens' a).map (fun x => (x.mint, x.owner)) =
      (tokens a).map fun x => (x.mint, x.owner) := by
  unfold payShare at h
  split at h
  · exact Tokens.transfer_frame h a
  · cases h
    rfl

theorem owner_of_frame {t t' : Tokens} {a : Pubkey}
    (h : (t' a).map (fun x => (x.mint, x.owner)) = (t a).map fun x => (x.mint, x.owner)) :
    (t' a).map TokenAccount.owner = (t a).map TokenAccount.owner := by
  have hsnd := congrArg (Option.map Prod.snd) h
  rw [Option.map_map, Option.map_map] at hsnd
  exact hsnd

end Shares

/-! ## One redemption -/

section Steps

variable {dep : Deployment} {clock : Clock} {st st' : State} {t : TollPaid}
  {payer vault : Pubkey} {domain seed : Hash} {ixs : List TxInstruction} {bs sig : List UInt8}
  {nonce : Nat}

/-- What a redemption of the voucher `v` checks, records and transfers, out of the escrow `esc` and
the token account `acc`, for the domain owner `d`. -/
structure Redemption (dep : Deployment) (st st' : State) (payer vault : Pubkey) (domain : Hash)
    (bs : List UInt8) (nonce : Nat) (seed : Hash) (t : TollPaid) (v : VoucherV1)
    (esc : UserEscrow) (d : DomainOwner) (acc : TokenAccount) : Prop where
  voucher : VoucherV1.tryFromSlice bs = some v
  voucher_payer : v.payer = payer
  voucher_nonce : v.nonce = nonce
  payer_eq : t.payer = payer
  nonce_eq : t.nonce = nonce
  amount_eq : t.amount = v.amount
  escrow : st.userEscrow payer = some esc
  vault_eq : esc.vault = vault
  domainOwner : st.domainOwner domain = some d
  account : st.tokens vault = some acc
  owner : acc.owner = dep.escrowKey payer
  seed_eq : seed = expectedRedeemSeed dep payer nonce
  fresh : st.redeemed payer seed = none
  users : st'.userEscrow = st.userEscrow
  recorded : ∃ r, st'.redeemed = Function.update st.redeemed payer
    (Function.update (st.redeemed payer) seed (some r))
  split : splitAmounts st.config t.amount = .ok (t.domainAmt, t.minersAmt, t.treasuryAmt)
  transfers : ∃ t₁ t₂,
    payShare st.tokens vault d.payoutTokenAccount (dep.escrowKey payer) t.domainAmt = .ok t₁ ∧
    payShare t₁ vault st.config.minersVault (dep.escrowKey payer) t.minersAmt = .ok t₂ ∧
    payShare t₂ vault st.config.treasuryVault (dep.escrowKey payer) t.treasuryAmt = .ok st'.tokens

theorem redeemTollVoucher_ok
    (h : redeemTollVoucher dep clock st payer vault domain ixs bs sig nonce seed = .ok (st', t)) :
    ∃ v esc d acc, Redemption dep st st' payer vault domain bs nonce seed t v esc d acc := by
  simp only [redeemTollVoucher, bind_eq_ok, load_eq_ok, demand_eq_ok, vacant_eq_ok, okOr_eq_ok,
    require_eq_ok, exists_unit, pure_eq_ok, Prod.mk.injEq] at h
  obtain ⟨esc, hesc, d, hd, -, hnone, v, hv, -, -, -, hpayer, -, hvault, -, -, -, -, acc, hacc, -,
    hown, -, -, -, -, -, -, -, -, -, hnonce, hseed, -, -, -, -, ⟨x, y, z⟩, hsplit, t₁, h₁, t₂, h₂,
    t₃, h₃, rfl, rfl⟩ := h
  refine ⟨v, esc, d, acc, hv, hpayer, hnonce.symm, hpayer, hnonce.symm, rfl, hesc, hvault, hd, hacc,
    hown, ?_, hnone, rfl, ⟨_, rfl⟩, hsplit, t₁, t₂, h₁, h₂, h₃⟩
  rw [hseed, hpayer]

theorem amount_lt {v : VoucherV1} (h : VoucherV1.tryFromSlice bs = some v) : v.amount < 2 ^ 64 := by
  unfold VoucherV1.tryFromSlice at h
  split at h
  · cases h
    exact Bytes.leNat_slice_lt bs 66 8
  · cases h

variable {v : VoucherV1} {esc : UserEscrow} {d : DomainOwner} {acc : TokenAccount} {a : Pubkey}

/-- The transfers of a redemption move its amount. -/
theorem Redemption.moves (h : Redemption dep st st' payer vault domain bs nonce seed t v esc d acc) :
    Moves dep st st' vault d.payoutTokenAccount t := by
  have hlt : t.amount < 2 ^ 64 := h.amount_eq ▸ amount_lt h.voucher
  obtain ⟨z, hz, hsum⟩ := splitAmounts_eq st.config hlt
  have hsplit := h.split
  rw [hz, Except.ok.injEq, Prod.mk.injEq, Prod.mk.injEq] at hsplit
  obtain ⟨hdom, hmin, htre⟩ := hsplit
  rw [hdom, hmin, htre] at hsum
  obtain ⟨t₁, t₂, h₁, h₂, h₃⟩ := h.transfers
  have ha₁ := payShare_amount h₁ vault
  have ha₂ := payShare_amount h₂ vault
  have ha₃ := payShare_amount h₃ vault
  rw [if_pos rfl] at ha₁ ha₂ ha₃
  rw [← h.payer_eq] at h₁ h₂ h₃
  exact ⟨hdom.symm, hmin.symm, hsum, hlt, ⟨t₁, t₂, h₁, h₂, h₃⟩, by omega⟩

/-- A redemption debits no account but the vault. -/
theorem Redemption.others (h : Redemption dep st st' payer vault domain bs nonce seed t v esc d acc)
    (ha : a ≠ vault) : st.tokens.amount a ≤ st'.tokens.amount a := by
  obtain ⟨t₁, t₂, h₁, h₂, h₃⟩ := h.transfers
  have ha₁ := payShare_amount h₁ a
  have ha₂ := payShare_amount h₂ a
  have ha₃ := payShare_amount h₃ a
  rw [if_neg ha] at ha₁ ha₂ ha₃
  omega

/-- A redemption changes the owner of no token account. -/
theorem Redemption.frame (h : Redemption dep st st' payer vault domain bs nonce seed t v esc d acc)
    (a : Pubkey) : (st'.tokens a).map TokenAccount.owner = (st.tokens a).map TokenAccount.owner := by
  obtain ⟨t₁, t₂, h₁, h₂, h₃⟩ := h.transfers
  have hframe := (payShare_frame h₃ a).trans ((payShare_frame h₂ a).trans (payShare_frame h₁ a))
  exact owner_of_frame hframe

/-- The accounts of escrows keep their owners and lose nothing. -/
def Kept (dep : Deployment) (t t' : Tokens) : Prop :=
  ∀ a p, (t a).map TokenAccount.owner = some (dep.escrowKey p) →
    (t' a).map TokenAccount.owner = some (dep.escrowKey p) ∧ t.amount a ≤ t'.amount a

theorem Kept.refl (dep : Deployment) (t : Tokens) : Kept dep t t :=
  fun _ _ h => ⟨h, Nat.le_refl _⟩

/-- A transfer that a wallet signs takes nothing from an escrow. -/
theorem walletTransfer_kept {src dst : Pubkey} {authority : Signer} {n : Nat}
    {tokens tokens' : Tokens} (h : walletTransfer dep tokens src dst authority n = .ok tokens') :
    Kept dep tokens tokens' := by
  simp only [walletTransfer, bind_eq_ok, demand_eq_ok, exists_unit] at h
  obtain ⟨hsign, htr⟩ := h
  intro a p howned
  refine ⟨by rw [owner_of_frame (Tokens.transfer_frame htr a), howned], ?_⟩
  have hne : a ≠ src := by
    rintro rfl
    obtain ⟨s, d, hs, -, -, -, hso, -⟩ := Tokens.transfer_eq_ok.1 htr
    rw [hs, Option.map_some, Option.some.injEq, hso] at howned
    rw [howned, dep.escrowKey_canSign p] at hsign
    cases hsign
  have ha := Tokens.transfer_amount htr a
  rw [if_neg hne] at ha
  omega

/-- A new account changes no other one. -/
theorem update_kept {tokens : Tokens} {k : Pubkey} {acc : TokenAccount} (hk : tokens k = none) :
    Kept dep tokens (Function.update tokens k (some acc)) := by
  intro a p howned
  have hak : a ≠ k := by
    rintro rfl
    rw [hk] at howned
    cases howned
  have hsame : Function.update tokens k (some acc) a = tokens a := Function.update_of_ne hak ..
  unfold Tokens.amount
  rw [hsame]
  exact ⟨howned, Nat.le_refl _⟩

/-- Everybody with an escrow can sign. -/
def Users (dep : Deployment) (st : State) : Prop :=
  ∀ u, st.userEscrow u ≠ none → dep.canSign u = true

/-- An instruction that is not a redemption emits nothing and records nothing, and takes nothing
from an escrow. -/
theorem process_other {i : Instr} {w : Option TollPaid}
    (hi : ∀ p v d ixs bs sig n seed, i ≠ .redeemTollVoucher p v d ixs bs sig n seed)
    (h : process dep clock st i = .ok (st', w)) :
    w = none ∧ st'.redeemed = st.redeemed ∧ Kept dep st.tokens st'.tokens ∧
      (Users dep st → Users dep st') := by
  cases i with
  | redeemTollVoucher p v d ixs bs sig n seed => exact absurd rfl (hi p v d ixs bs sig n seed)
  | initUserEscrow u v m =>
    simp [process, initUserEscrow] at h
    obtain ⟨hsign, -, -, -, _, -, -, -, rfl, rfl⟩ := h
    refine ⟨rfl, rfl, Kept.refl dep st.tokens, ?_⟩
    intro husers k hk
    by_cases hku : k = u.key
    · rw [hku]
      exact hsign
    · have hsame : Function.update st.userEscrow u.key (some (⟨u.key, v⟩ : UserEscrow)) k =
          st.userEscrow k := Function.update_of_ne hku ..
      exact husers k (hsame ▸ hk)
  | deposit u ata v n =>
    simp [process, deposit] at h
    obtain ⟨_, -, -, -, -, _, -, _, -, -, -, tokens, htr, rfl, rfl⟩ := h
    exact ⟨rfl, rfl, walletTransfer_kept htr, id⟩
  | registerDomainOwner o n w p =>
    simp [process, registerDomainOwner] at h
    obtain ⟨-, -, -, -, -, -, rfl, rfl⟩ := h
    exact ⟨rfl, rfl, Kept.refl dep st.tokens, id⟩
  | splTransfer a src dst n =>
    simp [process, splTransfer] at h
    obtain ⟨tokens, htr, rfl, rfl⟩ := h
    exact ⟨rfl, rfl, walletTransfer_kept htr, id⟩
  | openTokenAccount a m o =>
    simp [process, openTokenAccount] at h
    obtain ⟨hnone, -, rfl, rfl⟩ := h
    exact ⟨rfl, rfl, update_kept hnone, id⟩

end Steps

/-! ## Runs -/

section Runs

variable {dep : Deployment} {c : Chain State} {l : List Step} {a p : Pubkey} {n₀ : Nat}

theorem redemptions_append (l : List Step) (e : Step) :
    redemptions (l ++ [e]) = redemptions l ++ (emitted e).toList := by
  unfold redemptions
  cases he : emitted e with
  | none => rw [filterMap_concat_none he, Option.toList_none, List.append_nil]
  | some t => rw [filterMap_concat_some he, Option.toList_some]

theorem redeemedFor_append (p : Pubkey) (ts : List TollPaid) (t : TollPaid) :
    redeemedFor p (ts ++ [t]) = redeemedFor p ts + if t.payer = p then t.amount else 0 := by
  unfold redeemedFor
  by_cases ht : t.payer = p
  · simp [List.filter_append, ht]
  · simp [List.filter_append, ht]

/-- The redemptions of a history have different payers or nonces, and each of them is recorded. -/
structure Recorded (dep : Deployment) (c : Chain State) (l : List Step) : Prop where
  nodup : ((redemptions l).map fun t => (t.payer, t.nonce)).Nodup
  present : ∀ t ∈ redemptions l,
    c.accounts.redeemed t.payer (expectedRedeemSeed dep t.payer t.nonce) ≠ none

/-- The token account at `a` belongs to the escrow of `p`, and has lost at most what was redeemed
for `p`. -/
structure Debited (dep : Deployment) (a p : Pubkey) (n₀ : Nat) (c : Chain State) (l : List Step) :
    Prop where
  users : Users dep c.accounts
  owned : (c.accounts.tokens a).map TokenAccount.owner = some (dep.escrowKey p)
  covered : n₀ ≤ c.accounts.tokens.amount a + redeemedFor p (redemptions l)

/-- What a step does to the record of redemptions and to the accounts of escrows. -/
theorem step_history (dep : Deployment) (c : Chain State) (act : Action Instr) :
    let e := event (step dep) c act
    (emitted e = none ∧ e.post.accounts.redeemed = c.accounts.redeemed ∧
      Kept dep c.accounts.tokens e.post.accounts.tokens ∧
      (Users dep c.accounts → Users dep e.post.accounts)) ∨
    ∃ t vault domain ixs bs sig nonce seed st',
      act = .submit (.redeemTollVoucher t.payer vault domain ixs bs sig nonce seed) ∧
      redeemTollVoucher dep c.clock c.accounts t.payer vault domain ixs bs sig nonce seed =
        .ok (st', t) ∧ emitted e = some t ∧ e.post.accounts = st' := by
  intro e
  rcases chainStep_commits (process dep) c act with ⟨hsame, hno⟩ | ⟨i, st', w, rfl, hok, hs⟩
  · have hpost : e.post.accounts = c.accounts := hsame
    have hem : emitted e = none := by
      unfold emitted
      split
      · next t ht => exact absurd ht (hno (some t))
      · rfl
    rw [hpost]
    exact .inl ⟨hem, rfl, Kept.refl dep _, id⟩
  · have he : e = ⟨c, .submit i, some (.ok w), ⟨c.clock, st'⟩⟩ := by
      show (⟨c, _, (step dep c (.submit i)).2, (step dep c (.submit i)).1⟩ : Step) = _
      rw [step, hs]
    rw [he]
    by_cases hi : ∃ p v d ixs bs sig n seed, i = .redeemTollVoucher p v d ixs bs sig n seed
    · right
      obtain ⟨p, v, d, ixs, bs, sig, n, seed, rfl⟩ := hi
      obtain ⟨⟨st', t⟩, hred, hpair⟩ := map_eq_ok.1 hok
      cases hpair
      obtain ⟨_, _, _, _, hr⟩ := redeemTollVoucher_ok hred
      obtain rfl := hr.payer_eq
      exact ⟨t, v, d, ixs, bs, sig, n, seed, st', rfl, hred, rfl, rfl⟩
    · left
      obtain ⟨rfl, hred, hkept, husers⟩ := process_other
        (fun p v d ixs bs sig n seed heq => hi ⟨p, v, d, ixs, bs, sig, n, seed, heq⟩) hok
      exact ⟨rfl, hred, hkept, husers⟩

theorem recorded_step (act : Action Instr) (h : Recorded dep c l) :
    Recorded dep (step dep c act).1 (l ++ [event (step dep) c act]) := by
  rcases step_history dep c act with
    ⟨hem, hred, -, -⟩ | ⟨t, vault, domain, ixs, bs, sig, nonce, seed, st', -, hok, hem, hpost⟩
  · have hsame : redemptions (l ++ [event (step dep) c act]) = redemptions l := by
      rw [redemptions_append, hem, Option.toList_none, List.append_nil]
    refine ⟨hsame ▸ h.nodup, ?_⟩
    rw [hsame]
    intro t ht
    have hpres := h.present t ht
    rw [← hred] at hpres
    exact hpres
  · obtain ⟨_, _, _, _, hred⟩ := redeemTollVoucher_ok hok
    obtain rfl := hred.nonce_eq
    obtain rfl := hred.seed_eq
    obtain ⟨r, hr⟩ := hred.recorded
    have hadd : redemptions (l ++ [event (step dep) c act]) = redemptions l ++ [t] := by
      rw [redemptions_append, hem, Option.toList_some]
    have hnew : (t.payer, t.nonce) ∉ (redemptions l).map fun t => (t.payer, t.nonce) := by
      intro hmem
      obtain ⟨t', ht', heq⟩ := List.mem_map.1 hmem
      rw [Prod.mk.injEq] at heq
      have hpres := h.present t' ht'
      rw [heq.1, heq.2] at hpres
      exact hpres hred.fresh
    refine ⟨?_, ?_⟩
    · rw [hadd, List.map_append, List.nodup_append]
      refine ⟨h.nodup, List.nodup_singleton _, ?_⟩
      rintro x hx y hy rfl
      rw [List.map_singleton, List.mem_singleton] at hy
      exact hnew (hy ▸ hx)
    · rw [hadd]
      intro t' ht'
      have hpost' : (step dep c act).1.accounts.redeemed = st'.redeemed := by
        rw [← hpost]
        rfl
      rw [hpost', hr]
      by_cases hp : t'.payer = t.payer
      · rw [hp, Function.update_self]
        by_cases hseed : expectedRedeemSeed dep t.payer t'.nonce =
            expectedRedeemSeed dep t.payer t.nonce
        · rw [hseed, Function.update_self]
          exact Option.some_ne_none r
        · rw [Function.update_of_ne hseed]
          rcases List.mem_append.1 ht' with ht' | ht'
          · exact hp ▸ h.present t' ht'
          · rw [List.mem_singleton.1 ht'] at hseed
            exact absurd rfl hseed
      · rw [Function.update_of_ne hp]
        rcases List.mem_append.1 ht' with ht' | ht'
        · exact h.present t' ht'
        · exact absurd (congrArg TollPaid.payer (List.mem_singleton.1 ht')) hp

theorem debited_step (hp : dep.canSign p = true) (act : Action Instr)
    (h : Debited dep a p n₀ c l) :
    Debited dep a p n₀ (step dep c act).1 (l ++ [event (step dep) c act]) := by
  have hcov := h.covered
  rcases step_history dep c act with
    ⟨hem, -, hkept, husers⟩ | ⟨t, vault, domain, ixs, bs, sig, nonce, seed, st', -, hok, hem, hpost⟩
  · obtain ⟨hown, hle⟩ := hkept a p h.owned
    refine ⟨husers h.users, hown, ?_⟩
    rw [redemptions_append, hem, Option.toList_none, List.append_nil]
    exact Nat.le_trans hcov (Nat.add_le_add_right hle _)
  · have hpost' : (step dep c act).1.accounts = st' := hpost
    obtain ⟨_, esc, _, acc, hred⟩ := redeemTollVoucher_ok hok
    refine ⟨?_, ?_, ?_⟩
    · unfold Users
      rw [hpost', hred.users]
      exact h.users
    · rw [hpost', hred.frame a]
      exact h.owned
    · rw [hpost', redemptions_append, hem, Option.toList_some, redeemedFor_append]
      by_cases hav : a = vault
      · -- The vault is an account of the escrow of the payer, so the payer is `p`.
        subst hav
        have hkey : dep.escrowKey t.payer = dep.escrowKey p := by
          have howned := h.owned
          rw [hred.account, Option.map_some, Option.some.injEq] at howned
          exact hred.owner.symm.trans howned
        have hopen : c.accounts.userEscrow t.payer ≠ none := by
          rw [hred.escrow]
          exact Option.some_ne_none esc
        have hpayer : t.payer = p :=
          dep.escrowKey_inj _ _ (h.users t.payer hopen) hp hkey
        have hnet := hred.moves.net
        rw [if_pos hpayer]
        omega
      · have hle := hred.others hav
        omega

/-- A redemption of a run moves the amount of its voucher. -/
theorem emitted_redeems {e : Step} {is : List (Action Instr)} {t : TollPaid}
    (he : e ∈ trace (step dep) c is) (ht : emitted e = some t) : Step.Redeems dep e t := by
  obtain ⟨pre, act, post, -, rfl⟩ := mem_trace he
  rcases step_history dep (exec (step dep) c pre) act with
    ⟨hem, -⟩ | ⟨t', vault, domain, ixs, bs, sig, nonce, seed, st', hact, hok, hem, hpost⟩
  · rw [hem] at ht
    cases ht
  · rw [hem] at ht
    obtain rfl : t' = t := Option.some.inj ht
    obtain ⟨v, esc, d, acc, hred⟩ := redeemTollVoucher_ok hok
    obtain rfl := hred.nonce_eq
    have hmoves := hred.moves
    rw [← hpost] at hmoves
    exact ⟨vault, domain, ixs, bs, sig, seed, v, esc, d, hact, hred.voucher, hred.voucher_payer,
      hred.voucher_nonce, hred.amount_eq.symm, hred.escrow, hred.vault_eq, hred.domainOwner, hmoves⟩

theorem users_step (act : Action Instr) (h : Users dep c.accounts) :
    Users dep (step dep c act).1.accounts := by
  rcases step_history dep c act with
    ⟨-, -, -, husers⟩ | ⟨t, vault, domain, ixs, bs, sig, nonce, seed, st', -, hok, -, hpost⟩
  · exact husers h
  · have hpost' : (step dep c act).1.accounts = st' := hpost
    obtain ⟨_, _, _, _, hred⟩ := redeemTollVoucher_ok hok
    unfold Users
    rw [hpost', hred.users]
    exact h

end Runs

/-- **Redemption is safe.** In every run of the program: no payer and nonce are redeemed twice;
each redemption moves exactly the amount of its voucher out of the vault of the payer's escrow, in
shares that the split yields for every amount; and from every state of the run on, a token account
of the escrow of `p` loses no more than the vouchers redeemed for `p` amount to. -/
theorem redemption_safe (dep : Deployment) (config : EscrowConfig) (mints : Mints)
    (tokens : Tokens) (clock : Clock) (is : List (Action Instr)) :
    let c : Chain State := ⟨clock, State.genesis config mints tokens⟩
    let tr := trace (step dep) c is
    ((redemptions tr).map fun t => (t.payer, t.nonce)).Nodup ∧
    (∀ e ∈ tr, ∀ t, emitted e = some t → Step.Redeems dep e t) ∧
    (∀ amount, amount < 2 ^ 64 → ∃ d m t, splitAmounts config amount = .ok (d, m, t) ∧
      d + m + t = amount) ∧
    ∀ pre post, is = pre ++ post → ∀ p, dep.canSign p = true → ∀ a acc,
      (exec (step dep) c pre).accounts.tokens a = some acc → acc.owner = dep.escrowKey p →
      (exec (step dep) c pre).accounts.tokens.amount a ≤
        (exec (step dep) c is).accounts.tokens.amount a +
          redeemedFor p (redemptions (trace (step dep) (exec (step dep) c pre) post)) := by
  intro c tr
  refine ⟨?_, ?_, ?_, ?_⟩
  · have hempty : Recorded dep c [] := ⟨List.nodup_nil, fun t ht => by cases ht⟩
    exact (history_of_step (fun _ _ act h => recorded_step act h) hempty is).nodup
  · intro e he t ht
    exact emitted_redeems he ht
  · intro amount hlt
    obtain ⟨t, hsplit, hsum⟩ := splitAmounts_eq config hlt
    exact ⟨_, _, t, hsplit, hsum⟩
  · rintro pre post rfl p hp a acc hacc hown
    have hempty : Debited dep a p ((exec (step dep) c pre).accounts.tokens.amount a)
        (exec (step dep) c pre) [] := by
      refine ⟨?_, by rw [hacc, Option.map_some, hown], Nat.le_add_right _ _⟩
      exact exec_induction (P := fun c : Chain State => Users dep c.accounts)
        (fun c act h => users_step act h) (fun u hu => absurd rfl hu) pre
    rw [exec_append]
    exact (history_of_step (fun _ _ act h => debited_step hp act h) hempty post).covered

end Ddns.Escrow
