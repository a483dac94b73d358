import Ddns.MinerScore.Program
import Ddns.Lib.Run
import Ddns.Lib.Shares

/-!
# The rewards of a miner, step by step

The reward of a miner in an epoch is ruled on by the submitters: they assign it, any number of
times, and cut it by penalties. `standing` is the last assignment with the penalties since, and
`due` what they leave of it; that is what the statistics hold (`Recorded`) and what a claim takes
from the vault. The receipt of a claim stays, so there is one claim for each miner and epoch.
-/

namespace Ddns.MinerScore

open Tx Runs Shares

/-- A step of the program. -/
abbrev Step :=
  Event (Chain State) (Action Instr) (Option (Result MinerScoreError (Option MinerPenalized)))

/-! ## Rulings and payments -/

/-- What a submitter rules on a reward: it is assigned, or cut by a penalty in basis points. -/
inductive Ruling where
  | assign (r : Nat)
  | penalty (p : Nat)
  deriving DecidableEq, Repr

/-- The ruling of a step on the reward of the miner in the epoch. -/
def rulingOf (e : UInt64) (m : Pubkey) (x : Step) : Option Ruling :=
  match x.input, x.out with
  | .submit (.setMinerReward _ f k _ r), some (.ok _) =>
    if f = e ∧ k = m then some (.assign r.toNat) else none
  | .submit (.penalizeMiner _ f k p _), some (.ok _) =>
    if f = e ∧ k = m then some (.penalty p.toNat) else none
  | _, _ => none

/-- The rulings on the reward of the miner in the epoch, in order. -/
def rulings (e : UInt64) (m : Pubkey) (l : List Step) : List Ruling := l.filterMap (rulingOf e m)

/-- An assignment starts anew, and a penalty joins those since. -/
def Ruling.after (s : Option (Nat × List Nat)) : Ruling → Option (Nat × List Nat)
  | .assign r => some (r, [])
  | .penalty p => s.map fun a => (a.1, a.2 ++ [p])

/-- The last assignment and the penalties since. -/
def standing (rs : List Ruling) : Option (Nat × List Nat) := rs.foldl Ruling.after none

/-- What the rulings leave. -/
def due (rs : List Ruling) : Nat :=
  match standing rs with
  | some (r, ps) => cut bpsDenom r ps
  | none => 0

/-- A reward that was paid. -/
structure Payment where
  epochId : UInt64
  miner : Pubkey
  amount : Nat
  deriving DecidableEq, Repr

/-- The payment of a step: what a claim takes from the vault. -/
def paymentOf (x : Step) : Option Payment :=
  match x.input, x.out with
  | .submit (.claimMinerReward accs e), some (.ok _) =>
    some ⟨e, accs.miner.key, x.pre.accounts.tokens.amount accs.rewardVault -
      x.post.accounts.tokens.amount accs.rewardVault⟩
  | _, _ => none

/-- The payments of a run, in order. -/
def payments (l : List Step) : List Payment := l.filterMap paymentOf

theorem standing_concat (rs : List Ruling) (r : Ruling) :
    standing (rs ++ [r]) = r.after (standing rs) := by
  unfold standing
  rw [List.foldl_append, List.foldl_cons, List.foldl_nil]

theorem due_of_standing {rs : List Ruling} {r : Nat} {ps : List Nat}
    (h : standing rs = some (r, ps)) : due rs = cut bpsDenom r ps := by
  unfold due
  rw [h]

theorem due_of_none {rs : List Ruling} (h : standing rs = none) : due rs = 0 := by
  unfold due
  rw [h]

@[simp] theorem due_assign (rs : List Ruling) (r : Nat) : due (rs ++ [.assign r]) = r :=
  due_of_standing (show standing (rs ++ [.assign r]) = some (r, []) from standing_concat ..)

/-- A penalty takes its share of what was due. -/
theorem due_penalty (rs : List Ruling) (p : Nat) :
    due (rs ++ [.penalty p]) = share bpsDenom (due rs) (bpsDenom - p) := by
  have hstanding := standing_concat rs (.penalty p)
  cases h : standing rs with
  | none =>
    rw [h] at hstanding
    rw [due_of_none h, due_of_none hstanding]
    simp [share]
  | some a =>
    rw [h] at hstanding
    rw [due_of_standing h, due_of_standing hstanding, cut_concat]

/-! ## What an instruction does -/

section Steps

variable {dep : Deployment} {clock : Clock} {st st' : State} {w : Option MinerPenalized}

@[simp] theorem setMinerEpoch_self (st : State) (e : UInt64) (m : Pubkey) (x : MinerEpochStats) :
    (st.setMinerEpoch e m x).minerEpoch e m = some x :=
  Updates.update₂_self ..

theorem setMinerEpoch_ne {e f : UInt64} {m k : Pubkey} (x : MinerEpochStats)
    (hne : ¬(f = e ∧ k = m)) : (st.setMinerEpoch e m x).minerEpoch f k = st.minerEpoch f k :=
  Updates.update₂_ne _ hne

/-- Everything a successful instruction does to the statistics, the totals, the receipts and the
vault. -/
inductive Effect (dep : Deployment) (st st' : State) : Instr → Prop
  | report (s : Signer) (e : UInt64) (m : Pubkey) (r : Report) (x : MinerEpochStats)
      (fresh : st.minerEpoch e m = none) (member : m ∈ st.config.allowlistedMiners)
      (zero : x.rewardAmount = 0) (post : st' = st.setMinerEpoch e m x) :
      Effect dep st st' (.reportMinerEpochStats s e m r)
  | finalize (s : Signer) (e : UInt64) (raw norm : BitVec 128) (planned : UInt64) (count : UInt32)
      (share : UInt16) (t : EpochTotals) (fresh : st.epochTotals e = none)
      (finalized : t.finalized = true) (post : st' = st.setEpochTotals e t) :
      Effect dep st st' (.finalizeEpoch s e raw norm planned count share)
  | assign (s : Signer) (e : UInt64) (m : Pubkey) (norm : BitVec 128) (r : UInt64) (t : EpochTotals)
      (x y : MinerEpochStats) (totals : st.epochTotals e = some t) (finalized : t.finalized = true)
      (cap : r.toNat ≤ st.config.perMinerEpochCap.toNat) (pre : st.minerEpoch e m = some x)
      (reward : y.rewardAmount = r.toNat) (post : st' = st.setMinerEpoch e m y) :
      Effect dep st st' (.setMinerReward s e m norm r)
  | claim (accs : ClaimMinerReward) (e : UInt64) (x y : MinerEpochStats) (r : MinerClaimReceipt)
      (tokens : Tokens) (pre : st.minerEpoch e accs.miner.key = some x)
      (fresh : st.claimReceipt e accs.miner.key = none) (kept : y.rewardAmount = x.rewardAmount)
      (pos : 0 < x.rewardAmount) (receipt : r.amount = x.rewardAmount)
      (vault : dep.canSign accs.miner.key = true →
        st.tokens.amount accs.rewardVault - tokens.amount accs.rewardVault = x.rewardAmount)
      (post : st' = ({ st with tokens }.setMinerEpoch e accs.miner.key y).setClaimReceipt e
        accs.miner.key r) :
      Effect dep st st' (.claimMinerReward accs e)
  | penalty (s : Signer) (e : UInt64) (m : Pubkey) (p : UInt16) (reason : Hash)
      (x y : MinerEpochStats) (pre : st.minerEpoch e m = some x)
      (cut : y.rewardAmount =
        Checked.cast 64 (share bpsDenom x.rewardAmount (bpsDenom - p.toNat)))
      (post : st' = st.setMinerEpoch e m y) : Effect dep st st' (.penalizeMiner s e m p reason)
  | transfer (s : Signer) (src dst : Pubkey) (n : Nat) (tokens : Tokens)
      (post : st' = { st with tokens }) : Effect dep st st' (.splTransfer s src dst n)

theorem validateTokenAccountMintOwner_ok {tokens : Tokens} {a mint owner : Pubkey} {u : Unit}
    (h : validateTokenAccountMintOwner tokens a mint owner = .ok u) :
    ∃ acc, tokens a = some acc ∧ acc.owner = owner := by
  simp only [validateTokenAccountMintOwner, bind_eq_ok, okOr_eq_ok, require_eq_ok, exists_unit] at h
  obtain ⟨acc, hacc, -, howner⟩ := h
  exact ⟨acc, hacc, howner⟩

theorem cutBps_eq_ok {n keep m : Nat} :
    cutBps n keep = .ok m ↔ n * keep < 2 ^ 128 ∧ share bpsDenom n keep = m := by
  simp only [cutBps, bind_eq_ok, okOr_eq_ok, Checked.mul_eq_some, pure_eq_ok, share]
  constructor
  · rintro ⟨_, ⟨hlt, rfl⟩, rfl⟩
    exact ⟨hlt, rfl⟩
  · rintro ⟨hlt, rfl⟩
    exact ⟨_, ⟨hlt, rfl⟩, rfl⟩

theorem claimMinerReward_effect {accs : ClaimMinerReward} {e : UInt64}
    (h : claimMinerReward dep clock st accs e = .ok st') :
    Effect dep st st' (.claimMinerReward accs e) := by
  simp only [claimMinerReward, bind_eq_ok, demand_eq_ok, load_eq_ok, vacant_eq_ok, require_eq_ok,
    exists_unit, pure_eq_ok] at h
  obtain ⟨-, x, hx, hfresh, -, -, -, hpos, -, -, hata, -, tokens, htransfer, rfl⟩ := h
  obtain ⟨d, hd, howner⟩ := validateTokenAccountMintOwner_ok hata
  refine .claim accs e x { x with claimed := true } _ tokens hx hfresh rfl hpos rfl
    (fun hsign => ?_) rfl
  have hne : d.owner ≠ dep.vaultAuthority := by
    intro he
    rw [← howner, he, dep.vaultAuthority_canSign] at hsign
    cases hsign
  have hout := Tokens.transfer_out htransfer hd hne
  omega

theorem handle_effect {i : Instr} (h : handle dep clock st i = .ok (st', w)) :
    Effect dep st st' i := by
  cases i with
  | reportMinerEpochStats s e m r =>
    simp only [handle, map_eq_ok, Prod.mk.injEq, reportMinerEpochStats, bind_eq_ok, vacant_eq_ok,
      require_eq_ok, exists_unit, pure_eq_ok] at h
    obtain ⟨_, ⟨hfresh, -, hmember, -, -, -, scores, -, rfl⟩, rfl, -⟩ := h
    exact .report s e m r _ hfresh hmember rfl rfl
  | finalizeEpoch s e raw norm planned count share =>
    simp only [handle, map_eq_ok, Prod.mk.injEq, finalizeEpoch, bind_eq_ok, vacant_eq_ok,
      require_eq_ok, exists_unit, pure_eq_ok] at h
    obtain ⟨_, ⟨hfresh, -, -, rfl⟩, rfl, -⟩ := h
    exact .finalize s e raw norm planned count share _ hfresh rfl rfl
  | setMinerReward s e m norm r =>
    simp only [handle, map_eq_ok, Prod.mk.injEq, setMinerReward, bind_eq_ok, load_eq_ok,
      require_eq_ok, exists_unit, pure_eq_ok] at h
    obtain ⟨_, ⟨t, ht, x, hx, -, hfinal, hcap, -, -, -, rfl⟩, rfl, -⟩ := h
    exact .assign s e m norm r t x _ ht hfinal hcap hx rfl rfl
  | claimMinerReward accs e =>
    simp only [handle, map_eq_ok, Prod.mk.injEq] at h
    obtain ⟨_, hclaim, rfl, -⟩ := h
    exact claimMinerReward_effect hclaim
  | penalizeMiner s e m p reason =>
    simp only [handle, map_eq_ok, Prod.mk.injEq, penalizeMiner, bind_eq_ok, load_eq_ok,
      require_eq_ok, okOr_eq_ok, Checked.sub_eq_some, cutBps_eq_ok, exists_unit, pure_eq_ok] at h
    obtain ⟨_, ⟨x, hx, -, -, -, -, -, _, ⟨-, rfl⟩, _, ⟨-, rfl⟩, _, ⟨-, rfl⟩, _, ⟨-, rfl⟩, _, ⟨-, rfl⟩,
      rfl⟩, rfl, -⟩ := h
    exact .penalty s e m p reason x _ hx rfl rfl
  | splTransfer s src dst n =>
    simp only [handle, map_eq_ok, Prod.mk.injEq, splTransfer, bind_eq_ok, pure_eq_ok] at h
    obtain ⟨_, ⟨tokens, -, rfl⟩, rfl, -⟩ := h
    exact .transfer s src dst n tokens rfl

theorem process_effect {i : Instr} (h : process dep clock st i = .ok (st', w)) :
    dep.canSign i.signer.key = true ∧ Effect dep st st' i := by
  simp only [process, bind_eq_ok, demand_eq_ok, exists_unit] at h
  exact ⟨h.1, handle_effect h.2⟩

end Steps

/-! ## The ledger -/

/-- What the accounts hold of a miner and an epoch after the rulings `rs`. -/
structure Ruled (cfg : MinerScoreConfig) (st : State) (e : UInt64) (m : Pubkey) (rs : List Ruling) :
    Prop where
  fresh : st.minerEpoch e m = none → rs = []
  member : ∀ x, st.minerEpoch e m = some x → m ∈ cfg.allowlistedMiners
  reward : ∀ x, st.minerEpoch e m = some x → x.rewardAmount = due rs
  assigned : ∀ r ps, standing rs = some (r, ps) → r ≤ cfg.perMinerEpochCap.toNat ∧
    ∃ t, st.epochTotals e = some t ∧ t.finalized = true

/-- A payment to an allowlisted miner, within the cap, with its receipt, and in a finalized
epoch. -/
structure Backed (cfg : MinerScoreConfig) (st : State) (p : Payment) : Prop where
  member : p.miner ∈ cfg.allowlistedMiners
  cap : p.amount ≤ cfg.perMinerEpochCap.toNat
  receipt : ∃ r, st.claimReceipt p.epochId p.miner = some r ∧ r.amount = p.amount
  totals : ∃ t, st.epochTotals p.epochId = some t ∧ t.finalized = true

/-- The accounts after the steps `l`: every reward is what its rulings leave, and every payment is
backed. -/
structure Recorded (cfg : MinerScoreConfig) (st : State) (l : List Step) : Prop where
  config : st.config = cfg
  ruled : ∀ e m, Ruled cfg st e m (rulings e m l)
  paid : ∀ p ∈ payments l, Backed cfg st p

section Ledger

variable {dep : Deployment} {cfg : MinerScoreConfig} {st st' : State} {e : UInt64} {m : Pubkey}
  {rs : List Ruling} {l : List Step} {x : Step}

theorem rulings_none (h : rulingOf e m x = none) : rulings e m (l ++ [x]) = rulings e m l :=
  filterMap_concat_none h l

theorem rulings_some {r : Ruling} (h : rulingOf e m x = some r) :
    rulings e m (l ++ [x]) = rulings e m l ++ [r] :=
  filterMap_concat_some h l

theorem payments_none (h : paymentOf x = none) : payments (l ++ [x]) = payments l :=
  filterMap_concat_none h l

theorem payments_some {p : Payment} (h : paymentOf x = some p) :
    payments (l ++ [x]) = payments l ++ [p] :=
  filterMap_concat_some h l

/-- What is due is no more than the cap. -/
theorem Ruled.due_le (h : Ruled cfg st e m rs) : due rs ≤ cfg.perMinerEpochCap.toNat := by
  cases hs : standing rs with
  | none =>
    rw [due_of_none hs]
    exact Nat.zero_le _
  | some a =>
    rw [due_of_standing hs]
    exact Nat.le_trans (cut_le ..) (h.assigned a.1 a.2 hs).1

/-- The same statistics, and the totals as before or new. -/
theorem Ruled.of_same (h : Ruled cfg st e m rs) (hstats : st'.minerEpoch e m = st.minerEpoch e m)
    (htotals : ∀ t, st.epochTotals e = some t → st'.epochTotals e = some t) :
    Ruled cfg st' e m rs := by
  refine ⟨?_, ?_, ?_, fun r ps hs => ?_⟩
  · rw [hstats]
    exact h.fresh
  · rw [hstats]
    exact h.member
  · rw [hstats]
    exact h.reward
  · obtain ⟨hcap, t, ht, hfinal⟩ := h.assigned r ps hs
    exact ⟨hcap, t, htotals t ht, hfinal⟩

/-- New statistics for the miner and the epoch, with the totals as they are. -/
theorem Ruled.of_set (h : Ruled cfg st e m rs) {rs' : List Ruling} {y : MinerEpochStats}
    (hstats : st'.minerEpoch e m = some y) (htotals : st'.epochTotals = st.epochTotals)
    (hmember : m ∈ cfg.allowlistedMiners) (hreward : y.rewardAmount = due rs')
    (hassigned : ∀ r ps, standing rs' = some (r, ps) → (∃ ps', standing rs = some (r, ps')) ∨
      (r ≤ cfg.perMinerEpochCap.toNat ∧ ∃ t, st.epochTotals e = some t ∧ t.finalized = true)) :
    Ruled cfg st' e m rs' := by
  refine ⟨fun hnone => ?_, fun _ _ => hmember, fun x hx => ?_, fun r ps hs => ?_⟩
  · rw [hstats] at hnone
    cases hnone
  · rw [hstats, Option.some.injEq] at hx
    rw [← hx]
    exact hreward
  · rw [htotals]
    rcases hassigned r ps hs with ⟨ps', hs'⟩ | hnew
    · exact h.assigned r ps' hs'
    · exact hnew

/-- A reward within the cap is assigned in a finalized epoch. -/
theorem Ruled.assign (h : Ruled cfg st e m rs) {y : MinerEpochStats} {t : EpochTotals} {r : Nat}
    (hstats : st'.minerEpoch e m = some y) (htotals : st'.epochTotals = st.epochTotals)
    (hmember : m ∈ cfg.allowlistedMiners) (hreward : y.rewardAmount = r)
    (hcap : r ≤ cfg.perMinerEpochCap.toNat) (ht : st.epochTotals e = some t)
    (hfinal : t.finalized = true) : Ruled cfg st' e m (rs ++ [.assign r]) := by
  refine h.of_set hstats htotals hmember ?_ fun r' ps hs => .inr ?_
  · rw [due_assign, hreward]
  · rw [standing_concat] at hs
    cases hs
    exact ⟨hcap, t, ht, hfinal⟩

/-- A penalty cuts the stored reward. The cast keeps the amount, which is no more than the cap. -/
theorem Ruled.penalty (h : Ruled cfg st e m rs) {x y : MinerEpochStats} {p : Nat}
    (hpre : st.minerEpoch e m = some x) (hstats : st'.minerEpoch e m = some y)
    (htotals : st'.epochTotals = st.epochTotals)
    (hcut : y.rewardAmount = Checked.cast 64 (share bpsDenom x.rewardAmount (bpsDenom - p))) :
    Ruled cfg st' e m (rs ++ [.penalty p]) := by
  have hreward : x.rewardAmount = due rs := h.reward x hpre
  have hcap : x.rewardAmount < 2 ^ 64 := by
    rw [hreward]
    exact Nat.lt_of_le_of_lt h.due_le cfg.perMinerEpochCap.toNat_lt
  refine h.of_set hstats htotals (h.member x hpre) ?_ fun r ps hs => .inl ?_
  · rw [hcut, cast_share hcap (Nat.sub_le ..), due_penalty, hreward]
  · rw [standing_concat] at hs
    obtain ⟨a, ha, heq⟩ := Option.map_eq_some_iff.1 hs
    cases heq
    exact ⟨a.2, ha⟩

/-- Where one entry of the statistics is written, the rulings on every other one stay as they
are. -/
theorem Recorded.ruled_write (h : Recorded cfg st l) {y : MinerEpochStats}
    (hpost : st'.minerEpoch = (st.setMinerEpoch e m y).minerEpoch)
    (htotals : st'.epochTotals = st.epochTotals)
    (hother : ∀ f k, ¬(f = e ∧ k = m) → rulingOf f k x = none)
    (hruled : Ruled cfg st' e m (rulings e m (l ++ [x]))) (f : UInt64) (k : Pubkey) :
    Ruled cfg st' f k (rulings f k (l ++ [x])) := by
  by_cases hkey : f = e ∧ k = m
  · obtain ⟨rfl, rfl⟩ := hkey
    exact hruled
  · rw [rulings_none (hother f k hkey)]
    refine (h.ruled f k).of_same ?_ (fun t ht => by rw [htotals]; exact ht)
    rw [hpost, setMinerEpoch_ne y hkey]

/-- Receipts and totals that stay back the payments they backed. -/
theorem Backed.mono {p : Payment} (h : Backed cfg st p)
    (hreceipt : ∀ r, st.claimReceipt p.epochId p.miner = some r →
      st'.claimReceipt p.epochId p.miner = some r)
    (htotals : ∀ t, st.epochTotals p.epochId = some t → st'.epochTotals p.epochId = some t) :
    Backed cfg st' p := by
  obtain ⟨r, hr, hamount⟩ := h.receipt
  obtain ⟨t, ht, hfinal⟩ := h.totals
  exact ⟨h.member, h.cap, ⟨r, hreceipt r hr, hamount⟩, ⟨t, htotals t ht, hfinal⟩⟩

/-- The payments stay backed when receipts and totals stay as they are. -/
theorem Recorded.backed (h : Recorded cfg st l) (hreceipt : st'.claimReceipt = st.claimReceipt)
    (htotals : st'.epochTotals = st.epochTotals) : ∀ p ∈ payments l, Backed cfg st' p := by
  refine fun p hp => (h.paid p hp).mono (fun r hr => ?_) fun t ht => ?_
  · rw [hreceipt]
    exact hr
  · rw [htotals]
    exact ht

/-- A reward that is due was assigned in a finalized epoch. -/
theorem Ruled.totals (h : Ruled cfg st e m rs) (hpos : 0 < due rs) :
    ∃ t, st.epochTotals e = some t ∧ t.finalized = true := by
  cases hs : standing rs with
  | none =>
    rw [due_of_none hs] at hpos
    exact absurd hpos (Nat.lt_irrefl 0)
  | some a => exact (h.assigned a.1 a.2 hs).2

/-- A step that writes one entry of the statistics and pays nothing. -/
theorem Recorded.write (h : Recorded cfg st l) {y : MinerEpochStats}
    (hpost : st' = st.setMinerEpoch e m y) (hpay : paymentOf x = none)
    (hother : ∀ f k, ¬(f = e ∧ k = m) → rulingOf f k x = none)
    (hruled : Ruled cfg st' e m (rulings e m (l ++ [x]))) : Recorded cfg st' (l ++ [x]) := by
  subst hpost
  refine ⟨h.config, h.ruled_write rfl rfl hother hruled, ?_⟩
  rw [payments_none hpay]
  exact h.backed rfl rfl

/-- The reward that is due is paid, and the receipt says so. -/
theorem Ruled.backed (h : Ruled cfg st e m rs) {x : MinerEpochStats} {r : MinerClaimReceipt}
    (hpre : st.minerEpoch e m = some x) (hpos : 0 < x.rewardAmount)
    (htotals : st'.epochTotals = st.epochTotals) (hreceipt : st'.claimReceipt e m = some r)
    (hamount : r.amount = x.rewardAmount) : Backed cfg st' ⟨e, m, x.rewardAmount⟩ := by
  have hreward : x.rewardAmount = due rs := h.reward x hpre
  refine ⟨h.member x hpre, ?_, ⟨r, hreceipt, hamount⟩, ?_⟩
  · show x.rewardAmount ≤ _
    rw [hreward]
    exact h.due_le
  · rw [htotals]
    exact h.totals (hreward ▸ hpos)

variable {c : Chain State} {w : Option MinerPenalized}

/-- The event of an instruction that succeeds. -/
def committed (c : Chain State) (i : Instr) (st' : State) (w : Option MinerPenalized) : Step :=
  ⟨c, .submit i, some (.ok w), ⟨c.clock, st'⟩⟩

theorem rulingOf_assign (c : Chain State) (s : Signer) (e : UInt64) (m : Pubkey)
    (norm : BitVec 128) (r : UInt64) (st' : State) (w : Option MinerPenalized) (f : UInt64)
    (k : Pubkey) : rulingOf f k (committed c (.setMinerReward s e m norm r) st' w) =
      if e = f ∧ m = k then some (.assign r.toNat) else none := rfl

theorem rulingOf_penalty (c : Chain State) (s : Signer) (e : UInt64) (m : Pubkey) (p : UInt16)
    (reason : Hash) (st' : State) (w : Option MinerPenalized) (f : UInt64) (k : Pubkey) :
    rulingOf f k (committed c (.penalizeMiner s e m p reason) st' w) =
      if e = f ∧ m = k then some (.penalty p.toNat) else none := rfl

/-- A ruling on one miner and epoch is none on another. -/
theorem rulingOf_other {r : Ruling} {f : UInt64} {k : Pubkey} (hne : ¬(f = e ∧ k = m)) :
    (if e = f ∧ m = k then some r else none) = none :=
  if_neg fun heq => hne ⟨heq.1.symm, heq.2.symm⟩

/-- **One instruction** keeps the ledger. -/
theorem Recorded.commit {i : Instr} (h : Recorded cfg c.accounts l)
    (hok : process dep c.clock c.accounts i = .ok (st', w)) :
    Recorded cfg st' (l ++ [committed c i st' w]) := by
  obtain ⟨hsign, heffect⟩ := process_effect hok
  have hcfg : c.accounts.config = cfg := h.config
  cases heffect with
  | report s e m r y fresh member zero post =>
    refine h.write post rfl (fun _ _ _ => rfl) ?_
    have hnil : rulings e m l = [] := (h.ruled e m).fresh fresh
    rw [rulings_none rfl]
    refine (h.ruled e m).of_set (y := y) (by rw [post, setMinerEpoch_self]) (by rw [post]; rfl)
      (hcfg ▸ member) ?_ fun r ps hs => .inl ⟨ps, hs⟩
    rw [hnil, zero]
    rfl
  | finalize s e raw norm planned count share t fresh finalized post =>
    subst post
    refine ⟨hcfg, fun f k => ?_, ?_⟩
    · rw [rulings_none rfl]
      refine (h.ruled f k).of_same rfl fun t' ht' => ?_
      have hfe : f ≠ e := by
        rintro rfl
        rw [fresh] at ht'
        cases ht'
      exact (Function.update_of_ne hfe ..).trans ht'
    · rw [payments_none rfl]
      refine fun p hp => (h.paid p hp).mono (fun r hr => hr) fun t' ht' => ?_
      have hpe : p.epochId ≠ e := by
        intro he
        rw [he, fresh] at ht'
        cases ht'
      exact (Function.update_of_ne hpe ..).trans ht'
  | assign s e m norm r t x y totals finalized cap pre reward post =>
    refine h.write post rfl (fun f k hne => rulingOf_other hne) ?_
    rw [rulings_some ((rulingOf_assign ..).trans (if_pos ⟨rfl, rfl⟩))]
    exact (h.ruled e m).assign (by rw [post, setMinerEpoch_self]) (by rw [post]; rfl)
      ((h.ruled e m).member x pre) reward (hcfg ▸ cap) totals finalized
  | penalty s e m p reason x y pre cut post =>
    refine h.write post rfl (fun f k hne => rulingOf_other hne) ?_
    rw [rulings_some ((rulingOf_penalty ..).trans (if_pos ⟨rfl, rfl⟩))]
    exact (h.ruled e m).penalty pre (by rw [post, setMinerEpoch_self]) (by rw [post]; rfl) cut
  | claim accs e x y r tokens pre fresh kept pos receipt vault post =>
    have hruled := h.ruled e accs.miner.key
    have hself : st'.minerEpoch e accs.miner.key = some y := by
      rw [post]
      exact setMinerEpoch_self ..
    have htotals : st'.epochTotals = c.accounts.epochTotals := by rw [post]; rfl
    refine ⟨by rw [post]; exact hcfg, h.ruled_write (y := y) (by rw [post]; rfl) htotals
      (fun _ _ _ => rfl) ?_, ?_⟩
    · rw [rulings_none rfl]
      refine hruled.of_set hself htotals (hruled.member x pre) ?_ fun r ps hs => .inl ⟨ps, hs⟩
      rw [kept, hruled.reward x pre]
    · have hpay : paymentOf (committed c (.claimMinerReward accs e) st' w) =
          some ⟨e, accs.miner.key, x.rewardAmount⟩ := by
        rw [← vault hsign, post]
        rfl
      have hreceipt : st'.claimReceipt e accs.miner.key = some r := by
        rw [post]
        exact Updates.update₂_self ..
      rw [payments_some hpay]
      intro p hp
      rcases List.mem_append.1 hp with hp | hp
      · refine (h.paid p hp).mono (fun r' hr' => ?_) fun t ht => htotals ▸ ht
        have hkey : ¬(p.epochId = e ∧ p.miner = accs.miner.key) := by
          rintro ⟨he, hm⟩
          rw [he, hm, fresh] at hr'
          cases hr'
        rw [post]
        exact (Updates.update₂_ne _ hkey).trans hr'
      · rw [List.mem_singleton.1 hp]
        exact hruled.backed pre pos htotals hreceipt receipt
  | transfer s src dst n tokens post =>
    subst post
    refine ⟨hcfg, fun f k => ?_, ?_⟩
    · rw [rulings_none rfl]
      exact (h.ruled f k).of_same rfl fun t ht => ht
    · rw [payments_none rfl]
      exact h.backed rfl rfl

end Ledger

/-! ## Every run -/

section Runs

variable {dep : Deployment} {cfg : MinerScoreConfig} {c : Chain State} {l : List Step}
  {a : Action Instr} {p : Payment}

/-- A step that commits nothing rules and pays nothing. -/
theorem silent_of_not_ok {x : Step} (h : ∀ w, x.out ≠ some (.ok w)) :
    (∀ e m, rulingOf e m x = none) ∧ paymentOf x = none := by
  refine ⟨fun e m => ?_, ?_⟩
  · unfold rulingOf
    split
    · next hout => exact absurd hout (h _)
    · next hout => exact absurd hout (h _)
    · rfl
  · unfold paymentOf
    split
    · next hout => exact absurd hout (h _)
    · rfl

theorem recorded_step (a : Action Instr) (h : Recorded cfg c.accounts l) :
    Recorded cfg (step dep c a).1.accounts (l ++ [event (step dep) c a]) := by
  rcases chainStep_commits (process dep) c a with ⟨hsame, hout⟩ | ⟨i, st', w, rfl, hok, hs⟩
  · obtain ⟨hruling, hpayment⟩ := silent_of_not_ok (x := event (step dep) c a) hout
    rw [step, hsame]
    refine ⟨h.config, fun e m => ?_, ?_⟩
    · rw [rulings_none (hruling e m)]
      exact h.ruled e m
    · rw [payments_none hpayment]
      exact h.paid
  · rw [event_ok hok, step, hs]
    exact h.commit hok

/-- The ledger of every run. -/
theorem recorded_run (dep : Deployment) (config : MinerScoreConfig) (tokens : Tokens) (clock : Clock)
    (is : List (Action Instr)) :
    Recorded config (exec (step dep) ⟨clock, State.genesis dep config tokens⟩ is).accounts
      (trace (step dep) ⟨clock, State.genesis dep config tokens⟩ is) := by
  have hgenesis : Recorded config (State.genesis dep config tokens) [] :=
    ⟨rfl, fun _ _ => ⟨fun _ => rfl, nofun, nofun, nofun⟩, nofun⟩
  exact history_of_step (J := fun c l => Recorded config c.accounts l)
    (s := ⟨clock, State.genesis dep config tokens⟩) (fun c l a h => recorded_step a h) hgenesis is

/-- **A payment** is what is due, is not nothing, and the first one. -/
theorem payment_event (h : Recorded cfg c.accounts l)
    (hp : paymentOf (event (step dep) c a) = some p) :
    p.amount = due (rulings p.epochId p.miner l) ∧ 0 < p.amount ∧
      c.accounts.claimReceipt p.epochId p.miner = none := by
  rcases chainStep_commits (process dep) c a with ⟨-, hout⟩ | ⟨i, st', w, rfl, hok, -⟩
  · rw [(silent_of_not_ok (x := event (step dep) c a) hout).2] at hp
    cases hp
  · rw [event_ok hok] at hp
    obtain ⟨hsign, heffect⟩ := process_effect hok
    cases heffect with
    | claim accs e x y r tokens pre fresh kept pos receipt vault post =>
      subst post
      cases hp
      have hamount := vault hsign
      have hdue := (h.ruled e accs.miner.key).reward x pre
      exact ⟨hamount.trans hdue, Nat.lt_of_lt_of_eq pos hamount.symm, fresh⟩
    | _ => cases hp

/-- **One payment** for each miner and epoch. -/
theorem payments_once (dep : Deployment) (config : MinerScoreConfig) (tokens : Tokens)
    (clock : Clock) (is : List (Action Instr)) :
    ((payments (trace (step dep) ⟨clock, State.genesis dep config tokens⟩ is)).map
      fun p => (p.epochId, p.miner)).Nodup := by
  unfold payments
  rw [List.map_filterMap]
  refine (nodup_filterMap_trace _).2 fun pre a post _ k hk hmem => ?_
  -- A second payment would need the receipt of the first to be missing.
  obtain ⟨p, hp, rfl⟩ := Option.map_eq_some_iff.1 hk
  have hrecorded := recorded_run dep config tokens clock pre
  obtain ⟨-, -, hfresh⟩ := payment_event hrecorded hp
  obtain ⟨x, hx, hkey⟩ := List.mem_filterMap.1 hmem
  obtain ⟨q, hq, he⟩ := Option.map_eq_some_iff.1 hkey
  obtain ⟨r, hr, -⟩ := (hrecorded.paid q (List.mem_filterMap.2 ⟨x, hx, hq⟩)).receipt
  rw [Prod.mk.injEq] at he
  rw [he.1, he.2, hfresh] at hr
  cases hr

end Runs

end Ddns.MinerScore
