import Ddns.NsIncentives.Program
import Ddns.Lib.Run
import Mathlib.Algebra.BigOperators.Intervals

/-!
# The payout of the name server incentives

A claim pays the capped rewards of its epochs, added with saturation: a total that does not fit
`u64` is paid as `2 ^ 64 - 1` and the epochs count as paid (`exampleRun_not_exact`). Below that the
payout is exact. Every paid epoch is attested by `min_attestors` different verifiers among the
supplied accounts, whatever the client supplies, and the last claimed epoch keeps the paid ranges
apart (`claims_paid`).
-/

namespace Ddns.NsIncentives

open Tx Runs

/-- The queries reported for the domain in the epoch. -/
def State.queryCount (st : State) (h : Hash) (e : Nat) : Nat :=
  ((st.usage h e).map EpochUsageAggregate.queryCount).getD 0

/-- What the epoch is worth to the domain. -/
def State.worth (st : State) (h : Hash) (e : Nat) : Nat :=
  min (st.queryCount h e * st.config.rewardPerQuery) st.config.maxRewardPerEpoch

/-- What the epochs from `a` to `b` are worth to the domain. -/
def State.owed (st : State) (h : Hash) (a b : Nat) : Nat :=
  ∑ e ∈ Finset.Icc a b, st.worth h e

/-- A verifier of the allowlist vouches for the domain in the epoch, in one of the accounts. -/
def State.Vouched (st : State) (h : Hash) (e : Nat) (accounts : List AccountInfo) (k : Pubkey) :
    Prop :=
  k ∈ st.config.allowlistedVerifiers ∧ .attestation h e k ∈ accounts ∧
    ∃ att, st.attestation h e k = some att ∧ att.domainHash = h ∧ att.epochId = e ∧
      att.attestor = k ∧ att.nsSetHash = st.config.nsSetHash

/-- Enough different verifiers vouch for the domain in the epoch. -/
def State.Attested (st : State) (h : Hash) (e : Nat) (accounts : List AccountInfo) : Prop :=
  ∃ ks : List Pubkey, ks.Nodup ∧ st.config.minAttestors ≤ ks.length ∧
    ∀ k ∈ ks, st.Vouched h e accounts k

/-! ## The two loops -/

section Loops

variable {st : State} {claim : NsClaim} {accounts : List AccountInfo} {e base : Nat}

theorem readAttestation_attestation {h : Hash} {k : Pubkey} {att : EpochDelegationAttestation} :
    readAttestation st (.attestation h e k) = .ok att ↔ st.attestation h e k = some att := by
  simp [readAttestation]

theorem readUsage_usage {h : Hash} {u : EpochUsageAggregate} :
    readUsage st (.usage h e) = .ok u ↔ st.usage h e = some u := by
  simp [readUsage]

/-- An attestation that is let through vouches for the domain. -/
theorem checkAttestation_vouched {info : AccountInfo} {k : Pubkey} (hmem : info ∈ accounts)
    (h : checkAttestation st claim e info = .ok k) :
    st.Vouched claim.domainHash e accounts k := by
  simp only [checkAttestation, requireIsAllowlisted, bind_eq_ok, require_eq_ok, exists_unit,
    pure_eq_ok] at h
  obtain ⟨att, hread, hdomain, hepoch, hset, hlisted, rfl, rfl⟩ := h
  exact ⟨hlisted, hmem, att, readAttestation_attestation.1 hread, hdomain, hepoch, rfl, hset⟩

/-- The attestors that the inner loop collects are different, and all of them vouch. -/
theorem uniqueAttestors_ok {ks : List Pubkey}
    (h : uniqueAttestors st claim e base accounts = .ok ks) :
    ks.Nodup ∧ ∀ k ∈ ks, st.Vouched claim.domainHash e accounts k := by
  refine forRange_inv (fun _ (ks : List Pubkey) => ks.Nodup ∧
    ∀ k ∈ ks, st.Vouched claim.domainHash e accounts k) h ⟨List.nodup_nil, nofun⟩ ?_
  rintro j unique next - ⟨hnodup, hvouched⟩ hbody
  simp only [bind_eq_ok, load_eq_ok, pure_eq_ok] at hbody
  obtain ⟨info, hinfo, k, hk, rfl⟩ := hbody
  split
  · exact ⟨hnodup, hvouched⟩
  · next hnew =>
    refine ⟨List.nodup_append.2 ⟨hnodup, List.nodup_singleton k, ?_⟩, ?_⟩
    · rintro a ha b hb rfl
      exact hnew (List.mem_singleton.1 hb ▸ ha)
    · intro k' hk'
      rcases List.mem_append.1 hk' with hk' | hk'
      · exact hvouched k' hk'
      · obtain rfl := List.mem_singleton.1 hk'
        exact checkAttestation_vouched (List.mem_of_getElem? hinfo) hk

/-- An epoch that is let through is attested, and its reward is what it is worth. -/
theorem epochReward_ok {r : Nat} (h : epochReward st claim e base accounts = .ok r) :
    r = st.worth claim.domainHash e ∧ st.Attested claim.domainHash e accounts := by
  simp only [epochReward, bind_eq_ok, load_eq_ok, require_eq_ok, exists_unit, pure_eq_ok] at h
  obtain ⟨info, -, rfl, u, hu, -, -, -, ks, hks, hlen, rfl⟩ := h
  rw [readUsage_usage] at hu
  refine ⟨?_, ks, (uniqueAttestors_ok hks).1, hlen, (uniqueAttestors_ok hks).2⟩
  rw [Checked.satMul_min st.config.maxRewardPerEpoch_lt]
  simp [State.worth, State.queryCount, hu]

/-- The total saturates where the sum of the epochs leaves `u64`. -/
theorem totalReward_ok {a epochs total : Nat}
    (h : totalReward st claim a epochs accounts = .ok total) :
    total = min (∑ i ∈ Finset.range epochs, st.worth claim.domainHash (a + i)) (2 ^ 64 - 1) ∧
      ∀ i < epochs, st.Attested claim.domainHash (a + i) accounts := by
  refine forRange_inv (fun n total =>
    total = min (∑ i ∈ Finset.range n, st.worth claim.domainHash (a + i)) (2 ^ 64 - 1) ∧
      ∀ i < n, st.Attested claim.domainHash (a + i) accounts) h ⟨rfl, nofun⟩ ?_
  rintro i total next - ⟨rfl, hattested⟩ hbody
  simp only [bind_eq_ok, pure_eq_ok] at hbody
  obtain ⟨r, hr, rfl⟩ := hbody
  obtain ⟨rfl, hi⟩ := epochReward_ok hr
  refine ⟨?_, fun j hj => ?_⟩
  · rw [Checked.satAdd_min, Finset.sum_range_succ]
  · rcases Nat.lt_succ_iff_lt_or_eq.1 hj with hlt | rfl
    · exact hattested j hlt
    · exact hi

/-- The epochs of a range by their distance from its start. -/
theorem owed_eq_range (st : State) (h : Hash) {a b : Nat} (hab : a ≤ b) :
    st.owed h a b = ∑ i ∈ Finset.range (b - a + 1), st.worth h (a + i) := by
  have hico : Finset.Icc a b = Finset.Ico a (b + 1) := by
    ext e
    simp only [Finset.mem_Icc, Finset.mem_Ico]
    omega
  unfold State.owed
  rw [hico, Finset.sum_Ico_eq_sum_range]
  congr 2
  omega

end Loops

/-! ## One claim -/

section Steps

variable {dep : Deployment} {clock : Clock} {st st' : State} {i : Instr} {h : Hash}

/-- What a claim that succeeds finds and does. -/
structure Paid (st st' : State) (h : Hash) (dst : Pubkey) (accounts : List AccountInfo)
    (a b : Nat) : Prop where
  range : a ≤ b
  unclaimed : ∀ c, st.claim h = some c → c.lastClaimedEpoch < a
  claimed : ∃ c, st'.claim h = some c ∧ c.lastClaimedEpoch = b
  attested : ∀ e, a ≤ e → e ≤ b → st.Attested h e accounts
  moved : ∀ k, st'.tokens.amount k + (if k = st.config.rewardVault
    then min (st.owed h a b) (2 ^ 64 - 1) else 0) =
      st.tokens.amount k + (if k = dst then min (st.owed h a b) (2 ^ 64 - 1) else 0)

@[simp] theorem ownClaim_eq_ok {s : Signer} {c : NsClaim} :
    ownClaim st s h = .ok c ↔
      st.claim h = some c ∧ c.domainHash = h ∧ c.ownerWallet = s.key := by
  simp only [ownClaim, bind_eq_ok, load_eq_ok, demand_eq_ok, exists_unit, pure_eq_ok]
  constructor
  · rintro ⟨c', hc, hh, hw, rfl⟩
    exact ⟨hc, hh, hw⟩
  · rintro ⟨hc, hh, hw⟩
    exact ⟨c, hc, hh, hw, rfl⟩

theorem claimNsRewards_paid {s : Signer} {dst prog : Pubkey} {accounts : List AccountInfo}
    {a b : Nat} (hok : claimNsRewards dep st s h dst prog accounts a b = .ok st') :
    Paid st st' h dst accounts a b := by
  simp only [claimNsRewards, bind_eq_ok, ownClaim_eq_ok, require_eq_ok, exists_unit,
    pure_eq_ok] at hok
  obtain ⟨c, ⟨hc, rfl, -⟩, -, -, hab, hlast, -, -, total, htotal, -, tokens, hmove, rfl⟩ := hok
  obtain ⟨rfl, hattested⟩ := totalReward_ok htotal
  rw [← owed_eq_range st c.domainHash hab] at hmove
  refine ⟨hab, ?_, ?_, ?_, ?_⟩
  · intro c' hc'
    obtain rfl : c = c' := Option.some.inj (hc.symm.trans hc')
    exact hlast
  · exact ⟨_, Function.update_self .., rfl⟩
  · intro e ha hb
    have hi := hattested (e - a) (by omega)
    rw [Nat.add_sub_cancel' ha] at hi
    exact hi
  · exact Tokens.transfer_amount hmove

/-- The claim of the domain has been paid up to the epoch `b`. -/
def State.ClaimedTo (st : State) (h : Hash) (b : Nat) : Prop :=
  ∃ c, st.claim h = some c ∧ b ≤ c.lastClaimedEpoch

/-- The write of a claim account that is new or claimed no further than `c`. -/
theorem State.ClaimedTo.write {b : Nat} {k : Hash} {c : NsClaim} (hb : st.ClaimedTo h b)
    (hold : ∀ old, st.claim k = some old → old.lastClaimedEpoch ≤ c.lastClaimedEpoch) :
    (st.setClaim k c).ClaimedTo h b := by
  obtain ⟨old, hc, hle⟩ := hb
  by_cases hk : h = k
  · subst hk
    exact ⟨c, Function.update_self .., Nat.le_trans hle (hold old hc)⟩
  · exact ⟨old, (Function.update_of_ne hk ..).trans hc, hle⟩

/-- What has been paid stays paid. -/
theorem handle_claimedTo {b : Nat} (hok : handle dep clock st i = .ok st')
    (hb : st.ClaimedTo h b) : st'.ClaimedTo h b := by
  cases i with
  | updateNsConfig s p =>
    simp only [handle, updateNsConfig, bind_eq_ok, demand_eq_ok, require_eq_ok, exists_unit,
      pure_eq_ok] at hok
    obtain ⟨-, -, -, -, -, rfl⟩ := hok
    exact hb
  | fundRewards s src prog n =>
    simp only [handle, fundRewards, bind_eq_ok, demand_eq_ok, require_eq_ok, exists_unit,
      pure_eq_ok] at hok
    obtain ⟨-, -, -, tokens, -, rfl⟩ := hok
    exact hb
  | createNsClaim s d k =>
    simp only [handle, createNsClaim, bind_eq_ok, vacant_eq_ok, require_eq_ok, exists_unit,
      pure_eq_ok] at hok
    obtain ⟨hnone, bytes, -, -, rfl⟩ := hok
    refine hb.write fun old hold => ?_
    rw [hnone] at hold
    cases hold
  | revokeNsClaim s k =>
    simp only [handle, revokeNsClaim, bind_eq_ok, ownClaim_eq_ok, pure_eq_ok] at hok
    obtain ⟨c, ⟨hc, -⟩, rfl⟩ := hok
    refine hb.write fun old hold => ?_
    obtain rfl : c = old := Option.some.inj (hc.symm.trans hold)
    exact Nat.le_refl _
  | submitDelegationAttestation s k e proof slot =>
    simp only [handle, submitDelegationAttestation, bind_eq_ok, pure_eq_ok] at hok
    obtain ⟨c, -, -, -, -, -, -, -, -, -, epoch, -, -, -, rfl⟩ := hok
    exact hb
  | submitUsageAggregate s k e q root slot =>
    simp only [handle, submitUsageAggregate, bind_eq_ok, pure_eq_ok] at hok
    obtain ⟨c, -, -, -, -, -, -, -, epoch, -, -, -, rfl⟩ := hok
    exact hb
  | claimNsRewards s k dst prog accounts a b' =>
    simp only [handle, claimNsRewards, bind_eq_ok, ownClaim_eq_ok, require_eq_ok, exists_unit,
      pure_eq_ok] at hok
    obtain ⟨c, ⟨hc, -⟩, -, -, hab, hlast, -, -, total, -, -, tokens, -, rfl⟩ := hok
    have hb : State.ClaimedTo { st with tokens } h b := hb
    refine hb.write fun old hold => ?_
    obtain rfl : c = old := Option.some.inj (hc.symm.trans hold)
    show c.lastClaimedEpoch ≤ b'
    omega
  | splTransfer s src dst n =>
    simp only [handle, splTransfer, bind_eq_ok, pure_eq_ok] at hok
    obtain ⟨tokens, -, rfl⟩ := hok
    exact hb

end Steps

/-! ## Every run -/

/-- A step of the program. -/
abbrev Step := Event (Chain State) (Action Instr) (Option (Result NsError Unit))

/-- The step claims the epochs from `a` to `b` for the domain, and gets them paid to `dst`. -/
def Step.Claims (x : Step) (h : Hash) (dst : Pubkey) (accounts : List AccountInfo) (a b : Nat) :
    Prop :=
  ∃ s prog, x.input = .submit (.claimNsRewards s h dst prog accounts a b) ∧ x.out = some (.ok ())

/-- The step takes `n` tokens out of the reward vault to `dst`, and moves no others. -/
def Step.Pays (x : Step) (dst : Pubkey) (n : Nat) : Prop :=
  ∀ k, x.post.accounts.tokens.amount k +
      (if k = x.pre.accounts.config.rewardVault then n else 0) =
    x.pre.accounts.tokens.amount k + (if k = dst then n else 0)

/-- **The payout law** of a run, where epochs worth `n` are paid with `paid n`: a claim pays what its
epochs are worth, the ranges paid for one domain are disjoint, and every paid epoch is attested. -/
structure PayoutLaw (paid : Nat → Nat) (run : List Step) : Prop where
  exact : ∀ x ∈ run, ∀ h dst accounts a b, Step.Claims x h dst accounts a b →
    x.Pays dst (paid (x.pre.accounts.owed h a b))
  disjoint : ∀ l₁ (x : Step) l₂, run = l₁ ++ x :: l₂ → ∀ y ∈ l₂,
    ∀ h dst accounts a b dst' accounts' a' b', x.Claims h dst accounts a b →
      Step.Claims y h dst' accounts' a' b' → Disjoint (Finset.Icc a b) (Finset.Icc a' b')
  attested : ∀ x ∈ run, ∀ h dst accounts a b, Step.Claims x h dst accounts a b →
    ∀ e ∈ Finset.Icc a b, x.pre.accounts.Attested h e accounts

section Runs

variable {dep : Deployment} {c : Chain State} {is : List (Action Instr)} {x : Step} {h : Hash}
  {dst : Pubkey} {accounts : List AccountInfo} {a b : Nat}

theorem process_eq_ok {clock : Clock} {st st' : State} {i : Instr} {u : Unit} :
    process dep clock st i = .ok (st', u) ↔ handle dep clock st i = .ok st' := by
  simp [process]

theorem paid_of_claims (hx : x ∈ trace (step dep) c is) (hclaims : x.Claims h dst accounts a b) :
    Paid x.pre.accounts x.post.accounts h dst accounts a b := by
  obtain ⟨pre, act, post, -, rfl⟩ := mem_trace hx
  obtain ⟨s, prog, hi, hout⟩ := hclaims
  have hi : act = .submit (.claimNsRewards s h dst prog accounts a b) := hi
  subst hi
  obtain ⟨st', hok, hpost⟩ := chainStep_out hout
  rw [event_post, hpost]
  exact claimNsRewards_paid (process_eq_ok.1 hok)

theorem step_claimedTo (h : Hash) (b : Nat) (c : Chain State) (act : Action Instr)
    (hb : c.accounts.ClaimedTo h b) : (step dep c act).1.accounts.ClaimedTo h b :=
  accounts_invariant (P := fun st => st.ClaimedTo h b)
    (fun _ _ _ _ _ hb hok => handle_claimedTo (process_eq_ok.1 hok) hb) c act hb

end Runs

/-- **The payout.** In every run a claim pays the sum of its epochs, or `2 ^ 64 - 1` if that is
less; the ranges paid for one domain are disjoint and every paid epoch is attested. -/
theorem claims_paid (dep : Deployment) (config : NsConfig) (tokens : Tokens) (clock : Clock)
    (is : List (Action Instr)) :
    PayoutLaw (min · (2 ^ 64 - 1))
      (trace (step dep) ⟨clock, State.genesis dep config tokens⟩ is) := by
  refine ⟨?_, ?_, ?_⟩
  · intro x hx h dst accounts a b hclaims
    exact (paid_of_claims hx hclaims).moved
  · intro l₁ x l₂ hsplit y hy h dst accounts a b dst' accounts' a' b' hx hy'
    have hxrun := paid_of_claims (hsplit ▸ List.mem_append_right _ List.mem_cons_self) hx
    have hyrun := paid_of_claims
      (hsplit ▸ List.mem_append_right _ (List.mem_cons_of_mem _ hy)) hy'
    obtain ⟨c, hc, hb⟩ := hxrun.claimed
    have hclaimed : x.post.accounts.ClaimedTo h b := ⟨c, hc, hb.ge⟩
    obtain ⟨c', hc', hle⟩ := stays_after (P := fun c : Chain State => c.accounts.ClaimedTo h b)
      (step_claimedTo h b) hsplit hclaimed hy
    have hlt := hyrun.unclaimed c' hc'
    refine Finset.disjoint_left.2 fun e he he' => ?_
    rw [Finset.mem_Icc] at he he'
    omega
  · intro x hx h dst accounts a b hclaims e he
    rw [Finset.mem_Icc] at he
    exact (paid_of_claims hx hclaims).attested e he.1 he.2

/-! ## A claim whose total leaves `u64` -/

/-- A deployment. -/
def exampleDeployment : Deployment := ⟨ofBytes, 10, 11⟩

/-- A config without a cap below `u64`: one verifier attests, a query pays one token. -/
def exampleConfig : NsConfig where
  epochLenSlots := 1
  nsSetHash := 5
  minAttestors := 1
  rewardPerQuery := 1
  maxRewardPerEpoch := 2 ^ 64 - 1
  maxEpochsClaimRange := 32
  allowlistedVerifiers := [3]
  maxRewardPerEpoch_lt := by decide
  admin := 1
  tollMint := 4
  rewardVault := 12

/-- An admin. -/
def exampleAdmin : Signer := ⟨1, one_ne_default⟩

/-- The owner of a domain. -/
def exampleOwner : Signer := ⟨2, two_ne_default⟩

/-- A verifier. -/
def exampleVerifier : Signer := ⟨3, three_ne_default⟩

/-- A fresh deployment at slot 1, whose admin and owner have token accounts. -/
def exampleGenesis : Chain State where
  clock := ⟨1, 0⟩
  accounts := State.genesis exampleDeployment exampleConfig fun k =>
    if k = 13 then some ⟨4, 1, 2 ^ 64 - 1⟩ else if k = 14 then some ⟨4, 2, 0⟩ else none

/-- Two epochs with `2 ^ 64 - 1` queries each, claimed together. -/
def exampleRun : List (Action Instr) :=
  [.submit (.fundRewards exampleAdmin 13 10 (2 ^ 64 - 1)),
    .submit (.createNsClaim exampleOwner ['a'] 97),
    .submit (.submitDelegationAttestation exampleVerifier 97 1 0 1),
    .submit (.submitUsageAggregate exampleVerifier 97 1 (2 ^ 64 - 1) 0 1), .elapse 1 0,
    .submit (.submitDelegationAttestation exampleVerifier 97 2 0 2),
    .submit (.submitUsageAggregate exampleVerifier 97 2 (2 ^ 64 - 1) 0 2),
    .submit (.claimNsRewards exampleOwner 97 14 10
      [.usage 97 1, .attestation 97 1 3, .usage 97 2, .attestation 97 2 3] 1 2)]

/-- The state before the claim. -/
def exampleState : Chain State :=
  exec (step exampleDeployment) exampleGenesis (exampleRun.take 7)

/-- The claim pays `2 ^ 64 - 1`, half of what its two epochs are worth. -/
theorem exampleRun_not_exact :
    ¬PayoutLaw id (trace (step exampleDeployment) exampleGenesis exampleRun) := by
  intro hlaw
  have hmem : event (step exampleDeployment) exampleState exampleRun[7] ∈
      trace (step exampleDeployment) exampleGenesis exampleRun :=
    event_mem_trace (exampleRun.take 7) [] rfl
  have hpays := hlaw.exact _ hmem 97 14 _ 1 2 ⟨exampleOwner, 10, rfl, by decide⟩ 12
  have howed : exampleState.accounts.owed 97 1 2 = (2 ^ 64 - 1) + (2 ^ 64 - 1) := by
    rw [owed_eq_range _ _ (by decide), Finset.sum_range_succ, Finset.sum_range_one]
    decide
  have hpre : exampleState.accounts.tokens.amount 12 = 2 ^ 64 - 1 := by decide
  change _ + (if _ then exampleState.accounts.owed 97 1 2 else 0) =
    exampleState.accounts.tokens.amount 12 + _ at hpays
  rw [if_pos (by rfl), if_neg (by decide), howed, hpre] at hpays
  omega

end Ddns.NsIncentives
