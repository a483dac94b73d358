import Ddns.Anchor.Program
import Ddns.Lib.Run

/-!
# What a lock holds

`lock_tokens` records the mint and the vault it is given and moves the tokens there, but checks
neither the authority nor the mint of the vault: an owner who passes a token account of its own
keeps control of the tokens (`exampleRun_keeps`). `token_lock_iff` is the exact condition on the
call: the vault is an account of the mint under the owner's vault authority, or nothing is locked.
Then no run of instructions and transfers takes the tokens out of the vault, but for one unlock at
or after `unlock_at` that takes exactly the amount.
-/

namespace Ddns.Anchor

open Tx Runs

/-- A step of the program. -/
abbrev Step := Event (Chain State) (Action Instr) (Option (Result ErrorCode Unit))

/-- The tokens of a mint that an account holds under an authority. -/
def custody (t : Tokens) (a mint authority : Pubkey) : Nat :=
  match t a with
  | some acc => if acc.mint = mint ∧ acc.owner = authority then acc.amount else 0
  | none => 0

/-- The step unlocks: it is a successful `unlock_tokens` of the owner, at or after `unlock_at`, and
takes exactly the locked amount out of the vault. -/
structure Unlocks (lock : TokenLock) (x : Step) : Prop where
  input : ∃ accs, x.input = .submit (.unlockTokens accs) ∧ accs.owner.key = lock.owner
  out : x.out = some (.ok ())
  time : lock.unlockAt ≤ x.pre.clock.unixTimestamp
  leaves : x.post.accounts.tokens.amount lock.vault < x.pre.accounts.tokens.amount lock.vault
  amount : x.post.accounts.tokens.amount lock.vault + lock.amount =
    x.pre.accounts.tokens.amount lock.vault

/-- **The lock law**, in the state after the steps `l` since the lock: unless one of them unlocked,
the vault holds the amount under the vault authority, and at most one of them did. -/
structure Holds (dep : Deployment) (lock : TokenLock) (c : Chain State) (l : List Step) : Prop where
  held : (∀ x ∈ l, ¬Unlocks lock x) →
    lock.amount ≤ custody c.accounts.tokens lock.vault lock.mint (dep.vaultAuth lock.owner)
  once : l.Pairwise fun x y => Unlocks lock x → ¬Unlocks lock y

/-- The vault that `lock_tokens` is called with is an account of the mint under the owner's vault
authority. -/
def GoodVault (dep : Deployment) (st : State) (accs : LockTokens) : Prop :=
  ∃ acc, st.tokens accs.vault = some acc ∧ acc.mint = accs.mint ∧
    acc.owner = dep.vaultAuth accs.owner.key

/-! ## What an instruction does -/

section Steps

variable {dep : Deployment} {clock : Clock} {st st' : State}

/-- What a lock records. -/
def lockOf (clock : Clock) (accs : LockTokens) (amount : UInt64) (lockDays : UInt16) : TokenLock where
  owner := accs.owner.key
  mint := accs.mint
  vault := accs.vault
  amount := amount.toNat
  lockedAt := clock.unixTimestamp
  unlockAt := clock.unixTimestamp + (lockDays.toNat * 86400 : Nat)
  initialized := true

/-- Everything a successful instruction does to the locks and the token accounts. -/
inductive Effect (dep : Deployment) (clock : Clock) (st st' : State) : Instr → Prop
  | lock (accs : LockTokens) (amount : UInt64) (lockDays : UInt16) (tokens : Tokens)
      (fresh : st.lock accs.owner.key = none)
      (moved : (st.tokens.transfer accs.ownerTokenAccount accs.vault accs.owner.key amount.toNat :
        Result ErrorCode Tokens) = .ok tokens)
      (post : st' = { st with tokens }.setLock accs.owner.key (lockOf clock accs amount lockDays)) :
      Effect dep clock st st' (.lockTokens accs amount lockDays)
  | unlock (accs : LockTokens) (r : TokenLock) (tokens : Tokens)
      (pre : st.lock accs.owner.key = some r) (time : r.unlockAt ≤ clock.unixTimestamp)
      (moved : (st.tokens.transfer accs.vault accs.ownerTokenAccount (dep.vaultAuth accs.owner.key)
        r.amount : Result ErrorCode Tokens) = .ok tokens)
      (post : st' = { st with tokens }.setLock accs.owner.key { r with amount := 0, unlockAt := 0 }) :
      Effect dep clock st st' (.unlockTokens accs)
  | other (i : Instr) (kind : ∀ accs n d, i ≠ .lockTokens accs n d ∧ i ≠ .unlockTokens accs)
      (locks : st'.lock = st.lock) (spares : Tokens.Spares i.signer.key st.tokens st'.tokens) : Effect dep clock st st' i

theorem transfer_eq_ok {src dst k : Pubkey} {n : Nat} {tokens : Tokens}
    (h : st.transfer src dst k n = .ok tokens) :
    (st.tokens.transfer src dst k n : Result ErrorCode Tokens) = .ok tokens := by
  simp only [State.transfer, bind_eq_ok, exists_unit] at h
  exact h.2

theorem handle_effect {i : Instr} (h : handle dep clock st i = .ok st') :
    Effect dep clock st st' i := by
  cases i with
  | initializeConfig s v =>
    simp only [handle, initializeConfig, bind_eq_ok, exists_unit, pure_eq_ok] at h
    obtain ⟨-, -, rfl⟩ := h
    exact .other _ (by simp) rfl (Tokens.Spares.refl _ _)
  | setVersion s v =>
    simp only [handle, setVersion, bind_eq_ok, exists_unit, pure_eq_ok] at h
    obtain ⟨-, -, -, rfl⟩ := h
    exact .other _ (by simp) rfl (Tokens.Spares.refl _ _)
  | issueTollPass accs label nameHash page data =>
    simp only [handle, issueTollPass, bind_eq_ok, exists_unit, pure_eq_ok] at h
    obtain ⟨_, -, -, -, -, -, -, -, -, -, _, -, -, -, _, -, -, -, -, ⟨mints, tokens⟩, hmint, rfl⟩ := h
    exact .other _ (by simp) rfl (Tokens.mintTo_spares hmint)
  | lockTokens accs amount lockDays =>
    simp only [handle, lockTokens, bind_eq_ok, vacant_eq_ok, exists_unit, pure_eq_ok] at h
    obtain ⟨hfresh, -, -, -, -, -, -, tokens, hmoved, rfl⟩ := h
    exact .lock accs amount lockDays tokens hfresh (transfer_eq_ok hmoved) rfl
  | unlockTokens accs =>
    simp only [handle, unlockTokens, bind_eq_ok, load_eq_ok, require_eq_ok, exists_unit,
      pure_eq_ok] at h
    obtain ⟨r, hr, howner, htime, -, -, -, tokens, hmoved, rfl⟩ := h
    rw [howner] at hmoved
    exact .unlock accs r tokens hr htime (transfer_eq_ok hmoved) rfl
  | setRoute s o name nameHash dest ttl =>
    simp only [handle, setRoute, bind_eq_ok, exists_unit, pure_eq_ok] at h
    obtain ⟨_, -, _, -, _, -, -, -, -, -, -, -, -, -, -, rfl⟩ := h
    exact .other _ (by simp) rfl (Tokens.Spares.refl _ _)
  | splTransfer s src dst n =>
    simp only [handle, splTransfer, bind_eq_ok, pure_eq_ok] at h
    obtain ⟨tokens, hmoved, rfl⟩ := h
    exact .other _ (by simp) rfl (Tokens.transfer_spentBy (transfer_eq_ok hmoved)).spares
  | openTokenAccount s a m o =>
    simp only [handle, openTokenAccount, bind_eq_ok, vacant_eq_ok, exists_unit, pure_eq_ok] at h
    obtain ⟨hfresh, -, -, rfl⟩ := h
    refine .other _ (by simp) rfl (Tokens.update_spares fun acc hacc => ?_)
    rw [hfresh] at hacc
    cases hacc
  | setTokenOwner s a o =>
    simp only [handle, setTokenOwner, bind_eq_ok, load_eq_ok, demand_eq_ok, exists_unit,
      pure_eq_ok] at h
    obtain ⟨acc, hacc, -, howner, rfl⟩ := h
    refine .other _ (by simp) rfl (Tokens.update_spares fun acc' hacc' => ?_)
    obtain rfl : acc = acc' := Option.some.inj (hacc.symm.trans hacc')
    exact howner

theorem process_effect {i : Instr} {w : Unit} (h : process dep clock st i = .ok (st', w)) :
    dep.canSign i.signer.key = true ∧ Effect dep clock st st' i := by
  simp only [process, bind_eq_ok, demand_eq_ok, exists_unit, pure_eq_ok, Prod.mk.injEq] at h
  obtain ⟨hsign, _, hok, rfl, -⟩ := h
  exact ⟨hsign, handle_effect hok⟩

end Steps

/-! ## After the lock -/

/-- What holds after the steps `l` since a lock with a good vault: the record is the one that was
written, or its amount is spent; the vault is as it was, and holds the amount unless a step
unlocked. -/
structure Locked (dep : Deployment) (lock : TokenLock) (c : Chain State) (l : List Step) : Prop where
  signer : dep.canSign lock.owner = true
  record : ∃ r, c.accounts.lock lock.owner = some r ∧ (r = lock ∨ r.amount = 0) ∧
    ((∃ x ∈ l, Unlocks lock x) → r.amount = 0)
  vault : ∃ acc, c.accounts.tokens lock.vault = some acc ∧ acc.mint = lock.mint ∧
    acc.owner = dep.vaultAuth lock.owner ∧ ((∀ x ∈ l, ¬Unlocks lock x) → lock.amount ≤ acc.amount)
  once : l.Pairwise fun x y => Unlocks lock x → ¬Unlocks lock y

section After

variable {dep : Deployment} {lock : TokenLock} {c : Chain State} {l : List Step} {x : Step}

theorem custody_eq {t : Tokens} {a : Pubkey} {acc : TokenAccount} (h : t a = some acc) :
    custody t a acc.mint acc.owner = acc.amount := by
  unfold custody
  rw [h]
  exact if_pos ⟨rfl, rfl⟩

theorem Locked.holds (h : Locked dep lock c l) : Holds dep lock c l := by
  obtain ⟨acc, hacc, hmint, howner, hheld⟩ := h.vault
  refine ⟨fun hnone => ?_, h.once⟩
  rw [← hmint, ← howner, custody_eq hacc]
  exact hheld hnone

/-- The unlocks after one step more, which is none. -/
theorem exists_unlock_of_not (hx : ¬Unlocks lock x) (h : ∃ y ∈ l ++ [x], Unlocks lock y) :
    ∃ y ∈ l, Unlocks lock y := by
  obtain ⟨y, hy, hunlocks⟩ := h
  rcases List.mem_append.1 hy with hy | hy
  · exact ⟨y, hy, hunlocks⟩
  · rw [List.mem_singleton.1 hy] at hunlocks
    exact absurd hunlocks hx

/-- A step that is no unlock, leaves the record alone and takes nothing from the vault. -/
theorem Locked.quiet (h : Locked dep lock c l) {c' : Chain State} (hx : ¬Unlocks lock x)
    (hrecord : c'.accounts.lock lock.owner = c.accounts.lock lock.owner)
    (hvault : ∀ acc, c.accounts.tokens lock.vault = some acc →
      acc.owner = dep.vaultAuth lock.owner →
      ∃ n, c'.accounts.tokens lock.vault = some { acc with amount := n } ∧ acc.amount ≤ n) :
    Locked dep lock c' (l ++ [x]) := by
  obtain ⟨r, hr, hor, hspent⟩ := h.record
  obtain ⟨acc, hacc, hmint, howner, hheld⟩ := h.vault
  obtain ⟨n, hn, hle⟩ := hvault acc hacc howner
  refine ⟨h.signer, ⟨r, hrecord.trans hr, hor, fun hex => hspent (exists_unlock_of_not hx hex)⟩,
    ⟨_, hn, hmint, howner, fun hnone => ?_⟩, ?_⟩
  · have hbefore := hheld fun y hy => hnone y (List.mem_append_left _ hy)
    exact Nat.le_trans hbefore hle
  · refine List.pairwise_append.2 ⟨h.once, List.pairwise_singleton .., fun y _ z hz _ => ?_⟩
    rw [List.mem_singleton.1 hz]
    exact hx

/-- **The unlock** of the owner: it takes the recorded amount from a vault of its authority, which
may be the one of the lock or another. -/
theorem Locked.unlock (h : Locked dep lock c l) {accs : LockTokens} {r : TokenLock} {tokens : Tokens}
    (howner : accs.owner.key = lock.owner) (hpre : c.accounts.lock accs.owner.key = some r)
    (htime : r.unlockAt ≤ c.clock.unixTimestamp)
    (hmoved : (c.accounts.tokens.transfer accs.vault accs.ownerTokenAccount
      (dep.vaultAuth accs.owner.key) r.amount : Result ErrorCode Tokens) = .ok tokens)
    {st' : State} (hpost : st' = { c.accounts with tokens }.setLock accs.owner.key
      { r with amount := 0, unlockAt := 0 }) :
    Locked dep lock ⟨c.clock, st'⟩
      (l ++ [⟨c, .submit (.unlockTokens accs), some (.ok ()), ⟨c.clock, st'⟩⟩]) := by
  subst hpost
  rw [howner] at hpre hmoved
  obtain ⟨r', hr', hor, hspent⟩ := h.record
  obtain rfl : r = r' := Option.some.inj (hpre.symm.trans hr')
  obtain ⟨acc, hacc, hmint, hauth, hheld⟩ := h.vault
  obtain ⟨n, hn, -⟩ := Tokens.transfer_spentBy hmoved lock.vault acc hacc
  have hbefore : c.accounts.tokens.amount lock.vault = acc.amount := Tokens.amount_of_some hacc
  have hafter : tokens.amount lock.vault = n := Tokens.amount_of_some hn
  have hamount := Tokens.transfer_amount hmoved lock.vault
  refine ⟨h.signer, ⟨{ r with amount := 0, unlockAt := 0 }, ?_, .inr rfl, fun _ => rfl⟩,
    ⟨_, hn, hmint, hauth, fun hnone => ?_⟩, ?_⟩
  · rw [howner]
    exact Function.update_self ..
  · have hle := hheld fun y hy => hnone y (List.mem_append_left _ hy)
    show lock.amount ≤ n
    -- What leaves the vault here is the locked amount, and then this step unlocked.
    by_contra hlost
    rcases hor with rfl | hzero
    · have hnot := hnone _ (List.mem_append_right _ (List.mem_singleton_self _))
      refine hnot ⟨⟨accs, rfl, howner⟩, rfl, htime, ?_, ?_⟩
      · show tokens.amount r.vault < c.accounts.tokens.amount r.vault
        omega
      · show tokens.amount r.vault + r.amount = c.accounts.tokens.amount r.vault
        split at hamount
        · split at hamount
          · omega
          · omega
        · omega
    · rw [hzero] at hamount
      simp only [ite_self] at hamount
      omega
  · refine List.pairwise_append.2 ⟨h.once, List.pairwise_singleton .., fun y hy z hz hunlocks hz' => ?_⟩
    rw [List.mem_singleton.1 hz] at hz'
    have hzero : r.amount = 0 := hspent ⟨y, hy, hunlocks⟩
    have hleaves : tokens.amount lock.vault < c.accounts.tokens.amount lock.vault := hz'.leaves
    rw [hzero] at hamount
    simp only [ite_self] at hamount
    omega

theorem vaultAuth_ne {k : Pubkey} (hsign : dep.canSign k = true) (o : Pubkey) :
    dep.vaultAuth o ≠ k := by
  rintro rfl
  rw [dep.vaultAuth_canSign] at hsign
  cases hsign

/-- **One step** after the lock. -/
theorem locked_step (a : Action Instr) (h : Locked dep lock c l) :
    Locked dep lock (step dep c a).1 (l ++ [event (step dep) c a]) := by
  rcases chainStep_commits (process dep) c a with ⟨hsame, hout⟩ | ⟨i, st', w, rfl, hok, hs⟩
  · refine h.quiet (fun hx => hout () hx.out) (by rw [step, hsame]) fun acc hacc _ => ?_
    rw [step, hsame]
    exact ⟨acc.amount, hacc, Nat.le_refl _⟩
  · obtain ⟨hsign, heffect⟩ := process_effect hok
    rw [step, hs]
    cases heffect with
    | lock accs amount lockDays tokens fresh moved post =>
      subst post
      have hne : lock.owner ≠ accs.owner.key := by
        intro he
        obtain ⟨r, hr, -⟩ := h.record
        rw [he, fresh] at hr
        cases hr
      refine h.quiet ?_ (Function.update_of_ne hne ..) fun acc hacc howner => ?_
      · intro hx
        obtain ⟨_, hinput, -⟩ := hx.input
        cases hinput
      · refine (Tokens.transfer_spentBy moved).spares lock.vault acc hacc ?_
        rw [howner]
        exact vaultAuth_ne hsign lock.owner
    | unlock accs r tokens pre time moved post =>
      by_cases howner : accs.owner.key = lock.owner
      · rw [event_ok hok]
        exact h.unlock howner pre time moved post
      · subst post
        refine h.quiet ?_ (Function.update_of_ne (Ne.symm howner) ..) fun acc hacc hauth => ?_
        · intro hx
          obtain ⟨accs', hinput, howner'⟩ := hx.input
          cases hinput
          exact howner howner'
        · refine (Tokens.transfer_spentBy moved).spares lock.vault acc hacc ?_
          rw [hauth]
          exact fun he => howner (dep.vaultAuth_inj _ _ h.signer hsign he).symm
    | other i kind locks spares =>
      refine h.quiet ?_ (congrFun locks lock.owner) fun acc hacc howner => ?_
      · intro hx
        obtain ⟨accs, hinput, -⟩ := hx.input
        exact (kind accs 0 0).2 (Action.submit.inj hinput)
      · refine spares lock.vault acc hacc ?_
        rw [howner]
        exact vaultAuth_ne hsign lock.owner

/-- A lock with a good vault. -/
theorem locked_start {accs : LockTokens} {amount : UInt64} {lockDays : UInt16} {tokens : Tokens}
    (hsign : dep.canSign accs.owner.key = true) (hgood : GoodVault dep c.accounts accs)
    (hmoved : (c.accounts.tokens.transfer accs.ownerTokenAccount accs.vault accs.owner.key
      amount.toNat : Result ErrorCode Tokens) = .ok tokens) :
    Locked dep (lockOf c.clock accs amount lockDays) ⟨c.clock, { c.accounts with tokens }.setLock
      accs.owner.key (lockOf c.clock accs amount lockDays)⟩ [] := by
  obtain ⟨acc, hacc, hmint, howner⟩ := hgood
  have hne : acc.owner ≠ accs.owner.key := by
    rw [howner]
    exact vaultAuth_ne hsign accs.owner.key
  obtain ⟨n, hn, -⟩ := Tokens.transfer_spentBy hmoved accs.vault acc hacc
  have hrecord : ({ c.accounts with tokens }.setLock accs.owner.key
      (lockOf c.clock accs amount lockDays)).lock accs.owner.key =
        some (lockOf c.clock accs amount lockDays) := Function.update_self ..
  have hnone : ¬∃ x ∈ ([] : List Step), Unlocks (lockOf c.clock accs amount lockDays) x := by
    rintro ⟨x, hx, -⟩
    exact List.not_mem_nil hx
  refine ⟨hsign, ⟨_, hrecord, .inl rfl, fun h => absurd h hnone⟩, ⟨_, hn, hmint, howner, fun _ => ?_⟩,
    List.Pairwise.nil⟩
  -- The tokens come from an account of the owner, and so from another one.
  obtain ⟨src, -, hsrc, -, -, -, hauth, -⟩ := Tokens.transfer_eq_ok.1 hmoved
  have hother : accs.vault ≠ accs.ownerTokenAccount := by
    intro he
    rw [he, hsrc, Option.some.injEq] at hacc
    exact hne (hacc ▸ hauth)
  have hamount := Tokens.transfer_amount hmoved accs.vault
  rw [if_neg hother, if_pos rfl, Tokens.amount_of_some hn] at hamount
  show amount.toNat ≤ n
  dsimp only at hamount
  omega

/-- Tokens that arrive in custody arrive at a good vault. -/
theorem goodVault_of_custody {accs : LockTokens} {tokens : Tokens} {n : Nat}
    (hmoved : (c.accounts.tokens.transfer accs.ownerTokenAccount accs.vault accs.owner.key n :
      Result ErrorCode Tokens) = .ok tokens)
    (hpos : 0 < custody tokens accs.vault accs.mint (dep.vaultAuth accs.owner.key)) :
    GoodVault dep c.accounts accs := by
  unfold custody at hpos
  split at hpos
  · next acc' hacc' =>
    split at hpos
    · next hkeys =>
      have hframe := Tokens.transfer_frame hmoved accs.vault
      rw [hacc', Option.map_some] at hframe
      obtain ⟨acc, hacc, hsame⟩ := Option.map_eq_some_iff.1 hframe.symm
      rw [Prod.mk.injEq] at hsame
      exact ⟨acc, hacc, hsame.1.trans hkeys.1, hsame.2.trans hkeys.2⟩
    · exact absurd hpos (Nat.lt_irrefl 0)
  · exact absurd hpos (Nat.lt_irrefl 0)

/-- A lock of nothing holds nothing, and nothing of it leaves. -/
theorem holds_of_zero (hzero : lock.amount = 0) (c : Chain State) (l : List Step) :
    Holds dep lock c l := by
  have hnone : ∀ x, ¬Unlocks lock x := by
    intro x hx
    have hleaves := hx.leaves
    have hamount := hx.amount
    omega
  refine ⟨fun _ => ?_, List.pairwise_of_forall fun x y _ => hnone y⟩
  rw [hzero]
  exact Nat.zero_le _

end After

/-- **Exactly when a lock holds.** Whatever state `lock_tokens` succeeds in, the lock law holds in
every state of every run from there if and only if the amount is zero or the vault is an account of
the mint under the owner's vault authority. -/
theorem token_lock_iff (dep : Deployment) (c : Chain State) (accs : LockTokens) (amount : UInt64)
    (lockDays : UInt16)
    (hok : (step dep c (.submit (.lockTokens accs amount lockDays))).2 = some (.ok ())) :
    let locked := (step dep c (.submit (.lockTokens accs amount lockDays))).1
    let lock := lockOf c.clock accs amount lockDays
    locked.accounts.lock accs.owner.key = some lock ∧
      ((∀ is, Holds dep lock (exec (step dep) locked is) (trace (step dep) locked is)) ↔
        amount.toNat = 0 ∨ GoodVault dep c.accounts accs) := by
  obtain ⟨st', hprocess, hpost⟩ := chainStep_out hok
  obtain ⟨hsign, heffect⟩ := process_effect hprocess
  cases heffect with
  | other _ kind locks spares => exact absurd rfl (kind accs amount lockDays).1
  | lock _ _ _ tokens fresh moved post =>
    subst post
    intro locked lock
    have hlocked : locked = ⟨c.clock, { c.accounts with tokens }.setLock accs.owner.key lock⟩ := hpost
    rw [hlocked]
    refine ⟨Function.update_self .., fun hlaw => ?_, ?_⟩
    · by_contra hnot
      rw [not_or] at hnot
      have hheld : amount.toNat ≤ custody tokens accs.vault accs.mint (dep.vaultAuth accs.owner.key) :=
        (hlaw []).held fun x hx => absurd hx List.not_mem_nil
      exact hnot.2 (goodVault_of_custody moved (Nat.lt_of_lt_of_le (Nat.pos_of_ne_zero hnot.1) hheld))
    · rintro (hzero | hgood) is
      · exact holds_of_zero hzero _ _
      · have hstart : Locked dep lock ⟨c.clock, { c.accounts with tokens }.setLock accs.owner.key lock⟩
            [] := locked_start hsign hgood moved
        refine Locked.holds ?_
        exact history_of_step (fun c l a h => locked_step a h) hstart is

/-! ## A vault of the owner's own -/

/-- An owner. -/
def exampleOwner : Signer := ⟨1, one_ne_default⟩

/-- A deployment where the owner is the only one who signs. -/
def exampleDeployment : Deployment where
  sha256 := fun _ => 0
  canSign := fun k => k = 1
  systemAccount := fun _ => true
  vaultAuth := fun _ => 9
  vaultAuth_inj := by
    intro o p ho hp _
    rw [of_decide_eq_true ho, of_decide_eq_true hp]
  vaultAuth_canSign := by
    intro _
    decide

/-- The owner has 500 tokens of the mint 2 at the address 3, an empty account at 4, and an empty
vault at 5 under its vault authority. -/
def exampleChain : Chain State where
  clock := ⟨0, 0⟩
  accounts := State.genesis (fun k => if k = 2 then some ⟨none, 500⟩ else none) (fun _ => none)
    (fun k => if k = 3 then some ⟨2, 1, 500⟩ else if k = 4 then some ⟨2, 1, 0⟩ else
      if k = 5 then some ⟨2, 9, 0⟩ else none) (fun _ => false)

/-- A lock of 500 tokens for 30 days, in the given vault. -/
def exampleLock (vault : Pubkey) : Action Instr :=
  .submit (.lockTokens ⟨exampleOwner, 2, 3, vault⟩ 500 30)

/-- After 30 days the owner unlocks. -/
def exampleUnlock : List (Action Instr) :=
  [.elapse 1 2592000, .submit (.unlockTokens ⟨exampleOwner, 2, 3, 5⟩)]

/-- In the vault under its authority the lock holds, up to the unlock and after it. -/
theorem exampleLock_holds :
    Holds exampleDeployment (lockOf ⟨0, 0⟩ ⟨exampleOwner, 2, 3, 5⟩ 500 30)
      (exec (step exampleDeployment) (step exampleDeployment exampleChain (exampleLock 5)).1
        exampleUnlock)
      (trace (step exampleDeployment) (step exampleDeployment exampleChain (exampleLock 5)).1
        exampleUnlock) :=
  (token_lock_iff exampleDeployment exampleChain ⟨exampleOwner, 2, 3, 5⟩ 500 30 (by rfl)).2.2
    (.inr ⟨⟨2, 9, 0⟩, rfl, rfl, rfl⟩) exampleUnlock

/-- In another account of its own the owner keeps the tokens: the lock succeeds, and a plain
transfer takes them out at once. -/
theorem exampleRun_keeps :
    let lock := lockOf ⟨0, 0⟩ ⟨exampleOwner, 2, 3, 4⟩ 500 30
    let locked := (step exampleDeployment exampleChain (exampleLock 4)).1
    let spend : List (Action Instr) := [.submit (.splTransfer exampleOwner 4 3 500)]
    (step exampleDeployment exampleChain (exampleLock 4)).2 = some (.ok ()) ∧
      (exec (step exampleDeployment) locked spend).accounts.tokens 4 = some ⟨2, 1, 0⟩ ∧
      ¬Holds exampleDeployment lock (exec (step exampleDeployment) locked spend)
        (trace (step exampleDeployment) locked spend) := by
  refine ⟨by rfl, by rfl, fun hholds => ?_⟩
  have hnone : ∀ x ∈ trace (step exampleDeployment)
      (step exampleDeployment exampleChain (exampleLock 4)).1
      [.submit (.splTransfer exampleOwner 4 3 500)],
      ¬Unlocks (lockOf ⟨0, 0⟩ ⟨exampleOwner, 2, 3, 4⟩ 500 30) x := by
    intro x hx hunlocks
    obtain ⟨accs, hinput, -⟩ := hunlocks.input
    rw [List.mem_singleton.1 hx] at hinput
    cases hinput
  exact absurd (hholds.held hnone) (by decide)

end Ddns.Anchor
