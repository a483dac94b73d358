import Ddns.Lib.Balances
import Ddns.Lib.Bytes
import Ddns.Lib.Checked
import Ddns.Lib.Tx

/-!
# Keys, lamports and token accounts

Public keys and hashes are 32-byte strings. The programs use the all-zero key `Pubkey::default()`
for "no key yet": it is the address of the System program, for which nobody can sign, so a
`Signer` carries that its key is another one.

Program-derived accounts are addressed by their seeds: each program keeps one map for each kind of
seed, so two accounts are the same exactly if their seeds are. Bumps are left out.
-/

namespace Ddns

open Tx

/-- A 32-byte address. -/
abbrev Pubkey := BitVec 256

instance Pubkey.lawfulBEq : LawfulBEq Pubkey := inferInstance

/-- A 32-byte hash. -/
abbrev Hash := BitVec 256

/-- The key or hash of 32 bytes. -/
def ofBytes (bs : List UInt8) : BitVec 256 := BitVec.ofNat 256 (Bytes.leNat bs)

/-- The 32 bytes of a key or hash. -/
def toBytes (k : BitVec 256) : List UInt8 := Bytes.toLe 32 k.toNat

theorem ofBytes_toBytes (k : BitVec 256) : ofBytes (toBytes k) = k := by
  have hk : k.toNat < 256 ^ 32 := k.isLt
  unfold ofBytes toBytes
  rw [Bytes.leNat_toLe, Nat.mod_eq_of_lt hk, BitVec.ofNat_toNat, BitVec.setWidth_eq]

theorem toBytes_injective : Function.Injective toBytes :=
  Function.LeftInverse.injective ofBytes_toBytes

/-- `Pubkey::default()`. -/
def Pubkey.default : Pubkey := 0

/-- The key of an account that signed the transaction. -/
structure Signer where
  key : Pubkey
  ne_default : key ≠ Pubkey.default

/-! Small keys and a short epoch, of the examples. -/

theorem one_ne_default : (1 : Pubkey) ≠ Pubkey.default := by decide

theorem two_ne_default : (2 : Pubkey) ≠ Pubkey.default := by decide

theorem three_ne_default : (3 : Pubkey) ≠ Pubkey.default := by decide

theorem five_ne_default : (5 : Pubkey) ≠ Pubkey.default := by decide

theorem tenSlots_pos : 0 < 10 := by decide

/-- `BPS_DENOM`. -/
def bpsDenom : Nat := 10000

/-! ## Lamports -/

/-- `system_instruction::transfer` between two holders of lamports. -/
def transferLamports {κ ε : Type} [DecidableEq κ] (b : κ → Nat) (src dst : κ) (n : Nat) :
    Result ε (κ → Nat) :=
  match Balances.move 64 b src dst n with
  | some b' => .ok b'
  | none => .error .insufficientFunds

@[simp] theorem transferLamports_eq_ok {κ ε : Type} [DecidableEq κ] {b b' : κ → Nat}
    {src dst : κ} {n : Nat} :
    (transferLamports b src dst n : Result ε _) = .ok b' ↔ Balances.move 64 b src dst n = some b' := by
  unfold transferLamports
  split <;> simp_all

/-! ## Token accounts -/

/-- An SPL token account. -/
structure TokenAccount where
  mint : Pubkey
  owner : Pubkey
  amount : Nat
  deriving DecidableEq, Repr

/-- The token accounts, by address. -/
abbrev Tokens := Pubkey → Option TokenAccount

namespace Tokens

/-- The amount at an address, `0` where there is no account. -/
def amount (t : Tokens) (a : Pubkey) : Nat := ((t a).map TokenAccount.amount).getD 0

/-- The account at `a` with another amount. -/
def setAmount (t : Tokens) (a : Pubkey) (acc : TokenAccount) (n : Nat) : Tokens :=
  Function.update t a (some { acc with amount := n })

/-- `token::transfer`: `authority` owns the source, both accounts have one mint, and a transfer
from an account to itself changes nothing. -/
def transfer {ε : Type} (t : Tokens) (src dst authority : Pubkey) (n : Nat) : Result ε Tokens := do
  let s ← load (t src)
  let d ← load (t dst)
  demand (n ≤ s.amount) .insufficientFunds
  demand (s.mint = d.mint) .constraint
  demand (s.owner = authority) .constraint
  if src = dst then
    pure t
  else do
    demand (d.amount + n < 2 ^ 64) .numericOverflow
    pure ((t.setAmount src s (s.amount - n)).setAmount dst d (d.amount + n))

variable {ε : Type} {t t' : Tokens} {src dst authority : Pubkey} {n : Nat}

theorem amount_of_some {a : Pubkey} {acc : TokenAccount} (h : t a = some acc) :
    t.amount a = acc.amount := by
  simp [amount, h]

theorem transfer_eq_ok :
    (transfer t src dst authority n : Result ε Tokens) = .ok t' ↔
      ∃ s d, t src = some s ∧ t dst = some d ∧ n ≤ s.amount ∧ s.mint = d.mint ∧
        s.owner = authority ∧
        (if src = dst then t = t' else d.amount + n < 2 ^ 64 ∧
          (t.setAmount src s (s.amount - n)).setAmount dst d (d.amount + n) = t') := by
  unfold transfer
  by_cases h : src = dst
  · simp [h]
  · simp [h]

/-- What a transfer leaves at each address. -/
theorem transfer_amount (h : (transfer t src dst authority n : Result ε Tokens) = .ok t')
    (a : Pubkey) :
    t'.amount a + (if a = src then n else 0) = t.amount a + (if a = dst then n else 0) := by
  obtain ⟨s, d, hs, hd, hle, -, -, hrest⟩ := transfer_eq_ok.1 h
  split at hrest
  · next heq =>
    subst heq hrest
    rfl
  · next hne =>
    obtain ⟨-, rfl⟩ := hrest
    by_cases had : a = dst
    · subst had
      have hsd : a ≠ src := fun h => hne h.symm
      simp [amount, setAmount, hsd, hd]
    · by_cases has : a = src
      · subst has
        simp [amount, setAmount, had, hs]
        omega
      · simp [amount, setAmount, had, has]

/-- A transfer changes amounts only. -/
theorem transfer_frame (h : (transfer t src dst authority n : Result ε Tokens) = .ok t')
    (a : Pubkey) :
    (t' a).map (fun x => (x.mint, x.owner)) = (t a).map fun x => (x.mint, x.owner) := by
  obtain ⟨s, d, hs, hd, -, -, -, hrest⟩ := transfer_eq_ok.1 h
  split at hrest
  · next heq => rw [hrest]
  · next hne =>
    obtain ⟨-, rfl⟩ := hrest
    by_cases had : a = dst
    · subst had
      simp [setAmount, hd]
    · by_cases has : a = src
      · subst has
        simp [setAmount, had, hs]
      · simp [setAmount, had, has]

/-- A transfer lacks funds only when the source holds less than the amount. -/
theorem transfer_insufficient
    (h : (transfer t src dst authority n : Result ε Tokens) = .error .insufficientFunds) :
    t.amount src < n := by
  simp only [transfer, bind_eq_error, load_eq_error, demand_eq_error, load_eq_ok, demand_eq_ok,
    exists_unit, reduceCtorEq, and_false, and_true, false_or] at h
  obtain ⟨s, hs, d, -, hlt | ⟨-, -, -, h⟩⟩ := h
  · rw [amount_of_some hs]
    omega
  · split at h
    · exact absurd h pure_ne_error
    · simp only [bind_eq_error, demand_eq_error, pure_ne_error, reduceCtorEq, and_false, or_false,
        exists_const] at h

end Tokens

/-! ## Mints -/

/-- An SPL mint. -/
structure Mint where
  mintAuthority : Option Pubkey
  supply : Nat
  deriving DecidableEq, Repr

/-- The mints, by address. -/
abbrev Mints := Pubkey → Option Mint

/-- `token::mint_to`: `authority` is the authority of the mint and the destination is of that
mint. -/
def mintTo {ε : Type} (mints : Mints) (t : Tokens) (mint dst authority : Pubkey) (n : Nat) :
    Result ε (Mints × Tokens) := do
  let m ← load (mints mint)
  let d ← load (t dst)
  demand (d.mint = mint) .constraint
  demand (m.mintAuthority = some authority) .constraint
  demand (m.supply + n < 2 ^ 64) .numericOverflow
  demand (d.amount + n < 2 ^ 64) .numericOverflow
  pure (Function.update mints mint (some { m with supply := m.supply + n }),
    t.setAmount dst d (d.amount + n))

end Ddns

/-!
## Who spends

The authority of a transfer owns its source, so between two states of the token accounts only the
accounts of the authorities that signed can have lost anything. `SpentBy k` says this of one
authority; it holds of a transfer and composes. `Spares k` is what the owners other than `k` rely
on, whatever `k` does with its own accounts. `pay` is the transfer of a part that may be zero, which
is not made then.
-/

namespace Ddns.Tokens

open Tx

/-- From `t` to `t'` only `k` spends: every account keeps its mint and its owner, and an account of
another owner loses nothing. -/
def SpentBy (k : Pubkey) (t t' : Tokens) : Prop :=
  ∀ a acc, t a = some acc → ∃ n, t' a = some { acc with amount := n } ∧ (acc.owner ≠ k → acc.amount ≤ n)

variable {ε : Type} {t t₁ t' : Tokens} {a src dst k : Pubkey} {n : Nat}

theorem SpentBy.refl (k : Pubkey) (t : Tokens) : SpentBy k t t :=
  fun _ acc h => ⟨acc.amount, h, fun _ => Nat.le_refl _⟩

theorem SpentBy.trans (h₁ : SpentBy k t t₁) (h₂ : SpentBy k t₁ t') : SpentBy k t t' := by
  intro a acc ha
  obtain ⟨n₁, ha₁, hle₁⟩ := h₁ a acc ha
  obtain ⟨n₂, ha₂, hle₂⟩ := h₂ a _ ha₁
  exact ⟨n₂, ha₂, fun hne => Nat.le_trans (hle₁ hne) (hle₂ hne)⟩

/-- A transfer is spending of its authority. -/
theorem transfer_spentBy (h : (transfer t src dst k n : Result ε Tokens) = .ok t') :
    SpentBy k t t' := by
  obtain ⟨s, d, hs, hd, -, -, howner, hrest⟩ := transfer_eq_ok.1 h
  split at hrest
  · rw [← hrest]
    exact SpentBy.refl k t
  · next hne =>
    obtain ⟨-, rfl⟩ := hrest
    intro a acc ha
    by_cases had : a = dst
    · subst had
      obtain rfl : acc = d := Option.some.inj (ha.symm.trans hd)
      exact ⟨_, Function.update_self .., fun _ => Nat.le_add_right ..⟩
    · by_cases has : a = src
      · subst has
        obtain rfl : acc = s := Option.some.inj (ha.symm.trans hs)
        refine ⟨acc.amount - n, ?_, fun hk => absurd howner hk⟩
        unfold setAmount
        rw [Function.update_of_ne had, Function.update_self]
      · refine ⟨acc.amount, ?_, fun _ => Nat.le_refl _⟩
        unfold setAmount
        rw [Function.update_of_ne had, Function.update_of_ne has]
        exact ha

/-- An account of another owner holds at least as much as before. -/
theorem SpentBy.amount_le (h : SpentBy k t t') {acc : TokenAccount} (ha : t a = some acc)
    (howner : acc.owner ≠ k) : t.amount a ≤ t'.amount a := by
  obtain ⟨n, ha', hle⟩ := h a acc ha
  rw [amount_of_some ha, amount_of_some ha']
  exact hle howner

/-- The transfer of `n` to an account of another owner takes exactly `n` from the source. -/
theorem transfer_out (h : (transfer t src dst k n : Result ε Tokens) = .ok t') {d : TokenAccount}
    (hd : t dst = some d) (howner : d.owner ≠ k) : t.amount src = t'.amount src + n := by
  obtain ⟨s, -, hs, -, -, -, hauth, -⟩ := transfer_eq_ok.1 h
  have hne : src ≠ dst := by
    rintro rfl
    obtain rfl : s = d := Option.some.inj (hs.symm.trans hd)
    exact howner hauth
  have hamount := transfer_amount h src
  rw [if_pos rfl, if_neg hne] at hamount
  exact hamount.symm

/-! ## Accounts that are spared -/

/-- From `t` to `t'` every account of an owner other than `k` stays its owner's, of its mint, and
loses nothing. -/
def Spares (k : Pubkey) (t t' : Tokens) : Prop :=
  ∀ a acc, t a = some acc → acc.owner ≠ k →
    ∃ n, t' a = some { acc with amount := n } ∧ acc.amount ≤ n

theorem Spares.refl (k : Pubkey) (t : Tokens) : Spares k t t :=
  fun _ acc h _ => ⟨acc.amount, h, Nat.le_refl _⟩

/-- Who only spends spares the others. -/
theorem SpentBy.spares (h : SpentBy k t t') : Spares k t t' := by
  intro a acc ha hne
  obtain ⟨n, ha', hle⟩ := h a acc ha
  exact ⟨n, ha', hle hne⟩

/-- Writing an account of `k`, or a new one, spares the others. -/
theorem update_spares {new : TokenAccount} (h : ∀ acc, t a = some acc → acc.owner = k) :
    Spares k t (Function.update t a (some new)) := by
  intro b acc hb hne
  have hba : b ≠ a := by
    rintro rfl
    exact hne (h acc hb)
  exact ⟨acc.amount, (Function.update_of_ne hba ..).trans hb, Nat.le_refl _⟩

/-- Minting spares everybody. -/
theorem mintTo_spares {mints mints' : Mints} {mint : Pubkey}
    (h : (mintTo mints t mint dst src n : Result ε _) = .ok (mints', t')) : Spares k t t' := by
  simp only [mintTo, bind_eq_ok, load_eq_ok, demand_eq_ok, exists_unit, pure_eq_ok,
    Prod.mk.injEq] at h
  obtain ⟨-, -, d, hd, -, -, -, -, -, rfl⟩ := h
  intro b acc hb hne
  by_cases hbd : b = dst
  · subst hbd
    obtain rfl : acc = d := Option.some.inj (hb.symm.trans hd)
    exact ⟨_, Function.update_self .., Nat.le_add_right ..⟩
  · exact ⟨acc.amount, (Function.update_of_ne hbd ..).trans hb, Nat.le_refl _⟩

/-! ## Parts of a payment -/

/-- A part that is not zero is transferred. -/
def pay {ε : Type} (t : Tokens) (src dst authority : Pubkey) (n : Nat) : Result ε Tokens :=
  if 0 < n then t.transfer src dst authority n else pure t

theorem pay_amount (h : (pay t src dst k n : Result ε Tokens) = .ok t') (a : Pubkey) :
    t'.amount a + (if a = src then n else 0) = t.amount a + (if a = dst then n else 0) := by
  unfold pay at h
  split at h
  · exact transfer_amount h a
  · next hn =>
    obtain rfl : n = 0 := by omega
    cases h
    simp only [ite_self]

theorem pay_spentBy (h : (pay t src dst k n : Result ε Tokens) = .ok t') : SpentBy k t t' := by
  unfold pay at h
  split at h
  · exact transfer_spentBy h
  · cases h
    exact SpentBy.refl k t

end Ddns.Tokens
