import Ddns.Lib.FinMap
import Ddns.Lib.Double
import Ddns.Lib.Run

/-!
# The ledger of credits

The ledger is one file with a balance for each key and a journal of the credits and debits
(`createCreditsLedger`). Every call reads the file and writes it again. A balance is a double; what
is not finite is written as `null`, which is read as 0. A definition without a docstring is the item
of the source with the same words in its name.

`balances` is a plain object, so it has a property `constructor` and one `__proto__` that are no
balances. `journalLaw_iff` says that balances and journal agree as long as no call uses one of these
keys and no sum is rounded.
-/

namespace Ddns.Core.Credits

open Runs

/-- The functions of the platform; the clock gives the time as a text. -/
structure Platform where
  toLowerCase : JsText → JsText

inductive Kind where
  | credit
  | debit
  deriving DecidableEq

structure CreditsLedgerEntry where
  domainOrOwner : JsText
  amount : ℚ
  reason : JsText
  ts : JsText
  kind : Kind
  deriving DecidableEq

/-- A balance is a finite number, or `null`. -/
structure CreditsLedgerStore where
  balances : FinMap JsText (Option ℚ)
  entries : List CreditsLedgerEntry

/-- The file: there is none, it has another content, or it has a store. -/
inductive File where
  | missing
  | damaged
  | store (store : CreditsLedgerStore)

inductive LedgerError where
  | invalidKey
  | invalidAmount
  | insufficientCredits
  deriving DecidableEq

def normalizeKey (rt : Platform) (value : JsText) : JsText := rt.toLowerCase value.trim

def goodTraffic : JsText :=
  ['g', 'o', 'o', 'd', '-', 't', 'r', 'a', 'f', 'f', 'i', 'c', '.', 'c', 'o', 'm']

def lowTraffic : JsText :=
  ['l', 'o', 'w', '-', 't', 'r', 'a', 'f', 'f', 'i', 'c', '.', 'c', 'o', 'm']

def activeDomain : JsText := ['a', 'c', 't', 'i', 'v', 'e', '.', 'c', 'o', 'm']

def defaultStore : CreditsLedgerStore where
  balances := ((FinMap.empty.set goodTraffic (some 180)).set lowTraffic (some 20)).set activeDomain
    (some 75)
  entries := []

/-- The file after `ensureStore`, which creates a file that is missing. -/
def File.ensured : File → File
  | .missing => .store defaultStore
  | file => file

/-- What `ensureStore` returns. -/
def ensureStore : File → CreditsLedgerStore
  | .missing | .damaged => defaultStore
  | .store store => store

/-! ## Balances -/

def constructorKey : JsText := ['c', 'o', 'n', 's', 't', 'r', 'u', 'c', 't', 'o', 'r']

def protoKey : JsText := ['_', '_', 'p', 'r', 'o', 't', 'o', '_', '_']

/-- `Number(store.balances[key] || 0)`. An object has these two properties from its prototype; as
numbers they are none. -/
def CreditsLedgerStore.read (store : CreditsLedgerStore) (key : JsText) : JsNum :=
  match store.balances.get key with
  | some balance => .fin (balance.getD 0)
  | none => if key = constructorKey ∨ key = protoKey then .nan else .fin 0

/-- A number in the file. -/
def written : JsNum → Option ℚ
  | .fin q => some q
  | _ => none

/-- `store.balances[key] = value`, as it is written. The prototype takes no number. -/
def CreditsLedgerStore.assign (store : CreditsLedgerStore) (key : JsText) (value : JsNum) :
    FinMap JsText (Option ℚ) :=
  if key = protoKey ∧ store.balances.get key = none then store.balances
  else store.balances.set key (written value)

/-- The sum or difference of a balance and a finite number. -/
def rounded (op : ℚ → ℚ → ℚ) (amount : ℚ) : JsNum → JsNum
  | .fin balance => Rounding.nearest (op balance amount)
  | _ => .nan

/-! ## Calls -/

/-- The answer of a call: the new balance, or an error. -/
inductive Answer where
  | balance (value : JsNum)
  | thrown (error : LedgerError)
  deriving DecidableEq

def creditText : JsText := ['c', 'r', 'e', 'd', 'i', 't']

def debitText : JsText := ['d', 'e', 'b', 'i', 't']

/-- `reason || text`. -/
def reasonOr (text reason : JsText) : JsText := if reason = [] then text else reason

/-- The balance as the call returns it, after the assignment: the prototype is no number. -/
def assigned (store : CreditsLedgerStore) (key : JsText) (value : JsNum) : JsNum :=
  if key = protoKey ∧ store.balances.get key = none then .nan else value

def credit (rt : Platform) (file : File) (domainOrOwner : JsText) (amount : JsNum)
    (reason now : JsText) : File × Answer :=
  let key := normalizeKey rt domainOrOwner
  if key = [] then (file, .thrown .invalidKey)
  else
    match amount with
    | .fin amount =>
      if amount ≤ 0 then (file, .thrown .invalidAmount)
      else
        let store := ensureStore file
        let value := rounded (· + ·) amount (store.read key)
        (.store
          { balances := store.assign key value
            entries := store.entries ++ [⟨key, amount, reasonOr creditText reason, now, .credit⟩] },
          .balance (assigned store key value))
    | _ => (file, .thrown .invalidAmount)

def debit (rt : Platform) (file : File) (domainOrOwner : JsText) (amount : JsNum)
    (reason now : JsText) : File × Answer :=
  let key := normalizeKey rt domainOrOwner
  if key = [] then (file, .thrown .invalidKey)
  else
    match amount with
    | .fin amount =>
      if amount ≤ 0 then (file, .thrown .invalidAmount)
      else
        let store := ensureStore file
        if (store.read key).lt (.fin amount) then (file.ensured, .thrown .insufficientCredits)
        else
          let value := rounded (· - ·) amount (store.read key)
          (.store
            { balances := store.assign key value
              entries := store.entries ++ [⟨key, amount, reasonOr debitText reason, now, .debit⟩] },
            .balance (assigned store key value))
    | _ => (file, .thrown .invalidAmount)

/-- A call of `credit` or `debit`. -/
structure Call where
  kind : Kind
  domainOrOwner : JsText
  amount : JsNum
  reason : JsText
  now : JsText

def step (rt : Platform) (file : File) (call : Call) : File × Answer :=
  match call.kind with
  | .credit => credit rt file call.domainOrOwner call.amount call.reason call.now
  | .debit => debit rt file call.domainOrOwner call.amount call.reason call.now

/-! ## The law -/

/-- A step of the ledger. -/
abbrev Step := Event File Call Answer

/-- The balance that the file has for a key. -/
def stored (file : File) (key : JsText) : ℚ := (((ensureStore file).balances.get key).getD none).getD 0

/-- What an entry adds to the balance of a key. -/
def CreditsLedgerEntry.change (key : JsText) (entry : CreditsLedgerEntry) : ℚ :=
  if entry.domainOrOwner = key then
    match entry.kind with
    | .credit => entry.amount
    | .debit => -entry.amount
  else 0

/-- The credits less the debits that the file journals for a key. -/
def journaled (file : File) (key : JsText) : ℚ :=
  ((ensureStore file).entries.map (CreditsLedgerEntry.change key)).sum

/-- No balance is negative. -/
def NonNegative (file : File) : Prop := ∀ key, 0 ≤ stored file key

/-- The balances have grown by what was journaled since the start. -/
def Balanced (start file : File) : Prop :=
  ∀ key, stored file key = stored start key + (journaled file key - journaled start key)

/-- **The journal law** of a run: balances stay non-negative and grow by what is journaled, and a call
that throws leaves the file alone. -/
structure JournalLaw (rt : Platform) (start : File) (calls : List Call) : Prop where
  nonneg : NonNegative start →
    ∀ pre post, calls = pre ++ post → NonNegative (exec (step rt) start pre)
  balanced : ∀ pre post, calls = pre ++ post → Balanced start (exec (step rt) start pre)
  unchanged : ∀ e ∈ trace (step rt) start calls, ∀ error, e.out = .thrown error → e.post = e.pre

/-- The exact new balance that a call asks for. -/
def Call.exact (call : Call) (balance amount : ℚ) : ℚ :=
  match call.kind with
  | .credit => balance + amount
  | .debit => balance - amount

/-- The key is no property of the prototype, or it has a balance. -/
def Ordinary (file : File) (key : JsText) : Prop :=
  ((ensureStore file).balances.get key).isSome ∨ (key ≠ constructorKey ∧ key ≠ protoKey)

/-- A call with a key and an amount that are valid is about an ordinary key; its new balance is a
double, or it is a debit above the balance of a file that is there. -/
def Faithful (rt : Platform) (file : File) (call : Call) : Prop :=
  ∀ amount, normalizeKey rt call.domainOrOwner ≠ [] → call.amount = .fin amount → 0 < amount →
    let key := normalizeKey rt call.domainOrOwner
    Ordinary file key ∧
      if call.kind = .debit ∧ stored file key < amount then file.ensured = file
      else Rounding.nearest (call.exact (stored file key) amount) =
        .fin (call.exact (stored file key) amount)

/-- The new balance of a call, from what the balance reads as. -/
def Call.value (call : Call) (amount : ℚ) (balance : JsNum) : JsNum :=
  match call.kind with
  | .credit => rounded (· + ·) amount balance
  | .debit => rounded (· - ·) amount balance

/-- The entry that a call journals. -/
def Call.entry (rt : Platform) (call : Call) (amount : ℚ) : CreditsLedgerEntry :=
  match call.kind with
  | .credit => ⟨normalizeKey rt call.domainOrOwner, amount, reasonOr creditText call.reason, call.now,
      .credit⟩
  | .debit => ⟨normalizeKey rt call.domainOrOwner, amount, reasonOr debitText call.reason, call.now,
      .debit⟩

/-- The file after a call that is accepted. -/
def accept (rt : Platform) (file : File) (call : Call) (amount : ℚ) : File :=
  let key := normalizeKey rt call.domainOrOwner
  let store := ensureStore file
  .store
    { balances := store.assign key (call.value amount (store.read key))
      entries := store.entries ++ [call.entry rt amount] }

/-- What a call does. -/
inductive Effect (rt : Platform) (file : File) (call : Call) : File × Answer → Prop
  | invalid {error} (h : ∀ amount, normalizeKey rt call.domainOrOwner ≠ [] →
      call.amount = .fin amount → ¬0 < amount) : Effect rt file call (file, .thrown error)
  | insufficient {amount} (hkey : normalizeKey rt call.domainOrOwner ≠ [])
      (hamount : call.amount = .fin amount) (hpos : 0 < amount) (hkind : call.kind = .debit)
      (hlt : ((ensureStore file).read (normalizeKey rt call.domainOrOwner)).lt (.fin amount) = true) :
      Effect rt file call (file.ensured, .thrown .insufficientCredits)
  | accepted {amount value} (hkey : normalizeKey rt call.domainOrOwner ≠ [])
      (hamount : call.amount = .fin amount) (hpos : 0 < amount)
      (hle : call.kind = .debit →
        ((ensureStore file).read (normalizeKey rt call.domainOrOwner)).lt (.fin amount) = false) :
      Effect rt file call (accept rt file call amount, .balance value)

section Steps

variable {rt : Platform} {file start : File} {call : Call} {key : JsText} {amount : ℚ}

/-- What an ordinary key reads. -/
theorem read_ordinary (h : Ordinary file key) :
    (ensureStore file).read key = .fin (stored file key) := by
  unfold CreditsLedgerStore.read stored
  cases hget : (ensureStore file).balances.get key with
  | some balance => rfl
  | none =>
    rw [Ordinary, hget] at h
    have hkey := h.resolve_left (by simp)
    exact if_neg (not_or.2 hkey)

theorem read_extraordinary (h : ¬Ordinary file key) :
    (ensureStore file).read key = .nan ∧ stored file key = 0 := by
  unfold Ordinary at h
  unfold CreditsLedgerStore.read stored
  cases hget : (ensureStore file).balances.get key with
  | some balance =>
    rw [hget] at h
    exact absurd (.inl rfl) h
  | none =>
    rw [hget] at h
    refine ⟨if_pos ?_, rfl⟩
    by_contra hkey
    exact h (.inr (not_or.1 hkey))

theorem step_effect (rt : Platform) (file : File) (call : Call) :
    Effect rt file call (step rt file call) := by
  obtain ⟨kind, who, amount, reason, now⟩ := call
  cases kind with
  | credit =>
    simp only [step, credit]
    split
    · next hkey => exact .invalid fun _ h => absurd hkey h
    · next hkey =>
      split
      · next q =>
        split
        · next hle => exact .invalid fun q' _ hq' => by cases hq'; exact not_lt.2 hle
        · next hle => exact .accepted hkey rfl (not_le.1 hle) nofun
      · next hfin => exact .invalid fun q' _ hq' => absurd hq' (hfin q')
  | debit =>
    simp only [step, debit]
    split
    · next hkey => exact .invalid fun _ h => absurd hkey h
    · next hkey =>
      split
      · next q =>
        split
        · next hle => exact .invalid fun q' _ hq' => by cases hq'; exact not_lt.2 hle
        · next hle =>
          split
          · next hlt => exact .insufficient hkey rfl (not_le.1 hle) rfl hlt
          · next hlt =>
            exact .accepted hkey rfl (not_le.1 hle) fun _ => Bool.eq_false_of_not_eq_true hlt
      · next hfin => exact .invalid fun q' _ hq' => absurd hq' (hfin q')

/-! ## An accepted call -/

@[simp] theorem ensureStore_ensured (file : File) : ensureStore file.ensured = ensureStore file := by
  cases file <;> rfl

@[simp] theorem stored_ensured (file : File) (key : JsText) :
    stored file.ensured key = stored file key := by
  rw [stored, ensureStore_ensured]
  rfl

@[simp] theorem journaled_ensured (file : File) (key : JsText) :
    journaled file.ensured key = journaled file key := by
  rw [journaled, ensureStore_ensured]
  rfl

/-- What an accepted call asks to add to the balance of a key. -/
def Call.change (rt : Platform) (call : Call) (amount : ℚ) (key : JsText) : ℚ :=
  if normalizeKey rt call.domainOrOwner = key then call.exact 0 amount else 0

theorem Call.exact_eq (call : Call) (balance amount : ℚ) :
    call.exact balance amount = balance + call.exact 0 amount := by
  unfold Call.exact
  cases call.kind with
  | credit => simp
  | debit => simp [sub_eq_add_neg]

theorem Call.exact_zero_ne (call : Call) (hpos : 0 < amount) : call.exact 0 amount ≠ 0 := by
  unfold Call.exact
  cases call.kind with
  | credit => simpa using hpos.ne'
  | debit => simpa using hpos.ne'

/-- The journal has exactly the change that was asked for. -/
theorem journaled_accept (rt : Platform) (file : File) (call : Call) (amount : ℚ) (key : JsText) :
    journaled (accept rt file call amount) key = journaled file key + call.change rt amount key := by
  have hentry : (call.entry rt amount).change key = call.change rt amount key := by
    unfold Call.entry Call.change Call.exact
    cases call.kind with
    | credit => simp [CreditsLedgerEntry.change]
    | debit => simp [CreditsLedgerEntry.change]
  unfold journaled accept ensureStore
  rw [List.map_append, List.sum_append, List.map_singleton, List.sum_singleton, hentry]

/-- Other balances stay. -/
theorem stored_accept_ne (h : key ≠ normalizeKey rt call.domainOrOwner) :
    stored (accept rt file call amount) key = stored file key := by
  unfold stored accept ensureStore CreditsLedgerStore.assign
  simp only
  split_ifs
  · rfl
  · rw [FinMap.get_set_ne _ _ h]

theorem value_fin (call : Call) (amount balance : ℚ) :
    call.value amount (.fin balance) = Rounding.nearest (call.exact balance amount) := by
  unfold Call.value Call.exact
  cases call.kind <;> rfl

theorem value_nan (call : Call) (amount : ℚ) : call.value amount .nan = .nan := by
  unfold Call.value
  cases call.kind <;> rfl

/-- The balance of an ordinary key is rounded. -/
theorem stored_accept (h : Ordinary file (normalizeKey rt call.domainOrOwner)) :
    stored (accept rt file call amount) (normalizeKey rt call.domainOrOwner) =
      (written (Rounding.nearest
        (call.exact (stored file (normalizeKey rt call.domainOrOwner)) amount))).getD 0 := by
  have hassign : ¬(normalizeKey rt call.domainOrOwner = protoKey ∧
      (ensureStore file).balances.get (normalizeKey rt call.domainOrOwner) = none) := by
    rintro ⟨hproto, hnone⟩
    rcases h with hsome | ⟨-, hne⟩
    · rw [hnone] at hsome
      cases hsome
    · exact hne hproto
  have hread := read_ordinary h
  rw [stored, accept, ensureStore, hread, value_fin, CreditsLedgerStore.assign, if_neg hassign,
    FinMap.get_set_self]
  rfl

/-- The balance of another key is lost. -/
theorem stored_accept_extraordinary (h : ¬Ordinary file (normalizeKey rt call.domainOrOwner)) :
    stored (accept rt file call amount) (normalizeKey rt call.domainOrOwner) = 0 := by
  obtain ⟨hread, hstored⟩ := read_extraordinary h
  rw [stored, accept, ensureStore, hread, value_nan, CreditsLedgerStore.assign]
  split_ifs with hproto
  · rw [hproto.2]
    rfl
  · rw [FinMap.get_set_self]
    rfl

/-- A number that is written as the exact one is the exact one. -/
theorem nearest_of_written {q : ℚ} (h : (written (Rounding.nearest q)).getD 0 = q) :
    Rounding.nearest q = .fin q := by
  have hzero : Rounding.nearest 0 = .fin 0 := by
    exact_mod_cast Rounding.nearest_intCast (n := 0) (by decide)
  cases hq : Rounding.nearest q with
  | fin r =>
    rw [hq] at h
    exact congrArg JsNum.fin h
  | nan | posInf | negInf =>
    rw [hq] at h
    obtain rfl : (0 : ℚ) = q := h
    rw [hzero] at hq
    cases hq

theorem Call.exact_nonneg (call : Call) {balance : ℚ} (hbalance : 0 ≤ balance) (hpos : 0 < amount)
    (hcovered : ¬(call.kind = .debit ∧ balance < amount)) : 0 ≤ call.exact balance amount := by
  unfold Call.exact
  cases hkind : call.kind with
  | credit =>
    simp only
    linarith
  | debit =>
    have hle : amount ≤ balance := not_lt.1 fun hlt => hcovered ⟨hkind, hlt⟩
    simp only
    linarith

/-- A balance grows by what is journaled, exactly if its key is ordinary and the sum a double. -/
theorem accept_balanced_iff (hpos : 0 < amount) :
    Balanced file (accept rt file call amount) ↔
      Ordinary file (normalizeKey rt call.domainOrOwner) ∧
        Rounding.nearest (call.exact (stored file (normalizeKey rt call.domainOrOwner)) amount) =
          .fin (call.exact (stored file (normalizeKey rt call.domainOrOwner)) amount) := by
  simp only [Balanced, journaled_accept, add_sub_cancel_left]
  constructor
  · intro h
    have hown := h (normalizeKey rt call.domainOrOwner)
    rw [Call.change, if_pos rfl] at hown
    by_cases hordinary : Ordinary file (normalizeKey rt call.domainOrOwner)
    · refine ⟨hordinary, ?_⟩
      rw [stored_accept hordinary, ← Call.exact_eq] at hown
      exact nearest_of_written hown
    · rw [stored_accept_extraordinary hordinary, (read_extraordinary hordinary).2, zero_add] at hown
      exact absurd hown.symm (call.exact_zero_ne hpos)
  · rintro ⟨hordinary, hexact⟩ key
    by_cases hkey : normalizeKey rt call.domainOrOwner = key
    · subst hkey
      rw [stored_accept hordinary, hexact, Call.change, if_pos rfl, ← Call.exact_eq]
      rfl
    · rw [stored_accept_ne (Ne.symm hkey), Call.change, if_neg hkey, add_zero]

/-! ## One call -/

theorem Balanced.refl (file : File) : Balanced file file := by
  intro key
  rw [sub_self, add_zero]

theorem Balanced.trans {start file next : File} (h : Balanced start file)
    (hnext : Balanced file next) : Balanced start next := by
  intro key
  have hfirst := h key
  have hsecond := hnext key
  linarith

/-- What one call does to the law. -/
structure StepLaw (rt : Platform) (file : File) (call : Call) : Prop where
  balanced : Balanced file (step rt file call).1
  unchanged : ∀ error, (step rt file call).2 = .thrown error → (step rt file call).1 = file

theorem lt_ordinary (h : Ordinary file key) :
    ((ensureStore file).read key).lt (.fin amount) = true ↔ stored file key < amount := by
  rw [read_ordinary h]
  exact decide_eq_true_iff

theorem lt_extraordinary (h : ¬Ordinary file key) :
    ((ensureStore file).read key).lt (.fin amount) = false := by
  rw [(read_extraordinary h).1]
  rfl

/-- **One call** keeps the law exactly if it is faithful. -/
theorem stepLaw_iff (rt : Platform) (file : File) (call : Call) :
    StepLaw rt file call ↔ Faithful rt file call := by
  have heffect := step_effect rt file call
  constructor
  · rintro ⟨hbalanced, hunchanged⟩ amount hkey hamount hpos
    generalize hresult : step rt file call = result at heffect hbalanced hunchanged
    cases heffect with
    | invalid h => exact absurd hpos (h amount hkey hamount)
    | @insufficient amount' _ hamount' _ hkind hlt =>
      obtain rfl : amount' = amount := by simpa [hamount'] using hamount
      have hordinary : Ordinary file (normalizeKey rt call.domainOrOwner) := by
        by_contra hne
        rw [lt_extraordinary hne] at hlt
        cases hlt
      refine ⟨hordinary, ?_⟩
      rw [if_pos ⟨hkind, (lt_ordinary hordinary).1 hlt⟩]
      exact hunchanged .insufficientCredits rfl
    | @accepted amount' value _ hamount' _ hle =>
      obtain rfl : amount' = amount := by simpa [hamount'] using hamount
      obtain ⟨hordinary, hexact⟩ := (accept_balanced_iff hpos).1 hbalanced
      refine ⟨hordinary, ?_⟩
      rw [if_neg]
      · exact hexact
      · rintro ⟨hkind, hlt⟩
        have hfalse := hle hkind
        rw [(lt_ordinary hordinary).2 hlt] at hfalse
        cases hfalse
  · intro hfaithful
    generalize hresult : step rt file call = result at heffect
    cases heffect with
    | invalid h => exact ⟨by rw [hresult]; exact .refl file, fun _ _ => by rw [hresult]⟩
    | insufficient hkey hamount hpos hkind hlt =>
      obtain ⟨hordinary, hfile⟩ := hfaithful _ hkey hamount hpos
      rw [if_pos ⟨hkind, (lt_ordinary hordinary).1 hlt⟩] at hfile
      rw [hfile] at hresult
      exact ⟨by rw [hresult]; exact .refl file, fun _ _ => by rw [hresult]⟩
    | accepted hkey hamount hpos hle =>
      obtain ⟨hordinary, hexact⟩ := hfaithful _ hkey hamount hpos
      rw [if_neg] at hexact
      · refine ⟨?_, fun error h => by rw [hresult] at h; cases h⟩
        rw [hresult]
        exact (accept_balanced_iff hpos).2 ⟨hordinary, hexact⟩
      · rintro ⟨hkind, hlt⟩
        have hfalse := hle hkind
        rw [(lt_ordinary hordinary).2 hlt] at hfalse
        cases hfalse

/-- A faithful call leaves no balance negative. -/
theorem step_nonneg (hfaithful : Faithful rt file call) (h : NonNegative file) :
    NonNegative (step rt file call).1 := by
  intro key
  have heffect := step_effect rt file call
  generalize step rt file call = result at heffect
  cases heffect with
  | invalid _ => exact h key
  | insufficient _ _ _ _ _ =>
    rw [stored_ensured]
    exact h key
  | @accepted amount value hkey hamount hpos hle =>
    obtain ⟨hordinary, hexact⟩ := hfaithful amount hkey hamount hpos
    by_cases hown : key = normalizeKey rt call.domainOrOwner
    · subst hown
      have hcovered : ¬(call.kind = .debit ∧
          stored file (normalizeKey rt call.domainOrOwner) < amount) := by
        rintro ⟨hkind, hlt⟩
        have hfalse := hle hkind
        rw [(lt_ordinary hordinary).2 hlt] at hfalse
        cases hfalse
      rw [if_neg hcovered] at hexact
      rw [stored_accept hordinary, hexact]
      exact call.exact_nonneg (h _) hpos hcovered
    · rw [stored_accept_ne hown]
      exact h key

end Steps

/-- **The ledger** keeps its law exactly if every call is faithful. -/
theorem journalLaw_iff (rt : Platform) (start : File) (calls : List Call) :
    JournalLaw rt start calls ↔ ∀ pre call post, calls = pre ++ call :: post →
      Faithful rt (exec (step rt) start pre) call := by
  constructor
  · intro h pre call post hcalls
    refine (stepLaw_iff rt _ call).1 ⟨fun key => ?_, fun error herror => ?_⟩
    · have hbefore := h.balanced pre (call :: post) hcalls key
      have hafter := h.balanced (pre ++ [call]) post (by simp [hcalls]) key
      rw [exec_append, exec_cons, exec_nil] at hafter
      linarith
    · exact h.unchanged _ (event_mem_trace pre post hcalls) error herror
  · intro hfaithful
    have heach : Each (step rt) (Faithful rt) start calls := each_iff_initial.2 hfaithful
    refine ⟨fun hstart => ?_, ?_, fun e he error herror => ?_⟩
    · refine (always_iff_initial (P := NonNegative)).1 ?_
      refine Always.of_each ?_ hstart heach
      intro file call h hcall
      exact step_nonneg hcall h
    · refine (always_iff_initial (P := Balanced start)).1 ?_
      refine Always.of_each ?_ (.refl start) heach
      intro file call h hcall
      exact h.trans ((stepLaw_iff rt file call).2 hcall).balanced
    · obtain ⟨pre, call, post, hcalls, rfl⟩ := mem_trace he
      exact ((stepLaw_iff rt _ call).2 (hfaithful pre call post hcalls)).unchanged error herror

/-! ## Two credits -/

/-- It lowers ASCII letters. -/
def examplePlatform : Platform where
  toLowerCase text := text.map Char.toLower

def exampleCredit (who : JsText) : Call where
  kind := .credit
  domainOrOwner := who
  amount := .fin 5
  reason := []
  now := []

/-- A credit to `constructor` is journaled, and its balance is `null`. -/
theorem exampleConstructor_not_journalLaw :
    ¬JournalLaw examplePlatform (.store defaultStore)
      [exampleCredit (' ' :: 'C' :: constructorKey.tail)] := by
  intro h
  have hbalanced := h.balanced [exampleCredit (' ' :: 'C' :: constructorKey.tail)] [] rfl
    constructorKey
  exact absurd hbalanced (by decide +kernel)

end Ddns.Core.Credits
