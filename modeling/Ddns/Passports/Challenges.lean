import Ddns.Lib.Radix
import Ddns.Lib.Base64
import Ddns.Lib.FinMap
import Ddns.Lib.Run
import Ddns.Solana.Keys

/-!
# Challenges of the tollbooth

A wallet asks the tollbooth (`services/tollbooth`) for a nonce and signs it to claim a passport or to
assign a route. A wallet has one open challenge, which anybody can ask for: every nonce authorises one
operation of its wallet at most, but a challenge that somebody else asks for takes the place of the one
that the owner was given (`challenges_kept_iff`). The requests are those parts of the handlers that run
before anything is awaited; what an authorised request does is left out here. A definition without a
docstring is the item of the source with the same words in its name.
-/

namespace Ddns.Passports

open Runs

/-! ## Challenges -/

/-- What comes from other packages: reading public keys and base 58 texts, either of which may throw,
and verifying a signature of a message under a key. -/
structure Platform where
  publicKey : JsText → Option Pubkey
  bs58Decode : JsText → Option (List UInt8)
  verify : List UInt8 → List UInt8 → List UInt8 → Option Bool

structure Challenge where
  wallet : JsText
  nonce : JsText
  expiresAtMs : ℕ
  deriving DecidableEq

/-- The challenge of each wallet. -/
abbrev ChallengeStore := FinMap JsText Challenge

def ttlMs : ℕ := 5 * 60000

def create (m : ChallengeStore) (wallet nonce : JsText) (now : ℕ) : ChallengeStore × Challenge :=
  let ch := ⟨wallet, nonce, now + ttlMs⟩
  (m.set wallet ch, ch)

def consume (m : ChallengeStore) (wallet nonce : JsText) (now : ℕ) :
    ChallengeStore × Option Challenge :=
  match m.get wallet with
  | none => (m, none)
  | some cur =>
    if cur.nonce ≠ nonce then (m, none)
    else if cur.expiresAtMs < now then (m.erase wallet, none)
    else (m.erase wallet, some cur)

def challengeMessage (wallet nonce : JsText) : List UInt8 :=
  JsText.utf8 ("DDNS_CHALLENGE:".toList ++ wallet ++ ':' :: nonce)

/-- Base 58, or else base 64. -/
def decodeSig (p : Platform) (sig : JsText) : List UInt8 :=
  (p.bs58Decode sig).getD (JsText.decodeBase64Url sig)

/-- What a request presents. -/
structure Credential where
  wallet : JsText
  nonce : JsText
  signature : JsText
  deriving DecidableEq

/-- It may throw. -/
def verifySignedChallenge (p : Platform) (cred : Credential) : Option Bool :=
  (p.bs58Decode cred.wallet).bind fun pub =>
    p.verify (challengeMessage cred.wallet cred.nonce) (decodeSig p cred.signature) pub

/-! ## Requests -/

/-- A request and its time. A challenge comes with its sender, whom the tollbooth does not know, and
with the random nonce; a route with what is checked of it. -/
inductive Call where
  | challenge (sender wallet nonce : JsText) (now : ℕ)
  | claimPassport (cred : Credential) (now : ℕ)
  | assignRoute (cred : Credential) (name dest : JsText) (ttl : JsNum) (now : ℕ)

inductive Refusal where
  | invalidWallet
  | invalidInput
  | invalidOrExpiredNonce
  | invalidSignature
  | thrown
  deriving DecidableEq

/-- The answer, unless more is to be done for an authorised request. -/
inductive Answer where
  | refused (r : Refusal)
  | issued (ch : Challenge)
  | authorised (cred : Credential)
  deriving DecidableEq

/-- The two checks of a credential. -/
def authorise (p : Platform) (m : ChallengeStore) (cred : Credential) (now : ℕ) :
    ChallengeStore × Answer :=
  match consume m cred.wallet cred.nonce now with
  | (m', none) => (m', .refused .invalidOrExpiredNonce)
  | (m', some _) =>
    match verifySignedChallenge p cred with
    | none => (m', .refused .thrown)
    | some false => (m', .refused .invalidSignature)
    | some true => (m', .authorised cred)

/-- `!name || !dest || !Number.isFinite(ttl) || ttl <= 0` -/
def invalidRoute (name dest : JsText) : JsNum → Bool
  | .fin ttl => name = [] || dest = [] || ttl ≤ 0
  | _ => true

def step (p : Platform) (m : ChallengeStore) : Call → ChallengeStore × Answer
  | .challenge _ wallet nonce now =>
    match p.publicKey wallet with
    | none => (m, .refused .invalidWallet)
    | some _ => ((create m wallet nonce now).1, .issued (create m wallet nonce now).2)
  | .claimPassport cred now => authorise p m cred now
  | .assignRoute cred name dest ttl now =>
    if invalidRoute name dest ttl then (m, .refused .invalidInput) else authorise p m cred now

/-- A step of the tollbooth. -/
abbrev Step := Event ChallengeStore Call Answer

/-! ## The law -/

def Call.now : Call → ℕ
  | .challenge _ _ _ now | .claimPassport _ now | .assignRoute _ _ _ _ now => now

/-- The nonce that was drawn for a request. -/
def Call.drawn : Call → Option JsText
  | .challenge _ _ nonce _ => some nonce
  | _ => none

/-- Who asks for a challenge of which wallet. -/
def Call.asks : Call → Option (JsText × JsText)
  | .challenge sender wallet _ _ => some (sender, wallet)
  | _ => none

/-- `crypto.randomBytes(16)` draws no nonce twice. -/
def Fresh (calls : List Call) : Prop := (calls.filterMap Call.drawn).Nodup

def issued (e : Step) : Option Challenge :=
  match e.out with
  | .issued ch => some ch
  | _ => none

/-- The credential of an authorised operation. -/
def operation (e : Step) : Option Credential :=
  match e.out with
  | .authorised cred => some cred
  | _ => none

def operationNonce (e : Step) : Option JsText := (operation e).map Credential.nonce

/-- The owner of a wallet has asked for a challenge, and was given the nonce. -/
def Given (l : List Step) (wallet nonce : JsText) : Prop :=
  ∃ x ∈ l, ∃ ch, issued x = some ch ∧ ch.nonce = nonce ∧ x.input.asks = some (wallet, wallet)

/-- The nonce is taken from the wallet at a time. -/
def Taken (m : ChallengeStore) (wallet nonce : JsText) (t : ℕ) : Prop :=
  (consume m wallet nonce t).2.isSome

/-- An operation under a challenge that its wallet was issued, in time and signed. -/
def Genuine (p : Platform) (l : List Step) (e : Step) (cred : Credential) : Prop :=
  ∃ x ∈ l, ∃ ch, issued x = some ch ∧ ch.wallet = cred.wallet ∧ ch.nonce = cred.nonce ∧
    e.input.now ≤ ch.expiresAtMs ∧ verifySignedChallenge p cred = some true

/-- **The challenge law** of a run: a nonce authorises one operation at most, and only a genuine one;
and a challenge that somebody else asks for takes no nonce from the owner, who can use it as before from
then on. -/
structure ChallengeLaw (p : Platform) (calls : List Call) : Prop where
  once : ((trace (step p) .empty calls).filterMap operationNonce).Nodup
  genuine : ∀ l₁ e l₂, trace (step p) .empty calls = l₁ ++ e :: l₂ →
    ∀ cred, operation e = some cred → Genuine p l₁ e cred
  undisturbed : ∀ l₁ e l₂, trace (step p) .empty calls = l₁ ++ e :: l₂ →
    ∀ sender wallet, e.input.asks = some (sender, wallet) → sender ≠ wallet →
      ∀ nonce, Given l₁ wallet nonce → ∀ t, e.input.now ≤ t → Taken e.pre wallet nonce t →
        Taken e.post wallet nonce t

/-- Somebody else asks for a challenge of a wallet whose open challenge was given to the owner and has
not expired. -/
def Disturbs (p : Platform) (m : ChallengeStore) (l : List Step) (call : Call) : Prop :=
  ∃ sender wallet ch, call.asks = some (sender, wallet) ∧ sender ≠ wallet ∧
    (p.publicKey wallet).isSome ∧ m.get wallet = some ch ∧ call.now ≤ ch.expiresAtMs ∧
    Given l wallet ch.nonce

/-! ## One step -/

section Steps

variable {p : Platform} {m : ChallengeStore} {l : List Step} {cred : Credential} {now : ℕ} {call : Call}
  {ch : Challenge}

theorem taken_iff {wallet nonce : JsText} {t : ℕ} : Taken m wallet nonce t ↔
    ∃ cur, m.get wallet = some cur ∧ cur.nonce = nonce ∧ t ≤ cur.expiresAtMs := by
  unfold Taken consume
  cases m.get wallet with
  | none => simp
  | some cur =>
    dsimp only
    split
    · next hne => simp [hne]
    · next heq =>
      split
      · next hlt => simp [Nat.not_le.2 hlt]
      · next hle => simp [not_not.1 heq, Nat.not_lt.1 hle]

/-- What a consumed challenge was. -/
theorem consume_eq_some {wallet nonce : JsText} {cur : Challenge}
    (h : (consume m wallet nonce now).2 = some cur) : (consume m wallet nonce now).1 = m.erase wallet ∧
      m.get wallet = some cur ∧ cur.nonce = nonce ∧ now ≤ cur.expiresAtMs := by
  unfold consume at h ⊢
  cases hget : m.get wallet with
  | none =>
    rw [hget] at h
    cases h
  | some ch =>
    rw [hget] at h
    dsimp only at h ⊢
    split at h
    · cases h
    · next hnonce =>
      split at h
      · cases h
      · next htime =>
        obtain rfl := Option.some.inj h
        rw [if_neg hnonce, if_neg htime]
        exact ⟨rfl, rfl, not_not.1 hnonce, Nat.not_lt.1 htime⟩

/-- Consuming a challenge adds none. -/
theorem get_consume {wallet nonce w : JsText} (h : (consume m wallet nonce now).1.get w = some ch) :
    m.get w = some ch := by
  have herase (h : (m.erase wallet).get w = some ch) : m.get w = some ch := by
    rw [FinMap.get_erase] at h
    split at h
    · cases h
    · exact h
  unfold consume at h
  split at h
  · exact h
  · split at h
    · exact h
    · split at h
      · exact herase h
      · exact herase h

/-- **What a request does** to the open challenges, and how it is answered. -/
inductive Effect (p : Platform) (m : ChallengeStore) : Call → ChallengeStore → Answer → Prop where
  | issue {sender wallet nonce : JsText} {now : ℕ} (hwallet : (p.publicKey wallet).isSome) :
      Effect p m (.challenge sender wallet nonce now) (m.set wallet ⟨wallet, nonce, now + ttlMs⟩)
        (.issued ⟨wallet, nonce, now + ttlMs⟩)
  | operate {call : Call} {cred : Credential} {cur : Challenge} (hget : m.get cred.wallet = some cur)
      (hnonce : cur.nonce = cred.nonce) (htime : call.now ≤ cur.expiresAtMs)
      (hverify : verifySignedChallenge p cred = some true) (hasks : call.asks = none) :
      Effect p m call (m.erase cred.wallet) (.authorised cred)
  | refuse {call : Call} {m' : ChallengeStore} {r : Refusal}
      (hkept : ∀ w ch, m'.get w = some ch → m.get w = some ch)
      (hasks : ∀ sender wallet, call.asks = some (sender, wallet) → p.publicKey wallet = none ∧ m' = m) :
      Effect p m call m' (.refused r)

theorem authorise_effect (hnow : call.now = now) (hasks : call.asks = none) :
    Effect p m call (authorise p m cred now).1 (authorise p m cred now).2 := by
  have hnot : ∀ sender wallet, call.asks = some (sender, wallet) →
      p.publicKey wallet = none ∧ (authorise p m cred now).1 = m := by
    intro sender wallet h
    rw [hasks] at h
    cases h
  unfold authorise at hnot ⊢
  cases hconsume : consume m cred.wallet cred.nonce now with
  | mk m' consumed =>
    have hkept : ∀ w ch, m'.get w = some ch → m.get w = some ch := by
      intro w ch h
      have hsub : (consume m cred.wallet cred.nonce now).1.get w = some ch := by
        rw [hconsume]
        exact h
      exact get_consume hsub
    rw [hconsume] at hnot
    cases consumed with
    | none => exact .refuse hkept hnot
    | some cur =>
      have hcur : (consume m cred.wallet cred.nonce now).2 = some cur := by rw [hconsume]
      obtain ⟨hstore, hget, hnonce, htime⟩ := consume_eq_some hcur
      rw [hconsume] at hstore
      dsimp only at hstore hnot ⊢
      cases hverify : verifySignedChallenge p cred with
      | none =>
        rw [hverify] at hnot
        exact .refuse hkept hnot
      | some valid =>
        cases valid with
        | false =>
          rw [hverify] at hnot
          exact .refuse hkept hnot
        | true =>
          rw [hstore]
          exact .operate hget hnonce (hnow ▸ htime) hverify hasks

theorem step_effect (p : Platform) (m : ChallengeStore) (call : Call) :
    Effect p m call (step p m call).1 (step p m call).2 := by
  cases call with
  | challenge sender wallet nonce now =>
    simp only [step]
    cases hkey : p.publicKey wallet with
    | none =>
      refine .refuse (fun _ _ h => h) fun s w h => ?_
      obtain ⟨-, rfl⟩ := Prod.mk.inj (Option.some.inj h)
      exact ⟨hkey, rfl⟩
    | some key => exact .issue (Option.isSome_of_eq_some hkey)
  | claimPassport cred now => exact authorise_effect rfl rfl
  | assignRoute cred name dest ttl now =>
    simp only [step]
    split
    · refine .refuse (fun _ _ h => h) fun s w h => ?_
      cases h
    · exact authorise_effect rfl rfl

/-! ## Runs -/

/-- The nonces that were drawn. -/
def drawn (l : List Step) : List JsText := l.filterMap fun e => e.input.drawn

/-- **The invariant**: an open challenge was issued to its wallet and has authorised nothing, no two
have one nonce, and what has authorised an operation was drawn. -/
structure Open (m : ChallengeStore) (l : List Step) : Prop where
  given : ∀ w ch, m.get w = some ch → ch.wallet = w ∧ ch.nonce ∈ drawn l ∧ ∃ x ∈ l, issued x = some ch
  unused : ∀ w ch, m.get w = some ch → ch.nonce ∉ l.filterMap operationNonce
  distinct : ∀ w w' ch ch', m.get w = some ch → m.get w' = some ch' → ch.nonce = ch'.nonce → w = w'
  known : ∀ n ∈ l.filterMap operationNonce, n ∈ drawn l

theorem drawn_subset (l : List Step) (e : Step) : drawn l ⊆ drawn (l ++ [e]) := by
  unfold drawn
  rw [List.filterMap_append]
  exact List.subset_append_left _ _

/-- An open challenge stays as it is where no operation has used its nonce. -/
theorem Open.kept {m' : ChallengeStore} {e : Step} (h : Open m l)
    (hkept : ∀ w ch, m'.get w = some ch → m.get w = some ch)
    (hunused : ∀ w ch, m'.get w = some ch → operationNonce e ≠ some ch.nonce)
    (hknown : ∀ n, operationNonce e = some n → n ∈ drawn l) : Open m' (l ++ [e]) where
  given w ch hget := by
    obtain ⟨hwallet, hdrawn, x, hx, hissued⟩ := h.given w ch (hkept w ch hget)
    exact ⟨hwallet, drawn_subset l e hdrawn, x, List.mem_append_left _ hx, hissued⟩
  unused w ch hget := by
    rw [List.filterMap_append, List.mem_append, not_or]
    refine ⟨h.unused w ch (hkept w ch hget), fun hmem => ?_⟩
    obtain ⟨x, hx, hnonce⟩ := List.mem_filterMap.1 hmem
    rw [List.mem_singleton.1 hx] at hnonce
    exact hunused w ch hget hnonce
  distinct w w' ch ch' hget hget' := h.distinct w w' ch ch' (hkept w ch hget) (hkept w' ch' hget')
  known n hn := by
    rw [List.filterMap_append] at hn
    rcases List.mem_append.1 hn with hn | hn
    · exact drawn_subset l e (h.known n hn)
    · obtain ⟨x, hx, hnonce⟩ := List.mem_filterMap.1 hn
      rw [List.mem_singleton.1 hx] at hnonce
      exact drawn_subset l e (hknown n hnonce)

/-- A challenge with a new nonce. -/
theorem Open.issue {e : Step} {wallet nonce : JsText} {expiresAtMs : ℕ} (h : Open m l)
    (hfresh : nonce ∉ drawn l) (hdrawn : e.input.drawn = some nonce)
    (hissued : issued e = some ⟨wallet, nonce, expiresAtMs⟩) (hoperation : operationNonce e = none) :
    Open (m.set wallet ⟨wallet, nonce, expiresAtMs⟩) (l ++ [e]) := by
  have hcases (w : JsText) (ch : Challenge)
      (hget : (m.set wallet ⟨wallet, nonce, expiresAtMs⟩).get w = some ch) :
      w = wallet ∧ ch = ⟨wallet, nonce, expiresAtMs⟩ ∨ m.get w = some ch ∧ ch.nonce ∈ drawn l := by
    rw [FinMap.get_set] at hget
    split at hget
    · next hw => exact .inl ⟨hw, (Option.some.inj hget).symm⟩
    · exact .inr ⟨hget, (h.given w ch hget).2.1⟩
  have hnonces : (l ++ [e]).filterMap operationNonce = l.filterMap operationNonce :=
    filterMap_concat_none hoperation l
  refine ⟨fun w ch hget => ?_, fun w ch hget => ?_, fun w w' ch ch' hget hget' heq => ?_, fun n hn => ?_⟩
  · rcases hcases w ch hget with ⟨rfl, rfl⟩ | ⟨hold, -⟩
    · refine ⟨rfl, ?_, e, List.mem_append_right _ List.mem_cons_self, hissued⟩
      exact List.mem_filterMap.2 ⟨e, List.mem_append_right _ List.mem_cons_self, hdrawn⟩
    · obtain ⟨hwallet, hknown, x, hx, hx'⟩ := h.given w ch hold
      exact ⟨hwallet, drawn_subset l e hknown, x, List.mem_append_left _ hx, hx'⟩
  · rw [hnonces]
    rcases hcases w ch hget with ⟨-, rfl⟩ | ⟨hold, -⟩
    · exact fun hmem => hfresh (h.known nonce hmem)
    · exact h.unused w ch hold
  · rcases hcases w ch hget with ⟨rfl, rfl⟩ | ⟨hold, hmem⟩
    · rcases hcases w' ch' hget' with ⟨rfl, -⟩ | ⟨-, hmem'⟩
      · rfl
      · have hsame : nonce = ch'.nonce := heq
        exact absurd (hsame ▸ hmem') hfresh
    · rcases hcases w' ch' hget' with ⟨rfl, rfl⟩ | ⟨hold', -⟩
      · have hsame : ch.nonce = nonce := heq
        exact absurd (hsame ▸ hmem) hfresh
      · exact h.distinct w w' ch ch' hold hold' heq
  · rw [hnonces] at hn
    exact drawn_subset l e (h.known n hn)

/-- **The step lemma** of the invariant. -/
theorem Open.next (h : Open m l) (hfresh : ∀ n, call.drawn = some n → n ∉ drawn l) :
    Open (step p m call).1 (l ++ [event (step p) m call]) := by
  have heffect := step_effect p m call
  have hout : (event (step p) m call).out = (step p m call).2 := rfl
  have hinput : (event (step p) m call).input = call := rfl
  generalize event (step p) m call = e at hout hinput ⊢
  generalize (step p m call).1 = m' at heffect ⊢
  generalize (step p m call).2 = answer at heffect hout
  cases heffect with
  | issue hwallet =>
    refine h.issue (hfresh _ rfl) (by rw [hinput]; rfl) ?_ ?_
    · rw [issued, hout]
    · rw [operationNonce, operation, hout]
      rfl
  | @operate call cred cur hget hnonce htime hverify hasks =>
    have hused : operationNonce e = some cred.nonce := by
      rw [operationNonce, operation, hout]
      rfl
    refine h.kept (fun w ch hch => ?_) (fun w ch hch => ?_) (fun n hn => ?_)
    · rw [FinMap.get_erase] at hch
      split at hch
      · cases hch
      · exact hch
    · rw [FinMap.get_erase] at hch
      split at hch
      · cases hch
      · next hne =>
        intro heq
        rw [hused] at heq
        exact hne (h.distinct _ _ _ _ hch hget ((Option.some.inj heq).symm.trans hnonce.symm))
    · rw [hused] at hn
      rw [← Option.some.inj hn, ← hnonce]
      exact (h.given _ _ hget).2.1
  | refuse hkept =>
    have hnone : operationNonce e = none := by
      rw [operationNonce, operation, hout]
      rfl
    refine h.kept hkept (fun w ch hch => ?_) (fun n hn => ?_)
    · rw [hnone]
      simp
    · rw [hnone] at hn
      cases hn

end Steps

section Runs

variable {p : Platform} {calls pre post : List Call} {i : Call}

theorem drawn_trace (m : ChallengeStore) (calls : List Call) :
    drawn (trace (step p) m calls) = calls.filterMap Call.drawn := by
  induction calls generalizing m with
  | nil => rfl
  | cons call calls ih =>
    unfold drawn at ih ⊢
    rw [trace_cons, List.filterMap_cons, List.filterMap_cons, ih]
    rfl

theorem Fresh.left (h : Fresh (pre ++ post)) : Fresh pre := by
  unfold Fresh at h ⊢
  rw [List.filterMap_append] at h
  exact (List.nodup_append.1 h).1

/-- The nonce that is drawn for a request is a new one. -/
theorem Fresh.new (h : Fresh (pre ++ i :: post)) :
    ∀ n, i.drawn = some n → n ∉ drawn (trace (step p) .empty pre) := by
  intro n hn hmem
  unfold Fresh at h
  rw [List.filterMap_append, List.filterMap_cons_some hn] at h
  rw [drawn_trace] at hmem
  exact (List.nodup_append.1 h).2.2 n hmem n List.mem_cons_self rfl

/-- **The run lemma** of the invariant. -/
theorem Fresh.opened (h : Fresh calls) :
    Open (exec (step p) .empty calls) (trace (step p) .empty calls) := by
  induction calls using List.reverseRecOn with
  | nil => exact ⟨nofun, nofun, nofun, nofun⟩
  | append_singleton pre i ih =>
    rw [exec_append, trace_append]
    exact (ih h.left).next h.new

/-- An authorised operation has consumed the open challenge of its wallet. -/
theorem operation_eq_some {m : ChallengeStore} {cred : Credential}
    (h : operation (event (step p) m i) = some cred) :
    verifySignedChallenge p cred = some true ∧
      ∃ cur, m.get cred.wallet = some cur ∧ cur.nonce = cred.nonce ∧ i.now ≤ cur.expiresAtMs := by
  have heffect := step_effect p m i
  unfold operation at h
  rw [event_out] at h
  generalize (step p m i).1 = m' at heffect
  generalize (step p m i).2 = answer at h heffect
  cases heffect with
  | issue hwallet => cases h
  | operate hget hnonce htime hverify hasks =>
    obtain rfl := Option.some.inj h
    exact ⟨hverify, _, hget, hnonce, htime⟩
  | refuse hkept hasks => cases h

theorem once_of_fresh (h : Fresh calls) :
    ((trace (step p) .empty calls).filterMap operationNonce).Nodup := by
  refine (nodup_filterMap_trace operationNonce).2 fun pre i post hcalls n hn => ?_
  obtain ⟨cred, hcred, rfl⟩ := Option.map_eq_some_iff.1 hn
  obtain ⟨-, cur, hget, hnonce, -⟩ := operation_eq_some hcred
  have hopen : Open (exec (step p) .empty pre) (trace (step p) .empty pre) := by
    rw [hcalls] at h
    exact h.left.opened
  exact hnonce ▸ hopen.unused _ _ hget

theorem genuine_of_open {m : ChallengeStore} {l : List Step} {cred : Credential} (h : Open m l)
    (hcred : operation (event (step p) m i) = some cred) : Genuine p l (event (step p) m i) cred := by
  obtain ⟨hverify, cur, hget, hnonce, htime⟩ := operation_eq_some hcred
  obtain ⟨hwallet, -, x, hx, hissued⟩ := h.given _ _ hget
  exact ⟨x, hx, cur, hissued, hwallet, hnonce, htime, hverify⟩

/-- A challenge that somebody asks for leaves another nonce alone, unless it disturbs. -/
theorem taken_of_not_disturbs {m : ChallengeStore} {l : List Step} {sender wallet nonce : JsText} {t : ℕ}
    (hasks : i.asks = some (sender, wallet)) (hne : sender ≠ wallet) (hgiven : Given l wallet nonce)
    (hnow : i.now ≤ t) (hnot : ¬Disturbs p m l i) (htaken : Taken m wallet nonce t) :
    Taken (step p m i).1 wallet nonce t := by
  have heffect := step_effect p m i
  generalize (step p m i).1 = m' at heffect ⊢
  generalize (step p m i).2 = answer at heffect
  cases heffect with
  | issue hwallet =>
    obtain ⟨cur, hget, rfl, htime⟩ := taken_iff.1 htaken
    obtain ⟨rfl, rfl⟩ := Prod.mk.inj (Option.some.inj hasks)
    exact absurd ⟨_, _, cur, rfl, hne, hwallet, hget, hnow.trans htime, hgiven⟩ hnot
  | operate hget hnonce htime hverify hnone =>
    rw [hnone] at hasks
    cases hasks
  | refuse hkept hrefused =>
    obtain ⟨-, rfl⟩ := hrefused sender wallet hasks
    exact htaken

end Runs

/-- **Exactly when the challenges are kept apart.** A run keeps the challenge law if and only if nobody
else asks for a challenge of a wallet while the owner has a nonce that is open and in time. -/
theorem challenges_kept_iff (p : Platform) (calls : List Call) (hfresh : Fresh calls) :
    ChallengeLaw p calls ↔ ∀ pre i post, calls = pre ++ i :: post →
      ¬Disturbs p (exec (step p) .empty pre) (trace (step p) .empty pre) i := by
  constructor
  · rintro h pre i post rfl ⟨sender, wallet, ch, hasks, hne, hkey, hget, htime, hgiven⟩
    have hopen : Open (exec (step p) .empty pre) (trace (step p) .empty pre) := hfresh.left.opened
    have hsplit : trace (step p) .empty (pre ++ i :: post) = trace (step p) .empty pre ++
        event (step p) (exec (step p) .empty pre) i ::
          trace (step p) (step p (exec (step p) .empty pre) i).1 post := trace_append _ _ _
    have htaken := h.undisturbed _ _ _ hsplit sender wallet hasks hne ch.nonce hgiven i.now le_rfl
      (taken_iff.2 ⟨ch, hget, rfl, htime⟩)
    obtain ⟨cur, hcur, hnonce, -⟩ := taken_iff.1 htaken
    cases i with
    | challenge sender' wallet' nonce now =>
      obtain ⟨rfl, rfl⟩ := Prod.mk.inj (Option.some.inj hasks)
      obtain ⟨key, hkey⟩ := Option.isSome_iff_exists.1 hkey
      rw [event_post, step, hkey] at hcur
      replace hcur := Option.some.inj ((FinMap.get_set_self _ _ _).symm.trans hcur)
      have hdrawn := (hopen.given _ _ hget).2.1
      rw [← hnonce, ← hcur] at hdrawn
      exact hfresh.new nonce rfl hdrawn
    | claimPassport cred now => cases hasks
    | assignRoute cred name dest ttl now => cases hasks
  · intro h
    refine ⟨once_of_fresh hfresh, fun l₁ e l₂ hl cred hcred => ?_, fun l₁ e l₂ hl sender wallet hasks
      hne nonce hgiven t hnow htaken => ?_⟩
    · obtain ⟨pre, i, post, rfl, rfl, rfl, -⟩ := trace_split hl
      exact genuine_of_open hfresh.left.opened hcred
    · obtain ⟨pre, i, post, rfl, rfl, rfl, -⟩ := trace_split hl
      exact taken_of_not_disturbs hasks hne hgiven hnow (h pre i post rfl) htaken

/-! ## Two requests -/

/-- Keys of 32 bytes, and no signature that verifies. -/
def examplePlatform : Platform where
  publicKey t := ((Base58.decode t).filter fun bytes => bytes.length = 32).map ofBytes
  bs58Decode := Base58.decode
  verify _ sig pub := if sig.length = 64 ∧ pub.length = 32 then some false else none

def exampleWallet : JsText := List.replicate 32 '1'

/-- The owner asks for a challenge, and somebody else does at a time. -/
def exampleCalls (now : ℕ) : List Call :=
  [.challenge exampleWallet exampleWallet ['a'] 0, .challenge ['m'] exampleWallet ['b'] now]

theorem exampleCalls_fresh (now : ℕ) : Fresh (exampleCalls now) := by
  simp [Fresh, exampleCalls, Call.drawn]

/-- The second request comes when the nonce of the owner has expired. -/
theorem exampleCalls_kept : ChallengeLaw examplePlatform (exampleCalls 300001) := by
  refine (challenges_kept_iff examplePlatform _ (exampleCalls_fresh _)).2 fun pre i post hcalls => ?_
  rintro ⟨sender, wallet, ch, hasks, hne, -, hget, htime, -⟩
  rcases pre with _ | ⟨first, _ | ⟨second, pre⟩⟩
  · cases hget
  · obtain ⟨rfl, hrest⟩ := List.cons.inj hcalls
    obtain ⟨rfl, -⟩ := List.cons.inj hrest
    obtain ⟨rfl, rfl⟩ := Prod.mk.inj (Option.some.inj hasks)
    have hopen : (exec (step examplePlatform) .empty
        [.challenge exampleWallet exampleWallet ['a'] 0]).get exampleWallet =
          some ⟨exampleWallet, ['a'], 300000⟩ := by
      decide +kernel
    obtain rfl := Option.some.inj (hopen.symm.trans hget)
    exact absurd htime (by decide)
  · have hlength := congrArg List.length hcalls
    simp [exampleCalls] at hlength

/-- The second request takes the place of the open challenge. -/
theorem exampleCalls_not_kept : ¬ChallengeLaw examplePlatform (exampleCalls 1) := by
  intro h
  have hgiven : Given (trace (step examplePlatform) .empty
      [.challenge exampleWallet exampleWallet ['a'] 0]) exampleWallet ['a'] := by
    refine ⟨_, List.mem_cons_self, ⟨exampleWallet, ['a'], 300000⟩, ?_, rfl, rfl⟩
    decide +kernel
  have htaken := h.undisturbed _ _ [] rfl ['m'] exampleWallet rfl (by decide) ['a'] hgiven 1 le_rfl
    (by unfold Taken; decide +kernel)
  unfold Taken at htaken
  revert htaken
  decide +kernel

end Ddns.Passports
