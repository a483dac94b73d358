import Ddns.Anchor.Program
import Ddns.Lib.Hex
import Ddns.Passports.Challenges

/-!
# Passports of the tollbooth

A claim that is authorised looks for the toll pass of its wallet. If there is none, a mint is made and
the pass and its name are written on the chain; the answer and the stored record then name what the
claim asks for. They do so as well if there is a pass already, whatever name it was issued for, so that
a claim with another name is answered with a name that is not the wallet's, and overwrites the record
(`passportLaw_iff`). Claims are interleaved with each other and with whatever else happens on the chain.
A definition without a docstring is the item of the source with the same words in its name.

Passes of an earlier layout, which `decodeTollPassCompat` also reads, are left out.
-/

namespace Ddns.Passports

open Runs
open Anchor (TollPass NameRecord)
open Names (dnsSuffix isLabelChar)

/-! ## Model -/

/-- The tollbooth: the chain it talks to, its key, and what comes from the platform. -/
structure Service extends Platform where
  dep : Anchor.Deployment
  authority : Signer
  toLowerCase : JsText → JsText
  toBase58 : Pubkey → JsText
  pdaTollPass : Pubkey → Pubkey
  pdaNameRecord : Hash → Pubkey

/-- What an answer and a stored record say of a passport. -/
structure Passport where
  passportMint : JsText
  tollPassPda : JsText
  nameRecordPda : JsText
  label : JsText
  nameHashHex : JsText
  deriving DecidableEq

structure PassportMapping extends Passport where
  walletPubkey : JsText
  tx : Option JsText
  createdAt : ℕ
  deriving DecidableEq

/-- How far a claim is: it looks for a pass, has to issue one, or has found or issued one. -/
inductive Phase where
  | looking
  | issuing
  | found (mint : Pubkey)
  | issued (mint : Pubkey) (tx : JsText)
  deriving DecidableEq

/-- An authorised claim. -/
structure Job where
  wallet : JsText
  ownerWallet : Pubkey
  label : JsText
  phase : Phase
  deriving DecidableEq

structure State where
  challenges : ChallengeStore
  chain : Anchor.State
  passports : FinMap JsText PassportMapping
  jobs : FinMap ℕ Job

/-- The name of a file. -/
def safeFileKey (s : JsText) : JsText :=
  s.map fun c => if c.isAlphanum || c = '.' || c = '_' || c = '-' then c else '_'

def normalizeLabel (svc : Service) (label : JsText) : JsText := svc.toLowerCase (JsText.trim label)

/-- It throws where this is false. -/
def validateLabel (label : JsText) : Bool :=
  3 ≤ label.codeUnits.length && label.codeUnits.length ≤ 32 && label.head? ≠ some '-' &&
    label.getLast? ≠ some '-' && !label.contains '.' && label.all isLabelChar

/-- The label that a claim asks for. -/
def labelOf (svc : Service) (wallet : JsText) (desiredName : Option JsText) : JsText :=
  let label := (desiredName.map (normalizeLabel svc)).getD []
  let label := if dnsSuffix <:+ label then label.take (label.length - 4) else label
  if label = [] then 'u' :: '-' :: svc.toLowerCase (wallet.take 8) else label

def nameHashFromLabel (svc : Service) (labelLower : JsText) : Hash :=
  svc.dep.sha256 (JsText.utf8 (labelLower ++ dnsSuffix))

/-- `createMint`, and the token account of the owner. -/
def createMint (svc : Service) (chain : Anchor.State) (mint ata owner : Pubkey) :
    Tx.Result Anchor.ErrorCode Anchor.State := do
  Tx.vacant (chain.mints mint)
  Tx.vacant (chain.tokens ata)
  pure { chain with
    mints := Function.update chain.mints mint (some ⟨some svc.authority.key, 0⟩)
    freezeAuthority := Function.update chain.freezeAuthority mint (some svc.authority.key)
    tokens := Function.update chain.tokens ata (some ⟨mint, owner, 0⟩)
    frozen := Function.update chain.frozen ata false }

/-- `issuePassport` where there is no pass: the chain after it, and the pass unless that fails. -/
def issueOn (svc : Service) (chain : Anchor.State) (clock : Tx.Clock) (job : Job) (mint ata : Pubkey) :
    Anchor.State × Bool :=
  match createMint svc chain mint ata job.ownerWallet with
  | .error _ => (chain, false)
  | .ok chain =>
    match Anchor.issueTollPass svc.dep clock chain ⟨svc.authority, job.ownerWallet, mint, ata⟩ job.label
        (nameHashFromLabel svc job.label) 0 0 with
    | .error _ => (chain, false)
    | .ok chain => (chain, true)

/-- The result of `issuePassport`, with a mint. -/
def passportOf (svc : Service) (job : Job) (mint : Pubkey) : Passport where
  passportMint := svc.toBase58 mint
  tollPassPda := svc.toBase58 (svc.pdaTollPass job.ownerWallet)
  nameRecordPda := svc.toBase58 (svc.pdaNameRecord (nameHashFromLabel svc job.label))
  label := job.label
  nameHashHex := Hex.ofBytes (toBytes (nameHashFromLabel svc job.label))

/-- A request, or what a claim does next; a claim has a number. A claim may fail at any time, and the
chain takes other transactions. -/
inductive Request where
  | challenge (sender wallet nonce : JsText) (now : ℕ)
  | claimPassport (id : ℕ) (cred : Credential) (desiredName : Option JsText) (now : ℕ)
  | look (id : ℕ)
  | issue (id : ℕ) (mint ata : Pubkey) (clock : Tx.Clock) (tx : JsText)
  | finish (id : ℕ) (now : ℕ)
  | fail (id : ℕ)
  | transact (clock : Tx.Clock) (i : Anchor.Instr)

/-- The answer to a request, where there is one. -/
inductive Reply where
  | challenged (a : Answer)
  | passport (wallet : JsText) (passport : Passport) (tx : Option JsText)
  | failed
  | none
  deriving DecidableEq

/-- `writePassport`, and the answer. -/
def respond (svc : Service) (s : State) (id : ℕ) (job : Job) (mint : Pubkey) (tx : Option JsText)
    (now : ℕ) : State × Reply :=
  let passport := passportOf svc job mint
  ({ s with
      passports := s.passports.set (safeFileKey job.wallet)
        { passport with walletPubkey := job.wallet, tx, createdAt := now }
      jobs := s.jobs.erase id },
    .passport job.wallet passport tx)

/-- `POST /v1/claim-passport` until it looks for a pass. -/
def claimPassport (svc : Service) (s : State) (id : ℕ) (cred : Credential) (desiredName : Option JsText)
    (now : ℕ) : State × Reply :=
  let (challenges, answer) := authorise svc.toPlatform s.challenges cred now
  let s := { s with challenges }
  match answer, svc.publicKey cred.wallet with
  | .authorised _, some ownerWallet =>
    let label := labelOf svc cred.wallet desiredName
    if validateLabel label then
      ({ s with jobs := s.jobs.set id ⟨cred.wallet, ownerWallet, label, .looking⟩ }, .none)
    else (s, .failed)
  | .authorised _, none => (s, .failed)
  | answer, _ => (s, .challenged answer)

def next (svc : Service) (s : State) : Request → State × Reply
  | .challenge sender wallet nonce now =>
    let (challenges, answer) := step svc.toPlatform s.challenges (.challenge sender wallet nonce now)
    ({ s with challenges }, .challenged answer)
  | .claimPassport id cred desiredName now => claimPassport svc s id cred desiredName now
  | .look id =>
    match s.jobs.get id with
    | some job =>
      if job.phase = .looking then
        match s.chain.tollPass job.ownerWallet with
        | some pass => ({ s with jobs := s.jobs.set id { job with phase := .found pass.ownerMint } }, .none)
        | none => ({ s with jobs := s.jobs.set id { job with phase := .issuing } }, .none)
      else (s, .none)
    | none => (s, .none)
  | .issue id mint ata clock tx =>
    match s.jobs.get id with
    | some job =>
      if job.phase = .issuing then
        match issueOn svc s.chain clock job mint ata with
        | (chain, true) =>
          ({ s with chain, jobs := s.jobs.set id { job with phase := .issued mint tx } }, .none)
        | (chain, false) => ({ s with chain, jobs := s.jobs.erase id }, .failed)
      else (s, .none)
    | none => (s, .none)
  | .finish id now =>
    match s.jobs.get id with
    | some job =>
      match job.phase with
      | .found mint => respond svc s id job mint none now
      | .issued mint tx => respond svc s id job mint (some tx) now
      | .looking | .issuing => (s, .none)
    | none => (s, .none)
  | .fail id => ({ s with jobs := s.jobs.erase id }, .failed)
  | .transact clock i =>
    match Anchor.process svc.dep clock s.chain i with
    | .ok (chain, _) => ({ s with chain }, .none)
    | .error _ => (s, .none)

/-- A step of the service. -/
abbrev Event := Runs.Event State Request Reply

/-- The service with a new chain, which has mints and token accounts only. -/
def State.start (mints : Mints) (freezeAuthority : Pubkey → Option Pubkey) (tokens : Tokens)
    (frozen : Pubkey → Bool) : State :=
  ⟨.empty, .genesis mints freezeAuthority tokens frozen, .empty, .empty⟩

/-! ## The law -/

/-- The wallet has the pass, whose name on the chain has the label. -/
def Bound (chain : Anchor.State) (owner : Pubkey) (pass : TollPass) (label : JsText) : Prop :=
  chain.tollPass owner = some pass ∧ ∃ record, chain.nameRecord pass.nameHash = some record ∧
    record.labelBytes.take record.labelLen = JsText.utf8 label

/-- What is said of the passport of a wallet is so on the chain. -/
def NamesBound (svc : Service) (chain : Anchor.State) (wallet : JsText) (passport : Passport) : Prop :=
  ∃ owner pass, svc.publicKey wallet = some owner ∧ Bound chain owner pass passport.label ∧
    passport.nameHashHex = Hex.ofBytes (toBytes pass.nameHash) ∧
    passport.nameRecordPda = svc.toBase58 (svc.pdaNameRecord pass.nameHash) ∧
    passport.passportMint = svc.toBase58 pass.ownerMint ∧
    passport.tollPassPda = svc.toBase58 (svc.pdaTollPass owner)

/-- A claim that has found a pass asks for another name than that of the pass. -/
def Renames (s : State) : Request → Prop
  | .finish id _ => ∃ job mint, s.jobs.get id = some job ∧ job.phase = .found mint ∧
      ∀ pass, ¬Bound s.chain job.ownerWallet pass job.label
  | _ => False

/-- **The passport law** of a run: what the answers and the records name is bound to the pass of their
wallet, and a claim for another name changes neither the chain nor the records. -/
structure PassportLaw (svc : Service) (start : State) (requests : List Request) : Prop where
  answers : ∀ e ∈ trace (next svc) start requests, ∀ wallet passport tx,
    e.out = .passport wallet passport tx → NamesBound svc e.post.chain wallet passport
  stored : ∀ e ∈ trace (next svc) start requests, ∀ file q, e.post.passports.get file = some q →
    NamesBound svc e.post.chain q.walletPubkey q.toPassport
  repeated : ∀ e ∈ trace (next svc) start requests, Renames e.pre e.input →
    e.post.chain = e.pre.chain ∧ e.post.passports = e.pre.passports

/-! ## The chain -/

/-- A chain that keeps the passes and the names of another one. -/
structure Grows (chain chain' : Anchor.State) : Prop where
  pass : ∀ owner pass, chain.tollPass owner = some pass → chain'.tollPass owner = some pass
  name : ∀ h record, chain.nameRecord h = some record → chain'.nameRecord h = some record

/-- The names on the chain are stored under their hashes. -/
def Hashed (dep : Anchor.Deployment) (chain : Anchor.State) : Prop :=
  ∀ h record, chain.nameRecord h = some record →
    h = dep.sha256 (record.labelBytes.take record.labelLen ++ JsText.utf8 dnsSuffix)

section Chain

variable {svc : Service} {dep : Anchor.Deployment} {clock : Tx.Clock} {chain chain' : Anchor.State}

theorem Grows.refl (chain : Anchor.State) : Grows chain chain := ⟨fun _ _ h => h, fun _ _ h => h⟩

theorem Grows.trans {chain'' : Anchor.State} (h : Grows chain chain') (h' : Grows chain' chain'') :
    Grows chain chain'' :=
  ⟨fun o p hp => h'.pass o p (h.pass o p hp), fun k r hr => h'.name k r (h.name k r hr)⟩

theorem keeps_of_eq (hpass : chain'.tollPass = chain.tollPass)
    (hname : chain'.nameRecord = chain.nameRecord) :
    Grows chain chain' ∧ (Hashed dep chain → Hashed dep chain') := by
  unfold Hashed
  refine ⟨⟨?_, ?_⟩, ?_⟩
  · rw [hpass]
    exact fun _ _ h => h
  · rw [hname]
    exact fun _ _ h => h
  · rw [hname]
    exact fun h => h

theorem Bound.grows {owner : Pubkey} {pass : TollPass} {label : JsText} (h : Bound chain owner pass label)
    (hg : Grows chain chain') : Bound chain' owner pass label := by
  obtain ⟨hpass, record, hrecord, hlabel⟩ := h
  exact ⟨hg.pass _ _ hpass, record, hg.name _ _ hrecord, hlabel⟩

theorem NamesBound.grows {wallet : JsText} {passport : Passport} (h : NamesBound svc chain wallet passport)
    (hg : Grows chain chain') : NamesBound svc chain' wallet passport := by
  obtain ⟨owner, pass, hkey, hbound, hrest⟩ := h
  exact ⟨owner, pass, hkey, hbound.grows hg, hrest⟩

theorem length_asBytes (t : JsText) : (Names.asBytes t).length = Names.len t := by
  induction t with
  | nil => rfl
  | cons c t ih =>
    unfold Names.asBytes Names.len at ih ⊢
    rw [List.flatMap_cons, List.length_append, ih, String.length_utf8EncodeChar]
    rfl

/-- The label is read back from the bytes that are written. -/
theorem take_writeLabel {label : JsText} (h : Names.len label ≤ 32) :
    (Anchor.writeLabel label).1.take (Anchor.writeLabel label).2 = JsText.utf8 label := by
  unfold Anchor.writeLabel
  dsimp only
  rw [length_asBytes, Checked.cast_of_lt (by omega), ← length_asBytes, List.take_left]
  rfl

/-- **A pass that is issued** is bound to its label, and other passes and names stay. -/
theorem issueTollPass_eq {accs : Anchor.IssueTollPass} {label : JsText} {h page data : Hash}
    (hok : Anchor.issueTollPass dep clock chain accs label h page data = .ok chain') :
    Grows chain chain' ∧ (Hashed dep chain → Hashed dep chain') ∧ ∃ pass,
      Bound chain' accs.ownerWallet pass label ∧ pass.nameHash = h ∧ pass.ownerMint = accs.nftMint := by
  simp only [Anchor.issueTollPass, Anchor.validateLabel, Tx.bind_eq_ok, Tx.vacant_eq_ok,
    Tx.require_eq_ok, Tx.exists_unit, Tx.pure_eq_ok] at hok
  obtain ⟨_, -, hpass, hname, -, ⟨⟨-, hlen⟩, -⟩, hhash, -, -, -, _, -, -, -, _, -, -, -, -, _, -, rfl⟩ := hok
  refine ⟨⟨fun owner pass hp => ?_, fun k r hr => ?_⟩, fun hhashed k r hr => ?_, ?_⟩
  · dsimp only
    rw [Function.update_of_ne, hp]
    rintro rfl
    rw [hpass] at hp
    cases hp
  · dsimp only
    rw [Function.update_of_ne, hr]
    rintro rfl
    rw [hname] at hr
    cases hr
  · dsimp only at hr
    by_cases hk : k = h
    · subst hk
      rw [Function.update_self] at hr
      rw [← Option.some.inj hr, ← hhash]
      dsimp only
      rw [take_writeLabel hlen]
      rfl
    · rw [Function.update_of_ne hk] at hr
      exact hhashed k r hr
  · refine ⟨_, ⟨Function.update_self .., _, Function.update_self .., take_writeLabel hlen⟩, rfl, rfl⟩

theorem createMint_eq {mint ata owner : Pubkey} (hok : createMint svc chain mint ata owner = .ok chain') :
    chain'.tollPass = chain.tollPass ∧ chain'.nameRecord = chain.nameRecord := by
  simp only [createMint, Tx.bind_eq_ok, Tx.exists_unit, Tx.pure_eq_ok] at hok
  obtain ⟨-, -, rfl⟩ := hok
  exact ⟨rfl, rfl⟩

/-- **The chain keeps** its passes and names, whatever is done on it. -/
theorem process_eq {i : Anchor.Instr} {u : Unit} (hok : Anchor.process dep clock chain i = .ok (chain', u)) :
    Grows chain chain' ∧ (Hashed dep chain → Hashed dep chain') := by
  simp only [Anchor.process, Tx.bind_eq_ok, Tx.exists_unit, Tx.pure_eq_ok, Prod.mk.injEq] at hok
  obtain ⟨-, chain'', hok, rfl, -⟩ := hok
  cases i with
  | initializeConfig s v =>
    simp only [Anchor.handle, Anchor.initializeConfig, Tx.bind_eq_ok, Tx.exists_unit,
      Tx.pure_eq_ok] at hok
    obtain ⟨-, -, rfl⟩ := hok
    exact keeps_of_eq rfl rfl
  | setVersion s v =>
    simp only [Anchor.handle, Anchor.setVersion, Tx.bind_eq_ok, Tx.exists_unit, Tx.pure_eq_ok] at hok
    obtain ⟨-, -, -, rfl⟩ := hok
    exact keeps_of_eq rfl rfl
  | issueTollPass accs label h page data =>
    have heq := issueTollPass_eq hok
    exact ⟨heq.1, heq.2.1⟩
  | lockTokens accs amount days =>
    simp only [Anchor.handle, Anchor.lockTokens, Tx.bind_eq_ok, Tx.exists_unit, Tx.pure_eq_ok] at hok
    obtain ⟨-, -, -, -, -, -, -, -, -, rfl⟩ := hok
    exact keeps_of_eq rfl rfl
  | unlockTokens accs =>
    simp only [Anchor.handle, Anchor.unlockTokens, Tx.bind_eq_ok, Tx.exists_unit, Tx.pure_eq_ok] at hok
    obtain ⟨-, -, -, -, -, -, -, -, -, rfl⟩ := hok
    exact keeps_of_eq rfl rfl
  | setRoute s o name nameHash dest ttl =>
    simp only [Anchor.handle, Anchor.setRoute, Tx.bind_eq_ok, Tx.exists_unit, Tx.pure_eq_ok] at hok
    obtain ⟨_, -, _, -, _, -, -, -, -, -, -, -, -, -, -, rfl⟩ := hok
    exact keeps_of_eq rfl rfl
  | splTransfer s src dst n =>
    simp only [Anchor.handle, Anchor.splTransfer, Tx.bind_eq_ok, Tx.pure_eq_ok] at hok
    obtain ⟨-, -, rfl⟩ := hok
    exact keeps_of_eq rfl rfl
  | openTokenAccount s a m o =>
    simp only [Anchor.handle, Anchor.openTokenAccount, Tx.bind_eq_ok, Tx.exists_unit,
      Tx.pure_eq_ok] at hok
    obtain ⟨-, -, -, rfl⟩ := hok
    exact keeps_of_eq rfl rfl
  | setTokenOwner s a o =>
    simp only [Anchor.handle, Anchor.setTokenOwner, Tx.bind_eq_ok, Tx.exists_unit, Tx.pure_eq_ok] at hok
    obtain ⟨-, -, -, -, rfl⟩ := hok
    exact keeps_of_eq rfl rfl

/-- What `issuePassport` does to the chain, and that it succeeds with a pass. -/
theorem issueOn_eq (svc : Service) (chain : Anchor.State) (clock : Tx.Clock) (job : Job)
    (mint ata : Pubkey) : Grows chain (issueOn svc chain clock job mint ata).1 ∧
      (Hashed svc.dep chain → Hashed svc.dep (issueOn svc chain clock job mint ata).1) ∧
      ((issueOn svc chain clock job mint ata).2 = true → ∃ pass,
        Bound (issueOn svc chain clock job mint ata).1 job.ownerWallet pass job.label ∧
          pass.nameHash = nameHashFromLabel svc job.label ∧ pass.ownerMint = mint) := by
  unfold issueOn
  cases hmint : createMint svc chain mint ata job.ownerWallet with
  | error e => exact ⟨.refl chain, fun h => h, nofun⟩
  | ok made =>
    obtain ⟨hpass, hname⟩ := createMint_eq hmint
    have hmade : Grows chain made ∧ (Hashed svc.dep chain → Hashed svc.dep made) :=
      keeps_of_eq hpass hname
    dsimp only
    cases hissue : Anchor.issueTollPass svc.dep clock made ⟨svc.authority, job.ownerWallet, mint, ata⟩
        job.label (nameHashFromLabel svc job.label) 0 0 with
    | error e => exact ⟨hmade.1, hmade.2, nofun⟩
    | ok chain' =>
      obtain ⟨hgrows, hhashed, hbound⟩ := issueTollPass_eq hissue
      exact ⟨hmade.1.trans hgrows, fun h => hhashed (hmade.2 h), fun _ => hbound⟩

end Chain

/-! ## Steps -/

/-- What a claim has come to is so on the chain. -/
def Phase.Holds (svc : Service) (chain : Anchor.State) (job : Job) : Phase → Prop
  | .looking | .issuing => True
  | .found mint => ∃ pass, chain.tollPass job.ownerWallet = some pass ∧ pass.ownerMint = mint
  | .issued mint _ => ∃ pass, Bound chain job.ownerWallet pass job.label ∧
      pass.nameHash = nameHashFromLabel svc job.label ∧ pass.ownerMint = mint

/-- **The invariant** of all runs. -/
structure Sound (svc : Service) (s : State) : Prop where
  hashed : Hashed svc.dep s.chain
  jobs : ∀ id job, s.jobs.get id = some job →
    svc.publicKey job.wallet = some job.ownerWallet ∧ job.phase.Holds svc s.chain job

/-- The records name what is bound to the passes. -/
def Stored (svc : Service) (s : State) : Prop :=
  ∀ file q, s.passports.get file = some q → NamesBound svc s.chain q.walletPubkey q.toPassport

section Steps

variable {svc : Service} {s s' : State} {request : Request}

theorem Phase.Holds.grows {chain chain' : Anchor.State} {job : Job} {phase : Phase}
    (h : phase.Holds svc chain job) (hg : Grows chain chain') : phase.Holds svc chain' job := by
  cases phase with
  | looking => trivial
  | issuing => trivial
  | found mint =>
    obtain ⟨pass, hpass, hmint⟩ := h
    exact ⟨pass, hg.pass _ _ hpass, hmint⟩
  | issued mint tx =>
    obtain ⟨pass, hbound, hrest⟩ := h
    exact ⟨pass, hbound.grows hg, hrest⟩

/-- **What a step does** but for the claim that is answered: the chain grows, a claim is new, further
or gone, and no record is written. -/
structure Quiet (svc : Service) (s s' : State) (reply : Reply) : Prop where
  grows : Grows s.chain s'.chain
  hashed : Hashed svc.dep s.chain → Hashed svc.dep s'.chain
  jobs : ∀ id job, s'.jobs.get id = some job → s.jobs.get id = some job ∨
    (Sound svc s → svc.publicKey job.wallet = some job.ownerWallet) ∧ job.phase.Holds svc s'.chain job
  reply : ∀ wallet passport tx, reply ≠ .passport wallet passport tx
  passports : s'.passports = s.passports

/-- The claim that is answered has found or issued a pass with the mint. -/
def Answers (s : State) (id : ℕ) (job : Job) (mint : Pubkey) (tx : Option JsText) : Prop :=
  s.jobs.get id = some job ∧
    (job.phase = .found mint ∧ tx = none ∨ ∃ sig, job.phase = .issued mint sig ∧ tx = some sig)

/-- A step that leaves the chain and the records alone. -/
theorem Quiet.of_jobs {reply : Reply} (hchain : s'.chain = s.chain) (hpassports : s'.passports = s.passports)
    (hjobs : ∀ id job, s'.jobs.get id = some job → s.jobs.get id = some job ∨
      (Sound svc s → svc.publicKey job.wallet = some job.ownerWallet) ∧ job.phase.Holds svc s.chain job)
    (hreply : ∀ wallet passport tx, reply ≠ .passport wallet passport tx) : Quiet svc s s' reply := by
  refine ⟨?_, ?_, ?_, hreply, hpassports⟩
  · rw [hchain]
    exact .refl _
  · rw [hchain]
    exact fun h => h
  · rw [hchain]
    exact hjobs

theorem Quiet.refl (svc : Service) (s : State) : Quiet svc s s .none :=
  .of_jobs rfl rfl (fun _ _ h => .inl h) (by simp)

/-- A claim that is set aside, or goes on. -/
theorem get_set_job {jobs : FinMap ℕ Job} {id k : ℕ} {job job' : Job}
    (h : (jobs.set id job).get k = some job') : jobs.get k = some job' ∨ job' = job := by
  rw [FinMap.get_set] at h
  split at h
  · exact .inr (Option.some.inj h).symm
  · exact .inl h

theorem get_erase_job {jobs : FinMap ℕ Job} {id k : ℕ} {job : Job}
    (h : (jobs.erase id).get k = some job) : jobs.get k = some job := by
  rw [FinMap.get_erase] at h
  split at h
  · cases h
  · exact h

theorem claimPassport_quiet (svc : Service) (s : State) (id : ℕ) (cred : Credential)
    (desiredName : Option JsText) (now : ℕ) : Quiet svc s
      (claimPassport svc s id cred desiredName now).1 (claimPassport svc s id cred desiredName now).2 := by
  unfold claimPassport
  generalize authorise svc.toPlatform s.challenges cred now = authorised
  obtain ⟨challenges, answer⟩ := authorised
  dsimp only
  split
  · next owner hkey =>
    split
    · refine .of_jobs rfl rfl (fun k job h => ?_) (by simp)
      rcases get_set_job h with h | rfl
      · exact .inl h
      · exact .inr ⟨fun _ => hkey, trivial⟩
    · exact .of_jobs rfl rfl (fun _ _ h => .inl h) (by simp)
  · exact .of_jobs rfl rfl (fun _ _ h => .inl h) (by simp)
  · exact .of_jobs rfl rfl (fun _ _ h => .inl h) (by simp)

/-- **A step is quiet**, or answers a claim. -/
theorem next_cases (svc : Service) (s : State) (request : Request) :
    Quiet svc s (next svc s request).1 (next svc s request).2 ∧ ¬Renames s request ∨
      ∃ id now job mint tx, request = .finish id now ∧ Answers s id job mint tx ∧
        next svc s request = respond svc s id job mint tx now := by
  cases request with
  | challenge sender wallet nonce now =>
    exact .inl ⟨.of_jobs rfl rfl (fun _ _ h => .inl h) (by rintro _ _ _ ⟨⟩), not_false⟩
  | claimPassport id cred desiredName now =>
    exact .inl ⟨claimPassport_quiet svc s id cred desiredName now, not_false⟩
  | look id =>
    refine .inl ⟨?_, not_false⟩
    simp only [next]
    split
    · next job hjob =>
      split
      · split
        · next pass hpass =>
          refine .of_jobs rfl rfl (fun k job' h => ?_) (by simp)
          rcases get_set_job h with h | rfl
          · exact .inl h
          · exact .inr ⟨fun hsound => (hsound.jobs id job hjob).1, pass, hpass, rfl⟩
        · refine .of_jobs rfl rfl (fun k job' h => ?_) (by simp)
          rcases get_set_job h with h | rfl
          · exact .inl h
          · exact .inr ⟨fun hsound => (hsound.jobs id job hjob).1, trivial⟩
      · exact .refl svc s
    · exact .refl svc s
  | issue id mint ata clock tx =>
    refine .inl ⟨?_, not_false⟩
    simp only [next]
    split
    · next job hjob =>
      split
      · have hissue := issueOn_eq svc s.chain clock job mint ata
        generalize issueOn svc s.chain clock job mint ata = result at hissue ⊢
        obtain ⟨chain, succeeded⟩ := result
        obtain ⟨hgrows, hhashed, hbound⟩ := hissue
        cases succeeded with
        | true =>
          refine ⟨hgrows, hhashed, fun k job' h => ?_, by simp, rfl⟩
          rcases get_set_job h with h | rfl
          · exact .inl h
          · exact .inr ⟨fun hsound => (hsound.jobs id job hjob).1, hbound rfl⟩
        | false => exact ⟨hgrows, hhashed, fun k job' h => .inl (get_erase_job h), by simp, rfl⟩
      · exact .refl svc s
    · exact .refl svc s
  | finish id now =>
    simp only [next]
    split
    · next job hjob =>
      split
      · next mint hphase => exact .inr ⟨id, now, job, mint, none, rfl, ⟨hjob, .inl ⟨hphase, rfl⟩⟩, rfl⟩
      · next mint tx hphase =>
        exact .inr ⟨id, now, job, mint, some tx, rfl, ⟨hjob, .inr ⟨tx, hphase, rfl⟩⟩, rfl⟩
      · next hphase =>
        refine .inl ⟨.refl svc s, ?_⟩
        rintro ⟨job', mint, hjob', hfound, -⟩
        obtain rfl := Option.some.inj (hjob.symm.trans hjob')
        rw [hphase] at hfound
        cases hfound
      · next hphase =>
        refine .inl ⟨.refl svc s, ?_⟩
        rintro ⟨job', mint, hjob', hfound, -⟩
        obtain rfl := Option.some.inj (hjob.symm.trans hjob')
        rw [hphase] at hfound
        cases hfound
    · next hjob =>
      refine .inl ⟨.refl svc s, ?_⟩
      rintro ⟨job', mint, hjob', -⟩
      rw [hjob] at hjob'
      cases hjob'
  | fail id =>
    exact .inl ⟨.of_jobs rfl rfl (fun _ _ h => .inl (get_erase_job h)) (by rintro _ _ _ ⟨⟩), not_false⟩
  | transact clock i =>
    refine .inl ⟨?_, not_false⟩
    simp only [next]
    split
    · next chain u hok =>
      obtain ⟨hgrows, hhashed⟩ := process_eq hok
      exact ⟨hgrows, hhashed, fun _ _ h => .inl h, by simp, rfl⟩
    · exact .refl svc s

theorem Quiet.sound {reply : Reply} (h : Quiet svc s s' reply) (hs : Sound svc s) : Sound svc s' := by
  refine ⟨h.hashed hs.hashed, fun id job hjob => ?_⟩
  rcases h.jobs id job hjob with hold | ⟨hkey, hphase⟩
  · obtain ⟨hkey, hphase⟩ := hs.jobs id job hold
    exact ⟨hkey, hphase.grows h.grows⟩
  · exact ⟨hkey hs, hphase⟩

theorem Quiet.stored {reply : Reply} (h : Quiet svc s s' reply) (hs : Stored svc s) : Stored svc s' := by
  intro file q hq
  rw [h.passports] at hq
  exact (hs file q hq).grows h.grows

/-- The invariant holds after every step. -/
theorem Sound.next (hs : Sound svc s) (request : Request) : Sound svc (next svc s request).1 := by
  rcases next_cases svc s request with ⟨hquiet, -⟩ | ⟨id, now, job, mint, tx, -, -, hrespond⟩
  · exact hquiet.sound hs
  · rw [hrespond]
    exact ⟨hs.hashed, fun k job' h => hs.jobs k job' (get_erase_job h)⟩

/-- **An answered claim** names what is bound, unless it asks for another name than that of a pass it
has found. -/
theorem namesBound_iff {id now : ℕ} {job : Job} {mint : Pubkey} {tx : Option JsText} (hs : Sound svc s)
    (h : Answers s id job mint tx) :
    NamesBound svc s.chain job.wallet (passportOf svc job mint) ↔ ¬Renames s (.finish id now) := by
  obtain ⟨hjob, hphase⟩ := h
  obtain ⟨hkey, hholds⟩ := hs.jobs id job hjob
  constructor
  · rintro ⟨owner, pass, howner, hbound, -⟩ ⟨job', mint', hjob', -, hother⟩
    obtain rfl := Option.some.inj (hkey.symm.trans howner)
    obtain rfl := Option.some.inj (hjob.symm.trans hjob')
    exact hother pass hbound
  · intro hsame
    rcases hphase with ⟨hfound, -⟩ | ⟨sig, hissued, -⟩
    · rw [hfound] at hholds
      obtain ⟨pass, hpass, hmint⟩ := hholds
      have hbound : ∃ pass, Bound s.chain job.ownerWallet pass job.label := by
        by_contra hnone
        exact hsame ⟨job, mint, hjob, hfound, not_exists.1 hnone⟩
      obtain ⟨pass', hbound⟩ := hbound
      obtain rfl := Option.some.inj (hpass.symm.trans hbound.1)
      obtain ⟨-, record, hrecord, hlabel⟩ := hbound
      have hhash : pass.nameHash = nameHashFromLabel svc job.label := by
        have hstored := hs.hashed _ _ hrecord
        rw [hlabel] at hstored
        rw [hstored, nameHashFromLabel, JsText.utf8, JsText.utf8, JsText.utf8, List.flatMap_append]
      refine ⟨job.ownerWallet, pass, hkey, ⟨hpass, record, hrecord, hlabel⟩, ?_, ?_, ?_, rfl⟩
      · rw [hhash]
        rfl
      · rw [hhash]
        rfl
      · rw [hmint]
        rfl
    · rw [hissued] at hholds
      obtain ⟨pass, hbound, hhash, hmint⟩ := hholds
      refine ⟨job.ownerWallet, pass, hkey, hbound, ?_, ?_, ?_, rfl⟩
      · rw [hhash]
        rfl
      · rw [hhash]
        rfl
      · rw [hmint]
        rfl

/-- The records name what is bound after a step, unless it renames. -/
theorem Stored.next (hs : Sound svc s) (h : Stored svc s) (hsame : ¬Renames s request) :
    Stored svc (next svc s request).1 := by
  rcases next_cases svc s request with ⟨hquiet, -⟩ | ⟨id, now, job, mint, tx, rfl, hanswers, hrespond⟩
  · exact hquiet.stored h
  · rw [hrespond]
    intro file q hq
    change (s.passports.set _ _).get file = some q at hq
    rw [FinMap.get_set] at hq
    split at hq
    · rw [← Option.some.inj hq]
      exact (namesBound_iff hs hanswers).2 hsame
    · exact h file q hq

end Steps

theorem sound_start (svc : Service) (mints : Mints) (freezeAuthority : Pubkey → Option Pubkey)
    (tokens : Tokens) (frozen : Pubkey → Bool) :
    Sound svc (.start mints freezeAuthority tokens frozen) :=
  ⟨nofun, nofun⟩

/-- **Exactly when the passports are those of the chain.** A run keeps the passport law if and only if
no claim that has found a pass is answered for another name than that of the pass. -/
theorem passportLaw_iff (svc : Service) (mints : Mints) (freezeAuthority : Pubkey → Option Pubkey)
    (tokens : Tokens) (frozen : Pubkey → Bool) (requests : List Request) :
    PassportLaw svc (.start mints freezeAuthority tokens frozen) requests ↔
      Each (next svc) (fun s request => ¬Renames s request)
        (.start mints freezeAuthority tokens frozen) requests := by
  have hsound (pre : List Request) :
      Sound svc (exec (next svc) (.start mints freezeAuthority tokens frozen) pre) :=
    exec_induction (fun s i h => h.next i) (sound_start svc mints freezeAuthority tokens frozen) pre
  constructor
  · refine fun h => each_iff_mem_trace.2 fun e he hrenames => ?_
    obtain ⟨pre, request, post, -, rfl⟩ := mem_trace he
    rcases next_cases svc (exec (next svc) (.start mints freezeAuthority tokens frozen) pre) request with
      ⟨-, hnot⟩ | ⟨id, now, job, mint, tx, rfl, hanswers, hrespond⟩
    · exact hnot hrenames
    · have hnames := h.answers _ he job.wallet (passportOf svc job mint) tx
        (by rw [event_out, hrespond]; rfl)
      rw [event_post, hrespond] at hnames
      exact (namesBound_iff (hsound pre) hanswers).1 hnames hrenames
  · intro h
    have hstored : Always (next svc) (fun s => Sound svc s ∧ Stored svc s)
        (.start mints freezeAuthority tokens frozen) requests :=
      Always.of_each (fun s i hs hsame => ⟨hs.1.next i, hs.2.next hs.1 hsame⟩)
        ⟨sound_start svc mints freezeAuthority tokens frozen, nofun⟩ h
    refine ⟨fun e he wallet passport tx hout => ?_, fun e he file q hq => ?_, fun e he hrenames => ?_⟩
    · have hsame := each_iff_mem_trace.1 h e he
      obtain ⟨pre, request, post, -, rfl⟩ := mem_trace he
      rcases next_cases svc (exec (next svc) (.start mints freezeAuthority tokens frozen) pre) request with
        ⟨hquiet, -⟩ | ⟨id, now, job, mint, tx', rfl, hanswers, hrespond⟩
      · exact absurd hout (hquiet.reply wallet passport tx)
      · rw [event_out, hrespond] at hout
        obtain ⟨rfl, rfl, rfl⟩ := Reply.passport.inj hout
        rw [event_post, hrespond]
        exact (namesBound_iff (hsound pre) hanswers).2 hsame
    · obtain ⟨pre, request, post, rfl, rfl⟩ := mem_trace he
      have hpost := always_iff_initial.1 hstored (pre ++ [request]) post (by simp)
      rw [exec_append] at hpost
      exact hpost.2 file q hq
    · exact absurd hrenames (each_iff_mem_trace.1 h e he)

/-! ## Two claims of a wallet -/

def exampleOwner : JsText := "AKnL4NNf3DGWZJS6cPknBuEGnVsV4A4m5tgebLHaRSZ9".toList

/-- The hash of `alice.dns`. -/
def aliceHash : Hash := 0x13a72bbb4709d66da59cf521eb487e8362fbe0ef88320a780afc6fa68bca8ea9

/-- The hash of `bob.dns`. -/
def bobHash : Hash := 0x70430824dff19377717ee6f0d8f84fcff6d1bfc7ac3c7b0c96e7cf45a6bb3c50

def exampleAuthority : Signer :=
  ⟨0x94b3c98f5b0ff65da237eeb4918a8dcbcc7e4cc36654a3565f177da80e773981, by decide⟩

/-- The mint of the pass. -/
def exampleMint : Pubkey := 0xd13787ac1446c13636f9635c3a275929619559903803e9eac6c2d128c62849ed

/-- The token account of the owner. -/
def exampleAta : Pubkey := 0xe39080711b8c5d42480f011c9a9ab589b874175e7eca94b625a32e345c0609ff

/-- A credential of the owner, for the first challenge. -/
def firstCredential : Credential where
  wallet := exampleOwner
  nonce := "00112233445566778899aabbccddeeff".toList
  signature :=
    "2oCfVfUfZjQ92pct8yrFgCKSDSHWKGMqd5St58eQGyixMWc6aSk5JCTFfyPggNxzF7AvK7dqmrCsxLqYzzH5KTok".toList

/-- A credential of the owner, for the second challenge. -/
def secondCredential : Credential where
  wallet := exampleOwner
  nonce := "ffeeddccbbaa99887766554433221100".toList
  signature :=
    "fhnFHS5JuXJAAkTYALqsLdKSUGg1hZpeSpgbEmEo7uUaSteypZqnLV4UMVbADB8dvUw7FnUEgTMDuSVD53HNhg3".toList

/-- The owner of the wallet. -/
def exampleOwnerKey : Pubkey := 0x5c6f0fb4018874f31b12941dbf0967ca725dba3c2ddb52fd95f10974dde3888a

/-- The signature of the first challenge. -/
def firstSignature : List UInt8 :=
  toBytes 0xea4fac89843c350920b9249640a2ae72552fc39cdbeab0bfdedc2c4f1fecdb59 ++
    toBytes 0xfe3c30468e50bef2d3e327ab0674c8f65b1fa9f5c64a38cde07da5f7e98373d

/-- The signature of the second challenge. -/
def secondSignature : List UInt8 :=
  toBytes 0x44a138d86390b027361bf15ccf30df0fe95cd5b43b10e9eaf867bc945c476021 ++
    toBytes 0xe58326162e645fc5afee4944a0bf7958bafaece3acc152759f17c541c49fc8

/-- The texts of the owner are read, the signatures of the two challenges verify, and the names have
their hashes. -/
def exampleService : Service where
  publicKey t := if t = exampleOwner then some exampleOwnerKey else none
  bs58Decode t :=
    if t = exampleOwner then some (toBytes exampleOwnerKey)
    else if t = firstCredential.signature then some firstSignature
    else if t = secondCredential.signature then some secondSignature else none
  verify message sig pub :=
    if sig.length = 64 ∧ pub.length = 32 then
      some (pub = toBytes exampleOwnerKey &&
        (sig = firstSignature && message = challengeMessage exampleOwner firstCredential.nonce ||
          sig = secondSignature && message = challengeMessage exampleOwner secondCredential.nonce))
    else none
  dep := {
    sha256 := fun bytes =>
      if bytes = JsText.utf8 "alice.dns".toList then aliceHash
      else if bytes = JsText.utf8 "bob.dns".toList then bobHash else 0
    canSign := fun k => k = exampleAuthority.key
    systemAccount := fun _ => true
    vaultAuth := fun _ => 9
    vaultAuth_inj := by
      intro o p ho hp _
      rw [of_decide_eq_true ho, of_decide_eq_true hp]
    vaultAuth_canSign := by
      intro _
      decide }
  authority := exampleAuthority
  toLowerCase t := t.map Char.toLower
  toBase58 k := Base58.encode (toBytes k)
  pdaTollPass _ := 0x6a24b61ab1e24a518abbb5bf958607238f82ea0a997e0220ddaa54e9d95f6c2d
  pdaNameRecord h :=
    if h = aliceHash then 0xf9596b57c482deef29e88f5501021e3e39220be208e82ebfe13f43bdeea7425
    else 0x461fa2ba8c2f2f1a303528a9bd281cf7ca00157c219b9423887edb3295e62562

/-- The owner claims `alice`, and is issued a pass. -/
def exampleIssue : List Request :=
  [.transact ⟨0, 0⟩ (.initializeConfig exampleAuthority 1),
    .challenge exampleOwner exampleOwner firstCredential.nonce 0,
    .claimPassport 0 firstCredential (some "alice".toList) 1, .look 0,
    .issue 0 exampleMint exampleAta ⟨1, 1⟩ ['t', 'x'], .finish 0 2]

/-- The owner claims `bob`. -/
def exampleRepeat : List Request :=
  [.challenge exampleOwner exampleOwner secondCredential.nonce 3,
    .claimPassport 1 secondCredential (some "bob".toList) 4, .look 1]

def exampleStart : State := .start (fun _ => none) (fun _ => none) (fun _ => none) fun _ => false

/-- The last step: the second claim is answered. -/
def exampleAnswer : Event :=
  event (next exampleService) (exec (next exampleService) exampleStart (exampleIssue ++ exampleRepeat))
    (.finish 1 5)

/-- The second answer names `bob`, though the pass is that of `alice`. -/
theorem exampleRun_not_lawful :
    ¬PassportLaw exampleService exampleStart (exampleIssue ++ exampleRepeat ++ [.finish 1 5]) := by
  intro h
  have hanswers := h.answers exampleAnswer (event_mem_trace (exampleIssue ++ exampleRepeat) [] rfl)
  obtain ⟨owner, pass, howner, ⟨hpass, record, hrecord, hlabel⟩, -⟩ := hanswers exampleOwner
    (passportOf exampleService ⟨exampleOwner, exampleOwnerKey, "bob".toList, .looking⟩ exampleMint) none
    (by decide +kernel)
  have hkey : exampleService.publicKey exampleOwner = some exampleOwnerKey := by decide +kernel
  obtain rfl := Option.some.inj (hkey.symm.trans howner)
  have hhash : (exampleAnswer.post.chain.tollPass exampleOwnerKey).map TollPass.nameHash =
      some aliceHash := by
    decide +kernel
  rw [hpass] at hhash
  rw [Option.some.inj hhash] at hrecord
  have halice : (exampleAnswer.post.chain.nameRecord aliceHash).map
      (fun record => record.labelBytes.take record.labelLen) = some (JsText.utf8 "alice".toList) := by
    decide +kernel
  rw [hrecord] at halice
  exact absurd (hlabel.symm.trans (Option.some.inj halice)) (by decide +kernel)

end Ddns.Passports
