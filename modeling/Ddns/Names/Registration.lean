import Ddns.Names.Text
import Ddns.Names.Program
import Ddns.Lib.Js

/-!
# Registering a name

The gateway parses a name and plans the commands that register it (`names_registration.ts`); the
command line turns each of them into an instruction of the names program (`names.ts`). Both
normalize the texts they are given, and so does the program. A definition without a docstring is the
item of the source with the same words in its name.
-/

namespace Ddns.Names.Registration

open Tx
open JsText (LowerCase rdropWhile_of_suffix suffix_dropWhile trim_of_all join_concat)

/-! ## Texts -/

def normalizeDnsName (lc : LowerCase) (input : Text) : Text :=
  (lc.toLowerCase (JsText.trim input)).rdropWhile (· = '.')

/-- `[a-z0-9]` -/
def isAlphanumeric (c : Char) : Bool := ('a' ≤ c && c ≤ 'z') || ('0' ≤ c && c ≤ '9')

/-- `^[a-z0-9](?:[a-z0-9-]{0,30}[a-z0-9])?$` -/
def isValidLabel : Text → Bool
  | [] => false
  | [c] => isAlphanumeric c
  | c :: rest =>
    isAlphanumeric c && decide (rest.dropLast.length ≤ 30) && rest.dropLast.all isLabelChar &&
      rest.getLast?.any isAlphanumeric

inductive NamesRegistrationMode where
  | premium
  | subdomain
  deriving DecidableEq, Repr

/-- What `splitDnsName` returns. -/
structure Parsed where
  mode : NamesRegistrationMode
  label : Text
  parent : Option Text
  deriving DecidableEq, Repr

/-- What `splitDnsName` throws. -/
inductive SplitError where
  | nameMustEndWithDns
  | invalidPremiumLabel
  | invalidSubdomainLabel
  deriving DecidableEq, Repr

/-- `dns` -/
def dns : Text := ['d', 'n', 's']

def splitDnsName (lc : LowerCase) (name : Text) : Except SplitError Parsed :=
  let parts := (normalizeDnsName lc name).splitOn '.'
  if parts.length < 2 ∨ parts.getLast? ≠ some dns then .error .nameMustEndWithDns
  else match parts with
    | [] => .error .nameMustEndWithDns
    | [label, _] =>
      if isValidLabel label then .ok ⟨.premium, label, none⟩ else .error .invalidPremiumLabel
    | label :: rest =>
      if isValidLabel label then .ok ⟨.subdomain, label, some (JsText.join ['.'] rest)⟩
      else .error .invalidSubdomainLabel

/-! ## Addresses -/

/-- The seeds of an address of the program. -/
inductive Pda where
  | namesConfig
  | premiumConfig
  | premium (nameHash : Hash)
  | parentPolicy (nameHash : Hash)
  | premiumNftMint (nameHash : Hash)
  | sub (parentHash labelHash : Hash)
  | subNftMint (parentHash labelHash : Hash)
  | nftAuthority
  | nftCustodyAuthority
  | primary (owner : Pubkey)
  deriving DecidableEq, Repr

/-- What an address is to an instruction. -/
inductive Role where
  | config
  | premiumConfig
  | premiumName
  | parentPolicy
  | subName
  | nftMint
  | nftAuthority
  | nftCustodyAuthority
  | primary
  deriving DecidableEq, Repr

def awaitableSha256 (dep : Deployment) (input : Text) : Hash := dep.sha256 (JsText.utf8 input)

/-- The addresses that `derivePdas` finds for a parsed name. -/
def pdasOf (dep : Deployment) (normalized : Text) (parsed : Parsed) : List (Role × Pda) :=
  match parsed.mode with
  | .premium =>
    let nameHash := awaitableSha256 dep normalized
    [(.config, .namesConfig), (.premiumName, .premium nameHash),
      (.parentPolicy, .parentPolicy nameHash), (.nftMint, .premiumNftMint nameHash)]
  | .subdomain =>
    let parentHash := awaitableSha256 dep (parsed.parent.getD [])
    let labelHash := awaitableSha256 dep parsed.label
    [(.config, .namesConfig), (.subName, .sub parentHash labelHash),
      (.nftMint, .subNftMint parentHash labelHash), (.nftCustodyAuthority, .nftCustodyAuthority)]

def derivePdas (lc : LowerCase) (dep : Deployment) (name : Text) (walletPubkey : Option Pubkey) :
    Except SplitError (List (Role × Pda)) := do
  let normalized := normalizeDnsName lc name
  let parsed ← splitDnsName lc normalized
  return pdasOf dep normalized parsed ++
    walletPubkey.toList.map fun owner => (.primary, .primary owner)

/-- Whether there is an account at an address. -/
def Pda.occupied (dep : Deployment) (st : State) : Pda → Bool
  | .namesConfig => st.config.isSome
  | .premiumConfig => st.premiumConfig.isSome
  | .premium nameHash => (st.premium nameHash).isSome
  | .parentPolicy nameHash => (st.policy nameHash).isSome
  | .premiumNftMint nameHash => (st.mints (dep.premiumNftMint nameHash)).isSome
  | .sub parentHash labelHash => (st.sub parentHash labelHash).isSome
  | .subNftMint parentHash labelHash => (st.mints (dep.subNftMint parentHash labelHash)).isSome
  | .nftAuthority => false
  | .nftCustodyAuthority => false
  | .primary owner => (st.primary owner).isSome

/-- What the account of a registered name is called. -/
def NamesRegistrationMode.role : NamesRegistrationMode → Role
  | .premium => .premiumName
  | .subdomain => .subName

/-- `available` of `getNamesAvailability`, for a program that is deployed. -/
def getNamesAvailability (lc : LowerCase) (dep : Deployment) (st : State) (rawName : Text)
    (walletPubkey : Option Pubkey) : Except SplitError Bool := do
  let name := normalizeDnsName lc rawName
  let parsed ← splitDnsName lc name
  let pdas ← derivePdas lc dep name walletPubkey
  return Pda.occupied dep st .namesConfig &&
    (pdas.lookup parsed.mode.role).any fun pda => !pda.occupied dep st

/-! ## Plans -/

/-- A command of the command line, with its own arguments. -/
inductive Command where
  | buyPremium (name : Text)
  | issuePremiumNft (name : Text)
  | claimSub (label parent : Text)
  | issueSubNft (label parent : Text)
  | setPrimary (name : Text)
  deriving DecidableEq, Repr

structure NamesRegisterRequest where
  name : Text
  setPrimary : Option Bool
  deriving DecidableEq, Repr

structure NamesRegistrationPlan where
  name : Text
  mode : NamesRegistrationMode
  label : Text
  parent : Option Text
  commandArgs : List Command
  deriving DecidableEq, Repr

/-- `user.dns` -/
def userDns : Text := ['u', 's', 'e', 'r', '.', 'd', 'n', 's']

/-- The parent of a planned command, where an empty one counts as missing. -/
def parentArg (parent : Option Text) : Text :=
  match parent with
  | none => userDns
  | some p => if p = [] then userDns else p

def buildRegistrationPlan (lc : LowerCase) (input : NamesRegisterRequest) :
    Except SplitError NamesRegistrationPlan := do
  let name := normalizeDnsName lc input.name
  let parsed ← splitDnsName lc name
  let commands := match parsed.mode with
    | .premium => [.buyPremium name, .issuePremiumNft name]
    | .subdomain =>
      [.claimSub parsed.label (parentArg parsed.parent),
        .issueSubNft parsed.label (parentArg parsed.parent)]
  let primary := if input.setPrimary = some false then [] else [.setPrimary name]
  return {
    name, mode := parsed.mode, label := parsed.label, parent := parsed.parent,
    commandArgs := commands ++ primary }

/-! ## The command line -/

namespace Cli

def normalizeFullName (lc : LowerCase) (name : Text) : Text := normalizeDnsName lc name

def normalizeLabel (lc : LowerCase) (label : Text) : Text := lc.toLowerCase (JsText.trim label)

def hashName (lc : LowerCase) (dep : Deployment) (name : Text) : Hash :=
  dep.sha256 (JsText.utf8 (normalizeFullName lc name))

def hashLabel (lc : LowerCase) (dep : Deployment) (label : Text) : Hash :=
  dep.sha256 (JsText.utf8 (normalizeLabel lc label))

def hashSubdomainName (dep : Deployment) (parentHash labelHash : Hash) : Hash :=
  dep.sha256 (toBytes parentHash ++ toBytes labelHash)

/-- An instruction with the program's addresses among its accounts. -/
structure Call where
  instr : Instr
  accounts : List (Role × Pda)

def buyPremium (lc : LowerCase) (dep : Deployment) (payer : Signer) (name : Text) : Call :=
  let name := normalizeFullName lc name
  let nameHash := hashName lc dep name
  { instr := .purchasePremium payer name nameHash
    accounts := [(.config, .namesConfig), (.premiumConfig, .premiumConfig),
      (.premiumName, .premium nameHash), (.parentPolicy, .parentPolicy nameHash),
      (.primary, .primary payer.key)] }

def issuePremiumNft (lc : LowerCase) (dep : Deployment) (payer : Signer) (name : Text) : Call :=
  let name := normalizeFullName lc name
  let nameHash := hashName lc dep name
  { instr := .issuePremiumNft payer nameHash
    accounts := [(.premiumName, .premium nameHash), (.nftMint, .premiumNftMint nameHash),
      (.nftAuthority, .nftAuthority)] }

def claimSub (lc : LowerCase) (dep : Deployment) (payer : Signer) (label parent : Text) : Call :=
  let parent := normalizeFullName lc parent
  let label := normalizeLabel lc label
  let parentHash := hashName lc dep parent
  let labelHash := hashLabel lc dep label
  { instr := .claimSubdomain payer parent label parentHash labelHash
    accounts := [(.config, .namesConfig), (.subName, .sub parentHash labelHash),
      (.primary, .primary payer.key)] }

def issueSubNft (lc : LowerCase) (dep : Deployment) (payer : Signer) (label parent : Text) :
    Call :=
  let parent := normalizeFullName lc parent
  let label := normalizeLabel lc label
  let parentHash := hashName lc dep parent
  let labelHash := hashLabel lc dep label
  { instr := .issueSubdomainNft payer parentHash labelHash
    accounts := [(.subName, .sub parentHash labelHash),
      (.nftMint, .subNftMint parentHash labelHash), (.nftAuthority, .nftAuthority),
      (.nftCustodyAuthority, .nftCustodyAuthority)] }

def setPrimary (lc : LowerCase) (dep : Deployment) (payer : Signer) (name : Text) : Call :=
  let name := normalizeFullName lc name
  let nameHash := hashName lc dep name
  if '.' :: userDns <:+ name then
    -- The parent is `user.dns`, whatever stands between it and the first label.
    let label := (name.splitOn '.').headD []
    let parentHash := hashName lc dep userDns
    let labelHash := hashLabel lc dep label
    { instr := .setPrimaryName payer none (some (parentHash, labelHash))
        (hashSubdomainName dep parentHash labelHash) 2
      accounts := [(.primary, .primary payer.key), (.subName, .sub parentHash labelHash)] }
  else
    { instr := .setPrimaryName payer (some nameHash) none nameHash 1
      accounts := [(.primary, .primary payer.key), (.premiumName, .premium nameHash)] }

/-- What a command calls. -/
def call (lc : LowerCase) (dep : Deployment) (payer : Signer) : Command → Call
  | .buyPremium name => buyPremium lc dep payer name
  | .issuePremiumNft name => issuePremiumNft lc dep payer name
  | .claimSub label parent => claimSub lc dep payer label parent
  | .issueSubNft label parent => issueSubNft lc dep payer label parent
  | .setPrimary name => setPrimary lc dep payer name

/-- The program's addresses that the commands of a plan use. -/
def planAccounts (lc : LowerCase) (dep : Deployment) (payer : Signer) (commands : List Command) :
    List (Role × Pda) :=
  commands.flatMap fun c => (call lc dep payer c).accounts

/-- The commands in order, up to the first that fails (`executeRegistrationPlan`). -/
def run (lc : LowerCase) (dep : Deployment) (payer : Signer) (clock : Clock) (st : State)
    (commands : List Command) : Result NamesError State :=
  commands.foldlM (fun st c => execute dep clock st (call lc dep payer c).instr) st

end Cli

/-! ## What normalization leaves -/

/-- A text in which `toLowerCase` changes nothing. -/
def Plain (lc : LowerCase) (t : Text) : Prop := ∀ c ∈ t, lc.hasLowerCase c = false

section Texts

variable {lc : LowerCase} {t label parent : Text}

theorem Plain.sublist {u : Text} (h : Plain lc t) (hs : u.Sublist t) : Plain lc u :=
  fun c hc => h c (hs.subset hc)

theorem plain_normalizeDnsName (lc : LowerCase) (input : Text) :
    Plain lc (normalizeDnsName lc input) := by
  intro c hc
  exact lc.hasLowerCase_of_mem _ c ((List.rdropWhile_prefix _ _).subset hc)

theorem s_suffix (hs : dns <:+ t) : ['s'] <:+ t := by
  have hdns : ['s'] <:+ dns := ⟨['d', 'n'], rfl⟩
  exact hdns.trans hs

theorem head_dns (c : Char) (hc : c ∈ dns.head?) : JsText.isWhitespace c = false := by
  rw [← Option.some.inj hc]
  decide

/-- Of a plain text that ends in `dns`, normalization drops the leading white space. -/
theorem normalizeDnsName_of_plain (hp : Plain lc t) (hs : dns <:+ t) :
    normalizeDnsName lc t = t.dropWhile JsText.isWhitespace := by
  have hdns : dns <:+ t.dropWhile JsText.isWhitespace := suffix_dropWhile hs head_dns
  have htrim : JsText.trim t = t.dropWhile JsText.isWhitespace :=
    rdropWhile_of_suffix (s_suffix hdns) (by decide)
  unfold normalizeDnsName
  rw [htrim, lc.toLowerCase_eq _ (hp.sublist (List.dropWhile_sublist _))]
  exact rdropWhile_of_suffix (s_suffix hdns) (by decide)

/-- Normalizing it again changes nothing. -/
theorem normalizeDnsName_idem (hp : Plain lc t) (hs : dns <:+ t) :
    normalizeDnsName lc (normalizeDnsName lc t) = normalizeDnsName lc t := by
  have hdns : dns <:+ t.dropWhile JsText.isWhitespace := suffix_dropWhile hs head_dns
  rw [normalizeDnsName_of_plain hp hs, normalizeDnsName_of_plain
    (hp.sublist (List.dropWhile_sublist _)) hdns, List.dropWhile_idempotent]

/-! ## Labels -/

theorem isAlphanumeric_iff {c : Char} :
    isAlphanumeric c = true ↔ isLabelChar c = true ∧ c ≠ '-' := by
  have hdash : isAlphanumeric '-' = false := by decide
  simp only [isLabelChar, Bool.or_eq_true, decide_eq_true_eq]
  constructor
  · intro h
    refine ⟨.inl (by simpa [isAlphanumeric] using h), ?_⟩
    rintro rfl
    rw [hdash] at h
    cases h
  · rintro ⟨h | rfl, hne⟩
    · simpa [isAlphanumeric] using h
    · exact absurd rfl hne

/-- The labels of the gateway are the premium labels of the program. -/
theorem isValidLabel_iff : isValidLabel label = true ↔ validatePremiumLabel label = .ok () := by
  unfold validatePremiumLabel
  rw [validateLabelFrom_eq_ok]
  match label with
  | [] => simp [isValidLabel]
  | [c] => simp [isValidLabel, isAlphanumeric_iff, and_comm]
  | c :: d :: rest =>
    have hvalid : isValidLabel (c :: d :: rest) = (isAlphanumeric c &&
        decide ((d :: rest).dropLast.length ≤ 30) && (d :: rest).dropLast.all isLabelChar &&
          (d :: rest).getLast?.any isAlphanumeric) := rfl
    rw [hvalid]
    obtain hnil | ⟨mid, last, hlast⟩ := List.eq_nil_or_concat' (d :: rest)
    · cases hnil
    · rw [hlast, List.dropLast_concat, List.getLast?_concat, ← List.cons_append,
        List.getLast?_concat]
      simp only [List.cons_append, List.head?_cons, List.all_cons, List.all_append, List.all_nil,
        List.length_cons, List.length_append, List.length_nil, Bool.and_eq_true, Option.any_some,
        decide_eq_true_eq, isAlphanumeric_iff, ne_eq, Option.some.injEq, Bool.and_true]
      constructor
      · rintro ⟨⟨⟨⟨hc, hcd⟩, hlen⟩, hmid⟩, hl, hld⟩
        exact ⟨⟨by omega, by omega⟩, ⟨hcd, hld⟩, hc, hmid, hl⟩
      · rintro ⟨⟨-, hlen⟩, ⟨hcd, hld⟩, hc, hmid, hl⟩
        exact ⟨⟨⟨⟨hc, hcd⟩, by omega⟩, hmid⟩, hl, hld⟩

/-- A character of a label is no white space and has no other lower case. -/
theorem isLabelChar_plain {c : Char} (hc : isLabelChar c = true ∨ c = '.') :
    JsText.isWhitespace c = false ∧ Names.isWhitespace c = false ∧ c.isUpper = false ∧
      c.toNat < 128 := by
  have hnat : (97 ≤ c.toNat ∧ c.toNat ≤ 122) ∨ (48 ≤ c.toNat ∧ c.toNat ≤ 57) ∨ c.toNat = 45 ∨
      c.toNat = 46 := by
    rcases hc with hc | rfl
    · simp only [isLabelChar, Bool.or_eq_true, Bool.and_eq_true, decide_eq_true_eq] at hc
      rcases hc with (hc | hc) | rfl
      · exact .inl hc
      · exact .inr (.inl hc)
      · decide
    · decide
  have hupper : c.isUpper = false := by
    rw [← Bool.not_eq_true, JsText.isUpper_iff]
    omega
  refine ⟨?_, ?_, hupper, ?_⟩
  · simp only [JsText.isWhitespace, Bool.or_eq_false_iff, Bool.and_eq_false_iff,
      decide_eq_false_iff_not]
    omega
  · simp only [Names.isWhitespace, Bool.or_eq_false_iff, Bool.and_eq_false_iff,
      decide_eq_false_iff_not]
    omega
  · omega

theorem toAsciiLowercase_of_all (h : ∀ c ∈ t, c.isUpper = false) : toAsciiLowercase t = t := by
  refine (List.map_congr_left fun c hc => ?_).trans (List.map_id t)
  exact dif_neg (of_decide_eq_false (h c hc))

theorem label_chars (hv : isValidLabel label = true) : ∀ c ∈ label, isLabelChar c = true :=
  List.all_eq_true.1 (validateLabelFrom_eq_ok.1 (isValidLabel_iff.1 hv)).2.2

/-- A label stays as it is in the command line. -/
theorem normalizeLabel_of_valid (lc : LowerCase) (hv : isValidLabel label = true) :
    Cli.normalizeLabel lc label = label := by
  have hplain := fun c hc => isLabelChar_plain (.inl (label_chars hv c hc))
  have htrim : JsText.trim label = label := trim_of_all fun c hc => (hplain c hc).1
  unfold Cli.normalizeLabel
  rw [htrim]
  refine lc.toLowerCase_eq label fun c hc => ?_
  rw [lc.hasLowerCase_ascii c (hplain c hc).2.2.2]
  exact (hplain c hc).2.2.1

/-- The program takes a label of the gateway if it is long enough. -/
theorem program_normalizeLabel (hv : isValidLabel label = true) :
    Names.normalizeLabel label = .ok label ↔ 3 ≤ label.length := by
  have hplain := fun c hc => isLabelChar_plain (.inl (label_chars hv c hc))
  have htrim : Names.trim label = label := trim_of_all fun c hc => (hplain c hc).2.1
  have hlower : toAsciiLowercase label = label :=
    toAsciiLowercase_of_all fun c hc => (hplain c hc).2.2.1
  obtain ⟨⟨-, hmax⟩, hrest⟩ := validateLabelFrom_eq_ok.1 (isValidLabel_iff.1 hv)
  unfold Names.normalizeLabel
  rw [htrim, hlower]
  simp only [bind_eq_ok, exists_unit, pure_eq_ok, validateLabel, validateLabelFrom_eq_ok, and_true]
  exact ⟨fun h => h.1.1, fun h => ⟨⟨h, hmax⟩, hrest⟩⟩

/-- And it leaves it as it is. -/
theorem program_label_eq {l : Text} (hv : isValidLabel label = true)
    (h : Names.normalizeLabel label = .ok l) : l = label := by
  have hplain := fun c hc => isLabelChar_plain (.inl (label_chars hv c hc))
  have htrim : Names.trim label = label := trim_of_all fun c hc => (hplain c hc).2.1
  have hlower : toAsciiLowercase label = label :=
    toAsciiLowercase_of_all fun c hc => (hplain c hc).2.2.1
  unfold Names.normalizeLabel at h
  rw [htrim, hlower] at h
  simp only [bind_eq_ok, exists_unit, pure_eq_ok] at h
  exact h.2.symm

/-! ## Names in pieces -/

/-- An accepted name: a label, a dot and the rest. -/
structure Splits (name label parent : Text) : Prop where
  eq : name = label ++ '.' :: parent
  label : isValidLabel label = true
  suffix : dns <:+ parent

theorem no_dot (hv : isValidLabel label = true) : '.' ∉ label := by
  intro hmem
  have hdot := label_chars hv '.' hmem
  revert hdot
  decide

/-- **What the gateway accepts**, and how it splits it. -/
theorem splitDnsName_ok {name : Text} {parsed : Parsed} (h : splitDnsName lc name = .ok parsed) :
    ∃ label parent, Splits (normalizeDnsName lc name) label parent ∧
      parsed = if parent = dns then ⟨.premium, label, none⟩
        else ⟨.subdomain, label, some parent⟩ := by
  have hjoin : ['.'].intercalate ((normalizeDnsName lc name).splitOn '.') =
      normalizeDnsName lc name := List.intercalate_splitOn '.'
  unfold splitDnsName at h
  dsimp only at h
  split at h
  · cases h
  · next hend =>
    rw [not_or, not_lt, ne_eq, not_not] at hend
    revert h hend hjoin
    generalize (normalizeDnsName lc name).splitOn '.' = parts
    intro hjoin hend h
    match parts, hend, h with
    | [label, last], hend, h =>
      have hlast : last = dns := by simpa using hend.2
      subst hlast
      dsimp only at h
      split at h
      · next hv =>
        cases h
        refine ⟨label, dns, ⟨?_, hv, List.suffix_refl _⟩, rfl⟩
        rw [← hjoin]
        simp
      · cases h
    | label :: second :: third :: rest, hend, h =>
      dsimp only at h
      split at h
      · next hv =>
        cases h
        obtain hnil | ⟨init, last, hrest⟩ := List.eq_nil_or_concat' (third :: rest)
        · cases hnil
        · rw [hrest] at hend hjoin ⊢
          have hlast : last = dns := by
            rw [← List.cons_append, ← List.cons_append, List.getLast?_concat] at hend
            exact Option.some.inj hend.2
          subst hlast
          have hparent : JsText.join ['.'] (second :: (init ++ [dns])) =
              JsText.join ['.'] (second :: init) ++ '.' :: dns := by
            rw [← List.cons_append]
            exact join_concat dns (by simp)
          refine ⟨label, JsText.join ['.'] (second :: (init ++ [dns])), ⟨?_, hv, ?_⟩, ?_⟩
          · rw [← hjoin, List.intercalate_cons_of_ne_nil (by simp)]
            simp [JsText.join]
          · rw [hparent]
            exact (List.suffix_cons '.' dns).trans (List.suffix_append ..)
          · have hne : JsText.join ['.'] (second :: (init ++ [dns])) ≠ dns := by
              intro heq
              have hdot : '.' ∈ dns := by
                rw [← heq, hparent]
                simp
              revert hdot
              decide
            rw [if_neg hne]
      · cases h

variable {name : Text}

/-- An accepted name stays as it is. -/
theorem Splits.normalized (hs : Splits name label parent) (hp : Plain lc name) :
    normalizeDnsName lc name = name := by
  have hdns : dns <:+ name := by
    rw [hs.eq]
    exact hs.suffix.trans ((List.suffix_cons '.' parent).trans (List.suffix_append ..))
  rw [normalizeDnsName_of_plain hp hdns, hs.eq]
  cases hl : label with
  | nil =>
    have hv := hs.label
    rw [hl] at hv
    cases hv
  | cons c rest =>
    have hc := label_chars hs.label c (by simp [hl])
    rw [List.cons_append]
    exact List.dropWhile_cons_of_neg (by simp [(isLabelChar_plain (.inl hc)).1])

/-- Where two names have one normal form, they are split alike. -/
theorem splitDnsName_congr {name' : Text} (h : normalizeDnsName lc name = normalizeDnsName lc name') :
    splitDnsName lc name = splitDnsName lc name' := by
  unfold splitDnsName
  rw [h]

/-- The program takes a premium name of the gateway. -/
theorem program_normalizeFullName (hs : Splits name label dns) :
    Names.normalizeFullName name = .ok name ∧ premiumLabel name = .ok label := by
  have hchars : ∀ c ∈ name, isLabelChar c = true ∨ c = '.' := by
    intro c hc
    rw [hs.eq] at hc
    rcases List.mem_append.1 hc with hc | hc
    · exact .inl (label_chars hs.label c hc)
    · have hdns : (('.' :: dns).all fun c => isLabelChar c = true ∨ c = '.') = true := by decide
      exact of_decide_eq_true (List.all_eq_true.1 hdns c hc)
  have hplain := fun c hc => isLabelChar_plain (hchars c hc)
  have htrim : Names.trim name = name := trim_of_all fun c hc => (hplain c hc).2.1
  have hlower : toAsciiLowercase name = name :=
    toAsciiLowercase_of_all fun c hc => (hplain c hc).2.2.1
  have hend : name.rdropWhile (· = '.') = name := by
    refine rdropWhile_of_suffix (c := 's') (s_suffix ?_) (by decide)
    rw [hs.eq]
    exact (List.suffix_cons '.' dns).trans (List.suffix_append ..)
  have hlen : len name ≤ 253 := by
    obtain ⟨⟨-, hmax⟩, -, hall⟩ := validateLabelFrom_eq_ok.1 (isValidLabel_iff.1 hs.label)
    have hsum : len name = len label + 4 := by
      rw [hs.eq, len, List.map_append, List.sum_append]
      rfl
    have hlabel := len_of_all hall
    omega
  have hdots : ¬['.', '.'] <:+: name := by
    rintro ⟨u, v, huv⟩
    have hcount := congrArg (List.count '.') huv
    have hlabel : label.count '.' = 0 := List.count_eq_zero.2 (no_dot hs.label)
    have hdns : dns.count '.' = 0 := by decide
    rw [hs.eq] at hcount
    simp only [List.count_append, List.count_cons_self, List.count_nil, hlabel, hdns] at hcount
    omega
  have hne : name ≠ [] := by simp [hs.eq]
  constructor
  · unfold Names.normalizeFullName
    simp only [bind_eq_ok, require_eq_ok, exists_unit, pure_eq_ok, htrim, hlower, hend]
    exact ⟨⟨hne, hlen⟩, hdots, trivial⟩
  · exact premiumLabel_eq_ok.2 ⟨hs.eq, no_dot hs.label⟩

end Texts

end Ddns.Names.Registration
