import Ddns.Names.Admission

/-!
# Planned names

The gateway plans the registration of each name that it can split. Its labels are the premium labels
of the program, but the program leaves those of up to four characters to its treasury and to the
auctions, takes labels of subdomains from three characters on, and knows one parent zone. So a plan
goes through exactly for names that are long enough and whose parent is the zone (`planLaw_iff`).
-/

namespace Ddns.Names

open Tx Registration
open JsText (LowerCase split_unique)

/-- **What a plan promises**: the derived addresses are those of its instructions, no instruction is
refused for its name, and a name that is reported as available is sold. -/
structure PlanLaw (lc : LowerCase) (dep : Deployment) (zone : Text) (payer : Signer)
    (input : NamesRegisterRequest) (plan : NamesRegistrationPlan) : Prop where
  pdas : ∀ wallet, (∀ k ∈ wallet, k = payer.key) →
    ∃ derived, derivePdas lc dep plan.name wallet = .ok derived ∧ ∀ role pda,
      (role, pda) ∈ derived → (role, pda) ∈ Cli.planAccounts lc dep payer plan.commandArgs ∧
        ∀ pda', (role, pda') ∈ Cli.planAccounts lc dep payer plan.commandArgs → pda' = pda
  admitted : ∀ clock st, Deployed zone payer.key st →
    Admitted (Cli.run lc dep payer clock st plan.commandArgs)
  available : ∀ clock st wallet, Deployed zone payer.key st → OnSale payer.key st →
    getNamesAvailability lc dep st input.name wallet = .ok true →
      ∀ c ∈ plan.commandArgs.head?,
        ∃ st', execute dep clock st (Cli.call lc dep payer c).instr = .ok st'

/-- The parent of a subdomain is the zone, by name and by hash, and the zone is `user.dns` if the
name is to be the primary one. -/
structure InZone (lc : LowerCase) (dep : Deployment) (zone : Text) (primary : Prop)
    (name parent : Text) : Prop where
  taken : normalizeFullName (Cli.normalizeFullName lc parent) = .ok zone
  called : hashName dep (Cli.normalizeFullName lc parent) = hashName dep zone
  derived : hashName dep parent = hashName dep zone
  primary : primary → '.' :: userDns <:+ name ∧ hashName dep zone = hashName dep userDns

/-- Premium names of five characters on, and subdomains of the zone of three. -/
def Sellable (lc : LowerCase) (dep : Deployment) (zone : Text) (primary : Prop) (name : Text) :
    Prop :=
  ∃ label parent, name = label ++ '.' :: parent ∧ '.' ∉ label ∧
    (parent = dns → 5 ≤ label.length) ∧
    (parent ≠ dns → 3 ≤ label.length ∧ InZone lc dep zone primary name parent)

/-! ## What a plan calls -/

section Calls

variable {lc : LowerCase} {dep : Deployment} {payer : Signer} {zone : Text}

/-- A plan is for a name in two pieces, and all its texts are pieces of that name. -/
theorem buildRegistrationPlan_ok {input : NamesRegisterRequest} {plan : NamesRegistrationPlan}
    (h : buildRegistrationPlan lc input = .ok plan) :
    ∃ label parent, Splits (normalizeDnsName lc plan.name) label parent ∧
      plan.name = normalizeDnsName lc input.name ∧
      splitDnsName lc plan.name = .ok (if parent = dns then ⟨.premium, label, none⟩
        else ⟨.subdomain, label, some parent⟩) ∧
      plan.commandArgs = (if parent = dns then [.buyPremium plan.name, .issuePremiumNft plan.name]
        else [.claimSub label parent, .issueSubNft label parent]) ++
          if input.setPrimary = some false then [] else [.setPrimary plan.name] := by
  unfold buildRegistrationPlan at h
  cases hsplit : splitDnsName lc (normalizeDnsName lc input.name) with
  | error e =>
    simp only [hsplit] at h
    cases h
  | ok parsed =>
    obtain ⟨label, parent, hs, hparsed⟩ := splitDnsName_ok hsplit
    simp only [hsplit] at h
    cases h
    refine ⟨label, parent, hs, rfl, by rw [← hparsed]; exact hsplit, ?_⟩
    subst hparsed
    by_cases hp : parent = dns
    · simp only [if_pos hp]
    · have hne : parent ≠ [] := by
        rintro rfl
        exact absurd (List.suffix_nil.1 hs.suffix) (by decide)
      simp only [if_neg hp, parentArg, if_neg hne]

variable {n label parent : Text} {parsed : Parsed}
  (hs : Splits (normalizeDnsName lc n) label parent)

include hs

theorem Registration.Splits.stable : normalizeDnsName lc (normalizeDnsName lc n) = normalizeDnsName lc n :=
  hs.normalized (plain_normalizeDnsName lc n)

/-- The parent as the command line hashes it. -/
theorem Registration.Splits.hash_parent : Cli.hashName lc dep (Cli.normalizeFullName lc parent) =
    hashName dep (Cli.normalizeFullName lc parent) := by
  have hp : Plain lc parent := by
    apply (plain_normalizeDnsName lc n).sublist
    rw [hs.eq]
    exact (List.sublist_cons_self '.' parent).trans (List.sublist_append_right ..)
  have hidem : normalizeDnsName lc (normalizeDnsName lc parent) = normalizeDnsName lc parent :=
    normalizeDnsName_idem hp hs.suffix
  unfold Cli.hashName Cli.normalizeFullName
  rw [hidem]
  rfl

theorem call_buyPremium : Cli.call lc dep payer (.buyPremium n) =
    { instr := .purchasePremium payer (normalizeDnsName lc n)
        (hashName dep (normalizeDnsName lc n))
      accounts := [(.config, .namesConfig), (.premiumConfig, .premiumConfig),
        (.premiumName, .premium (hashName dep (normalizeDnsName lc n))),
        (.parentPolicy, .parentPolicy (hashName dep (normalizeDnsName lc n))),
        (.primary, .primary payer.key)] } := by
  simp only [Cli.call, Cli.buyPremium, Cli.hashName, Cli.normalizeFullName, hs.stable]
  rfl

theorem call_issuePremiumNft : Cli.call lc dep payer (.issuePremiumNft n) =
    { instr := .issuePremiumNft payer (hashName dep (normalizeDnsName lc n))
      accounts := [(.premiumName, .premium (hashName dep (normalizeDnsName lc n))),
        (.nftMint, .premiumNftMint (hashName dep (normalizeDnsName lc n))),
        (.nftAuthority, .nftAuthority)] } := by
  simp only [Cli.call, Cli.issuePremiumNft, Cli.hashName, Cli.normalizeFullName, hs.stable]
  rfl

theorem call_claimSub : Cli.call lc dep payer (.claimSub label parent) =
    { instr := .claimSubdomain payer (Cli.normalizeFullName lc parent) label
        (hashName dep (Cli.normalizeFullName lc parent)) (hashLabel dep label)
      accounts := [(.config, .namesConfig),
        (.subName, .sub (hashName dep (Cli.normalizeFullName lc parent)) (hashLabel dep label)),
        (.primary, .primary payer.key)] } := by
  have hlabel := normalizeLabel_of_valid lc hs.label
  simp only [Cli.call, Cli.claimSub, hs.hash_parent, Cli.hashLabel, hlabel]
  rfl

theorem call_issueSubNft : Cli.call lc dep payer (.issueSubNft label parent) =
    { instr := .issueSubdomainNft payer (hashName dep (Cli.normalizeFullName lc parent))
        (hashLabel dep label)
      accounts := [
        (.subName, .sub (hashName dep (Cli.normalizeFullName lc parent)) (hashLabel dep label)),
        (.nftMint, .subNftMint (hashName dep (Cli.normalizeFullName lc parent))
          (hashLabel dep label)),
        (.nftAuthority, .nftAuthority), (.nftCustodyAuthority, .nftCustodyAuthority)] } := by
  have hlabel := normalizeLabel_of_valid lc hs.label
  simp only [Cli.call, Cli.issueSubNft, hs.hash_parent, Cli.hashLabel, hlabel]
  rfl

/-- The primary name is a premium name unless the name ends in `.user.dns`. -/
theorem call_setPrimary_premium (hne : ¬ '.' :: userDns <:+ normalizeDnsName lc n) :
    Cli.call lc dep payer (.setPrimary n) =
      { instr := .setPrimaryName payer (some (hashName dep (normalizeDnsName lc n))) none
          (hashName dep (normalizeDnsName lc n)) kindPremium
        accounts := [(.primary, .primary payer.key),
          (.premiumName, .premium (hashName dep (normalizeDnsName lc n)))] } := by
  simp only [Cli.call, Cli.setPrimary, Cli.hashName, Cli.normalizeFullName, hs.stable, if_neg hne]
  rfl

theorem call_setPrimary_sub (hend : '.' :: userDns <:+ normalizeDnsName lc n) :
    Cli.call lc dep payer (.setPrimary n) =
      { instr := .setPrimaryName payer none (some (hashName dep userDns, hashLabel dep label))
          (subdomainNameHash dep (hashName dep userDns) (hashLabel dep label)) kindSubdomain
        accounts := [(.primary, .primary payer.key),
          (.subName, .sub (hashName dep userDns) (hashLabel dep label))] } := by
  have huser : normalizeDnsName lc userDns = userDns := by
    have hp : Plain lc userDns := by
      intro c hc
      have hall : (userDns.all fun c => c.toNat < 128 ∧ c.isUpper = false) = true := by decide
      have hascii := of_decide_eq_true (List.all_eq_true.1 hall c hc)
      rw [lc.hasLowerCase_ascii c hascii.1]
      exact hascii.2
    exact normalizeDnsName_of_plain hp ⟨['u', 's', 'e', 'r', '.'], rfl⟩
  have hhead : ((normalizeDnsName lc n).splitOn '.').headD [] = label := by
    rw [hs.eq, List.splitOn_append_cons_self, List.splitOn_eq_singleton (no_dot hs.label)]
    rfl
  have hlabel := normalizeLabel_of_valid lc hs.label
  simp only [Cli.call, Cli.setPrimary, Cli.hashName, Cli.hashLabel, Cli.normalizeFullName, hhead,
    huser, hlabel, if_pos hend]
  rfl

theorem derivePdas_eq (dep : Deployment) (hsplit : splitDnsName lc n = .ok parsed)
    (wallet : Option Pubkey) :
    derivePdas lc dep n wallet = .ok (pdasOf dep (normalizeDnsName lc n) parsed ++
      wallet.toList.map fun owner => (.primary, .primary owner)) := by
  have hagain : splitDnsName lc (normalizeDnsName lc n) = .ok parsed :=
    (splitDnsName_congr hs.stable).trans hsplit
  unfold derivePdas
  dsimp only
  rw [hagain]
  rfl

/-- A premium name is available if the program is set up and nobody has the name. -/
theorem available_premium {raw : Text} (hn : n = normalizeDnsName lc raw)
    (hsplit : splitDnsName lc n = .ok ⟨.premium, label, none⟩) (st : State)
    (wallet : Option Pubkey) : getNamesAvailability lc dep st raw wallet =
      .ok (st.config.isSome && !(st.premium (hashName dep (normalizeDnsName lc n))).isSome) := by
  have hpdas := derivePdas_eq hs dep hsplit wallet
  unfold getNamesAvailability
  dsimp only
  rw [← hn, hsplit]
  dsimp only [bind, Except.bind]
  rw [hpdas]
  rfl

/-- And so it is with a subdomain. -/
theorem available_sub {raw : Text} (hn : n = normalizeDnsName lc raw)
    (hsplit : splitDnsName lc n = .ok ⟨.subdomain, label, some parent⟩) (st : State)
    (wallet : Option Pubkey) : getNamesAvailability lc dep st raw wallet =
      .ok (st.config.isSome && !(st.sub (hashName dep parent) (hashLabel dep label)).isSome) := by
  have hpdas := derivePdas_eq hs dep hsplit wallet
  unfold getNamesAvailability
  dsimp only
  rw [← hn, hsplit]
  dsimp only [bind, Except.bind]
  rw [hpdas]
  rfl

end Calls

/-! ## Runs of a plan -/

section Law

variable {lc : LowerCase} {dep : Deployment} {payer : Signer} {zone n label parent : Text}
  {clock : Clock} {st : State}

theorem run_admitted_cons {c : Command} {cs : List Command}
    (h : Admitted (execute dep clock st (Cli.call lc dep payer c).instr))
    (hrest : ∀ st', execute dep clock st (Cli.call lc dep payer c).instr = .ok st' →
      Admitted (Cli.run lc dep payer clock st' cs)) :
    Admitted (Cli.run lc dep payer clock st (c :: cs)) := by
  unfold Cli.run
  rw [List.foldlM_cons]
  exact Admitted.bind h hrest

theorem run_admitted_nil : Admitted (Cli.run lc dep payer clock st []) := Admitted.pure st

/-- A premium name has one dot, so it does not end in `.user.dns`. -/
theorem premium_not_user (hs : Splits n label dns) : ¬ '.' :: userDns <:+ n := by
  intro hend
  have hcount := hend.sublist.count_le '.'
  have hlabel : label.count '.' = 0 := List.count_eq_zero.2 (no_dot hs.label)
  have huser : ('.' :: userDns).count '.' = 2 := by decide
  have hdns : ('.' :: dns).count '.' = 1 := by decide
  rw [hs.eq, List.count_append, hlabel, huser, hdns] at hcount
  omega

/-- The plan of a premium name that is long enough. -/
theorem premium_admitted (hs : Splits (normalizeDnsName lc n) label dns)
    (hlong : 5 ≤ label.length) (hd : Deployed zone payer.key st) {primary : List Command}
    (hprimary : primary = [] ∨ primary = [.setPrimary n]) :
    Admitted (Cli.run lc dep payer clock st ([.buyPremium n, .issuePremiumNft n] ++ primary)) := by
  apply run_admitted_cons
  · rw [call_buyPremium hs]
    exact purchasePremium_admitted hd hs hlong
  intro st₁ h₁
  rw [call_buyPremium hs] at h₁
  obtain ⟨p, hp, hname, howner, hmint, htransferable⟩ := purchasePremium_holds h₁
  apply run_admitted_cons
  · rw [call_issuePremiumNft hs]
    exact issuePremiumNft_admitted hp hname howner hmint htransferable
  intro st₂ h₂
  rw [call_issuePremiumNft hs] at h₂
  have hholds : HoldsPremium st₂ payer.key (hashName dep (normalizeDnsName lc n)) :=
    issuePremiumNft_holds h₂
  rcases hprimary with rfl | rfl
  · exact run_admitted_nil
  · apply run_admitted_cons
    · rw [call_setPrimary_premium hs (premium_not_user hs)]
      exact setPrimaryPremium_admitted hholds
    · intro st₃ _
      exact run_admitted_nil

/-- The plan of a subdomain of the zone that is long enough. -/
theorem sub_admitted {wanted : Prop} (hs : Splits (normalizeDnsName lc n) label parent)
    (hlong : 3 ≤ label.length) (hz : InZone lc dep zone wanted (normalizeDnsName lc n) parent)
    (hd : Deployed zone payer.key st) {primary : List Command}
    (hprimary : primary = [] ∨ wanted ∧ primary = [.setPrimary n]) :
    Admitted (Cli.run lc dep payer clock st
      ([.claimSub label parent, .issueSubNft label parent] ++ primary)) := by
  apply run_admitted_cons
  · rw [call_claimSub hs]
    exact claimSubdomain_admitted hd hz.taken ((program_normalizeLabel hs.label).2 hlong)
      hz.called.symm
  intro st₁ h₁
  rw [call_claimSub hs] at h₁
  obtain ⟨s, hsub, hparent, hlabel, howner, hmint, -⟩ := claimSubdomain_holds h₁
  have hnew : st₁.sub (hashName dep (Cli.normalizeFullName lc parent)) (hashLabel dep label) =
      some s := by
    rw [hsub, Function.update_self, Function.update_self]
  apply run_admitted_cons
  · rw [call_issueSubNft hs]
    exact issueSubdomainNft_admitted hnew hparent hlabel howner hmint
  intro st₂ h₂
  rw [call_issueSubNft hs] at h₂
  have hholds := issueSubdomainNft_holds h₂
  rcases hprimary with rfl | ⟨hwanted, rfl⟩
  · exact run_admitted_nil
  · obtain ⟨hend, huser⟩ := hz.primary hwanted
    apply run_admitted_cons
    · rw [call_setPrimary_sub hs hend]
      rw [hz.called, huser] at hholds
      exact setPrimarySub_admitted hholds
    · intro st₃ _
      exact run_admitted_nil

/-- The addresses of the wallet that the gateway knows. -/
theorem mem_wallet {wallet : Option Pubkey} {role : Role} {pda : Pda}
    (hw : ∀ k ∈ wallet, k = payer.key)
    (h : (role, pda) ∈ wallet.toList.map fun owner => (Role.primary, Pda.primary owner)) :
    role = .primary ∧ pda = .primary payer.key := by
  obtain ⟨k, hk, heq⟩ := List.mem_map.1 h
  obtain rfl := hw k (Option.mem_toList.1 hk)
  cases heq
  exact ⟨rfl, rfl⟩

/-- The gateway hashes as the program does. -/
@[simp] theorem awaitableSha256_eq (t : Text) : awaitableSha256 dep t = hashName dep t := rfl

@[simp] theorem hashLabel_eq (t : Text) : hashLabel dep t = hashName dep t := rfl

/-- The address of each role in a plan for a premium name. -/
def premiumPda (h : Hash) (owner : Pubkey) : Role → Pda
  | .premiumConfig => .premiumConfig
  | .premiumName => .premium h
  | .parentPolicy => .parentPolicy h
  | .nftMint => .premiumNftMint h
  | .nftAuthority => .nftAuthority
  | .primary => .primary owner
  | _ => .namesConfig

/-- The address of each role in a plan for a subdomain. -/
def subPda (ph lh : Hash) (owner : Pubkey) : Role → Pda
  | .subName => .sub ph lh
  | .nftMint => .subNftMint ph lh
  | .nftAuthority => .nftAuthority
  | .nftCustodyAuthority => .nftCustodyAuthority
  | .primary => .primary owner
  | _ => .namesConfig

/-- The addresses derived for a premium name are those of its plan. -/
theorem premium_pdas (hs : Splits (normalizeDnsName lc n) label dns) {primary : List Command}
    (hprimary : primary = [] ∨ primary = [.setPrimary n]) {wallet : Option Pubkey}
    (hw : ∀ k ∈ wallet, k = payer.key) {role : Role} {pda : Pda}
    (hmem : (role, pda) ∈ pdasOf dep (normalizeDnsName lc n) ⟨.premium, label, none⟩ ++
      wallet.toList.map fun owner => (Role.primary, Pda.primary owner)) :
    (role, pda) ∈ Cli.planAccounts lc dep payer ([.buyPremium n, .issuePremiumNft n] ++ primary) ∧
      ∀ pda', (role, pda') ∈ Cli.planAccounts lc dep payer
        ([.buyPremium n, .issuePremiumNft n] ++ primary) → pda' = pda := by
  -- In the plan as in what is derived, the role determines the address.
  have hplan : ∀ rp ∈ Cli.planAccounts lc dep payer ([.buyPremium n, .issuePremiumNft n] ++ primary),
      rp.2 = premiumPda (hashName dep (normalizeDnsName lc n)) payer.key rp.1 := by
    rcases hprimary with rfl | rfl
    · simp [Cli.planAccounts, call_buyPremium hs, call_issuePremiumNft hs, premiumPda]
    · simp [Cli.planAccounts, call_buyPremium hs, call_issuePremiumNft hs,
        call_setPrimary_premium hs (premium_not_user hs), premiumPda]
  have hpda : pda = premiumPda (hashName dep (normalizeDnsName lc n)) payer.key role ∧
      (role = .config ∨ role = .premiumName ∨ role = .parentPolicy ∨ role = .nftMint ∨
        role = .primary) := by
    rcases List.mem_append.1 hmem with hmem | hmem
    · simp only [pdasOf, awaitableSha256_eq, List.mem_cons, List.not_mem_nil, or_false,
        Prod.mk.injEq] at hmem
      rcases hmem with ⟨rfl, rfl⟩ | ⟨rfl, rfl⟩ | ⟨rfl, rfl⟩ | ⟨rfl, rfl⟩ <;> simp [premiumPda]
    · obtain ⟨rfl, rfl⟩ := mem_wallet hw hmem
      simp [premiumPda]
  obtain ⟨rfl, hrole⟩ := hpda
  refine ⟨?_, fun pda' h => hplan _ h⟩
  rcases hrole with rfl | rfl | rfl | rfl | rfl <;>
    simp [Cli.planAccounts, call_buyPremium hs, call_issuePremiumNft hs, premiumPda]

/-- The addresses derived for a subdomain of the zone are those of its plan. -/
theorem sub_pdas {wanted : Prop} (hs : Splits (normalizeDnsName lc n) label parent)
    (hz : InZone lc dep zone wanted (normalizeDnsName lc n) parent) {primary : List Command}
    (hprimary : primary = [] ∨ wanted ∧ primary = [.setPrimary n]) {wallet : Option Pubkey}
    (hw : ∀ k ∈ wallet, k = payer.key) {role : Role} {pda : Pda}
    (hmem : (role, pda) ∈ pdasOf dep (normalizeDnsName lc n) ⟨.subdomain, label, some parent⟩ ++
      wallet.toList.map fun owner => (Role.primary, Pda.primary owner)) :
    (role, pda) ∈ Cli.planAccounts lc dep payer
        ([.claimSub label parent, .issueSubNft label parent] ++ primary) ∧
      ∀ pda', (role, pda') ∈ Cli.planAccounts lc dep payer
        ([.claimSub label parent, .issueSubNft label parent] ++ primary) → pda' = pda := by
  have hplan : ∀ rp ∈ Cli.planAccounts lc dep payer
      ([.claimSub label parent, .issueSubNft label parent] ++ primary),
      rp.2 = subPda (hashName dep zone) (hashName dep label) payer.key rp.1 := by
    rcases hprimary with rfl | ⟨hwanted, rfl⟩
    · simp [Cli.planAccounts, call_claimSub hs, call_issueSubNft hs, subPda, hz.called]
    · obtain ⟨hend, huser⟩ := hz.primary hwanted
      simp [Cli.planAccounts, call_claimSub hs, call_issueSubNft hs, call_setPrimary_sub hs hend,
        subPda, hz.called, huser]
  have hpda : pda = subPda (hashName dep zone) (hashName dep label) payer.key role ∧
      (role = .config ∨ role = .subName ∨ role = .nftMint ∨ role = .nftCustodyAuthority ∨
        role = .primary) := by
    rcases List.mem_append.1 hmem with hmem | hmem
    · simp only [pdasOf, awaitableSha256_eq, Option.getD_some, hz.derived, List.mem_cons,
        List.not_mem_nil, or_false, Prod.mk.injEq] at hmem
      rcases hmem with ⟨rfl, rfl⟩ | ⟨rfl, rfl⟩ | ⟨rfl, rfl⟩ | ⟨rfl, rfl⟩ <;> simp [subPda]
    · obtain ⟨rfl, rfl⟩ := mem_wallet hw hmem
      simp [subPda]
  obtain ⟨rfl, hrole⟩ := hpda
  refine ⟨?_, fun pda' h => hplan _ h⟩
  rcases hrole with rfl | rfl | rfl | rfl | rfl <;>
    simp [Cli.planAccounts, call_claimSub hs, call_issueSubNft hs, subPda, hz.called]
/-! ## The condition -/

/-- The program as its administrator sets it up, with everything for free and nothing sold. -/
def shopFront (zone : Text) : State where
  config := some {
    authority := Pubkey.default, treasury := Pubkey.default, parentZoneHash := 0,
    parentZone := zone, premiumPriceLamports := 0, subdomainBondLamports := 0,
    enableSubdomains := true, enablePremium := true }
  premiumConfig := some {
    authority := Pubkey.default, treasuryVault := Pubkey.default,
    treasuryAuthority := Pubkey.default, reservedMaxLen := 2, premiumMinLen := 3,
    premiumMaxLen := 4, minBidLamportsDefault := 0, auctionDurationSlotsDefault := 1,
    antiSnipingExtensionSlots := 0, enabled := true }
  premium := fun _ => none
  policy := fun _ => none
  sub := fun _ _ => none
  primary := fun _ => none
  auction := fun _ => none
  escrow := fun _ _ => none
  lamports := fun _ => 0
  mints := fun _ => none
  tokens := fun _ => none

theorem shopFront_deployed (zone : Text) (payer : Signer) :
    Deployed zone payer.key (shopFront zone) :=
  ⟨⟨_, rfl, rfl⟩, ⟨_, rfl, rfl, rfl, rfl, payer.ne_default⟩⟩

theorem shopFront_onSale (zone : Text) (owner : Pubkey) : OnSale owner (shopFront zone) := by
  constructor
  · rintro cfg ⟨⟩
    exact ⟨rfl, _, rfl⟩
  · rintro pcfg ⟨⟩
    rfl
  · rintro cfg ⟨⟩
    exact ⟨rfl, _, rfl⟩

/-- A premium name that is sold to an ordinary wallet has five characters at least. -/
theorem premium_long (hs : Splits n label dns) {h : Hash} {st' : State}
    (hok : purchasePremium dep clock (shopFront zone) payer n h = .ok st') : 5 ≤ label.length := by
  have hlen := len_of_validateLabelFrom (isValidLabel_iff.1 hs.label)
  obtain ⟨hname, hlabel⟩ := program_normalizeFullName hs
  simp only [purchasePremium, bind_eq_ok, load_eq_ok, vacant_eq_ok, require_eq_ok, exists_unit,
    hname] at hok
  obtain ⟨cfg, -, pcfg, hpcfg, -, -, m, hm, l, hl, -, -, hok⟩ := hok
  cases hpcfg
  cases hm
  obtain rfl : label = l := Except.ok.inj (hlabel.symm.trans hl)
  split at hok
  · simp only [bind_eq_ok, require_eq_ok, exists_unit] at hok
    exact absurd hok.1 payer.ne_default
  · next hlt =>
    simp only [bind_eq_ok, require_eq_ok, exists_unit] at hok
    have hnot := hok.1
    dsimp only at hlt hnot
    omega

/-- What a sold subdomain says about its texts. -/
theorem sub_long (hs : Splits (normalizeDnsName lc n) label parent) {p : Text} {ph lh : Hash}
    {st' : State}
    (hok : claimSubdomain dep clock (shopFront zone) payer p label ph lh = .ok st') :
    3 ≤ label.length ∧ normalizeFullName p = .ok zone ∧ hashName dep zone = ph := by
  simp only [claimSubdomain, bind_eq_ok, load_eq_ok, vacant_eq_ok, require_eq_ok, exists_unit,
    checkHashes_eq_ok] at hok
  obtain ⟨cfg, hcfg, -, -, m, hm, hzone, l, hl, ⟨hph, -⟩, -⟩ := hok
  cases hcfg
  subst hzone
  obtain rfl := program_label_eq hs.label hl
  exact ⟨(program_normalizeLabel hs.label).1 hl, hm, hph⟩

/-- A subdomain that becomes the primary name is one of `user.dns`. -/
theorem sub_primary (hs : Splits (normalizeDnsName lc n) label parent)
    (hadm : Admitted (Cli.run lc dep payer clock (shopFront zone)
      [.claimSub label parent, .issueSubNft label parent, .setPrimary n]))
    {st₁ : State} (h₁ : execute dep clock (shopFront zone)
      (Cli.call lc dep payer (.claimSub label parent)).instr = .ok st₁) :
    '.' :: userDns <:+ normalizeDnsName lc n ∧
      hashName dep userDns = hashName dep (Cli.normalizeFullName lc parent) := by
  have hclaim := h₁
  rw [call_claimSub hs] at hclaim
  obtain ⟨s, hsub, hparent, hlabel, howner, hmint, hpremium, hmints, htokens⟩ :=
    claimSubdomain_holds hclaim
  have hnew : st₁.sub (hashName dep (Cli.normalizeFullName lc parent)) (hashLabel dep label) =
      some s := by
    rw [hsub, Function.update_self, Function.update_self]
  obtain ⟨st₂, hissue⟩ := issueSubdomainNft_granted dep hnew hparent hlabel howner hmint
    (fun k => congrFun hmints k) (fun k => congrFun htokens k)
  obtain ⟨hpremium', hsub'⟩ := issueSubdomainNft_frame hissue
  have h₂ : execute dep clock st₁ (Cli.call lc dep payer (.issueSubNft label parent)).instr =
      .ok st₂ := by
    rw [call_issueSubNft hs]
    exact hissue
  have hlast : Admitted (execute dep clock st₂ (Cli.call lc dep payer (.setPrimary n)).instr) := by
    intro e he
    apply hadm e
    simp only [Cli.run, List.foldlM_cons, h₁, h₂, he, bind, Except.bind]
  by_cases hend : '.' :: userDns <:+ normalizeDnsName lc n
  · refine ⟨hend, ?_⟩
    by_contra hne
    rw [call_setPrimary_sub hs hend] at hlast
    refine setPrimaryName_missing (.inr ⟨rfl, _, _, rfl, ?_⟩) hlast
    rw [hsub' _ _ hne, hsub, Function.update_of_ne hne]
    rfl
  · rw [call_setPrimary_premium hs hend] at hlast
    refine absurd hlast (setPrimaryName_missing (.inl ⟨_, rfl, ?_⟩))
    rw [hpremium', hpremium]
    rfl

/-! ## Plans that go through -/

variable {input : NamesRegisterRequest} {plan : NamesRegistrationPlan} {primary : List Command}
  (hn : plan.name = normalizeDnsName lc input.name)

include hn

theorem planLaw_premium (hs : Splits (normalizeDnsName lc plan.name) label dns)
    (hsplit : splitDnsName lc plan.name = .ok ⟨.premium, label, none⟩)
    (hcommands : plan.commandArgs =
      [.buyPremium plan.name, .issuePremiumNft plan.name] ++ primary)
    (hprimary : primary = [] ∨ primary = [.setPrimary plan.name]) (hlong : 5 ≤ label.length) :
    PlanLaw lc dep zone payer input plan := by
  constructor
  · intro wallet hw
    refine ⟨_, derivePdas_eq hs dep hsplit wallet, fun role pda hmem => ?_⟩
    rw [hcommands]
    exact premium_pdas hs hprimary hw hmem
  · intro clock st hd
    rw [hcommands]
    exact premium_admitted hs hlong hd hprimary
  · intro clock st wallet hd ho havailable c hc
    rw [available_premium hs hn hsplit] at havailable
    have hfree := (Bool.and_eq_true_iff.1 (Except.ok.inj havailable)).2
    rw [Bool.not_eq_true', Option.isSome_eq_false_iff, Option.isNone_iff_eq_none] at hfree
    rw [hcommands] at hc
    cases hc
    rw [call_buyPremium hs]
    exact purchasePremium_sold hd ho hs hlong hfree

theorem planLaw_sub {wanted : Prop} (hs : Splits (normalizeDnsName lc plan.name) label parent)
    (hsplit : splitDnsName lc plan.name = .ok ⟨.subdomain, label, some parent⟩)
    (hcommands : plan.commandArgs = [.claimSub label parent, .issueSubNft label parent] ++ primary)
    (hprimary : primary = [] ∨ wanted ∧ primary = [.setPrimary plan.name])
    (hlong : 3 ≤ label.length)
    (hz : InZone lc dep zone wanted (normalizeDnsName lc plan.name) parent) :
    PlanLaw lc dep zone payer input plan := by
  constructor
  · intro wallet hw
    refine ⟨_, derivePdas_eq hs dep hsplit wallet, fun role pda hmem => ?_⟩
    rw [hcommands]
    exact sub_pdas hs hz hprimary hw hmem
  · intro clock st hd
    rw [hcommands]
    exact sub_admitted hs hlong hz hd hprimary
  · intro clock st wallet hd ho havailable c hc
    rw [available_sub hs hn hsplit] at havailable
    have hfree := (Bool.and_eq_true_iff.1 (Except.ok.inj havailable)).2
    rw [Bool.not_eq_true', Option.isSome_eq_false_iff, Option.isNone_iff_eq_none] at hfree
    rw [hcommands] at hc
    cases hc
    rw [call_claimSub hs]
    refine claimSubdomain_sold hd ho hz.taken ((program_normalizeLabel hs.label).2 hlong)
      hz.called.symm ?_
    rw [hz.called, ← hz.derived]
    exact hfree

/-- A premium name whose plan goes through is long enough. -/
theorem premium_of_planLaw (hs : Splits (normalizeDnsName lc plan.name) label dns)
    (hsplit : splitDnsName lc plan.name = .ok ⟨.premium, label, none⟩)
    (hcommands : plan.commandArgs =
      [.buyPremium plan.name, .issuePremiumNft plan.name] ++ primary)
    (hlaw : PlanLaw lc dep zone payer input plan) : 5 ≤ label.length := by
  obtain ⟨st', hst'⟩ := hlaw.available ⟨0, 0⟩ (shopFront zone) none (shopFront_deployed zone payer)
    (shopFront_onSale zone payer.key) (available_premium hs hn hsplit (shopFront zone) none)
    (.buyPremium plan.name) (by rw [hcommands]; rfl)
  rw [call_buyPremium hs] at hst'
  exact premium_long hs hst'

/-- A subdomain whose plan goes through is long enough and in the zone. -/
theorem sub_of_planLaw {wanted : Prop}
    (hs : Splits (normalizeDnsName lc plan.name) label parent)
    (hsplit : splitDnsName lc plan.name = .ok ⟨.subdomain, label, some parent⟩)
    (hcommands : plan.commandArgs = [.claimSub label parent, .issueSubNft label parent] ++ primary)
    (hprimary : wanted → primary = [.setPrimary plan.name])
    (hlaw : PlanLaw lc dep zone payer input plan) : 3 ≤ label.length ∧
      InZone lc dep zone wanted (normalizeDnsName lc plan.name) parent := by
  obtain ⟨st', hst'⟩ := hlaw.available ⟨0, 0⟩ (shopFront zone) none (shopFront_deployed zone payer)
    (shopFront_onSale zone payer.key) (available_sub hs hn hsplit (shopFront zone) none)
    (.claimSub label parent) (by rw [hcommands]; rfl)
  have hclaim := hst'
  rw [call_claimSub hs] at hclaim
  obtain ⟨hlong, htaken, hcalled⟩ := sub_long hs hclaim
  have hderived : hashName dep (Cli.normalizeFullName lc parent) = hashName dep parent := by
    obtain ⟨derived, hderived, hpdas⟩ := hlaw.pdas none nofun
    rw [derivePdas_eq hs dep hsplit none] at hderived
    cases hderived
    have hacc : (.subName, .sub (hashName dep (Cli.normalizeFullName lc parent))
        (hashLabel dep label)) ∈ Cli.planAccounts lc dep payer plan.commandArgs := by
      rw [hcommands]
      simp [Cli.planAccounts, call_claimSub hs]
    have hsame := (hpdas .subName (.sub (hashName dep parent) (hashLabel dep label))
      (by simp [pdasOf])).2 _ hacc
    exact (Pda.sub.inj hsame).1
  refine ⟨hlong, htaken, hcalled.symm, hderived.symm.trans hcalled.symm, fun hwanted => ?_⟩
  have hadm := hlaw.admitted ⟨0, 0⟩ (shopFront zone) (shopFront_deployed zone payer)
  rw [hcommands, hprimary hwanted] at hadm
  obtain ⟨hend, huser⟩ := sub_primary hs hadm hst'
  exact ⟨hend, hcalled.trans huser.symm⟩

end Law

/-- **The plans that go through** are those of names that the program sells to an ordinary wallet:
premium names of five characters on, and subdomains of three characters on whose parent is the
zone. -/
theorem planLaw_iff (lc : LowerCase) (dep : Deployment) (zone : Text) (payer : Signer)
    (input : NamesRegisterRequest) (plan : NamesRegistrationPlan)
    (h : buildRegistrationPlan lc input = .ok plan) :
    PlanLaw lc dep zone payer input plan ↔
      Sellable lc dep zone (input.setPrimary ≠ some false)
        (normalizeDnsName lc (normalizeDnsName lc input.name)) := by
  obtain ⟨label, parent, hs, hn, hsplit, hcommands⟩ := buildRegistrationPlan_ok h
  rw [← hn]
  constructor
  · intro hlaw
    refine ⟨label, parent, hs.eq, no_dot hs.label, ?_, ?_⟩
    · rintro rfl
      exact premium_of_planLaw hn hs hsplit hcommands hlaw
    · intro hne
      rw [if_neg hne] at hsplit hcommands
      exact sub_of_planLaw hn hs hsplit hcommands (fun hset => if_neg hset) hlaw
  · rintro ⟨label', parent', heq, hdot, hpremium, hsub⟩
    obtain ⟨rfl, rfl⟩ : label = label' ∧ parent = parent' := by
      exact split_unique (no_dot hs.label) hdot (hs.eq.symm.trans heq)
    by_cases hp : parent = dns
    · subst hp
      refine planLaw_premium hn hs hsplit hcommands ?_ (hpremium rfl)
      split
      · exact .inl rfl
      · exact .inr rfl
    · rw [if_neg hp] at hsplit hcommands
      obtain ⟨hlong, hz⟩ := hsub hp
      refine planLaw_sub hn hs hsplit hcommands ?_ hlong hz
      split
      · exact .inl rfl
      · next hset => exact .inr ⟨hset, rfl⟩

/-! ## Examples -/

/-- A letter has no other lower case once it is in lower case. -/
theorem isUpper_toLower (c : Char) : c.toLower.isUpper = false := by
  refine decide_eq_false fun hupper => ?_
  have hhi : c.toLower.val.toNat ≤ 90 := hupper.2
  by_cases h : c.val ≥ 'A'.val ∧ c.val ≤ 'Z'.val
  · have hval : c.toLower.val = c.val + 32 := by
      unfold Char.toLower
      rw [dif_pos h]
      rfl
    have hlo : 65 ≤ c.val.toNat := h.1
    have hmax : c.val.toNat ≤ 90 := h.2
    have h32 : (32 : UInt32).toNat = 32 := rfl
    rw [hval, UInt32.toNat_add, h32] at hhi
    omega
  · have hsame : c.toLower = c := dif_neg h
    rw [hsame] at hupper
    exact h hupper

/-- `toLowerCase` of texts of ASCII. -/
def asciiCase : LowerCase where
  toLowerCase := toAsciiLowercase
  hasLowerCase := Char.isUpper
  hasLowerCase_ascii _ _ := rfl
  hasLowerCase_of_mem := by
    intro t c hc
    obtain ⟨d, -, rfl⟩ := List.mem_map.1 hc
    exact isUpper_toLower d
  toLowerCase_eq _ := toAsciiLowercase_of_all

/-- The plan for `bob.user.dns`. -/
def examplePlan : NamesRegistrationPlan where
  name := subLabel ++ '.' :: userDns
  mode := .subdomain
  label := subLabel
  parent := some userDns
  commandArgs := [.claimSub subLabel userDns, .issueSubNft subLabel userDns,
    .setPrimary (subLabel ++ '.' :: userDns)]

theorem examplePlan_goes_through : PlanLaw asciiCase subDeployment userDns subOwner
    ⟨subLabel ++ '.' :: userDns, none⟩ examplePlan := by
  have hplan : buildRegistrationPlan asciiCase ⟨subLabel ++ '.' :: userDns, none⟩ =
      .ok examplePlan := by decide +kernel
  refine (planLaw_iff asciiCase subDeployment userDns subOwner _ _ hplan).2
    ⟨subLabel, userDns, by decide +kernel, by decide, by decide, fun _ => ⟨by decide, ?_⟩⟩
  exact ⟨by decide +kernel, by decide +kernel, rfl,
    fun _ => ⟨⟨subLabel, by decide +kernel⟩, rfl⟩⟩

/-- `ab.dns` is planned, and the program reserves it. -/
theorem exampleShort_not_planLaw : ∃ plan,
    buildRegistrationPlan asciiCase ⟨['a', 'b', '.', 'd', 'n', 's'], none⟩ = .ok plan ∧
      ¬PlanLaw asciiCase subDeployment userDns subOwner
        ⟨['a', 'b', '.', 'd', 'n', 's'], none⟩ plan := by
  refine ⟨_, rfl, fun hlaw => ?_⟩
  have hs : Splits (normalizeDnsName asciiCase ['a', 'b', '.', 'd', 'n', 's']) ['a', 'b'] dns :=
    ⟨by decide, by decide, by decide⟩
  have hlong := premium_of_planLaw rfl hs (by decide) rfl hlaw
  exact absurd hlong (by decide)

end Ddns.Names
