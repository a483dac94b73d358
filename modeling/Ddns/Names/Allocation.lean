import Ddns.Names.Outcome
import Ddns.Names.Payment

/-!
# Who gets a name first

A name comes into being in two ways: `purchase_premium`, which refuses the labels of three or four
characters and reserves the shorter ones, and `settle_auction`, which sees only a hash and relies on
what `create_auction` checked. Both write the one `PremiumName` of the hash, so each hash gets a name
once (`OnceLaw`). The rule on labels (`LabelLaw`) needs that no other name of the run has the same
hash.
-/

namespace Ddns.Names

open Tx Runs

/-- `o` purchases the name at `h`. -/
def Step.Purchases (e : Step) (o : Signer) (name : Text) (h : Hash) : Prop :=
  e.input = .submit (.purchasePremium o name h) ∧ e.out = some (.ok ())

/-- An auction of the name at `h` is created. -/
def Step.Opens (e : Step) (h : Hash) : Prop :=
  ∃ o name m d, e.input = .submit (.createAuction o name h m d) ∧ e.out = some (.ok ())

/-- The name at `h` is created. -/
def Step.Creates (e : Step) (h : Hash) : Prop :=
  (∃ o name, Step.Purchases e o name h) ∨ ∃ w, Step.Settles e w h

/-- Each name is created once, by a purchase or by a settlement. -/
structure OnceLaw (dep : Deployment) (c : Chain State) (is : List (Action Instr)) : Prop where
  created : ∀ h p, (exec (step dep) c is).accounts.premium h = some p →
    ∃ e ∈ trace (step dep) c is, Step.Creates e h
  once : ∀ l₁ e l₂, trace (step dep) c is = l₁ ++ e :: l₂ → ∀ h, Step.Creates e h →
    e.pre.accounts.premium h = none ∧ ∀ e' ∈ l₁ ++ l₂, ¬Step.Creates e' h
  exclusive : ∀ e ∈ trace (step dep) c is, ∀ e' ∈ trace (step dep) c is, ∀ o name w h,
    Step.Purchases e o name h → ¬Step.Settles e' w h

/-- The address of the name `<label>.dns`. -/
def labelHash (dep : Deployment) (label : Text) : Hash := hashName dep (label ++ dnsSuffix)

/-- **The allocation rule** for the name `<label>.dns`. -/
structure LabelLaw (dep : Deployment) (c : Chain State) (is : List (Action Instr)) (label : Text) :
    Prop where
  reserved : label.length ≤ 2 →
    ∀ p, (exec (step dep) c is).accounts.premium (labelHash dep label) = some p →
      ∃ e ∈ trace (step dep) c is, ∃ o name first pcfg,
        Step.Purchases e o name (labelHash dep label) ∧
        e.post.accounts.premium (labelHash dep label) = some first ∧
        (exec (step dep) c is).accounts.premiumConfig = some pcfg ∧
        first.owner = pcfg.treasuryAuthority
  auctioned : 3 ≤ label.length → label.length ≤ 4 →
    ∀ p, (exec (step dep) c is).accounts.premium (labelHash dep label) = some p →
      ∃ e ∈ trace (step dep) c is, ∃ w a a', Step.Settles e w (labelHash dep label) ∧
        SettleOutcome e w (labelHash dep label) a a'
  exclusive : ∀ e ∈ trace (step dep) c is, ∀ e' ∈ trace (step dep) c is, ∀ o name,
    Step.Purchases e o name (labelHash dep label) → ¬Step.Opens e' (labelHash dep label)

/-- The name that a transaction spells out. -/
def nameGiven : Action Instr → Option Text
  | .submit (.purchasePremium _ name _) => some name
  | .submit (.createAuction _ name _ _ _) => some name
  | _ => none

/-- No name that the run spells out collides with `full`. -/
def NoCollision (dep : Deployment) (is : List (Action Instr)) (full : Text) : Prop :=
  ∀ act ∈ is, ∀ name n, nameGiven act = some name → normalizeFullName name = .ok n →
    hashName dep n = hashName dep full → n = full

section States

variable {dep : Deployment} {clock : Clock} {st st' : State} {i : Instr} {h : Hash}

/-- The instruction creates the name at `h`. -/
def Instr.Creates (i : Instr) (h : Hash) : Prop :=
  (∃ o name, i = .purchasePremium o name h) ∨ ∃ w t, i = .settleAuction w h t

/-- An instruction writes one name at most, and a new one only if it creates it. -/
theorem effect_premium (heff : Effect dep clock st i st') : st'.premium = st.premium ∨
    ∃ k p, st'.premium = Function.update st.premium k (some p) ∧
      (st.premium k ≠ none ∨ st.premium k = none ∧ i.Creates k) := by
  have hold : ∀ {k q}, st.premium k = some q →
      st.premium k ≠ none ∨ st.premium k = none ∧ i.Creates k := by
    intro k q hq
    rw [hq]
    exact .inl (Option.some_ne_none q)
  cases heff with
  | @purchasePremium o name k cfg pcfg label paid hcfg hpcfg hnone =>
    exact .inr ⟨k, _, rfl, .inr ⟨hnone, .inl ⟨o, name, rfl⟩⟩⟩
  | @settleAuction w k t pcfg a hpcfg ha htreasury hnone =>
    exact .inr ⟨k, _, rfl, .inr ⟨hnone, .inr ⟨w, t, rfl⟩⟩⟩
  | transferPremium p pol hp => exact .inr ⟨_, _, rfl, hold hp.premium⟩
  | bindPremiumNft p pol account hp => exact .inr ⟨_, _, rfl, hold hp.premium⟩
  | issuePremiumNft p mints tokens hp => exact .inr ⟨_, _, rfl, hold hp⟩
  | syncPremiumOwnerFromNft p pol account hp => exact .inr ⟨_, _, rfl, hold hp.premium⟩
  | _ => exact .inl rfl

/-- No instruction removes a name. -/
theorem effect_premium_kept (heff : Effect dep clock st i st') (hne : st.premium h ≠ none) :
    st'.premium h ≠ none := by
  rcases effect_premium heff with hsame | ⟨k, p, hupd, -⟩
  · rw [hsame]
    exact hne
  · rw [hupd]
    by_cases hk : h = k
    · rw [hk, Function.update_self]
      exact Option.some_ne_none p
    · rw [Function.update_of_ne hk]
      exact hne

/-- A name that is new was created. -/
theorem effect_premium_new (heff : Effect dep clock st i st') (hnone : st.premium h = none)
    (hne : st'.premium h ≠ none) : i.Creates h := by
  rcases effect_premium heff with hsame | ⟨k, p, hupd, hcase⟩
  · rw [hsame] at hne
    exact absurd hnone hne
  · by_cases hk : h = k
    · subst hk
      rcases hcase with hold | ⟨-, hcreates⟩
      · exact absurd hnone hold
      · exact hcreates
    · rw [hupd, Function.update_of_ne hk] at hne
      exact absurd hnone hne

/-- An auction that is new was created. -/
theorem effect_auction_new (heff : Effect dep clock st i st') (hnone : st.auction h = none)
    (hne : st'.auction h ≠ none) : ∃ o name m d, i = .createAuction o name h m d := by
  have hother : ∀ {k a a'}, st.auction k = some a →
      Function.update st.auction k (some a') h = none := by
    intro k a a' ha
    have hk : h ≠ k := by
      rintro rfl
      rw [hnone] at ha
      cases ha
    rw [Function.update_of_ne hk]
    exact hnone
  cases heff with
  | @createAuction o name k m d pcfg label a =>
    by_cases hk : h = k
    · subst hk
      exact ⟨o, name, m, d, rfl⟩
    · exact absurd ((Function.update_of_ne hk ..).trans hnone) hne
  | placeBid pcfg a e paid endSlot hbid => exact absurd (hother hbid.auction) hne
  | settleAuction pcfg a hpcfg ha => exact absurd (hother ha) hne
  | _ => exact absurd hnone hne

/-- The premium configuration has the lengths of `init_premium_config`. -/
def Reserved (st : State) : Prop :=
  ∀ pcfg, st.premiumConfig = some pcfg →
    pcfg.reservedMaxLen = 2 ∧ pcfg.premiumMinLen = 3 ∧ pcfg.premiumMaxLen = 4

theorem effect_reserved (hr : Reserved st) (heff : Effect dep clock st i st') : Reserved st' := by
  cases heff with
  | initPremiumConfig pcfg hnone hlen =>
    intro pcfg' hp
    cases hp
    exact hlen
  | _ => exact hr

/-- The premium configuration is written once. -/
theorem effect_premiumConfig {pcfg : PremiumConfig} (heff : Effect dep clock st i st')
    (hp : st.premiumConfig = some pcfg) : st'.premiumConfig = some pcfg := by
  cases heff with
  | initPremiumConfig pcfg' hnone =>
    rw [hnone] at hp
    cases hp
  | _ => exact hp

/-- A new name belongs to who it is created for. -/
theorem createPremium_premium (clock : Clock) (st : State) (h : Hash) (o : Pubkey) (n : Nat) :
    ∃ first, (createPremium clock st h o n).premium h = some first ∧ first.owner = o :=
  ⟨_, Function.update_self .., rfl⟩

/-- A name that does not collide with `<label>.dns` and has its hash has its label. -/
theorem PremiumLabel.unique {name label label' : Text}
    (hl : PremiumLabel dep name (labelHash dep label) label')
    (hfree : ∀ n, normalizeFullName name = .ok n →
      hashName dep n = hashName dep (label ++ dnsSuffix) → n = label ++ dnsSuffix) :
    len label' = label.length := by
  obtain ⟨n, hn, hsplit, hhash⟩ := hl.normalized
  have hfull : label' ++ dnsSuffix = label ++ dnsSuffix := hsplit.symm.trans (hfree n hn hhash)
  obtain rfl : label' = label := List.append_cancel_right hfull
  exact len_of_validateLabelFrom hl.valid

end States

/-! ## Runs -/

section Runs

variable {dep : Deployment} {c : Chain State} {act : Action Instr} {h : Hash}

/-- A step that makes something true of the accounts commits the effect of an instruction. -/
theorem event_change {P : State → Prop}
    (hpre : ¬P (event (step dep) c act).pre.accounts)
    (hpost : P (event (step dep) c act).post.accounts) :
    ∃ i st', (event (step dep) c act).input = .submit i ∧
      (event (step dep) c act).out = some (.ok ()) ∧ Effect dep c.clock c.accounts i st' ∧
      (event (step dep) c act).post = ⟨c.clock, st'⟩ := by
  rcases step_effect dep c act with ⟨hsame, -⟩ | ⟨i, st', hi, heff, hs⟩
  · rw [event_post, hsame] at hpost
    exact absurd hpost hpre
  · exact ⟨i, st', hi, congrArg Prod.snd hs, heff, congrArg Prod.fst hs⟩

/-- A name that is there at the end of a run, and not before it, was created on the way. -/
theorem exec_created (hnone : c.accounts.premium h = none) {is : List (Action Instr)}
    (hne : (exec (step dep) c is).accounts.premium h ≠ none) :
    ∃ e ∈ trace (step dep) c is, Step.Creates e h := by
  obtain ⟨e, he, hpre, hpost⟩ := exists_event_of_exec
    (P := fun c : Chain State => c.accounts.premium h ≠ none) (not_not.2 hnone) hne
  refine ⟨e, he, ?_⟩
  obtain ⟨pre, act, post, -, rfl⟩ := mem_trace he
  obtain ⟨i, st', hi, hout, heff, hs⟩ :=
    event_change (P := fun st => st.premium h ≠ none) hpre hpost
  rw [hs] at hpost
  rcases effect_premium_new heff (not_not.1 hpre) hpost with ⟨o, name, rfl⟩ | ⟨w, t, rfl⟩
  · exact .inl ⟨o, name, hi, hout⟩
  · exact .inr ⟨w, t, hi, hout⟩

/-- So was an auction. -/
theorem exec_opened (hnone : c.accounts.auction h = none) {is : List (Action Instr)}
    (hne : (exec (step dep) c is).accounts.auction h ≠ none) :
    ∃ e ∈ trace (step dep) c is, Step.Opens e h := by
  obtain ⟨e, he, hpre, hpost⟩ := exists_event_of_exec
    (P := fun c : Chain State => c.accounts.auction h ≠ none) (not_not.2 hnone) hne
  refine ⟨e, he, ?_⟩
  obtain ⟨pre, act, post, -, rfl⟩ := mem_trace he
  obtain ⟨i, st', hi, hout, heff, hs⟩ :=
    event_change (P := fun st => st.auction h ≠ none) hpre hpost
  rw [hs] at hpost
  obtain ⟨o, name, m, d, rfl⟩ := effect_auction_new heff (not_not.1 hpre) hpost
  exact ⟨o, name, m, d, hi, hout⟩

/-- A creation finds no name, and leaves one. -/
theorem creates_new (hc : Step.Creates (event (step dep) c act) h) :
    c.accounts.premium h = none ∧ (event (step dep) c act).post.accounts.premium h ≠ none := by
  rcases hc with ⟨o, name, hi, hout⟩ | ⟨w, t, hi, hout⟩
  · obtain ⟨st', heff, hs⟩ := event_effect hi hout
    rw [hs]
    cases heff with
    | purchasePremium cfg pcfg label paid hcfg hpcfg hnone =>
      obtain ⟨first, hfirst, -⟩ := createPremium_premium c.clock (c.accounts.setLamports paid) h
        o.key cfg.premiumPriceLamports
      exact ⟨hnone, Option.ne_none_iff_exists'.2 ⟨first, hfirst⟩⟩
  · obtain ⟨st', heff, hs⟩ := event_effect hi hout
    rw [hs]
    cases heff with
    | settleAuction pcfg a hpcfg ha htreasury hnone =>
      obtain ⟨first, hfirst, -⟩ := createPremium_premium c.clock c.accounts h w.key
        a.highestBidLamports
      exact ⟨hnone, Option.ne_none_iff_exists'.2 ⟨first, hfirst⟩⟩

theorem step_premium_kept (c : Chain State) (act : Action Instr)
    (hne : c.accounts.premium h ≠ none) : (step dep c act).1.accounts.premium h ≠ none :=
  step_invariant (P := fun st => st.premium h ≠ none)
    (fun _ _ _ _ hne heff => effect_premium_kept heff hne) act hne

theorem exec_premiumConfig {pcfg : PremiumConfig} (is : List (Action Instr))
    (hp : c.accounts.premiumConfig = some pcfg) :
    (exec (step dep) c is).accounts.premiumConfig = some pcfg :=
  exec_invariant (P := fun st => st.premiumConfig = some pcfg)
    (fun _ _ _ _ hp heff => effect_premiumConfig heff hp) is hp

theorem exec_reserved (lamports : Pubkey → Nat) (clock : Clock) (is : List (Action Instr)) :
    Reserved (exec (step dep) ⟨clock, State.genesis lamports⟩ is).accounts := by
  have hstart : Reserved (State.genesis lamports) := by
    intro pcfg hp
    cases hp
  exact exec_invariant (fun _ _ _ _ hr heff => effect_reserved hr heff) is hstart

/-- After a creation the name is not created again. -/
theorem not_created_twice {is : List (Action Instr)} {l₁ l₂ : List Step} {e e' : Step}
    (hsplit : trace (step dep) c is = l₁ ++ e :: l₂) (hc : Step.Creates e h) (he' : e' ∈ l₂) :
    ¬Step.Creates e' h := by
  intro hc'
  have hmem : e ∈ trace (step dep) c is := by simp [hsplit]
  have hmem' : e' ∈ trace (step dep) c is := by simp [hsplit, he']
  obtain ⟨pre, act, post, -, rfl⟩ := mem_trace hmem
  have hbefore : e'.pre.accounts.premium h ≠ none :=
    stays_after (P := fun c : Chain State => c.accounts.premium h ≠ none) step_premium_kept hsplit
      (creates_new hc).2 he'
  obtain ⟨pre', act', post', -, rfl⟩ := mem_trace hmem'
  exact hbefore (creates_new hc').1

end Runs

/-! ## The laws -/

section Laws

variable {dep : Deployment} {lamports : Pubkey → Nat} {clock : Clock} {is : List (Action Instr)}
  {label : Text} {e : Step}

/-- A purchase of `<label>.dns` is of a reserved label, for the treasury authority, or of a label
that is too long for an auction. -/
theorem purchase_label {o : Signer} {name : Text} (hfree : NoCollision dep is (label ++ dnsSuffix))
    (he : e ∈ trace (step dep) ⟨clock, State.genesis lamports⟩ is)
    (hp : Step.Purchases e o name (labelHash dep label)) :
    ∃ first pcfg, e.post.accounts.premium (labelHash dep label) = some first ∧
      (exec (step dep) ⟨clock, State.genesis lamports⟩ is).accounts.premiumConfig = some pcfg ∧
      (label.length ≤ 2 ∧ first.owner = pcfg.treasuryAuthority ∨ 4 < label.length) := by
  obtain ⟨pre, act, post, rfl, rfl⟩ := mem_trace he
  obtain ⟨hi, hout⟩ := hp
  obtain ⟨st', heff, hs⟩ := event_effect hi hout
  have hname : nameGiven act = some name := by
    rw [event_input] at hi
    rw [hi]
    rfl
  have hmem : act ∈ pre ++ act :: post := List.mem_append_right _ List.mem_cons_self
  cases heff with
  | purchasePremium cfg pcfg label' paid hcfg hpcfg hnone hlabel hclass =>
    obtain ⟨hres, hmin, hmax⟩ := exec_reserved lamports clock pre pcfg hpcfg
    have hlen := hlabel.unique (hfree act hmem name · hname)
    obtain ⟨first, hfirst, hfo⟩ := createPremium_premium _ _ (labelHash dep label) o.key _
    have hafter : (event (step dep) (exec (step dep) ⟨clock, State.genesis lamports⟩ pre)
        act).post.accounts.premiumConfig = some pcfg := by
      rw [hs]
      exact hpcfg
    refine ⟨first, pcfg, ?_, ?_, ?_⟩
    · rw [hs]
      exact hfirst
    · rw [exec_append, exec_cons]
      exact exec_premiumConfig post hafter
    · rcases hclass with ⟨hle, howner⟩ | ⟨hlt, hlong⟩
      · exact .inl ⟨by omega, hfo.trans howner⟩
      · exact .inr (by omega)

/-- An auction of `<label>.dns` is of a label of three or four characters. -/
theorem opens_label (hfree : NoCollision dep is (label ++ dnsSuffix))
    (he : e ∈ trace (step dep) ⟨clock, State.genesis lamports⟩ is)
    (ho : Step.Opens e (labelHash dep label)) : 3 ≤ label.length ∧ label.length ≤ 4 := by
  obtain ⟨pre, act, post, rfl, rfl⟩ := mem_trace he
  obtain ⟨o, name, m, d, hi, hout⟩ := ho
  obtain ⟨st', heff, -⟩ := event_effect hi hout
  have hname : nameGiven act = some name := by
    rw [event_input] at hi
    rw [hi]
    rfl
  have hmem : act ∈ pre ++ act :: post := List.mem_append_right _ List.mem_cons_self
  cases heff with
  | createAuction pcfg label' a hpcfg hnone hauth hlabel hlen =>
    obtain ⟨-, hmin, hmax⟩ := exec_reserved lamports clock pre pcfg hpcfg
    have hlen' := hlabel.unique (hfree act hmem name · hname)
    omega

/-- So is a settlement, since the auction was created on the way. -/
theorem settles_label {w : Signer} (hfree : NoCollision dep is (label ++ dnsSuffix))
    (he : e ∈ trace (step dep) ⟨clock, State.genesis lamports⟩ is)
    (hs : Step.Settles e w (labelHash dep label)) :
    (3 ≤ label.length ∧ label.length ≤ 4) ∧
      ∃ a a', SettleOutcome e w (labelHash dep label) a a' := by
  obtain ⟨pre, act, post, rfl, rfl⟩ := mem_trace he
  obtain ⟨a, a', hout⟩ := event_settle hs
  have hne : (exec (step dep) ⟨clock, State.genesis lamports⟩ pre).accounts.auction
      (labelHash dep label) ≠ none := Option.ne_none_iff_exists'.2 ⟨a, hout.before⟩
  obtain ⟨e', he', ho⟩ := exec_opened rfl hne
  have hmem : e' ∈ trace (step dep) ⟨clock, State.genesis lamports⟩ (pre ++ act :: post) := by
    rw [trace_append]
    exact List.mem_append_left _ he'
  exact ⟨opens_label hfree hmem ho, a, a', hout⟩

theorem once_law (dep : Deployment) (lamports : Pubkey → Nat) (clock : Clock)
    (is : List (Action Instr)) : OnceLaw dep ⟨clock, State.genesis lamports⟩ is := by
  have honce : ∀ l₁ e l₂, trace (step dep) ⟨clock, State.genesis lamports⟩ is = l₁ ++ e :: l₂ →
      ∀ h, Step.Creates e h → ∀ e' ∈ l₁ ++ l₂, ¬Step.Creates e' h := by
    intro l₁ e l₂ hsplit h hc e' he'
    rcases List.mem_append.1 he' with he' | he'
    · intro hc'
      obtain ⟨m₁, m₂, rfl⟩ := List.append_of_mem he'
      rw [List.append_assoc, List.cons_append] at hsplit
      exact not_created_twice hsplit hc' (List.mem_append_right _ List.mem_cons_self) hc
    · exact not_created_twice hsplit hc he'
  refine ⟨?_, ?_, ?_⟩
  · intro h p hp
    have hne : (exec (step dep) ⟨clock, State.genesis lamports⟩ is).accounts.premium h ≠ none :=
      Option.ne_none_iff_exists'.2 ⟨p, hp⟩
    exact exec_created rfl hne
  · intro l₁ e l₂ hsplit h hc
    refine ⟨?_, honce l₁ e l₂ hsplit h hc⟩
    obtain ⟨pre, act, post, -, -, rfl, -⟩ := trace_split hsplit
    exact (creates_new hc).1
  · intro e he e' he' o name w h hp hs
    obtain ⟨l₁, l₂, hsplit⟩ := List.append_of_mem he
    rw [hsplit, List.mem_append, List.mem_cons] at he'
    have hno := honce l₁ e l₂ hsplit h (.inl ⟨o, name, hp⟩) e'
    rcases he' with he' | rfl | he'
    · exact hno (List.mem_append_left _ he') (.inr ⟨w, hs⟩)
    · obtain ⟨t, hi, -⟩ := hs
      cases hp.1.symm.trans hi
    · exact hno (List.mem_append_right _ he') (.inr ⟨w, hs⟩)

theorem label_law (lamports : Pubkey → Nat) (clock : Clock)
    (hfree : NoCollision dep is (label ++ dnsSuffix)) :
    LabelLaw dep ⟨clock, State.genesis lamports⟩ is label := by
  have hcreated := (once_law dep lamports clock is).created (labelHash dep label)
  refine ⟨?_, ?_, ?_⟩
  · intro hlen p hp
    obtain ⟨e, he, ⟨o, name, hpur⟩ | ⟨w, hs⟩⟩ := hcreated p hp
    · obtain ⟨first, pcfg, hfirst, hpcfg, ⟨-, howner⟩ | hlong⟩ := purchase_label hfree he hpur
      · exact ⟨e, he, o, name, first, pcfg, hpur, hfirst, hpcfg, howner⟩
      · omega
    · have hlen' := (settles_label hfree he hs).1
      omega
  · intro hlo hhi p hp
    obtain ⟨e, he, ⟨o, name, hpur⟩ | ⟨w, hs⟩⟩ := hcreated p hp
    · obtain ⟨-, -, -, -, ⟨hshort, -⟩ | hlong⟩ := purchase_label hfree he hpur
      · omega
      · omega
    · obtain ⟨-, a, a', hout⟩ := settles_label hfree he hs
      exact ⟨e, he, w, a, a', hs, hout⟩
  · intro e he e' he' o name hpur ho
    have hlen' := opens_label hfree he' ho
    obtain ⟨-, -, -, -, ⟨hshort, -⟩ | hlong⟩ := purchase_label hfree he hpur
    · omega
    · omega

end Laws

/-- **The allocation of names.** In every run each hash gets one name at most, by a purchase or by a
settlement and never by both; and the names that no other name of the run collides with were
allocated by the length of their labels. -/
theorem allocation_law (dep : Deployment) (lamports : Pubkey → Nat) (clock : Clock)
    (is : List (Action Instr)) :
    OnceLaw dep ⟨clock, State.genesis lamports⟩ is ∧
      ∀ label, NoCollision dep is (label ++ dnsSuffix) →
        LabelLaw dep ⟨clock, State.genesis lamports⟩ is label :=
  ⟨once_law dep lamports clock is, fun _ hfree => label_law lamports clock hfree⟩

/-- The auction of `abc.dns` is the only one of its run, and allocates the name. -/
theorem settleRun_allocated : ∃ e ∈ trace (step settleDeployment) exampleGenesis settleRun,
    ∃ w a a', Step.Settles e w (labelHash settleDeployment ['a', 'b', 'c']) ∧
      SettleOutcome e w (labelHash settleDeployment ['a', 'b', 'c']) a a' := by
  have hfree : NoCollision settleDeployment settleRun (['a', 'b', 'c'] ++ dnsSuffix) := by
    intro act hact name n hname hn _
    simp only [settleRun, List.mem_cons, List.not_mem_nil, or_false] at hact
    rcases hact with rfl | rfl | rfl | rfl | rfl | rfl <;> cases hname
    cases hn
    rfl
  have hsome : ((exec (step settleDeployment) exampleGenesis settleRun).accounts.premium
      (labelHash settleDeployment ['a', 'b', 'c'])).isSome := by decide
  obtain ⟨p, hp⟩ := Option.isSome_iff_exists.1 hsome
  exact ((allocation_law settleDeployment (fun _ => 10 ^ 9) ⟨0, 0⟩ settleRun).2 _ hfree).auctioned
    (by decide) (by decide) p hp

end Ddns.Names
