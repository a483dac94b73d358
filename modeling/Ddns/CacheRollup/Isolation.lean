import Ddns.CacheRollup.Root

/-!
# Entries are ingested apart

Each entry of a request is checked on its own, but a hexadecimal text that is none, or a value that
cannot be read, throws, and the request ends with it; and numbers are read from texts, rounded up and
cut, so that an entry with others than the format has is stored. A request stores exactly its well
formed entries if each other one is skipped by a check that does not throw (`isolated_iff`).
-/

namespace Ddns.CacheRollup

/-! ## Well formed entries -/

/-- A text of `len` hexadecimal digits in either case, with or without `0x` in front. -/
def hexOf (len : ℕ) : Option Json → Option (Hex len)
  | some (.str t) =>
    let h := (strip0x t).map Char.toLower
    if hdigits : h.length = len ∧ h.all fun c => ('0' ≤ c ∧ c ≤ '9') ∨ ('a' ≤ c ∧ c ≤ 'f') then
      some ⟨h, hdigits.1, hdigits.2⟩
    else none
  | _ => none

/-- The value of a number. -/
def numberOf (rt : Platform) : Option Json → Option JsNum
  | some (.num t) => (rt.number (.num t)).toOption
  | _ => none

/-- A number that is an integer in a range. -/
def integerIn (lo hi : ℤ) : JsNum → Option ℚ
  | .fin q => if q.den = 1 ∧ lo ≤ q ∧ q ≤ hi then some q else none
  | _ => none

/-- An entry that has the format of its own, as its file is to have it. -/
def wellFormed (rt : Platform) (raw : Json) : Option StoredEntry :=
  if isObject raw ∧ (keysOf raw).any (forbidden.contains ·) = false then do
    let nameHash ← hexOf 64 (raw.field nameHashKey)
    let parentNameHash ← hexOf 64 (raw.field parentNameHashKey)
    let rrsetHash ← hexOf 64 (raw.field rrsetHashKey)
    let ttlS ← (numberOf rt (raw.field ttlKey)).bind (integerIn 1 (2 ^ 32 - 1))
    let confidenceBps ← (numberOf rt (raw.field confidenceKey)).bind (integerIn 0 10000)
    let observedBucket ← (numberOf rt (raw.field bucketKey)).bind bucketOf
    let witnessPubkey ← hexOf 64 (raw.field witnessKey)
    let signature ← hexOf 128 (raw.field signatureKey)
    return { nameHash, parentNameHash, rrsetHash, ttlS := some ttlS
             confidenceBps := some confidenceBps, observedBucket, witnessPubkey, signature }
  else none

/-- The well formed ones among some entries. -/
def wellFormedOf (rt : Platform) (entries : List Json) : List StoredEntry :=
  entries.filterMap (wellFormed rt)

/-- **Entries are isolated**: the request is answered, and stores its well formed entries and no
others. -/
structure Isolated (rt : Platform) (body : Json) : Prop where
  answered : ∀ files error, (ingest rt files body).2 ≠ .crashed error
  stored : ∀ files parentHash, (ingest rt files body).1.get parentHash = extend (files.get parentHash)
    (Grouping.ofKey CacheEntryV1.parentNameHash parentHash (wellFormedOf rt (entriesOf body)))

/-! ## Skipped entries -/

def hexKeys : List (JsText × ℕ) :=
  [(nameHashKey, 64), (parentNameHashKey, 64), (rrsetHashKey, 64), (witnessKey, 64), (signatureKey, 128)]

def numberKeys : List JsText := [ttlKey, confidenceKey, bucketKey]

/-- Every field can be read. -/
structure Readable (rt : Platform) (raw : Json) : Prop where
  hex : ∀ k ∈ hexKeys, ∃ h, hexN rt (raw.field k.1) k.2 = .ok h
  number : ∀ k ∈ numberKeys, ∃ n, numberOrZero rt (raw.field k) = .ok n

/-- A check that does not throw fails: the value is no object, or has a forbidden field, or its bucket
is no positive multiple of 600 where every field can be read. -/
def Skipped (rt : Platform) (raw : Json) : Prop :=
  isObject raw = false ∨ (keysOf raw).any (forbidden.contains ·) = true ∨
    Readable rt raw ∧ ∀ n, numberOrZero rt (raw.field bucketKey) = .ok n → bucketOf n = none

/-- What the platform documents: a text is its own text, zero is zero, and letters of hexadecimal
digits have the lower case of ASCII. -/
structure Platform.Lawful (rt : Platform) : Prop where
  text_str : ∀ t, rt.text (.str t) = .ok t
  number_zero : rt.number (.num ['0']) = .ok (.fin 0)
  toLowerCase_hex : ∀ t : JsText,
    (t.map Char.toLower).all (fun c => ('0' ≤ c ∧ c ≤ '9') ∨ ('a' ≤ c ∧ c ≤ 'f')) →
      rt.toLowerCase t = t.map Char.toLower

variable {rt : Platform} {raw : Json}

/-- **The results of a check.** -/
theorem validateCacheEntry_eq_ok {r : Except InvalidReason (CacheEntryV1 JsNum)} :
    validateCacheEntry rt raw = .ok r ↔
      isObject raw = false ∧ .error .invalidObject = r ∨
      isObject raw = true ∧ (keysOf raw).any (forbidden.contains ·) = true ∧
        .error .privacyForbiddenField = r ∨
      isObject raw = true ∧ (keysOf raw).any (forbidden.contains ·) = false ∧
        ∃ nameHash, hexN rt (raw.field nameHashKey) 64 = .ok nameHash ∧
        ∃ parentNameHash, hexN rt (raw.field parentNameHashKey) 64 = .ok parentNameHash ∧
        ∃ rrsetHash, hexN rt (raw.field rrsetHashKey) 64 = .ok rrsetHash ∧
        ∃ ttlS, numberOrZero rt (raw.field ttlKey) = .ok ttlS ∧
        ∃ confidenceBps, numberOrZero rt (raw.field confidenceKey) = .ok confidenceBps ∧
        ∃ observedBucket, numberOrZero rt (raw.field bucketKey) = .ok observedBucket ∧
        ∃ witnessPubkey, hexN rt (raw.field witnessKey) 64 = .ok witnessPubkey ∧
        ∃ signature, hexN rt (raw.field signatureKey) 128 = .ok signature ∧
          (match bucketOf observedBucket with
          | none => .error .invalidBucket
          | some observedBucket => .ok
            { nameHash, parentNameHash, rrsetHash, ttlS := atLeastOne ttlS
              confidenceBps := clampBps confidenceBps, observedBucket, witnessPubkey, signature }) = r := by
  unfold validateCacheEntry
  cases isObject raw with
  | false => simp [pure, Except.pure]
  | true =>
    cases (keysOf raw).any (forbidden.contains ·) with
    | true => simp [pure, Except.pure]
    | false =>
      simp only [Bool.not_true, Bool.false_eq_true, if_false, hex32, Results.bind_eq_ok_iff, false_and,
        true_and, false_or, Bool.true_eq_false]
      iterate 5 refine exists_congr fun _ => and_congr_right fun _ => ?_
      refine exists_congr fun observedBucket => and_congr_right fun _ => ?_
      iterate 2 refine exists_congr fun _ => and_congr_right fun _ => ?_
      cases bucketOf observedBucket with
      | none => exact ⟨Except.ok.inj, congrArg Except.ok⟩
      | some b => exact ⟨Except.ok.inj, congrArg Except.ok⟩

/-- The entry that is accepted for a value, as its file has it. -/
def accepted (rt : Platform) (raw : Json) : Option StoredEntry :=
  ((validateCacheEntry rt raw).toOption.bind Except.toOption).map CacheEntryV1.stored

/-! ## Well formed entries are accepted -/

theorem hexN_of_hexOf (hrt : rt.Lawful) {len : ℕ} {v : Option Json} {h : Hex len} (hlen : 0 < len)
    (hv : hexOf len v = some h) : hexN rt v len = .ok h := by
  unfold hexOf at hv
  split at hv
  · next t =>
    dsimp only at hv
    split at hv
    · next hdigits =>
      obtain rfl := Option.some.inj hv
      have hne : t ≠ [] := by
        rintro rfl
        exact hlen.ne hdigits.1
      have htruthy : (Json.str t).truthy = true := by simpa [Json.truthy] using hne
      have htext : textOrEmpty rt (some (.str t)) = .ok t := by
        rw [textOrEmpty, if_pos htruthy, hrt.text_str]
      have hlower : rt.toLowerCase (strip0x t) = (strip0x t).map Char.toLower :=
        hrt.toLowerCase_hex _ hdigits.2
      have hfull : (strip0x t).map Char.toLower ≠ [] := by
        intro hnil
        rw [hnil] at hdigits
        exact hlen.ne hdigits.1
      unfold hexN
      rw [htext]
      simp only [hlower]
      rw [dif_pos ⟨hfull, hdigits.2⟩, dif_pos hdigits.1]
    · cases hv
  · cases hv

theorem numberOrZero_of_numberOf (hrt : rt.Lawful) {v : Option Json} {n : JsNum}
    (hv : numberOf rt v = some n) : numberOrZero rt v = .ok n := by
  unfold numberOf at hv
  split at hv
  · next t =>
    have hnumber : rt.number (.num t) = .ok n := by
      cases hresult : rt.number (.num t) with
      | error e =>
        rw [hresult] at hv
        cases hv
      | ok m =>
        rw [hresult] at hv
        exact congrArg Except.ok (Option.some.inj hv)
    unfold numberOrZero
    by_cases ht : t = ['0']
    · rw [ht, hrt.number_zero] at hnumber
      rw [ht, ← Except.ok.inj hnumber]
      rfl
    · have htruthy : (Json.num t).truthy = true := by simpa [Json.truthy] using ht
      simp only [htruthy, if_true]
      rw [hnumber]
      rfl
  · cases hv

theorem eq_of_integerIn {lo hi : ℤ} {n : JsNum} {q : ℚ} (h : integerIn lo hi n = some q) :
    n = .fin q ∧ lo ≤ q ∧ q ≤ hi := by
  unfold integerIn at h
  split at h
  · split at h
    · next hq =>
      obtain rfl := Option.some.inj h
      exact ⟨rfl, hq.2⟩
    · cases h
  · cases h

theorem atLeastOne_of_integerIn {hi : ℤ} {n : JsNum} {q : ℚ} (h : integerIn 1 hi n = some q) :
    written (atLeastOne n) = some q := by
  obtain ⟨rfl, hlo, -⟩ := eq_of_integerIn h
  rw [Int.cast_one] at hlo
  unfold atLeastOne
  rw [if_neg (by simp)]
  split
  · next hle =>
    have hone : q = 1 := le_antisymm (by simpa [JsNum.le] using hle) hlo
    rw [hone]
    rfl
  · rfl

theorem clampBps_of_integerIn {n : JsNum} {q : ℚ} (h : integerIn 0 10000 n = some q) :
    written (clampBps n) = some q := by
  obtain ⟨rfl, hlo, hhi⟩ := eq_of_integerIn h
  rw [Int.cast_zero] at hlo
  norm_num at hhi
  unfold clampBps
  rw [if_neg (by simp)]
  split
  · next hle =>
    have hzero : q = 0 := le_antisymm (by simpa [JsNum.le] using hle) hlo
    rw [hzero]
    rfl
  · split
    · next hle =>
      have hfull : q = 10000 := le_antisymm hhi (by simpa [JsNum.le] using hle)
      rw [hfull]
      rfl
    · rfl

theorem accepted_of_wellFormed (hrt : rt.Lawful) {e : StoredEntry} (h : wellFormed rt raw = some e) :
    accepted rt raw = some e := by
  unfold wellFormed at h
  split at h
  · next hobject =>
    simp only [Option.bind_eq_bind, Option.bind_eq_some_iff, Option.pure_def, Option.some.injEq] at h
    obtain ⟨nameHash, hname, parentNameHash, hparent, rrsetHash, hrrset, ttlS, ⟨ttl, httl, httlS⟩,
      confidenceBps, ⟨confidence, hconfidence, hconfidenceBps⟩, observedBucket,
      ⟨bucket, hbucket, hobserved⟩, witnessPubkey, hwitness, signature, hsignature, rfl⟩ := h
    have hvalid : validateCacheEntry rt raw = .ok _ := validateCacheEntry_eq_ok.2 (.inr (.inr ⟨hobject.1, hobject.2,
      nameHash, hexN_of_hexOf hrt (by norm_num) hname,
      parentNameHash, hexN_of_hexOf hrt (by norm_num) hparent,
      rrsetHash, hexN_of_hexOf hrt (by norm_num) hrrset,
      ttl, numberOrZero_of_numberOf hrt httl,
      confidence, numberOrZero_of_numberOf hrt hconfidence,
      bucket, numberOrZero_of_numberOf hrt hbucket,
      witnessPubkey, hexN_of_hexOf hrt (by norm_num) hwitness,
      signature, hexN_of_hexOf hrt (by norm_num) hsignature, rfl⟩))
    rw [hobserved] at hvalid
    unfold accepted
    rw [hvalid]
    show some (CacheEntryV1.stored _) = _
    unfold CacheEntryV1.stored
    dsimp only
    rw [atLeastOne_of_integerIn httlS, clampBps_of_integerIn hconfidenceBps]
  · cases h

/-! ## Other entries -/

theorem skipped_iff : Skipped rt raw ↔ ∃ reason, validateCacheEntry rt raw = .ok (.error reason) := by
  constructor
  · intro h
    cases hobject : isObject raw with
    | false => exact ⟨_, validateCacheEntry_eq_ok.2 (.inl ⟨hobject, rfl⟩)⟩
    | true =>
      cases hforbidden : (keysOf raw).any (forbidden.contains ·) with
      | true => exact ⟨_, validateCacheEntry_eq_ok.2 (.inr (.inl ⟨hobject, hforbidden, rfl⟩))⟩
      | false =>
        rcases h with h | h | ⟨hread, hnone⟩
        · rw [hobject] at h
          cases h
        · rw [hforbidden] at h
          cases h
        · obtain ⟨nameHash, hname⟩ := hread.hex (nameHashKey, 64) (by simp [hexKeys])
          obtain ⟨parentNameHash, hparent⟩ := hread.hex (parentNameHashKey, 64) (by simp [hexKeys])
          obtain ⟨rrsetHash, hrrset⟩ := hread.hex (rrsetHashKey, 64) (by simp [hexKeys])
          obtain ⟨witnessPubkey, hwitness⟩ := hread.hex (witnessKey, 64) (by simp [hexKeys])
          obtain ⟨signature, hsignature⟩ := hread.hex (signatureKey, 128) (by simp [hexKeys])
          obtain ⟨ttlS, httl⟩ := hread.number ttlKey (by simp [numberKeys])
          obtain ⟨confidenceBps, hconfidence⟩ := hread.number confidenceKey (by simp [numberKeys])
          obtain ⟨bucket, hbucket⟩ := hread.number bucketKey (by simp [numberKeys])
          have hvalid : validateCacheEntry rt raw = .ok _ := validateCacheEntry_eq_ok.2 (.inr (.inr ⟨hobject, hforbidden,
            nameHash, hname, parentNameHash, hparent, rrsetHash, hrrset, ttlS, httl, confidenceBps,
            hconfidence, bucket, hbucket, witnessPubkey, hwitness, signature, hsignature, rfl⟩))
          rw [hnone bucket hbucket] at hvalid
          exact ⟨_, hvalid⟩
  · rintro ⟨reason, h⟩
    rcases validateCacheEntry_eq_ok.1 h with ⟨hobject, -⟩ | ⟨-, hforbidden, -⟩ | ⟨-, -, nameHash, hname,
      parentNameHash, hparent, rrsetHash, hrrset, ttlS, httl, confidenceBps, hconfidence, bucket, hbucket,
      witnessPubkey, hwitness, signature, hsignature, hresult⟩
    · exact .inl hobject
    · exact .inr (.inl hforbidden)
    · refine .inr (.inr ⟨⟨?_, ?_⟩, ?_⟩)
      · simp only [hexKeys, List.forall_mem_cons, List.not_mem_nil, false_imp_iff, implies_true, and_true]
        exact ⟨⟨_, hname⟩, ⟨_, hparent⟩, ⟨_, hrrset⟩, ⟨_, hwitness⟩, ⟨_, hsignature⟩⟩
      · simp only [numberKeys, List.forall_mem_cons, List.not_mem_nil, false_imp_iff, implies_true,
          and_true]
        exact ⟨⟨_, httl⟩, ⟨_, hconfidence⟩, ⟨_, hbucket⟩⟩
      · intro n hn
        obtain rfl := Except.ok.inj (hbucket.symm.trans hn)
        cases hvalue : bucketOf bucket with
        | none => rfl
        | some b =>
          rw [hvalue] at hresult
          cases hresult

theorem accepted_of_skipped (h : Skipped rt raw) : accepted rt raw = none := by
  obtain ⟨reason, hreason⟩ := skipped_iff.1 h
  rw [accepted, hreason]
  rfl

/-! ## Requests -/

variable {entries : List Json} {body : Json}

theorem filterMap_accepted {results : List (Except InvalidReason (CacheEntryV1 JsNum))}
    (h : entries.mapM (validateCacheEntry rt) = .ok results) :
    (results.filterMap Except.toOption).map CacheEntryV1.stored = entries.filterMap (accepted rt) := by
  have hresults := Results.mapM_eq_ok_iff.1 h
  clear h
  induction hresults with
  | nil => rfl
  | @cons raw r entries results hraw _ ih =>
    have hhead : accepted rt raw = r.toOption.map CacheEntryV1.stored := by
      rw [accepted, hraw]
      rfl
    rw [List.filterMap_cons, List.filterMap_cons, hhead]
    cases r with
    | error reason => exact ih
    | ok v => exact congrArg (v.stored :: ·) ih

/-- No entry throws. -/
def NoneThrows (rt : Platform) (entries : List Json) : Prop :=
  ∀ raw ∈ entries, ∃ r, validateCacheEntry rt raw = .ok r

/-- A request whose entries do not throw stores the accepted ones. -/
theorem get_ingest_accepted (h : NoneThrows rt (entriesOf body)) (files : Files) (parentHash : Hex 64) :
    (ingest rt files body).1.get parentHash = extend (files.get parentHash) (Grouping.ofKey
      CacheEntryV1.parentNameHash parentHash ((entriesOf body).filterMap (accepted rt))) := by
  obtain ⟨results, hresults⟩ := Results.mapM_ok_iff.2 h
  rw [get_ingest, ← filterMap_accepted hresults]
  unfold Request.entries Request.accepted acceptedOf
  dsimp only
  rw [hresults]
  unfold Grouping.ofKey
  rw [List.filter_map]
  rfl

theorem not_crashed (h : NoneThrows rt (entriesOf body)) (files : Files) (error : EntryError) :
    (ingest rt files body).2 ≠ .crashed error := by
  obtain ⟨results, hresults⟩ := Results.mapM_ok_iff.2 h
  unfold ingest
  split
  · exact nofun
  · have haccepted : acceptedOf rt (entriesOf body) = .ok (results.filterMap Except.toOption) := by
      rw [acceptedOf, hresults]
      rfl
    rw [haccepted]
    split
    · next heq => cases heq
    · exact nofun
    · exact nofun

/-- An entry that throws ends its request. -/
theorem noneThrows_of_answered (h : ∀ error, (ingest rt .empty body).2 ≠ .crashed error) :
    NoneThrows rt (entriesOf body) := by
  cases hresults : (entriesOf body).mapM (validateCacheEntry rt) with
  | ok results => exact Results.mapM_ok_iff.1 ⟨results, hresults⟩
  | error error =>
    refine absurd ?_ (h error)
    have haccepted : acceptedOf rt (entriesOf body) = .error error := by
      rw [acceptedOf, hresults]
      rfl
    unfold ingest
    split
    · next hnil =>
      rw [hnil] at hresults
      cases hresults
    · rw [haccepted]

/-- An element with a value that it should not have makes a list of values too long. -/
theorem length_filterMap_lt {α β : Type} {f g : α → Option β} (hle : ∀ a b, g a = some b → f a = some b)
    {p : β → Bool} {l : List α} {a : α} {b : β} (ha : a ∈ l) (hf : f a = some b) (hb : p b = true)
    (hg : g a = none) : ((l.filterMap g).filter p).length < ((l.filterMap f).filter p).length := by
  have hmono (l : List α) : ((l.filterMap g).filter p).length ≤ ((l.filterMap f).filter p).length := by
    refine ((List.Sublist.filter p) ?_).length_le
    induction l with
    | nil => exact List.Sublist.refl _
    | cons x l ih =>
      rw [List.filterMap_cons, List.filterMap_cons]
      cases hx : g x with
      | some y =>
        rw [hle x y hx]
        exact ih.cons_cons y
      | none =>
        cases f x with
        | none => exact ih
        | some y => exact ih.cons y
  obtain ⟨s, t, rfl⟩ := List.append_of_mem ha
  have hs := hmono s
  have ht := hmono t
  rw [List.filterMap_append, List.filterMap_append, List.filterMap_cons_none hg,
    List.filterMap_cons_some hf, List.filter_append, List.filter_append, List.filter_cons_of_pos hb,
    List.length_append, List.length_append, List.length_cons]
  omega

theorem extend_none_inj {l l' : List StoredEntry} (h : extend none l = extend none l') : l = l' := by
  unfold extend at h
  split_ifs at h with hl hl'
  · rw [hl, hl']
  · exact Option.some.inj h

/-- **A request keeps its entries apart** exactly if each of them is well formed or skipped by a check
that does not throw. -/
theorem isolated_iff (rt : Platform) (body : Json) (hrt : rt.Lawful) : Isolated rt body ↔
    ∀ raw ∈ entriesOf body, (wellFormed rt raw).isSome ∨ Skipped rt raw := by
  have hle (raw : Json) (e : StoredEntry) : wellFormed rt raw = some e → accepted rt raw = some e :=
    accepted_of_wellFormed hrt
  constructor
  · intro h raw hraw
    have hnone := noneThrows_of_answered (h.answered .empty)
    obtain ⟨r, hr⟩ := hnone raw hraw
    cases r with
    | error reason => exact .inr (skipped_iff.2 ⟨reason, hr⟩)
    | ok v =>
      refine .inl ?_
      by_contra hill
      have hstored := h.stored .empty v.parentNameHash
      rw [get_ingest_accepted hnone, FinMap.get_empty] at hstored
      have hlength := congrArg List.length (extend_none_inj hstored)
      have haccepted : accepted rt raw = some v.stored := by
        rw [accepted, hr]
        rfl
      have hlt := length_filterMap_lt (p := fun e => e.parentNameHash = v.parentNameHash) hle hraw
        haccepted (decide_eq_true rfl) (Option.not_isSome_iff_eq_none.1 hill)
      exact absurd hlength hlt.ne'
  · intro h
    have hnone : NoneThrows rt (entriesOf body) := by
      intro raw hraw
      rcases h raw hraw with hwell | hskipped
      · obtain ⟨e, he⟩ := Option.isSome_iff_exists.1 hwell
        cases hresult : validateCacheEntry rt raw with
        | ok r => exact ⟨r, rfl⟩
        | error error =>
          have haccepted := hle raw e he
          rw [accepted, hresult] at haccepted
          cases haccepted
      · obtain ⟨reason, hreason⟩ := skipped_iff.1 hskipped
        exact ⟨_, hreason⟩
    have hsame : (entriesOf body).filterMap (accepted rt) = wellFormedOf rt (entriesOf body) := by
      refine List.filterMap_congr fun raw hraw => ?_
      rcases h raw hraw with hwell | hskipped
      · obtain ⟨e, he⟩ := Option.isSome_iff_exists.1 hwell
        rw [he, hle raw e he]
      · cases hwell : wellFormed rt raw with
        | none => exact accepted_of_skipped hskipped
        | some e =>
          rw [← hle raw e hwell]
    exact ⟨not_crashed hnone, fun files parentHash => by rw [get_ingest_accepted hnone, hsame]⟩

theorem exampleBase_lawful : exampleBase.Lawful where
  text_str _ := rfl
  number_zero := rfl
  toLowerCase_hex _ _ := rfl

def exampleBody (entries : List Json) : Json := .obj [(entriesKey, .arr entries)]

/-- A well formed entry next to one that is no object. -/
theorem exampleBody_isolated : Isolated exampleBase (exampleBody [exampleRaw exampleOnes, .null]) := by
  refine (isolated_iff exampleBase _ exampleBase_lawful).2 fun raw hraw => ?_
  have hcases : raw = exampleRaw exampleOnes ∨ raw = .null := by
    simpa [exampleBody, entriesOf, Json.field] using hraw
  rcases hcases with rfl | rfl
  · refine .inl ?_
    decide +kernel
  · exact .inr (.inl rfl)

/-- An entry without hashes takes a well formed one with it. -/
theorem exampleBody_not_isolated :
    ¬Isolated exampleBase (exampleBody [exampleRaw exampleOnes, .obj []]) := by
  intro h
  have hmem : Json.obj [] ∈ entriesOf (exampleBody [exampleRaw exampleOnes, .obj []]) := by
    simp [exampleBody, entriesOf, Json.field]
  obtain ⟨r, hr⟩ := noneThrows_of_answered (h.answered .empty) _ hmem
  have hthrows : validateCacheEntry exampleBase (.obj []) = .error (.invalidHex 64) := rfl
  rw [hthrows] at hr
  cases hr

end Ddns.CacheRollup
