import Ddns.CacheRollup.Root

/-!
# What a rollup awards

Every rollup reads the whole file of its parent and awards the witness of each entry it holds, for an
epoch that the caller chooses. Signatures are not verified. `rollupLaw` says what does hold: a rollup
holds the entries that were ingested, and within it each entry counts in at most one award.
-/

namespace Ddns.CacheRollup

open Runs

/-! ## The signed digest -/

def domainText : JsText :=
  ['D', 'D', 'N', 'S', '_', 'C', 'A', 'C', 'H', 'E', '_', 'E', 'N', 'T', 'R', 'Y', '_', 'V', '1']

/-- A number in `n` bytes; it throws if it does not fit. A fraction is cut off, and `null` is 0. -/
def numberLe (n : ℕ) (v : Option ℚ) : Option (List UInt8) :=
  let q := v.getD 0
  if 0 ≤ q ∧ q ≤ 256 ^ n - 1 then some (Bytes.toLe n q.floor.toNat) else none

/-- What the gateway hashes for a signature. -/
def signedBytes (e : StoredEntry) : Option (List UInt8) := do
  let ttlS ← numberLe 4 e.ttlS
  let confidenceBps ← numberLe 2 e.confidenceBps
  let observedBucket ← numberLe 8 (some (e.observedBucket.1 : ℚ))
  return domainText.utf8 ++ [1] ++ Hex.toBytes e.nameHash.text ++
    Hex.toBytes e.parentNameHash.text ++ Hex.toBytes e.rrsetHash.text ++ ttlS ++ confidenceBps ++
    observedBucket ++ Hex.toBytes e.witnessPubkey.text

/-- The digest that the gateway signs. -/
def hashEntryForSignature (rt : Platform) (e : StoredEntry) : Option Digest :=
  (signedBytes e).map rt.sha256

/-- The signature of an entry verifies under its witness. -/
def Authentic (rt : Platform) (verify : List UInt8 → Digest → List UInt8 → Bool) (e : StoredEntry) :
    Prop :=
  ∃ digest, hashEntryForSignature rt e = some digest ∧
    verify (Hex.toBytes e.signature.text) digest (Hex.toBytes e.witnessPubkey.text) = true

/-! ## Counting -/

/-- The calls of `award_rep` that a rollup sends. -/
def sentAwards : Except RollupError (Option (List (Hex 64 × Option Award))) → List Award
  | .ok (some awards) => awards.filterMap Prod.snd
  | _ => []

/-- The calls of a rollup in which an entry counts: those for its witness, if the rollup holds it. -/
def countingAwards (entry : StoredEntry) (doc : RollupDoc)
    (rep : Except RollupError (Option (List (Hex 64 × Option Award)))) : List Award :=
  if entry ∈ doc.entries then
    (sentAwards rep).filter fun award => award.contributor = entry.witnessPubkey
  else []

/-- The entries in the rollup of an answer. -/
def Answer.entries : Answer → List StoredEntry
  | .rolledUp doc _ => doc.entries
  | _ => []

/-- The calls in which an entry counts that an answer has sent. -/
def Answer.counting (entry : StoredEntry) : Answer → List Award
  | .rolledUp doc rep => countingAwards entry doc rep
  | _ => []

/-- The entries in rollups are authentic. -/
def AuthenticRollups (rt : Platform) (cfg : Config)
    (verify : List UInt8 → Digest → List UInt8 → Bool) (requests : List Request) : Prop :=
  ∀ e ∈ trace (step rt cfg) FinMap.empty requests, ∀ entry ∈ e.out.entries,
    Authentic rt verify entry

/-- An entry counts in at most one call of a run. -/
def CountedOnce (rt : Platform) (cfg : Config) (requests : List Request) : Prop :=
  ∀ entry, ((trace (step rt cfg) FinMap.empty requests).flatMap fun e =>
    e.out.counting entry).length ≤ 1

/-- What a rollup after some requests holds and awards: the entries that they have ingested for its
parent, each of which was valid; an entry counts in one call of it at most, and a call counts the
entries of its contributor. -/
structure RollupLaw (rt : Platform) (before : List Request) (doc : RollupDoc)
    (rep : Except RollupError (Option (List (Hex 64 × Option Award)))) : Prop where
  entries : doc.entries.Perm (ingested rt doc.parentNameHash before)
  valid : ∀ entry ∈ doc.entries, ∃ raw v, validateCacheEntry rt raw = .ok (.ok v) ∧
    v.parentNameHash = doc.parentNameHash ∧ v.stored = entry
  once : ∀ entry, (countingAwards entry doc rep).length ≤ 1
  counted : ∀ award ∈ sentAwards rep, award.acceptedEntries =
    (doc.entries.filter fun entry => entry.witnessPubkey = award.contributor).length

/-- Every rollup of a run keeps the law. -/
def RollupsLawful (rt : Platform) (cfg : Config) (requests : List Request) : Prop :=
  ∀ before request after, requests = before ++ request :: after → ∀ doc rep,
    (step rt cfg (exec (step rt cfg) FinMap.empty before) request).2 = .rolledUp doc rep →
      RollupLaw rt before doc rep

/-! ## One rollup -/

section Rollup

variable {rt : Platform} {cfg : Config} {net : Network} {entries : List StoredEntry}
  {epochId : JsNum}

theorem sent_publishRollup {award : Award}
    (h : award ∈ sentAwards (publishRollup cfg net entries epochId)) :
    award ∈ (maybeAwardRep net entries epochId).filterMap Prod.snd := by
  unfold publishRollup at h
  split_ifs at h
  · cases h
  · cases h
  · exact h
  · cases h

/-- A call counts the entries of its contributor. -/
theorem awardFor_eq_some {contributor : Hex 64} {list : List StoredEntry} {award : Award}
    (h : awardFor epochId contributor list = some award) :
    award.contributor = contributor ∧ award.acceptedEntries = list.length := by
  unfold awardFor at h
  split at h
  · split_ifs at h
    cases h
    exact ⟨rfl, rfl⟩
  · cases h

theorem mem_maybeAwardRep {award : Award}
    (h : award ∈ (maybeAwardRep net entries epochId).filterMap Prod.snd) :
    award.acceptedEntries =
      (entries.filter fun entry => entry.witnessPubkey = award.contributor).length := by
  obtain ⟨a, ha, haward⟩ := List.mem_filterMap.1 h
  obtain ⟨g, hg, rfl⟩ := List.mem_map.1 ha
  dsimp only at haward
  split_ifs at haward
  obtain ⟨hcontributor, haccepted⟩ := awardFor_eq_some haward
  obtain ⟨-, hmembers⟩ := Grouping.mem_group.1 hg
  rw [haccepted, hmembers, hcontributor]
  rfl

/-- There is one call for a contributor at most. -/
theorem nodup_contributors (net : Network) (entries : List StoredEntry) (epochId : JsNum) :
    (((maybeAwardRep net entries epochId).filterMap Prod.snd).map Award.contributor).Nodup := by
  have hkeys := Grouping.nodup_group CacheEntryV1.witnessPubkey entries
  unfold maybeAwardRep
  generalize Grouping.group CacheEntryV1.witnessPubkey entries = groups at hkeys
  induction groups with
  | nil => exact List.nodup_nil
  | cons g groups ih =>
    rw [List.map_cons, List.nodup_cons] at hkeys
    rw [List.map_cons, List.filterMap_cons]
    have hrest := ih hkeys.2
    cases haward : (if net.sends g.1 then awardFor epochId g.1 g.2 else none) with
    | none => exact hrest
    | some award =>
      have hown : award.contributor = g.1 := by
        split_ifs at haward
        exact (awardFor_eq_some haward).1
      refine List.nodup_cons.2 ⟨fun hmem => hkeys.1 ?_, hrest⟩
      obtain ⟨award', haward', heq⟩ := List.mem_map.1 hmem
      obtain ⟨a, ha, hsnd⟩ := List.mem_filterMap.1 haward'
      obtain ⟨g', hg', rfl⟩ := List.mem_map.1 ha
      dsimp only at hsnd
      split_ifs at hsnd
      rw [← hown, ← heq, (awardFor_eq_some hsnd).1]
      exact List.mem_map_of_mem hg'

theorem length_filter_le_one {α κ : Type} [DecidableEq κ] {key : α → κ} {l : List α}
    (h : (l.map key).Nodup) (k : κ) : (l.filter fun a => key a = k).length ≤ 1 := by
  have hcount := List.nodup_iff_count_le_one.1 h k
  rw [List.count, List.countP_map, List.countP_eq_length_filter] at hcount
  refine le_trans (le_of_eq ?_) hcount
  congr 1

/-- An entry counts in one call of a rollup at most. -/
theorem countingAwards_le_one (entry : StoredEntry) {doc : RollupDoc} :
    (countingAwards entry doc (publishRollup cfg net entries epochId)).length ≤ 1 := by
  unfold countingAwards
  split_ifs
  · by_cases hnil : sentAwards (publishRollup cfg net entries epochId) = []
    · rw [hnil]
      exact Nat.zero_le 1
    · have hsent : sentAwards (publishRollup cfg net entries epochId) =
          (maybeAwardRep net entries epochId).filterMap Prod.snd := by
        unfold publishRollup at hnil ⊢
        split_ifs at hnil ⊢
        · exact absurd rfl hnil
        · exact absurd rfl hnil
        · rfl
        · exact absurd rfl hnil
      rw [hsent]
      exact length_filter_le_one (nodup_contributors net entries epochId) _
  · exact Nat.zero_le 1

end Rollup

/-- What a rollup holds and awards. -/
theorem rollup_eq {rt : Platform} {cfg : Config} {files : Files} {parent epoch : JsText} {now : ℕ}
    {net : Network} {doc : RollupDoc}
    {rep : Except RollupError (Option (List (Hex 64 × Option Award)))}
    (h : rollup rt cfg files parent epoch now net = .rolledUp doc rep) :
    ∃ lines, files.get doc.parentNameHash = some lines ∧ doc.entries = sortEntries rt lines ∧
      rep = publishRollup cfg net doc.entries doc.epochId := by
  unfold rollup at h
  dsimp only at h
  split_ifs at h
  cases hlines : files.get (sha256Hex rt (parentOf rt parent)) with
  | none =>
    rw [hlines] at h
    cases h
  | some lines =>
    rw [hlines] at h
    cases h
    exact ⟨lines, hlines, rfl, rfl⟩

/-- **Every rollup** holds what was ingested for its parent, and counts an entry once at most. -/
theorem rollupsLawful (rt : Platform) (cfg : Config) (requests : List Request) :
    RollupsLawful rt cfg requests := by
  intro before request after _ doc rep hout
  cases request with
  | ingest body =>
    unfold step ingest at hout
    dsimp only at hout
    split at hout
    · cases hout
    · split at hout <;> cases hout
  | rollup parent epoch now net =>
    obtain ⟨lines, hlines, hentries, rfl⟩ := rollup_eq hout
    rw [get_exec_empty] at hlines
    split_ifs at hlines
    cases hlines
    have hperm : doc.entries.Perm (ingested rt doc.parentNameHash before) := by
      rw [hentries]
      exact List.perm_insertionSort _ _
    refine ⟨hperm, fun entry hentry => ?_, fun entry => countingAwards_le_one entry, ?_⟩
    · exact exists_raw (hperm.mem_iff.1 hentry)
    · exact fun award haward => mem_maybeAwardRep (sent_publishRollup haward)

/-! ## One entry in two rollups -/

/-- It also knows the digest of the entry that its witness should have signed. -/
def examplePlatformSigned : Platform :=
  { examplePlatform with
    sha256 := fun bytes =>
      if signedBytes (exampleEntry exampleOnes) = some bytes then
        exampleDigest 0xa2160b009c8433d14d05beca3ba9cf9bd34ce732fab7428c940776214218cd69
      else examplePlatform.sha256 bytes }

/-- An entry is ingested and rolled up for two epochs. -/
def exampleRollups : List Request :=
  exampleRequests [exampleOnes] ++
    [.rollup exampleParent ['1'] 0 ⟨true, true, fun _ => true⟩,
      .rollup exampleParent ['2'] 0 ⟨true, true, fun _ => true⟩]

/-- The signature of the entry, 64 bytes of 34, does not verify, and the entry counts twice. -/
theorem exampleRollups_not_lawful :
    ¬AuthenticRollups examplePlatformSigned ⟨false, true⟩ (fun _ _ _ => false) exampleRollups ∧
      ¬CountedOnce examplePlatformSigned ⟨false, true⟩ exampleRollups := by
  constructor
  · intro h
    have he : event (step examplePlatformSigned ⟨false, true⟩)
        (exec (step examplePlatformSigned ⟨false, true⟩) FinMap.empty
          (exampleRequests [exampleOnes]))
        (.rollup exampleParent ['1'] 0 ⟨true, true, fun _ => true⟩) ∈
          trace (step examplePlatformSigned ⟨false, true⟩) FinMap.empty exampleRollups :=
      event_mem_trace _ [.rollup exampleParent ['2'] 0 ⟨true, true, fun _ => true⟩] rfl
    obtain ⟨_, -, hverify⟩ := h _ he (exampleEntry exampleOnes) (by decide +kernel)
    cases hverify
  · intro h
    have hcount := h (exampleEntry exampleOnes)
    exact absurd hcount (by decide +kernel)

end Ddns.CacheRollup
