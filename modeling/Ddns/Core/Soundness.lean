import Ddns.Core.Commitment

/-!
# What a proof of inclusion shows

`verifyProof` takes siblings of any length, and a leaf hashes a text as a node does. So a proof may come
through a leaf: if the name of a record begins with a digest, then the record is the node above that
digest and what follows it. A proof for an entry that verifies against the root of the registry shows
that the entry is listed, or that a registered name begins with a digest on the way from the entry
(`listed_or_grafted`); and each such name does give a proof (`exists_proof`). A name whose labels have
the 63 characters that DNS allows begins with no digest (`listed_of_labels`).
-/

namespace Ddns.Core.Registry

open Merkle

/-- The siblings with their sides; a direction that is not there counts as `right`. -/
def stepsOf : List JsText → List Side → List (Side × JsText)
  | [], _ => []
  | sibling :: siblings, directions =>
    (if directions.head? = some .left then .left else .right, sibling) ::
      stepsOf siblings directions.tail

def MerkleProof.steps (p : MerkleProof) : List (Side × JsText) := stepsOf p.siblings p.directions

/-- The texts that `verifyProof` hashes for an entry. -/
def provedTexts (rt : Runtime) (entry : RegistryRecord) (proof : MerkleProof) : List JsText :=
  leafText rt entry :: climbed (hashText rt) (hashText rt (leafText rt entry)) proof.steps

/-- A record of the registry has the name and the canonical text of the entry. -/
def Listed (rt : Runtime) (records : List RegistryRecord) (entry : RegistryRecord) : Prop :=
  ∃ record ∈ records, normalizeRegistryName rt record.name = normalizeRegistryName rt entry.name ∧
    canonicalText rt record = canonicalText rt entry

/-- The name of a record begins with a digest on the way from the entry. -/
def Grafted (rt : Runtime) (records : List RegistryRecord) (entry : RegistryRecord) : Prop :=
  ∃ record ∈ records, ∃ steps,
    climb (hashPair rt) (hashText rt (leafText rt entry)) steps <+:
      normalizeRegistryName rt record.name

/-! ## Proofs as ways up -/

theorem computeRoot_eq (rt : Runtime) (leaf : JsText) (siblings : List JsText)
    (directions : List Side) :
    computeRoot rt leaf siblings directions =
      climb (hashPair rt) leaf (stepsOf siblings directions) := by
  induction siblings generalizing leaf directions with
  | nil => rfl
  | cons sibling siblings ih =>
    rw [computeRoot, ih, stepsOf]
    unfold climb
    rw [List.foldl_cons]
    unfold hashPair
    split <;> rfl

theorem verifyProof_iff {rt : Runtime} {root leaf : JsText} {proof : MerkleProof} :
    verifyProof rt root leaf proof = true ↔ climb (hashPair rt) leaf proof.steps = root := by
  unfold verifyProof MerkleProof.steps
  rw [decide_eq_true_eq, computeRoot_eq]

/-- Each way up is that of a proof. -/
theorem steps_unzip (steps : List (Side × JsText)) :
    (⟨steps.map Prod.snd, steps.map Prod.fst⟩ : MerkleProof).steps = steps := by
  unfold MerkleProof.steps
  induction steps with
  | nil => rfl
  | cons step steps ih =>
    obtain ⟨side, sibling⟩ := step
    rw [List.map_cons, List.map_cons, stepsOf, List.head?_cons, List.tail_cons, ih]
    cases side <;> rfl

/-! ## Leaves -/

theorem leafText_eq (rt : Runtime) (record : RegistryRecord) :
    leafText rt record = normalizeRegistryName rt record.name ++ '\n' :: canonicalText rt record :=
  rfl

/-- The name stands before the last line break, and the canonical text behind it. -/
theorem parts_of_leafText {rt : Runtime} {record record' : RegistryRecord}
    (h : leafText rt record = leafText rt record') :
    normalizeRegistryName rt record.name = normalizeRegistryName rt record'.name ∧
      canonicalText rt record = canonicalText rt record' := by
  have hcanonical := canonicalText_of_leafText h
  rw [leafText_eq, leafText_eq, hcanonical] at h
  exact ⟨List.append_cancel_right h, hcanonical⟩

/-- The text of an accepted record ends with a brace. -/
theorem getLast?_leafText {rt : Runtime} {record : RegistryRecord}
    (h : ∃ canonical, canonicalizeRecord rt record = .ok canonical) :
    (leafText rt record).getLast? = some '}' := by
  obtain ⟨canonical, hcanonical⟩ := h
  have hbrace : canonical.getLast? = some '}' := by
    unfold canonicalizeRecord at hcanonical
    cases hentries : normalizeRecordEntries rt record.records with
    | error e =>
      rw [hentries] at hcanonical
      cases hcanonical
    | ok entries =>
      rw [hentries] at hcanonical
      cases hcanonical
      unfold payload Json.stringify
      rw [Json.print]
      unfold Json.braces
      rw [← List.cons_append, List.getLast?_concat]
  have htext : canonicalText rt record = canonical := by
    unfold canonicalText
    rw [hcanonical]
    rfl
  rw [leafText_eq, htext, List.getLast?_append, List.getLast?_cons, hbrace]
  rfl

/-- A character that is no digit of a digest does not occur in one. -/
theorem not_mem_bytesToHex {c : Char} (hc : ∀ n < 16, Json.hexDigit n ≠ c) (bytes : List UInt8) :
    c ∉ bytesToHex bytes := by
  intro h
  obtain ⟨b, -, hb⟩ := List.mem_flatMap.1 h
  have hlt := b.toNat_lt
  rcases List.mem_pair.1 hb with h | h
  · exact hc (b.toNat / 16) (by omega) h.symm
  · exact hc (b.toNat % 16) (by omega) h.symm

theorem brace_ne_hexDigit : ∀ n < 16, Json.hexDigit n ≠ '}' := by
  decide

theorem dot_ne_hexDigit : ∀ n < 16, Json.hexDigit n ≠ '.' := by
  decide

/-! ## Soundness -/

section Sound

variable {rt : Runtime} {records : List RegistryRecord} {entry : RegistryRecord}

theorem mem_leafHashes_iff {a : JsText} : a ∈ leafHashes rt records ↔
    ∃ record ∈ records, hashText rt (leafText rt record) = a := by
  rw [leafHashes_eq, List.mem_map]
  simp only [(sortRecords_perm rt records).mem_iff]

/-- The root of records is the top of their tree. -/
theorem top_of_root (h : Accepted rt records) (hne : records ≠ []) {root : JsText}
    (hroot : buildMerkleRoot rt records = .ok root) :
    top (levels (hashPair rt) (leafHashes rt records)) = some root := by
  obtain ⟨a, ha⟩ := top_isSome (hashPair rt) (leafHashes_ne_nil rt hne)
  rw [buildMerkleRoot_eq h, if_neg hne] at hroot
  have htop : treeRoot (buildTree rt ((sortRecords rt records).map (leafFor rt))) = a :=
    congrArg (Option.getD · []) ha
  rw [ha, ← Except.ok.inj hroot, htop]

/-- The text of a leaf on the way up begins with a digest: it does not end with one. -/
theorem prefix_of_combined {c : JsText} (hdigest : c.length = 64) {bytes : List UInt8}
    (hbytes : c = bytesToHex bytes) {record : RegistryRecord}
    (haccepted : ∃ canonical, canonicalizeRecord rt record = .ok canonical)
    {step : Side × JsText} (h : combined c step = leafText rt record) :
    c <+: normalizeRegistryName rt record.name := by
  have hlast := getLast?_leafText haccepted
  unfold combined at h
  split at h
  · -- a leaf text ends with a brace, and a digest does not
    rw [← h, List.getLast?_append] at hlast
    have hne : c ≠ [] := List.ne_nil_of_length_pos (by omega)
    rw [List.getLast?_eq_some_getLast hne, Option.some_or] at hlast
    have hmem : '}' ∈ c := Option.some.inj hlast ▸ List.getLast_mem hne
    rw [hbytes] at hmem
    exact absurd hmem (not_mem_bytesToHex brace_ne_hexDigit bytes)
  · rw [leafText_eq] at h
    rcases List.append_eq_append_iff.1 h with ⟨rest, hname, -⟩ | ⟨rest, hdigits, hrest⟩
    · exact ⟨rest, hname.symm⟩
    · cases rest with
      | nil =>
        rw [List.append_nil] at hdigits
        exact hdigits ▸ List.prefix_rfl
      | cons x rest =>
        obtain ⟨rfl, -⟩ := List.cons_eq_cons.1 hrest
        have hmem : '\n' ∈ c := hdigits ▸ List.mem_append_right _ List.mem_cons_self
        rw [hbytes] at hmem
        exact absurd hmem (newline_not_mem_bytesToHex bytes)

theorem hashLeaf_eq_ok {leaf : JsText} (h : hashLeaf rt entry = .ok leaf) :
    (∃ canonical, canonicalizeRecord rt entry = .ok canonical) ∧
      leaf = hashText rt (leafText rt entry) := by
  unfold hashLeaf at h
  unfold leafText canonicalText
  cases hcanonical : canonicalizeRecord rt entry with
  | error e =>
    rw [hcanonical] at h
    cases h
  | ok canonical =>
    rw [hcanonical] at h
    exact ⟨⟨canonical, rfl⟩, (Except.ok.inj h).symm⟩

/-- A way up ends at the digest of a text that is hashed for it. -/
theorem climb_text (rt : Runtime) (entry : RegistryRecord) (proof : MerkleProof) :
    ∃ t ∈ provedTexts rt entry proof, t ≠ [] ∧
      climb (hashPair rt) (hashText rt (leafText rt entry)) proof.steps = hashText rt t := by
  unfold provedTexts
  generalize proof.steps = steps
  induction steps using List.reverseRecOn with
  | nil =>
    exact ⟨_, List.mem_cons_self, List.ne_nil_of_mem (newline_mem_leafText rt entry), rfl⟩
  | append_singleton steps step ih =>
    refine ⟨_, List.mem_cons_of_mem _ (combined_mem_climbed _ _ steps [] step), ?_,
      climb_concat (hashText rt) _ steps step⟩
    have hlen := length_climb (hashText rt) (length_hashText rt)
      (length_hashText rt (leafText rt entry)) steps
    intro hnil
    have hzero := congrArg List.length hnil
    unfold combined at hzero
    split at hzero <;> rw [List.length_append, List.length_nil] at hzero <;> omega

/-- **Soundness**: a proof of an entry that verifies against the root of the registry shows that the
entry is listed, or it comes through the name of a record. -/
theorem listed_or_grafted (h : Accepted rt records) {root leaf : JsText}
    (hroot : buildMerkleRoot rt records = .ok root) (hleaf : hashLeaf rt entry = .ok leaf)
    {proof : MerkleProof} (hverify : verifyProof rt root leaf proof = true)
    (hfree : CollisionFree rt (hashedTexts rt records ++ provedTexts rt entry proof)) :
    Listed rt records entry ∨ Grafted rt records entry := by
  obtain ⟨-, rfl⟩ := hashLeaf_eq_ok hleaf
  rw [verifyProof_iff] at hverify
  by_cases hne : records = []
  · -- without records the root is the digest of the empty text
    rw [buildMerkleRoot_eq h, if_pos hne] at hroot
    obtain ⟨t, ht, hnil, hclimb⟩ := climb_text rt entry proof
    rw [hclimb, ← Except.ok.inj hroot] at hverify
    refine absurd (hfree.eq (List.mem_append_right _ ht) (List.mem_append_left _ ?_) hverify) hnil
    rw [hne]
    exact List.mem_cons_self
  have htop := top_of_root h hne hroot
  rw [← hverify] at htop
  have hentry : leafText rt entry ∈ hashedTexts rt records ++ provedTexts rt entry proof :=
    List.mem_append_right _ List.mem_cons_self
  have hclimbed (t : JsText) (ht : t ∈ climbed (hashText rt) (hashText rt (leafText rt entry))
      proof.steps) : t ∈ hashedTexts rt records ++ provedTexts rt entry proof :=
    List.mem_append_right _ (List.mem_cons_of_mem _ ht)
  have hpair {p : JsText × JsText} (hp : p ∈ hashedPairs (hashPair rt) (leafHashes rt records)) :
      p.1 ++ p.2 ∈ hashedTexts rt records ++ provedTexts rt entry proof :=
    List.mem_append_left _ (mem_hashedTexts_of_pair hp)
  have hlisted {record : RegistryRecord} (hrecord : record ∈ records) :
      leafText rt record ∈ hashedTexts rt records ++ provedTexts rt entry proof :=
    List.mem_append_left _ (leafText_mem ((sortRecords_perm rt records).mem_iff.2 hrecord))
  have hlen : ∀ b ∈ leafHashes rt records, b.length = 64 := by
    intro b hb
    obtain ⟨record, -, rfl⟩ := mem_leafHashes_iff.1 hb
    exact length_hashText rt _
  rcases isNode_or_grafted (hashText rt) (length_hashText rt) hlen (length_hashText rt _)
    (fun t ht p hp heq => hfree.eq (hclimbed t ht) (hpair hp) heq) (isNode_of_top htop) with
    (hmem | ⟨p, hp, heq⟩) | ⟨below, step, above, hsteps, hmem⟩
  · obtain ⟨record, hrecord, heq⟩ := mem_leafHashes_iff.1 hmem
    exact .inl ⟨record, hrecord, parts_of_leafText (hfree.eq (hlisted hrecord) hentry heq)⟩
  · -- the entry is no node, as its text has a line break
    have hnewline := newline_mem_leafText rt entry
    rw [hfree.eq hentry (hpair hp) heq] at hnewline
    obtain ⟨hfst, hsnd⟩ := digests_of_pair hp
    exact absurd hnewline (List.not_mem_append hfst.2 hsnd.2)
  · obtain ⟨record, hrecord, heq⟩ := mem_leafHashes_iff.1 hmem
    have hway : combined (climb (hashPair rt) (hashText rt (leafText rt entry)) below) step ∈
        climbed (hashText rt) (hashText rt (leafText rt entry)) proof.steps := by
      rw [hsteps]
      exact combined_mem_climbed (hashText rt) _ below above step
    have htext := hfree.eq (hclimbed _ hway) (hlisted hrecord) heq.symm
    have hdigest : ∃ bytes, climb (hashPair rt) (hashText rt (leafText rt entry)) below =
        bytesToHex bytes := by
      rcases List.eq_nil_or_concat' below with rfl | ⟨steps, last, rfl⟩
      · exact ⟨_, rfl⟩
      · exact ⟨_, climb_concat (hashText rt) _ steps last⟩
    obtain ⟨bytes, hbytes⟩ := hdigest
    exact .inr ⟨record, hrecord, below, prefix_of_combined
      (length_climb (hashText rt) (length_hashText rt) (length_hashText rt _) below) hbytes
      (h record hrecord) htext⟩

/-! ## Proofs that exist -/

/-- There is a way from each leaf to the root. -/
theorem exists_climb (h : Accepted rt records) {root : JsText}
    (hroot : buildMerkleRoot rt records = .ok root) {record : RegistryRecord}
    (hrecord : record ∈ records) :
    ∃ steps, climb (hashPair rt) (hashText rt (leafText rt record)) steps = root := by
  obtain ⟨i, hi⟩ := List.mem_iff_getElem?.1 (mem_leafHashes_iff.2 ⟨record, hrecord, rfl⟩)
  have htop := top_of_root h (List.ne_nil_of_mem hrecord) hroot
  rw [climb_path (hashPair rt) undefinedText hi] at htop
  exact ⟨_, Option.some.inj htop⟩

/-- A way through the name of a record goes on to the root. -/
theorem exists_proof (h : Accepted rt records) {root leaf : JsText}
    (hroot : buildMerkleRoot rt records = .ok root) (hleaf : hashLeaf rt entry = .ok leaf)
    (hshown : Listed rt records entry ∨ Grafted rt records entry) :
    ∃ proof, verifyProof rt root leaf proof = true := by
  obtain ⟨-, rfl⟩ := hashLeaf_eq_ok hleaf
  have hclimb : ∃ steps, climb (hashPair rt) (hashText rt (leafText rt entry)) steps = root := by
    rcases hshown with ⟨record, hrecord, hname, hcanonical⟩ | ⟨record, hrecord, below, rest, hname⟩
    · have htext : leafText rt entry = leafText rt record := by
        rw [leafText_eq, leafText_eq, hname, hcanonical]
      rw [htext]
      exact exists_climb h hroot hrecord
    · obtain ⟨above, habove⟩ := exists_climb h hroot hrecord
      refine ⟨below ++ (.right, rest ++ '\n' :: canonicalText rt record) :: above, ?_⟩
      have hside : ¬Side.right = .left := by decide
      have htext : combined (climb (hashPair rt) (hashText rt (leafText rt entry)) below)
          (.right, rest ++ '\n' :: canonicalText rt record) = leafText rt record := by
        unfold combined
        rw [if_neg hside, ← List.append_assoc, hname]
        rfl
      have hway := climb_append (hashText rt) (hashText rt (leafText rt entry)) below
        ((.right, rest ++ '\n' :: canonicalText rt record) :: above)
      rw [climb_cons] at hway
      exact hway.trans ((congrArg (fun t => climb (hashPair rt) (hashText rt t) above) htext).trans
        habove)
  obtain ⟨steps, hsteps⟩ := hclimb
  refine ⟨⟨steps.map Prod.snd, steps.map Prod.fst⟩, verifyProof_iff.2 ?_⟩
  rw [steps_unzip]
  exact hsteps

/-- **What a proof shows**: that the entry is listed, or that the name of a record begins with a digest
on the way from it. There is a proof exactly for these entries. -/
theorem proof_shows (h : Accepted rt records) {root leaf : JsText}
    (hroot : buildMerkleRoot rt records = .ok root) (hleaf : hashLeaf rt entry = .ok leaf) :
    ((Listed rt records entry ∨ Grafted rt records entry) →
        ∃ proof, verifyProof rt root leaf proof = true) ∧
      ∀ proof, verifyProof rt root leaf proof = true →
        CollisionFree rt (hashedTexts rt records ++ provedTexts rt entry proof) →
        Listed rt records entry ∨ Grafted rt records entry :=
  ⟨exists_proof h hroot hleaf, fun _ hverify hfree => listed_or_grafted h hroot hleaf hverify hfree⟩

/-! ## Names with short labels -/

/-- The first label of a name. -/
def firstLabel (name : JsText) : JsText := name.takeWhile (· ≠ '.')

/-- No name with labels as short as DNS has them begins with a digest. -/
theorem not_grafted (hshort : ∀ record ∈ records,
      (firstLabel (normalizeRegistryName rt record.name)).length ≤ 63) :
    ¬Grafted rt records entry := by
  rintro ⟨record, hrecord, steps, rest, hname⟩
  have hlabel := hshort record hrecord
  have hlen := length_climb (hashText rt) (length_hashText rt)
    (length_hashText rt (leafText rt entry)) steps
  have hdot : ∀ c ∈ climb (hashPair rt) (hashText rt (leafText rt entry)) steps, c ≠ '.' := by
    rintro c hc rfl
    rcases List.eq_nil_or_concat' steps with rfl | ⟨below, last, rfl⟩
    · exact not_mem_bytesToHex dot_ne_hexDigit _ hc
    · have hlast := climb_concat (hashText rt) (hashText rt (leafText rt entry)) below last
      exact not_mem_bytesToHex dot_ne_hexDigit _ (hlast ▸ hc)
  unfold firstLabel at hlabel
  rw [← hname, List.takeWhile_append_of_pos fun c hc => decide_eq_true (hdot c hc),
    List.length_append] at hlabel
  have hdigest : (climb (hashPair rt) (hashText rt (leafText rt entry)) steps).length = 64 := hlen
  omega

/-- Among such names, a proof shows that the entry is listed. -/
theorem listed_of_labels (h : Accepted rt records)
    (hshort : ∀ record ∈ records, (firstLabel (normalizeRegistryName rt record.name)).length ≤ 63)
    {root leaf : JsText} (hroot : buildMerkleRoot rt records = .ok root)
    (hleaf : hashLeaf rt entry = .ok leaf) {proof : MerkleProof}
    (hverify : verifyProof rt root leaf proof = true)
    (hfree : CollisionFree rt (hashedTexts rt records ++ provedTexts rt entry proof)) :
    Listed rt records entry :=
  (listed_or_grafted h hroot hleaf hverify hfree).resolve_right (not_grafted hshort)

/-! ## A name that proves an entry -/

/-- `.dns` -/
def dnsSuffix : JsText := ['.', 'd', 'n', 's']

/-- The characters of the name below. -/
def nameChars : List Char :=
  ['0', '1', '2', '3', '4', '5', '6', '7', '8', '9', 'a', 'b', 'c', 'd', 'e', 'f', '.', 'n', 's']

/-- The record under the digest of the entry. -/
def graft (rt : Runtime) (entry record : RegistryRecord) : RegistryRecord :=
  { record with name := hashText rt (leafText rt entry) ++ dnsSuffix }

theorem hexDigit_mem_nameChars : ∀ n < 16, Json.hexDigit n ∈ nameChars := by
  decide

theorem dnsSuffix_subset : ∀ c ∈ dnsSuffix, c ∈ nameChars := by
  simp [dnsSuffix, nameChars]

theorem not_whitespace : ∀ c ∈ nameChars, JsText.isWhitespace c = false := by
  have hall : nameChars.all fun c => !JsText.isWhitespace c := by decide
  intro c hc
  simpa using List.all_eq_true.1 hall c hc

theorem mem_nameChars (rt : Runtime) (text : JsText) :
    ∀ c ∈ hashText rt text ++ dnsSuffix, c ∈ nameChars := by
  intro c hc
  rcases List.mem_append.1 hc with hc | hc
  · obtain ⟨b, -, hb⟩ := List.mem_flatMap.1 hc
    have hlt := b.toNat_lt
    rcases List.mem_pair.1 hb with rfl | rfl
    · exact hexDigit_mem_nameChars (b.toNat / 16) (by omega)
    · exact hexDigit_mem_nameChars (b.toNat % 16) (by omega)
  · exact dnsSuffix_subset c hc

/-- A name of these characters is normal. -/
theorem normalizeRegistryName_graft
    (hkeeps : ∀ t : JsText, (∀ c ∈ t, c ∈ nameChars) → rt.toLowerCase t = t ∧ rt.toASCII t = t)
    (entry record : RegistryRecord) : normalizeRegistryName rt (graft rt entry record).name =
      hashText rt (leafText rt entry) ++ dnsSuffix := by
  have hchars := mem_nameChars rt (leafText rt entry)
  obtain ⟨hlower, hascii⟩ := hkeeps _ hchars
  have htrim : JsText.trim (hashText rt (leafText rt entry) ++ dnsSuffix) =
      hashText rt (leafText rt entry) ++ dnsSuffix :=
    JsText.trim_of_all fun c hc => not_whitespace c (hchars c hc)
  have hdot : stripDot (hashText rt (leafText rt entry) ++ dnsSuffix) =
      hashText rt (leafText rt entry) ++ dnsSuffix := by
    unfold stripDot
    rw [List.getLast?_append]
    rfl
  unfold normalizeRegistryName graft
  dsimp only
  rw [htrim, hdot, hlower, hascii]

/-- **A single name proves an entry**: with a record more, whose name is the digest of the entry and
ends with `.dns`, the registry has a proof for the entry. -/
theorem anyone_provable
    (hkeeps : ∀ t : JsText, (∀ c ∈ t, c ∈ nameChars) → rt.toLowerCase t = t ∧ rt.toASCII t = t)
    (h : Accepted rt records) {record : RegistryRecord}
    (hrecord : ∃ canonical, canonicalizeRecord rt record = .ok canonical) {leaf : JsText}
    (hleaf : hashLeaf rt entry = .ok leaf) :
    dnsSuffix <:+ normalizeRegistryName rt (graft rt entry record).name ∧
      ∃ root proof, buildMerkleRoot rt (graft rt entry record :: records) = .ok root ∧
        verifyProof rt root leaf proof = true := by
  have hname := normalizeRegistryName_graft hkeeps entry record
  have haccepted : Accepted rt (graft rt entry record :: records) := by
    intro r hr
    rcases List.mem_cons.1 hr with rfl | hr
    · obtain ⟨canonical, hcanonical⟩ := hrecord
      unfold canonicalizeRecord at hcanonical ⊢
      have hentries : (graft rt entry record).records = record.records := rfl
      rw [hentries]
      cases hnormalized : normalizeRecordEntries rt record.records with
      | error e =>
        rw [hnormalized] at hcanonical
        cases hcanonical
      | ok entries => exact ⟨_, rfl⟩
    · exact h r hr
  have hroot := buildMerkleRoot_eq haccepted
  have hgrafted : Grafted rt (graft rt entry record :: records) entry := by
    refine ⟨_, List.mem_cons_self, [], ?_⟩
    rw [hname]
    exact List.prefix_append _ _
  obtain ⟨proof, hproof⟩ := exists_proof haccepted hroot hleaf (.inr hgrafted)
  rw [hname]
  exact ⟨List.suffix_append _ _, _, proof, hroot, hproof⟩

end Sound

theorem exampleRuntime_keeps : ∀ t : JsText, (∀ c ∈ t, c ∈ nameChars) →
    exampleRuntime.toLowerCase t = t ∧ exampleRuntime.toASCII t = t := by
  intro t ht
  have hall : nameChars.all fun c => Char.toLower c = c := by decide
  have hlower (c : Char) (hc : c ∈ t) : Char.toLower c = c := by
    simpa using List.all_eq_true.1 hall c (ht c hc)
  have hmap : t.map Char.toLower = t := by
    rw [List.map_congr_left hlower, List.map_id']
  exact ⟨hmap, rfl⟩

/-- The leaf of an entry of the example. -/
def exampleLeaf (name : JsText) : JsText :=
  hashText exampleRuntime (leafText exampleRuntime (exampleNamed name))

theorem exampleAccepted : Accepted exampleRuntime [exampleNamed ['a'], exampleNamed ['b']] := by
  intro record hrecord
  rcases List.mem_pair.1 hrecord with rfl | rfl <;> exact exampleNamed_accepted _

theorem hashLeaf_exampleNamed (name : JsText) :
    hashLeaf exampleRuntime (exampleNamed name) = .ok (exampleLeaf name) := by
  have haccepted : Accepted exampleRuntime [exampleNamed name] := by
    intro record hrecord
    rw [List.mem_singleton.1 hrecord]
    exact exampleNamed_accepted name
  exact haccepted.hashLeaf List.mem_cons_self

/-- The second of two records has a proof. -/
theorem proof_shows_listed : ∃ root proof,
    buildMerkleRoot exampleRuntime [exampleNamed ['a'], exampleNamed ['b']] = .ok root ∧
      verifyProof exampleRuntime root (exampleLeaf ['b']) proof = true := by
  have hroot := buildMerkleRoot_eq exampleAccepted
  have hmem : exampleNamed ['b'] ∈ [exampleNamed ['a'], exampleNamed ['b']] :=
    List.mem_cons_of_mem _ List.mem_cons_self
  obtain ⟨proof, hproof⟩ := (proof_shows exampleAccepted hroot
    (hashLeaf_exampleNamed ['b'])).1 (.inl ⟨_, hmem, rfl, rfl⟩)
  exact ⟨_, proof, hroot, hproof⟩

/-- A record that is not there has a proof after one was entered under its digest. -/
theorem anyone_provable_unlisted : ∃ root proof,
    buildMerkleRoot exampleRuntime
        [graft exampleRuntime (exampleNamed ['c']) (exampleNamed ['a']), exampleNamed ['a'],
          exampleNamed ['b']] = .ok root ∧
      verifyProof exampleRuntime root (exampleLeaf ['c']) proof = true :=
  (anyone_provable exampleRuntime_keeps exampleAccepted (exampleNamed_accepted ['a'])
    (hashLeaf_exampleNamed ['c'])).2

end Ddns.Core.Registry
