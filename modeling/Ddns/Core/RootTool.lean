import Ddns.Core.Commitment

/-!
# The tool that prints roots

`scripts/registry-build-root.js` prints the root and the proof that are anchored for the registry of
the gateway (`gateway/src/registry.ts`, `core/src/registry_merkle.ts`). It writes the properties of a
record in another order, and it hashes with another function. So it never prints a root of the registry,
and with its root anchored the gateway resolves no name (`roots_never_agree`). A definition without a
docstring is the item of the source with the same words in its name.
-/

namespace Ddns.Core.Registry.RootTool

open JsText

/-! ## Model -/

/-- What the tool calls besides: SHA-256, whose digests have 32 bytes, and the text of a number in a
template. -/
structure Platform extends Runtime where
  sha256 : List UInt8 → List UInt8
  length_sha256 : ∀ m, (sha256 m).length = 32
  numberText : Number → JsText
  numberText_finite : ∀ d, numberText (.finite d) = d.toText

def normalizeName (p : Platform) (name : JsText) : JsText :=
  let trimmed := stripDot (trim name)
  p.toASCII (p.toLowerCase trimmed)

/-- An entry of a canonical record. -/
structure Item where
  type : JsText
  value : JsText
  ttl : Option Number

/-- `String(entry.value)` -/
def valueText : EntryValue → JsText
  | .text value => value
  | .pair _ _ => Json.objectText

def itemOf (p : Platform) (entry : RecordEntry) : Item :=
  ⟨p.toUpperCase entry.type, valueText entry.value, entry.ttl⟩

/-- The text that entries are sorted by. -/
def itemKey (p : Platform) (e : Item) : JsText :=
  e.type ++ '|' :: e.value ++ '|' :: (e.ttl.map p.numberText).getD []

def sortItems (p : Platform) (items : List Item) : List Item :=
  items.insertionSort fun a b => (p.localeCompare (itemKey p a) (itemKey p b)).isLE

def Item.toJson (e : Item) : Json :=
  .obj ([(['t', 'y', 'p', 'e'], .str e.type), (['v', 'a', 'l', 'u', 'e'], .str e.value)] ++
    (e.ttl.map fun ttl => (['t', 't', 'l'], ttl.toJson)).toList)

/-- The properties that are printed. -/
def fields (p : Platform) (record : RegistryRecord) : List (JsText × Json) :=
  [(['n', 'a', 'm', 'e'], .str (normalizeName p record.name)),
    (['r', 'e', 'c', 'o', 'r', 'd', 's'],
      .arr ((sortItems p (record.records.map (itemOf p))).map Item.toJson)),
    (['v', 'e', 'r', 's', 'i', 'o', 'n'], record.version.toJson),
    (['u', 'p', 'd', 'a', 't', 'e', 'd', 'A', 't'], .str record.updatedAt)] ++
  ((record.owner.filter (· ≠ [])).map fun owner =>
    (['o', 'w', 'n', 'e', 'r'], Json.str owner)).toList

def canonicalizeRecord (p : Platform) (record : RegistryRecord) : JsText :=
  (Json.obj (fields p record)).stringify

/-- The digest of a text. -/
def hashText (p : Platform) (text : JsText) : JsText := bytesToHex (p.sha256 (utf8 text))

/-- The text that a leaf hashes. -/
def leafText (p : Platform) (record : RegistryRecord) : JsText :=
  normalizeName p record.name ++ '\n' :: canonicalizeRecord p record

def hashLeaf (p : Platform) (record : RegistryRecord) : JsText := hashText p (leafText p record)

def leafOf (p : Platform) (record : RegistryRecord) : Leaf :=
  ⟨normalizeName p record.name, hashLeaf p record⟩

def buildLeaves (p : Platform) (records : List RegistryRecord) : List Leaf :=
  (records.map (leafOf p)).insertionSort fun a b => (p.localeCompare a.name b.name).isLE

/-- The node above two nodes. -/
def hashPair (p : Platform) (left right : JsText) : JsText := hashText p (left ++ right)

def buildTree (p : Platform) (leaves : List Leaf) : List (List JsText) :=
  Merkle.levels (hashPair p) (leaves.map Leaf.hash)

/-- A step of a proof. -/
structure Step where
  hash : JsText
  position : Merkle.Side
  deriving DecidableEq

/-- The result of `buildProof`. -/
structure ToolProof where
  leaf : JsText
  proof : List Step
  root : JsText
  deriving DecidableEq

def buildProof (p : Platform) (records : List RegistryRecord) (name : JsText) : ToolProof :=
  let normalized := normalizeName p name
  let leaves := buildLeaves p records
  let tree := buildTree p leaves
  let index := leaves.findIdx fun leaf => leaf.name = normalized
  match leaves[index]? with
  | none => ⟨[], [], treeRoot tree⟩
  | some leaf =>
    let steps := Merkle.path undefinedText tree.dropLast index
    ⟨leaf.hash, steps.map fun s => ⟨s.2, s.1⟩, treeRoot tree⟩

/-- The root that is printed. -/
def root (p : Platform) (records : List RegistryRecord) : JsText :=
  (Merkle.top (buildTree p (buildLeaves p records))).getD (hashText p [])

/-- `buildMerkleRoot` of the gateway. -/
def gatewayMerkleRoot (rt : Runtime) (records : List RegistryRecord) :
    Except RegistryError JsText :=
  match Registry.buildLeaves rt records with
  | .error e => .error e
  | .ok leaves =>
    .ok ((Merkle.top (Registry.buildTree rt leaves)).getD (Registry.hashText rt []))

inductive SnapshotError where
  | invalidName (name : JsText)
  | registry (e : RegistryError)
  deriving DecidableEq

/-- What `validateSnapshot` does for a record. -/
def validateRecord (rt : Runtime) (record : RegistryRecord) : Except SnapshotError Unit :=
  if ¬['.', 'd', 'n', 's'] <:+ normalizeRegistryName rt record.name then
    .error (.invalidName record.name)
  else match normalizeRecordEntries rt record.records with
    | .error e => .error (.registry e)
    | .ok _ => .ok ()

def validateSnapshot (rt : Runtime) : List RegistryRecord → Except SnapshotError Unit
  | [] => .ok ()
  | record :: records =>
    match validateRecord rt record with
    | .error e => .error e
    | .ok () => validateSnapshot rt records

inductive ResolveError where
  | notFound
  | anchorMismatch
  | proofInvalid
  | registry (e : RegistryError)
  deriving DecidableEq

/-- What `/resolve` answers from a snapshot: the record, the root, and the proof if it is requested. -/
def resolve (rt : Runtime) (records : List RegistryRecord) (anchor : Option JsText) (name : JsText)
    (proofRequested : Bool) : Except ResolveError (RegistryRecord × JsText × Option RecordProof) :=
  let normalized := normalizeRegistryName rt name
  match records.find? fun record => normalizeRegistryName rt record.name = normalized with
  | none => .error .notFound
  | some entry =>
    match gatewayMerkleRoot rt records with
    | .error e => .error (.registry e)
    | .ok computedRoot =>
      if anchor.any fun root => root ≠ computedRoot then .error .anchorMismatch
      else
        let root := (anchor.filter (· ≠ [])).getD computedRoot
        if proofRequested then
          match Registry.buildProof rt records name with
          | .error e => .error (.registry e)
          | .ok proof =>
            if verifyProof rt root proof.leaf proof.proof then .ok (entry, root, some proof)
            else .error .proofInvalid
        else .ok (entry, root, none)

/-! ## The law -/

/-- **The roots agree**: the tool prints the root and the leaves of the registry, its proofs lead to the
root, and with its root anchored the gateway finds no mismatch. -/
structure RootsAgree (p : Platform) (records : List RegistryRecord) : Prop where
  core : buildMerkleRoot p.toRuntime records = .ok (root p records)
  gateway : gatewayMerkleRoot p.toRuntime records = .ok (root p records)
  leaf : ∀ record ∈ records, Registry.hashLeaf p.toRuntime record = .ok (hashLeaf p record)
  proof : ∀ name, Occurs p.toRuntime records name → ∀ r,
    gatewayMerkleRoot p.toRuntime records = .ok r →
      verifyProof p.toRuntime r (buildProof p records name).leaf
        ⟨(buildProof p records name).proof.map Step.hash,
          (buildProof p records name).proof.map Step.position⟩ = true
  anchored : ∀ name proofRequested, Occurs p.toRuntime records name →
    resolve p.toRuntime records (some (root p records)) name proofRequested ≠ .error .anchorMismatch

/-- The digests of the leaves, in their order. -/
def leafHashes (p : Platform) (records : List RegistryRecord) : List JsText :=
  (buildLeaves p records).map Leaf.hash

/-- The texts that the tool hashes for a root. -/
def hashedTexts (p : Platform) (records : List RegistryRecord) : List JsText :=
  records.map (leafText p) ++
    (Merkle.hashedPairs (hashPair p) (leafHashes p records)).map fun q => q.1 ++ q.2

/-- SHA-256 and BLAKE3 do not coincide: neither on the empty text nor on two different texts that the
tool and the registry hash. -/
structure NoCoincidence (p : Platform) (records : List RegistryRecord) : Prop where
  empty : p.sha256 [] ≠ p.blake3 []
  texts : ∀ t ∈ hashedTexts p records, ∀ t' ∈ Registry.hashedTexts p.toRuntime records,
    t ≠ t' → p.sha256 (utf8 t) ≠ p.blake3 (utf8 t')

/-! ## The registry -/

/-- The two copies of the registry have the same root. -/
theorem gatewayMerkleRoot_eq (rt : Runtime) (records : List RegistryRecord) :
    gatewayMerkleRoot rt records = buildMerkleRoot rt records := by
  unfold gatewayMerkleRoot buildMerkleRoot
  cases Registry.buildLeaves rt records with
  | error e => rfl
  | ok leaves =>
    cases leaves with
    | nil => rfl
    | cons leaf leaves =>
      obtain ⟨a, ha⟩ := Merkle.top_isSome (Registry.hashPair rt)
        (List.cons_ne_nil leaf.hash (leaves.map Leaf.hash))
      have htop : Merkle.top (Registry.buildTree rt (leaf :: leaves)) = some a := ha
      dsimp only
      rw [if_neg (by simp), treeRoot, htop]
      rfl

/-- The records of a valid snapshot are accepted. -/
theorem accepted_of_validateSnapshot {rt : Runtime} {records : List RegistryRecord}
    (h : validateSnapshot rt records = .ok ()) : Accepted rt records := by
  induction records with
  | nil => exact fun _ hrecord => nomatch hrecord
  | cons record records ih =>
    unfold validateSnapshot at h
    split at h
    · cases h
    next hvalid =>
    refine List.forall_mem_cons.2 ⟨?_, ih h⟩
    unfold validateRecord at hvalid
    split at hvalid
    · cases hvalid
    split at hvalid
    · cases hvalid
    next entries hentries =>
    unfold Registry.canonicalizeRecord
    rw [hentries]
    exact ⟨_, rfl⟩

section Apart

variable {p : Platform} {records : List RegistryRecord} {record : RegistryRecord}

/-! ## Leaves -/

/-- **The canonical texts differ** for every record: the second property is another one. -/
theorem canonicalizeRecord_ne {canonical : JsText}
    (h : Registry.canonicalizeRecord p.toRuntime record = .ok canonical) :
    canonicalizeRecord p record ≠ canonical := by
  unfold Registry.canonicalizeRecord at h
  split at h
  · cases h
  next entries _ =>
  obtain rfl := Except.ok.inj h
  intro heq
  have hkey : (['r', 'e', 'c', 'o', 'r', 'd', 's'] : JsText) =
    ['v', 'e', 'r', 's', 'i', 'o', 'n'] := Json.key_eq_of_stringify heq
  exact absurd hkey (by decide)

theorem leafText_ne (h : Accepted p.toRuntime records) (hrecord : record ∈ records) :
    leafText p record ≠ Registry.leafText p.toRuntime record := by
  intro heq
  have hcanonical := List.append_cancel_left heq
  exact canonicalizeRecord_ne (h.canonicalizeRecord hrecord) (List.cons.inj hcanonical).2

theorem length_hashText (text : JsText) : (hashText p text).length = 64 := by
  unfold hashText
  rw [length_bytesToHex, p.length_sha256]

/-- Different texts have different digests. -/
theorem NoCoincidence.hashText_ne (h : NoCoincidence p records) {t t' : JsText}
    (ht : t ∈ hashedTexts p records) (ht' : t' ∈ Registry.hashedTexts p.toRuntime records)
    (hne : t ≠ t') : hashText p t ≠ Registry.hashText p.toRuntime t' :=
  fun heq => h.texts t ht t' ht' hne (bytesToHex_inj heq)

/-- The tool has the leaves in the order of the registry. -/
theorem leafHashes_eq : leafHashes p records =
    (sortRecords p.toRuntime records).map fun record => hashText p (leafText p record) := by
  have hsort : (sortRecords p.toRuntime records).map (leafOf p) = buildLeaves p records :=
    List.map_insertionSort _ _ _ _ fun _ _ _ _ => Iff.rfl
  unfold leafHashes
  rw [← hsort, List.map_map]
  rfl

theorem leafText_mem (hrecord : record ∈ records) : leafText p record ∈ hashedTexts p records :=
  List.mem_append_left _ (List.mem_map_of_mem hrecord)

/-- No leaf of the tool is the leaf of the registry. -/
theorem hashLeaf_ne (h : Accepted p.toRuntime records) (hfree : NoCoincidence p records)
    (hrecord : record ∈ records) :
    hashText p (leafText p record) ≠
      Registry.hashText p.toRuntime (Registry.leafText p.toRuntime record) := by
  have hsorted := (sortRecords_perm p.toRuntime records).mem_iff.2 hrecord
  exact hfree.hashText_ne (leafText_mem hrecord) (Registry.leafText_mem hsorted)
    (leafText_ne h hrecord)

/-! ## Roots -/

theorem length_of_pair {q : JsText × JsText}
    (hq : q ∈ Merkle.hashedPairs (hashPair p) (leafHashes p records)) :
    q.1.length = 64 ∧ q.2.length = 64 := by
  refine Merkle.forall_hashedPairs (P := fun t => t.length = 64) (hashPair p)
    (fun a b => length_hashText (a ++ b)) ?_ q hq
  intro a ha
  rw [leafHashes_eq] at ha
  obtain ⟨record, -, rfl⟩ := List.mem_map.1 ha
  exact length_hashText _

/-- **No root of the tool is the root of the registry.** -/
theorem root_ne (h : Accepted p.toRuntime records) (hfree : NoCoincidence p records) :
    buildMerkleRoot p.toRuntime records ≠ .ok (root p records) := by
  rw [buildMerkleRoot_eq h]
  by_cases hnil : records = []
  · subst hnil
    intro heq
    have hhex : bytesToHex (p.blake3 []) = bytesToHex (p.sha256 []) := Except.ok.inj heq
    exact hfree.empty (bytesToHex_inj hhex).symm
  rw [if_neg hnil]
  have hleaves : List.Forall₂ (· ≠ ·) (leafHashes p records)
      (Registry.leafHashes p.toRuntime records) := by
    rw [leafHashes_eq, Registry.leafHashes_eq, List.forall₂_map_left_iff,
      List.forall₂_map_right_iff]
    refine List.forall₂_same.2 fun record hrecord => ?_
    have hmem := (sortRecords_perm p.toRuntime records).mem_iff.1 hrecord
    exact hashLeaf_ne h hfree hmem
  have hne : leafHashes p records ≠ [] := by
    intro hempty
    have hlength := hleaves.length_eq
    rw [hempty, length_leafHashes] at hlength
    exact hnil (List.length_eq_zero_iff.1 hlength.symm)
  have htop := Merkle.top_ne (hashPair p) (Registry.hashPair p.toRuntime) hleaves hne
    (by
      intro q hq q' hq' hqq'
      refine hfree.hashText_ne (List.mem_append_right _ (List.mem_map_of_mem hq))
        (mem_hashedTexts_of_pair hq') fun heq => hqq' ?_
      -- the digests of a pair are as long as those of the other
      have hlength := (length_of_pair hq).1.trans (digests_of_pair hq').1.1.symm
      obtain ⟨hfst, hsnd⟩ := List.append_inj heq hlength
      exact Prod.ext hfst hsnd)
  obtain ⟨a, ha⟩ := Merkle.top_isSome (hashPair p) hne
  obtain ⟨b, hb⟩ := Merkle.top_isSome (Registry.hashPair p.toRuntime)
    (Registry.leafHashes_ne_nil p.toRuntime hnil)
  have hroot : root p records = a := congrArg (Option.getD · (hashText p [])) ha
  have hregistry : treeRoot (Registry.buildTree p.toRuntime
      ((sortRecords p.toRuntime records).map (leafFor p.toRuntime))) = b :=
    congrArg (Option.getD · []) hb
  rw [hroot, hregistry]
  intro heq
  exact htop (ha.trans ((congrArg some (Except.ok.inj heq)).symm.trans hb.symm))

/-- With the root of the tool anchored, no name is resolved. -/
theorem resolve_anchored (h : Accepted p.toRuntime records) (hfree : NoCoincidence p records)
    {name : JsText} (hname : Occurs p.toRuntime records name) (proofRequested : Bool) :
    resolve p.toRuntime records (some (root p records)) name proofRequested =
      .error .anchorMismatch := by
  have hne := root_ne h hfree
  obtain ⟨record, hrecord, hnormal⟩ := hname
  have hfound : (records.find? fun record => normalizeRegistryName p.toRuntime record.name =
      normalizeRegistryName p.toRuntime name).isSome :=
    List.find?_isSome.2 ⟨record, hrecord, decide_eq_true hnormal⟩
  obtain ⟨entry, hentry⟩ := Option.isSome_iff_exists.1 hfound
  unfold resolve
  dsimp only
  rw [hentry, gatewayMerkleRoot_eq]
  rw [buildMerkleRoot_eq h] at hne ⊢
  dsimp only
  have hdiffers := fun heq => hne (congrArg Except.ok heq)
  rw [if_pos]
  exact decide_eq_true fun heq => hdiffers heq.symm

/-- **The roots never agree.** Of no valid snapshot does the tool print the root or a leaf, and with its
root anchored no name of the snapshot is resolved. -/
theorem roots_never_agree (p : Platform) (records : List RegistryRecord)
    (h : validateSnapshot p.toRuntime records = .ok ()) (hfree : NoCoincidence p records) :
    ¬RootsAgree p records ∧
      (∀ record ∈ records, Registry.hashLeaf p.toRuntime record ≠ .ok (hashLeaf p record)) ∧
      ∀ name proofRequested, Occurs p.toRuntime records name →
        resolve p.toRuntime records (some (root p records)) name proofRequested =
          .error .anchorMismatch := by
  have haccepted := accepted_of_validateSnapshot h
  refine ⟨fun hagree => root_ne haccepted hfree hagree.core, fun record hrecord => ?_,
    fun name proofRequested hname => resolve_anchored haccepted hfree hname proofRequested⟩
  rw [haccepted.hashLeaf hrecord]
  exact fun heq => hashLeaf_ne haccepted hfree hrecord (Except.ok.inj heq).symm

end Apart

section Example

/-- A record with an owner and a text. -/
def snapshotRecord : RegistryRecord where
  name := ['a', 'l', 'i', 'c', 'e', '.', 'd', 'n', 's']
  records := [⟨ownerType, .text ['k', 'e', 'y'], none⟩,
    ⟨textType, .pair ['u', 'r', 'l'] ['x'], none⟩]
  version := .finite ⟨false, 1, 0, Double.one_shortest⟩
  updatedAt := ['2', '0', '2', '6']
  owner := none

def plainPlatform : Platform where
  toRuntime := exampleRuntime
  sha256 _ := List.replicate 32 0
  length_sha256 _ := List.length_replicate
  numberText
    | .finite d => d.toText
    | .notFinite => ['I', 'n', 'f', 'i', 'n', 'i', 't', 'y']
  numberText_finite _ := rfl

/-- The digests of the empty text and of the leaves of the record. -/
def snapshotPlatform : Platform := { plainPlatform with
  blake3 := fun m =>
    if m = [] then
      [175, 19, 73, 185, 245, 249, 161, 166, 160, 64, 77, 234, 54, 220, 201, 73, 155, 203, 37, 201,
        173, 193, 18, 183, 204, 154, 147, 202, 228, 31, 50, 98]
    else if m = utf8 (Registry.leafText exampleRuntime snapshotRecord) then
      [144, 115, 115, 129, 247, 163, 8, 222, 215, 97, 194, 110, 185, 152, 21, 205, 202, 229, 134, 27,
        223, 20, 127, 113, 33, 71, 173, 22, 18, 56, 214, 148]
    else List.replicate 32 0
  length_blake3 := fun m => by split_ifs <;> rfl
  sha256 := fun m =>
    if m = [] then
      [227, 176, 196, 66, 152, 252, 28, 20, 154, 251, 244, 200, 153, 111, 185, 36, 39, 174, 65, 228,
        100, 155, 147, 76, 164, 149, 153, 27, 120, 82, 184, 85]
    else if m = utf8 (leafText plainPlatform snapshotRecord) then
      [146, 169, 44, 84, 220, 171, 223, 33, 131, 117, 28, 27, 83, 164, 152, 43, 26, 124, 223, 126, 26,
        206, 114, 221, 105, 68, 153, 59, 198, 79, 1, 164]
    else List.replicate 32 0
  length_sha256 := fun m => by split_ifs <;> rfl }

/-- No name of the record is resolved. -/
theorem snapshotRecord_unresolved :
    resolve snapshotPlatform.toRuntime [snapshotRecord] (some (root snapshotPlatform [snapshotRecord]))
      snapshotRecord.name true = .error .anchorMismatch := by
  have hfree : NoCoincidence snapshotPlatform [snapshotRecord] :=
    ⟨by decide +kernel, by decide +kernel⟩
  have hall := roots_never_agree snapshotPlatform [snapshotRecord] (by decide +kernel) hfree
  exact hall.2.2 snapshotRecord.name true ⟨snapshotRecord, List.mem_singleton_self _, rfl⟩

/-- The root of a snapshot of one record is another one. -/
theorem snapshotRecord_disagrees : ¬RootsAgree snapshotPlatform [snapshotRecord] := by
  intro h
  have hroot := h.core
  revert hroot
  decide +kernel

end Example

end Ddns.Core.Registry.RootTool
