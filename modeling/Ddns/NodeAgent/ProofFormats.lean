import Ddns.Gateway.RegistryPath
import Ddns.Gateway.Resolve
import Ddns.NodeAgent.Agent

/-!
# The proofs that the node agent reads

The agent stores a response with a proof only if it can verify the proof (`tasks/prefetch.rs`,
`verify.rs`). It looks for the steps of the tool that prints roots, and it accepts a proof of the tool
exactly for a name of the registry, whatever else the response says (`tool_cached_iff`). A proof of the
gateway lists siblings and directions instead, so an answer of the gateway is stored exactly if it comes
without a proof (`gateway_cached_iff`).
-/

namespace Ddns.NodeAgent

/-! ## Reading JSON -/

mutual

/-- The value that is read from the text of a value of JSON, with the numbers that are read from the
texts of numbers. -/
def Value.ofJson (number : JsText → Number) : Json → Value
  | .null => .null
  | .bool b => .bool b
  | .num text => .number (number text)
  | .str s => .string s
  | .arr items => .array (Value.ofItems number items)
  | .obj fields => .object (collect (Value.ofFields number fields))
termination_by structural j => j

def Value.ofItems (number : JsText → Number) : List Json → List Value
  | [] => []
  | j :: js => Value.ofJson number j :: Value.ofItems number js
termination_by structural js => js

def Value.ofFields (number : JsText → Number) : List (JsText × Json) → List (JsText × Value)
  | [] => []
  | f :: fs => Value.ofField number f :: Value.ofFields number fs
termination_by structural fs => fs

def Value.ofField (number : JsText → Number) : JsText × Json → JsText × Value
  | (k, j) => (k, Value.ofJson number j)
termination_by structural f => f

end

section Formats

open Core.Registry (RecordProof RootTool.ToolProof)

variable {crates : Crates} {number : JsText → Number}

theorem ofJson_arr (items : List Json) :
    Value.ofJson number (.arr items) = .array (items.map (Value.ofJson number)) := by
  rw [Value.ofJson]
  congr 1
  induction items with
  | nil => rfl
  | cons j js ih => rw [Value.ofItems, ih, List.map_cons]

theorem ofJson_obj (fields : List (JsText × Json)) : Value.ofJson number (.obj fields) =
    .object (collect (fields.map fun f => (f.1, Value.ofJson number f.2))) := by
  rw [Value.ofJson]
  congr 2
  induction fields with
  | nil => rfl
  | cons f fs ih =>
    obtain ⟨k, j⟩ := f
    rw [Value.ofFields, ih, Value.ofField, List.map_cons]

/-- With distinct keys, a key is found exactly where it stands. -/
theorem find?_key_iff {β : Type*} {l : List (JsText × β)} (hn : (l.map Prod.fst).Nodup) {key : JsText}
    {v : β} : (l.find? fun e => e.1 = key).map Prod.snd = some v ↔ (key, v) ∈ l := by
  constructor
  · intro h
    obtain ⟨⟨k, w⟩, hfind, heq⟩ := Option.map_eq_some_iff.1 h
    cases heq
    obtain rfl : k = key := by simpa using List.find?_some hfind
    exact List.mem_of_find?_eq_some hfind
  · intro h
    obtain ⟨e, he⟩ : ∃ e, l.find? (fun e => e.1 = key) = some e := by
      rw [← Option.isSome_iff_exists, List.find?_isSome]
      exact ⟨(key, v), h, by simp⟩
    have hkey : e.1 = key := by simpa using List.find?_some he
    have heq := List.inj_on_of_nodup_map hn (List.mem_of_find?_eq_some he) h hkey
    rw [he, heq]
    rfl

/-- A property of an object that is read is read from the property. -/
theorem get_ofJson {fields : List (JsText × Json)} (hn : (fields.map Prod.fst).Nodup) (key : JsText) :
    (Value.ofJson number (.obj fields)).get key =
      ((Json.obj fields).field key).map (Value.ofJson number) := by
  let es := fields.map fun f => (f.1, Value.ofJson number f.2)
  have hkeys : es.map Prod.fst = fields.map Prod.fst := by
    rw [List.map_map]
    rfl
  have hperm : (collect es).Perm es := by
    rw [collect_eq (hkeys ▸ hn)]
    exact Json.sortFields_perm compare es
  have hcollect : ((collect es).map Prod.fst).Nodup := (hperm.map Prod.fst).nodup_iff.2 (hkeys ▸ hn)
  rw [ofJson_obj]
  refine Option.ext fun v => ?_
  show ((collect es).find? fun e => e.1 = key).map Prod.snd = some v ↔ _
  rw [find?_key_iff hcollect, hperm.mem_iff, List.mem_map]
  constructor
  · rintro ⟨⟨k, j⟩, hmem, heq⟩
    cases heq
    exact Option.map_eq_some_iff.2 ⟨j, (find?_key_iff hn).2 hmem, rfl⟩
  · intro h
    obtain ⟨j, hj, rfl⟩ := Option.map_eq_some_iff.1 h
    exact ⟨(key, j), (find?_key_iff hn).1 hj, rfl⟩

/-! ## The gateway -/

def siblingsKey : JsText := ['s', 'i', 'b', 'l', 'i', 'n', 'g', 's']
def directionsKey : JsText := ['d', 'i', 'r', 'e', 'c', 't', 'i', 'o', 'n', 's']
def versionKey : JsText := ['v', 'e', 'r', 's', 'i', 'o', 'n']
def networkKey : JsText := ['n', 'e', 't', 'w', 'o', 'r', 'k']
def recordsKey : JsText := ['r', 'e', 'c', 'o', 'r', 'd', 's']
def sourceKey : JsText := ['s', 'o', 'u', 'r', 'c', 'e']
def registryVersionKey : JsText := "registryVersion".toList
def registryUpdatedAtKey : JsText := "registryUpdatedAt".toList
def authoritySigKey : JsText := "authoritySig".toList
def authorityPubKeyKey : JsText := "authorityPubKey".toList

/-- A direction, or a position, as it is printed. -/
def sideText : Merkle.Side → JsText
  | .left => leftText
  | .right => ['r', 'i', 'g', 'h', 't']

/-- The proof that the gateway sends. -/
def gatewayProofFields (payload : Gateway.RegistryPath.Resolved) (proof : RecordProof) :
    List (JsText × Json) :=
  [(rootKey, .str payload.root), (versionKey, payload.registryVersion.toJson),
    (leafKey, .str proof.leaf), (siblingsKey, .arr (proof.proof.siblings.map .str)),
    (directionsKey, .arr (proof.proof.directions.map fun side => .str (sideText side)))]

/-- The metadata that the gateway sends, with what the signature adds. -/
def metadataFields (payload : Gateway.RegistryPath.Resolved) (signed : Gateway.Resolve.Metadata) :
    List (JsText × Json) :=
  [(sourceKey, .str ['r', 'e', 'g', 'i', 's', 't', 'r', 'y']),
    (registryVersionKey, payload.registryVersion.toJson),
    (registryUpdatedAtKey, .str payload.registryUpdatedAt), (rootKey, .str payload.root)] ++
  ((payload.proof.map fun proof => (proofKey, .obj (gatewayProofFields payload proof))).toList ++
    ((signed.resultHash.map fun t => (Coordinator.resultHashKey, Json.str t)).toList ++
      ((signed.authoritySig.map fun t => (authoritySigKey, Json.str t)).toList ++
        (signed.authorityPubKey.map fun t => (authorityPubKeyKey, Json.str t)).toList)))

/-- The answer of the gateway for a name of the registry; `records` are printed as they come out of the
clamp. -/
def responseFields (name : JsText) (records : List Json) (payload : Gateway.RegistryPath.Resolved)
    (signed : Gateway.Resolve.Metadata) : List (JsText × Json) :=
  [(nameKey, .str name), (networkKey, .str ['d', 'n', 's']), (recordsKey, .arr records),
    (metadataKey, .obj (metadataFields payload signed))]

/-- The keys of the metadata, all of them where everything is there. -/
theorem keys_metadataFields (payload : Gateway.RegistryPath.Resolved)
    (signed : Gateway.Resolve.Metadata) : ((metadataFields payload signed).map Prod.fst).Sublist
      ([sourceKey, registryVersionKey, registryUpdatedAtKey, rootKey] ++
        ((payload.proof.map fun _ => proofKey).toList ++ ([Coordinator.resultHashKey] ++
          ([authoritySigKey] ++ [authorityPubKeyKey])))) := by
  unfold metadataFields
  simp only [List.map_append]
  refine (List.Sublist.refl _).append (.append ?_ (.append ?_ (.append ?_ ?_)))
  · cases payload.proof <;> simp
  · cases signed.resultHash <;> simp
  · cases signed.authoritySig <;> simp
  · cases signed.authorityPubKey <;> simp

theorem nodup_metadataFields (payload : Gateway.RegistryPath.Resolved)
    (signed : Gateway.Resolve.Metadata) : ((metadataFields payload signed).map Prod.fst).Nodup := by
  refine List.Nodup.sublist (keys_metadataFields payload signed) ?_
  cases payload.proof with
  | none => exact (by decide : [sourceKey, registryVersionKey, registryUpdatedAtKey, rootKey,
      Coordinator.resultHashKey, authoritySigKey, authorityPubKeyKey].Nodup)
  | some proof => exact (by decide : [sourceKey, registryVersionKey, registryUpdatedAtKey, rootKey,
      proofKey, Coordinator.resultHashKey, authoritySigKey, authorityPubKeyKey].Nodup)

/-- The metadata have a proof exactly if the answer has one. -/
theorem field_metadataFields (payload : Gateway.RegistryPath.Resolved)
    (signed : Gateway.Resolve.Metadata) : (Json.obj (metadataFields payload signed)).field proofKey =
      payload.proof.map fun proof => .obj (gatewayProofFields payload proof) := by
  cases hproof : payload.proof with
  | some proof =>
    refine (find?_key_iff (nodup_metadataFields payload signed)).2 ?_
    simp [metadataFields, hproof]
  | none =>
    have hkeys := keys_metadataFields payload signed
    rw [hproof] at hkeys
    have hmissing : proofKey ∉ [sourceKey, registryVersionKey, registryUpdatedAtKey, rootKey,
        Coordinator.resultHashKey, authoritySigKey, authorityPubKeyKey] := by decide
    unfold Json.field
    rw [Option.map_none, Option.map_eq_none_iff, List.find?_eq_none]
    intro f hf hkey
    exact hmissing (of_decide_eq_true hkey ▸ hkeys.subset (List.mem_map_of_mem hf))

/-- The agent finds the proof of the gateway where it looks for it. -/
theorem proof_of_response (name : JsText) (records : List Json)
    (payload : Gateway.RegistryPath.Resolved) (signed : Gateway.Resolve.Metadata) :
    ((Value.ofJson number (.obj (responseFields name records payload signed))).get metadataKey).bind
      (Value.get proofKey) = payload.proof.map fun proof =>
        Value.ofJson number (.obj (gatewayProofFields payload proof)) := by
  have hkeys : ((responseFields name records payload signed).map Prod.fst).Nodup :=
    (by decide : [nameKey, networkKey, recordsKey, metadataKey].Nodup)
  rw [get_ofJson hkeys]
  show (Value.ofJson number (.obj (metadataFields payload signed))).get proofKey = _
  rw [get_ofJson (nodup_metadataFields payload signed), field_metadataFields, Option.map_map]
  rfl

/-- A proof of the gateway lists no steps, so it proves nothing to the agent. -/
theorem not_proves_gateway (payload : Gateway.RegistryPath.Resolved) (proof : RecordProof) :
    (Value.ofJson number (.obj (gatewayProofFields payload proof))).proves crates = false := by
  have hkeys : ((gatewayProofFields payload proof).map Prod.fst).Nodup :=
    (by decide : [rootKey, versionKey, leafKey, siblingsKey, directionsKey].Nodup)
  have hnone : (Value.ofJson number (.obj (gatewayProofFields payload proof))).get proofKey = none := by
    rw [get_ofJson hkeys]
    rfl
  unfold Value.proves
  rw [hnone]
  split
  · next h => cases h
  · rfl

/-! ## The tool -/

open Core.Registry (RegistryRecord Leaf treeRoot)
open Core.Registry.RootTool (Platform Step ToolProof hashPair buildTree buildLeaves leafHashes leafOf
  normalizeName)

def stepFields (step : Step) : List (JsText × Json) :=
  [(hashKey, .str step.hash), (positionKey, .str (sideText step.position))]

/-- The proof that the tool prints. -/
def toolProofFields (proof : ToolProof) : List (JsText × Json) :=
  [(leafKey, .str proof.leaf), (proofKey, .arr (proof.proof.map fun step => .obj (stepFields step))),
    (rootKey, .str proof.root)]

/-- A step of the tool, as the agent reads it. -/
def readStep (step : Step) : ProofStep := ⟨step.hash, sideText step.position⟩

theorem fromValue_step (step : Step) :
    ProofStep.fromValue (Value.ofJson number (.obj (stepFields step))) = some (readStep step) := by
  have hkeys : ((stepFields step).map Prod.fst).Nodup := (by decide : [hashKey, positionKey].Nodup)
  have hhash : (Value.ofJson number (.obj (stepFields step))).get hashKey = some (.string step.hash) :=
    get_ofJson hkeys hashKey
  have hposition : (Value.ofJson number (.obj (stepFields step))).get positionKey =
      some (.string (sideText step.position)) := get_ofJson hkeys positionKey
  rw [ofJson_obj] at hhash hposition ⊢
  unfold ProofStep.fromValue
  dsimp only
  rw [hhash, hposition]
  rfl

theorem stepsFromValue_tool (steps : List Step) : stepsFromValue
    (Value.ofJson number (.arr (steps.map fun step => .obj (stepFields step)))) =
      some (steps.map readStep) := by
  rw [ofJson_arr, List.map_map]
  unfold stepsFromValue
  dsimp only
  induction steps with
  | nil => rfl
  | cons step steps ih =>
    rw [List.map_cons, List.mapM_cons, ih, Function.comp_apply, fromValue_step]
    rfl

/-- The agent reads from the proof of the tool what the tool printed. -/
theorem proves_tool (proof : ToolProof) :
    (Value.ofJson number (.obj (toolProofFields proof))).proves crates =
      verifyProof crates proof.root proof.leaf (proof.proof.map readStep) := by
  have hkeys : ((toolProofFields proof).map Prod.fst).Nodup :=
    (by decide : [leafKey, proofKey, rootKey].Nodup)
  have hroot : (Value.ofJson number (.obj (toolProofFields proof))).get rootKey =
      some (.string proof.root) := get_ofJson hkeys rootKey
  have hleaf : (Value.ofJson number (.obj (toolProofFields proof))).get leafKey =
      some (.string proof.leaf) := get_ofJson hkeys leafKey
  have hsteps : (Value.ofJson number (.obj (toolProofFields proof))).get proofKey =
      some (Value.ofJson number (.arr (proof.proof.map fun step => .obj (stepFields step)))) :=
    get_ofJson hkeys proofKey
  unfold Value.proves
  simp only [hroot, hleaf, hsteps, Option.bind_some, Value.asStr, stepsFromValue_tool]

/-- The agent climbs the steps of the tool. -/
theorem foldl_readStep {p : Platform} (hsha : crates.sha256 = p.sha256) (leaf : JsText)
    (steps : List Step) : (steps.map readStep).foldl (ProofStep.combine crates) leaf =
      Merkle.climb (hashPair p) leaf
        (steps.map fun step => (step.position, step.hash)) := by
  have hstep (computed : JsText) (step : Step) : (readStep step).combine crates computed =
      if step.position = .left then hashPair p step.hash computed
      else hashPair p computed step.hash := by
    unfold ProofStep.combine
    rw [hsha]
    cases hside : step.position with
    | left =>
      have hleft : (readStep step).position = leftText := congrArg sideText hside
      rw [if_pos hleft]
      rfl
    | right =>
      have hright : (readStep step).position ≠ leftText :=
        (congrArg sideText hside).trans_ne (by decide)
      rw [if_neg hright]
      rfl
  unfold Merkle.climb
  rw [List.foldl_map, List.foldl_map]
  exact congrFun (congrFun (congrArg List.foldl (funext fun computed => funext (hstep computed))) _) _

/-- A record has the name, as the tool normalizes it. -/
def Named (p : Platform) (records : List RegistryRecord) (name : JsText) : Prop :=
  ∃ record ∈ records, normalizeName p record.name = normalizeName p name

/-- The root of a registry with records is a digest. -/
theorem length_toolRoot (p : Platform) {records : List RegistryRecord} (hne : records ≠ []) :
    (treeRoot (buildTree p (buildLeaves p records))).length = 64 := by
  have hlength : (leafHashes p records).length = records.length := by
    rw [Core.Registry.RootTool.leafHashes_eq, List.length_map]
    exact (Core.Registry.sortRecords_perm p.toRuntime records).length_eq
  have hnonempty : leafHashes p records ≠ [] := fun hnil =>
    hne (List.length_eq_zero_iff.1 (hlength ▸ congrArg List.length hnil))
  obtain ⟨a, ha⟩ := Merkle.top_isSome (hashPair p) hnonempty
  have hroot : treeRoot (buildTree p (buildLeaves p records)) = a := congrArg (Option.getD · []) ha
  rw [hroot]
  rcases Merkle.top_mem (hashPair p) ha with hmem | ⟨q, -, rfl⟩
  · rw [Core.Registry.RootTool.leafHashes_eq] at hmem
    obtain ⟨record, -, rfl⟩ := List.mem_map.1 hmem
    exact Core.Registry.RootTool.length_hashText _
  · exact Core.Registry.RootTool.length_hashText _

/-- **The agent accepts a proof of the tool** exactly for a name of the registry, or without records. -/
theorem verifyProof_tool_iff {p : Platform} (hsha : crates.sha256 = p.sha256)
    (records : List RegistryRecord) (name : JsText) :
    verifyProof crates (Core.Registry.RootTool.buildProof p records name).root
      (Core.Registry.RootTool.buildProof p records name).leaf
      ((Core.Registry.RootTool.buildProof p records name).proof.map readStep) = true ↔
        Named p records name ∨ records = [] := by
  let leaves := buildLeaves p records
  let has (leaf : Leaf) : Bool := leaf.name = normalizeName p name
  have hperm : leaves.Perm (records.map (leafOf p)) := List.perm_insertionSort _ _
  have hnamed : Named p records name ↔ ∃ leaf ∈ leaves, has leaf = true := by
    constructor
    · rintro ⟨record, hmem, hname⟩
      exact ⟨leafOf p record, hperm.mem_iff.2 (List.mem_map_of_mem hmem), decide_eq_true hname⟩
    · rintro ⟨leaf, hmem, hname⟩
      obtain ⟨record, hrecord, rfl⟩ := List.mem_map.1 (hperm.mem_iff.1 hmem)
      exact ⟨record, hrecord, of_decide_eq_true hname⟩
  have hfind : leaves.find? has = leaves[leaves.findIdx has]? := List.find?_eq_getElem?_findIdx
  unfold verifyProof
  rw [decide_eq_true_eq, foldl_readStep hsha, hnamed]
  unfold Core.Registry.RootTool.buildProof
  dsimp only
  cases hget : leaves[leaves.findIdx has]? with
  | some leaf =>
    rw [hget] at hfind
    refine iff_of_true ?_ (.inl ⟨leaf, List.mem_of_find?_eq_some hfind, List.find?_some hfind⟩)
    have hhash : (leaves.map Leaf.hash)[leaves.findIdx has]? = some leaf.hash := by
      rw [List.getElem?_map, hget]
      rfl
    have hclimb := Merkle.climb_path (hashPair p) Core.Registry.undefinedText hhash
    have hroot : treeRoot (buildTree p leaves) = _ := congrArg (Option.getD · []) hclimb
    rw [List.map_map]
    refine Eq.trans ?_ hroot.symm
    refine congrArg (Merkle.climb (hashPair p) leaf.hash) ?_
    exact List.map_id' _
  | none =>
    rw [hget, List.find?_eq_none] at hfind
    have hnone : ¬∃ leaf ∈ leaves, has leaf = true := by
      rintro ⟨leaf, hmem, hhas⟩
      exact hfind leaf hmem hhas
    rw [or_iff_right hnone]
    constructor
    · intro hempty
      by_contra hne
      have hlength := length_toolRoot p hne
      have hzero : (treeRoot (buildTree p (buildLeaves p records))).length = 0 :=
        congrArg List.length hempty.symm
      omega
    · rintro rfl
      rfl

/-! ## What is cached -/

theorem shouldCacheResponse_eq {text : JsText} {value : Value} (h : crates.fromStr text = some value) :
    shouldCacheResponse crates text =
      ((value.get metadataKey).bind (Value.get proofKey)).elim true (Value.proves crates) := by
  unfold shouldCacheResponse
  simp only [h]
  cases (value.get metadataKey).bind (Value.get proofKey) <;> rfl

/-- **An answer of the gateway is cached exactly if it comes without a proof**, whatever the proof. -/
theorem gateway_cached_iff {rt : Core.Registry.Runtime} {gateway : Gateway.RegistryPath.Config}
    {s : Gateway.RegistryPath.State} {now done : ℤ} {name : JsText} {proofRequested : Bool}
    {payload : Gateway.RegistryPath.Resolved}
    (hreply : (s.handle rt gateway now done (.resolve name proofRequested)).2 =
      .ok (.resolved payload)) (records : List Json) (signed : Gateway.Resolve.Metadata)
    {text : JsText} (htext : crates.fromStr text =
      some (Value.ofJson number (.obj (responseFields name records payload signed)))) :
    shouldCacheResponse crates text = true ↔ proofRequested = false := by
  have hproof := Gateway.RegistryPath.isSome_proof_of_handle hreply
  rw [shouldCacheResponse_eq htext, proof_of_response]
  cases h : payload.proof with
  | none =>
    rw [h] at hproof
    exact iff_of_true rfl hproof.symm
  | some proof =>
    rw [h] at hproof
    rw [Option.map_some, Option.elim_some, not_proves_gateway, ← hproof]
    simp

/-- **A response with a proof of the tool is cached** exactly if the proof is for a name of the registry,
or the registry is empty; nothing binds the proof to the rest of the response. -/
theorem tool_cached_iff {p : Platform} (hsha : crates.sha256 = p.sha256)
    (records : List RegistryRecord) (name : JsText) {text : JsText} {value : Value}
    (htext : crates.fromStr text = some value)
    (hproof : (value.get metadataKey).bind (Value.get proofKey) = some (Value.ofJson number
      (.obj (toolProofFields (Core.Registry.RootTool.buildProof p records name))))) :
    shouldCacheResponse crates text = true ↔ Named p records name ∨ records = [] := by
  rw [shouldCacheResponse_eq htext, hproof, Option.elim_some, proves_tool, verifyProof_tool_iff hsha]

end Formats

/-! ## Examples -/

section Example

/-- The crates, where only the text of one object is read, and each number as `1`. -/
def readerOf (fields : List (JsText × Json)) : Crates where
  sha256 _ := List.replicate 32 0
  blake3 _ := List.replicate 32 0
  fromStr t := if t = (Json.obj fields).stringify then
    some (Value.ofJson (fun _ => .posInt 1) (.obj fields)) else none
  instantMax := 0

theorem fromStr_stringify (fields : List (JsText × Json)) :
    (readerOf fields).fromStr (Json.obj fields).stringify =
      some (Value.ofJson (fun _ => .posInt 1) (.obj fields)) := if_pos rfl

open Core.Registry (exampleRecord)

/-- What the gateway sends for the record of the example. -/
def exampleReply (proofRequested : Bool) : Option Gateway.RegistryPath.Resolved :=
  match (Gateway.RegistryPath.exampleState.handle Core.Registry.exampleRuntime
      Gateway.RegistryPath.exampleConfig 0 0 (.resolve exampleRecord.name proofRequested)).2 with
  | .ok (.resolved payload) => some payload
  | _ => none

theorem exampleReply_isSome : (exampleReply true).isSome := by
  decide +kernel

/-- An answer with a proof is not cached. -/
theorem gateway_cached_iff_proved : ∃ payload, exampleReply true = some payload ∧
    shouldCacheResponse (readerOf (responseFields exampleRecord.name [] payload {}))
      (Json.obj (responseFields exampleRecord.name [] payload {})).stringify = false := by
  obtain ⟨payload, hpayload⟩ := Option.isSome_iff_exists.1 exampleReply_isSome
  have hreply : (Gateway.RegistryPath.exampleState.handle Core.Registry.exampleRuntime
      Gateway.RegistryPath.exampleConfig 0 0 (.resolve exampleRecord.name true)).2 =
        .ok (.resolved payload) := by
    unfold exampleReply at hpayload
    split at hpayload
    · next h =>
      cases hpayload
      exact h
    · cases hpayload
  have hcached := gateway_cached_iff hreply [] {}
    (fromStr_stringify (responseFields exampleRecord.name [] payload {}))
  refine ⟨payload, hpayload, ?_⟩
  rw [← Bool.not_eq_true, hcached]
  simp

open Core.Registry.RootTool (plainPlatform snapshotRecord)

/-- A response that is nothing but a proof of the tool. -/
def exampleToolFields : List (JsText × Json) :=
  [(metadataKey, .obj [(proofKey, .obj (toolProofFields (Core.Registry.RootTool.buildProof plainPlatform
    [snapshotRecord] snapshotRecord.name)))])]

theorem exampleToolFields_proof :
    ((Value.ofJson (fun _ => .posInt 1) (.obj exampleToolFields)).get metadataKey).bind
      (Value.get proofKey) = some (Value.ofJson (fun _ => .posInt 1) (.obj (toolProofFields
        (Core.Registry.RootTool.buildProof plainPlatform [snapshotRecord] snapshotRecord.name)))) := by
  have hkeys : (exampleToolFields.map Prod.fst).Nodup := List.nodup_singleton _
  have hmetadata : ([(proofKey, Json.obj (toolProofFields (Core.Registry.RootTool.buildProof
      plainPlatform [snapshotRecord] snapshotRecord.name)))].map Prod.fst).Nodup :=
    List.nodup_singleton _
  rw [get_ofJson hkeys]
  exact get_ofJson hmetadata proofKey

theorem tool_cached_iff_named : shouldCacheResponse (readerOf exampleToolFields)
    (Json.obj exampleToolFields).stringify = true := by
  have hsha : (readerOf exampleToolFields).sha256 = plainPlatform.sha256 := rfl
  exact (tool_cached_iff hsha [snapshotRecord] snapshotRecord.name
    (fromStr_stringify exampleToolFields) exampleToolFields_proof).2
      (.inl ⟨snapshotRecord, List.mem_singleton_self _, rfl⟩)

end Example

end Ddns.NodeAgent
