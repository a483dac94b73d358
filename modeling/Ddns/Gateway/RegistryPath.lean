import Ddns.Core.RootTool
import Ddns.Lib.Run
import Ddns.Lib.StableSort

/-!
# The registry path of the gateway

A name of the registry is answered from a snapshot, which the gateway reads from a file and keeps for
two seconds (`gateway/src/registry.ts`), after its root is compared with the anchor that an operator
posted last (`gateway/src/anchor.ts`, `gateway/src/server.ts`). Whatever else writes the file, every
answer is certified (`answers_certified`): the snapshot is valid and was in the file less than two
seconds ago, its root is the anchored one, and the proof is one of the very record that is sent. The
errors for a root or a proof that fails are never sent. A definition without a docstring is the item of
the source with the same words in its name.
-/

namespace Ddns.Gateway.RegistryPath

open Core.Registry

/-! ## Model -/

structure RegistrySnapshot where
  version : Number
  updatedAt : JsText
  records : List RegistryRecord

structure AnchorRecord where
  root : JsText
  version : Number
  timestamp : JsText
  source : JsText

structure AnchorStore where
  latest : Option AnchorRecord
  history : List AnchorRecord

/-- `CACHE_TTL_MS` -/
def cacheTtlMs : ℤ := 2000

/-- `cached` -/
structure Cached where
  loadedAt : ℤ
  snapshot : RegistrySnapshot

/-- The two files of the registry, and what the process keeps. The file of the snapshot is `none` where
nothing can be read or parsed. -/
structure State where
  file : Option RegistrySnapshot
  anchors : Option AnchorStore
  cached : Option Cached

/-- What the gateway is configured with. -/
structure Config where
  registryEnabled : Bool
  registryAdminToken : JsText

/-- `loadSnapshot`, which reads the clock at `now`, and again at `done` when it has read the file. -/
def State.loadSnapshot (rt : Core.Registry.Runtime) (s : State) (now done : ℤ) :
    State × Option RegistrySnapshot :=
  match s.cached.filter fun cached => now - cached.loadedAt < cacheTtlMs with
  | some cached => (s, some cached.snapshot)
  | none =>
    match s.file with
    | none => (s, none)
    | some snapshot =>
      match RootTool.validateSnapshot rt snapshot.records with
      | .error _ => (s, none)
      | .ok () => ({ s with cached := some ⟨done, snapshot⟩ }, some snapshot)

/-- `loadAnchorStore`, which makes the file if there is none. -/
def State.loadAnchorStore (s : State) : State × AnchorStore :=
  match s.anchors with
  | none => ({ s with anchors := some ⟨none, []⟩ }, ⟨none, []⟩)
  | some store => (s, store)

def State.anchorRoot (s : State) (record : AnchorRecord) : State :=
  let (s, store) := s.loadAnchorStore
  { s with anchors := some ⟨some record, (record :: store.history).take 1000⟩ }

/-- The body of a post; a property that is falsy counts as missing. -/
structure AnchorBody where
  root : Option JsText
  version : Option Number
  timestamp : Option JsText
  source : Option JsText

/-- The record of a body without a missing field. -/
def AnchorBody.record (body : AnchorBody) : Option AnchorRecord :=
  match body.root, body.version, body.timestamp, body.source with
  | some root, some version, some timestamp, some source => some ⟨root, version, timestamp, source⟩
  | _, _, _, _ => none

/-- The requests that touch the registry; `resolve` is one for a name with the suffix `.dns`. -/
inductive Request where
  | root
  | proof (name : JsText)
  | anchor (token : JsText) (body : AnchorBody)
  | resolve (name : JsText) (proofRequested : Bool)

inductive Refusal where
  | registryDisabled
  | missingName
  | unauthorized
  | invalidRequest
  | notFound
  | anchorMismatch
  | proofInvalid
  /-- The handler threw. -/
  | thrown
  deriving DecidableEq

def Refusal.ofResolve : RootTool.ResolveError → Refusal
  | .notFound => .notFound
  | .anchorMismatch => .anchorMismatch
  | .proofInvalid => .proofInvalid
  | .registry _ => .thrown

/-- What `/resolve` sends; the signature and the clamp of the attack mode come after it. -/
structure Resolved where
  records : List RecordEntry
  registryVersion : Number
  registryUpdatedAt : JsText
  root : JsText
  proof : Option RecordProof

inductive Reply where
  | root (root : JsText) (version : Number) (updatedAt : JsText) (anchoredRoot : Option AnchorRecord)
  | proof (proof : RecordProof) (version : Number) (updatedAt : JsText)
  | anchored (record : AnchorRecord)
  | resolved (payload : Resolved)

/-- `GET /registry/root`, with a snapshot. -/
def State.getRoot (rt : Core.Registry.Runtime) (s : State) (snapshot : RegistrySnapshot) :
    State × Except Refusal Reply :=
  match RootTool.gatewayMerkleRoot rt snapshot.records with
  | .error _ => (s, .error .thrown)
  | .ok root =>
    let (s, store) := s.loadAnchorStore
    (s, .ok (.root root snapshot.version snapshot.updatedAt store.latest))

/-- `GET /registry/proof`, with a snapshot. -/
def getProof (rt : Core.Registry.Runtime) (snapshot : RegistrySnapshot) (name : JsText) :
    Except Refusal Reply :=
  match buildProof rt snapshot.records name with
  | .error _ => .error .thrown
  | .ok proof => .ok (.proof proof snapshot.version snapshot.updatedAt)

/-- `POST /registry/anchor` -/
def State.postAnchor (config : Config) (s : State) (token : JsText) (body : AnchorBody) :
    State × Except Refusal Reply :=
  if config.registryAdminToken = [] ∨ token ≠ config.registryAdminToken then
    (s, .error .unauthorized)
  else match body.record with
    | none => (s, .error .invalidRequest)
    | some record => (s.anchorRoot record, .ok (.anchored record))

/-- The registry path of `GET /resolve`, with a snapshot. -/
def State.getResolve (rt : Core.Registry.Runtime) (s : State) (snapshot : RegistrySnapshot)
    (name : JsText) (proofRequested : Bool) : State × Except Refusal Reply :=
  let normalized := normalizeRegistryName rt name
  match snapshot.records.find? fun record => normalizeRegistryName rt record.name = normalized with
  | none => (s, .error .notFound)
  | some _ =>
    match RootTool.gatewayMerkleRoot rt snapshot.records with
    | .error _ => (s, .error .thrown)
    | .ok _ =>
      let (s, store) := s.loadAnchorStore
      match RootTool.resolve rt snapshot.records (store.latest.map AnchorRecord.root) name
          proofRequested with
      | .error e => (s, .error (.ofResolve e))
      | .ok (entry, root, proof) =>
        (s, .ok (.resolved ⟨entry.records, snapshot.version, snapshot.updatedAt, root, proof⟩))

/-- A request that needs the snapshot. -/
def State.withSnapshot (rt : Core.Registry.Runtime) (s : State) (now done : ℤ)
    (f : State → RegistrySnapshot → State × Except Refusal Reply) : State × Except Refusal Reply :=
  match s.loadSnapshot rt now done with
  | (s, none) => (s, .error .thrown)
  | (s, some snapshot) => f s snapshot

def State.handle (rt : Core.Registry.Runtime) (config : Config) (s : State) (now done : ℤ)
    (r : Request) : State × Except Refusal Reply :=
  if config.registryEnabled = false then (s, .error .registryDisabled)
  else match r with
    | .root => s.withSnapshot rt now done fun s snapshot => s.getRoot rt snapshot
    | .proof name =>
      if name = [] then (s, .error .missingName)
      else s.withSnapshot rt now done fun s snapshot => (s, getProof rt snapshot name)
    | .anchor token body => s.postAnchor config token body
    | .resolve name proofRequested =>
      s.withSnapshot rt now done fun s snapshot => s.getResolve rt snapshot name proofRequested

/-- A request, a change of the file by whoever writes it, or a start of the process. -/
inductive Input where
  | request (now done : ℤ) (r : Request)
  | write (file : Option RegistrySnapshot)
  | restart

def step (rt : Core.Registry.Runtime) (config : Config) (s : State) :
    Input → State × Option (Except Refusal Reply)
  | .request now done r => ((s.handle rt config now done r).1, some (s.handle rt config now done r).2)
  | .write file => ({ s with file }, none)
  | .restart => ({ s with cached := none }, none)

/-! ## The law -/

/-- The record that a post anchors. -/
def Input.posted (config : Config) : Input → Option AnchorRecord
  | .request _ _ (.anchor token body) =>
    if config.registryEnabled = false ∨ config.registryAdminToken = [] ∨
      token ≠ config.registryAdminToken then none else body.record
  | _ => none

/-- The anchor after a run: the last one posted, or the one that was there before. -/
def anchorAfter (config : Config) (s : State) (is : List Input) : Option AnchorRecord :=
  (is.filterMap (Input.posted config)).getLast?.or (s.anchors.bind AnchorStore.latest)

/-- `validateSnapshot` finds no error. -/
def RegistrySnapshot.Valid (rt : Core.Registry.Runtime) (snapshot : RegistrySnapshot) : Prop :=
  RootTool.validateSnapshot rt snapshot.records = .ok ()

/-- The first record of a name. -/
def RegistrySnapshot.first (rt : Core.Registry.Runtime) (snapshot : RegistrySnapshot)
    (name : JsText) : Option RegistryRecord :=
  snapshot.records.find? fun record =>
    normalizeRegistryName rt record.name = normalizeRegistryName rt name

/-- What a snapshot and an anchor make of a request: the first record of the name under the root of
the snapshot, which is the anchored one, and a proof of that very record. -/
inductive Certified (rt : Core.Registry.Runtime) (snapshot : RegistrySnapshot)
    (anchor : Option AnchorRecord) (name : JsText) (proofRequested : Bool) :
    Except Refusal Reply → Prop
  | notFound (hentry : snapshot.first rt name = none) :
    Certified rt snapshot anchor name proofRequested (.error .notFound)
  | mismatch {root : JsText} {a : AnchorRecord} (hentry : (snapshot.first rt name).isSome)
      (hroot : buildMerkleRoot rt snapshot.records = .ok root) (hanchor : anchor = some a)
      (hne : a.root ≠ root) :
    Certified rt snapshot anchor name proofRequested (.error .anchorMismatch)
  | answered {entry : RegistryRecord} {root leaf : JsText} {proof : MerkleProof}
      (hentry : snapshot.first rt name = some entry)
      (hroot : buildMerkleRoot rt snapshot.records = .ok root)
      (hanchor : ∀ a, anchor = some a → a.root = root) (hleaf : hashLeaf rt entry = .ok leaf)
      (hverify : verifyProof rt root leaf proof = true) :
    Certified rt snapshot anchor name proofRequested
      (.ok (.resolved ⟨entry.records, snapshot.version, snapshot.updatedAt, root,
        if proofRequested then some ⟨leaf, proof, root⟩ else none⟩))

/-- A request of the run read the snapshot from the file, and was done with it at `done`. -/
def ReadAt (rt : Core.Registry.Runtime) (config : Config) (s : State) (is : List Input)
    (snapshot : RegistrySnapshot) (done : ℤ) : Prop :=
  ∃ pre now r post, is = pre ++ .request now done r :: post ∧
    (Runs.exec (step rt config) s pre).file = some snapshot

/-- The snapshot was read less than two seconds before the request, or for it. -/
def Recent (rt : Core.Registry.Runtime) (config : Config) (s : State) (is : List Input)
    (now done : ℤ) (r : Request) (snapshot : RegistrySnapshot) : Prop :=
  ∃ readDone, ReadAt rt config s (is ++ [.request now done r]) snapshot readDone ∧
    (now - readDone < cacheTtlMs ∨ readDone = done)

/-- The reply of `/resolve` after a run. -/
abbrev resolveReply (rt : Core.Registry.Runtime) (config : Config) (s : State) (is : List Input)
    (now done : ℤ) (name : JsText) (proofRequested : Bool) : Except Refusal Reply :=
  ((Runs.exec (step rt config) s is).handle rt config now done (.resolve name proofRequested)).2

/-- **The law of a reply**: it is certified by a valid snapshot from the source, or there is no valid
one in the file and nothing is answered. -/
def Lawful (rt : Core.Registry.Runtime) (source : RegistrySnapshot → Prop)
    (file : Option RegistrySnapshot) (anchor : Option AnchorRecord) (name : JsText)
    (proofRequested : Bool)
    (reply : Except Refusal Reply) : Prop :=
  (∃ snapshot, source snapshot ∧ snapshot.Valid rt ∧
    Certified rt snapshot anchor name proofRequested reply) ∨
  ((∀ snapshot, file = some snapshot → ¬snapshot.Valid rt) ∧ reply = .error .thrown)

/-! ## The first record of a name -/

section First

variable {rt : Core.Registry.Runtime} [Std.TransCmp rt.localeCompare]
  {records : List RegistryRecord}
  {entry : RegistryRecord} {name : JsText}

/-- Sorting by name keeps the first record of a name first. -/
theorem find?_sortRecords (p : RegistryRecord → Bool)
    (hp : ∀ a b, p a = true → p b = true →
      normalizeRegistryName rt a.name = normalizeRegistryName rt b.name) :
    (sortRecords rt records).find? p = records.find? p := by
  let key (record : RegistryRecord) : JsText := normalizeRegistryName rt record.name
  let r (a b : RegistryRecord) : Prop := (rt.localeCompare (key a) (key b)).isLE
  have htotal : Std.Total r := StableSort.total_key key
  have htrans : IsTrans RegistryRecord r := StableSort.isTrans_key key
  have hties : (records.filter p).Pairwise r := by
    rw [List.pairwise_iff_forall_sublist]
    intro a b hab
    have ha := (List.mem_filter.1 (hab.subset List.mem_cons_self)).2
    have hb := (List.mem_filter.1 (hab.subset (List.mem_cons_of_mem a List.mem_cons_self))).2
    have hself : rt.localeCompare (key b) (key b) = .eq := Std.ReflCmp.compare_self
    show (rt.localeCompare (key a) (key b)).isLE
    rw [show key a = key b from hp a b ha hb, hself]
    rfl
  have hsub : (records.filter p).Sublist ((sortRecords rt records).filter p) := by
    have h := (List.sublist_insertionSort hties List.filter_sublist).filter p
    rwa [List.filter_filter, List.filter_congr fun a _ => Bool.and_self (p a)] at h
  have hlength := ((sortRecords_perm rt records).filter p).length_eq
  rw [← List.head?_filter, ← List.head?_filter, hsub.eq_of_length hlength.symm]

/-- The proof for a name is one of the first record of that name. -/
theorem buildProof_first (h : Accepted rt records)
    (hentry : (records.find? fun record =>
      normalizeRegistryName rt record.name = normalizeRegistryName rt name) = some entry) :
    ∃ root leaf proof, buildProof rt records name = .ok ⟨leaf, proof, root⟩ ∧
      buildMerkleRoot rt records = .ok root ∧ hashLeaf rt entry = .ok leaf ∧
      verifyProof rt root leaf proof = true := by
  have hleaves := h.buildLeaves
  have hmem := List.mem_of_find?_eq_some hentry
  have hname : normalizeRegistryName rt entry.name = normalizeRegistryName rt name := by
    simpa using List.find?_some hentry
  have hsorted : entry ∈ sortRecords rt records := (sortRecords_perm rt records).mem_iff.2 hmem
  have hfirst : ((sortRecords rt records).map (leafFor rt)).find?
      (fun leaf => leaf.name = normalizeRegistryName rt name) = some (leafFor rt entry) := by
    rw [List.find?_map]
    refine congrArg (Option.map (leafFor rt)) (Eq.trans (find?_sortRecords _ ?_) hentry)
    simp only [decide_eq_true_eq]
    exact fun a b ha hb => ha.trans hb.symm
  obtain ⟨-, -, -, p, hp, -, hroot, hverify⟩ := verifyProof_buildProof hleaves
    ⟨leafFor rt entry, List.mem_map_of_mem hsorted, hname⟩
  have hleaf : p.leaf = (leafFor rt entry).hash := by
    unfold buildProof at hp
    dsimp only at hp
    rw [hleaves] at hp
    dsimp only at hp
    rw [← List.find?_eq_getElem?_findIdx, hfirst] at hp
    exact congrArg RecordProof.leaf (Except.ok.inj hp).symm
  have hne : (sortRecords rt records).map (leafFor rt) ≠ [] :=
    List.ne_nil_of_mem (List.mem_map_of_mem hsorted)
  have hmerkle := buildMerkleRoot_of_leaves hleaves
  rw [if_neg hne, ← hroot] at hmerkle
  exact ⟨p.root, p.leaf, p.proof, hp, hmerkle, hleaf ▸ h.hashLeaf hmem, hverify⟩

end First

/-! ## One request -/

section Request

variable {rt : Core.Registry.Runtime} {config : Config} {s : State} {now done : ℤ}
  {snapshot : RegistrySnapshot}
  {name : JsText}

/-- The anchor in force. -/
def State.anchor (s : State) : Option AnchorRecord := s.anchors.bind AnchorStore.latest

@[simp] theorem loadAnchorStore_file (s : State) : s.loadAnchorStore.1.file = s.file := by
  unfold State.loadAnchorStore
  split <;> rfl

@[simp] theorem loadAnchorStore_cached (s : State) : s.loadAnchorStore.1.cached = s.cached := by
  unfold State.loadAnchorStore
  split <;> rfl

theorem loadAnchorStore_latest (s : State) : s.loadAnchorStore.2.latest = s.anchor := by
  unfold State.loadAnchorStore State.anchor
  cases s.anchors <;> rfl

@[simp] theorem loadAnchorStore_anchor (s : State) : s.loadAnchorStore.1.anchor = s.anchor := by
  unfold State.loadAnchorStore State.anchor
  cases h : s.anchors with
  | none => rfl
  | some store => simp [h]

/-- **Where a snapshot comes from**: from the process, if it is not older than two seconds, or from the
file. -/
theorem loadSnapshot_cases (rt : Core.Registry.Runtime) (s : State) (now done : ℤ) :
    (∃ cached, s.cached = some cached ∧ now - cached.loadedAt < cacheTtlMs ∧
      s.loadSnapshot rt now done = (s, some cached.snapshot)) ∨
    (∃ snapshot, s.file = some snapshot ∧ snapshot.Valid rt ∧
      s.loadSnapshot rt now done = ({ s with cached := some ⟨done, snapshot⟩ }, some snapshot)) ∨
    ((∀ snapshot, s.file = some snapshot → ¬snapshot.Valid rt) ∧
      s.loadSnapshot rt now done = (s, none)) := by
  unfold State.loadSnapshot
  cases hcached : s.cached.filter fun cached => now - cached.loadedAt < cacheTtlMs with
  | some cached =>
    obtain ⟨hsome, hfresh⟩ := Option.filter_eq_some_iff.1 hcached
    exact .inl ⟨cached, hsome, of_decide_eq_true hfresh, rfl⟩
  | none =>
    right
    cases hfile : s.file with
    | none => simp
    | some snapshot =>
      cases hvalid : RootTool.validateSnapshot rt snapshot.records with
      | error e => simp [RegistrySnapshot.Valid, hvalid]
      | ok _ => simp [RegistrySnapshot.Valid, hvalid]

/-- What a request may change: the file stays, the process keeps its snapshot or one that is in the
file, and the anchor is `anchor`. -/
structure Served (rt : Core.Registry.Runtime) (done : ℤ) (anchor : Option AnchorRecord)
    (s s' : State) : Prop where
  file : s'.file = s.file
  cached : s'.cached = s.cached ∨ ∃ snapshot, s.file = some snapshot ∧
    snapshot.Valid rt ∧ s'.cached = some ⟨done, snapshot⟩
  anchor : s'.anchor = anchor

theorem Served.refl (s : State) : Served rt done s.anchor s s := ⟨rfl, .inl rfl, rfl⟩

/-- A handler that only reads the anchor keeps what the load of the snapshot kept. -/
theorem served_withSnapshot {f : State → RegistrySnapshot → State × Except Refusal Reply}
    (hf : ∀ s snapshot, (f s snapshot).1 = s ∨ (f s snapshot).1 = s.loadAnchorStore.1) :
    Served rt done s.anchor s (s.withSnapshot rt now done f).1 := by
  have hkeep (s' : State) (snapshot : RegistrySnapshot) (h : Served rt done s.anchor s s') :
      Served rt done s.anchor s (f s' snapshot).1 := by
    rcases hf s' snapshot with heq | heq
    · rwa [heq]
    · rw [heq]
      constructor
      · rw [loadAnchorStore_file, h.file]
      · rw [loadAnchorStore_cached]
        exact h.cached
      · rw [loadAnchorStore_anchor, h.anchor]
  unfold State.withSnapshot
  rcases loadSnapshot_cases rt s now done with
    ⟨cached, -, -, hload⟩ | ⟨snapshot, hfile, hvalid, hload⟩ | ⟨-, hload⟩
  · rw [hload]
    exact hkeep s cached.snapshot (Served.refl s)
  · rw [hload]
    exact hkeep _ snapshot ⟨rfl, .inr ⟨snapshot, hfile, hvalid, rfl⟩, rfl⟩
  · rw [hload]
    exact Served.refl s

theorem getRoot_state (s : State) (snapshot : RegistrySnapshot) :
    (s.getRoot rt snapshot).1 = s ∨ (s.getRoot rt snapshot).1 = s.loadAnchorStore.1 := by
  unfold State.getRoot
  split
  · exact .inl rfl
  · exact .inr rfl

theorem getResolve_state (s : State) (snapshot : RegistrySnapshot) (name : JsText)
    (proofRequested : Bool) : (s.getResolve rt snapshot name proofRequested).1 = s ∨
      (s.getResolve rt snapshot name proofRequested).1 = s.loadAnchorStore.1 := by
  unfold State.getResolve
  dsimp only
  split
  · exact .inl rfl
  · split
    · exact .inl rfl
    · split
      · exact .inr rfl
      · exact .inr rfl

theorem anchor_anchorRoot (s : State) (record : AnchorRecord) :
    (s.anchorRoot record).anchor = some record := by
  unfold State.anchorRoot State.anchor
  rfl

/-- **What a request changes.** -/
theorem served_handle (rt : Core.Registry.Runtime) (config : Config) (s : State) (now done : ℤ)
    (r : Request) : Served rt done (((Input.request now done r).posted config).or s.anchor) s
      (s.handle rt config now done r).1 := by
  unfold State.handle
  split
  · next hdisabled =>
    cases r with
    | anchor token body =>
      simp only [Input.posted, hdisabled, true_or, if_true]
      exact Served.refl s
    | root => exact Served.refl s
    | proof name => exact Served.refl s
    | resolve name proofRequested => exact Served.refl s
  · next henabled =>
    cases r with
    | root => exact served_withSnapshot getRoot_state
    | proof name =>
      dsimp only
      split
      · exact Served.refl s
      · exact served_withSnapshot fun s _ => .inl rfl
    | resolve name proofRequested =>
      exact served_withSnapshot fun s snapshot => getResolve_state s snapshot name proofRequested
    | anchor token body =>
      unfold State.postAnchor Input.posted
      dsimp only
      by_cases hauth : config.registryAdminToken = [] ∨ token ≠ config.registryAdminToken
      · rw [if_pos (.inr hauth), if_pos hauth]
        exact Served.refl s
      · rw [if_neg (not_or.2 ⟨henabled, hauth⟩), if_neg hauth]
        cases body.record with
        | none => exact Served.refl s
        | some record =>
          exact ⟨loadAnchorStore_file s, .inl (loadAnchorStore_cached s), anchor_anchorRoot s record⟩

/-- With a first record and its proof, only the anchor can be in the way. -/
theorem resolve_of_first {records : List RegistryRecord} {anchor : Option JsText}
    {entry : RegistryRecord} {proof : RecordProof} {root : JsText}
    (hentry : (records.find? fun record =>
      normalizeRegistryName rt record.name = normalizeRegistryName rt name) = some entry)
    (hproof : buildProof rt records name = .ok proof)
    (hroot : RootTool.gatewayMerkleRoot rt records = .ok root)
    (hverify : verifyProof rt root proof.leaf proof.proof = true) (proofRequested : Bool) :
    RootTool.resolve rt records anchor name proofRequested =
      if anchor.any fun a => a ≠ root then .error .anchorMismatch
      else .ok (entry, root, if proofRequested then some proof else none) := by
  unfold RootTool.resolve
  dsimp only
  rw [hentry]
  dsimp only
  rw [hroot]
  dsimp only
  split
  · rfl
  · next hany =>
    have hused : (anchor.filter (· ≠ [])).getD root = root := by
      cases anchor with
      | none => rfl
      | some a =>
        obtain rfl : a = root := by simpa using hany
        by_cases ha : a = [] <;> simp [Option.filter, ha]
    rw [hused, hproof]
    cases proofRequested with
    | false => rfl
    | true =>
      dsimp only
      rw [if_pos rfl, if_pos hverify]
      rfl

/-- **The reply of `/resolve`** is certified by its snapshot and the anchor in force. -/
theorem certified_getResolve [Std.TransCmp rt.localeCompare]
    (hvalid : snapshot.Valid rt) (s : State) (name : JsText)
    (proofRequested : Bool) : Certified rt snapshot s.anchor name proofRequested
      (s.getResolve rt snapshot name proofRequested).2 := by
  have haccepted := RootTool.accepted_of_validateSnapshot hvalid
  unfold State.getResolve
  dsimp only
  cases hentry : snapshot.records.find? fun record =>
      normalizeRegistryName rt record.name = normalizeRegistryName rt name with
  | none => exact .notFound hentry
  | some entry =>
    obtain ⟨root, leaf, proof, hproof, hroot, hleaf, hverify⟩ := buildProof_first haccepted hentry
    have hgateway := (RootTool.gatewayMerkleRoot_eq rt snapshot.records).trans hroot
    have hfirst : snapshot.first rt name = some entry := hentry
    rw [hgateway]
    dsimp only
    rw [loadAnchorStore_latest, resolve_of_first hentry hproof hgateway hverify]
    by_cases hany : (s.anchor.map AnchorRecord.root).any fun a => a ≠ root
    · rw [if_pos hany]
      obtain ⟨a, ha, hne⟩ : ∃ a, s.anchor = some a ∧ a.root ≠ root := by
        simpa [Option.any_eq_true] using hany
      exact .mismatch (by rw [hfirst]; rfl) hroot ha hne
    · rw [if_neg hany]
      refine .answered hfirst hroot ?_ hleaf hverify
      intro a ha
      simpa [ha] using hany

/-- A proof comes with the answer exactly if it was requested. -/
theorem isSome_proof_of_resolve {records : List RegistryRecord} {anchor : Option JsText}
    {proofRequested : Bool} {entry : RegistryRecord} {root : JsText} {proof : Option RecordProof}
    (h : RootTool.resolve rt records anchor name proofRequested = .ok (entry, root, proof)) :
    proof.isSome = proofRequested := by
  unfold RootTool.resolve at h
  dsimp only at h
  split at h
  · cases h
  · split at h
    · cases h
    · split at h
      · cases h
      · split at h
        · next hrequested =>
          split at h
          · cases h
          · split at h
            · cases h
              exact hrequested.symm
            · cases h
        · next hrequested =>
          cases h
          exact (Bool.eq_false_iff.2 hrequested).symm

theorem isSome_proof_of_handle {proofRequested : Bool} {payload : Resolved}
    (h : (s.handle rt config now done (.resolve name proofRequested)).2 = .ok (.resolved payload)) :
    payload.proof.isSome = proofRequested := by
  unfold State.handle at h
  split at h
  · cases h
  · dsimp only at h
    unfold State.withSnapshot at h
    split at h
    · cases h
    · unfold State.getResolve at h
      dsimp only at h
      split at h
      · cases h
      · split at h
        · cases h
        · split at h
          · cases h
          · next hresolve =>
            cases h
            exact isSome_proof_of_resolve hresolve

end Request

/-! ## Runs -/

section Runs

variable {rt : Core.Registry.Runtime} {config : Config} {s : State} {is : List Input}
  {snapshot : RegistrySnapshot}

theorem anchor_step (s : State) (i : Input) :
    (step rt config s i).1.anchor = (i.posted config).or s.anchor := by
  cases i with
  | request now done r => exact (served_handle rt config s now done r).anchor
  | write file => rfl
  | restart => rfl

/-- **The anchor in force** is the last one that was posted. -/
theorem anchor_exec (rt : Core.Registry.Runtime) (config : Config) (s : State) (is : List Input) :
    (Runs.exec (step rt config) s is).anchor = anchorAfter config s is := by
  unfold anchorAfter
  induction is using List.reverseRecOn with
  | nil => rfl
  | append_singleton is i ih =>
    rw [Runs.exec_append, Runs.exec_cons, Runs.exec_nil, anchor_step, ih, List.filterMap_append]
    cases hposted : i.posted config with
    | none => simp [hposted]
    | some record => simp [hposted]

theorem ReadAt.append {done : ℤ} (h : ReadAt rt config s is snapshot done) (is' : List Input) :
    ReadAt rt config s (is ++ is') snapshot done := by
  obtain ⟨pre, now, r, post, rfl, hfile⟩ := h
  exact ⟨pre, now, r, post ++ is', by simp, hfile⟩

theorem readAt_last {now done : ℤ} {r : Request}
    (h : (Runs.exec (step rt config) s is).file = some snapshot) :
    ReadAt rt config s (is ++ [.request now done r]) snapshot done :=
  ⟨is, now, r, [], rfl, h⟩

/-- **What the process keeps** is valid and was read from the file. -/
theorem cached_exec (hs : s.cached = none) (is : List Input) {cached : Cached}
    (h : (Runs.exec (step rt config) s is).cached = some cached) :
    cached.snapshot.Valid rt ∧
      ReadAt rt config s is cached.snapshot cached.loadedAt := by
  induction is using List.reverseRecOn with
  | nil =>
    rw [Runs.exec_nil, hs] at h
    cases h
  | append_singleton is i ih =>
    have hearlier (h : (Runs.exec (step rt config) s is).cached = some cached) :
        cached.snapshot.Valid rt ∧
          ReadAt rt config s (is ++ [i]) cached.snapshot cached.loadedAt :=
      (ih h).imp_right fun hread => hread.append [i]
    rw [Runs.exec_append] at h
    cases i with
    | write file => exact hearlier h
    | restart => cases h
    | request now done r =>
      rcases (served_handle rt config (Runs.exec (step rt config) s is) now done r).cached with
        hkeep | ⟨snapshot, hfile, hvalid, hread⟩
      · exact hearlier (hkeep.symm.trans h)
      · obtain rfl := Option.some.inj (hread.symm.trans h)
        exact ⟨hvalid, readAt_last hfile⟩

/-- **The snapshot of a request**: a valid one, read from the file less than two seconds ago or just
now, or none if the file has none. -/
theorem loaded_exec (hs : s.cached = none) (is : List Input) (now done : ℤ) (r : Request) :
    (∃ snapshot s', snapshot.Valid rt ∧ Recent rt config s is now done r snapshot ∧
      s'.anchor = anchorAfter config s is ∧
      (Runs.exec (step rt config) s is).loadSnapshot rt now done = (s', some snapshot)) ∨
    ((∀ snapshot, (Runs.exec (step rt config) s is).file = some snapshot → ¬snapshot.Valid rt) ∧
      (Runs.exec (step rt config) s is).loadSnapshot rt now done =
        (Runs.exec (step rt config) s is, none)) := by
  have hanchor := anchor_exec rt config s is
  rcases loadSnapshot_cases rt (Runs.exec (step rt config) s is) now done with
    ⟨cached, hcached, hfresh, hload⟩ | ⟨snapshot, hfile, hvalid, hload⟩ | ⟨hbad, hload⟩
  · obtain ⟨hvalid, hread⟩ := cached_exec hs is hcached
    exact .inl ⟨cached.snapshot, _, hvalid, ⟨cached.loadedAt, hread.append _, .inl hfresh⟩, hanchor,
      hload⟩
  · exact .inl ⟨snapshot, { Runs.exec (step rt config) s is with cached := some ⟨done, snapshot⟩ },
      hvalid, ⟨done, readAt_last hfile, .inr rfl⟩, hanchor, hload⟩
  · exact .inr ⟨hbad, hload⟩

theorem resolveReply_some (henabled : config.registryEnabled = true) {now done : ℤ}
    {s' : State} (hload : (Runs.exec (step rt config) s is).loadSnapshot rt now done =
      (s', some snapshot)) (name : JsText) (proofRequested : Bool) :
    resolveReply rt config s is now done name proofRequested =
      (s'.getResolve rt snapshot name proofRequested).2 := by
  unfold resolveReply State.handle State.withSnapshot
  rw [if_neg (by simp [henabled])]
  dsimp only
  rw [hload]

theorem resolveReply_none (henabled : config.registryEnabled = true) {now done : ℤ}
    {s' : State} (hload : (Runs.exec (step rt config) s is).loadSnapshot rt now done = (s', none))
    (name : JsText) (proofRequested : Bool) :
    resolveReply rt config s is now done name proofRequested = .error .thrown := by
  unfold resolveReply State.handle State.withSnapshot
  rw [if_neg (by simp [henabled])]
  dsimp only
  rw [hload]

/-- **Answers are certified**, in every run, by a snapshot that was read from the file less than two
seconds ago or just now, under the anchor that was posted last. -/
theorem answers_certified [Std.TransCmp rt.localeCompare] (henabled : config.registryEnabled = true)
    (hs : s.cached = none) (is : List Input) (now done : ℤ) (name : JsText) (proofRequested : Bool) :
    Lawful rt (Recent rt config s is now done (.resolve name proofRequested))
      (Runs.exec (step rt config) s is).file (anchorAfter config s is) name proofRequested
      (resolveReply rt config s is now done name proofRequested) := by
  rcases loaded_exec hs is now done (.resolve name proofRequested) with
    ⟨snapshot, s', hvalid, hrecent, hanchor, hload⟩ | ⟨hbad, hload⟩
  · refine .inl ⟨snapshot, hrecent, hvalid, ?_⟩
    rw [resolveReply_some henabled hload, ← hanchor]
    exact certified_getResolve hvalid s' name proofRequested
  · exact .inr ⟨hbad, resolveReply_none henabled hload name proofRequested⟩

/-! ## A change of the file -/

/-- The inputs that leave the file alone. -/
def Input.KeepsFile : Input → Prop
  | .write _ => False
  | _ => True

theorem file_step {i : Input} (hi : i.KeepsFile) (s : State) : (step rt config s i).1.file = s.file := by
  cases i with
  | request now done r => exact (served_handle rt config s now done r).file
  | write file => exact absurd hi id
  | restart => rfl

theorem file_exec (h : ∀ i ∈ is, i.KeepsFile) :
    (Runs.exec (step rt config) s is).file = s.file := by
  induction is generalizing s with
  | nil => rfl
  | cons i is ih =>
    rw [List.forall_mem_cons] at h
    rw [Runs.exec_cons, ih h.2, file_step h.1]

/-- The file after a change of it. -/
theorem file_after_write {before after : List Input} {file : Option RegistrySnapshot}
    (hafter : ∀ i ∈ after, i.KeepsFile) :
    (Runs.exec (step rt config) s (before ++ .write file :: after)).file = file := by
  rw [Runs.exec_append, Runs.exec_cons, file_exec hafter]
  rfl

/-- A snapshot that was read after a change of the file is the one that was written. -/
theorem eq_of_readAt {before after : List Input} {file : Option RegistrySnapshot} {readDone : ℤ}
    (hafter : ∀ i ∈ after, i.KeepsFile)
    (hbefore : ∀ now r, .request now readDone r ∉ before)
    (h : ReadAt rt config s (before ++ .write file :: after) snapshot readDone) :
    file = some snapshot := by
  obtain ⟨pre, now, r, post, heq, hfile⟩ := h
  rcases List.append_eq_append_iff.1 heq with ⟨mid, rfl, hmid⟩ | ⟨mid, rfl, hmid⟩
  · cases mid with
    | nil => cases hmid
    | cons i mid =>
      obtain ⟨rfl, rfl⟩ := List.cons.inj hmid
      rw [file_after_write fun i hi => hafter i (List.mem_append_left _ hi)] at hfile
      exact hfile
  · cases mid with
    | nil => cases hmid
    | cons i mid =>
      obtain ⟨rfl, -⟩ := List.cons.inj hmid
      exact absurd (List.mem_append_right pre List.mem_cons_self) (hbefore now r)

/-- **A change of the file takes effect** within two seconds: once the last request before it lies two
seconds back, the answers are made from what was written. -/
theorem write_takes_effect [Std.TransCmp rt.localeCompare] (henabled : config.registryEnabled = true)
    (hs : s.cached = none) (before after : List Input) (file : Option RegistrySnapshot) (now done : ℤ)
    (hbefore : ∀ now' done' r, .request now' done' r ∈ before → done' + cacheTtlMs ≤ now)
    (hafter : ∀ i ∈ after, i.KeepsFile) (hclock : now ≤ done) (name : JsText)
    (proofRequested : Bool) :
    Lawful rt (fun snapshot => file = some snapshot) file
      (anchorAfter config s (before ++ .write file :: after)) name proofRequested
      (resolveReply rt config s (before ++ .write file :: after) now done name proofRequested) := by
  rcases loaded_exec hs (before ++ .write file :: after) now done (.resolve name proofRequested) with
    ⟨snapshot, s', hvalid, ⟨readDone, hread, hfresh⟩, hanchor, hload⟩ | ⟨hbad, hload⟩
  · have hwritten : file = some snapshot := by
      rw [List.append_assoc, List.cons_append] at hread
      refine eq_of_readAt (List.forall_mem_append.2 ⟨hafter, by simp [Input.KeepsFile]⟩) ?_ hread
      intro now' r hmem
      have hle := hbefore now' readDone r hmem
      have hpos : 0 < cacheTtlMs := by decide
      rcases hfresh with hlt | rfl <;> omega
    refine .inl ⟨snapshot, hwritten, hvalid, ?_⟩
    rw [resolveReply_some henabled hload, ← hanchor]
    exact certified_getResolve hvalid s' name proofRequested
  · rw [file_after_write hafter] at hbad
    exact .inr ⟨hbad, resolveReply_none henabled hload name proofRequested⟩

end Runs

/-! ## A run -/

section Example

def exampleConfig : Config := ⟨true, ['t']⟩

/-- A registry of one record, which nobody has asked for. -/
def exampleState : State :=
  ⟨some ⟨exampleRecord.version, exampleRecord.updatedAt, [exampleRecord]⟩, none, none⟩

instance : Std.TransCmp Core.Registry.exampleRuntime.localeCompare :=
  inferInstanceAs (Std.TransCmp (compare : JsText → JsText → Ordering))

/-- The file is lost after a request. -/
def exampleRun : List Input := [.request 0 1 .root, .write none]

theorem answers_certified_kept : Lawful Core.Registry.exampleRuntime
    (Recent Core.Registry.exampleRuntime exampleConfig exampleState exampleRun 2000 2000
      (.resolve exampleRecord.name true))
    none none exampleRecord.name true
    (resolveReply Core.Registry.exampleRuntime exampleConfig exampleState exampleRun 2000 2000
      exampleRecord.name true) :=
  answers_certified rfl rfl exampleRun 2000 2000 exampleRecord.name true

theorem exampleRequest_early (now done : ℤ) (r : Request)
    (h : Input.request now done r ∈ [Input.request 0 1 .root]) : done + cacheTtlMs ≤ 2001 := by
  cases List.mem_singleton.1 h
  decide

theorem write_takes_effect_lost : Lawful Core.Registry.exampleRuntime
    (fun snapshot => none = some snapshot) none
    (anchorAfter exampleConfig exampleState exampleRun) exampleRecord.name true
    (resolveReply Core.Registry.exampleRuntime exampleConfig exampleState exampleRun 2001 2001
      exampleRecord.name true) :=
  write_takes_effect rfl rfl [.request 0 1 .root] [] none 2001 2001 exampleRequest_early (by simp)
    le_rfl exampleRecord.name true

end Example

end Ddns.Gateway.RegistryPath
