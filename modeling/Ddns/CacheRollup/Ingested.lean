import Ddns.CacheRollup.Server

/-!
# What a file holds

The file of a parent holds the entries that were ingested for it, in the order in which they came and
as often as they came (`get_exec`). Every sequence of such entries can be ingested again
(`exists_requests`).
-/

namespace Ddns.CacheRollup

open Runs

variable {rt : Platform} {cfg : Config} {files : Files} {parentHash : Hex 64}

/-- The entries that a request has accepted. -/
def Request.accepted (rt : Platform) : Request → List (CacheEntryV1 JsNum)
  | .ingest body => (acceptedOf rt (entriesOf body)).toOption.getD []
  | .rollup _ _ _ _ => []

/-- The accepted entries of a parent, as its file has them. -/
def Request.entries (rt : Platform) (parentHash : Hex 64) (request : Request) : List StoredEntry :=
  (Grouping.ofKey CacheEntryV1.parentNameHash parentHash (request.accepted rt)).map
    CacheEntryV1.stored

/-- The entries of a parent that the requests have ingested. -/
def ingested (rt : Platform) (parentHash : Hex 64) (requests : List Request) : List StoredEntry :=
  requests.flatMap (Request.entries rt parentHash)

/-- A file with more entries; no entries make no file. -/
def extend (file : Option (List StoredEntry)) (entries : List StoredEntry) :
    Option (List StoredEntry) :=
  if entries = [] then file else some (file.getD [] ++ entries)

@[simp] theorem extend_nil (file : Option (List StoredEntry)) : extend file [] = file := rfl

theorem extend_append (file : Option (List StoredEntry)) (entries entries' : List StoredEntry) :
    extend file (entries ++ entries') = extend (extend file entries) entries' := by
  unfold extend
  by_cases h : entries = []
  · simp [h]
  · by_cases h' : entries' = []
    · simp [h']
    · simp [h, h']

/-! ## One request -/

theorem get_append (files : Files) (parentHash k : Hex 64) (group : List StoredEntry) :
    (append files k group).get parentHash =
      if parentHash = k then some ((files.get k).getD [] ++ group) else files.get parentHash :=
  FinMap.get_set files k parentHash _

/-- Groups of different parents go to different files. -/
theorem get_foldl_append (groups : List (Hex 64 × List (CacheEntryV1 JsNum)))
    (hkeys : (groups.map Prod.fst).Nodup) (files : Files) :
    (groups.foldl (fun files g => append files g.1 (g.2.map CacheEntryV1.stored)) files).get
        parentHash =
      match FinMap.lookup groups parentHash with
      | some group => some ((files.get parentHash).getD [] ++ group.map CacheEntryV1.stored)
      | none => files.get parentHash := by
  induction groups generalizing files with
  | nil => rfl
  | cons g groups ih =>
    rw [List.map_cons, List.nodup_cons] at hkeys
    rw [List.foldl_cons, ih hkeys.2, FinMap.lookup, get_append]
    by_cases hk : g.1 = parentHash
    · have hnone : FinMap.lookup groups parentHash = none := by
        cases hlookup : FinMap.lookup groups parentHash with
        | none => rfl
        | some group =>
          have hmem := List.mem_map_of_mem (f := Prod.fst) (FinMap.mem_of_lookup hlookup)
          exact absurd (hk ▸ hmem) hkeys.1
      rw [hnone, if_pos hk, if_pos hk.symm, hk]
    · rw [if_neg hk, if_neg (Ne.symm hk)]

theorem get_group (accepted : List (CacheEntryV1 JsNum)) (files : Files) (parentHash : Hex 64) :
    ((Grouping.group CacheEntryV1.parentNameHash accepted).foldl
        (fun files g => append files g.1 (g.2.map CacheEntryV1.stored)) files).get parentHash =
      extend (files.get parentHash) ((Grouping.ofKey CacheEntryV1.parentNameHash parentHash
        accepted).map CacheEntryV1.stored) := by
  have hnodup := Grouping.nodup_group CacheEntryV1.parentNameHash accepted
  rw [get_foldl_append _ hnodup]
  by_cases hmem : parentHash ∈ accepted.map CacheEntryV1.parentNameHash
  · have hgroup := Grouping.mem_group.2 ⟨hmem, rfl⟩
    rw [FinMap.lookup_of_mem hnodup hgroup, extend, if_neg]
    exact fun hnil => Grouping.ne_nil_of_mem_group hgroup (List.map_eq_nil_iff.1 hnil)
  · have hnone : FinMap.lookup (Grouping.group CacheEntryV1.parentNameHash accepted)
        parentHash = none := by
      cases hlookup : FinMap.lookup (Grouping.group CacheEntryV1.parentNameHash accepted)
          parentHash with
      | none => rfl
      | some group => exact absurd (Grouping.mem_group.1 (FinMap.mem_of_lookup hlookup)).1 hmem
    rw [hnone, Grouping.ofKey_eq_nil hmem]
    rfl

theorem get_ingest (rt : Platform) (files : Files) (body : Json) (parentHash : Hex 64) :
    (ingest rt files body).1.get parentHash =
      extend (files.get parentHash) ((Request.ingest body).entries rt parentHash) := by
  show _ = extend _ ((Grouping.ofKey CacheEntryV1.parentNameHash parentHash
    ((acceptedOf rt (entriesOf body)).toOption.getD [])).map CacheEntryV1.stored)
  unfold ingest
  split
  · next hnone =>
    rw [hnone]
    rfl
  · split
    · next error haccepted =>
      rw [haccepted]
      rfl
    · next haccepted =>
      rw [haccepted]
      rfl
    · next accepted hsome haccepted =>
      rw [haccepted]
      exact get_group accepted files parentHash

/-- What a request does to the file of a parent. -/
theorem get_step (rt : Platform) (cfg : Config) (files : Files) (request : Request)
    (parentHash : Hex 64) : (step rt cfg files request).1.get parentHash =
      extend (files.get parentHash) (request.entries rt parentHash) := by
  cases request with
  | rollup parent epoch now net => rfl
  | ingest body => exact get_ingest rt files body parentHash

/-! ## Runs -/

/-- **The file of a parent** after a run. -/
theorem get_exec (rt : Platform) (cfg : Config) (files : Files) (requests : List Request)
    (parentHash : Hex 64) : (exec (step rt cfg) files requests).get parentHash =
      extend (files.get parentHash) (ingested rt parentHash requests) := by
  induction requests generalizing files with
  | nil => rfl
  | cons request requests ih =>
    rw [exec_cons, ih, get_step, ← extend_append]
    rfl

theorem get_exec_empty (rt : Platform) (cfg : Config) (requests : List Request)
    (parentHash : Hex 64) : (exec (step rt cfg) FinMap.empty requests).get parentHash =
      if ingested rt parentHash requests = [] then none
      else some (ingested rt parentHash requests) := by
  rw [get_exec, FinMap.get_empty, extend, Option.getD_none, List.nil_append]

theorem filterMap_toOption {ε α : Type} {results : List (Except ε α)} {a : α}
    (h : a ∈ results.filterMap Except.toOption) : .ok a ∈ results := by
  obtain ⟨result, hresult, ha⟩ := List.mem_filterMap.1 h
  cases result with
  | error e => cases ha
  | ok b =>
    cases ha
    exact hresult

/-- An entry that is ingested comes from a valid value. -/
theorem exists_raw {requests : List Request} {e : StoredEntry}
    (h : e ∈ ingested rt parentHash requests) :
    ∃ raw v, validateCacheEntry rt raw = .ok (.ok v) ∧ v.parentNameHash = parentHash ∧
      v.stored = e := by
  obtain ⟨request, -, hrequest⟩ := List.mem_flatMap.1 h
  obtain ⟨v, hv, rfl⟩ := List.mem_map.1 hrequest
  obtain ⟨hv, hparent⟩ := Grouping.mem_ofKey.1 hv
  cases request with
  | rollup parent epoch now net => cases hv
  | ingest body =>
    replace hv : v ∈ ((acceptedOf rt (entriesOf body)).toOption).getD [] := hv
    unfold acceptedOf at hv
    cases hresults : (entriesOf body).mapM (validateCacheEntry rt) with
    | error error =>
      rw [hresults] at hv
      cases hv
    | ok results =>
      rw [hresults] at hv
      have hmem : .ok v ∈ results := filterMap_toOption hv
      obtain ⟨raw, -, hraw⟩ := (Results.mem_mapM_iff hresults).1 hmem
      exact ⟨raw, v, hraw, hparent, rfl⟩

theorem entries_single {raw : Json} {v : CacheEntryV1 JsNum}
    (hraw : validateCacheEntry rt raw = .ok (.ok v)) (hparent : v.parentNameHash = parentHash) :
    (Request.ingest (.obj [(entriesKey, .arr [raw])])).entries rt parentHash = [v.stored] := by
  have haccepted : (Request.ingest (.obj [(entriesKey, .arr [raw])])).accepted rt = [v] := by
    show ((acceptedOf rt [raw]).toOption).getD [] = [v]
    unfold acceptedOf
    rw [List.mapM_cons, hraw, List.mapM_nil]
    rfl
  simp [Request.entries, haccepted, Grouping.ofKey, hparent]

/-- Entries that were ingested can be ingested in any other number and order. -/
theorem exists_requests {requests : List Request} {entries : List StoredEntry}
    (h : ∀ e ∈ entries, e ∈ ingested rt parentHash requests) :
    ∃ requests', ingested rt parentHash requests' = entries := by
  induction entries with
  | nil => exact ⟨[], rfl⟩
  | cons e entries ih =>
    rw [List.forall_mem_cons] at h
    obtain ⟨requests', hrequests'⟩ := ih h.2
    obtain ⟨raw, v, hraw, hparent, rfl⟩ := exists_raw h.1
    refine ⟨.ingest (.obj [(entriesKey, .arr [raw])]) :: requests', ?_⟩
    rw [ingested, List.flatMap_cons, entries_single hraw hparent]
    exact congrArg (v.stored :: ·) hrequests'

end Ddns.CacheRollup
