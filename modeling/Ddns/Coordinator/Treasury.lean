import Ddns.Coordinator.Pools
import Ddns.Lib.Results

/-!
# Allocations of the treasury

`POST /treasury/allocate` shares the balance of the treasury out to the buckets of a policy and
records the shares. The fractions of a policy may sum to a little more than 1, and recorded shares are
not taken from the balance, so the next call shares out the same credits again. `allocationLaw_iff`
says which calls leave the records within what has entered the treasury.
-/

namespace Ddns.Coordinator

open Runs
open Comments (CommentHold textOf)

/-- Reading a value as a number throws for some objects. -/
structure TreasuryRuntime extends ServerRuntime where
  number : Json → Option JsNum

structure Bucket where
  name : JsText
  fraction : ℚ
  deriving DecidableEq

inductive PolicyError where
  | policyMissing
  | bucketNameRequired
  | bucketPercentAndFraction
  | bucketMissingPercent
  | bucketPercentInvalid
  | bucketFractionInvalid
  | bucketTotalExceeds100
  deriving DecidableEq

def bucketsKey : JsText := ['b', 'u', 'c', 'k', 'e', 't', 's']

def nameKey : JsText := ['n', 'a', 'm', 'e']

def percentKey : JsText := ['p', 'e', 'r', 'c', 'e', 'n', 't']

def fractionKey : JsText := ['f', 'r', 'a', 'c', 't', 'i', 'o', 'n']

/-! ## The policy -/

/-- A property that is neither `undefined` nor `null`. -/
def presentField (key : JsText) (value : Json) : Option Json :=
  match value.field key with
  | some .null => none
  | field => field

/-- A number between 0 and `max`. The error `none` is a throw, here and below. -/
def boundedNumber (rt : TreasuryRuntime) (max : ℚ) (error : PolicyError) (value : Json) :
    Except (Option PolicyError) ℚ :=
  match rt.number value with
  | none => .error none
  | some (.fin q) => if q < 0 ∨ max < q then .error (some error) else .ok q
  | some _ => .error (some error)

/-- The fraction that a bucket gives, as it is or as a percentage. -/
def fractionOf (rt : TreasuryRuntime) (bucket : Json) : Except (Option PolicyError) ℚ :=
  match presentField percentKey bucket, presentField fractionKey bucket with
  | some _, some _ => .error (some .bucketPercentAndFraction)
  | none, none => .error (some .bucketMissingPercent)
  | some percent, none => (boundedNumber rt 100 .bucketPercentInvalid percent).map (· / 100)
  | none, some fraction => boundedNumber rt 1 .bucketFractionInvalid fraction

def bucketOf (rt : TreasuryRuntime) (bucket : Json) : Except (Option PolicyError) Bucket :=
  match ((truthyField nameKey bucket).getD (.str [])).toText with
  | none => .error none
  | some name =>
    if name.trim = [] then .error (some .bucketNameRequired)
    else (fractionOf rt bucket).map fun fraction => ⟨name.trim, fraction⟩

/-- The fractions may sum to `1.0001`. -/
def validateTreasuryPolicy (rt : TreasuryRuntime) (policy : Option Json) :
    Except (Option PolicyError) (List Bucket) :=
  match policy.bind (Json.field bucketsKey) with
  | some (.arr buckets) =>
    (buckets.mapM (bucketOf rt)).bind fun buckets =>
      if 10001 / 10000 < (buckets.map Bucket.fraction).sum then
        .error (some .bucketTotalExceeds100)
      else .ok buckets
  | _ => .error (some .policyMissing)

/-! ## The allocation -/

/-- One assignment for each bucket, so the last one of a name stays. -/
def allocationsOf (balance : ℚ) (buckets : List Bucket) : FinMap JsText ℚ :=
  buckets.foldl (fun allocations bucket =>
    if bucket.name = protoKey then allocations
    else allocations.set bucket.name ((balance * bucket.fraction).floor : ℚ)) .empty

/-- The server with the policy that it loaded and the allocations that it recorded. -/
structure Treasury where
  server : Server
  policy : Option Json
  allocations : List (ℚ × FinMap JsText ℚ)

inductive AllocateAnswer where
  | unauthorized
  | refused (error : PolicyError)
  | thrown
  | allocated (allocations : FinMap JsText ℚ)

def adminAuthorized (config : ServerConfig) (token : Option JsText) : Bool :=
  config.adminToken ≠ [] && token = some config.adminToken

def postAllocate (rt : TreasuryRuntime) (config : ServerConfig) (t : Treasury)
    (token : Option JsText) (now : ℚ) : Treasury × AllocateAnswer :=
  if !adminAuthorized config token then (t, .unauthorized)
  else
    match validateTreasuryPolicy rt t.policy with
    | .error none => (t, .thrown)
    | .error (some error) => (t, .refused error)
    | .ok buckets =>
      let allocations := allocationsOf t.server.treasuryBalance buckets
      ({ t with
          server := saveState t.server
          allocations := t.allocations ++ [(now, allocations)] }, .allocated allocations)

inductive TreasuryCall where
  | allocate (token : Option JsText) (now : ℚ)
  | pool (call : PoolCall)

inductive TreasuryAnswer where
  | allocate (answer : AllocateAnswer)
  | pool (answer : ServerAnswer)

def treasuryStep (rt : TreasuryRuntime) (config : ServerConfig) (t : Treasury) :
    TreasuryCall → Treasury × TreasuryAnswer
  | .allocate token now =>
    let (t, answer) := postAllocate rt config t token now
    (t, .allocate answer)
  | .pool call =>
    let (server, answer) := poolStep rt.toServerRuntime config t.server call
    ({ t with server }, .pool answer)

/-! ## The law -/

/-- A step of the treasury. -/
abbrev TreasuryEvent := Event Treasury TreasuryCall TreasuryAnswer

/-- What an allocation shares out. -/
def sharedOut (allocations : FinMap JsText ℚ) : ℚ := allocations.total fun _ share => share

/-- What all recorded allocations share out. -/
def Treasury.recorded (t : Treasury) : ℚ := (t.allocations.map fun a => sharedOut a.2).sum

/-- What a step brings into the treasury: its part of a forfeited amount. -/
def entering (config : ServerConfig) (e : TreasuryEvent) : ℚ :=
  match e.input, e.out with
  | .pool (.finalize _ body _), .pool (.finalized result) =>
    forfeitShared body result.hold - forfeitShared body result.hold * forfeitSplit config
  | _, _ => 0

/-- **The allocation law** of a run: the shares of an allocation are not negative and sum to at most
the balance, and all of them to at most what was in the treasury or has entered it. -/
structure AllocationLaw (rt : TreasuryRuntime) (config : ServerConfig) (start : Treasury)
    (calls : List TreasuryCall) : Prop where
  bounded : ∀ e ∈ trace (treasuryStep rt config) start calls, ∀ allocations,
    e.out = .allocate (.allocated allocations) →
      (∀ name share, allocations.get name = some share → 0 ≤ share) ∧
      sharedOut allocations ≤ e.pre.server.treasuryBalance
  total : ∀ pre post, calls = pre ++ post →
    (exec (treasuryStep rt config) start pre).recorded - start.recorded ≤
      start.server.treasuryBalance +
        ((trace (treasuryStep rt config) start pre).map (entering config)).sum

/-- What the buckets would share out is covered by the part of the balance that is not recorded as
shared out since the start. -/
def Covered (rt : TreasuryRuntime) (config : ServerConfig) (start t : Treasury) :
    TreasuryCall → Prop
  | .allocate token _ => adminAuthorized config token = true → ∀ buckets,
      validateTreasuryPolicy rt t.policy = .ok buckets →
      sharedOut (allocationsOf t.server.treasuryBalance buckets) ≤
        t.server.treasuryBalance - (t.recorded - start.recorded)
  | .pool _ => True

/-- No hold is about a negative amount; a new one is about a positive amount. -/
def HoldsNonneg (s : Server) : Prop :=
  ∀ ticketId hold, s.comments.holds.get ticketId = some hold → 0 ≤ hold.amount

section Steps

variable {rt : TreasuryRuntime} {config : ServerConfig} {t start : Treasury} {s : Server}
  {call : TreasuryCall} {buckets : List Bucket} {balance : ℚ}

/-! ## The buckets -/

theorem boundedNumber_ok {max q : ℚ} {error : PolicyError} {value : Json}
    (h : boundedNumber rt max error value = .ok q) : 0 ≤ q ∧ q ≤ max := by
  unfold boundedNumber at h
  split at h
  · cases h
  · split at h
    · cases h
    · next hbounds =>
      cases h
      exact ⟨not_lt.1 fun hneg => hbounds (.inl hneg), not_lt.1 fun hbig => hbounds (.inr hbig)⟩
  · cases h

theorem fractionOf_nonneg {bucket : Json} {q : ℚ} (h : fractionOf rt bucket = .ok q) : 0 ≤ q := by
  unfold fractionOf at h
  split at h
  · cases h
  · cases h
  · next percent _ _ =>
    cases hn : boundedNumber rt 100 .bucketPercentInvalid percent with
    | error error =>
      rw [hn] at h
      cases h
    | ok p =>
      rw [hn] at h
      cases h
      exact div_nonneg (boundedNumber_ok hn).1 (by norm_num)
  · exact (boundedNumber_ok h).1

/-- The buckets of an accepted policy have no negative fraction. -/
theorem fraction_nonneg {policy : Option Json} (h : validateTreasuryPolicy rt policy = .ok buckets) :
    ∀ bucket ∈ buckets, 0 ≤ bucket.fraction := by
  intro bucket hbucket
  unfold validateTreasuryPolicy at h
  split at h
  · next items hitems =>
    cases hmap : items.mapM (bucketOf rt) with
    | error error =>
      rw [hmap] at h
      cases h
    | ok all =>
      rw [hmap, Except.bind] at h
      split at h
      · cases h
      · cases h
        obtain ⟨item, -, hitem⟩ := (Results.mem_mapM_iff hmap).1 hbucket
        unfold bucketOf at hitem
        split at hitem
        · cases hitem
        · split at hitem
          · cases hitem
          · cases hfraction : fractionOf rt item with
            | error error =>
              rw [hfraction] at hitem
              cases hitem
            | ok q =>
              rw [hfraction] at hitem
              cases hitem
              exact fractionOf_nonneg hfraction
  · cases h

/-- The shares of a balance are not negative. -/
theorem allocationsOf_nonneg (hbalance : 0 ≤ balance)
    (hbuckets : ∀ bucket ∈ buckets, 0 ≤ bucket.fraction) (name : JsText) (share : ℚ)
    (h : (allocationsOf balance buckets).get name = some share) : 0 ≤ share := by
  induction buckets using List.reverseRecOn with
  | nil => cases h
  | append_singleton buckets bucket ih =>
    have hrest := ih fun b hb => hbuckets b (List.mem_append_left _ hb)
    rw [allocationsOf, List.foldl_concat, ← allocationsOf] at h
    split at h
    · exact hrest h
    · rw [FinMap.get_set] at h
      split at h
      · cases h
        have hfraction := hbuckets bucket (List.mem_append_right _ (List.mem_singleton_self _))
        have hfloor : (0 : ℤ) ≤ (balance * bucket.fraction).floor :=
          Rat.le_floor_iff.2 (by push_cast; exact mul_nonneg hbalance hfraction)
        exact Int.cast_nonneg hfloor
      · exact hrest h

theorem sharedOut_nonneg {allocations : FinMap JsText ℚ}
    (h : ∀ name share, allocations.get name = some share → 0 ≤ share) :
    0 ≤ sharedOut allocations :=
  FinMap.total_nonneg h

/-! ## One step -/

theorem forfeitSplit_mem (config : ServerConfig) :
    0 ≤ forfeitSplit config ∧ forfeitSplit config ≤ 1 := by
  unfold forfeitSplit
  split
  · exact ⟨le_max_left _ _, max_le (by norm_num) (min_le_right _ _)⟩
  · norm_num

theorem forfeitShared_nonneg {body : FinalizeBody} {hold : CommentHold} (h : 0 ≤ hold.amount) :
    0 ≤ forfeitShared body hold := by
  unfold forfeitShared
  split
  · exact h
  · exact le_rfl

/-- The part of a forfeited amount that enters the treasury is not negative. -/
theorem treasuryPart_nonneg (config : ServerConfig) {body : FinalizeBody} {hold : CommentHold}
    (h : 0 ≤ hold.amount) :
    0 ≤ forfeitShared body hold - forfeitShared body hold * forfeitSplit config := by
  have hshared := @forfeitShared_nonneg body hold h
  have hle := mul_le_mul_of_nonneg_left (forfeitSplit_mem config).2 hshared
  rw [mul_one] at hle
  linarith

theorem HoldsNonneg.set {s s' : Server} {ticketId : JsText} {hold : CommentHold}
    (hs : HoldsNonneg s) (hset : s'.comments.holds = s.comments.holds.set ticketId hold)
    (h : 0 ≤ hold.amount) : HoldsNonneg s' := by
  intro id hold' hget
  rw [hset, FinMap.get_set] at hget
  split at hget
  · cases hget
    exact h
  · exact hs id hold' hget

/-- A node receipt leaves the holds and the treasury alone. -/
theorem postNodeReceipts_same (rt : ServerRuntime) (config : ServerConfig) (s : Server)
    (token : Option JsText) (body : NodeReceiptBody) (snapshot : Snapshot) (times : LoggedTimes) :
    (postNodeReceipts rt config s token body snapshot times).1.comments = s.comments ∧
      (postNodeReceipts rt config s token body snapshot times).1.treasuryBalance =
        s.treasuryBalance := by
  unfold postNodeReceipts
  split
  · exact ⟨rfl, rfl⟩
  · split
    · next s' hcap =>
      obtain rfl : s' = (applyPoolCap config s _ _ _).1 := by rw [hcap]
      exact ⟨rfl, rfl⟩
    · next s' hcap =>
      obtain rfl : s' = (applyPoolCap config s _ _ _).1 := by rw [hcap]
      exact ⟨rfl, rfl⟩

/-- What the answer to a `finalize` brings into the treasury. -/
def finalizedPart (config : ServerConfig) (body : FinalizeBody) : ServerAnswer → ℚ
  | .finalized result =>
    forfeitShared body result.hold - forfeitShared body result.hold * forfeitSplit config
  | _ => 0

/-- The ledger steps bring into the treasury what they are said to, which is not negative. -/
theorem poolStep_entering (call : PoolCall) (hholds : HoldsNonneg t.server) :
    (treasuryStep rt config t (.pool call)).1.server.treasuryBalance = t.server.treasuryBalance +
        entering config (event (treasuryStep rt config) t (.pool call)) ∧
      0 ≤ entering config (event (treasuryStep rt config) t (.pool call)) ∧
      HoldsNonneg (treasuryStep rt config t (.pool call)).1.server := by
  cases call with
  | nodeReceipt token body snapshot times =>
    obtain ⟨hcomments, htreasury⟩ :=
      postNodeReceipts_same rt.toServerRuntime config t.server token body snapshot times
    refine ⟨htreasury.trans (add_zero _).symm, le_rfl, fun id hold hget => ?_⟩
    exact hholds id hold (hcomments ▸ hget)
  | hold token body times random =>
    have heffect := postHold_effect rt.toServerRuntime config t.server token body times random
    refine ⟨?_, le_rfl, ?_⟩
    · change (postHold rt.toServerRuntime config t.server token body times random).1.treasuryBalance
        = t.server.treasuryBalance + 0
      rw [add_zero]
      generalize postHold rt.toServerRuntime config t.server token body times random = result
        at heffect
      cases heffect with
      | refused _ _ _ htreasury => exact htreasury
      | created _ _ _ _ _ _ _ htreasury => exact htreasury
    · change HoldsNonneg (postHold rt.toServerRuntime config t.server token body times random).1
      generalize postHold rt.toServerRuntime config t.server token body times random = result
        at heffect
      cases heffect with
      | refused _ hsame => exact fun id hold hget => hholds id hold (hsame ▸ hget)
      | created _ _ hpos _ _ hset => exact hholds.set hset hpos.le
  | finalize token body times =>
    have heffect := postFinalize_effect config t.server token body times
    have henter : entering config (event (treasuryStep rt config) t (.pool (.finalize token body times)))
        = finalizedPart config body (postFinalize config t.server token body times).2 := by
      simp only [entering, event_input, event_out, treasuryStep, poolStep]
      cases (postFinalize config t.server token body times).2 <;> rfl
    rw [henter]
    change (postFinalize config t.server token body times).1.treasuryBalance = _ ∧ _ ∧
      HoldsNonneg (postFinalize config t.server token body times).1
    generalize postFinalize config t.server token body times = result at heffect
    cases heffect with
    | refused => exact ⟨(add_zero _).symm, le_rfl, hholds⟩
    | overCap hover _ hset _ htreasury =>
      refine ⟨htreasury.trans (add_zero _).symm, le_rfl, hholds.set hset ?_⟩
      rw [settledHold_amount]
      exact hholds _ _ hover.finalizes.found
    | @accepted s' hold status result hsettles hresult _ hset _ htreasury =>
      have hamount := hholds _ _ hsettles.finalizes.found
      have hsame : forfeitShared body result.hold = forfeitShared body hold := by
        rw [hresult.2]
        unfold forfeitShared
        rw [settledHold_amount]
      simp only [finalizedPart, hsame]
      refine ⟨htreasury, treasuryPart_nonneg config hamount, hholds.set hset ?_⟩
      rw [settledHold_amount]
      exact hamount

/-- An allocation that is answered is recorded. -/
theorem allocate_allocated {token : Option JsText} {now : ℚ}
    (hadmin : adminAuthorized config token = true)
    (hpolicy : validateTreasuryPolicy rt t.policy = .ok buckets) :
    postAllocate rt config t token now =
      ({ t with
          server := saveState t.server
          allocations := t.allocations ++
            [(now, allocationsOf t.server.treasuryBalance buckets)] },
        .allocated (allocationsOf t.server.treasuryBalance buckets)) := by
  simp only [postAllocate, hadmin, hpolicy, Bool.not_true, Bool.false_eq_true, if_false]

/-- Any other call allocates nothing. -/
theorem allocate_refused {token : Option JsText} {now : ℚ}
    (h : ∀ buckets, ¬(adminAuthorized config token = true ∧
      validateTreasuryPolicy rt t.policy = .ok buckets)) :
    (postAllocate rt config t token now).1 = t ∧
      ∀ allocations, (postAllocate rt config t token now).2 ≠ .allocated allocations := by
  unfold postAllocate
  by_cases hadmin : adminAuthorized config token = true
  · cases hpolicy : validateTreasuryPolicy rt t.policy with
    | ok buckets => exact absurd ⟨hadmin, hpolicy⟩ (h buckets)
    | error error => cases error <;> simp [hadmin]
  · simp [hadmin]

/-! ## Runs -/

/-- What a run keeps: holds and balance are not negative, the balance is what was there and what
has entered, and records are only added. -/
structure Sound (config : ServerConfig) (start t : Treasury) (l : List TreasuryEvent) : Prop where
  holds : HoldsNonneg t.server
  balance : 0 ≤ t.server.treasuryBalance
  entered : t.server.treasuryBalance =
    start.server.treasuryBalance + (l.map (entering config)).sum
  recorded : start.recorded ≤ t.recorded

theorem Sound.step {l : List TreasuryEvent} (h : Sound config start t l) (call : TreasuryCall) :
    Sound config start (treasuryStep rt config t call).1
      (l ++ [event (treasuryStep rt config) t call]) := by
  cases call with
  | pool call =>
    obtain ⟨htreasury, henters, hholds⟩ := @poolStep_entering rt config t call h.holds
    refine ⟨hholds, ?_, ?_, h.recorded⟩
    · rw [htreasury]
      exact add_nonneg h.balance henters
    · rw [htreasury, h.entered, List.map_append, List.sum_append, add_assoc]
      simp
  | allocate token now =>
    have hnone : ((l ++ [event (treasuryStep rt config) t (.allocate token now)]).map
        (entering config)).sum = (l.map (entering config)).sum := by
      rw [List.map_append, List.sum_append]
      simp [entering]
    by_cases hallocates : ∃ buckets, adminAuthorized config token = true ∧
        validateTreasuryPolicy rt t.policy = .ok buckets
    · obtain ⟨buckets, hadmin, hpolicy⟩ := hallocates
      have heq := @allocate_allocated rt config t buckets token now hadmin hpolicy
      have hstate : (treasuryStep rt config t (.allocate token now)).1 =
          (postAllocate rt config t token now).1 := rfl
      have hshares := sharedOut_nonneg
        (allocationsOf_nonneg h.balance (fraction_nonneg hpolicy))
      rw [hstate, heq]
      refine ⟨h.holds, h.balance, ?_, ?_⟩
      · rw [hnone]
        exact h.entered
      · refine h.recorded.trans ?_
        simp only [Treasury.recorded, List.map_append, List.sum_append, List.map_cons,
          List.map_nil, List.sum_cons, List.sum_nil, add_zero]
        linarith
    · have hsame := (@allocate_refused rt config t token now
        fun buckets hb => hallocates ⟨buckets, hb⟩).1
      have hstate : (treasuryStep rt config t (.allocate token now)).1 = t := hsame
      rw [hstate]
      refine ⟨h.holds, h.balance, ?_, h.recorded⟩
      rw [hnone]
      exact h.entered

theorem sound_exec (hbalance : 0 ≤ start.server.treasuryBalance) (hholds : HoldsNonneg start.server)
    (calls : List TreasuryCall) :
    Sound config start (exec (treasuryStep rt config) start calls)
      (trace (treasuryStep rt config) start calls) :=
  history_of_step (fun _ _ call h => h.step call) ⟨hholds, hbalance, by simp, le_rfl⟩ calls

/-- What a covered call records is within the balance. -/
theorem recorded_of_covered {l : List TreasuryEvent} (h : Sound config start t l)
    (hcovered : Covered rt config start t call)
    (hrest : t.recorded - start.recorded ≤ t.server.treasuryBalance) :
    (treasuryStep rt config t call).1.recorded - start.recorded ≤
      (treasuryStep rt config t call).1.server.treasuryBalance := by
  cases call with
  | pool call =>
    obtain ⟨htreasury, henters, -⟩ := @poolStep_entering rt config t call h.holds
    rw [htreasury]
    have hsame : (treasuryStep rt config t (.pool call)).1.recorded = t.recorded := rfl
    rw [hsame]
    linarith
  | allocate token now =>
    by_cases hallocates : ∃ buckets, adminAuthorized config token = true ∧
        validateTreasuryPolicy rt t.policy = .ok buckets
    · obtain ⟨buckets, hadmin, hpolicy⟩ := hallocates
      have hroom := hcovered hadmin buckets hpolicy
      have hstate : (treasuryStep rt config t (.allocate token now)).1 =
          (postAllocate rt config t token now).1 := rfl
      rw [hstate, allocate_allocated hadmin hpolicy]
      simp only [Treasury.recorded, List.map_append, List.sum_append, List.map_cons,
        List.map_nil, List.sum_cons, List.sum_nil, add_zero] at hroom ⊢
      change _ ≤ t.server.treasuryBalance
      linarith
    · have hsame : (treasuryStep rt config t (.allocate token now)).1 = t :=
        (@allocate_refused rt config t token now fun buckets hb => hallocates ⟨buckets, hb⟩).1
      rw [hsame]
      exact hrest

end Steps

/-- It reads the decimals of the policies below. -/
def exampleTreasuryRuntime : TreasuryRuntime where
  toServerRuntime := exampleServerRuntime
  number
    | .num ['5', '0'] => some (.fin 50)
    | .num ['0', '.', '5', '0', '0', '0', '5'] => some (.fin (50005 / 100000))
    | .num ['0', '.', '5'] => some (.fin (1 / 2))
    | _ => some .nan

/-- Half of the balance for `a`, and a fraction for `b`. -/
def examplePolicy (fraction : JsText) : Json :=
  .obj [(bucketsKey, .arr
    [.obj [(nameKey, .str ['a']), (percentKey, .num ['5', '0'])],
     .obj [(nameKey, .str ['b']), (fractionKey, .num fraction)]])]

def exampleTreasuryConfig : ServerConfig := { examplePoolConfig with adminToken := ['a', 't'] }

def exampleTreasury (fraction : JsText) : Treasury where
  server := { examplePoolServer with treasuryBalance := 100000 }
  policy := some (examplePolicy fraction)
  allocations := []

def exampleAllocate : TreasuryCall := .allocate (some ['a', 't']) 1

end Ddns.Coordinator
