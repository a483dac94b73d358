import Ddns.Solana.Keys
import Mathlib.Data.Nat.Bitwise

/-!
# The watchdog policy program

Watchdogs attest how a name resolves, and with enough different watchdogs in an epoch the policy of
the name follows them (`ddns_watchdog_policy`). The policy of a name is addressed by
`["name_policy", name_hash]`, the log of an epoch by `["attest_log", epoch_id, name_hash]` and the
mark that a watchdog attested by `["attest_mark", epoch_id, name_hash, watchdog]`. The accounts are
created on demand, and their zero values double as "new". The rent of the accounts is left out. A
definition without a docstring is the item of the source with the same words in its name.
-/

namespace Ddns.WatchdogPolicy

open Tx

inductive WatchdogError where
  | unauthorized
  | invalidConfig
  | allowlistTooLarge
  | watchdogNotAllowlisted
  | watchdogDisabled
  | attestationTooOld
  | attestationFromFuture
  | epochMismatch
  | invalidConfidence
  deriving DecidableEq, Repr

def maxWatchdogs : Nat := 64

def maxSubmitters : Nat := 16

/-! ## Accounts -/

/-- `PolicyConfig`, with the two checks of `init_policy_config` on fields that never change. -/
structure PolicyConfig where
  authority : Pubkey
  epochLenSlots : Nat
  attestationMaxAgeSecs : Nat
  minWatchdogs : Nat
  warnThresholdBps : Nat
  quarantineThresholdBps : Nat
  allowlistedWatchdogs : List Pubkey
  allowlistedSubmitters : List Pubkey
  epochLen_pos : 0 < epochLenSlots
  minWatchdogs_pos : 0 < minWatchdogs

structure WatchdogState where
  watchdog : Pubkey
  enabled : Bool
  reputationScore : Int
  lastSeenUnix : Int
  deriving DecidableEq, Repr

/-- A freshly initialised `WatchdogState` account. -/
def WatchdogState.zero : WatchdogState := ⟨Pubkey.default, false, 0, 0⟩

inductive PolicyStatus where
  | ok
  | warn
  | quarantine
  deriving DecidableEq, Repr

structure NamePolicyState where
  nameHash : Hash
  status : PolicyStatus
  confidenceBps : Nat
  reasonFlags : Nat
  lastUpdatedUnix : Int
  lastEpochId : Nat
  rollingOk : Nat
  rollingFail : Nat
  rollingMismatch : Nat
  distinctWatchdogsLastEpoch : Nat
  penaltyBps : Nat
  recommendedTtlCap : Nat
  deriving DecidableEq, Repr

/-- A freshly initialised `NamePolicyState` account. -/
def NamePolicyState.zero : NamePolicyState := ⟨0, .ok, 0, 0, 0, 0, 0, 0, 0, 0, 0, 0⟩

structure AttestationLog where
  epochId : Nat
  nameHash : Hash
  count : Nat
  ok : Nat
  fail : Nat
  mismatch : Nat
  distinctWatchdogs : Nat
  lastRoot : Hash
  deriving DecidableEq, Repr

/-- A freshly initialised `AttestationLog` account. -/
def AttestationLog.zero : AttestationLog := ⟨0, 0, 0, 0, 0, 0, 0, 0⟩

structure AttestationMark where
  epochId : Nat
  nameHash : Hash
  watchdog : Pubkey
  firstSeenUnix : Int
  deriving DecidableEq, Repr

/-- A freshly initialised `AttestationMark` account. -/
def AttestationMark.zero : AttestationMark := ⟨0, 0, Pubkey.default, 0⟩

structure State where
  config : PolicyConfig
  watchdog : Pubkey → Option WatchdogState
  policy : Hash → Option NamePolicyState
  log : Nat → Hash → Option AttestationLog
  mark : Nat → Hash → Pubkey → Option AttestationMark

/-- The arguments of `submit_attestation_digest`. -/
structure Digest where
  epochId : Nat
  nameHash : Hash
  kind : Nat
  outcome : Nat
  reasonFlags : Nat
  confidenceBps : Nat
  rrsetHash : Hash
  observedAtUnix : Int
  lastRoot : Hash
  deriving DecidableEq, Repr

/-- The event `AttestationDigestAccepted`. -/
structure AttestationDigestAccepted where
  epochId : Nat
  nameHash : Hash
  kind : Nat
  outcome : Nat
  watchdog : Pubkey
  rrsetHash : Hash
  observedAtUnix : Int
  reasonFlags : Nat
  confidenceBps : Nat
  status : PolicyStatus
  deriving DecidableEq, Repr

/-! ## Helpers -/

def currentEpoch (cfg : PolicyConfig) (clock : Clock) : Nat := clock.slot / cfg.epochLenSlots

/-- The watchdog state that a submission finds or sets up, seen now. -/
def openWatchdog (ws : WatchdogState) (watchdog : Pubkey) (now : Int) :
    Result WatchdogError WatchdogState := do
  let ws := if ws.watchdog = Pubkey.default
    then { ws with watchdog := watchdog, enabled := true, reputationScore := 0 } else ws
  require (ws.enabled = true) .watchdogDisabled
  pure { ws with lastSeenUnix := now }

/-- The policy that a submission finds or sets up, its counters reset when the epoch changes. -/
def openPolicy (ps : NamePolicyState) (nameHash : Hash) (epoch : Nat) : NamePolicyState :=
  let ps := if ps.nameHash = 0
    then { NamePolicyState.zero with nameHash := nameHash, lastEpochId := epoch } else ps
  if ps.lastEpochId ≠ epoch then
    { ps with
      rollingOk := 0
      rollingFail := 0
      rollingMismatch := 0
      distinctWatchdogsLastEpoch := 0
      reasonFlags := 0
      lastEpochId := epoch }
  else ps

/-- The log that a submission finds or sets up. -/
def openLog (al : AttestationLog) (nameHash : Hash) (epoch : Nat) : AttestationLog :=
  if al.epochId = 0 then { AttestationLog.zero with epochId := epoch, nameHash := nameHash } else al

/-- `mark_new`. -/
def AttestationMark.isNew (mark : AttestationMark) : Bool := mark.epochId = 0

/-- The mark after a submission. -/
def openMark (mark : AttestationMark) (nameHash : Hash) (epoch : Nat) (watchdog : Pubkey)
    (now : Int) : AttestationMark :=
  if mark.isNew then ⟨epoch, nameHash, watchdog, now⟩ else mark

/-- The log counts a submission. -/
def AttestationLog.record (al : AttestationLog) (markNew : Bool) (d : Digest) : AttestationLog :=
  let al := if markNew
    then { al with distinctWatchdogs := Checked.satAdd 16 al.distinctWatchdogs 1 } else al
  let al := { al with count := Checked.satAdd 16 al.count 1 }
  let al := if d.kind = 2 then { al with mismatch := Checked.satAdd 16 al.mismatch 1 }
    else if d.kind = 1 ∧ d.outcome = 0 then { al with ok := Checked.satAdd 16 al.ok 1 }
    else { al with fail := Checked.satAdd 16 al.fail 1 }
  { al with lastRoot := d.lastRoot }

/-- The policy counts a submission. -/
def NamePolicyState.record (ps : NamePolicyState) (markNew : Bool) (d : Digest) (now : Int) :
    NamePolicyState :=
  let ps := if markNew
    then { ps with
      distinctWatchdogsLastEpoch := Checked.satAdd 16 ps.distinctWatchdogsLastEpoch 1 }
    else ps
  let ps := if d.kind = 2 then { ps with rollingMismatch := Checked.satAdd 32 ps.rollingMismatch 1 }
    else if d.kind = 1 ∧ d.outcome = 0 then { ps with rollingOk := Checked.satAdd 32 ps.rollingOk 1 }
    else { ps with rollingFail := Checked.satAdd 32 ps.rollingFail 1 }
  { ps with reasonFlags := ps.reasonFlags ||| d.reasonFlags, lastUpdatedUnix := now }

/-- The status that the weights of the counters call for, with enough watchdogs. -/
def nextStatus (cfg : PolicyConfig) (ps : NamePolicyState) : PolicyStatus :=
  if cfg.minWatchdogs ≤ ps.distinctWatchdogsLastEpoch then
    let okW := ps.rollingOk
    let failW := Checked.satMul 64 ps.rollingFail 2
    let mismatchW := Checked.satMul 64 ps.rollingMismatch 3
    let denom := Checked.satAdd 64 (Checked.satAdd 64 okW failW) mismatchW
    if 0 < denom then
      let riskNum := Checked.satMul 64 (Checked.satAdd 64 failW mismatchW) 10000
      let riskBps := Checked.cast 16 (riskNum / denom)
      if cfg.quarantineThresholdBps ≤ riskBps then .quarantine
      else if cfg.warnThresholdBps ≤ riskBps then .warn
      else .ok
    else ps.status
  else ps.status

/-- The confidence after the observations of the epoch. -/
def confidence (ps : NamePolicyState) : Nat :=
  let total := Checked.satAdd 32 (Checked.satAdd 32 ps.rollingOk ps.rollingFail) ps.rollingMismatch
  Checked.cast 16 (min (Checked.satMul 64 total 500) 10000)

/-- The output fields of a status. -/
def NamePolicyState.publish (ps : NamePolicyState) : NamePolicyState :=
  match ps.status with
  | .ok => { ps with penaltyBps := 0, recommendedTtlCap := 0 }
  | .warn => { ps with
      penaltyBps := 500
      recommendedTtlCap :=
        if ps.recommendedTtlCap = 0 then 300 else min ps.recommendedTtlCap 300 }
  | .quarantine => { ps with penaltyBps := 2500, recommendedTtlCap := 60 }

/-- The checks of `submit_attestation_digest`; the watchdog state after them. -/
def checkDigest (clock : Clock) (st : State) (submitter : Signer) (watchdog : Pubkey)
    (d : Digest) : Result WatchdogError WatchdogState := do
  let cfg := st.config
  require (watchdog ∈ cfg.allowlistedWatchdogs) .watchdogNotAllowlisted
  require (submitter.key = watchdog ∨ submitter.key ∈ cfg.allowlistedSubmitters) .unauthorized
  let now := clock.unixTimestamp
  require (¬(0 < cfg.attestationMaxAgeSecs ∧
    d.observedAtUnix < Checked.satInt 63 (now - cfg.attestationMaxAgeSecs))) .attestationTooOld
  require (d.observedAtUnix ≤ Checked.satInt 63 (now + 120)) .attestationFromFuture
  require (d.confidenceBps ≤ 10000) .invalidConfidence
  require (d.epochId = currentEpoch cfg clock) .epochMismatch
  openWatchdog ((st.watchdog watchdog).getD WatchdogState.zero) watchdog now

/-! ## Instructions -/

/-- `set_watchdog_enabled`; `watchdogAccount` is the account that addresses the state. -/
def setWatchdogEnabled (clock : Clock) (st : State) (authority : Signer)
    (watchdogAccount watchdog : Pubkey) (enabled : Bool) : Result WatchdogError State := do
  let ws := (st.watchdog watchdogAccount).getD WatchdogState.zero
  require (authority.key = st.config.authority) .unauthorized
  require (watchdog ∈ st.config.allowlistedWatchdogs) .watchdogNotAllowlisted
  let ws := { ws with watchdog := watchdog, enabled := enabled, lastSeenUnix := clock.unixTimestamp }
  pure { st with watchdog := Function.update st.watchdog watchdogAccount (some ws) }

def updateThresholds (st : State) (authority : Signer) (warnBps quarantineBps : Nat) :
    Result WatchdogError State := do
  require (authority.key = st.config.authority) .unauthorized
  require (warnBps ≤ 10000 ∧ quarantineBps ≤ 10000) .invalidConfig
  require (warnBps ≤ quarantineBps) .invalidConfig
  pure { st with
    config := { st.config with
      warnThresholdBps := warnBps
      quarantineThresholdBps := quarantineBps } }

def setAllowlists (st : State) (authority : Signer)
    (allowlistedWatchdogs allowlistedSubmitters : List Pubkey) : Result WatchdogError State := do
  require (authority.key = st.config.authority) .unauthorized
  require (allowlistedWatchdogs.length ≤ maxWatchdogs ∧
    allowlistedSubmitters.length ≤ maxSubmitters) .allowlistTooLarge
  pure { st with
    config := { st.config with
      allowlistedWatchdogs := allowlistedWatchdogs
      allowlistedSubmitters := allowlistedSubmitters } }

/-- The policy of the name after a submission that passed the checks. -/
def nextPolicy (clock : Clock) (st : State) (watchdog : Pubkey) (d : Digest) : NamePolicyState :=
  let epoch := currentEpoch st.config clock
  let mark := (st.mark epoch d.nameHash watchdog).getD AttestationMark.zero
  let ps := openPolicy ((st.policy d.nameHash).getD NamePolicyState.zero) d.nameHash epoch
  let ps := ps.record mark.isNew d clock.unixTimestamp
  let ps := { ps with status := nextStatus st.config ps }
  let ps := { ps with confidenceBps := confidence ps }
  ps.publish

/-- The log of the epoch after a submission that passed the checks. -/
def nextLog (clock : Clock) (st : State) (watchdog : Pubkey) (d : Digest) : AttestationLog :=
  let epoch := currentEpoch st.config clock
  let mark := (st.mark epoch d.nameHash watchdog).getD AttestationMark.zero
  let al := openLog ((st.log epoch d.nameHash).getD AttestationLog.zero) d.nameHash epoch
  al.record mark.isNew d

def submitAttestationDigest (clock : Clock) (st : State) (submitter : Signer) (watchdog : Pubkey)
    (d : Digest) : Result WatchdogError (State × AttestationDigestAccepted) := do
  let ws ← checkDigest clock st submitter watchdog d
  let epoch := currentEpoch st.config clock
  let n := d.nameHash
  let ps := nextPolicy clock st watchdog d
  let al := nextLog clock st watchdog d
  let mark := openMark ((st.mark epoch n watchdog).getD AttestationMark.zero) n epoch watchdog
    clock.unixTimestamp
  pure ({ st with
    watchdog := Function.update st.watchdog watchdog (some ws)
    policy := Function.update st.policy n (some ps)
    log := Function.update st.log epoch (Function.update (st.log epoch) n (some al))
    mark := Function.update st.mark epoch (Function.update (st.mark epoch) n
      (Function.update (st.mark epoch n) watchdog (some mark))) }, {
    epochId := epoch
    nameHash := n
    kind := d.kind
    outcome := d.outcome
    watchdog := watchdog
    rrsetHash := d.rrsetHash
    observedAtUnix := d.observedAtUnix
    reasonFlags := d.reasonFlags
    confidenceBps := d.confidenceBps
    status := ps.status })

/-- The instructions, with the accounts and arguments they are called with. -/
inductive Instr where
  | setWatchdogEnabled (authority : Signer) (watchdogAccount watchdog : Pubkey) (enabled : Bool)
  | updateThresholds (authority : Signer) (warnBps quarantineBps : Nat)
  | setAllowlists (authority : Signer) (allowlistedWatchdogs allowlistedSubmitters : List Pubkey)
  | submitAttestationDigest (submitter : Signer) (watchdog : Pubkey) (d : Digest)

/-- A transaction of one instruction, answered by the event of a submission. -/
def process (clock : Clock) (st : State) :
    Instr → Result WatchdogError (State × Option AttestationDigestAccepted)
  | .setWatchdogEnabled s a w b => (·, none) <$> setWatchdogEnabled clock st s a w b
  | .updateThresholds s warn quarantine => (·, none) <$> updateThresholds st s warn quarantine
  | .setAllowlists s ws ss => (·, none) <$> setAllowlists st s ws ss
  | .submitAttestationDigest s w d =>
    (fun r => (r.1, some r.2)) <$> submitAttestationDigest clock st s w d

/-- One action on the chain. -/
abbrev step : Chain State → Action Instr →
    Chain State × Option (Result WatchdogError (Option AttestationDigestAccepted)) :=
  chainStep process

/-- The accounts after `init_policy_config`: nobody has attested anything. -/
def State.genesis (config : PolicyConfig) : State where
  config := config
  watchdog := fun _ => none
  policy := fun _ => none
  log := fun _ _ => none
  mark := fun _ _ _ => none

end Ddns.WatchdogPolicy
