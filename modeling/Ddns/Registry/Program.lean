import Ddns.Solana.Keys

/-!
# The registry program

The canonical routes of names (`ddns_registry`), addressed by `["canonical", name_hash]`. Only the
finalize authority of the config writes a route. The rent that payers put into new accounts is left
out. A definition without a docstring is the item of the source with the same words in its name.
-/

namespace Ddns.Registry

open Tx

inductive RegistryError where
  | unauthorizedFinalize
  | badTtlCaps
  | ttlOutOfRange
  | overflow
  deriving DecidableEq, Repr

/-- The part of `Config` that `update_config` sets. -/
structure ConfigParams where
  epochLenSlots : Nat
  minReceipts : Nat
  minStakeWeight : Nat
  ttlMinS : Nat
  ttlMaxS : Nat
  finalizeAuthority : Pubkey
  deriving DecidableEq, Repr

structure Config extends ConfigParams where
  authority : Pubkey
  deriving DecidableEq, Repr

structure CanonicalRoute where
  nameHash : Hash
  destHash : Hash
  ttlS : Nat
  version : Nat
  updatedAtSlot : Nat
  lastAggregate : Pubkey
  deriving DecidableEq, Repr

/-- A freshly initialised `CanonicalRoute` account. -/
def CanonicalRoute.zero : CanonicalRoute := ⟨0, 0, 0, 0, 0, Pubkey.default⟩

structure State where
  config : Config
  route : Hash → Option CanonicalRoute

def updateConfig (st : State) (authority : Signer) (p : ConfigParams) :
    Result RegistryError State := do
  demand (st.config.authority = authority.key) .constraint
  require (p.ttlMinS ≤ p.ttlMaxS) .badTtlCaps
  pure { st with config := { st.config with toConfigParams := p } }

/-- The content that `finalize_route` writes into a route. -/
def CanonicalRoute.finalize (route : CanonicalRoute) (slot : Nat) (nameHash destHash : Hash)
    (ttlS : Nat) (aggregateRef : Pubkey) : Result RegistryError CanonicalRoute :=
  if route.version = 0 then
    pure ⟨nameHash, destHash, ttlS, 1, slot, aggregateRef⟩
  else if route.destHash ≠ destHash ∨ route.ttlS ≠ ttlS then do
    let version ← okOr (Checked.add 64 route.version 1) .overflow
    pure { route with
      version, destHash := destHash, ttlS := ttlS
      updatedAtSlot := slot, lastAggregate := aggregateRef }
  else
    pure { route with updatedAtSlot := slot, lastAggregate := aggregateRef }

/-- `finalize_route`, signed by `finalizeAuthority`. -/
def finalizeRoute (clock : Clock) (st : State) (finalizeAuthority : Pubkey)
    (nameHash destHash : Hash) (ttlS : Nat) (aggregateRef : Pubkey) :
    Result RegistryError State := do
  require (finalizeAuthority = st.config.finalizeAuthority) .unauthorizedFinalize
  require (st.config.ttlMinS ≤ ttlS ∧ ttlS ≤ st.config.ttlMaxS) .ttlOutOfRange
  let route := (st.route nameHash).getD CanonicalRoute.zero
  let route ← route.finalize clock.slot nameHash destHash ttlS aggregateRef
  pure { st with route := Function.update st.route nameHash (some route) }

section Lemmas

variable {clock : Clock} {st st' : State} {authority ref : Pubkey} {nameHash destHash : Hash}
  {ttlS slot : Nat} {route route' : CanonicalRoute}

/-- A finalized route has the content it was finalized with. -/
theorem finalize_content (h : route.finalize slot nameHash destHash ttlS ref = .ok route') :
    route'.destHash = destHash ∧ route'.ttlS = ttlS ∧ route'.lastAggregate = ref := by
  unfold CanonicalRoute.finalize at h
  split at h
  · cases h
    exact ⟨rfl, rfl, rfl⟩
  · split at h
    · simp only [bind_eq_ok, pure_eq_ok] at h
      obtain ⟨v, -, rfl⟩ := h
      exact ⟨rfl, rfl, rfl⟩
    · next hsame =>
      rw [not_or, not_not, not_not] at hsame
      cases h
      exact ⟨hsame.1, hsame.2, rfl⟩

/-- What a successful `finalizeRoute` checks and writes. -/
theorem finalizeRoute_ok
    (h : finalizeRoute clock st authority nameHash destHash ttlS ref = .ok st') :
    authority = st.config.finalizeAuthority ∧ st.config.ttlMinS ≤ ttlS ∧
      ttlS ≤ st.config.ttlMaxS ∧ st'.config = st.config ∧
      ∃ route, st'.route = Function.update st.route nameHash (some route) ∧
        route.destHash = destHash ∧ route.ttlS = ttlS ∧ route.lastAggregate = ref := by
  simp only [finalizeRoute, bind_eq_ok, require_eq_ok, exists_unit, pure_eq_ok] at h
  obtain ⟨hauth, ⟨hmin, hmax⟩, route, hroute, rfl⟩ := h
  exact ⟨hauth, hmin, hmax, rfl, route, rfl, finalize_content hroute⟩

end Lemmas

end Ddns.Registry
