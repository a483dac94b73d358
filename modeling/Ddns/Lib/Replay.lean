import Ddns.Lib.Run
import Mathlib.Logic.Function.Basic
import Mathlib.Order.Lattice

/-!
# Tickets that are taken once

A ticket has a holder, a number and an id. A new one is taken if its id was not used before and its
number is larger than all that its holder has used. `Fresh` says this of the tickets taken so far; an
implementation keeps the last number of each holder and the set of the used ids instead, and `Covers`
says that these stand for the tickets taken. Then the test on them is `Fresh`
(`Covers.fresh_iff`), and taking a ticket keeps them in step (`Covers.take`).
-/

namespace Replay

structure Ticket (κ ν ι : Type*) where
  holder : κ
  number : ν
  id : ι
  deriving DecidableEq

section Defs

variable {κ ν ι : Type*} [LinearOrder ν]

/-- The ticket `v` may come after `u`. -/
def Ticket.Before (u v : Ticket κ ν ι) : Prop :=
  u.id ≠ v.id ∧ (u.holder = v.holder → u.number < v.number)

/-- The ticket is new among the tickets taken, and its number is above the ground. -/
def Fresh (ground : ν) (taken : List (Ticket κ ν ι)) (v : Ticket κ ν ι) : Prop :=
  ground < v.number ∧ ∀ u ∈ taken, u.Before v

/-- The last numbers and the used ids stand for the tickets taken. -/
structure Covers (ground : ν) (last : κ → ν) (used : ι → Prop) (taken : List (Ticket κ ν ι)) :
    Prop where
  used_iff : ∀ i, used i ↔ ∃ u ∈ taken, u.id = i
  ground_le : ∀ k, ground ≤ last k
  number_le : ∀ u ∈ taken, u.number ≤ last u.holder
  last_mem : ∀ k, last k = ground ∨ ∃ u ∈ taken, u.holder = k ∧ u.number = last k

end Defs

variable {κ ν ι : Type*} [LinearOrder ν] {ground : ν} {last last' : κ → ν} {used used' : ι → Prop}
  {taken : List (Ticket κ ν ι)} {v : Ticket κ ν ι}

theorem Covers.nil (ground : ν) :
    Covers ground (fun _ : κ => ground) (fun _ : ι => False) [] where
  used_iff _ := by simp
  ground_le _ := le_rfl
  number_le _ hu := absurd hu (List.not_mem_nil)
  last_mem _ := .inl rfl

/-- The test on the last number and the used ids asks whether the ticket is new. -/
theorem Covers.fresh_iff (h : Covers ground last used taken) :
    last v.holder < v.number ∧ ¬used v.id ↔ Fresh ground taken v := by
  constructor
  · rintro ⟨hlast, hunused⟩
    refine ⟨(h.ground_le _).trans_lt hlast, fun u hu => ⟨fun hid => ?_, fun hholder => ?_⟩⟩
    · exact hunused ((h.used_iff _).2 ⟨u, hu, hid⟩)
    · exact (h.number_le u hu).trans_lt (hholder ▸ hlast)
  · rintro ⟨hground, hall⟩
    refine ⟨?_, fun hused => ?_⟩
    · rcases h.last_mem v.holder with hlast | ⟨u, hu, hholder, hnumber⟩
      · rw [hlast]
        exact hground
      · rw [← hnumber]
        exact (hall u hu).2 hholder
    · obtain ⟨u, hu, hid⟩ := (h.used_iff _).1 hused
      exact (hall u hu).1 hid

/-- Taking a ticket. -/
theorem Covers.take (h : Covers ground last used taken) (hlast : last v.holder < v.number)
    (hnumber : last' v.holder = v.number) (hother : ∀ k, k ≠ v.holder → last' k = last k)
    (hused : ∀ i, used' i ↔ used i ∨ i = v.id) : Covers ground last' used' (taken ++ [v]) := by
  have hle (k : κ) : last k ≤ last' k := by
    by_cases hk : k = v.holder
    · rw [hk, hnumber]
      exact hlast.le
    · exact (hother k hk).ge
  refine ⟨fun i => ?_, fun k => (h.ground_le k).trans (hle k), fun u hu => ?_, fun k => ?_⟩
  · rw [hused, h.used_iff]
    constructor
    · rintro (⟨u, hu, hid⟩ | rfl)
      · exact ⟨u, List.mem_append_left _ hu, hid⟩
      · exact ⟨v, List.mem_append_right _ (List.mem_singleton_self v), rfl⟩
    · rintro ⟨u, hu, hid⟩
      rcases List.mem_append.1 hu with hu | hu
      · exact .inl ⟨u, hu, hid⟩
      · exact .inr (List.mem_singleton.1 hu ▸ hid.symm)
  · rcases List.mem_append.1 hu with hu | hu
    · exact (h.number_le u hu).trans (hle _)
    · rw [List.mem_singleton.1 hu, hnumber]
  · by_cases hk : k = v.holder
    · refine .inr ⟨v, List.mem_append_right _ (List.mem_singleton_self v), hk.symm, ?_⟩
      rw [hk, hnumber]
    · rw [hother k hk]
      refine (h.last_mem k).imp_right fun hex => ?_
      obtain ⟨u, hu, hboth⟩ := hex
      exact ⟨u, List.mem_append_left _ hu, hboth⟩

/-- Tickets taken one after another, each of them new. -/
theorem pairwise_take (h : taken.Pairwise Ticket.Before) (hv : Fresh ground taken v) :
    (taken ++ [v]).Pairwise Ticket.Before :=
  List.pairwise_append.2 ⟨h, List.pairwise_singleton _ _, fun u hu _ hw =>
    List.mem_singleton.1 hw ▸ hv.2 u hu⟩

section Runs

variable {σ α ω : Type*} {step : σ → α → σ × ω}

/-- A system that takes tickets, `tickets` being the one that an event takes: it takes none but
those that pass the test, and keeps its numbers and ids accordingly. -/
structure Keeper (step : σ → α → σ × ω) (tickets : Runs.Event σ α ω → Option (Ticket κ ν ι))
    (last : σ → κ → ν) (used : σ → ι → Prop) : Prop where
  take : ∀ {s a v}, tickets (Runs.event step s a) = some v →
    last s v.holder < v.number ∧ ¬used s v.id ∧ last (step s a).1 v.holder = v.number ∧
      (∀ k, k ≠ v.holder → last (step s a).1 k = last s k) ∧
      ∀ i, used (step s a).1 i ↔ used s i ∨ i = v.id
  skip : ∀ {s a}, tickets (Runs.event step s a) = none →
    (∀ k, last (step s a).1 k = last s k) ∧ ∀ i, used (step s a).1 i ↔ used s i

variable {tickets : Runs.Event σ α ω → Option (Ticket κ ν ι)} {lastOf : σ → κ → ν}
  {usedOf : σ → ι → Prop}

/-- Along every run the state stands for the tickets taken, and these were new one by one. -/
theorem Keeper.covers (keeper : Keeper step tickets lastOf usedOf) {s : σ}
    (hs : Covers ground (lastOf s) (usedOf s) []) (is : List α) :
    Covers ground (lastOf (Runs.exec step s is)) (usedOf (Runs.exec step s is))
      ((Runs.trace step s is).filterMap tickets) ∧
    ((Runs.trace step s is).filterMap tickets).Pairwise Ticket.Before := by
  refine Runs.history_of_step (J := fun s l => Covers ground (lastOf s) (usedOf s)
    (l.filterMap tickets) ∧ (l.filterMap tickets).Pairwise Ticket.Before) ?_ ⟨hs, .nil⟩ is
  rintro s l a ⟨hcovers, hpairwise⟩
  cases hv : tickets (Runs.event step s a) with
  | none =>
    rw [Runs.filterMap_concat_none hv]
    obtain ⟨hlast, hused⟩ := keeper.skip hv
    refine ⟨⟨fun i => ?_, fun k => ?_, fun u hu => ?_, fun k => ?_⟩, hpairwise⟩
    · rw [hused]
      exact hcovers.used_iff i
    · rw [hlast]
      exact hcovers.ground_le k
    · rw [hlast]
      exact hcovers.number_le u hu
    · rw [hlast]
      exact hcovers.last_mem k
  | some v =>
    rw [Runs.filterMap_concat_some hv]
    obtain ⟨hnew, hunused, hnumber, hother, hused⟩ := keeper.take hv
    have hfresh := hcovers.fresh_iff.1 ⟨hnew, hunused⟩
    exact ⟨hcovers.take hnew hnumber hother hused, pairwise_take hpairwise hfresh⟩

end Runs

end Replay
