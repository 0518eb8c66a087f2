import Mathlib.Data.List.Nodup
import Mathlib.Logic.Function.Basic

namespace Foundation

open List

/-!
# Chains of links

A singly linked list in memory: every cell has a link to the next one or
none.  `IsChain` says which cells are met by following the links.
-/

/-- Following the links from `start` leads through the cells listed and ends. -/
def IsChain (next : Nat -> Option Nat) : Option Nat -> List Nat -> Prop
  | start, [] => start = none
  | start, cell :: cells => start = some cell /\ IsChain next (next cell) cells

namespace IsChain

variable {next next' : Nat -> Option Nat} {start : Option Nat} {cells : List Nat}

theorem congr (same : ∀ cell ∈ cells, next' cell = next cell) (chain : IsChain next start cells) :
    IsChain next' start cells := by
  induction cells generalizing start with
  | nil => exact chain
  | cons cell cells ih =>
    refine ⟨chain.1, ?_⟩
    rw [same cell mem_cons_self]
    exact ih (fun other mem => same other (mem_cons_of_mem _ mem)) chain.2

theorem eq_nil (chain : IsChain next none cells) : cells = [] := by
  cases cells with
  | nil => rfl
  | cons cell cells => exact absurd chain.1 (by simp)

theorem skip {first removed : Nat} {rest : List Nat}
    (chain : IsChain next (next first) (removed :: rest))
    (distinct : (first :: removed :: rest).Nodup) :
    IsChain (Function.update next first (next removed))
      (Function.update next first (next removed) first) rest := by
  rw [Function.update_self]
  refine congr (fun cell mem => ?_) chain.2
  apply Function.update_of_ne
  rintro rfl
  exact (nodup_cons.mp distinct).1 (mem_cons_of_mem _ mem)

theorem unlink {before behind : List Nat} {previous removed : Nat}
    (chain : IsChain next start (before ++ previous :: removed :: behind))
    (distinct : (before ++ previous :: removed :: behind).Nodup) :
    IsChain (Function.update next previous (next removed)) start
      (before ++ previous :: behind) := by
  induction before generalizing start with
  | nil =>
    refine ⟨chain.1, ?_⟩
    exact skip chain.2 distinct
  | cons cell before ih =>
    have differ : cell ≠ previous := by
      rintro rfl
      exact (nodup_cons.mp distinct).1 (by simp)
    refine ⟨chain.1, ?_⟩
    rw [Function.update_of_ne differ]
    exact ih chain.2 (nodup_cons.mp distinct).2

theorem snoc {last added : Nat} (chain : IsChain next start cells)
    (ends : cells.getLast? = some last) (distinct : cells.Nodup) (fresh : added ∉ cells) :
    IsChain (Function.update (Function.update next added none) last (some added)) start
      (cells ++ [added]) := by
  induction cells generalizing start with
  | nil => cases ends
  | cons cell cells ih =>
    have notAdded : cell ≠ added := by
      rintro rfl
      exact fresh mem_cons_self
    cases cells with
    | nil =>
      simp only [List.getLast?_singleton, Option.some.injEq] at ends
      subst ends
      refine ⟨chain.1, ?_⟩
      rw [Function.update_self]
      refine ⟨rfl, ?_⟩
      rw [Function.update_of_ne notAdded.symm, Function.update_self]
      rfl
    | cons second rest =>
      rw [List.getLast?_cons_cons] at ends
      have differ : cell ≠ last := by
        rintro rfl
        exact (nodup_cons.mp distinct).1 (mem_of_getLast? ends)
      refine ⟨chain.1, ?_⟩
      rw [Function.update_of_ne differ, Function.update_of_ne notAdded]
      exact ih chain.2 ends (nodup_cons.mp distinct).2
        (fun mem => fresh (mem_cons_of_mem _ mem))

end IsChain

end Foundation
