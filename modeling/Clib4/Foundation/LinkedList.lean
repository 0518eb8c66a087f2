import Mathlib.Data.List.Chain
import Mathlib.Data.List.Nodup
import Mathlib.Logic.Function.Basic

namespace Foundation

open List

/-!
# Doubly linked lists with two sentinels

Cells in memory with links in both directions, between a head cell and a tail
cell that are never removed.  `Links.Holds` says which cells the list holds;
adding at the end and removing anywhere are the usual updates of two links
each.
-/

/-- The links of all cells. -/
structure Links (Cell : Type) where
  succ : Cell -> Option Cell
  pred : Cell -> Option Cell

namespace Links

variable {Cell : Type}

def Adjacent (links : Links Cell) (first second : Cell) : Prop :=
  links.succ first = some second /\ links.pred second = some first

/-- The list from `head` to `tail` holds the cells in between. -/
structure Holds (links : Links Cell) (head tail : Cell) (cells : List Cell) : Prop where
  chain : (head :: (cells ++ [tail])).IsChain links.Adjacent
  distinct : (head :: (cells ++ [tail])).Nodup
  ends : links.succ tail = none

theorem isChain_congr {links links' : Links Cell} {cells : List Cell}
    (chain : cells.IsChain links.Adjacent)
    (succ : ∀ cell ∈ cells.dropLast, links'.succ cell = links.succ cell)
    (pred : ∀ cell ∈ cells.tail, links'.pred cell = links.pred cell) :
    cells.IsChain links'.Adjacent := by
  induction cells with
  | nil => exact isChain_nil
  | cons first rest ih =>
    cases rest with
    | nil => exact isChain_singleton _
    | cons second rest =>
      rw [isChain_cons_cons] at chain ⊢
      refine ⟨⟨?_, ?_⟩, ih chain.2 ?_ ?_⟩
      · rw [succ first (by simp)]
        exact chain.1.1
      · rw [pred second (by simp)]
        exact chain.1.2
      · intro cell mem
        exact succ cell (mem_cons_of_mem _ mem)
      · intro cell mem
        exact pred cell (mem_cons_of_mem _ mem)

theorem exists_last (head : Cell) (cells : List Cell) :
    ∃ front last, head :: cells = front ++ [last] :=
  ⟨_, _, (dropLast_append_getLast (cons_ne_nil head cells)).symm⟩

variable [DecidableEq Cell]

def join (links : Links Cell) (first second : Cell) : Links Cell where
  succ := Function.update links.succ first (some second)
  pred := Function.update links.pred second (some first)

def addTail (links : Links Cell) (tail cell : Cell) : Links Cell :=
  match links.pred tail with
  | none => links
  | some last => (links.join cell tail).join last cell

def remove (links : Links Cell) (cell : Cell) : Links Cell :=
  match links.pred cell, links.succ cell with
  | some before, some behind => links.join before behind
  | _, _ => links

theorem adjacent_join (links : Links Cell) (first second : Cell) :
    (links.join first second).Adjacent first second :=
  ⟨Function.update_self .., Function.update_self ..⟩

theorem isChain_join {links : Links Cell} {cells : List Cell} {first second : Cell}
    (chain : cells.IsChain links.Adjacent) (notFirst : first ∉ cells.dropLast)
    (notSecond : second ∉ cells.tail) : cells.IsChain (links.join first second).Adjacent := by
  refine isChain_congr chain ?_ ?_
  · intro cell mem
    apply Function.update_of_ne
    rintro rfl
    exact notFirst mem
  · intro cell mem
    apply Function.update_of_ne
    rintro rfl
    exact notSecond mem

namespace Holds

variable {links : Links Cell} {head tail cell : Cell} {cells : List Cell}

theorem addTail (holds : links.Holds head tail cells)
    (outside : cell ∉ head :: (cells ++ [tail])) :
    (links.addTail tail cell).Holds head tail (cells ++ [cell]) := by
  obtain ⟨front, last, parts⟩ := exists_last head cells
  have chain := holds.chain
  have distinct := holds.distinct
  rw [<- cons_append, parts] at chain distinct outside
  have notTail : tail ∉ front ++ [last] :=
    fun mem => (nodup_append.mp distinct).2.2 tail mem tail (by simp) rfl
  have notCell : cell ∉ front ++ [last] := fun mem => outside (mem_append_left _ mem)
  have cellNotTail : cell ≠ tail := fun same => outside (by simp [same])
  have lastDistinct : last ∉ front := by
    have := (nodup_append.mp distinct).1
    simpa using (nodup_append.mp this).2.2 last
  rw [append_assoc, singleton_append, isChain_append_cons_cons] at chain
  obtain ⟨before, ⟨-, lastLink⟩, -⟩ := chain
  have lastNotTail : tail ≠ last := fun same => notTail (by simp [same])
  have cellNotLast : cell ≠ last := fun same => notCell (by simp [same])
  unfold Links.addTail
  rw [lastLink]
  refine ⟨?_, ?_, ?_⟩
  · rw [<- cons_append, <- cons_append, parts, append_assoc, append_assoc]
    refine isChain_append_cons_cons.mpr ⟨?_, adjacent_join _ _ _, ?_⟩
    · refine isChain_join (isChain_join before ?_ ?_) ?_ ?_
      · exact fun mem => notCell (dropLast_subset _ mem)
      · exact fun mem => notTail (mem_of_mem_tail mem)
      · rw [dropLast_concat]
        exact lastDistinct
      · exact fun mem => notCell (mem_of_mem_tail mem)
    · refine isChain_pair.mpr ⟨?_, ?_⟩
      · exact (Function.update_of_ne cellNotLast ..).trans (Function.update_self ..)
      · exact (Function.update_of_ne cellNotTail.symm ..).trans (Function.update_self ..)
  · rw [<- cons_append, <- cons_append, parts, append_assoc, singleton_append,
      nodup_middle]
    exact nodup_cons.mpr ⟨outside, distinct⟩
  · exact (Function.update_of_ne lastNotTail ..).trans
      ((Function.update_of_ne cellNotTail.symm ..).trans holds.ends)

theorem remove {before behind : List Cell} (holds : links.Holds head tail (before ++ cell :: behind)) :
    (links.remove cell).Holds head tail (before ++ behind) := by
  obtain ⟨front, last, parts⟩ := exists_last head before
  obtain ⟨next, rest, follow⟩ : ∃ next rest, behind ++ [tail] = next :: rest := by
    cases behind with
    | nil => exact ⟨tail, [], rfl⟩
    | cons next rest => exact ⟨next, rest ++ [tail], rfl⟩
  have whole : head :: (before ++ cell :: behind ++ [tail]) =
      front ++ last :: cell :: next :: rest := by
    rw [append_assoc, cons_append, follow, <- cons_append, parts]
    simp
  have shorter : head :: (before ++ behind ++ [tail]) = front ++ last :: next :: rest := by
    rw [append_assoc, follow, <- cons_append, parts]
    simp
  have chain := holds.chain
  have distinct := holds.distinct
  rw [whole] at chain distinct
  obtain ⟨frontChain, toCell, fromCell⟩ := isChain_append_cons_cons.mp chain
  obtain ⟨fromCell, restChain⟩ := isChain_cons_cons.mp fromCell
  -- The cells before the one removed, and those behind it.
  have halves : ((front ++ [last]) ++ (cell :: next :: rest)).Nodup := by
    rw [append_assoc]
    exact distinct
  obtain ⟨frontDistinct, restDistinct, apart⟩ := nodup_append.mp halves
  have lastNotFront : last ∉ front := by
    have := (nodup_append.mp frontDistinct).2.2
    intro mem
    exact this last mem last (by simp) rfl
  have lastNotRest : last ∉ next :: rest := by
    intro mem
    exact apart last (by simp) last (mem_cons_of_mem _ mem) rfl
  have nextNotFront : next ∉ front ++ [last] := by
    intro mem
    exact apart next mem next (by simp) rfl
  have nextNotRest := (nodup_cons.mp (nodup_cons.mp restDistinct).2).1
  unfold Links.remove
  rw [toCell.2, fromCell.1]
  refine ⟨?_, ?_, ?_⟩
  · rw [shorter]
    refine isChain_append_cons_cons.mpr ⟨?_, adjacent_join _ _ _, ?_⟩
    · refine isChain_join frontChain ?_ ?_
      · rw [dropLast_concat]
        exact lastNotFront
      · exact fun mem => nextNotFront (mem_of_mem_tail mem)
    · exact isChain_join restChain (fun mem => lastNotRest (dropLast_subset _ mem))
        nextNotRest
  · rw [shorter]
    exact distinct.sublist (List.Sublist.append_left (by simp) _)
  · have tailMember : tail ∈ next :: rest := by
      rw [<- follow]
      simp
    refine (Function.update_of_ne ?_ ..).trans holds.ends
    rintro rfl
    exact lastNotRest tailMember

end Holds

end Links

end Foundation
