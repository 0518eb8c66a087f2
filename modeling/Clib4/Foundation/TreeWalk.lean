import Mathlib.Algebra.BigOperators.Group.List.Basic
import Mathlib.Algebra.Ring.Int.Defs
import Mathlib.Data.List.Basic

namespace Foundation

open List

/-!
# Walks in a tree

A walk from some place in a tree goes up to the parent or down to a child by its
name.  Whatever its steps are, it amounts to a number of steps up followed by
names to go down.
-/

variable {ν : Type}

inductive Move (ν : Type)
  | up
  | down (name : ν)
  deriving DecidableEq, Repr

def Move.rise : Move ν -> Int
  | .up => -1
  | .down _ => 1

/-- What a walk amounts to. -/
structure Walk (ν : Type) where
  ups : Nat
  names : List ν
  deriving DecidableEq, Repr

namespace Walk

/-- A step up takes back the last step down, if there is one. -/
def step (walk : Walk ν) : Move ν -> Walk ν
  | .up =>
    match walk.names with
    | [] => ⟨walk.ups + 1, []⟩
    | _ :: _ => ⟨walk.ups, walk.names.dropLast⟩
  | .down name => ⟨walk.ups, walk.names ++ [name]⟩

def follow (walk : Walk ν) (moves : List (Move ν)) : Walk ν :=
  moves.foldl step walk

def start : Walk ν := ⟨0, []⟩

variable (walk : Walk ν)

theorem follow_append (moves others : List (Move ν)) :
    walk.follow (moves ++ others) = (walk.follow moves).follow others :=
  foldl_append

theorem follow_down_up (name : ν) (moves : List (Move ν)) :
    walk.follow (.down name :: .up :: moves) = walk.follow moves := by
  have back : (walk.step (.down name)).step .up = walk := by
    rcases walk with ⟨ups, names⟩
    cases names with
    | nil => rfl
    | cons first names =>
      show Walk.mk ups ((first :: names) ++ [name]).dropLast = _
      rw [dropLast_concat]
  show ((walk.step (.down name)).step .up).follow moves = walk.follow moves
  rw [back]

def depth (walk : Walk ν) : Int := walk.names.length - walk.ups

theorem depth_step (move : Move ν) : (walk.step move).depth = walk.depth + move.rise := by
  rcases walk with ⟨ups, names⟩
  cases move with
  | up =>
    cases names with
    | nil =>
      simp only [step, depth, Move.rise, length_nil]
      omega
    | cons first names =>
      simp only [step, depth, Move.rise, length_dropLast, length_cons]
      omega
  | down name =>
    simp only [step, depth, Move.rise, length_append, length_singleton]
    omega

theorem depth_follow (moves : List (Move ν)) :
    (walk.follow moves).depth = walk.depth + (moves.map Move.rise).sum := by
  induction moves generalizing walk with
  | nil => simp [follow]
  | cons move moves ih =>
    have next := ih (walk.step move)
    rw [depth_step] at next
    rw [map_cons, sum_cons, <- add_assoc]
    exact next

end Walk

end Foundation
