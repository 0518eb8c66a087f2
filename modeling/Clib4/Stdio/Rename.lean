import Mathlib.Logic.Function.Basic
import Mathlib.Tactic.SplitIfs

namespace Clib4.Stdio

/-!
# `rename`

`Rename` does not replace a file.  With Unix path semantics the target is deleted
then and the renaming tried again; if that fails, the target is gone.
-/

/-- How `Rename` ends: it works, there is a file of the new name, or another error. -/
inductive Renaming
  | done | objectExists | failed
deriving DecidableEq

/-- How the calls end that `rename` may make, one after the other. -/
structure RenameCalls where
  rename : Renaming
  delete : Bool
  again : Bool

/-- A name as dos.library takes it, with `is_root`. -/
structure AmigaName where
  name : List Char
  isRoot : Bool

section

variable {Object : Type} (calls : RenameCalls) (old new : List Char)
  (files : List Char -> Option Object)

/-- What the names refer to after `Rename`. -/
def renamed : List Char -> Option Object :=
  Function.update (Function.update files old none) new (files old)

/-- The part of `rename` behind the checks of the names. -/
def renameFiles (unixPathSemantics : Bool) : Bool × (List Char -> Option Object) :=
  if old = new then (true, files)
  else
    match calls.rename with
    | .done => (true, renamed old new files)
    | .failed => (false, files)
    | .objectExists =>
      if !unixPathSemantics then (false, files)
      else if !calls.delete then (false, files)
      else
        let files := Function.update files new none
        if calls.again then (true, renamed old new files) else (false, files)

def amigaNames (translate : Option (List Char -> Option AmigaName)) :
    Option (List Char × List Char) :=
  match translate with
  | none => some (old, new)
  | some translate =>
    if old = [] \/ new = [] then none
    else do
      let old <- translate old
      let new <- translate new
      if old.isRoot \/ new.isRoot then none else some (old.name, new.name)

/-- `rename`: whether it returns 0, and what the names refer to.  `translate` is there
with Unix path semantics. -/
def rename (translate : Option (List Char -> Option AmigaName)) :
    Bool × (List Char -> Option Object) :=
  match amigaNames old new translate with
  | none => (false, files)
  | some (old, new) => renameFiles calls old new files translate.isSome

/-- What a call may leave behind, whose names are these for dos.library. -/
def Renames (after : Bool × (List Char -> Option Object)) : Option (List Char × List Char) -> Prop
  | none => after = (false, files)
  | some (old, new) =>
    if after.1 then
      if old = new then after.2 = files else after.2 new = files old /\ after.2 old = none
    else after.2 old = files old /\ after.2 new = files new

/-- There is a target, which is deleted before the renaming fails once more. -/
structure RenameCalls.Lose : Prop where
  differ : old ≠ new
  target : files new ≠ none
  rename : calls.rename = .objectExists
  delete : calls.delete
  again : calls.again = false

variable {old new}

theorem renamed_renames {before : List Char -> Option Object} (differ : old ≠ new)
    (same : before old = files old) :
    Renames files (true, renamed old new before) (some (old, new)) := by
  unfold Renames renamed
  simp [differ, same]

theorem renameFiles_iff (unixPathSemantics : Bool) :
    Renames files (renameFiles calls old new files unixPathSemantics) (some (old, new)) <->
      ¬(unixPathSemantics /\ calls.Lose old new files) := by
  unfold renameFiles
  by_cases same : old = new
  · rw [if_pos same]
    refine iff_of_true ?_ fun both => both.2.differ same
    simp [Renames, same]
  · rw [if_neg same]
    have kept : Renames files (false, files) (some (old, new)) := ⟨rfl, rfl⟩
    cases outcome : calls.rename with
    | done =>
      refine iff_of_true (renamed_renames files same rfl) fun both => ?_
      cases outcome.symm.trans both.2.rename
    | failed =>
      refine iff_of_true kept fun both => ?_
      cases outcome.symm.trans both.2.rename
    | objectExists =>
      dsimp only
      split_ifs with amiga keeps again
      · exact iff_of_true kept fun both => by simp [both.1] at amiga
      · exact iff_of_true kept fun both => by simp [both.2.delete] at keeps
      · refine iff_of_true (renamed_renames files same (Function.update_of_ne same _ _)) ?_
        exact fun both => absurd again (by simp [both.2.again])
      · -- only here is the target gone
        simp only [Bool.not_eq_true', Bool.not_eq_false, Bool.not_eq_true] at amiga keeps again
        constructor
        · rintro ⟨-, gone⟩ both
          exact both.2.target (gone.symm.trans (Function.update_self ..))
        · intro safe
          have nothing : files new = none := by
            by_contra target
            exact safe ⟨amiga, same, target, outcome, keeps, again⟩
          refine ⟨Function.update_of_ne same _ _, ?_⟩
          exact (Function.update_self new none files).trans nothing.symm

/-- A call is right unless it loses a file. -/
theorem rename_iff (oldname newname : List Char)
    (translate : Option (List Char -> Option AmigaName)) :
    Renames files (rename calls oldname newname files translate)
        (amigaNames oldname newname translate) <->
      ¬∃ names ∈ amigaNames oldname newname translate,
        translate.isSome /\ calls.Lose names.1 names.2 files := by
  unfold rename
  cases names : amigaNames oldname newname translate with
  | none => simp [Renames]
  | some pair =>
    rw [renameFiles_iff]
    simp

/-- The new name has been lost when the second `Rename` fails. -/
theorem rename_loses_target :
    ∃ after : List Char -> Option Nat,
      rename ⟨.objectExists, true, false⟩ ['a'] ['b'] (fun name => some name.length)
        (some fun name => some ⟨name, false⟩) = (false, after) /\ after ['b'] = none :=
  ⟨_, rfl, rfl⟩

end

end Clib4.Stdio
