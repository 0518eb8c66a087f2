import Mathlib.Tactic.SplitIfs

namespace Clib4.Unistd

/-!
# `ftruncate64`

All exits share one clean-up, which moves the file to the position it had before.
Until that has been asked for it is taken for 0, and a file that was cut off may be
too short for it.
-/

/-- A file of dos.library. -/
structure CutFile where
  position : Nat
  length : Nat

/-- What the function reads of a descriptor. -/
structure CutFd where
  isSocket : Bool
  stdio : Bool
  write : Bool
  file : CutFile

/-- What its calls answer; `moved` is the position that `ChangeFileSize` leaves. -/
structure CutCalls where
  examineObject : Bool
  getFilePosition : Bool
  changeFileSize : Bool
  moved : Nat
  ioErr : Bool
  changeFilePosition : Bool

variable (calls : CutCalls) (length : Int)

/-- A position that `GetFilePosition` did not tell is -1, and a file is not moved there. -/
def CutCalls.moveTo (told : Bool) (position : Nat) (file : CutFile) : CutFile :=
  if told && calls.changeFilePosition then { file with position := position } else file

def CutFd.passes (fd : CutFd) : Bool :=
  !fd.isSocket && !fd.stdio && decide (0 <= length) && fd.write && calls.examineObject

/-- `ftruncate64`: whether it returns 0, and the file.  Without a descriptor the
clean-up reads the file of a null pointer. -/
def ftruncate64 : Option CutFd -> Option (Bool × CutFile)
  | none => none
  | some fd =>
    if fd.passes calls length then
      let file := if calls.changeFileSize then ⟨calls.moved, length.toNat⟩ else fd.file
      some (calls.changeFileSize && !calls.ioErr, calls.moveTo calls.getFilePosition fd.file.position file)
    else some (false, calls.moveTo true 0 fd.file)

/-- The call returns, the position is the same, and after success the length is as requested. -/
def Truncates (fd : Option CutFd) : Option (Bool × CutFile) -> Prop
  | none => False
  | some (result, after) =>
    (∀ fd' ∈ fd, after.position = fd'.file.position) /\ (result -> after.length = length)

def CutFd.Kept (fd : CutFd) : Prop :=
  if fd.passes calls length then
    calls.changeFileSize -> calls.getFilePosition /\ calls.changeFilePosition \/
      calls.moved = fd.file.position
  else calls.changeFilePosition -> fd.file.position = 0

/-- `ftruncate64` does what it should for an open descriptor under `Kept`, and never else. -/
theorem ftruncate64_iff (fd : Option CutFd) :
    Truncates length fd (ftruncate64 calls length fd) <-> ∃ fd' ∈ fd, fd'.Kept calls length := by
  cases fd with
  | none => simp [Truncates, ftruncate64]
  | some fd =>
    unfold Truncates ftruncate64 CutFd.Kept CutCalls.moveTo
    cases passed : fd.passes calls length with
    | false =>
      cases calls.changeFilePosition <;> simp [passed, @eq_comm Nat 0]
    | true =>
      have nonneg : 0 <= length := by
        simp only [CutFd.passes, Bool.and_eq_true, decide_eq_true_eq] at passed
        exact passed.1.1.2
      cases calls.getFilePosition <;> cases calls.changeFileSize <;>
        cases calls.changeFilePosition <;> simp [passed, Int.max_eq_left nonneg]

/-- With a negative length a file at position 5 is moved to its start. -/
theorem ftruncate64_rewinds :
    (ftruncate64 ⟨true, true, true, 0, false, true⟩ (-1) (some ⟨false, false, true, ⟨5, 9⟩⟩)).map
      (·.2.position) = some 0 :=
  rfl

end Clib4.Unistd
