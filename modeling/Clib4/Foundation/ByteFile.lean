import Clib4.Foundation.Splice
import Mathlib.Tactic.Common

namespace Foundation

/-!
# A byte array with one position

The plainest picture of an open file.  Reading takes what is there, writing
replaces or extends, and the position is any natural number.  Where a
position lies behind the end, `growOnSeek` says whether moving there extends
the array at once; otherwise the next write fills the gap.
-/

structure ByteFile where
  content : List UInt8
  position : Nat
  growOnSeek : Bool
  deriving DecidableEq, Repr

/-- The three places an offset may be counted from. -/
inductive Origin
  | start | current | ending
  deriving DecidableEq, Repr

namespace ByteFile

def rest (file : ByteFile) : List UInt8 :=
  file.content.drop file.position

def advance (file : ByteFile) (count : Nat) : ByteFile :=
  { file with position := file.position + count }

def read (file : ByteFile) (size : Nat) : List UInt8 × ByteFile :=
  (file.rest.take size, file.advance (file.rest.take size).length)

def write (file : ByteFile) (data : List UInt8) : ByteFile :=
  { file with
    content := overwrite file.content file.position data
    position := file.position + data.length }

def target (file : ByteFile) (offset : Int) : Origin -> Int
  | .start => offset
  | .current => file.position + offset
  | .ending => file.content.length + offset

/-- Move to a position; one before the start is taken as the start. -/
def moveTo (file : ByteFile) (position : Int) : ByteFile :=
  if position = file.position then file
  else
    { file with
      position := position.toNat
      content := if file.growOnSeek then extend file.content position.toNat
        else file.content }

def seek (file : ByteFile) (offset : Int) (origin : Origin) : ByteFile :=
  file.moveTo (file.target offset origin)

@[simp] theorem advance_zero (file : ByteFile) : file.advance 0 = file := rfl

@[simp] theorem advance_content (file : ByteFile) (count : Nat) :
    (file.advance count).content = file.content := rfl

@[simp] theorem advance_position (file : ByteFile) (count : Nat) :
    (file.advance count).position = file.position + count := rfl

@[simp] theorem advance_growOnSeek (file : ByteFile) (count : Nat) :
    (file.advance count).growOnSeek = file.growOnSeek := rfl

variable (file : ByteFile)

theorem advance_advance (first second : Nat) :
    (file.advance first).advance second = file.advance (first + second) := by
  simp [advance, Nat.add_assoc]

theorem rest_advance (count : Nat) : (file.advance count).rest = file.rest.drop count := by
  simp [rest, advance, List.drop_drop]

theorem rest_advance_one {file : ByteFile} {c : UInt8} {rest : List UInt8}
    (next : file.rest = c :: rest) : (file.advance 1).rest = rest := by
  rw [rest_advance, next]
  rfl

theorem length_rest : file.rest.length = file.content.length - file.position := by
  simp [rest]

@[simp] theorem write_nil (file : ByteFile) : file.write [] = file := by
  simp [write]

theorem write_write (first second : List UInt8) :
    (file.write first).write second = file.write (first ++ second) := by
  simp [write, overwrite_append, Nat.add_assoc]

@[simp] theorem write_position (file : ByteFile) (data : List UInt8) :
    (file.write data).position = file.position + data.length := rfl

@[simp] theorem moveTo_position (file : ByteFile) (position : Int) :
    (file.moveTo position).position = position.toNat := by
  unfold moveTo
  split
  · omega
  · rfl

theorem moveTo_of_le (position : Int) (bound : position.toNat <= file.content.length) :
    file.moveTo position = { file with position := position.toNat } := by
  unfold moveTo
  split
  · rename_i same
    have : position.toNat = file.position := by omega
    rw [this]
  · have noGap : position.toNat - file.content.length = 0 := by omega
    simp [extend, noGap]

/-- The bytes from the place a move leads to, which growing does not change. -/
theorem rest_moveTo (position : Int) :
    (file.moveTo position).rest = file.content.drop position.toNat := by
  unfold moveTo
  split
  · rename_i same
    have here : position.toNat = file.position := by omega
    rw [here]
    rfl
  · unfold rest
    split
    · have gone : (List.replicate (position.toNat - file.content.length) (0 : UInt8)).drop
          (position.toNat - file.content.length) = [] :=
        List.drop_eq_nil_of_le (Nat.le_of_eq List.length_replicate)
      unfold extend
      rw [List.drop_append, gone, List.append_nil]
    · rfl

@[simp] theorem moveTo_self (file : ByteFile) : file.moveTo file.position = file :=
  if_pos rfl

theorem seek_back_advance (count : Nat) (bound : count <= file.rest.length) :
    (file.advance count).seek (-(count : Int)) .current = file := by
  have back : (file.advance count).target (-(count : Int)) .current = file.position := by
    simp only [target, advance_position]
    omega
  unfold seek
  rw [back]
  rcases Nat.eq_zero_or_pos count with none | some
  · subst count
    simp
  · rw [length_rest] at bound
    rw [moveTo_of_le _ _ (by simp only [Int.toNat_natCast, advance_content]; omega)]
    rfl

end ByteFile

end Foundation
