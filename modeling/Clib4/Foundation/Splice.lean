import Mathlib.Data.List.Basic

namespace Foundation

open List

/-!
# Byte arrays written at a position

What a file holds is a list of bytes.  Writing past its end leaves a gap that
reads as zero bytes; writing nothing changes nothing, wherever the position
stands.
-/

/-- Put `data` at `position`, filling a gap behind the old end with zeros. -/
def overwrite (content : List UInt8) (position : Nat) (data : List UInt8) : List UInt8 :=
  if data = [] then content
  else
    content.take position ++ List.replicate (position - content.length) 0 ++ data ++
      content.drop (position + data.length)

/-- Make the array at least `size` bytes long. -/
def extend (content : List UInt8) (size : Nat) : List UInt8 :=
  content ++ List.replicate (size - content.length) 0

@[simp] theorem overwrite_nil (content : List UInt8) (position : Nat) :
    overwrite content position [] = content := rfl

section

variable (content : List UInt8) (position : Nat)

theorem getElem?_overwrite (data : List UInt8) (nonempty : data ≠ []) (idx : Nat) :
    (overwrite content position data)[idx]? =
      if idx < position then
        (if idx < content.length then content[idx]? else some 0)
      else if idx < position + data.length then data[idx - position]?
      else content[idx]? := by
  unfold overwrite
  rw [if_neg nonempty]
  have headLength : (content.take position ++
      List.replicate (position - content.length) 0).length = position := by
    simp only [length_append, length_take, length_replicate]
    omega
  by_cases before : idx < position
  · rw [if_pos before, append_assoc, List.getElem?_append_left (by omega)]
    by_cases old : idx < content.length
    · rw [if_pos old, List.getElem?_append_left (by rw [length_take]; omega),
        List.getElem?_take_of_lt before]
    · rw [if_neg old, List.getElem?_append_right (by rw [length_take]; omega),
        List.getElem?_replicate, if_pos (by rw [length_take]; omega)]
  · rw [if_neg before, append_assoc, List.getElem?_append_right (by omega), headLength]
    by_cases inside : idx < position + data.length
    · rw [if_pos inside, List.getElem?_append_left (by omega)]
    · rw [if_neg inside, List.getElem?_append_right (by omega), List.getElem?_drop]
      congr 1
      omega

theorem length_overwrite (data : List UInt8) (nonempty : data ≠ []) :
    (overwrite content position data).length = max content.length (position + data.length) := by
  unfold overwrite
  rw [if_neg nonempty]
  simp only [length_append, length_take, length_replicate, length_drop]
  omega

theorem overwrite_append (first second : List UInt8) :
    overwrite (overwrite content position first) (position + first.length) second =
      overwrite content position (first ++ second) := by
  by_cases firstEmpty : first = []
  · subst first
    simp
  by_cases secondEmpty : second = []
  · subst second
    simp
  have bothNonempty : first ++ second ≠ [] := by
    intro empty
    exact firstEmpty (append_eq_nil_iff.mp empty).1
  apply ext_getElem?
  intro idx
  rw [getElem?_overwrite _ _ _ secondEmpty, getElem?_overwrite _ _ _ bothNonempty,
    getElem?_overwrite _ _ _ firstEmpty, length_overwrite _ _ _ firstEmpty,
    length_append]
  by_cases before : idx < position
  · rw [if_pos (by omega), if_pos (by omega), if_pos before, if_pos before]
  by_cases inFirst : idx < position + first.length
  · rw [if_pos inFirst, if_pos (by omega), if_neg before, if_pos inFirst, if_neg before,
      if_pos (by omega), List.getElem?_append_left (by omega)]
  by_cases inSecond : idx < position + first.length + second.length
  · rw [if_neg inFirst, if_pos inSecond, if_neg before, if_pos (by omega),
      List.getElem?_append_right (by omega)]
    congr 1
    omega
  · rw [if_neg inFirst, if_neg inSecond, if_neg before, if_neg inFirst, if_neg before,
      if_neg (by omega)]

end

theorem position_eq_of_overwrite {first second : List UInt8} {position other : Nat}
    (same : ∀ c, overwrite first position [c] = overwrite second other [c]) :
    position = other := by
  by_contra differ
  -- At `position` the left side holds the byte, and the right side does not depend on it.
  have reads : ∀ c, (overwrite first position [c])[position]? = some c := by
    intro c
    simp [getElem?_overwrite]
  have fixed : ∀ c, (overwrite second other [c])[position]? =
      (overwrite second other [0])[position]? := by
    intro c
    rw [getElem?_overwrite _ _ _ (by simp), getElem?_overwrite _ _ _ (by simp)]
    simp only [length_singleton]
    by_cases before : position < other
    · rw [if_pos before, if_pos before]
    · rw [if_neg before, if_neg before, if_neg (by omega), if_neg (by omega)]
  have one := reads 1
  rw [same, fixed, <- same, reads] at one
  simp at one

end Foundation
