import Clib4.Stdio.Printf.IntegerField
import Clib4.Time.Numerals

namespace Clib4.Stdio.Printf

open List

/-!
# Numbers that are printed and read back

Whatever its flags, width and precision are, a field of `%u` consists of blanks,
digits and blanks.  That is what `strtol` takes for a number.
-/

/-- The padding of a field, with at least the zeros that the precision asks for. -/
theorem Body.assemble_padded {body : Body} {w cnt : Int} {field : List UInt8 × Int}
    (assembled : body.assemble w cnt = .ok field) : ∃ blanks zeros trailing : Nat,
    field.1 = List.replicate blanks (ch ' ') ++ body.sign ++
      (List.replicate zeros (ch '0') ++ body.text) ++ List.replicate trailing (ch ' ') /\
    body.p <= zeros + body.text.length := by
  have padding (c : Char) (w l : Int) (fl : Flags) :
      ∃ count, pad c w l fl = List.replicate count (ch c) := by
    unfold pad
    split_ifs
    · exact ⟨0, rfl⟩
    · exact ⟨_, rfl⟩
  unfold Body.assemble at assembled
  dsimp only at assembled
  split_ifs at assembled
  cases assembled
  rw [append_assoc _ _ body.text, Body.pad_number, Body.number]
  generalize max w _ = width
  generalize (body.sign.length : Int) + max body.p body.text.length = size
  rcases padding ' ' width size body.fl with ⟨blanks, front⟩
  rcases padding '0' width size body.fl.flipZero with ⟨more, middle⟩
  rcases padding ' ' width size body.fl.flipLeft with ⟨trailing, back⟩
  refine ⟨blanks, more + (body.p - body.text.length).toNat, trailing, ?_, by omega⟩
  rw [front, middle, back, replicate_add]
  simp only [append_assoc]

theorem unsignedBody_parts {fl : Flags} {p : Int} {xp : Bool} {value : Nat} {body : Body}
    (made : IntegerLetter.body fl p xp value .u = .ok body) (shown : ¬ (value = 0 /\ p = 0)) :
    body.sign = [] /\ body.text = fmtDecimal 10 value /\ (value = 0 -> 1 <= body.p) := by
  simp only [IntegerLetter.body, integerBody, if_neg shown] at made
  split_ifs at made
  all_goals
    cases made
    refine ⟨rfl, rfl, fun zero => ?_⟩
    dsimp only
    omega

/-- What `%u` writes for a number that is a `long`, `strtol` reads, up to the blanks
behind it.  For 0 with the precision 0 there is no digit to read. -/
theorem unsigned_read_back {φ : Type} (lib : Library φ) (msg : List UInt8) (cnt : Int)
    (conversion : Conversion φ) (named : conversion.t = ch 'u') (small : conversion.arg.i < 2 ^ 31)
    (shown : ¬ (conversion.arg.i = 0 /\ conversion.p = 0)) (effect : Effect)
    (written : convert lib msg cnt conversion = .ok effect) (rest : List UInt8)
    (ends : Stdlib.leadingDigits 10 rest = []) (errno : Nat) :
    ∃ trailing, Stdlib.strtol (some (effect.text ++ rest)) 10 errno =
      ⟨conversion.arg.i, errno, List.replicate trailing (ch ' ') ++ rest⟩ := by
  rw [convert_integer lib msg cnt conversion .u named] at written
  rcases ok_of_bind_ok written with ⟨body, made, written⟩
  rcases ok_of_bind_ok written with ⟨field, assembled, written⟩
  cases written
  rcases unsignedBody_parts made shown with ⟨unsigned, text, pos⟩
  rcases Body.assemble_padded assembled with ⟨blanks, zeros, trailing, shape, wide⟩
  rw [unsigned, text, append_nil] at shape
  rw [text] at wide
  generalize conversion.arg.i = value at *
  have fits : value < 10 ^ 64 := small.trans (by decide)
  -- the zeros are digits, too
  have number : Time.numeral (List.replicate zeros 0 ++ digits 10 64 value) = value :=
    Time.numeral_zeros_append.trans (valueOf_digits 64 value fits)
  have decimal : ∀ digit ∈ List.replicate zeros 0 ++ digits 10 64 value, digit < 10 :=
    forall_mem_append.mpr ⟨fun digit zero => by rw [eq_of_mem_replicate zero]; decide,
      digits_lt (by decide)⟩
  have some_digit : List.replicate zeros 0 ++ digits 10 64 value ≠ [] := by
    rcases Nat.eq_zero_or_pos value with zero | notZero
    · have one := pos zero
      rw [zero, fmtDecimal_zero, length_nil] at wide
      exact append_ne_nil_of_left_ne_nil (by simp; omega) _
    · rcases digits_head 64 value fits notZero.ne' with ⟨first, more, head, _⟩
      simp [head]
  have behind : Stdlib.leadingDigits 10 (List.replicate trailing (ch ' ') ++ rest) = [] := by
    cases trailing with
    | zero => exact ends
    | succ trailing => rfl
  have blank : ∀ c ∈ List.replicate blanks (ch ' '), Stdlib.isspace c := by
    intro c mem
    rw [eq_of_mem_replicate mem]
    rfl
  have read := @Time.strtol_digits _ _ _ blank some_digit decimal (number.trans_lt small) behind errno
  rw [number, map_append, map_replicate] at read
  refine ⟨trailing, ?_⟩
  rw [Effect.ofField, shape]
  simp only [append_assoc] at read ⊢
  exact read

/-- 7, in a field of five bytes with two digits. -/
theorem unsigned_read_back_of_seven : ∃ trailing,
    Stdlib.strtol (some ("   07".toList.map ch)) 10 0 =
      ⟨7, 0, List.replicate trailing (ch ' ') ++ []⟩ :=
  unsigned_read_back latinLibrary [] 0
    { fl := {}, w := 5, p := 2, xp := true, ps := .bare, t := ch 'u', arg := Arg.ofInt () 7 } rfl
    (by decide) (by decide) (Effect.ofField ("   07".toList.map ch, 5)) rfl [] rfl 0

end Clib4.Stdio.Printf
