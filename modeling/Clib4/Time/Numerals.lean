import Clib4.Stdlib.StrtolExact
import Clib4.Time.Strptime

namespace Clib4.Time

open Foundation List
open Stdlib (byteOf numeralFrom leadingDigits digitValue)

/-!
# Numbers written and read

The digits that `strftime` writes, and the number that `strtol` makes of them.
`readNumber_digits` is what the rest of the development uses: blanks before the
digits are skipped, and the number ends where no digit follows.
-/

/-! ## The digits of a number -/

def numeral (digits : List Nat) : Nat := numeralFrom 10 0 digits

theorem numeral_concat (digits : List Nat) (digit : Nat) :
    numeral (digits ++ [digit]) = 10 * numeral digits + digit := by
  simp [numeral, numeralFrom, foldl_append]

theorem numeral_zeros_append {zeros : Nat} {digits : List Nat} :
    numeral (List.replicate zeros 0 ++ digits) = numeral digits := by
  induction zeros with
  | zero => rfl
  | succ zeros ih =>
    exact ih

variable {digits : List Nat}

theorem numeral_lt (small : ∀ digit ∈ digits, digit < 10) :
    numeral digits < 10 ^ digits.length := by
  induction digits using List.reverseRecOn with
  | nil => decide
  | append_singleton digits digit ih =>
    have before := ih fun other mem => small other (mem_append_left _ mem)
    have last := small digit (mem_append_right _ (mem_singleton_self digit))
    rw [numeral_concat, length_append, length_singleton]
    omega

theorem numeral_reversedDigits (room number : Nat) (fits : number < 10 ^ room) :
    numeral (reversedDigits room number).reverse = number := by
  induction room generalizing number with
  | zero =>
    have zero := Nat.lt_one_iff.mp fits
    rw [zero]
    rfl
  | succ room ih =>
    rw [reversedDigits, reverse_cons, numeral_concat]
    split_ifs with more
    · rw [ih _ (by rw [Nat.pow_succ] at fits; omega)]
      omega
    · have nothing : numeral ([] : List Nat).reverse = 0 := rfl
      omega

theorem reversedDigits_lt_ten (room number : Nat) :
    ∀ digit ∈ reversedDigits room number, digit < 10 := by
  induction room generalizing number with
  | zero => exact forall_mem_nil _
  | succ room ih =>
    intro digit mem
    rcases mem_cons.mp mem with rfl | later
    · omega
    · split_ifs at later
      · exact ih _ digit later
      · exact absurd later not_mem_nil

theorem decimalDigits_eq {number minLen : Nat} : ∃ zeros, decimalDigits number minLen =
      List.replicate zeros 0 ++ (reversedDigits 39 number).reverse :=
  ⟨_, by rw [decimalDigits, reverse_append, reverse_replicate]⟩

theorem numeral_decimalDigits {number : Nat} {minLen : Nat} (fits : number < 10 ^ 39) :
    numeral (decimalDigits number minLen) = number := by
  obtain ⟨zeros, digits⟩ := decimalDigits_eq
  rw [digits, numeral_zeros_append, numeral_reversedDigits 39 number fits]

theorem decimalDigits_lt_ten (number minLen : Nat) :
    ∀ digit ∈ decimalDigits number minLen, digit < 10 := by
  obtain ⟨zeros, digits⟩ := decimalDigits_eq
  rw [digits]
  intro digit mem
  rcases mem_append.mp mem with zero | written
  · rw [eq_of_mem_replicate zero]
    decide
  · exact reversedDigits_lt_ten 39 number digit (mem_reverse.mp written)

theorem decimalDigits_ne_nil (number minLen : Nat) : decimalDigits number minLen ≠ [] := by
  obtain ⟨zeros, digits⟩ := decimalDigits_eq
  rw [digits]
  simp [reversedDigits]

theorem length_decimalDigits_two {number : Nat} (small : number < 100) :
    (decimalDigits number 2).length = 2 := by
  have one : reversedDigits 39 number =
      number % 10 :: if number / 10 > 0 then [number / 10 % 10] else [] := by
    rw [reversedDigits]
    split_ifs with more
    · rw [reversedDigits, if_neg (by omega)]
    · rfl
  rw [decimalDigits, one]
  split_ifs <;> simp

theorem length_decimalDigits_zero {number : Nat} (small : number < 10) :
    (decimalDigits number 0).length = 1 := by
  have one : reversedDigits 39 number = [number] := by
    rw [reversedDigits, if_neg (by omega), Nat.mod_eq_of_lt small]
  rw [decimalDigits, one]
  rfl

namespace Numeral

theorem digits_lt_ten (numeral : Numeral) : ∀ digit ∈ numeral.digits, digit < 10 := by
  unfold digits
  cases numeral.length with
  | none => exact decimalDigits_lt_ten _ _
  | some length => exact fun digit mem => decimalDigits_lt_ten _ _ digit (mem_of_mem_take mem)

variable (number : Int)

theorem digits_two_ne_nil : (two number).digits ≠ [] := by
  simp [digits, two, decimalDigits_ne_nil]

theorem digits_one_ne_nil : (one number).digits ≠ [] := by
  simp [digits, one, decimalDigits_ne_nil]

theorem numeral_two_lt : numeral (two number).digits < 100 := by
  refine (numeral_lt (digits_lt_ten (two number))).trans_le ?_
  have short : (two number).digits.length <= 2 := length_take_le ..
  exact Nat.pow_le_pow_right (by decide) short

theorem numeral_one_lt : numeral (one number).digits < 10 := by
  refine (numeral_lt (digits_lt_ten (one number))).trans_le ?_
  have short : (one number).digits.length <= 1 := length_take_le ..
  exact Nat.pow_le_pow_right (by decide) short

theorem numeral_two {number : Int} (nonneg : 0 <= number) (lt : number < 100) :
    (numeral (two number).digits : Int) = number := by
  have same : unsigned 32 number = number := unsigned_of_fits nonneg (by omega)
  have whole : (two number).digits = decimalDigits number.toNat 2 := by
    simp only [digits, two, same]
    exact take_of_length_le (length_decimalDigits_two (by omega)).le
  rw [whole, numeral_decimalDigits (by omega)]
  omega

theorem numeral_one {number : Int} (nonneg : 0 <= number) (lt : number < 10) :
    (numeral (one number).digits : Int) = number := by
  have same : unsigned 32 number = number := unsigned_of_fits nonneg (by omega)
  have whole : (one number).digits = decimalDigits number.toNat 0 := by
    simp only [digits, one, same]
    exact take_of_length_le (length_decimalDigits_zero (by omega)).le
  rw [whole, numeral_decimalDigits (by omega)]
  omega

theorem numeral_all (minLen : Nat) (nonneg : 0 <= number) (lt : number < 2 ^ 32) :
    (numeral (mk number minLen none).digits : Int) = number := by
  have same := unsigned_of_fits nonneg lt
  simp only [digits, same]
  rw [numeral_decimalDigits (by omega)]
  omega

end Numeral

/-! ## Reading them -/

section

variable {digit : Nat} (small : digit < 10)
include small

theorem toNat_digitByte : (digitByte digit).toNat = 48 + digit := by
  rw [digitByte, UInt8.toNat_ofNat']
  omega

theorem digitValue_digitByte : digitValue (digitByte digit) = some digit := by
  unfold digitValue
  rw [toNat_digitByte small, if_pos (by omega)]
  congr 1
  omega

theorem isspace_digitByte : Stdlib.isspace (digitByte digit) = false := by
  interval_cases digit <;> rfl

theorem digitByte_ne :
    digitByte digit ≠ 0 /\ digitByte digit ≠ byteOf '-' /\ digitByte digit ≠ byteOf '+' := by
  interval_cases digit <;> decide

end

theorem leadingDigits_append (small : ∀ digit ∈ digits, digit < 10) {rest : List UInt8} :
    leadingDigits 10 (digits.map digitByte ++ rest) = digits ++ leadingDigits 10 rest := by
  induction digits with
  | nil => rfl
  | cons digit digits ih =>
    have first := small digit (mem_cons_self ..)
    have later := ih fun other mem => small other (mem_cons_of_mem digit mem)
    rw [map_cons, cons_append, leadingDigits, digitValue_digitByte first]
    dsimp only
    rw [if_pos first, later, cons_append]

theorem strtol_digits {blanks rest : List UInt8} (blank : ∀ c ∈ blanks, Stdlib.isspace c)
    (some_digit : digits ≠ []) (small : ∀ digit ∈ digits, digit < 10)
    (fits : numeral digits < 2 ^ 31) (ends : leadingDigits 10 rest = []) {errno : Nat} :
    Stdlib.strtol (some (blanks ++ (digits.map digitByte ++ rest))) 10 errno =
      ⟨numeral digits, errno, rest⟩ := by
  obtain ⟨digit, digits, rfl⟩ := exists_cons_of_ne_nil some_digit
  have first := small digit (mem_cons_self ..)
  obtain ⟨_, noMinus, noPlus⟩ := digitByte_ne first
  have skipped : Stdlib.skipBlanks (blanks ++ ((digit :: digits).map digitByte ++ rest)) =
      (digit :: digits).map digitByte ++ rest := by
    rw [Stdlib.skipBlanks_eq_dropWhile, dropWhile_append_of_pos blank, map_cons,
      cons_append, dropWhile_cons_of_neg (by rw [isspace_digitByte first]; decide)]
  have unsigned : Stdlib.readSign ((digit :: digits).map digitByte ++ rest) =
      (false, (digit :: digits).map digitByte ++ rest) := by
    have head : Stdlib.current ((digit :: digits).map digitByte ++ rest) = digitByte digit := rfl
    rw [Stdlib.readSign, head, if_neg noMinus, if_neg noPlus]
  have decimal : Stdlib.readBase 10 ((digit :: digits).map digitByte ++ rest) =
      (10, (digit :: digits).map digitByte ++ rest) := by
    unfold Stdlib.readBase
    rfl
  have leading : leadingDigits 10 ((digit :: digits).map digitByte ++ rest) = digit :: digits := by
    rw [leadingDigits_append small, ends, append_nil]
  have wraps : Stdlib.Wraps Stdlib.Kind.long.wrap (2 ^ 31) := Stdlib.signed_wraps 31
  have steady := Stdlib.not_lowers_of_fits wraps (by decide : 0 < 10) (digit :: digits) 0 fits
  have loop := Stdlib.convertDigits_spec wraps (by decide : 10 <= 36)
    ((digit :: digits).map digitByte ++ rest) 0 0
  have exact : Stdlib.Kind.long.wrap (numeralFrom 10 0 (digit :: digits) : Int) =
      numeral (digit :: digits) := wraps.fits _ fits
  rw [leading, if_neg steady, exact] at loop
  have atStart := wraps.fits 0 (by decide)
  have behind : ((digit :: digits).map digitByte ++ rest).drop (digit :: digits).length = rest := by
    simp
  rw [behind] at loop
  unfold Stdlib.strtol Stdlib.convert
  simp only [skipped, unsigned, decimal]
  rw [if_neg (by decide)]
  exact congrArg _ loop

def strip (skipped : Bool) (buf : List UInt8) : List UInt8 :=
  if skipped then buf.dropWhile Stdlib.isspace else buf

theorem strip_of_not_isspace (skipped : Bool) {c : UInt8} (visible : Stdlib.isspace c = false)
    (buf : List UInt8) : strip skipped (c :: buf) = c :: buf := by
  cases skipped with
  | false => rfl
  | true => exact dropWhile_cons_of_neg (by rw [visible]; decide)

theorem readNumber_digits (store : Int -> DateTime -> DateTime) {blanks rest : List UInt8}
    (blank : ∀ c ∈ blanks, Stdlib.isspace c) (some_digit : digits ≠ [])
    (small : ∀ digit ∈ digits, digit < 10) (fits : numeral digits < 2 ^ 31)
    (ends : leadingDigits 10 rest = []) (skipped : Bool) (tm : DateTime) :
    readNumber store (strip skipped (blanks ++ (digits.map digitByte ++ rest))) tm =
      some (rest, store (numeral digits) tm) := by
  obtain ⟨before, blank', text⟩ : ∃ before : List UInt8,
      (∀ c ∈ before, Stdlib.isspace c) /\
        strip skipped (blanks ++ (digits.map digitByte ++ rest)) =
          before ++ (digits.map digitByte ++ rest) := by
    obtain ⟨digit, digits, rfl⟩ := exists_cons_of_ne_nil some_digit
    cases skipped with
    | false => exact ⟨blanks, blank, rfl⟩
    | true =>
      refine ⟨[], forall_mem_nil _, ?_⟩
      unfold strip
      rw [dropWhile_append_of_pos blank]
      apply dropWhile_cons_of_neg
      rw [isspace_digitByte (small digit (mem_cons_self ..))]
      decide
  have longer : rest ≠ before ++ (digits.map digitByte ++ rest) := by
    intro same
    have lengths := congrArg List.length same
    have pos := length_pos_of_ne_nil some_digit
    simp only [length_append, length_map] at lengths
    omega
  rw [readNumber, text, strtol_digits blank' some_digit small fits ends]
  rw [if_neg longer]

end Clib4.Time
