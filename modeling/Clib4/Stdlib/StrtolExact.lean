import Mathlib.Tactic.NormNum
import Clib4.Stdlib.Strtol

namespace Clib4.Stdlib

open Foundation

/-!
# When `strtol` and its siblings are exact

The subject sequence of a string is stated here as the language standard
describes it.  The digit loop takes a sum that became smaller for the sign of
an overflow; `Lowers` says when that happens.  It misses overflows that wrap
around to something larger.
-/

/-! ## The subject sequence -/

def digitValue (c : UInt8) : Option Nat :=
  if 48 <= c.toNat /\ c.toNat <= 57 then some (c.toNat - 48)
  else if 97 <= c.toNat /\ c.toNat <= 122 then some (c.toNat - 97 + 10)
  else if 65 <= c.toNat /\ c.toNat <= 90 then some (c.toNat - 65 + 10)
  else none

/-- The longest sequence of digits of a base at the beginning of a string. -/
def leadingDigits (base : Nat) : List UInt8 -> List Nat
  | [] => []
  | c :: str =>
    match digitValue c with
    | none => []
    | some value => if value < base then value :: leadingDigits base str else []

/-- The number that digits stand for, `value` being that of the digits before them. -/
def numeralFrom (base value : Nat) (digits : List Nat) : Nat :=
  digits.foldl (fun value digit => base * value + digit) value

/-- The sign, the base and the digits of a subject sequence. -/
structure Subject where
  negative : Bool
  base : Nat
  digits : List Nat

def Subject.value (subject : Subject) : Nat := numeralFrom subject.base 0 subject.digits

def impliedBase (base : Nat) (str : List UInt8) : Nat :=
  if base = 0 then if current str = byteOf '0' then 8 else 10 else base

/-- A prefix `0x` or `0X`, which is allowed when the base is open or 16. -/
def HasHexPrefix (base : Nat) (str : List UInt8) : Prop :=
  (base = 0 \/ base = 16) /\ current str = byteOf '0' /\
    (current str.tail = byteOf 'x' \/ current str.tail = byteOf 'X')

instance (base : Nat) (str : List UInt8) : Decidable (HasHexPrefix base str) :=
  inferInstanceAs (Decidable (_ /\ _))

/-- What follows the sign; the prefix counts only before a hexadecimal digit. -/
def Subject.ofUnsigned (negative : Bool) (base : Nat) (str : List UInt8) : Subject :=
  if HasHexPrefix base str /\ leadingDigits 16 str.tail.tail ≠ [] then
    ⟨negative, 16, leadingDigits 16 str.tail.tail⟩
  else ⟨negative, impliedBase base str, leadingDigits (impliedBase base str) str⟩

def Subject.of (base : Nat) (str : List UInt8) : Subject :=
  match str.dropWhile isspace with
  | [] => .ofUnsigned false base []
  | c :: rest =>
    if c = byteOf '-' then .ofUnsigned true base rest
    else if c = byteOf '+' then .ofUnsigned false base rest
    else .ofUnsigned false base (c :: rest)

/-! ## The digit loop -/

def Lowers (wrap : Int -> Int) (base : Nat) : Nat -> List Nat -> Prop
  | _, [] => False
  | value, digit :: digits =>
    wrap ((base * value + digit : Nat) : Int) < wrap (value : Int) \/
      Lowers wrap base (base * value + digit) digits

instance decidableLowers (wrap : Int -> Int) (base : Nat) :
    (value : Nat) -> (digits : List Nat) -> Decidable (Lowers wrap base value digits)
  | _, [] => isFalse id
  | value, digit :: digits =>
    haveI := decidableLowers wrap base (base * value + digit) digits
    inferInstanceAs (Decidable (_ \/ _))

/-- A way of wrapping that depends on the value modulo a word, and keeps the
values up to `bound`. -/
structure Wraps (wrap : Int -> Int) (bound : Nat) : Prop where
  step : ∀ base value digit : Int,
    wrap (base * wrap value + digit) = wrap (base * value + digit)
  fits : ∀ value : Nat, value < bound -> wrap (value : Int) = value

theorem signed_wraps (w : Nat) : Wraps (signed (w + 1)) (2 ^ w) where
  step base value digit :=
    signed_congr (((signed_modEq (w + 1) value).mul_left base).add_right digit)
  fits value bound := by
    apply signed_of_fits
    · have : (0 : Int) < 2 ^ w := pow_pos two_pos w
      omega
    · exact_mod_cast bound

theorem unsigned_wraps (w : Nat) : Wraps (unsigned w) (2 ^ w) where
  step base value digit :=
    unsigned_congr (((unsigned_modEq w value).mul_left base).add_right digit)
  fits value bound := unsigned_of_fits (Int.natCast_nonneg value) (by exact_mod_cast bound)

section Digits

variable {wrap : Int -> Int} {bound : Nat} {base : Nat}

theorem le_numeralFrom (pos : 0 < base) (digits : List Nat) (value : Nat) :
    value <= numeralFrom base value digits := by
  induction digits generalizing value with
  | nil => exact le_refl value
  | cons digit digits ih =>
    calc
      value <= base * value := Nat.le_mul_of_pos_left value pos
      _ <= base * value + digit := Nat.le_add_right _ _
      _ <= numeralFrom base (base * value + digit) digits := ih _

theorem not_lowers_of_fits (wraps : Wraps wrap bound) (pos : 0 < base) (digits : List Nat)
    (value : Nat) (fits : numeralFrom base value digits < bound) :
    ¬ Lowers wrap base value digits := by
  induction digits generalizing value with
  | nil => exact id
  | cons digit digits ih =>
    have next : base * value + digit <= numeralFrom base (base * value + digit) digits :=
      le_numeralFrom pos digits _
    have total : numeralFrom base (base * value + digit) digits < bound := fits
    have grows := Nat.le_mul_of_pos_left value pos
    rintro (lower | later)
    · rw [wraps.fits _ (by omega), wraps.fits _ (by omega)] at lower
      omega
    · exact ih _ fits later

theorem wrap_le_of_not_lowers (digits : List Nat) (value : Nat)
    (steady : ¬ Lowers wrap base value digits) :
    wrap (value : Int) <= wrap (numeralFrom base value digits : Int) := by
  induction digits generalizing value with
  | nil => exact le_refl _
  | cons digit digits ih =>
    have here := not_lt.mp fun lower => steady (Or.inl lower)
    exact le_trans here (ih _ fun later => steady (Or.inr later))

/-- The character tests of the loop take more letters than there are, for digits of no base. -/
theorem digit_eq {c : UInt8} : digit c = (digitValue c).map Nat.cast \/
      (digitValue c = none /\ ∃ value, digit c = some value /\ 36 <= value) := by
  have zero : (byteOf '0' <= c /\ c <= byteOf '9') ↔ (48 <= c.toNat /\ c.toNat <= 57) := by
    rfl
  have lower : byteOf 'a' <= c ↔ 97 <= c.toNat := UInt8.le_iff_toNat_le
  have upper : byteOf 'A' <= c ↔ 65 <= c.toNat := UInt8.le_iff_toNat_le
  unfold digitValue digit
  simp only [zero, lower, upper]
  split_ifs
  all_goals
    first
    | omega
    | exact Or.inl (congrArg some (by omega))
    | exact Or.inr ⟨rfl, _, rfl, by omega⟩
    | exact Or.inl rfl

/-- The character tests of the loop and those of the subject sequence agree in
bases up to 36. -/
theorem digit_cases {c : UInt8} (small : base <= 36) :
    (∃ value : Nat, value < base /\ c ≠ 0 /\ digitValue c = some value /\
      digit c = some (value : Int)) \/
    ((digitValue c = none \/ ∃ value, digitValue c = some value /\ base <= value) /\
      (digit c = none \/ ∃ value, digit c = some value /\ (base : Int) <= value)) := by
  rcases digit_eq with same | ⟨none, value, known, large⟩
  · cases found : digitValue c with
    | none =>
      rw [found] at same
      exact Or.inr ⟨Or.inl rfl, Or.inl same⟩
    | some value =>
      rw [found] at same
      by_cases fits : value < base
      · refine Or.inl ⟨value, fits, ?_, rfl, same⟩
        rintro rfl
        cases found
      · exact Or.inr ⟨Or.inr ⟨value, rfl, by omega⟩, Or.inr ⟨value, same, by omega⟩⟩
  · exact Or.inr ⟨Or.inl none, Or.inr ⟨value, known, by omega⟩⟩

/-- The digit loop computes the wrapped value unless some digit lowers it. -/
theorem convertDigits_spec {kind : Kind} (wraps : Wraps kind.wrap bound) (small : base <= 36)
    (str : List UInt8) (value converted : Nat) :
    convertDigits kind base str (kind.wrap value) converted =
      if Lowers kind.wrap base value (leadingDigits base str) then none
      else some (kind.wrap (numeralFrom base value (leadingDigits base str)),
        converted + (leadingDigits base str).length,
        str.drop (leadingDigits base str).length) := by
  induction str generalizing value converted with
  | nil => rfl
  | cons c str ih =>
    rw [convertDigits]
    rcases digit_cases small with
      ⟨number, fits, notNull, standard, read⟩ | ⟨standard, read⟩
    · have digits : leadingDigits base (c :: str) = number :: leadingDigits base str := by
        rw [leadingDigits, standard]
        exact if_pos fits
      rw [digits, read, if_neg notNull]
      dsimp only
      rw [if_neg (by omega), wraps.step]
      have next : (base : Int) * value + number = ((base * value + number : Nat) : Int) := by
        push_cast
        rfl
      rw [next]
      by_cases lower : kind.wrap ((base * value + number : Nat) : Int) < kind.wrap value
      · have lowers : Lowers kind.wrap base value (number :: leadingDigits base str) :=
          Or.inl lower
        rw [if_pos lower, if_pos lowers]
      · have rest : Lowers kind.wrap base value (number :: leadingDigits base str) ↔
            Lowers kind.wrap base (base * value + number) (leadingDigits base str) :=
          or_iff_right lower
        rw [if_neg lower, ih, if_congr rest rfl rfl, List.length_cons]
        congr 4
        omega
    · have stops : leadingDigits base (c :: str) = [] := by
        rw [leadingDigits]
        rcases standard with unknown | ⟨number, known, large⟩
        · rw [unknown]
        · rw [known]
          exact if_neg (by omega)
      rw [stops]
      have unchanged : (if Lowers kind.wrap base value [] then none
          else some (kind.wrap (numeralFrom base value []), converted + 0, (c :: str).drop 0)) =
            some (kind.wrap value, converted, c :: str) := if_neg id
      rw [List.length_nil, unchanged]
      by_cases null : c = 0
      · rw [if_pos null]
      · rw [if_neg null]
        rcases read with unknown | ⟨number, known, large⟩
        · rw [unknown]
        · rw [known]
          exact if_pos large

end Digits

/-! ## A whole call -/

section Calls

variable {kind : Kind} {bound : Nat}

/-- What a call returns for a subject sequence, and the `errno` it leaves. -/
def outcome (kind : Kind) (subject : Subject) (errno : Nat) : Int × Nat :=
  if Lowers kind.wrap subject.base 0 subject.digits then (kind.overflow subject.negative, erange)
  else if subject.negative then (kind.wrap (-kind.wrap subject.value), errno)
  else (kind.wrap subject.value, errno)

theorem outcome_of_zero (wraps : Wraps kind.wrap bound) (pos : 0 < bound) {negative : Bool}
    {base : Nat} {errno : Nat} {digits : List Nat} (zero : digits = [] \/ digits = [0]) :
    outcome kind ⟨negative, base, digits⟩ errno = (0, errno) := by
  have fixed : kind.wrap 0 = 0 := wraps.fits 0 pos
  have steady : ¬ Lowers kind.wrap base 0 digits := by
    rcases zero with rfl | rfl
    · exact id
    · rintro (lower | later)
      · simp at lower
      · exact later
  have value : numeralFrom base 0 digits = 0 := by
    rcases zero with rfl | rfl <;> rfl
  unfold outcome Subject.value
  rw [if_neg steady, value]
  cases negative <;> simp [fixed]

variable {base : Nat}

theorem finish_convertDigits (wraps : Wraps kind.wrap bound) (pos : 0 < bound)
    (small : base <= 36) (str digits : List UInt8) (negative : Bool) (errno : Nat) :
    let result := finish kind str negative errno (convertDigits kind base digits 0 0)
    (result.result, result.errno) =
      outcome kind ⟨negative, base, leadingDigits base digits⟩ errno := by
  have fixed : kind.wrap ((0 : Nat) : Int) = 0 := wraps.fits 0 pos
  have loop := convertDigits_spec wraps small digits 0 0
  rw [fixed] at loop
  rw [loop]
  by_cases lowers : Lowers kind.wrap base 0 (leadingDigits base digits)
  · unfold outcome
    rw [if_pos lowers, if_pos lowers]
    rfl
  · rw [if_neg lowers, finish]
    by_cases empty : leadingDigits base digits = []
    · rw [outcome_of_zero wraps pos (Or.inl empty), if_pos (by simp [empty])]
    · unfold outcome
      rw [if_neg lowers, if_neg (by simpa using empty)]
      cases negative <;> rfl

variable {str : List UInt8}

theorem readBase_hexadecimal (hex : HasHexPrefix base str) :
    readBase base str = (((16 : Nat) : Int), str.tail.tail) := by
  have isHexadecimal : ((base : Int) = 0 \/ (base : Int) = 16) /\ current str = byteOf '0' /\
      (current str.tail = byteOf 'x' \/ current str.tail = byteOf 'X') :=
    ⟨by have := hex.1; omega, hex.2⟩
  unfold readBase
  dsimp only
  rw [if_pos isHexadecimal]
  rfl

theorem readBase_plain (plain : ¬ HasHexPrefix base str) :
    readBase base str = ((impliedBase base str : Int), str) := by
  have notHexadecimal : ¬ (((base : Int) = 0 \/ (base : Int) = 16) /\ current str = byteOf '0' /\
      (current str.tail = byteOf 'x' \/ current str.tail = byteOf 'X')) :=
    fun all => plain ⟨by have := all.1; omega, all.2⟩
  unfold readBase impliedBase
  dsimp only
  rw [if_neg notHexadecimal]
  by_cases unknown : base = 0
  · rw [if_pos (by omega)]
    split_ifs <;> rfl
  · rw [if_neg unknown, if_neg (by omega)]

theorem HasHexPrefix.split (hex : HasHexPrefix base str) :
    ∃ x rest, (x = byteOf 'x' \/ x = byteOf 'X') /\ str = byteOf '0' :: x :: rest := by
  rcases hex with ⟨_, zero, isX⟩
  match str, zero, isX with
  | [], zero, _ => exact absurd zero (by decide)
  | [_], _, isX =>
    have ended : (0 : UInt8) = byteOf 'x' \/ (0 : UInt8) = byteOf 'X' := isX
    exact absurd ended (by decide)
  | first :: second :: rest, zero, isX =>
    exact ⟨second, rest, isX, congrArg (· :: second :: rest) zero⟩

theorem digitValue_of_x {x : UInt8} (isX : x = byteOf 'x' \/ x = byteOf 'X') :
    digitValue x = some 33 := by
  rcases isX with rfl | rfl <;> decide

/-- Without a hexadecimal digit behind it the prefix leaves the digit zero. -/
theorem leadingDigits_hexadecimal
    (hex : HasHexPrefix base str) : leadingDigits (impliedBase base str) str = [0] := by
  have small : 0 < impliedBase base str /\ impliedBase base str <= 16 := by
    have bases := hex.1
    unfold impliedBase
    split_ifs <;> omega
  generalize impliedBase base str = number at small
  rcases hex.split with ⟨x, rest, isX, rfl⟩
  have none : leadingDigits number (x :: rest) = [] := by
    rw [leadingDigits, digitValue_of_x isX]
    exact if_neg (by omega)
  have zeroValue : digitValue (byteOf '0') = some 0 := by decide
  rw [leadingDigits, none]
  exact if_pos small.1

theorem impliedBase_bounds (small : base <= 36) :
    1 <= impliedBase base str /\ impliedBase base str <= 36 := by
  unfold impliedBase
  split_ifs <;> omega

/-- Reading what follows the sign.  A prefix `0x` without a hexadecimal digit
behind it is no number for the code and a zero for the standard. -/
theorem finish_readBase (wraps : Wraps kind.wrap bound) (pos : 0 < bound)
    (valid : base = 0 \/ 2 <= base /\ base <= 36) (str digits : List UInt8) (negative : Bool)
    (errno : Nat) :
    let found := readBase base digits
    let result := finish kind str negative errno
      (if 1 <= found.1 /\ found.1 <= 36 then convertDigits kind found.1 found.2 0 0
      else some (0, 0, found.2))
    (result.result, result.errno) =
      outcome kind (Subject.ofUnsigned negative base digits) errno := by
  unfold Subject.ofUnsigned
  by_cases hex : HasHexPrefix base digits
  · rw [readBase_hexadecimal hex]
    dsimp only
    refine (finish_convertDigits wraps pos (by omega) str _ negative errno).trans ?_
    by_cases empty : leadingDigits 16 digits.tail.tail = []
    · rw [outcome_of_zero wraps pos (Or.inl empty),
        if_neg (fun both => both.2 empty), leadingDigits_hexadecimal hex,
        outcome_of_zero wraps pos (Or.inr rfl)]
    · rw [if_pos ⟨hex, empty⟩]
  · have bounds := @impliedBase_bounds base digits (by omega)
    rw [readBase_plain hex, if_neg (fun both => hex both.1)]
    dsimp only
    rw [if_pos (by omega)]
    exact finish_convertDigits wraps pos bounds.2 str digits negative errno

theorem skipBlanks_eq_dropWhile (str : List UInt8) : skipBlanks str = str.dropWhile isspace := by
  induction str with
  | nil => rfl
  | cons c str ih =>
    rw [skipBlanks, List.dropWhile_cons]
    by_cases blank : isspace c
    · have notNull : c ≠ 0 := by
        rintro rfl
        exact absurd blank (by decide)
      rw [if_pos ⟨notNull, blank⟩, if_pos blank, ih]
    · rw [if_neg (fun both => blank both.2), if_neg blank]

theorem convert_eq_outcome (wraps : Wraps kind.wrap bound) (pos : 0 < bound)
    (valid : base = 0 \/ 2 <= base /\ base <= 36) (str : List UInt8) (errno : Nat) :
    ((convert kind (some str) base errno).result, (convert kind (some str) base errno).errno) =
      outcome kind (Subject.of base str) errno := by
  have number := fun digits negative =>
    finish_readBase wraps pos valid str digits negative errno
  unfold convert Subject.of readSign
  dsimp only
  rw [skipBlanks_eq_dropWhile]
  cases str.dropWhile isspace with
  | nil => exact number [] false
  | cons c rest =>
    have head : current (c :: rest) = c := rfl
    rw [head]
    dsimp only
    by_cases minus : c = byteOf '-'
    · rw [if_pos minus, if_pos minus]
      exact number rest true
    · rw [if_neg minus, if_neg minus]
      by_cases plus : c = byteOf '+'
      · rw [if_pos plus, if_pos plus]
        exact number rest false
      · rw [if_neg plus, if_neg plus]
        exact number (c :: rest) false

end Calls

/-! ## Exactness -/

def Subject.exact (subject : Subject) : Int :=
  if subject.negative then -(subject.value : Int) else subject.value

/-- The contract of a signed version whose type runs from `-limit` to `limit - 1`. -/
def MeetsSigned (limit : Int) (subject : Subject) (call : Nat -> Conversion) : Prop :=
  ∀ errno, (-limit <= subject.exact /\ subject.exact < limit ->
      (call errno).result = subject.exact /\ (call errno).errno = errno) /\
    (¬ (-limit <= subject.exact /\ subject.exact < limit) ->
      (call errno).result = (if subject.negative then -limit else limit - 1) /\
        (call errno).errno = erange)

/-- The contract of an unsigned version whose type runs up to `limit - 1`. -/
def MeetsUnsigned (limit : Int) (subject : Subject) (call : Nat -> Conversion) : Prop :=
  ∀ errno, ((subject.value : Int) < limit ->
      (call errno).result = subject.exact % limit /\ (call errno).errno = errno) /\
    (limit <= (subject.value : Int) ->
      (call errno).result = limit - 1 /\ (call errno).errno = erange)

/-- A number beyond what a signed type holds; its minimum is within. -/
def Subject.Exceeds (subject : Subject) (limit : Nat) : Prop :=
  if subject.negative then limit < subject.value else limit <= subject.value

def Subject.Detected (subject : Subject) (wrap : Int -> Int) : Prop :=
  Lowers wrap subject.base 0 subject.digits

theorem Subject.base_pos (base : Nat) (str : List UInt8) : 0 < (Subject.of base str).base := by
  have unsignedPos (negative : Bool) (digits : List UInt8) :
      0 < (Subject.ofUnsigned negative base digits).base := by
    unfold Subject.ofUnsigned impliedBase
    split_ifs <;> dsimp only <;> omega
  unfold Subject.of
  split
  · exact unsignedPos _ _
  · split_ifs <;> exact unsignedPos _ _

section Exactness

variable {kind : Kind} {subject : Subject} {call : Nat -> Conversion}
  (calls : ∀ errno, ((call errno).result, (call errno).errno) = outcome kind subject errno)

include calls

theorem call_of_detected (detected : subject.Detected kind.wrap)
    (errno : Nat) :
    (call errno).result = kind.overflow subject.negative /\ (call errno).errno = erange := by
  have lowers : Lowers kind.wrap subject.base 0 subject.digits := detected
  have pair := calls errno
  unfold outcome at pair
  rw [if_pos lowers] at pair
  exact Prod.mk.inj pair

theorem call_of_not_detected (steady : ¬ subject.Detected kind.wrap)
    (errno : Nat) :
    (call errno).result = (if subject.negative then kind.wrap (-kind.wrap subject.value)
        else kind.wrap subject.value) /\ (call errno).errno = errno := by
  have keeps : ¬ Lowers kind.wrap subject.base 0 subject.digits := steady
  have pair := calls errno
  unfold outcome at pair
  rw [if_neg keeps] at pair
  cases sign : subject.negative <;> rw [sign] at pair <;> exact Prod.mk.inj pair

theorem meetsSigned_of_fits {w : Nat} (wrapEq : kind.wrap = signed (w + 1))
    (pos : 0 < subject.base) (fits : subject.value < 2 ^ w) :
    MeetsSigned (2 ^ w) subject call := by
  have wraps := wrapEq ▸ signed_wraps w
  have steady := not_lowers_of_fits wraps pos _ 0 fits
  have less : (subject.value : Int) < 2 ^ w := by exact_mod_cast fits
  have minus : kind.wrap (-(subject.value : Int)) = -(subject.value : Int) := by
    rw [wrapEq]
    exact signed_of_fits (by omega) (by omega)
  intro errno
  rcases call_of_not_detected calls steady errno with ⟨result, unchanged⟩
  rw [wraps.fits _ fits, minus] at result
  constructor
  · intro _
    exact ⟨result, unchanged⟩
  · intro outside
    unfold Subject.exact at outside
    split_ifs at outside <;> omega

omit calls in
theorem signed_limit (w : Nat) : signed (w + 1) (2 ^ w) = -2 ^ w := by
  have congruent : (2 : Int) ^ w ≡ -2 ^ w [ZMOD 2 ^ (w + 1)] := by
    rw [Int.modEq_iff_dvd]
    exact ⟨-1, by ring⟩
  rw [signed_congr congruent]
  exact signed_of_fits (le_refl _) (by have : (0 : Int) < 2 ^ w := pow_pos two_pos w; omega)

/-- Beyond the values without overflow the contract is met only where the
overflow is detected, and not for the minimum of the type. -/
theorem exceeds_of_meetsSigned {w : Nat} (wrapEq : kind.wrap = signed (w + 1))
    (large : 2 ^ w <= subject.value) (meets : MeetsSigned (2 ^ w) subject call) :
    subject.Exceeds (2 ^ w) /\ subject.Detected kind.wrap := by
  have wraps := wrapEq ▸ signed_wraps w
  have limitPos : (0 : Int) < 2 ^ w := pow_pos two_pos w
  have atLeast : (2 : Int) ^ w <= subject.value := by exact_mod_cast large
  by_cases inside : -2 ^ w <= subject.exact /\ subject.exact < 2 ^ w
  · -- only the minimum of the type is left, and it is taken for an overflow
    exfalso
    have minimum : (subject.value : Int) = 2 ^ w := by
      unfold Subject.exact at inside
      split_ifs at inside <;> omega
    have unchanged := ((meets 0).1 inside).2
    by_cases detected : subject.Detected kind.wrap
    · rw [(call_of_detected calls detected 0).2] at unchanged
      exact absurd unchanged (by decide)
    · have steady := wrap_le_of_not_lowers _ _ detected
      have value : kind.wrap (numeralFrom subject.base 0 subject.digits : Int) = -2 ^ w := by
        rw [wrapEq, <- signed_limit w, <- minimum]
        rfl
      rw [wraps.fits 0 (pow_pos two_pos w)] at steady
      push_cast at steady
      omega
  · constructor
    · unfold Subject.Exceeds
      unfold Subject.exact at inside
      split_ifs at inside ⊢ with sign
      · have : ((2 ^ w : Nat) : Int) < subject.value := by
          push_cast
          omega
        exact_mod_cast this
      · exact large
    · by_contra steady
      have range := ((meets 0).2 inside).2
      rw [(call_of_not_detected calls steady 0).2] at range
      exact absurd range (by decide)

omit calls in
theorem exact_outside_of_exceeds {w : Nat} (exceeds : subject.Exceeds (2 ^ w)) :
    ¬ (-2 ^ w <= subject.exact /\ subject.exact < 2 ^ w) := by
  unfold Subject.Exceeds at exceeds
  unfold Subject.exact
  split_ifs at exceeds ⊢
  · have : ((2 ^ w : Nat) : Int) < subject.value := by exact_mod_cast exceeds
    push_cast at this
    omega
  · have : ((2 ^ w : Nat) : Int) <= subject.value := by exact_mod_cast exceeds
    push_cast at this
    omega

theorem meetsUnsigned_of_fits {w : Nat} (wrapEq : kind.wrap = unsigned w)
    (pos : 0 < subject.base) (fits : subject.value < 2 ^ w) :
    MeetsUnsigned (2 ^ w) subject call := by
  have wraps := wrapEq ▸ unsigned_wraps w
  have steady := not_lowers_of_fits wraps pos _ 0 fits
  have less : (subject.value : Int) < 2 ^ w := by exact_mod_cast fits
  intro errno
  rcases call_of_not_detected calls steady errno with ⟨result, unchanged⟩
  rw [wraps.fits _ fits] at result
  constructor
  · intro _
    refine ⟨result.trans ?_, unchanged⟩
    unfold Subject.exact
    split_ifs
    · rw [wrapEq, unsigned_eq_emod]
    · rw [Int.emod_eq_of_lt (Int.natCast_nonneg _) less]
  · intro outside
    omega

/-- The contract of a signed version is met exactly where there is no overflow, or
one that is detected and answered with the limit of the type. -/
theorem meetsSigned_iff {w : Nat} (wrapEq : kind.wrap = signed (w + 1))
    (pos : 0 < subject.base) :
    MeetsSigned (2 ^ w) subject call <-> subject.value < 2 ^ w \/
      subject.Exceeds (2 ^ w) /\ subject.Detected kind.wrap /\
        kind.overflow subject.negative = if subject.negative then -2 ^ w else 2 ^ w - 1 := by
  constructor
  · intro meets
    by_cases fits : subject.value < 2 ^ w
    · exact Or.inl fits
    · rcases exceeds_of_meetsSigned calls wrapEq (not_lt.mp fits) meets with ⟨exceeds, detected⟩
      refine Or.inr ⟨exceeds, detected, ?_⟩
      rw [<- (call_of_detected calls detected 0).1]
      exact ((meets 0).2 (exact_outside_of_exceeds exceeds)).1
  · rintro (fits | ⟨exceeds, detected, limit⟩)
    · exact meetsSigned_of_fits calls wrapEq pos fits
    · intro errno
      rw [<- limit]
      exact ⟨fun inside => absurd inside (exact_outside_of_exceeds exceeds),
        fun _ => call_of_detected calls detected errno⟩

theorem meetsUnsigned_iff {w : Nat} (wrapEq : kind.wrap = unsigned w)
    (pos : 0 < subject.base) :
    MeetsUnsigned (2 ^ w) subject call <-> subject.value < 2 ^ w \/
      subject.Detected kind.wrap /\ kind.overflow subject.negative = 2 ^ w - 1 := by
  have cast : (subject.value : Int) < 2 ^ w <-> subject.value < 2 ^ w := by norm_cast
  constructor
  · intro meets
    by_cases fits : subject.value < 2 ^ w
    · exact Or.inl fits
    · rcases (meets 0).2 (not_lt.mp (mt cast.mp fits)) with ⟨result, range⟩
      have detected : subject.Detected kind.wrap := by
        by_contra steady
        rw [(call_of_not_detected calls steady 0).2] at range
        exact absurd range (by decide)
      exact Or.inr ⟨detected, (call_of_detected calls detected 0).1.symm.trans result⟩
  · rintro (fits | ⟨detected, limit⟩)
    · exact meetsUnsigned_of_fits calls wrapEq pos fits
    · intro errno
      rw [<- limit]
      refine ⟨fun inside => absurd detected ?_, fun _ => call_of_detected calls detected errno⟩
      exact not_lowers_of_fits (wrapEq ▸ unsigned_wraps w) pos _ 0 (cast.mp inside)

end Exactness

/-- For every string and every base, each function meets its contract exactly
as follows.  `strtol` and `strtoul`: there is no overflow, or there is one and
some digit lowers the wrapped sum; the minimum of `long` counts as an overflow
that does not exist.  `strtoll` and `strtoull`: there is no overflow. -/
theorem strto_exact_iff (str : List UInt8) (base : Nat)
    (valid : base = 0 \/ 2 <= base /\ base <= 36) :
    (MeetsSigned (2 ^ 31) (Subject.of base str) (strtol (some str) base) ↔
      (Subject.of base str).value < 2 ^ 31 \/
        (Subject.of base str).Exceeds (2 ^ 31) /\ (Subject.of base str).Detected (signed 32)) /\
    (MeetsUnsigned (2 ^ 32) (Subject.of base str) (strtoul (some str) base) ↔
      (Subject.of base str).value < 2 ^ 32 \/ (Subject.of base str).Detected (unsigned 32)) /\
    (MeetsSigned (2 ^ 63) (Subject.of base str) (strtoll (some str) base) ↔
      (Subject.of base str).value < 2 ^ 63) /\
    (MeetsUnsigned (2 ^ 64) (Subject.of base str) (strtoull (some str) base) ↔
      (Subject.of base str).value < 2 ^ 64) := by
  have pos := Subject.base_pos base str
  have calls (kind : Kind) {bound : Nat} (wraps : Wraps kind.wrap bound) (room : 0 < bound) :=
    convert_eq_outcome wraps room valid str
  have long := meetsSigned_iff (calls .long (signed_wraps 31) (by decide)) rfl pos
  have unsignedLong :=
    meetsUnsigned_iff (calls .unsignedLong (unsigned_wraps 32) (by decide)) rfl pos
  have longLong := meetsSigned_iff (calls .longLong (signed_wraps 63) (by decide)) rfl pos
  have unsignedLongLong :=
    meetsUnsigned_iff (calls .unsignedLongLong (unsigned_wraps 64) (by decide)) rfl pos
  refine ⟨long.trans ?_, unsignedLong.trans ?_, longLong.trans ?_, unsignedLongLong.trans ?_⟩
  · refine or_congr_right (and_congr_right fun _ => and_iff_left ?_)
    cases (Subject.of base str).negative <;> decide
  · exact or_congr_right (and_iff_left rfl)
  · refine or_iff_left fun beyond => absurd beyond.2.2 ?_
    cases (Subject.of base str).negative <;> decide
  · refine or_iff_left fun beyond => absurd beyond.2 ?_
    cases (Subject.of base str).negative <;> decide

def bytesOf (text : String) : List UInt8 := text.toList.map byteOf

theorem strto_exact_hexadecimal : (0 = 0 \/ 2 <= 0 /\ 0 <= 36) /\
      MeetsSigned (2 ^ 31) (Subject.of 0 (bytesOf " -0x7fffffff"))
        (strtol (some (bytesOf " -0x7fffffff")) 0) /\
      MeetsUnsigned (2 ^ 64) (Subject.of 0 (bytesOf " -0x7fffffff"))
        (strtoull (some (bytesOf " -0x7fffffff")) 0) := by
  have all := strto_exact_iff (bytesOf " -0x7fffffff") 0 (Or.inl rfl)
  exact ⟨Or.inl rfl, all.1.mpr (Or.inl (by decide +kernel)), all.2.2.2.mpr (by decide +kernel)⟩

/-- Ten and twenty nines: the sum wraps to something larger, or the overflow is
answered with the limits of `long`. -/
theorem strto_misses_nines : ¬ MeetsSigned (2 ^ 31) (Subject.of 10 (bytesOf "9999999999"))
      (strtol (some (bytesOf "9999999999")) 10) /\
    ¬ MeetsUnsigned (2 ^ 32) (Subject.of 10 (bytesOf "9999999999"))
      (strtoul (some (bytesOf "9999999999")) 10) /\
    ¬ MeetsSigned (2 ^ 63) (Subject.of 10 (bytesOf "99999999999999999999"))
      (strtoll (some (bytesOf "99999999999999999999")) 10) /\
    ¬ MeetsUnsigned (2 ^ 64) (Subject.of 10 (bytesOf "99999999999999999999"))
      (strtoull (some (bytesOf "99999999999999999999")) 10) := by
  refine ⟨fun meets => ?_, fun meets => ?_, fun meets => ?_, fun meets => ?_⟩
  · exact absurd ((meets 0).2 (by decide +kernel)).2 (by decide +kernel)
  · exact absurd ((meets 0).2 (by decide +kernel)).2 (by decide +kernel)
  all_goals exact absurd ((meets 0).2 (by decide +kernel)).1 (by decide +kernel)

end Clib4.Stdlib
