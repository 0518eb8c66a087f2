import Clib4.Stdlib.StrtolEnd

namespace Clib4.Stdlib

open Foundation List

/-!
# Prefixes of numbers

A scanner that cannot go back takes the longest text that is the beginning of
some number, which need not be a number itself: a sign, or `0x` without a digit.
The number such a text is converted to is that of the whole input.
-/

def NumberPrefix (base : Int) : List UInt8 -> Prop :=
  PrefixOf (Optionally isSign (UnsignedForm base))

/-- The length of the longest beginning of a number without a sign. -/
def prefixLength (base : Nat) (str : List UInt8) : Nat :=
  if HasHexPrefix base str then 2 + (leadingDigits 16 str.tail.tail).length
  else (leadingDigits (impliedBase base str) str).length

def signLength (str : List UInt8) : Nat := if isSign (current str) then 1 else 0

def numberLength (base : Nat) (str : List UInt8) : Nat :=
  signLength str + prefixLength base (readSign str).2

section Unsigned

variable {base : Nat} {str : List UInt8}

/-! ## Without a sign -/

theorem isDigit_zero (pos : 0 < base) : isDigit base (byteOf '0') := by
  have value : digitValue (byteOf '0') = some 0 := by decide
  unfold isDigit
  exact decide_eq_true pos

theorem impliedBase_pos (base : Nat) (str : List UInt8) : 0 < impliedBase base str := by
  unfold impliedBase
  split_ifs <;> omega

variable {text : List UInt8} {count : Nat}

theorem numeral_append_zero (pos : 0 < base) (all : ∀ c ∈ text, isDigit base c) :
    Numeral base (text ++ [byteOf '0']) := by
  refine ⟨append_ne_nil_of_right_ne_nil _ (cons_ne_nil _ _), fun c inside => ?_⟩
  rcases mem_append.mp inside with digit | last
  · exact all c digit
  · rw [mem_singleton.mp last]
    exact isDigit_zero pos

theorem unsignedForm_cases (bases : base = 0 \/ base = 16) (mem : UnsignedForm base text) :
    HexNumeral text \/ ∃ other, other <= 16 /\ Numeral other text := by
  unfold UnsignedForm at mem
  rcases bases with rfl | rfl
  · rcases mem with hex | octal | decimal
    · exact Or.inl hex
    · exact Or.inr ⟨8, by omega, octal.1⟩
    · exact Or.inr ⟨10, by omega, decimal.1⟩
  · rcases mem with hex | digits
    · exact Or.inl hex
    · exact Or.inr ⟨16, Nat.le_refl _, digits⟩

theorem matching_hexPrefix (hex : HasHexPrefix base str) :
    Matching (PrefixOf (UnsignedForm base)) str
      (some (str.tail.tail.dropWhile (isDigit 16))) := by
  have bases := hex.1
  rcases hex.split with ⟨x, rest, isX, rfl⟩
  have digits : ∀ c ∈ rest.takeWhile (isDigit 16), isDigit 16 c :=
    fun c inside => mem_takeWhile_imp inside
  refine ⟨byteOf '0' :: x :: rest.takeWhile (isDigit 16), ?_, ⟨[byteOf '0'], ?_⟩, ?_⟩
  · exact congrArg (byteOf '0' :: x :: ·) takeWhile_append_dropWhile
  · rcases bases with rfl | rfl
    all_goals exact Or.inl ⟨x, _, isX, rfl, numeral_append_zero (by decide) digits⟩
  · rintro other behind whole ⟨more, mem⟩
    have short : (rest.dropWhile (isDigit 16)).length <= rest.length :=
      (dropWhile_suffix _).length_le
    show (rest.dropWhile (isDigit 16)).length <= behind.length
    have total := congrArg List.length whole
    rw [length_append, length_cons, length_cons] at total
    by_cases few : other.length <= 2
    · omega
    · obtain ⟨first, second, others, rfl⟩ :
          ∃ first second others, other = first :: second :: others := by
        cases other with
        | nil => exact absurd (Nat.zero_le _) few
        | cons first others =>
          cases others with
          | nil => exact absurd (by decide : 1 <= 2) few
          | cons second others => exact ⟨first, second, others, rfl⟩
      cases whole
      rcases unsignedForm_cases bases mem with ⟨y, all, _, same, numeral⟩ | ⟨b, small, numeral⟩
      · cases same
        exact dropWhile_length_le rfl fun c inside =>
          numeral.2 c (mem_append_left _ inside)
      · have digit := numeral.2 x (by simp)
        rw [isDigit_eq_false_of_x isX (by omega)] at digit
        cases digit

theorem unsignedForm_one : UnsignedForm 0 [byteOf '1'] :=
  Or.inr (Or.inr ⟨⟨cons_ne_nil _ _, forall_mem_singleton.mpr (by decide)⟩, by decide⟩)

theorem completes_digits (small : base <= 36) (str : List UInt8) :
    PrefixOf (UnsignedForm base) (str.takeWhile (isDigit (impliedBase base str))) := by
  have digits : ∀ c ∈ str.takeWhile (isDigit (impliedBase base str)),
      isDigit (impliedBase base str) c := fun c inside => mem_takeWhile_imp inside
  have completed := numeral_append_zero (impliedBase_pos base str) digits
  by_cases zero : base = 0
  · subst zero
    cases str with
    | nil => exact ⟨[byteOf '1'], unsignedForm_one⟩
    | cons c rest =>
      by_cases octal : c = byteOf '0'
      · have implied : impliedBase 0 (c :: rest) = 8 := if_pos octal
        rw [implied] at completed ⊢
        have begins : (c :: rest).takeWhile (isDigit 8) = c :: rest.takeWhile (isDigit 8) := by
          rw [octal, takeWhile_cons_of_pos (isDigit_zero (by decide))]
        refine ⟨[byteOf '0'], Or.inr (Or.inl ⟨completed, ?_⟩)⟩
        rw [begins]
        exact octal
      · have implied : impliedBase 0 (c :: rest) = 10 := if_neg octal
        rw [implied] at completed ⊢
        by_cases digit : isDigit 10 c
        · rw [takeWhile_cons_of_pos digit] at completed ⊢
          exact ⟨[byteOf '0'], Or.inr (Or.inr ⟨completed, octal⟩)⟩
        · rw [takeWhile_cons_of_neg digit]
          exact ⟨[byteOf '1'], unsignedForm_one⟩
  · have implied : impliedBase base str = base := if_neg zero
    rw [implied] at completed ⊢
    refine ⟨[byteOf '0'], ?_⟩
    unfold UnsignedForm
    rw [if_neg (by omega)]
    split_ifs with sixteen
    · have same : base = 16 := by omega
      subst same
      exact Or.inr completed
    · exact ⟨by omega, by omega, completed⟩

theorem digits_of_prefix (plain : ¬ HasHexPrefix base str) {behind : List UInt8}
    (whole : text ++ behind = str) (mem : PrefixOf (UnsignedForm base) text) :
    ∀ c ∈ text, isDigit (impliedBase base str) c := by
  obtain ⟨more, form⟩ := mem
  intro c inside
  have nonempty := ne_nil_of_mem inside
  have begins : current str = current (text ++ more) := by
    rw [<- whole, current_append nonempty, current_append nonempty]
  have inForm : c ∈ text ++ more := mem_append_left _ inside
  -- of a hexadecimal number only its zero can be in the text
  have notHex (bases : base = 0 \/ base = 16) (hex : HexNumeral (text ++ more)) :
      isDigit (impliedBase base str) c := by
    obtain ⟨x, digits, isX, same, _⟩ := hex
    cases text with
    | nil => exact absurd rfl nonempty
    | cons first others =>
      cases others with
      | nil =>
        cases same
        rw [mem_singleton.mp inside]
        exact isDigit_zero (impliedBase_pos base str)
      | cons second others =>
        cases same
        refine absurd ⟨bases, begins, ?_⟩ plain
        rw [<- whole]
        exact isX
  unfold UnsignedForm at form
  unfold impliedBase at notHex ⊢
  by_cases zero : base = 0
  · rw [if_pos (by omega)] at form
    rw [if_pos zero] at notHex ⊢
    rcases form with hex | octal | decimal
    · exact notHex (Or.inl zero) hex
    · rw [if_pos (begins.trans octal.2)]
      exact octal.1.2 c inForm
    · rw [if_neg (begins ▸ decimal.2)]
      exact decimal.1.2 c inForm
  · rw [if_neg (by omega)] at form
    rw [if_neg zero] at notHex ⊢
    split_ifs at form with sixteen
    · have same : base = 16 := by omega
      rcases form with hex | digits
      · exact notHex (Or.inr same) hex
      · rw [same]
        exact digits.2 c inForm
    · exact form.2.2.2 c inForm

theorem drop_two_add {str : List UInt8} : str.drop (2 + count) = str.tail.tail.drop count := by
  rw [<- drop_one, <- drop_one, drop_drop, drop_drop, <- Nat.add_assoc]

theorem matching_unsignedPrefix (small : base <= 36) (str : List UInt8) :
    Matching (PrefixOf (UnsignedForm base)) str (some (str.drop (prefixLength base str))) := by
  unfold prefixLength
  split_ifs with hex
  · have matching := matching_hexPrefix hex
    rw [<- drop_leadingDigits] at matching
    rw [drop_two_add]
    exact matching
  · rw [drop_leadingDigits]
    exact .of_takeWhile (completes_digits small str)
      fun text behind whole mem => digits_of_prefix hex whole mem

theorem prefixLength_le (base : Nat) (str : List UInt8) : prefixLength base str <= str.length := by
  have digits (number : Nat) (text : List UInt8) :
      (leadingDigits number text).length <= text.length := by
    rw [leadingDigits_length]
    exact (List.takeWhile_prefix _).length_le
  unfold prefixLength
  split_ifs with hex
  · rcases hex.split with ⟨x, rest, _, rfl⟩
    have inside := digits 16 rest
    show 2 + (leadingDigits 16 rest).length <= rest.length + 1 + 1
    omega
  · exact digits _ str

/-! ## With a sign -/

theorem readSign_drop (str : List UInt8) : (readSign str).2 = str.drop (signLength str) := by
  unfold readSign signLength isSign
  by_cases minus : current str = byteOf '-'
  · rw [minus]
    exact drop_one.symm
  · by_cases plus : current str = byteOf '+'
    · rw [if_pos plus, plus]
      exact drop_one.symm
    · simp [minus, plus]

theorem inside_sign {c : UInt8} {rest : List UInt8} (mem : PrefixOf (UnsignedForm base) (c :: rest)) :
    isSign c = false := by
  obtain ⟨more, form⟩ := mem
  obtain ⟨first, others, same, outside⟩ := beginsOutside_unsignedForm base _ form
  cases same
  exact outside

theorem inhabited_unsignedForm (small : base <= 36) : ∃ text, UnsignedForm base text := by
  obtain ⟨more, form⟩ := completes_digits small []
  exact ⟨_, form⟩

theorem matching_numberPrefix (small : base <= 36) (str : List UInt8) :
    Matching (NumberPrefix base) str (some (str.drop (numberLength base str))) := by
  refine Matching.congr (fun text _ _ =>
    (prefixOf_optionally (inhabited_unsignedForm small) text).symm) ?_
  unfold numberLength
  rw [<- drop_drop, readSign_drop]
  have unsigned := matching_unsignedPrefix small (str.drop (signLength str))
  by_cases sign : isSign (current str)
  · cases str with
    | nil => exact absurd sign (by decide)
    | cons c rest =>
      have one : signLength (c :: rest) = 1 := if_pos sign
      rw [one] at unsigned ⊢
      exact unsigned.optionally_some (fun _ _ => inside_sign) sign
  · have none : signLength str = 0 := if_neg sign
    rw [none] at unsigned ⊢
    refine unsigned.optionally_absent fun first rest split => ?_
    subst split
    exact Bool.eq_false_iff.mpr sign

theorem numberLength_le (base : Nat) (str : List UInt8) : numberLength base str <= str.length := by
  have inside := prefixLength_le base (readSign str).2
  unfold numberLength
  rw [readSign_drop] at inside ⊢
  rw [length_drop] at inside
  have sign : signLength str <= str.length := by
    unfold signLength
    split_ifs with present
    · cases str with
      | nil => exact absurd present (by decide)
      | cons c rest => exact Nat.succ_le_succ (Nat.zero_le _)
    · exact Nat.zero_le _
  omega

theorem numberPrefix_eq_take (small : base <= 36) {item rest : List UInt8}
    (whole : item ++ rest = str) (matching : Matching (NumberPrefix base) str (some rest)) :
    item = str.take (numberLength base str) := by
  have same := Option.some.inj (matching.unique (matching_numberPrefix small str))
  rw [same] at whole
  exact append_cancel_right (whole.trans (take_append_drop _ str).symm)

/-! ## The number of a prefix -/

theorem leadingDigits_take {number : Nat} :
    leadingDigits number (text.take (leadingDigits number text).length) =
      leadingDigits number text := by
  induction text with
  | nil => rfl
  | cons c rest ih =>
    cases known : digitValue c with
    | none =>
      have nothing : leadingDigits number (c :: rest) = [] := by
        rw [leadingDigits, known]
      rw [nothing]
      rfl
    | some value =>
      by_cases small : value < number
      · have more : leadingDigits number (c :: rest) = value :: leadingDigits number rest := by
          rw [leadingDigits, known]
          exact if_pos small
        rw [more, length_cons, take_succ_cons, leadingDigits, known, ih]
        exact if_pos small
      · have nothing : leadingDigits number (c :: rest) = [] := by
          rw [leadingDigits, known]
          exact if_neg small
        rw [nothing]
        rfl

theorem current_take (pos : 0 < count) : current (text.take count) = current text := by
  cases text with
  | nil => rw [take_nil]
  | cons c rest =>
    cases count with
    | zero => exact absurd pos (Nat.lt_irrefl 0)
    | succ count => rfl

theorem HasHexPrefix.of_take (hex : HasHexPrefix base (str.take count)) :
    HasHexPrefix base str := by
  obtain ⟨x, rest, isX, same⟩ := hex.split
  have whole := take_append_drop count str
  rw [same] at whole
  rw [<- whole]
  exact ⟨hex.1, rfl, isX⟩

theorem Subject.ofUnsigned_take {negative : Bool} {base : Nat} {str : List UInt8} :
    Subject.ofUnsigned negative base (str.take (prefixLength base str)) =
      Subject.ofUnsigned negative base str := by
  unfold prefixLength
  split_ifs with hex
  · have bases := hex.1
    have whole := leadingDigits_hexadecimal hex
    obtain ⟨x, rest, isX, rfl⟩ := hex.split
    set count := (leadingDigits 16 rest).length
    have cut : (byteOf '0' :: x :: rest).take (2 + count) = byteOf '0' :: x :: rest.take count := by
      rw [Nat.add_comm]
      rfl
    have short : HasHexPrefix base (byteOf '0' :: x :: rest.take count) := ⟨bases, rfl, isX⟩
    have digits : leadingDigits 16 (rest.take count) = leadingDigits 16 rest :=
      leadingDigits_take
    show Subject.ofUnsigned negative base ((byteOf '0' :: x :: rest).take (2 + count)) = _
    rw [cut]
    unfold Subject.ofUnsigned
    rw [leadingDigits_hexadecimal short, whole]
    simp only [short, hex, tail_cons, digits, true_and]
    rfl
  · set count := (leadingDigits (impliedBase base str) str).length with length
    have plain : ¬ HasHexPrefix base (str.take count) := fun other => hex other.of_take
    have implied : impliedBase base (str.take count) = impliedBase base str := by
      rcases Nat.eq_zero_or_pos count with none | some
      · -- a leading zero would be a digit
        have noZero : current str ≠ byteOf '0' := by
          intro zero
          have empty := eq_nil_of_length_eq_zero (length.symm.trans none)
          rw [leadingDigits_nil_iff] at empty
          cases str with
          | nil => exact absurd zero (by decide)
          | cons c rest =>
            have same : c = byteOf '0' := zero
            rw [same, takeWhile_cons_of_pos (isDigit_zero (impliedBase_pos _ _))] at empty
            cases empty
        rw [none, take_zero]
        unfold impliedBase
        rw [if_neg noZero, if_neg (by decide : ¬ current [] = byteOf '0')]
      · unfold impliedBase
        rw [current_take some]
    unfold Subject.ofUnsigned
    rw [if_neg fun both => plain both.1, if_neg fun both => hex both.1, implied,
      leadingDigits_take]

theorem Subject.of_unblanked (base : Nat) {str : List UInt8}
    (noBlank : isspace (current str) = false) :
    Subject.of base str = .ofUnsigned (readSign str).1 base (readSign str).2 := by
  have same : skipBlanks str = str := by
    rw [skipBlanks_eq_dropWhile]
    cases str with
    | nil => rfl
    | cons c rest => exact dropWhile_cons_of_neg (Bool.eq_false_iff.mp noBlank)
  rw [Subject.of_eq_ofUnsigned]
  unfold unsignedPart
  rw [same]

theorem readSign_take {str : List UInt8} :
    readSign (str.take (signLength str + count)) =
      ((readSign str).1, (readSign str).2.take count) := by
  by_cases sign : isSign (current str)
  · cases str with
    | nil => exact absurd sign (by decide)
    | cons c rest =>
      have one : signLength (c :: rest) = 1 := if_pos sign
      rw [one, Nat.add_comm, take_succ_cons]
      unfold readSign
      by_cases minus : c = byteOf '-'
      · rw [if_pos (show current (c :: rest) = byteOf '-' from minus),
          if_pos (show current (c :: rest.take count) = byteOf '-' from minus)]
        rfl
      · have plus : c = byteOf '+' := by
          rcases (Bool.or_eq_true _ _).mp sign with isMinus | isPlus
          · exact absurd (eq_of_beq isMinus) minus
          · exact eq_of_beq isPlus
        rw [plus]
        rfl
  · have unsigned (text : List UInt8) (plain : ¬ isSign (current text)) :
        readSign text = (false, text) := by
      have neither : ¬ current text = byteOf '-' /\ ¬ current text = byteOf '+' := by
        constructor
        · intro minus
          exact plain (by rw [minus]; rfl)
        · intro plus
          exact plain (by rw [plus]; rfl)
      unfold readSign
      rw [if_neg neither.1, if_neg neither.2]
    have none : signLength str = 0 := if_neg sign
    rw [none, Nat.zero_add, unsigned str sign, unsigned]
    rcases Nat.eq_zero_or_pos count with zero | pos
    · rw [zero, take_zero]
      decide
    · rw [current_take pos]
      exact sign

theorem Subject.of_take (base : Nat) {str : List UInt8}
    (noBlank : isspace (current str) = false) :
    Subject.of base (str.take (numberLength base str)) = Subject.of base str := by
  have cutNoBlank : isspace (current (str.take (numberLength base str))) = false := by
    rcases Nat.eq_zero_or_pos (numberLength base str) with zero | pos
    · rw [zero, take_zero]
      decide
    · rw [current_take pos]
      exact noBlank
  rw [Subject.of_unblanked base noBlank, Subject.of_unblanked base cutNoBlank]
  unfold numberLength
  rw [readSign_take]
  exact Subject.ofUnsigned_take

end Unsigned

/-- `strtol` returns every number that a `long` holds, also its minimum, although
it takes that for an overflow. -/
theorem strtol_result_of_fits {base : Nat} (valid : base = 0 \/ 2 <= base /\ base <= 36)
    (str : List UInt8) (errno : Nat) (lower : -2 ^ 31 <= (Subject.of base str).exact)
    (upper : (Subject.of base str).exact < 2 ^ 31) :
    (strtol (some str) base errno).result = (Subject.of base str).exact := by
  have wraps : Wraps Kind.long.wrap (2 ^ 31) := signed_wraps 31
  have calls := convert_eq_outcome wraps (by norm_num) valid str
  have pos := Subject.base_pos base str
  generalize Subject.of base str = subject at *
  by_cases fits : subject.value < 2 ^ 31
  · exact ((meetsSigned_of_fits calls rfl pos fits errno).1 ⟨lower, upper⟩).1
  · unfold Subject.exact at lower upper ⊢
    have least : (2 : Int) ^ 31 <= subject.value := by exact_mod_cast not_lt.mp fits
    cases negative : subject.negative with
    | false =>
      rw [negative] at upper
      exact absurd upper (not_lt.mpr least)
    | true =>
      rw [negative] at lower
      have minimum : (subject.value : Int) = 2 ^ 31 := by
        have most : -2 ^ 31 <= -(subject.value : Int) := lower
        omega
      rw [minimum]
      by_cases detected : subject.Detected Kind.long.wrap
      · rw [show (strtol (some str) base errno).result = _ from
          (call_of_detected calls detected errno).1, negative]
        rfl
      · rw [show (strtol (some str) base errno).result = _ from (call_of_not_detected calls
          detected errno).1, negative, minimum]
        rfl

end Clib4.Stdlib
