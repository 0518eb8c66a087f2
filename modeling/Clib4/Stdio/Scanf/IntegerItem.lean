import Clib4.Stdio.Scanf.IntegerReading
import Clib4.Stdio.Scanf.Percent

namespace Clib4.Stdio.Scanf

open Foundation Stdlib List
open TextStream (Before)

/-!
# Integer directives and `strtol`

A directive is meant to take the longest prefix of its field that is the beginning
of a number, and to store the number `strtol` makes of it.  The branch departs from
that where a digit looks like an overflow, and behind a sign: there it has passed
the place where it looks for `0x` and for a leading zero.  `%X` has no branch.
-/

/-! ## What the directives are for -/

/-- The base `strtol` is given for a conversion. -/
def itemBase : ConversionType -> Option Nat
  | .d | .u => some 10
  | .i => some 0
  | .o => some 8
  | .x | .upperX => some 16
  | _ => none

/-- The parameter holds the number; one of an unsigned conversion may be unsigned. -/
def Representable (spec : Directive) (value : Int) : Prop :=
  (-2 ^ (spec.size.bits - 1) <= value /\ value < 2 ^ (spec.size.bits - 1)) \/
    (spec.conversion ≠ .d /\ spec.conversion ≠ .i /\
      0 <= value /\ value < 2 ^ spec.size.bits)

/-- The longest prefix of a field that is the beginning of a number. -/
def IsItem (base : Nat) (field item : List UInt8) : Prop :=
  ∃ rest, item ++ rest = field /\ Matching (NumberPrefix base) field (some rest)

/-- What a directive is to leave that takes an item. -/
structure ItemLeft {σ ρ : Type} [TextStream σ UInt8] (spec : Directive) (base : Nat)
    (scan : Scan σ ρ) (text item : List UInt8) (after : Scan σ ρ) : Prop where
  before : Before after.stream (text.drop item.length)
  stored : spec.suppressed = false ->
    Representable spec (Subject.of base item).exact -> ∃ earlier, after.stores =
      scan.stores ++ earlier ++ [⟨scan.params, 0, .integer spec.size.bits
        (signed spec.size.bits (Subject.of base item).exact)⟩]

/-- The round takes the item behind white space and stores its number. -/
def ItemStored (host : Platform) {σ : Type} [TextStream σ UInt8] (fuel : Nat)
    (format : List UInt8) (spec : Directive) (base : Nat)
    (scan : Scan σ host.LongDouble) (text : List UInt8) : Prop :=
  ∃ item, IsItem base (limited spec.width (text.dropWhile isspace)) item /\
    Leaves (ItemLeft spec base scan (text.dropWhile isspace) item) Prod.snd
      (round host fuel format scan)

/-! ## Where they do it -/

/-- Behind a sign, `%i` reads an octal number in base ten: all its digits and no
other, and to the same number. -/
def OctalAgrees (spec : Directive) (field : List UInt8) : Prop :=
  let octal := leadingDigits 8 (readSign field).2
  let decimal := leadingDigits 10 (readSign field).2
  let wrap := unsigned spec.size.overflowBits
  (¬ Lowers wrap 10 0 octal /\
    (decimal ≠ octal -> Lowers wrap 10 0 (decimal.take (octal.length + 1)))) /\
  (spec.suppressed = false -> Representable spec (Subject.of 0 field).exact ->
    (numeralFrom 10 0 octal : Int) ≡ numeralFrom 8 0 octal [ZMOD 2 ^ spec.size.bits])

/-- `%X` has nothing to store and nothing to take, and no other directive is run in
its place that takes something. -/
def PassesItem (spec : Directive) (behind text : List UInt8) : Prop :=
  spec.suppressed /\ numberLength 16 (limited spec.width text) = 0 /\
    text.head? ≠ some (byteOf '%') /\
    (text.head? = some (byteOf '[') ->
      spec.width = 0 \/ (parseScanset behind).1 (byteOf '[') = false)

/-- The input behind white space is one that the directive reads as `strtol` does. -/
def ReadsItem (spec : Directive) (behind : List UInt8) (base : Nat) (text : List UInt8) :
    Prop :=
  let field := limited spec.width text
  if spec.conversion = .upperX then PassesItem spec behind text
  else if isSign (current field) /\ HasHexPrefix base (readSign field).2 then False
  else if spec.conversion = .i /\ isSign (current field) /\
      current (readSign field).2 = byteOf '0' then OctalAgrees spec field
  else ¬ (Subject.of base field).Detected (unsigned spec.size.overflowBits)

/-! ## Comparing the two readings of a field -/

section Field

variable {spec : Directive} {base : Nat} {field : List UInt8}

def FieldKept (spec : Directive) (base : Nat) (field : List UInt8) : Prop :=
  integerCount spec field = numberLength base field /\
    (spec.suppressed = false -> Representable spec (Subject.of base field).exact ->
      signed spec.size.bits (integerSum spec field) =
        signed spec.size.bits (Subject.of base field).exact)

/-- All digits the branch could read, if none is taken for an overflow. -/
def offeredDigits (spec : Directive) (field : List UInt8) : List Nat :=
  leadingDigits ((startOf spec.conversion field).base spec.conversion)
    (field.drop (startOf spec.conversion field).count)

/-- The branch and `strtol` see the same number in a field. -/
structure Aligned (spec : Directive) (base : Nat) (field : List UInt8) : Prop where
  count : (startOf spec.conversion field).count + (offeredDigits spec field).length =
    numberLength base field
  negative : (startOf spec.conversion field).negative = (Subject.of base field).negative
  value : numeralFrom ((startOf spec.conversion field).base spec.conversion) 0
    (offeredDigits spec field) = (Subject.of base field).value
  lowers : ∀ wrap, Lowers wrap
      ((startOf spec.conversion field).base spec.conversion) 0
      (offeredDigits spec field) <-> (Subject.of base field).Detected wrap

theorem Aligned.fieldKept_iff (aligned : Aligned spec base field) :
    FieldKept spec base field <->
      ¬ (Subject.of base field).Detected (unsigned spec.size.overflowBits) := by
  obtain ⟨count, negative, value, lowers⟩ := aligned
  have steady : integerDigits spec field = offeredDigits spec field <->
      ¬ (Subject.of base field).Detected (unsigned spec.size.overflowBits) :=
    (steadyDigits_eq_iff 0 _).trans (not_congr (lowers _))
  have inside : integerDigits spec field <+: offeredDigits spec field :=
    steadyDigits_isPrefix 0 _
  constructor
  · rintro ⟨sameCount, _⟩
    refine steady.mp (inside.eq_of_length ?_)
    unfold integerCount at sameCount
    omega
  · intro undetected
    have all := steady.mpr undetected
    refine ⟨?_, fun _ _ => congrArg _ ?_⟩
    · unfold integerCount
      rw [all, count]
    · unfold integerSum Subject.exact
      dsimp only
      rw [all, value, negative]

/-- The branch is offered the digits of the subject but for leading zeros, in its
base unless there are none. -/
theorem aligned_of_subject {start : Start} {digits : List Nat} {number : Nat} (zeros : Nat)
    (opening : startOf spec.conversion field = start)
    (offered : leadingDigits (start.base spec.conversion) (field.drop start.count) = digits)
    (length : numberLength base field = start.count + digits.length)
    (subject : Subject.of base field = ⟨start.negative, number, List.replicate zeros 0 ++ digits⟩)
    (radices : start.base spec.conversion = number \/ digits = []) :
    Aligned spec base field := by
  have same : offeredDigits spec field = digits := by
    unfold offeredDigits
    rw [opening, offered]
  have zeroed : numeralFrom number 0 (List.replicate zeros 0 ++ digits) =
        numeralFrom (start.base spec.conversion) 0 digits /\
      ∀ wrap, Lowers wrap number 0 (List.replicate zeros 0 ++ digits) <->
        Lowers wrap (start.base spec.conversion) 0 digits := by
    clear subject
    induction zeros with
    | zero =>
      rcases radices with rfl | rfl <;> exact ⟨rfl, fun _ => Iff.rfl⟩
    | succ zeros ih => exact ⟨ih.1, fun wrap => (or_iff_right (lt_irrefl _)).trans (ih.2 wrap)⟩
  refine ⟨?_, ?_, ?_, fun wrap => ?_⟩
  · rw [opening, same, length]
  · rw [opening, subject]
  · rw [opening, same, subject]
    exact zeroed.1.symm
  · rw [opening, same, subject]
    exact (zeroed.2 wrap).symm

/-! ### The opening of a field -/

theorem startOf_sign (conversion : ConversionType) (sign : isSign (current field)) :
    startOf conversion field = ⟨(readSign field).1, radixOf conversion, 0, 1⟩ := by
  unfold startOf readSign
  by_cases minus : current field = byteOf '-'
  · rw [if_pos minus, if_pos minus]
  · have plus : current field = byteOf '+' := by
      rcases (Bool.or_eq_true _ _).mp sign with isMinus | isPlus
      · exact absurd (eq_of_beq isMinus) minus
      · exact eq_of_beq isPlus
    rw [if_neg minus, if_neg minus, if_pos plus, if_pos plus]

theorem readSign_plain (noSign : isSign (current field) = false) :
    readSign field = (false, field) := by
  have minus : current field ≠ byteOf '-' := fun same => by rw [same] at noSign; cases noSign
  have plus : current field ≠ byteOf '+' := fun same => by rw [same] at noSign; cases noSign
  unfold readSign
  rw [if_neg minus, if_neg plus]

theorem startOf_plain {conversion : ConversionType} (noSign : isSign (current field) = false)
    (noZero : current field ≠ byteOf '0') :
    startOf conversion field = ⟨false, radixOf conversion, 0, 0⟩ := by
  have minus : current field ≠ byteOf '-' := fun same => by rw [same] at noSign; cases noSign
  have plus : current field ≠ byteOf '+' := fun same => by rw [same] at noSign; cases noSign
  unfold startOf
  rw [if_neg minus, if_neg plus, if_neg noZero]

theorem aligned_digits (noBlank : isspace (current field) = false)
    (start : startOf spec.conversion field =
      ⟨(readSign field).1, radixOf spec.conversion, 0, signLength field⟩)
    (radix : Start.base ⟨(readSign field).1, radixOf spec.conversion, 0, signLength field⟩
      spec.conversion = impliedBase base (readSign field).2)
    (plain : ¬ HasHexPrefix base (readSign field).2) : Aligned spec base field := by
  have subject : Subject.of base field = ⟨(readSign field).1, impliedBase base (readSign field).2,
      leadingDigits (impliedBase base (readSign field).2) (readSign field).2⟩ := by
    rw [Subject.of_unblanked base noBlank]
    exact if_neg fun both => plain both.1
  refine aligned_of_subject 0 start ?_ ?_ subject (Or.inl radix)
  · rw [radix, <- readSign_drop]
  · unfold numberLength prefixLength
    rw [if_neg plain]

/-! ### A leading zero -/

theorem leadingDigits_zero {radix : Nat} (pos : 0 < radix) (rest : List UInt8) :
    leadingDigits radix (byteOf '0' :: rest) = 0 :: leadingDigits radix rest := by
  exact if_pos pos

theorem aligned_zero {rest : List UInt8} {radix processed : Nat}
    (start : startOf spec.conversion (byteOf '0' :: rest) = ⟨false, radix, processed, 1⟩)
    (plain : ¬ HasHexPrefix base (byteOf '0' :: rest))
    (digits : leadingDigits (Start.base ⟨false, radix, processed, 1⟩ spec.conversion) rest =
      leadingDigits (impliedBase base (byteOf '0' :: rest)) rest)
    (radices : Start.base ⟨false, radix, processed, 1⟩ spec.conversion =
        impliedBase base (byteOf '0' :: rest) \/
      leadingDigits (impliedBase base (byteOf '0' :: rest)) rest = []) :
    Aligned spec base (byteOf '0' :: rest) := by
  set number := impliedBase base (byteOf '0' :: rest)
  have pos : 0 < number := impliedBase_pos base _
  refine aligned_of_subject 1 start digits ?_ ?_ radices
  · have unfolded : numberLength base (byteOf '0' :: rest) =
        0 + prefixLength base (byteOf '0' :: rest) := rfl
    rw [unfolded, Nat.zero_add]
    unfold prefixLength
    rw [if_neg plain]
    rw [leadingDigits_zero pos, length_cons, Nat.add_comm]
  · show _ = Subject.mk false number (0 :: leadingDigits number rest)
    rw [<- leadingDigits_zero pos]
    exact if_neg fun both => plain both.1

theorem aligned_hexadecimal (hex : HasHexPrefix base field)
    (start : startOf spec.conversion field = ⟨false, 16, 0, 2⟩) :
    Aligned spec base field := by
  have zero := leadingDigits_hexadecimal hex
  obtain ⟨x, rest, isX, rfl⟩ := hex.split
  have length : numberLength base (byteOf '0' :: x :: rest) =
      2 + (leadingDigits 16 rest).length := by
    have unfolded : numberLength base (byteOf '0' :: x :: rest) =
        0 + prefixLength base (byteOf '0' :: x :: rest) := rfl
    rw [unfolded, Nat.zero_add]
    exact if_pos hex
  have subject : Subject.of base (byteOf '0' :: x :: rest) =
      if leadingDigits 16 rest ≠ [] then ⟨false, 16, leadingDigits 16 rest⟩
      else ⟨false, impliedBase base (byteOf '0' :: x :: rest), [0]⟩ := by
    rw [<- zero]
    exact if_congr (and_iff_right hex) rfl rfl
  by_cases empty : leadingDigits 16 rest = []
  · rw [if_neg (not_not.mpr empty)] at subject
    rw [empty] at length
    exact aligned_of_subject 1 start empty length subject (Or.inr rfl)
  · rw [if_pos empty] at subject
    exact aligned_of_subject 0 start rfl length subject (Or.inl rfl)

/-! ### Behind a sign -/

/-- Behind a sign the `x` of `0x` ends the number. -/
theorem not_fieldKept_hexadecimal (sign : isSign (current field))
    (hex : HasHexPrefix base (readSign field).2) :
    ¬ FieldKept spec base field := by
  rintro ⟨sameCount, _⟩
  have start := startOf_sign spec.conversion sign
  have one : signLength field = 1 := if_pos sign
  have offered : (integerDigits spec field).length <= 1 := by
    refine (steadyDigits_isPrefix 0 _).length_le.trans ?_
    have small := Start.base_le spec.conversion field
    rw [start] at small ⊢
    have behind : field.drop 1 = (readSign field).2 := by rw [readSign_drop, one]
    rw [behind, leadingDigits_length]
    obtain ⟨x, rest, isX, same⟩ := hex.split
    have noDigit := isDigit_eq_false_of_x isX (small.trans (by decide : 16 <= 33))
    rw [same, takeWhile_cons]
    split
    · rw [takeWhile_cons, noDigit]
      exact Nat.le_refl 1
    · exact Nat.zero_le 1
  have length : numberLength base field =
      1 + (2 + (leadingDigits 16 (readSign field).2.tail.tail).length) := by
    unfold numberLength prefixLength
    rw [one, if_pos hex]
  unfold integerCount at sameCount
  rw [start] at sameCount
  dsimp only at sameCount
  omega

/-- Some digits are exactly those that are read, if none of them is taken for an
overflow and the next one is. -/
theorem steadyDigits_eq_prefix_iff {wrap : Int -> Int} {radix : Nat} {some digits : List Nat}
    (inside : some <+: digits) (value : Nat) :
    steadyDigits wrap radix value digits = some <-> ¬ Lowers wrap radix value some /\
        (digits ≠ some -> Lowers wrap radix value (digits.take (some.length + 1))) := by
  induction some generalizing digits value with
  | nil =>
    cases digits with
    | nil => exact iff_of_true rfl ⟨id, fun differs => absurd rfl differs⟩
    | cons digit digits =>
      rw [steadyDigits]
      split_ifs with lower
      · exact iff_of_true rfl ⟨id, fun _ => Or.inl lower⟩
      · refine iff_of_false id fun both => ?_
        exact (both.2 (cons_ne_nil _ _)).elim lower id
  | cons digit some ih =>
    cases digits with
    | nil => exact absurd (prefix_nil.mp inside) (cons_ne_nil _ _)
    | cons first digits =>
      obtain ⟨rfl, within⟩ := cons_prefix_cons.mp inside
      rw [steadyDigits, length_cons, take_succ_cons, Lowers, Lowers]
      split_ifs with lower
      · exact iff_of_false id fun both => both.1 (Or.inl lower)
      · rw [cons_inj_right, ih within, or_iff_right lower, or_iff_right lower, Ne, Ne,
          cons_inj_right]

theorem leadingDigits_isPrefix {small large : Nat} (less : small <= large) (text : List UInt8) :
    leadingDigits small text <+: leadingDigits large text := by
  induction text with
  | nil => exact prefix_refl _
  | cons c rest ih =>
    rw [leadingDigits, leadingDigits]
    cases digitValue c with
    | none => exact prefix_refl _
    | some value =>
      dsimp only
      split_ifs
      · exact cons_prefix_cons.mpr ⟨rfl, ih⟩
      · omega
      · exact nil_prefix
      · exact prefix_refl _

theorem fieldKept_octal_iff (noBlank : isspace (current field) = false)
    (isI : spec.conversion = .i) (sign : isSign (current field))
    (zero : current (readSign field).2 = byteOf '0')
    (plain : ¬ HasHexPrefix 0 (readSign field).2) :
    FieldKept spec 0 field <-> OctalAgrees spec field := by
  have start := startOf_sign spec.conversion sign
  have one : signLength field = 1 := if_pos sign
  have implied : impliedBase 0 (readSign field).2 = 8 := if_pos zero
  have radix : (startOf spec.conversion field).base spec.conversion = 10 := by
    rw [start, isI]
    rfl
  set octal := leadingDigits 8 (readSign field).2 with octalDigits
  set decimal := leadingDigits 10 (readSign field).2 with decimalDigits
  have digits : integerDigits spec field =
      steadyDigits (unsigned spec.size.overflowBits) 10 0 decimal := by
    unfold integerDigits
    dsimp only
    rw [radix, start, <- one, <- readSign_drop]
  have subject : Subject.of 0 field = ⟨(readSign field).1, 8, octal⟩ := by
    rw [Subject.of_unblanked 0 noBlank, octalDigits, <- implied]
    exact if_neg fun both => plain both.1
  have length : numberLength 0 field = 1 + octal.length := by
    unfold numberLength prefixLength
    rw [one, if_neg plain, implied]
  have inside : octal <+: decimal := leadingDigits_isPrefix (by decide) _
  have steady : integerDigits spec field <+: decimal := by
    rw [digits]
    exact steadyDigits_isPrefix 0 decimal
  have count : integerCount spec field = numberLength 0 field <->
      integerDigits spec field = octal := by
    unfold integerCount
    rw [start, length]
    dsimp only
    constructor
    · intro same
      have lengths : (integerDigits spec field).length = octal.length := by omega
      exact (prefix_of_prefix_length_le steady inside lengths.le).eq_of_length lengths
    · intro same
      rw [same]
  unfold FieldKept OctalAgrees
  dsimp only
  rw [count, <- octalDigits, <- steadyDigits_eq_prefix_iff inside 0, <- digits]
  refine and_congr_right fun same => ?_
  refine forall_congr' fun _ => forall_congr' fun _ => ?_
  have sum : integerSum spec field = if (readSign field).1 then
      -(numeralFrom 10 0 octal : Int) else numeralFrom 10 0 octal := by
    unfold integerSum
    dsimp only
    rw [same, radix, start]
  have exactly : (Subject.of 0 field).exact = if (readSign field).1 then
      -(numeralFrom 8 0 octal : Int) else numeralFrom 8 0 octal := by
    rw [subject]
    rfl
  rw [sum, exactly, signed_eq_signed_iff]
  split_ifs
  · exact ⟨fun same => by simpa using same.neg, Int.ModEq.neg⟩
  · exact Iff.rfl

/-! ### All fields -/

variable {conversion : ConversionType}

theorem integer_cases (known : itemBase conversion = some base) (branch : conversion ≠ .upperX) :
    ((conversion = .d \/ conversion = .u) /\ base = 10) \/ (conversion = .o /\ base = 8) \/
      (conversion = .x /\ base = 16) \/ (conversion = .i /\ base = 0) := by
  cases conversion with
  | d | u | o | x | i =>
    cases known
    simp
  | upperX => exact absurd rfl branch
  | c | f | s | n | percent | scanset => cases known

theorem base_eq_impliedBase (known : itemBase conversion = some base)
    (branch : conversion ≠ .upperX) {str : List UInt8}
    (noZero : conversion = .i -> current str ≠ byteOf '0') {negative : Bool}
    {processed count : Nat} :
    Start.base ⟨negative, radixOf conversion, processed, count⟩ conversion =
      impliedBase base str := by
  rcases integer_cases known branch with ⟨rfl | rfl, rfl⟩ | ⟨rfl, rfl⟩ | ⟨rfl, rfl⟩ | ⟨rfl, rfl⟩
  · rfl
  · rfl
  · rfl
  · rfl
  · exact (if_neg (noZero rfl)).symm

theorem isHexMark_iff {c : UInt8} : isHexMark c <-> c = byteOf 'x' \/ c = byteOf 'X' := by
  unfold isHexMark
  rw [Bool.or_eq_true, beq_iff_eq, beq_iff_eq]

theorem leadingDigits_of_not_decimal {number : Nat} (small : number <= 10) {rest : List UInt8}
    (noDigit : isDecimal (current rest) = false) : leadingDigits number rest = [] := by
  cases rest with
  | nil => rfl
  | cons c rest =>
    have outside : ¬ (48 <= c.toNat /\ c.toNat <= 57) := by
      intro digit
      have inside : isDecimal c := by
        unfold isDecimal
        simp only [Bool.and_eq_true, decide_eq_true_eq, UInt8.le_iff_toNat_le]
        exact digit
      rw [show isDecimal c = false from noDigit] at inside
      cases inside
    rw [leadingDigits]
    unfold digitValue
    split_ifs
    · exact if_neg (by omega)
    · exact if_neg (by omega)
    · rfl

theorem aligned_of_zero {rest : List UInt8} (known : itemBase spec.conversion = some base)
    (branch : spec.conversion ≠ .upperX) : Aligned spec base (byteOf '0' :: rest) := by
  obtain ⟨suppressed, width, size, conversion⟩ := spec
  have plain : ¬ isHexMark (current rest) -> ¬ HasHexPrefix base (byteOf '0' :: rest) :=
    fun noMark other => noMark (isHexMark_iff.mpr other.2.2)
  cases conversion with
  | d | u | o =>
    cases known
    exact aligned_zero rfl (fun other => by simpa using other.1) rfl (Or.inl rfl)
  | x =>
    cases known
    by_cases mark : isHexMark (current rest)
    · exact aligned_hexadecimal ⟨Or.inr rfl, rfl, isHexMark_iff.mp mark⟩ (if_pos mark)
    · exact aligned_zero (if_neg mark) (plain mark) rfl (Or.inl rfl)
  | i =>
    cases known
    by_cases mark : isHexMark (current rest)
    · exact aligned_hexadecimal ⟨Or.inl rfl, rfl, isHexMark_iff.mp mark⟩ (if_pos mark)
    · by_cases octal : isDecimal (current rest)
      · exact aligned_zero ((if_neg mark).trans (if_pos ⟨rfl, octal⟩)) (plain mark) rfl (Or.inl rfl)
      · -- the zero stands alone, in base ten here and in base eight there
        have noDigits : ∀ {number}, number <= 10 -> leadingDigits number rest = [] := fun small =>
          leadingDigits_of_not_decimal small (Bool.eq_false_iff.mpr octal)
        have noOctal := noDigits (show 8 <= 10 by decide)
        exact aligned_zero ((if_neg mark).trans (if_neg fun both => octal both.2)) (plain mark)
          ((noDigits (show 10 <= 10 by decide)).trans noOctal.symm) (Or.inr noOctal)
  | upperX => exact absurd rfl branch
  | c | f | s | n | percent | scanset => cases known

/-- The branch reads a field as `strtol` does where the condition says so. -/
theorem fieldKept_iff (known : itemBase spec.conversion = some base)
    (branch : spec.conversion ≠ .upperX) (noBlank : isspace (current field) = false) :
    FieldKept spec base field <->
      if isSign (current field) /\ HasHexPrefix base (readSign field).2 then False
      else if spec.conversion = .i /\ isSign (current field) /\
          current (readSign field).2 = byteOf '0' then OctalAgrees spec field
      else ¬ (Subject.of base field).Detected (unsigned spec.size.overflowBits) := by
  by_cases sign : isSign (current field)
  · by_cases hex : HasHexPrefix base (readSign field).2
    · rw [if_pos ⟨sign, hex⟩]
      exact iff_of_false (not_fieldKept_hexadecimal sign hex) id
    · rw [if_neg fun both => hex both.2]
      by_cases octal : spec.conversion = .i /\ current (readSign field).2 = byteOf '0'
      · rw [if_pos ⟨octal.1, sign, octal.2⟩]
        have zero : base = 0 := by
          rw [octal.1] at known
          exact (Option.some.inj known).symm
        subst zero
        exact fieldKept_octal_iff noBlank octal.1 sign octal.2 hex
      · rw [if_neg fun all => octal ⟨all.1, all.2.2⟩]
        have one : signLength field = 1 := if_pos sign
        refine (aligned_digits noBlank ?_ ?_ hex).fieldKept_iff
        · rw [one]
          exact startOf_sign _ sign
        · exact base_eq_impliedBase known branch (fun is zero => octal ⟨is, zero⟩)
  · have noSign := Bool.eq_false_iff.mpr sign
    rw [if_neg fun both => sign both.1, if_neg fun all => sign all.2.1]
    by_cases zero : current field = byteOf '0'
    · cases field with
      | nil => exact absurd zero (by decide)
      | cons c rest =>
        have same := zero
        subst same
        exact (aligned_of_zero known branch).fieldKept_iff
    · have none : signLength field = 0 := if_neg sign
      have plain : (readSign field).2 = field := by rw [readSign_plain noSign]
      refine (aligned_digits noBlank ?_ ?_ ?_).fieldKept_iff
      · rw [none, readSign_plain noSign]
        exact startOf_plain noSign zero
      · rw [plain]
        exact base_eq_impliedBase known branch (fun _ => zero)
      · rw [plain]
        exact fun other => zero other.2.1

/-! ### The item -/

theorem startOf_count_le (conversion : ConversionType) (field : List UInt8) :
    (startOf conversion field).count <= field.length := by
  cases field with
  | nil => exact Nat.le_refl 0
  | cons c rest =>
    unfold startOf
    split_ifs with _ _ _ _ mark
    · exact Nat.succ_le_succ (Nat.zero_le _)
    · exact Nat.succ_le_succ (Nat.zero_le _)
    · cases rest with
      | nil => exact absurd mark (show ¬ isHexMark 0 = true by decide)
      | cons d rest => exact Nat.succ_le_succ (Nat.succ_le_succ (Nat.zero_le _))
    · exact Nat.succ_le_succ (Nat.zero_le _)
    · exact Nat.succ_le_succ (Nat.zero_le _)
    · exact Nat.succ_le_succ (Nat.zero_le _)
    · exact Nat.zero_le _

theorem integerCount_le (spec : Directive) (field : List UInt8) :
    integerCount spec field <= field.length := by
  have start := startOf_count_le spec.conversion field
  have digits : (integerDigits spec field).length <=
      (field.drop (startOf spec.conversion field).count).length := by
    refine (steadyDigits_isPrefix 0 _).length_le.trans ?_
    rw [leadingDigits_length]
    exact (List.takeWhile_prefix _).length_le
  rw [length_drop] at digits
  unfold integerCount
  omega

theorem itemBase_le (known : itemBase conversion = some base) : base <= 36 := by
  cases conversion <;> cases known <;> decide

theorem isItem_iff (small : base <= 36) {item : List UInt8} :
    IsItem base field item <-> item = field.take (numberLength base field) := by
  constructor
  · rintro ⟨rest, whole, matching⟩
    exact numberPrefix_eq_take small whole matching
  · rintro rfl
    exact ⟨_, take_append_drop _ field, matching_numberPrefix small field⟩

theorem noBlank_limited {width : Int} {text : List UInt8} :
    isspace (current (limited width (text.dropWhile isspace))) = false := by
  obtain ⟨rest, whole⟩ := limited_isPrefix width (text.dropWhile isspace)
  cases begins : limited width (text.dropWhile isspace) with
  | nil => rfl
  | cons c inside =>
    rw [begins] at whole
    have head := List.head?_dropWhile_not isspace text
    rw [<- whole] at head
    show isspace c = false
    simpa using head

end Field

/-! ## One round -/

section Rounds

variable (host : Platform) {σ : Type} [TextStream σ UInt8] {fuel : Nat}
  {format rest text : List UInt8} {spec : Directive} {base : Nat}
  {scan : Scan σ host.LongDouble}

variable {ρ : Type}

theorem itemLeft_iff {scan before' after : Scan σ ρ}
    (noBlank : isspace (current (limited spec.width text)) = false)
    (untouched : Untouched scan before') (left : IntegerLeft spec before' text
      (integerCount spec (limited spec.width text))
      (integerSum spec (limited spec.width text)) after) :
    ItemLeft spec base scan text ((limited spec.width text).take
        (numberLength base (limited spec.width text))) after <->
      FieldKept spec base (limited spec.width text) := by
  set field := limited spec.width text
  have inField : field.length <= text.length := (limited_isPrefix spec.width text).length_le
  have length := length_take_of_le (numberLength_le base field)
  have counted := integerCount_le spec field
  have numbered := numberLength_le base field
  have number := Subject.of_take base noBlank
  obtain ⟨stands, stored⟩ := left
  rw [untouched.stores, untouched.params] at stored
  constructor
  · rintro ⟨before, kept⟩
    rw [number] at kept
    have lengths := congrArg List.length (before_unique stands before)
    rw [length_drop, length_drop] at lengths
    refine ⟨by omega, fun unsuppressed representable => ?_⟩
    obtain ⟨first, one⟩ := stored unsuppressed
    obtain ⟨second, two⟩ := kept unsuppressed representable
    have last := append_inj_right' (one.symm.trans two) rfl
    injection last with store
    injection store with _ _ value
    injection value
  · rintro ⟨count, value⟩
    refine ⟨?_, fun unsuppressed representable => ?_⟩
    · rw [length, <- count]
      exact stands
    · rw [number] at representable ⊢
      rw [<- value unsuppressed representable]
      exact stored unsuppressed

theorem itemStored_branch_iff (before : Before scan.stream text) (enough : text.length < fuel)
    (begins : formatDirective format = some (spec, rest))
    (known : itemBase spec.conversion = some base)
    (branch : spec.conversion ≠ .upperX) :
    ItemStored host fuel format spec base scan text <->
      FieldKept spec base (limited spec.width (text.dropWhile isspace)) := by
  have cases := integer_cases known branch
  have skips : spec.conversion.keepsSpace = none := by
    rcases cases with ⟨same | same, _⟩ | ⟨same, _⟩ | ⟨same, _⟩ | ⟨same, _⟩ <;> rw [same] <;> rfl
  obtain ⟨after, skipped, stands, untouched⟩ := leadingSpace_eq before enough skips
  have chosen : branchOf spec.conversion (text.dropWhile isspace).head? = .integer := by
    rcases cases with ⟨same | same, _⟩ | ⟨same, _⟩ | ⟨same, _⟩ | ⟨same, _⟩ <;> rw [same] <;> rfl
  have run : round host fuel format scan =
      (convertInteger fuel spec after).map (rest, ·) := by
    rw [round_directive host begins]
    unfold convert
    rw [skipped]
    show convertBranch host fuel spec rest (branchOf spec.conversion _) after = _
    rw [chosen]
    rfl
  have shorter : (text.dropWhile isspace).length <= text.length :=
    (dropWhile_suffix _).length_le
  have leaves := (convertInteger_leaves stands (by omega : _ < fuel) spec).map
    (fun _ => rfl : ∀ value, Prod.snd (rest, value) = id value)
  unfold ItemStored
  simp only [isItem_iff (itemBase_le known), exists_eq_left]
  rw [run]
  exact leaves.iff_of fun scan' left =>
    itemLeft_iff (noBlank_limited) untouched left

/-! ### `%X` -/

theorem collect_eq {field : Field σ ρ} (before : Before field.scan.stream text)
    (enough : text.length < fuel) (test : UInt8 -> Bool) {suppressed : Bool}
    (stores : List UInt8 -> List (Store ρ)) :
    ∃ got after, field.collect fuel test suppressed stores = .ok (got, after) /\
      Before after.scan.stream
        (text.drop (readText (collecting test) field.width [] text).count) /\
      (suppressed = false -> after.scan.stores = field.scan.stores ++
        stores (readText (collecting test) field.width [] text).value) := by
  have agrees := readWhile_agrees (collecting test) field.width [] before enough
  have splits := readText_splits (collecting test) field.width [] text
  refine ⟨_, _, settle_eq (agrees.ending ▸ splits.kept), ?_, ?_⟩
  · have stands := agrees.before
    rw [splits.drop] at stands
    cases suppressed <;> exact stands
  · rintro rfl
    rw [<- agrees.value]
    rfl

theorem convertScanset_leaves {scan : Scan σ ρ} (before : Before scan.stream text)
    (enough : text.length < fuel) (spec : Directive) (format : List UInt8) :
    Leaves (fun after =>
        Before after.stream (text.drop (readText (collecting (parseScanset format).1)
          spec.width [] text).count) /\
        (spec.suppressed = false -> ∃ stored, after.stores =
          scan.stores ++ stringStores scan.params stored)) Prod.snd
      (convertScanset fuel spec format scan) := by
  have start : Before ((scan.takeParameter spec.suppressed).field
      spec.width).scan.stream text := by
    unfold Scan.takeParameter
    split <;> exact before
  have stores : ((scan.takeParameter spec.suppressed).field spec.width).scan.stores =
      scan.stores := by
    unfold Scan.takeParameter
    split <;> rfl
  obtain ⟨got, after, collected, stands, stored⟩ := collect_eq start enough
    (parseScanset format).1 (stringStores scan.params)
  rw [stores] at stored
  have left : Before after.scan.stream (text.drop (readText (collecting (parseScanset format).1)
        spec.width [] text).count) /\
      (spec.suppressed = false -> ∃ stored, after.scan.stores =
        scan.stores ++ stringStores scan.params stored) :=
    ⟨stands, fun unsuppressed => ⟨_, stored unsuppressed⟩⟩
  unfold convertScanset
  dsimp only
  rw [collected]
  show Leaves _ _ (if after.inputFailure got then _ else _)
  split
  · exact left
  · split <;> exact left

omit [TextStream σ UInt8] in
theorem stringStores_byte {param : Nat} {stored : List UInt8} {store : Store ρ}
    (inside : store ∈ stringStores param stored) : ∃ c, store.stored = .byte c := by
  rcases mem_cons.mp inside with rfl | later
  · exact ⟨0, rfl⟩
  · obtain ⟨pair, mem, within⟩ := mem_flatten.mp later
    obtain ⟨idx, bound, rfl⟩ := mem_mapIdx.mp mem
    rcases mem_cons.mp within with rfl | last
    · exact ⟨_, rfl⟩
    · rw [mem_singleton.mp last]
      exact ⟨0, rfl⟩

theorem representable_zero {spec : Directive} : Representable spec 0 := by
  have pos : (0 : Int) < 2 ^ (spec.size.bits - 1) := pow_pos two_pos _
  exact Or.inl ⟨by omega, pos⟩

/-- A round that stores no integer can leave what an item asks for only if it stores
nothing at all. -/
theorem itemLeft_without_integer {scan after : Scan σ ρ} {count : Nat}
    (before : Before after.stream (text.drop count)) (inside : count <= text.length)
    (stores : spec.suppressed = false -> ∃ stored, after.stores = scan.stores ++ stored /\
      ∀ store ∈ stored, ∀ bits value, store.stored ≠ .integer bits value)
    (only : numberLength 16 (limited spec.width text) = count -> count = 0) :
    ItemLeft spec 16 scan text ((limited spec.width text).take
        (numberLength 16 (limited spec.width text))) after <->
      spec.suppressed /\ numberLength 16 (limited spec.width text) = count := by
  set field := limited spec.width text
  have inField : field.length <= text.length := (limited_isPrefix spec.width text).length_le
  have length := length_take_of_le (numberLength_le 16 field)
  have numbered := numberLength_le 16 field
  constructor
  · rintro ⟨stands, kept⟩
    have lengths := congrArg List.length (before_unique before stands)
    rw [length_drop, length_drop] at lengths
    have same : numberLength 16 field = count := by omega
    refine ⟨?_, same⟩
    by_contra notSuppressed
    have unsuppressed := Bool.eq_false_iff.mpr notSuppressed
    have empty : field.take (numberLength 16 field) = [] := by
      rw [same, only same, take_zero]
    rw [empty] at kept
    obtain ⟨stored, one, noInteger⟩ := stores unsuppressed
    obtain ⟨earlier, two⟩ := kept unsuppressed (representable_zero)
    rw [one, append_assoc] at two
    have parts := append_cancel_left two
    have mem : (⟨scan.params, 0, .integer spec.size.bits
        (signed spec.size.bits (Subject.of 16 []).exact)⟩ : Store ρ) ∈ stored := by
      rw [parts]
      exact mem_append_right _ (mem_singleton.mpr rfl)
    exact noInteger _ mem _ _ rfl
  · rintro ⟨suppressed, same⟩
    refine ⟨?_, fun unsuppressed => ?_⟩
    · rw [length, same]
      exact before
    · rw [suppressed] at unsuppressed
      cases unsuppressed

theorem numberLength_eq_zero {c : UInt8} (noSign : isSign c = false)
    (noDigit : isDigit 16 c = false) (width : Int) (rest : List UInt8) :
    numberLength 16 (limited width (c :: rest)) = 0 := by
  by_cases full : width = 0
  · rw [full]
    rfl
  · rw [limited_cons full]
    have plain : ¬ HasHexPrefix 16 (c :: limited (narrow width) rest) := by
      intro hex
      have zero : c = byteOf '0' := hex.2.1
      rw [zero] at noDigit
      cases noDigit
    have none : signLength (c :: limited (narrow width) rest) = 0 :=
      if_neg (Bool.eq_false_iff.mp noSign)
    have unsigned : readSign (c :: limited (narrow width) rest) = (false, _) :=
      readSign_plain noSign
    unfold numberLength prefixLength
    rw [none, unsigned, if_neg plain, leadingDigits_length]
    show 0 + (List.takeWhile (isDigit 16) _).length = 0
    rw [takeWhile_cons_of_neg (Bool.eq_false_iff.mp noDigit)]
    rfl

theorem collecting_count_eq_zero_iff (set : UInt8 -> Bool) (width : Int) (c : UInt8)
    (rest : List UInt8) :
    (readText (collecting set) width [] (c :: rest)).count = 0 <-> width = 0 \/ set c = false := by
  by_cases full : width = 0
  · rw [full]
    exact iff_of_true rfl (Or.inl rfl)
  · cases inSet : set c with
    | true =>
      have verdict : collecting set [] c = .take ([] ++ [c]) := if_pos inSet
      rw [readText_take full verdict]
      exact iff_of_false (Nat.succ_ne_zero _) (not_or.mpr ⟨full, nofun⟩)
    | false =>
      have verdict : collecting set [] c = .refuse :=
        if_neg (Bool.eq_false_iff.mp inSet)
      rw [readText_refuse full verdict]
      exact iff_of_true rfl (Or.inr rfl)

theorem itemStored_upperX_iff (before : Before scan.stream text) (enough : text.length < fuel)
    (begins : formatDirective format = some (spec, rest))
    (upperX : spec.conversion = .upperX) :
    ItemStored host fuel format spec 16 scan text <->
      PassesItem spec rest (text.dropWhile isspace) := by
  obtain ⟨after, skipped, stands, untouched⟩ := leadingSpace_eq before enough
    (keepsSpace_eq_none (Or.inr upperX))
  have run : round host fuel format scan = convertBranch host fuel spec rest
      (branchOf .upperX (text.dropWhile isspace).head?) after := by
    rw [round_directive host begins]
    unfold convert
    rw [skipped, upperX]
    rfl
  have shorter : (text.dropWhile isspace).length <= text.length :=
    (dropWhile_suffix _).length_le
  unfold ItemStored
  simp only [isItem_iff (by decide : 16 <= 36), exists_eq_left]
  rw [run]
  generalize text.dropWhile isspace = text at *
  by_cases percent : text.head? = some (byteOf '%')
  · obtain ⟨others, rfl⟩ := List.head?_eq_some_iff.mp percent
    obtain ⟨last, matched, stands', untouched'⟩ := matchCharacter_same stands
    have kept := untouched.trans untouched'
    have nothing := numberLength_eq_zero (by decide) (by decide : isDigit 16 (byteOf '%') = false)
      spec.width others
    have result : convertBranch host fuel spec rest
        (branchOf .upperX (byteOf '%' :: others).head?) after = .ok (rest, last) := by
      show (matchCharacter (byteOf '%') after).map (rest, ·) = _
      rw [matched]
      rfl
    rw [result]
    refine (itemLeft_without_integer stands' (Nat.succ_le_succ (Nat.zero_le _)) (fun _ =>
      ⟨[], kept.stores.trans (append_nil _).symm, nofun⟩) (fun one => ?_)).trans ?_
    · rw [nothing] at one
      cases one
    · rw [nothing]
      exact iff_of_false (fun both => nomatch both.2) fun passes => passes.2.2.1 rfl
  · by_cases bracket : text.head? = some (byteOf '[')
    · obtain ⟨others, rfl⟩ := List.head?_eq_some_iff.mp bracket
      have nothing := numberLength_eq_zero (by decide)
        (by decide : isDigit 16 (byteOf '[') = false) spec.width others
      have leaves := convertScanset_leaves stands (by omega : _ < fuel) spec rest
      have splits := readText_splits (collecting (parseScanset rest).1) spec.width []
        (byteOf '[' :: others)
      refine (leaves.iff_of fun last left => itemLeft_without_integer left.1 splits.inside
        (fun unsuppressed => ?_) (fun same => ?_)).trans ?_
      · obtain ⟨stored, same⟩ := left.2 unsuppressed
        rw [untouched.stores] at same
        refine ⟨_, same, fun store mem bits value is => ?_⟩
        obtain ⟨c, byte⟩ := stringStores_byte mem
        rw [byte] at is
        cases is
      · rw [<- same, nothing]
      · unfold PassesItem
        rw [nothing, @eq_comm Nat 0 (readText _ _ _ _).count, collecting_count_eq_zero_iff]
        constructor
        · rintro ⟨suppressed, nowhere⟩
          exact ⟨suppressed, rfl, percent, fun _ => nowhere⟩
        · rintro ⟨suppressed, _, _, nowhere⟩
          exact ⟨suppressed, nowhere rfl⟩
    · have result : convertBranch host fuel spec rest
          (branchOf .upperX text.head?) after = .ok (rest, after) := by
        unfold branchOf
        rw [if_neg percent, if_neg bracket]
        rfl
      rw [result]
      refine (itemLeft_without_integer stands (Nat.zero_le _) (fun _ =>
        ⟨[], untouched.stores.trans (append_nil _).symm, nofun⟩) (fun _ => rfl)).trans ?_
      constructor
      · rintro ⟨suppressed, none⟩
        exact ⟨suppressed, none, percent, fun is => absurd is bracket⟩
      · rintro ⟨suppressed, none, _, _⟩
        exact ⟨suppressed, none⟩

/-! ## Whole runs -/

/-- In every round of every run, an integer directive takes the item of its field and
stores the number exactly if the input is one it reads as `strtol` does; and that
number is what `strtol` returns for the item, where a `long` holds it. -/
theorem integer_item_iff {stream : σ} {input left : List UInt8} (before : Before stream input)
    (enough : input.length < fuel) {whole : List UInt8}
    (reached : Reached host fuel (fun _ _ => True) stream whole format scan)
    (here : Before scan.stream left)
    (begins : formatDirective format = some (spec, rest))
    (known : itemBase spec.conversion = some base) :
    (ItemStored host fuel format spec base scan left <->
      ReadsItem spec rest base (left.dropWhile isspace)) /\
    ∀ item errno, -2 ^ 31 <= (Subject.of base item).exact ->
      (Subject.of base item).exact < 2 ^ 31 ->
      (strtol (some item) base errno).result = (Subject.of base item).exact := by
  obtain ⟨left', here', bounded⟩ := reached.bounded host before enough
  rw [before_unique here' here] at bounded
  have enoughLeft := Nat.lt_of_le_of_lt bounded enough
  constructor
  · unfold ReadsItem
    by_cases upperX : spec.conversion = .upperX
    · have sixteen : base = 16 := by
        rw [upperX] at known
        exact (Option.some.inj known).symm
      subst sixteen
      rw [if_pos upperX]
      exact itemStored_upperX_iff host here enoughLeft begins upperX
    · rw [if_neg upperX, itemStored_branch_iff host here enoughLeft begins known upperX]
      exact fieldKept_iff known upperX (noBlank_limited)
  · intro item errno lower upper
    have valid : base = 0 \/ 2 <= base /\ base <= 36 := by
      cases conversion : spec.conversion <;> rw [conversion] at known <;> cases known <;> decide
    exact strtol_result_of_fits valid item errno lower upper

end Rounds

/-! ## Signs, prefixes and leading zeros -/

theorem integer_item_decimal :
    Before (bytesOf " -12x") (bytesOf " -12x") /\ (bytesOf " -12x").length < 10 /\
      formatDirective (bytesOf "%d") = some (⟨false, -1, .default, .d⟩, []) /\
      itemBase .d = some 10 /\
      ItemStored plainPlatform 10 (bytesOf "%d") ⟨false, -1, .default, .d⟩ 10
        (.initial (bytesOf " -12x")) (bytesOf " -12x") := by
  refine ⟨rfl, by decide, rfl, rfl, ?_⟩
  refine (integer_item_iff plainPlatform (rfl : Before (bytesOf " -12x") (bytesOf " -12x"))
    (by decide) .start rfl rfl rfl).1.mpr ?_
  exact (by decide +kernel : ¬ Lowers (unsigned 32) 10 0 [1, 2])

/-- Behind a sign, `%x` stops before the `x` of `0x`, and `%i` reads `010` in base ten. -/
theorem integer_item_behind_sign :
    ¬ ItemStored plainPlatform 10 (bytesOf "%x") ⟨false, -1, .default, .x⟩ 16
        (.initial (bytesOf "-0x10")) (bytesOf "-0x10") /\
      vfscanf plainPlatform 10 (bytesOf "-0x10") (bytesOf "%x") =
        .stop ⟨bytesOf "x10", 2, 1, 1, 1, [⟨0, 0, .integer 32 0⟩, ⟨0, 0, .integer 32 0⟩]⟩ /\
      (strtol (some (bytesOf "-0x10")) 16 0).result = -16 /\
      vfscanf plainPlatform 10 (bytesOf "-010") (bytesOf "%i") =
        .stop ⟨[], 4, 1, 1, 1, [⟨0, 0, .integer 32 0⟩, ⟨0, 0, .integer 32 (-10)⟩]⟩ /\
      (strtol (some (bytesOf "-010")) 0 0).result = -8 := by
  refine ⟨fun stored => ?_, rfl, rfl, rfl, rfl⟩
  have kept := (itemStored_branch_iff plainPlatform
    (rfl : Before (Scan.initial (bytesOf "-0x10")).stream (bytesOf "-0x10")) (by decide) rfl rfl
    (show ConversionType.x ≠ .upperX by decide)).mp stored
  exact not_fieldKept_hexadecimal (by decide) (by decide) kept

end Clib4.Stdio.Scanf
