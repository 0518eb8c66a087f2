import Clib4.Foundation.LongestMatch
import Clib4.Stdlib.StrtolExact

namespace Clib4.Stdlib

open Foundation List

/-!
# Where `strtol` and its siblings stop

The subject form of the language standard is a language here, and the end
pointer belongs behind the longest prefix of the string in it.  Two ways out of
the functions leave the end pointer at the start of the string instead: the one
taken when an overflow is seen, and the one taken when no digit follows `0x`,
where the zero alone is a number.
-/

/-! ## The subject form -/

def isDigit (base : Nat) (c : UInt8) : Bool :=
  match digitValue c with
  | none => false
  | some value => decide (value < base)

def Numeral (base : Nat) (text : List UInt8) : Prop :=
  text ≠ [] /\ ∀ c ∈ text, isDigit base c

def HexNumeral (text : List UInt8) : Prop :=
  ∃ x digits, (x = byteOf 'x' \/ x = byteOf 'X') /\
    text = byteOf '0' :: x :: digits /\ Numeral 16 digits

/-- What may follow the sign.  In base 0 a number is hexadecimal, octal or
decimal by the way it begins. -/
def UnsignedForm (base : Int) (text : List UInt8) : Prop :=
  if base = 0 then
    HexNumeral text \/ (Numeral 8 text /\ current text = byteOf '0') \/
      (Numeral 10 text /\ current text ≠ byteOf '0')
  else if base = 16 then HexNumeral text \/ Numeral 16 text
  else 1 <= base /\ base <= 36 /\ Numeral base.toNat text

def isSign (c : UInt8) : Bool := c == byteOf '-' || c == byteOf '+'

/-- White space, an optional sign, an optional prefix and digits of the base. -/
def SubjectForm (base : Int) (text : List UInt8) : Prop :=
  ∃ blanks body, text = blanks ++ body /\ (∀ c ∈ blanks, isspace c) /\
    Optionally isSign (UnsignedForm base) body

/-- The end pointer is behind the longest prefix of the subject form, and at the
start of the string when there is none. -/
def EndsBehindSubject (base : Int) (str stop : List UInt8) : Prop :=
  ∃ result, Matching (SubjectForm base) str result /\ stop = result.getD str

/-! ## Its longest prefix -/

section Form

variable {base : Nat}

theorem leadingDigits_length (str : List UInt8) :
    (leadingDigits base str).length = (str.takeWhile (isDigit base)).length := by
  induction str with
  | nil => rfl
  | cons c str ih =>
    rw [leadingDigits, takeWhile_cons, isDigit]
    cases digitValue c with
    | none => rfl
    | some value =>
      by_cases less : value < base
      · simp [less, ih]
      · simp [less]

theorem leadingDigits_nil_iff (str : List UInt8) :
    leadingDigits base str = [] <-> str.takeWhile (isDigit base) = [] := by
  rw [<- length_eq_zero_iff, leadingDigits_length, length_eq_zero_iff]

theorem drop_leadingDigits (str : List UInt8) :
    str.drop (leadingDigits base str).length = str.dropWhile (isDigit base) := by
  have parts : str.takeWhile (isDigit base) ++ str.dropWhile (isDigit base) = str :=
    takeWhile_append_dropWhile
  rw [leadingDigits_length]
  exact (congrArg (List.drop _) parts.symm).trans (drop_left' rfl)

theorem isDigit_eq_false_of_x {x : UInt8} (isX : x = byteOf 'x' \/ x = byteOf 'X')
    (small : base <= 33) : isDigit base x = false := by
  unfold isDigit
  rw [digitValue_of_x isX]
  exact decide_eq_false (by omega)

theorem matching_numeral (base : Nat) (str : List UInt8) : Matching (Numeral base) str
      (if leadingDigits base str = [] then none else some (str.dropWhile (isDigit base))) := by
  rw [if_congr (leadingDigits_nil_iff str) rfl rfl]
  exact matching_takeWhile (isDigit base) str

def BeginsHex (base : Nat) (str : List UInt8) : Prop :=
  HasHexPrefix base str /\ leadingDigits 16 str.tail.tail ≠ []

instance (base : Nat) (str : List UInt8) : Decidable (BeginsHex base str) :=
  inferInstanceAs (Decidable (_ /\ _))

/-- What is left of a string behind the number it begins with. -/
def behindNumber (base : Nat) (str : List UInt8) : Option (List UInt8) :=
  if BeginsHex base str then some (str.tail.tail.dropWhile (isDigit 16))
  else if leadingDigits (impliedBase base str) str = [] then none
  else some (str.dropWhile (isDigit (impliedBase base str)))

theorem matching_hexNumeral {str : List UInt8} (begins : BeginsHex base str) :
    Matching HexNumeral str (some (str.tail.tail.dropWhile (isDigit 16))) := by
  rcases begins with ⟨hex, some⟩
  rcases hex.split with ⟨x, rest, isX, rfl⟩
  have digits := matching_numeral 16 rest
  have isSome : leadingDigits 16 rest ≠ [] := some
  rw [if_neg isSome] at digits
  rcases digits with ⟨text, parts, mem, longest⟩
  refine ⟨byteOf '0' :: x :: text, ?_, ⟨x, text, isX, rfl, mem⟩, ?_⟩
  · exact congrArg (byteOf '0' :: x :: ·) parts
  · rintro other behind whole ⟨y, others, _, rfl, member'⟩
    cases whole
    exact longest others behind rfl member'

theorem numeral_short {str text behind : List UInt8} (hex : HasHexPrefix base str)
    {other : Nat} (small : other <= 33) (whole : text ++ behind = str)
    (mem : Numeral other text) :
    (str.tail.tail.dropWhile (isDigit 16)).length <= behind.length := by
  rcases hex.split with ⟨x, rest, isX, rfl⟩
  refine (dropWhile_suffix _).length_le.trans ?_
  match text, mem, whole with
  | [], mem, _ => exact absurd rfl mem.1
  | [_], _, whole =>
    cases whole
    exact Nat.le_succ _
  | _ :: second :: _, mem, whole =>
    cases whole
    have digit := mem.2 x (mem_cons_of_mem _ mem_cons_self)
    rw [isDigit_eq_false_of_x isX small] at digit
    cases digit

theorem HexNumeral.beginsHex {text behind str : List UInt8} (mem : HexNumeral text)
    (whole : text ++ behind = str) (bases : base = 0 \/ base = 16) : BeginsHex base str := by
  rcases mem with ⟨x, digits, isX, rfl, nonempty, all⟩
  subst whole
  refine ⟨⟨bases, rfl, isX⟩, fun empty => ?_⟩
  have matching := matching_numeral 16 (digits ++ behind)
  have nothing : leadingDigits 16 (digits ++ behind) = [] := empty
  rw [if_pos nothing] at matching
  exact matching digits behind rfl ⟨nonempty, all⟩

theorem current_append {text : List UInt8} (nonempty : text ≠ []) (behind : List UInt8) :
    current (text ++ behind) = current text := by
  cases text with
  | nil => exact absurd rfl nonempty
  | cons c text => rfl

theorem unsignedForm_iff_numeral {str text behind : List UInt8} (small : base <= 36)
    (plain : ¬ BeginsHex base str) (whole : text ++ behind = str) :
    Numeral (impliedBase base str) text <-> UnsignedForm base text := by
  have notHex : (base = 0 \/ base = 16) -> ¬ HexNumeral text :=
    fun bases mem => plain (mem.beginsHex whole bases)
  unfold UnsignedForm impliedBase
  by_cases zero : base = 0
  · subst zero
    have same : Numeral 8 text \/ Numeral 10 text -> current str = current text := by
      intro mem
      rw [<- whole]
      exact current_append (mem.elim And.left And.left) behind
    rw [if_pos rfl, if_pos Nat.cast_zero, or_iff_right (notHex (Or.inl rfl))]
    split_ifs with octal
    · constructor
      · exact fun mem => Or.inl ⟨mem, (same (Or.inl mem)).symm.trans octal⟩
      · rintro (mem | mem)
        · exact mem.1
        · exact absurd ((same (Or.inr mem.1)).symm.trans octal) mem.2
    · constructor
      · exact fun mem => Or.inr ⟨mem, fun begins =>
          octal ((same (Or.inr mem)).trans begins)⟩
      · rintro (mem | mem)
        · exact absurd ((same (Or.inl mem.1)).trans mem.2) octal
        · exact mem.1
  · rw [if_neg zero, if_neg (by omega)]
    by_cases sixteen : base = 16
    · subst sixteen
      rw [if_pos Nat.cast_ofNat, or_iff_right (notHex (Or.inr rfl))]
    · rw [if_neg (by omega)]
      exact ⟨fun mem => ⟨by omega, by omega, mem⟩, fun mem => mem.2.2⟩

theorem matching_unsignedForm (small : base <= 36) (str : List UInt8) :
    Matching (UnsignedForm base) str (behindNumber base str) := by
  unfold behindNumber
  by_cases begins : BeginsHex base str
  · rw [if_pos begins]
    have short {other : Nat} (few : other <= 33) {text behind : List UInt8}
        (whole : text ++ behind = str) (mem : Numeral other text) :=
      numeral_short begins.1 few whole mem
    rcases begins.1.1 with rfl | rfl
    · refine ((matching_hexNumeral begins).or ?_).congr fun text rest _ => Iff.rfl
      rintro text behind whole (mem | mem)
      all_goals exact short (by omega) whole mem.1
    · refine ((matching_hexNumeral begins).or ?_).congr fun text rest _ => Iff.rfl
      intro text behind whole mem
      exact short (by omega) whole mem
  · rw [if_neg begins]
    exact (matching_numeral (impliedBase base str) str).congr fun text rest whole =>
      unsignedForm_iff_numeral small begins whole

/-! ## Blanks and the sign -/

theorem current_unsignedForm {text : List UInt8} {base : Int} (mem : UnsignedForm base text) :
    ∃ first rest value, text = first :: rest /\ digitValue first = some value := by
  have numeral {other : Nat} (digits : Numeral other text) :
      ∃ first rest value, text = first :: rest /\ digitValue first = some value := by
    rcases digits with ⟨nonempty, all⟩
    cases text with
    | nil => exact absurd rfl nonempty
    | cons first rest =>
      have digit := all first mem_cons_self
      unfold isDigit at digit
      split at digit
      · cases digit
      · exact ⟨first, rest, _, rfl, by assumption⟩
  have hexNumeral (hex : HexNumeral text) :
      ∃ first rest value, text = first :: rest /\ digitValue first = some value := by
    rcases hex with ⟨x, digits, _, rfl, _⟩
    exact ⟨_, _, 0, rfl, by decide⟩
  unfold UnsignedForm at mem
  split_ifs at mem
  · exact mem.elim hexNumeral fun digits => digits.elim (numeral ∘ And.left) (numeral ∘ And.left)
  · exact mem.elim hexNumeral numeral
  · exact numeral mem.2.2

theorem outside_of_digitValue {c : UInt8} {value : Nat} (known : digitValue c = some value) :
    isspace c = false /\ isSign c = false := by
  have range : 48 <= c.toNat := by
    unfold digitValue at known
    split_ifs at known <;> omega
  have notSmall (other : UInt8) (small : other.toNat < 48) : c ≠ other := by
    rintro rfl
    omega
  have notBlank : ¬ c <= 13 := by
    exact Nat.not_le.mpr (Nat.lt_of_lt_of_le (by decide) range)
  constructor
  · simp [isspace, notBlank, notSmall 32 (by decide)]
  · simp [isSign, notSmall (byteOf '-') (by decide), notSmall (byteOf '+') (by decide)]

theorem beginsOutside_unsignedForm (base : Int) : BeginsOutside isSign (UnsignedForm base) := by
  intro text mem
  rcases current_unsignedForm mem with ⟨first, rest, value, rfl, known⟩
  exact ⟨first, rest, rfl, (outside_of_digitValue known).2⟩

theorem beginsOutside_signed (base : Int) :
    BeginsOutside isspace (Optionally isSign (UnsignedForm base)) := by
  rintro text (mem | ⟨first, body, sign, rfl, _⟩)
  · rcases current_unsignedForm mem with ⟨first, rest, value, rfl, known⟩
    exact ⟨first, rest, rfl, (outside_of_digitValue known).1⟩
  · refine ⟨first, body, rfl, ?_⟩
    rcases (Bool.or_eq_true _ _).mp sign with minus | plus
    · rw [eq_of_beq minus]
      decide
    · rw [eq_of_beq plus]
      decide

def unsignedPart (str : List UInt8) : List UInt8 := (readSign (skipBlanks str)).2

theorem matching_subjectForm (small : base <= 36) (str : List UInt8) :
    Matching (SubjectForm base) str (behindNumber base (unsignedPart str)) := by
  refine Matching.skip (beginsOutside_signed base) ?_
  rw [unsignedPart, skipBlanks_eq_dropWhile]
  cases str.dropWhile isspace with
  | nil =>
    refine (matching_unsignedForm small []).optionally_absent fun first rest split => ?_
    cases split
  | cons c rest =>
    have whole := matching_unsignedForm small
    unfold readSign
    rw [current, headD_cons]
    by_cases minus : c = byteOf '-'
    · rw [if_pos minus]
      exact (whole rest).optionally_present (beginsOutside_unsignedForm base) (by simp [isSign, minus])
    · rw [if_neg minus]
      by_cases plus : c = byteOf '+'
      · rw [if_pos plus]
        exact (whole rest).optionally_present (beginsOutside_unsignedForm base)
          (by simp [isSign, plus])
      · rw [if_neg plus]
        refine (whole (c :: rest)).optionally_absent fun first others split => ?_
        cases split
        simp [isSign, minus, plus]

theorem Subject.ofUnsigned_eq {negative : Bool} {str : List UInt8} :
    Subject.ofUnsigned negative base str =
      if BeginsHex base str then ⟨negative, 16, leadingDigits 16 str.tail.tail⟩
      else ⟨negative, impliedBase base str, leadingDigits (impliedBase base str) str⟩ := rfl

theorem Subject.of_eq_ofUnsigned (base : Nat) (str : List UInt8) : Subject.of base str =
      .ofUnsigned (readSign (skipBlanks str)).1 base (unsignedPart str) := by
  unfold Subject.of unsignedPart
  rw [skipBlanks_eq_dropWhile]
  cases str.dropWhile isspace with
  | nil => rfl
  | cons c rest =>
    unfold readSign
    rw [current, headD_cons]
    dsimp only
    split_ifs <;> rfl

end Form

/-! ## The end pointer -/

section Calls

variable {kind : Kind} {bound base : Nat}

theorem finish_stop (wraps : Wraps kind.wrap bound) (pos : 0 < bound) (small : base <= 36)
    {str digits : List UInt8} {negative : Bool} {errno : Nat} :
    (finish kind str negative errno (convertDigits kind base digits 0 0)).stop =
      if Lowers kind.wrap base 0 (leadingDigits base digits) \/ leadingDigits base digits = []
      then str else digits.dropWhile (isDigit base) := by
  have fixed : kind.wrap ((0 : Nat) : Int) = 0 := wraps.fits 0 pos
  have loop := convertDigits_spec wraps small digits 0 0
  rw [fixed, drop_leadingDigits, Nat.zero_add] at loop
  rw [loop]
  by_cases lowers : Lowers kind.wrap base 0 (leadingDigits base digits)
  · rw [if_pos lowers, if_pos (Or.inl lowers)]
    rfl
  · rw [if_neg lowers, finish]
    by_cases empty : leadingDigits base digits = []
    · rw [if_pos (length_eq_zero_iff.mpr empty), if_pos (Or.inr empty)]
    · rw [if_neg (fun zero => empty (length_eq_zero_iff.mp zero)),
        if_neg (not_or.mpr ⟨lowers, empty⟩)]
      cases negative <;> rfl

/-- A prefix `0x` without a hexadecimal digit behind it. -/
def BarePrefix (base : Nat) (str : List UInt8) : Prop :=
  HasHexPrefix base str /\ leadingDigits 16 str.tail.tail = []

variable {str : List UInt8} {number : Nat}

theorem convert_stop (wraps : Wraps kind.wrap bound) (pos : 0 < bound) {digits : List UInt8}
    (bounds : 1 <= number /\ number <= 36)
    (found : readBase base (unsignedPart str) = ((number : Int), digits)) {errno : Nat} :
    (convert kind (some str) base errno).stop =
      if Lowers kind.wrap number 0 (leadingDigits number digits) \/
        leadingDigits number digits = []
      then str else digits.dropWhile (isDigit number) := by
  unfold convert
  dsimp only
  unfold unsignedPart at found
  rw [if_neg (by omega), found, if_pos (by omega)]
  exact finish_stop wraps pos bounds.2

theorem endsBehindSubject_iff (small : base <= 36) (str stop : List UInt8) :
    EndsBehindSubject base str stop <-> stop = (behindNumber base (unsignedPart str)).getD str := by
  have matching := matching_subjectForm small str
  constructor
  · rintro ⟨result, found, rfl⟩
    rw [found.unique matching]
  · intro same
    exact ⟨_, matching, same⟩

theorem behindNumber_ne (small : base <= 36) {str rest : List UInt8}
    (found : behindNumber base (unsignedPart str) = some rest) : str ≠ rest := by
  have matching := matching_subjectForm small str
  rw [found] at matching
  rcases matching with ⟨text, split, ⟨blanks, body, rfl, _, form⟩, _⟩
  rcases beginsOutside_signed base body form with ⟨first, tail, rfl, _⟩
  intro same
  have lengths := congrArg List.length (split.trans same)
  rw [length_append, length_append, length_cons] at lengths
  omega

theorem stop_eq_getD_iff {digits : List Nat} {str rest : List UInt8}
    (differs : digits ≠ [] -> str ≠ rest) :
    (if Lowers kind.wrap number 0 digits \/ digits = [] then str else rest) =
        (if digits = [] then none else some rest).getD str <->
      ¬ Lowers kind.wrap number 0 digits := by
  by_cases empty : digits = []
  · subst empty
    exact iff_of_true rfl id
  · rw [if_neg empty]
    by_cases lowers : Lowers kind.wrap number 0 digits
    · rw [if_pos (Or.inl lowers)]
      exact iff_of_false (differs empty) (not_not_intro lowers)
    · rw [if_neg (not_or.mpr ⟨lowers, empty⟩)]
      exact iff_of_true rfl lowers

/-- The end pointer is right exactly when no overflow is seen and digits follow
a prefix `0x`. -/
theorem convert_ends_iff (wraps : Wraps kind.wrap bound) (pos : 0 < bound)
    (small : base <= 36) (str : List UInt8) (errno : Nat) :
    EndsBehindSubject base str (convert kind (some str) base errno).stop <->
      ¬ (Subject.of base str).Detected kind.wrap /\ ¬ BarePrefix base (unsignedPart str) := by
  rw [endsBehindSubject_iff small]
  by_cases begins : BeginsHex base (unsignedPart str)
  · have number : behindNumber base (unsignedPart str) =
        if leadingDigits 16 (unsignedPart str).tail.tail = [] then none
        else some ((unsignedPart str).tail.tail.dropWhile (isDigit 16)) :=
      (if_pos begins).trans (if_neg begins.2).symm
    rw [convert_stop wraps pos (by omega) (readBase_hexadecimal begins.1), number,
      Subject.of_eq_ofUnsigned, Subject.ofUnsigned_eq, if_pos begins, and_iff_left fun bare =>
      begins.2 bare.2]
    exact stop_eq_getD_iff fun some =>
      behindNumber_ne small (number.trans (if_neg some))
  · have number : behindNumber base (unsignedPart str) =
        if leadingDigits (impliedBase base (unsignedPart str)) (unsignedPart str) = [] then none
        else some ((unsignedPart str).dropWhile
          (isDigit (impliedBase base (unsignedPart str)))) := if_neg begins
    by_cases hex : HasHexPrefix base (unsignedPart str)
    · -- the zero of a bare prefix is a number, and the call stops at the start
      have empty := by_contra fun some => begins ⟨hex, some⟩
      rw [leadingDigits_hexadecimal hex] at number
      rw [convert_stop wraps pos (by omega) (readBase_hexadecimal hex),
        if_pos (Or.inr empty), number]
      exact iff_of_false (behindNumber_ne small number) fun both => both.2 ⟨hex, empty⟩
    · rw [convert_stop wraps pos (impliedBase_bounds small) (readBase_plain hex),
        number, Subject.of_eq_ofUnsigned, Subject.ofUnsigned_eq, if_neg begins, and_iff_left fun
        bare => hex bare.1]
      exact stop_eq_getD_iff fun some =>
        behindNumber_ne small (number.trans (if_neg some))

theorem readBase_large {base : Int} (large : 36 < base) {str : List UInt8} :
    readBase base str = (base, str) := by
  have plain : ¬ ((base = 0 \/ base = 16) /\ current str = byteOf '0' /\
      (current str.tail = byteOf 'x' \/ current str.tail = byteOf 'X')) :=
    fun all => by have := all.1; omega
  unfold readBase
  dsimp only
  rw [if_neg plain]
  exact if_neg (by omega)

theorem convert_ends_invalid {base : Int} (invalid : base < 0 \/ 36 < base) (str : List UInt8)
    (errno : Nat) : EndsBehindSubject base str (convert kind (some str) base errno).stop := by
  refine ⟨none, ?_, ?_⟩
  · rintro text behind _ ⟨blanks, body, _, _, form⟩
    have nothing : ∀ text, ¬ UnsignedForm base text := by
      intro text mem
      unfold UnsignedForm at mem
      rw [if_neg (by omega), if_neg (by omega)] at mem
      omega
    rcases form with plain | ⟨_, digits, _, _, mem⟩
    · exact nothing body plain
    · exact nothing digits mem
  · unfold convert
    dsimp only
    split_ifs with negative valid
    · rfl
    · rw [readBase_large (by omega)] at valid
      omega
    · rfl

end Calls

/-- What the end pointer of one function needs: in an existing base no overflow
is seen and digits follow a prefix `0x`. -/
def EndFound (wrap : Int -> Int) (base : Int) (str : List UInt8) : Prop :=
  0 <= base /\ base <= 36 -> ¬ (Subject.of base.toNat str).Detected wrap /\
    ¬ BarePrefix base.toNat (unsignedPart str)

theorem convert_endFound_iff (kind : Kind) {bound : Nat} (wraps : Wraps kind.wrap bound)
    (pos : 0 < bound) (base : Int) (str : List UInt8) (errno : Nat) :
    EndsBehindSubject base str (convert kind (some str) base errno).stop <->
      EndFound kind.wrap base str := by
  by_cases valid : 0 <= base /\ base <= 36
  · have number := Int.toNat_of_nonneg valid.1
    have small : base.toNat <= 36 := by omega
    have ends := convert_ends_iff wraps pos small str errno
    rw [number] at ends
    rw [ends]
    exact ⟨fun both _ => both, fun found => found valid⟩
  · exact iff_of_true (convert_ends_invalid (by omega) str errno)
      fun existing => absurd existing valid

/-- For every string and every base, the end pointer of each function is behind
the longest prefix of the subject form, or at the start of the string when there
is none, exactly when the function sees no overflow and no prefix `0x` stands
without a hexadecimal digit. -/
theorem strto_ends_iff (str : List UInt8) (base : Int) (errno : Nat) :
    (EndsBehindSubject base str (strtol (some str) base errno).stop <->
      EndFound (signed 32) base str) /\
    (EndsBehindSubject base str (strtoul (some str) base errno).stop <->
      EndFound (unsigned 32) base str) /\
    (EndsBehindSubject base str (strtoll (some str) base errno).stop <->
      EndFound (signed 64) base str) /\
    (EndsBehindSubject base str (strtoull (some str) base errno).stop <->
      EndFound (unsigned 64) base str) := by
  have pos : ∀ w, 0 < 2 ^ w := fun w => Nat.two_pow_pos w
  exact ⟨convert_endFound_iff .long (signed_wraps 31) (pos 31) base str errno,
    convert_endFound_iff .unsignedLong (unsigned_wraps 32) (pos 32) base str errno,
    convert_endFound_iff .longLong (signed_wraps 63) (pos 63) base str errno,
    convert_endFound_iff .unsignedLongLong (unsigned_wraps 64) (pos 64) base str
      errno⟩

/-- In `0xg` the zero is a number, and in `2147483648` all digits are one; `strtol`
stops at the start of both. -/
theorem strtol_stops_at_start :
    ¬ EndsBehindSubject 16 (bytesOf "0xg") (strtol (some (bytesOf "0xg")) 16 0).stop /\
      (strtol (some (bytesOf "0xg")) 16 0).stop = bytesOf "0xg" /\
    ¬ EndsBehindSubject 10 (bytesOf "2147483648")
        (strtol (some (bytesOf "2147483648")) 10 0).stop /\
      (strtol (some (bytesOf "2147483648")) 10 0).stop = bytesOf "2147483648" := by
  have needed (base : Int) (str : List UInt8) :=
    convert_endFound_iff .long (signed_wraps 31) (by decide) base str 0
  refine ⟨fun ends => ?_, by decide +kernel, fun ends => ?_, by decide +kernel⟩
  · have notBare := ((needed 16 _).mp ends ⟨by decide, by decide⟩).2
    exact notBare ⟨by decide +kernel, by decide +kernel⟩
  · have unseen := ((needed 10 _).mp ends ⟨by decide, by decide⟩).1
    have seen : Lowers (signed 32) 10 0 [2, 1, 4, 7, 4, 8, 3, 6, 4, 8] := by decide +kernel
    exact unseen seen

end Clib4.Stdlib
