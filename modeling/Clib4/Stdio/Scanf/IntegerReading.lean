import Clib4.Stdio.Scanf.Counting
import Clib4.Stdlib.NumberPrefix

namespace Clib4.Stdio.Scanf

open Foundation Stdlib List
open TextStream (Before)

/-!
# What an integer directive reads

The integer branch reads a sign or a leading zero, with that maybe the prefix
`0x`, and then digits, until one of them is taken for an overflow.  The result is
written here as a function of the text inside the field.
-/

/-! ## Digits -/

section Digits

variable {wrap : Int -> Int} {radix : Nat}

/-- The digits before the first one that is taken for an overflow. -/
def steadyDigits (wrap : Int -> Int) (radix : Nat) : Nat -> List Nat -> List Nat
  | _, [] => []
  | value, digit :: digits =>
    if wrap ((radix * value + digit : Nat) : Int) < wrap (value : Int) then []
    else digit :: steadyDigits wrap radix (radix * value + digit) digits

theorem steadyDigits_isPrefix (value : Nat) (digits : List Nat) :
    steadyDigits wrap radix value digits <+: digits := by
  induction digits generalizing value with
  | nil => exact prefix_refl _
  | cons digit digits ih =>
    rw [steadyDigits]
    split_ifs
    · exact nil_prefix
    · exact cons_prefix_cons.mpr ⟨rfl, ih _⟩

theorem steadyDigits_eq_iff (value : Nat) (digits : List Nat) :
    steadyDigits wrap radix value digits = digits <-> ¬ Lowers wrap radix value digits := by
  induction digits generalizing value with
  | nil => exact iff_of_true rfl id
  | cons digit digits ih =>
    rw [steadyDigits, Lowers]
    split_ifs with lower
    · exact iff_of_false nofun fun steady => steady (Or.inl lower)
    · rw [cons_inj_right, ih, or_iff_right lower]

theorem digitIn_cases {c : UInt8} (small : radix <= 16) :
    (∃ value, value < radix /\ digitValue c = some value /\ digitIn radix c = value) \/
    (radix <= digitIn radix c /\
      (digitValue c = none \/ ∃ value, digitValue c = some value /\ radix <= value)) := by
  have decimal : (byteOf '0' <= c /\ c <= byteOf '9') <-> (48 <= c.toNat /\ c.toNat <= 57) := by
    rfl
  have lower : (byteOf 'a' <= c /\ c <= byteOf 'f') <-> (97 <= c.toNat /\ c.toNat <= 102) := by
    rfl
  have upper : (byteOf 'A' <= c /\ c <= byteOf 'F') <-> (65 <= c.toNat /\ c.toNat <= 70) := by
    rfl
  unfold digitIn digitValue
  simp only [decimal, lower, upper]
  split_ifs <;> simp <;> omega

theorem leadingDigits_cons (c : UInt8) (rest : List UInt8) (small : radix <= 16) :
    leadingDigits radix (c :: rest) =
      if digitIn radix c < radix then digitIn radix c :: leadingDigits radix rest else [] := by
  rw [leadingDigits]
  rcases digitIn_cases small with ⟨value, less, known, same⟩ | ⟨large, unknown | ⟨value, known, more⟩⟩
  · rw [known, same]
  · rw [unknown, if_neg (by omega)]
  · rw [known, if_neg (by omega)]
    exact if_neg (by omega)

theorem overflowBits_le (size : ParameterSize) : size.overflowBits <= 64 := by
  cases size <;> decide

theorem unsigned_signed {bits : Nat} (small : bits <= 64) (value : Int) :
    unsigned bits (signed 64 value) = unsigned bits value :=
  unsigned_congr ((signed_modEq 64 value).of_dvd (pow_dvd_pow 2 small))

theorem readText_nextDigit (size : ParameterSize) (small : radix <= 16) (text : List UInt8)
    (value : Nat) :
    (readText (nextDigit radix size) (-1) (signed 64 value) text).value =
        signed 64 (numeralFrom radix value (steadyDigits (unsigned size.overflowBits) radix value
          (leadingDigits radix text)) : Nat) /\
      (readText (nextDigit radix size) (-1) (signed 64 value) text).count =
        (steadyDigits (unsigned size.overflowBits) radix value
          (leadingDigits radix text)).length := by
  induction text generalizing value with
  | nil => exact ⟨rfl, rfl⟩
  | cons c rest ih =>
    rw [leadingDigits_cons c rest small]
    by_cases digit : digitIn radix c < radix
    · have next : signed 64 (radix * signed 64 value + digitIn radix c) =
          signed 64 ((radix * value + digitIn radix c : Nat) : Int) := by
        rw [(signed_wraps 63).step]
        push_cast
        rfl
      rw [if_pos digit, steadyDigits]
      by_cases lower : unsigned size.overflowBits ((radix * value + digitIn radix c : Nat) : Int) <
          unsigned size.overflowBits (value : Int)
      · have verdict : nextDigit radix size (signed 64 value) c = .refuse := by
          unfold nextDigit
          dsimp only
          rw [if_neg (not_le.mpr digit), next, unsigned_signed (overflowBits_le size),
            unsigned_signed (overflowBits_le size), if_pos lower]
        rw [if_pos lower, readText_refuse (by decide) verdict]
        exact ⟨rfl, rfl⟩
      · have verdict : nextDigit radix size (signed 64 value) c =
            .take (signed 64 ((radix * value + digitIn radix c : Nat) : Int)) := by
          unfold nextDigit
          dsimp only
          rw [if_neg (not_le.mpr digit), next, unsigned_signed (overflowBits_le size),
            unsigned_signed (overflowBits_le size), if_neg lower]
        obtain ⟨sameValue, sameCount⟩ := ih (radix * value + digitIn radix c)
        rw [if_neg lower, readText_take (by decide) verdict]
        exact ⟨sameValue, congrArg (· + 1) sameCount⟩
    · have verdict : nextDigit radix size (signed 64 value) c = .refuse :=
        if_pos (not_lt.mp digit)
      rw [if_neg digit, readText_refuse (by decide) verdict]
      exact ⟨rfl, rfl⟩

end Digits

/-! ## The opening -/

/-- What the branch makes of the beginning of a field: the sign, the base if it is
known, whether a zero was processed, and the number of characters consumed. -/
structure Start where
  negative : Bool
  radix : Nat
  processed : Nat
  count : Nat

def startOf (conversion : ConversionType) (field : List UInt8) : Start :=
  if current field = byteOf '-' then ⟨true, radixOf conversion, 0, 1⟩
  else if current field = byteOf '+' then ⟨false, radixOf conversion, 0, 1⟩
  else if current field = byteOf '0' then
    if radixOf conversion = 0 then
      if isHexMark (current field.tail) then ⟨false, 16, 0, 2⟩
      else if conversion = .i /\ isDecimal (current field.tail) then ⟨false, 8, 0, 1⟩
      else ⟨false, 0, 1, 1⟩
    else ⟨false, radixOf conversion, 1, 1⟩
  else ⟨false, radixOf conversion, 0, 0⟩

def Start.base (start : Start) (conversion : ConversionType) : Nat :=
  if start.radix = 0 then (if conversion = .x then 16 else 10) else start.radix

section Opening

variable {σ ρ α : Type} [TextStream σ UInt8] {field : Field σ ρ} {text : List UInt8}

theorem look_inside (before : Before field.scan.stream text) (test : α -> UInt8 -> Verdict α)
    {value : α} {found : Reading (List UInt8) UInt8 α}
    (finds : lookText test (-1) value (limited field.width text) = found) :
    ∃ got, field.look test value = .ok (got, field.behind got) /\
      got.value = found.value /\ got.refused = found.refused /\
      (got.ending = .taken <-> found.ending = .taken) /\
      Before (field.behind got).scan.stream (text.drop found.count) /\
      limited (field.behind got).width (text.drop found.count) = found.stream := by
  obtain ⟨got, looked, agrees⟩ := look_eq before test value
  have inside := lookText_inside test field.width value text
  have splits := lookText_splits test field.width value text
  rw [finds] at inside
  have stands := agrees.before
  have rest := inside.rest
  rw [splits.drop, inside.count] at stands rest
  refine ⟨got, looked, agrees.value.trans inside.value, agrees.refused.trans inside.refused,
    ?_, stands, ?_⟩
  · rw [agrees.ending]
    exact inside.taken
  · show limited got.width _ = _
    rw [agrees.width]
    exact rest

/-- The field behind the opening. -/
structure Opened (field field' : Field σ ρ) (text : List UInt8) (start : Start) : Prop where
  before : Before field'.scan.stream (text.drop start.count)
  rest : limited field'.width (text.drop start.count) = (limited field.width text).drop start.count
  processed : field'.processed = field.processed + start.processed
  untouched : Untouched field.scan field'.scan

section

variable (before : Before field.scan.stream text) (conversion : ConversionType)
include before

theorem readOpening_plain {found : Reading (List UInt8) UInt8 Opening}
    (finds : lookText openingOf (-1) .nothing (limited field.width text) = found)
    (noZero : found.value ≠ .zero) :
    ∃ field', readOpening conversion field =
        .ok (decide (found.value = .minus), radixOf conversion, field') /\
      Opened field field' text ⟨decide (found.value = .minus), radixOf conversion, 0,
        found.count⟩ := by
  obtain ⟨got, looked, value, _, _, stands, rest⟩ := look_inside before openingOf finds
  have splits := lookText_splits openingOf (-1) .nothing (limited field.width text)
  rw [finds] at splits
  refine ⟨field.behind got, ?_, stands, rest.trans splits.drop, rfl, rfl, rfl, rfl, rfl⟩
  unfold readOpening
  rw [looked]
  show (if got.value = .zero then _ else _) = _
  rw [value, if_neg noZero]
  rfl

theorem readOpening_zero {rest : List UInt8}
    (begins : limited field.width text = byteOf '0' :: rest) :
    ∃ field', readOpening conversion field =
        .ok ((startOf conversion (byteOf '0' :: rest)).negative,
          (startOf conversion (byteOf '0' :: rest)).radix, field') /\
      Opened field field' text (startOf conversion (byteOf '0' :: rest)) := by
  have finds : lookText openingOf (-1) .nothing (limited field.width text) =
      ⟨.taken, .zero, 1, -1, none, rest⟩ := by
    rw [begins]
    rfl
  obtain ⟨first, looked, value, _, _, stands, inside⟩ :=
    look_inside before openingOf finds
  dsimp only at value stands inside
  have opening : readOpening conversion field =
      if radixOf conversion = 0 /\ (field.behind first).width ≠ 0 then
        (field.behind first).look (having isHexMark) () >>= fun second =>
          if second.1.ending = .taken then .ok (false, 16, second.2)
          else if conversion = .i /\ second.1.refused.any isDecimal then
            .ok (false, 8, second.2)
          else .ok (false, radixOf conversion, second.2.process 1)
      else .ok (false, radixOf conversion, (field.behind first).process 1) := by
    unfold readOpening
    rw [looked]
    show (if first.value = .zero then _ else _) = _
    rw [value, if_pos rfl]
    rfl
  have start : startOf conversion (byteOf '0' :: rest) =
      if radixOf conversion = 0 then
        if isHexMark (current rest) then ⟨false, 16, 0, 2⟩
        else if conversion = .i /\ isDecimal (current rest) then ⟨false, 8, 0, 1⟩
        else ⟨false, 0, 1, 1⟩
      else ⟨false, radixOf conversion, 1, 1⟩ := rfl
  have whole : (limited field.width text).drop 1 = rest := by
    rw [begins]
    rfl
  rw [opening, start]
  by_cases open' : radixOf conversion = 0
  · rw [if_pos open']
    by_cases full : (field.behind first).width = 0
    · -- the field ends behind the zero
      have ended : rest = [] := by
        rw [<- inside, full]
        exact limited_zero _
      subst ended
      rw [if_neg fun both => both.2 full, if_neg (by decide), if_neg fun both =>
        absurd both.2 (by decide)]
      refine ⟨(field.behind first).process 1, ?_, stands, inside.trans whole.symm, rfl, rfl, rfl,
        rfl, rfl⟩
      rw [open']
    · rw [if_pos ⟨open', full⟩]
      obtain ⟨second, looked', _, refused, taken, stands', inside'⟩ :=
        look_inside stands (having isHexMark) rfl
      rw [inside] at refused taken stands' inside'
      rw [looked']
      show ∃ field', (if second.ending = .taken then _ else _) = _ /\ _
      by_cases mark : isHexMark (current rest)
      · cases rest with
        | nil => exact absurd mark (by decide)
        | cons d rest =>
          have verdict : having isHexMark () d = .take () := if_pos mark
          rw [lookText_take (by decide) verdict] at taken stands' inside'
          rw [drop_drop] at stands' inside'
          rw [if_pos (taken.mpr rfl), if_pos mark]
          refine ⟨(field.behind first).behind second, rfl, stands', inside'.trans ?_, rfl, rfl,
            rfl, rfl, rfl⟩
          rw [begins]
          rfl
      · -- the field ends, or a character is refused that may be a digit
        obtain ⟨ending, other, finds'⟩ : ∃ ending, ending ≠ .taken /\
            lookText (having isHexMark) (-1) () rest = ⟨ending, (), 0, -1, rest.head?, rest⟩ := by
          cases rest with
          | nil => exact ⟨.ended, nofun, rfl⟩
          | cons d rest => exact ⟨.refused, nofun, lookText_refuse (by decide) (if_neg mark) rest⟩
        rw [finds'] at refused taken stands' inside'
        have sameDigit : second.refused.any isDecimal = isDecimal (current rest) := by
          rw [refused]
          cases rest <;> rfl
        rw [if_neg (mt taken.mp other), if_neg mark, sameDigit]
        split_ifs with digit
        · exact ⟨(field.behind first).behind second, rfl, stands', inside'.trans whole.symm,
            rfl, rfl, rfl, rfl, rfl⟩
        · rw [open']
          exact ⟨((field.behind first).behind second).process 1, rfl, stands',
            inside'.trans whole.symm, rfl, rfl, rfl, rfl, rfl⟩
  · rw [if_neg open', if_neg fun both => open' both.1]
    exact ⟨(field.behind first).process 1, rfl, stands, inside.trans whole.symm, rfl, rfl, rfl,
      rfl, rfl⟩

theorem readOpening_eq : ∃ field', readOpening conversion field =
        .ok ((startOf conversion (limited field.width text)).negative,
          (startOf conversion (limited field.width text)).radix, field') /\
      Opened field field' text (startOf conversion (limited field.width text)) := by
  have plain (found : Reading (List UInt8) UInt8 Opening) :=
    @readOpening_plain _ _ _ field text before conversion found
  cases begins : limited field.width text with
  | nil =>
    rw [begins] at plain
    exact plain ⟨.ended, .nothing, 0, -1, none, []⟩ rfl (by simp)
  | cons c rest =>
    by_cases zero : c = byteOf '0'
    · rw [zero] at begins ⊢
      exact readOpening_zero before conversion begins
    · rw [begins] at plain
      by_cases minus : c = byteOf '-'
      · subst minus
        exact plain ⟨.taken, .minus, 1, -1, none, rest⟩ rfl (by simp)
      · by_cases plus : c = byteOf '+'
        · subst plus
          exact plain ⟨.taken, .plus, 1, -1, none, rest⟩ rfl (by simp)
        · have verdict : openingOf .nothing c = .refuse := by
            unfold openingOf
            rw [if_neg minus, if_neg plus, if_neg zero]
          have start : startOf conversion (c :: rest) = ⟨false, radixOf conversion, 0, 0⟩ := by
            unfold startOf
            rw [current, headD_cons, if_neg minus, if_neg plus, if_neg zero]
          rw [start]
          exact plain ⟨.refused, .nothing, 0, -1, some c, c :: rest⟩
            (lookText_refuse (by decide) verdict rest) (by simp)

end

end Opening

/-! ## The whole branch -/

def integerDigits (spec : Directive) (field : List UInt8) : List Nat :=
  let start := startOf spec.conversion field
  let radix := start.base spec.conversion
  steadyDigits (unsigned spec.size.overflowBits) radix 0
    (leadingDigits radix (field.drop start.count))

def integerCount (spec : Directive) (field : List UInt8) : Nat :=
  (startOf spec.conversion field).count + (integerDigits spec field).length

/-- The number the branch stores, before it is cut to the size of the parameter. -/
def integerSum (spec : Directive) (field : List UInt8) : Int :=
  let start := startOf spec.conversion field
  let sum : Int :=
    numeralFrom (start.base spec.conversion) 0 (integerDigits spec field)
  if start.negative then -sum else sum

section Branch

variable {σ ρ : Type} [TextStream σ UInt8] {fuel : Nat} {text : List UInt8}

theorem radixOf_le (conversion : ConversionType) : radixOf conversion <= 16 := by
  cases conversion <;> decide

theorem Start.base_le (conversion : ConversionType) (field : List UInt8) :
    (startOf conversion field).base conversion <= 16 := by
  have radix : (startOf conversion field).radix <= 16 := by
    have known := radixOf_le conversion
    unfold startOf
    split_ifs <;> first | exact known | decide
  unfold Start.base
  split_ifs
  · exact Nat.le_refl _
  · decide
  · exact radix

variable {size : ParameterSize}

theorem signed_bits_sum {negative : Bool} {sum : Int} :
    signed size.bits (if negative then signed 64 (-signed 64 sum) else signed 64 sum) =
      signed size.bits (if negative then -sum else sum) := by
  have divides : (2 : Int) ^ size.bits ∣ 2 ^ 64 := pow_dvd_pow 2 (by cases size <;> decide)
  have inner := signed_modEq 64 sum
  cases negative with
  | false => exact signed_congr (inner.of_dvd divides)
  | true => exact signed_congr (((signed_modEq 64 _).trans inner.neg).of_dvd divides)

/-- What an integer directive leaves: the stream stands behind the characters that
were consumed, and the last store is the number. -/
structure IntegerLeft (spec : Directive) (scan : Scan σ ρ) (text : List UInt8)
    (count : Nat) (value : Int) (after : Scan σ ρ) : Prop where
  before : Before after.stream (text.drop count)
  stored : spec.suppressed = false -> ∃ earlier, after.stores =
    scan.stores ++ earlier ++ [⟨scan.params, 0,
      .integer spec.size.bits (signed spec.size.bits value)⟩]

theorem read_digits {field : Field σ ρ} (before : Before field.scan.stream text)
    (enough : text.length < fuel) {radix : Nat} (small : radix <= 16) (size : ParameterSize)
    {inside : List UInt8} (rest : limited field.width text = inside) {digits : List Nat}
    (known : steadyDigits (unsigned size.overflowBits) radix 0 (leadingDigits radix inside) =
      digits) :
    ∃ got, field.read fuel (nextDigit radix size) 0 =
        .ok (got, field.behind got) /\
      got.value = signed 64 (numeralFrom radix 0 digits : Nat) /\
      got.count = digits.length /\ Before got.stream (text.drop digits.length) := by
  obtain ⟨got, read, agrees⟩ := read_eq before enough (nextDigit radix size) 0
  have found := readText_inside (nextDigit radix size) field.width 0 text
  have splits := readText_splits (nextDigit radix size) field.width 0 text
  have loop := readText_nextDigit size small inside 0
  have zero : signed 64 ((0 : Nat) : Int) = 0 := (signed_wraps 63).fits 0 (by decide)
  rw [zero, known] at loop
  rw [rest, loop.1, loop.2] at found
  refine ⟨got, read, agrees.value.trans found.1, agrees.count.trans found.2, ?_⟩
  have stands := agrees.before
  rw [splits.drop, found.2] at stands
  exact stands

/-- The scan in which the number is read: its parameter has been set to zero. -/
def prepareInteger (spec : Directive) (scan : Scan σ ρ) : Scan σ ρ :=
  (scan.takeParameter spec.suppressed).store spec.suppressed
    (integerStores scan.params spec.size 0)

omit [TextStream σ UInt8] in
theorem prepareInteger_stores {spec : Directive} (unsuppressed : spec.suppressed = false)
    (scan : Scan σ ρ) : (prepareInteger spec scan).stores =
      scan.stores ++ integerStores scan.params spec.size 0 := by
  unfold prepareInteger
  rw [unsuppressed]
  rfl

/-- The number is stored where a digit was processed; otherwise it is zero, which is
what the parameter holds. -/
theorem convertInteger_leaves {scan : Scan σ ρ} (before : Before scan.stream text)
    (enough : text.length < fuel) (spec : Directive) :
    Leaves (IntegerLeft spec scan text
        (integerCount spec (limited spec.width text))
        (integerSum spec (limited spec.width text))) id
      (convertInteger fuel spec scan) := by
  set inside := limited spec.width text
  have start : Before ((prepareInteger spec scan).field spec.width).scan.stream text := by
    show Before (prepareInteger spec scan).stream text
    unfold prepareInteger Scan.store Scan.takeParameter
    split <;> exact before
  obtain ⟨field, opening, opened⟩ := readOpening_eq start spec.conversion
  obtain ⟨stands, rest, processed, untouched⟩ := opened
  have enoughLeft : (text.drop (startOf spec.conversion inside).count).length < fuel := by
    rw [length_drop]
    omega
  obtain ⟨got, read, value, count, stands'⟩ := read_digits stands enoughLeft
    (Start.base_le spec.conversion inside) spec.size rest rfl
  rw [drop_drop] at stands'
  -- what is left where no digit was processed
  have unread (none : ((field.behind got).process got.count).processed = 0) :
      IntegerLeft spec scan text (integerCount spec inside)
        (integerSum spec inside) (field.behind got).scan := by
    refine ⟨stands', fun unsuppressed => ⟨[], ?_⟩⟩
    have noDigits : integerDigits spec inside = [] := by
      have zero : field.processed + got.count = 0 := none
      exact eq_nil_of_length_eq_zero (count.symm.trans (by omega))
    have sum : integerSum spec inside = 0 := by
      unfold integerSum
      rw [noDigits]
      exact ite_self 0
    rw [sum, append_nil]
    exact untouched.stores.trans (prepareInteger_stores unsuppressed scan)
  have branch : convertInteger fuel spec scan =
      if ((field.behind got).process got.count).inputFailure got then
        .error (.out (field.behind got).scan)
      else if ((field.behind got).process got.count).processed > 0 then
        .ok (((field.behind got).scan.store spec.suppressed
          (integerStores scan.params spec.size
            (if (startOf spec.conversion inside).negative then signed 64 (-got.value)
              else got.value))).succeed spec.suppressed)
      else .ok (field.behind got).scan := by
    show (readOpening spec.conversion
      ((prepareInteger spec scan).field spec.width) >>= _) = _
    rw [opening]
    show (field.read fuel (nextDigit ((startOf spec.conversion inside).base
      spec.conversion) spec.size) 0 >>= _) = _
    rw [read]
    rfl
  rw [branch]
  by_cases failure : ((field.behind got).process got.count).inputFailure got
  · rw [if_pos failure]
    exact unread failure.2.1
  rw [if_neg failure]
  by_cases some : ((field.behind got).process got.count).processed > 0
  · rw [if_pos some]
    refine ⟨?_, fun unsuppressed => ⟨integerStores scan.params spec.size 0, ?_⟩⟩
    · have same (stores : List (Store ρ)) :
          ((field.behind got).scan.store spec.suppressed stores).stream =
            got.stream := by
        unfold Scan.store
        split <;> rfl
      show Before ((field.behind got).scan.store spec.suppressed _).stream _
      rw [same]
      exact stands'
    · rw [unsuppressed, value]
      show field.scan.stores ++ integerStores scan.params spec.size _ = _
      rw [untouched.stores]
      show (prepareInteger spec scan).stores ++ _ = _
      rw [prepareInteger_stores unsuppressed]
      unfold integerStores
      rw [signed_bits_sum]
      rfl
  · rw [if_neg some]
    exact unread (Nat.eq_zero_of_not_pos some)

end Branch

end Clib4.Stdio.Scanf
