import Clib4.Stdlib.Strtol

namespace Clib4.Stdio.Scanf

open Foundation Stdlib

/-!
# The directives of `scanf`

`vfscanf.c`, the part of its loop that takes a directive off the format.  The
format is given without its `NUL`, and reading past its end yields 0.  A
conversion character that is not known does not end the scan: the format goes on
with that character, as if the part before it had not been there.
-/

/-- `parameter_size`. -/
inductive ParameterSize
  | byte | long | short | sizeT | ptrdiffT | longLong | longDouble | intmaxT | default
  deriving DecidableEq, Repr

/-- `conversion_type`; `upperX` is `X`, `percent` is `%` and `scanset` is `[`. -/
inductive ConversionType
  | c | f | d | i | o | u | x | upperX | s | n | percent | scanset
  deriving DecidableEq, Repr

/-- A directive; a negative width is no limit. -/
structure Directive where
  suppressed : Bool
  width : Int
  size : ParameterSize
  conversion : ConversionType
  deriving DecidableEq, Repr

/-- What stands behind a `%`: the end of the format, something unknown with which
the format goes on, or a directive and what follows it. -/
inductive Parsed
  | ended
  | unknown (format : List UInt8)
  | directive (spec : Directive) (format : List UInt8)
  deriving DecidableEq, Repr

def isDecimal (c : UInt8) : Bool := byteOf '0' <= c && c <= byteOf '9'

/-- The field width, up to a digit with which the sum gets smaller. -/
def readWidth : List UInt8 -> Int -> Int × List UInt8
  | [], sum => (sum, [])
  | c :: format, sum =>
    if isDecimal c then
      let nextSum := signed 32 (10 * sum + (c.toNat - 48))
      if nextSum < sum then (sum, c :: format) else readWidth format nextSum
    else (sum, c :: format)

def readSuppression (format : List UInt8) : Bool × List UInt8 :=
  if current format = byteOf '*' then (true, format.tail) else (false, format)

def readFieldWidth (format : List UInt8) : Option (Int × List UInt8) :=
  if isDecimal (current format) then some (readWidth format 0)
  else if current format = 0 then none
  else some (-1, format)

def parameterSizeOf (c : UInt8) : Option ParameterSize :=
  if c = byteOf 'h' then some .short
  else if c = byteOf 'j' then some .intmaxT
  else if c = byteOf 'l' then some .long
  else if c = byteOf 'L' then some .longDouble
  else if c = byteOf 't' then some .ptrdiffT
  else if c = byteOf 'z' then some .sizeT
  else none

/-- The size of the parameter, which `ll` and `hh` give in two characters. -/
def readSize (format : List UInt8) : ParameterSize × List UInt8 :=
  match parameterSizeOf (current format) with
  | none => (.default, format)
  | some size =>
    let format := format.tail
    if size = .long /\ current format = byteOf 'l' then (.longLong, format.tail)
    else if size = .short /\ current format = byteOf 'h' then (.byte, format.tail)
    else (size, format)

def conversionOf (c : UInt8) : Option ConversionType :=
  if c = byteOf 'p' then some .x
  else if c = byteOf 'a' \/ c = byteOf 'A' \/ c = byteOf 'e' \/ c = byteOf 'E' \/
      c = byteOf 'f' \/ c = byteOf 'g' \/ c = byteOf 'G' then some .f
  else if c = byteOf 'c' then some .c
  else if c = byteOf 'd' then some .d
  else if c = byteOf 'i' then some .i
  else if c = byteOf 'n' then some .n
  else if c = byteOf 'o' then some .o
  else if c = byteOf 's' then some .s
  else if c = byteOf 'u' then some .u
  else if c = byteOf 'x' then some .x
  else if c = byteOf 'X' then some .upperX
  else if c = byteOf '%' then some .percent
  else if c = byteOf '[' then some .scanset
  else none

/-- What stands behind a `%`.  The format may end at each point. -/
def parseDirective (format : List UInt8) : Parsed :=
  let (suppressed, format) := readSuppression format
  match readFieldWidth format with
  | none => .ended
  | some (width, format) =>
    let (size, format) := readSize format
    if current format = 0 then .ended
    else
      match conversionOf (current format) with
      | none => .unknown format
      | some conversion => .directive ⟨suppressed, width, size, conversion⟩ format.tail

/-! ## Scansets -/

/-- The characters and ranges of a scanset.  A `-` between two characters makes a
range of them; its end may begin another one. -/
def scansetRanges : Option UInt8 -> List UInt8 -> List (UInt8 × UInt8)
  | _, [] => []
  | none, c :: scanset => (c, c) :: scansetRanges (some c) scanset
  | some _, [c] => [(c, c)]
  | some first, c :: last :: scanset =>
    if c = byteOf '-' then (first, last) :: scansetRanges (some last) scanset
    else (c, c) :: scansetRanges (some c) (last :: scanset)

/-- The set of a directive `%[`, and the format behind it.  A `]` in front is a
member of the set. -/
def parseScanset (format : List UInt8) : (UInt8 -> Bool) × List UInt8 :=
  let negated := current format = byteOf '^'
  let format := if negated then format.tail else format
  let bracket := current format = byteOf ']'
  let format := if bracket then format.tail else format
  let scanset := format.takeWhile fun c => c ≠ 0 && c ≠ byteOf ']'
  let format := format.drop scanset.length
  let listed (c : UInt8) : Bool := (bracket && c = byteOf ']') ||
    (scansetRanges none scanset).any fun range => range.1 <= c && c <= range.2
  (fun c => if negated then !listed c else listed c,
    if current format = byteOf ']' then format.tail else format)

/-! ## Every directive takes something off the format -/

theorem tail_length_lt {format : List UInt8} (present : current format ≠ 0) :
    format.tail.length < format.length := by
  cases format with
  | nil => exact absurd rfl present
  | cons c rest => exact Nat.lt_succ_self _

variable (format : List UInt8)

theorem tail_length_le : format.tail.length <= format.length :=
  List.length_tail.trans_le (Nat.sub_le _ _)

theorem readWidth_length (sum : Int) : (readWidth format sum).2.length <= format.length := by
  induction format generalizing sum with
  | nil => exact Nat.le_refl _
  | cons c format ih =>
    rw [readWidth]
    split_ifs
    · dsimp only
      split_ifs
      · exact Nat.le_refl _
      · exact Nat.le_succ_of_le (ih _)
    · exact Nat.le_refl _

theorem readSuppression_length : (readSuppression format).2.length <= format.length := by
  unfold readSuppression
  split_ifs
  · exact tail_length_le format
  · exact Nat.le_refl _

theorem readFieldWidth_length {format rest : List UInt8} {width : Int}
    (read : readFieldWidth format = some (width, rest)) : rest.length <= format.length := by
  unfold readFieldWidth at read
  split_ifs at read
  · have same := readWidth_length format 0
    rw [Option.some.inj read] at same
    exact same
  · cases read
    exact Nat.le_refl _

theorem readSize_length : (readSize format).2.length <= format.length := by
  unfold readSize
  split
  · exact Nat.le_refl _
  · dsimp only
    split_ifs
    · exact (tail_length_le _).trans (tail_length_le _)
    · exact (tail_length_le _).trans (tail_length_le _)
    · exact tail_length_le _

/-- What is left of the format behind a `%` is not longer, and shorter behind a
directive. -/
theorem parseDirective_length :
    match parseDirective format with
    | .ended => True
    | .unknown rest => rest.length <= format.length
    | .directive _ rest => rest.length < format.length := by
  unfold parseDirective
  have suppression := readSuppression_length format
  generalize readSuppression format = suppressed at suppression
  obtain ⟨suppressed, format'⟩ := suppressed
  dsimp only at suppression ⊢
  cases read : readFieldWidth format' with
  | none => exact trivial
  | some result =>
    obtain ⟨width, rest⟩ := result
    have field := readFieldWidth_length read
    have size := readSize_length rest
    dsimp only
    generalize readSize rest = sized at size
    obtain ⟨param, behind⟩ := sized
    by_cases ended : current behind = 0
    · rw [if_pos ended]
      exact trivial
    · rw [if_neg ended]
      have shorter := tail_length_lt ended
      cases conversionOf (current behind) with
      | none => exact (size.trans field).trans suppression
      | some conversion => exact shorter.trans_le ((size.trans field).trans suppression)

theorem parseScanset_length : (parseScanset format).2.length <= format.length := by
  have drop_le (text : List UInt8) (count : Nat) : (text.drop count).length <= text.length := by
    rw [List.length_drop]
    exact Nat.sub_le _ _
  have without (condition : Prop) [Decidable condition] (text : List UInt8) :
      (if condition then text.tail else text).length <= text.length := by
    split_ifs
    · exact tail_length_le text
    · exact Nat.le_refl _
  unfold parseScanset
  refine (without _ _).trans ((drop_le _ _).trans ((without _ _).trans (without _ _)))

end Clib4.Stdio.Scanf
