import Mathlib

namespace Clib4.Stdlib

open List

/-!
# Command lines

`build_arg_string()`, which writes the arguments of a child into its command
line, and the part of `arg_init()` in which the child takes it apart again.  A
character stands for an unsigned byte, and strings are given without the NUL.
-/

def quote : Char := '\x22'

def noBreakSpace : Char := '\xa0'

/-! ## Writing -/

def stringNeedsQuoting (string : List Char) : Bool :=
  string.any fun c =>
    c == ' ' || c == noBreakSpace || c == '\t' || c == '\n' || c == quote

def escapeChars : List Char -> List Char
  | [] => []
  | c :: s =>
    if c = quote \/ c = '*' then '*' :: c :: escapeChars s
    else if c = '\n' then '*' :: 'N' :: escapeChars s
    else c :: escapeChars s

def argText (s : List Char) : List Char :=
  if s.head? ≠ some quote /\ stringNeedsQuoting s then
    quote :: (escapeChars s ++ [quote])
  else s

/-- The loop of `build_arg_string` over the arguments behind `argv[0]`. -/
def buildFrom : Bool -> List (List Char) -> List Char
  | _, [] => []
  | firstChar, s :: argv =>
    if s.length > 0 then
      (if firstChar then [] else [' ']) ++ argText s ++ buildFrom false argv
    else buildFrom firstChar argv

def buildArgString (argv : List (List Char)) : List Char := buildFrom true argv

def countExtraEscapeChars (string : List Char) : Nat :=
  string.countP fun c => c == quote || c == '*' || c == '\n'

/-- The characters that one argument takes, with those that quote it. -/
def argLength (s : List Char) : Nat :=
  if s.head? ≠ some quote /\ stringNeedsQuoting s then
    s.length + (1 + countExtraEscapeChars s + 1)
  else s.length

/-- `get_arg_string_length`, with the length so far. -/
def argStringLengthFrom : Nat -> List (List Char) -> Nat
  | result, [] => result
  | result, s :: argv =>
    if s.length > 0 then
      let len := argLength s
      argStringLengthFrom (if result = 0 then len else result + 1 + len) argv
    else argStringLengthFrom result argv

def getArgStringLength (argv : List (List Char)) : Nat := argStringLengthFrom 0 argv

/-- The same in a `size_t`, as it is computed. -/
def argStringSizeFrom : Nat -> List (List Char) -> Nat
  | result, [] => result
  | result, s :: argv =>
    if s.length > 0 then
      let len := argLength s
      argStringSizeFrom ((if result = 0 then len else result + 1 + len) % 2 ^ 32) argv
    else argStringSizeFrom result argv

def argStringSize (argv : List (List Char)) : Nat := argStringSizeFrom 0 argv

/-! ## Reading -/

def isSpace (c : Char) : Bool :=
  c == '\t' || c == '\r' || c == '\n' || c == '\x0b' || c == '\x0c' || c == ' ' ||
    c == noBreakSpace

/-- `__shell_escape_character` is the asterisk, too. -/
def shellEscapeCharacter : Char := '*'

def isEscapeCharacter (c : Char) : Bool := c == '*' || c == shellEscapeCharacter

/-- `is_final_quote_character` at the character `c`, which `str` follows. -/
def isFinalQuoteCharacter (c : Char) (str : List Char) : Bool :=
  c == quote &&
    match str with
    | [] => true
    | next :: _ => isSpace next

def unescape (c : Char) : Char :=
  if c = 'E' \/ c = 'e' then '\x1b' else if c = 'N' \/ c = 'n' then '\n' else c

/-- The first pass over a quoted argument: what follows the closing quote. -/
def skipQuoted : List Char -> List Char
  | [] => []
  | [_] => []
  | c :: d :: str =>
    if isFinalQuoteCharacter c (d :: str) then d :: str
    else if isEscapeCharacter c then skipQuoted str
    else skipQuoted (d :: str)

/-- The second pass over a quoted argument: the argument, which is processed in
place, and what follows the closing quote. -/
def readQuoted : List Char -> List Char × List Char
  | [] => ([], [])
  | [c] =>
    -- an escape character at the very end stands for nothing
    if isFinalQuoteCharacter c [] || isEscapeCharacter c then ([], []) else ([c], [])
  | c :: d :: str =>
    if isFinalQuoteCharacter c (d :: str) then ([], d :: str)
    else if isEscapeCharacter c then (unescape d :: (readQuoted str).1, (readQuoted str).2)
    else (c :: (readQuoted (d :: str)).1, (readQuoted (d :: str)).2)

theorem skipQuoted_eq (str : List Char) : skipQuoted str = (readQuoted str).2 := by
  fun_induction readQuoted str with
  | case1 | case2 | case3 => rfl
  | case4 c d str final => rw [skipQuoted, if_pos final]
  | case5 c d str final escape ih => rw [skipQuoted, if_neg final, if_pos escape, ih]
  | case6 c d str final plain ih => rw [skipQuoted, if_neg final, if_neg plain, ih]

theorem readQuoted_length (str : List Char) :
    (readQuoted str).1.length + (readQuoted str).2.length <= str.length := by
  fun_induction readQuoted str with
  | case1 => exact le_rfl
  | case2 => exact Nat.zero_le _
  | case3 => exact le_rfl
  | case4 c d str final =>
    simp only [length_nil, length_cons]
    omega
  | case5 c d str final escape ih =>
    simp only [length_cons]
    omega
  | case6 c d str final plain ih =>
    simp only [length_cons] at ih ⊢
    omega

theorem readQuoted_rest (str : List Char) :
    (readQuoted str).2 = [] \/ ∃ c rest, (readQuoted str).2 = c :: rest /\ isSpace c := by
  fun_induction readQuoted str with
  | case1 | case2 | case3 => exact Or.inl rfl
  | case4 c d str final => exact Or.inr ⟨d, str, rfl, (Bool.and_eq_true _ _ ▸ final).2⟩
  | case5 c d str final escape ih | case6 c d str final plain ih => exact ih

def skipSpaces (str : List Char) : List Char := str.dropWhile isSpace

def plainArgument (str : List Char) : List Char := str.takeWhile fun c => !isSpace c

def skipPlain (str : List Char) : List Char := str.dropWhile fun c => !isSpace c

theorem skipSpaces_length (str : List Char) : (skipSpaces str).length <= str.length :=
  (dropWhile_suffix _).length_le

variable {str rest : List Char} {argv : List (List Char)} {c : Char}

theorem skipSpaces_head (skipped : skipSpaces str = c :: rest) : isSpace c = false := by
  have stops := List.head?_dropWhile_not isSpace str
  rw [show str.dropWhile isSpace = c :: rest from skipped] at stops
  exact stops

theorem skipPlain_length (skipped : skipSpaces str = c :: rest) :
    (skipPlain (c :: rest)).length <= rest.length := by
  have plain : (!isSpace c) := by
    rw [skipSpaces_head skipped]
    rfl
  rw [skipPlain, dropWhile_cons_of_pos (p := fun d => !isSpace d) plain]
  exact (dropWhile_suffix _).length_le

/-- The first pass over the command line: the number of arguments, that of the
program included. -/
def countArguments (str : List Char) : Nat :=
  match skipped : skipSpaces str with
  | [] => 1
  | c :: rest =>
    if c = quote then countArguments (skipQuoted rest) + 1
    else countArguments (skipPlain (c :: rest)) + 1
termination_by str.length
decreasing_by
  · have size := skipSpaces_length str
    have read := readQuoted_length rest
    rw [skipped, length_cons] at size
    rw [skipQuoted_eq]
    omega
  · have size := skipSpaces_length str
    have plain := skipPlain_length skipped
    rw [skipped, length_cons] at size
    omega

/-- The second pass over the command line: the arguments behind the name of the
program. -/
def readArguments (str : List Char) : List (List Char) :=
  match _skipped : skipSpaces str with
  | [] => []
  | c :: rest =>
    if c = quote then (readQuoted rest).1 :: readArguments (readQuoted rest).2
    else plainArgument (c :: rest) :: readArguments (skipPlain (c :: rest))
termination_by str.length
decreasing_by
  · have size := skipSpaces_length str
    have read := readQuoted_length rest
    rw [_skipped, length_cons] at size
    omega
  · have size := skipSpaces_length str
    have plain := skipPlain_length _skipped
    rw [_skipped, length_cons] at size
    omega

/-- The arguments `arg_init` finds in the string of the shell, from which it
strips blank space on either side first. -/
def argInit (argStr : List Char) : List (List Char) :=
  readArguments ((skipSpaces argStr).rdropWhile isSpace)

/-! ## The two passes -/

theorem readArguments_nil {str : List Char} (skipped : skipSpaces str = []) :
    readArguments str = [] := by
  rw [readArguments]
  split
  · rfl
  · rename_i other
    rw [skipped] at other
    cases other

theorem readArguments_quoted (skipped : skipSpaces str = quote :: rest) :
    readArguments str = (readQuoted rest).1 :: readArguments (readQuoted rest).2 := by
  rw [readArguments]
  split
  · rename_i other
    rw [skipped] at other
    cases other
  · rename_i c rest' other
    rw [skipped] at other
    cases other
    exact if_pos rfl

theorem readArguments_plain (skipped : skipSpaces str = c :: rest) (plain : c ≠ quote) :
    readArguments str = plainArgument (c :: rest) :: readArguments (skipPlain (c :: rest)) := by
  rw [readArguments]
  split
  · rename_i other
    rw [skipped] at other
    cases other
  · rename_i c' rest' other
    rw [skipped] at other
    cases other
    exact if_neg plain

/-- The array allocated after the first pass is as long as the second one needs it. -/
theorem countArguments_eq (str : List Char) :
    countArguments str = (readArguments str).length + 1 := by
  induction size : str.length using Nat.strong_induction_on generalizing str with
  | _ size ih =>
  subst size
  rw [countArguments]
  split
  · rename_i skipped
    rw [readArguments_nil skipped]
    rfl
  · rename_i c rest skipped
    have bound := skipSpaces_length str
    rw [skipped, length_cons] at bound
    by_cases quoted : c = quote
    · subst quoted
      have read := readQuoted_length rest
      rw [if_pos rfl, readArguments_quoted skipped, skipQuoted_eq,
        ih _ (by omega) (readQuoted rest).2 rfl, length_cons]
    · have plain := skipPlain_length skipped
      rw [if_neg quoted, readArguments_plain skipped quoted, ih _ (by omega) _ rfl,
        length_cons]

/-! ## The length of the string -/

theorem escapeChars_length {s : List Char} :
    (escapeChars s).length = s.length + countExtraEscapeChars s := by
  induction s with
  | nil => rfl
  | cons c s ih =>
    unfold countExtraEscapeChars at ih ⊢
    rw [escapeChars, countP_cons]
    split
    · rename_i special
      rw [if_pos (by simpa using Or.inl special)]
      simp only [length_cons, ih]
      omega
    · split
      · rename_i newline
        rw [if_pos (by simp [newline])]
        simp only [length_cons, ih]
        omega
      · rename_i plain newline
        rw [if_neg (by simpa [not_or, newline] using plain)]
        simp only [length_cons, ih]
        omega

theorem argText_length (s : List Char) : (argText s).length = argLength s := by
  unfold argText argLength
  split
  · rw [length_cons, length_append, escapeChars_length, length_singleton]
    omega
  · rfl

theorem argText_length_ge (s : List Char) : s.length <= (argText s).length := by
  rw [argText_length, argLength]
  split
  · omega
  · exact le_rfl

theorem argStringLengthFrom_eq (result : Nat) (argv : List (List Char)) :
    argStringLengthFrom result argv = result + (buildFrom (decide (result = 0)) argv).length := by
  induction argv generalizing result with
  | nil => rfl
  | cons s argv ih =>
    rw [argStringLengthFrom, buildFrom]
    by_cases nonempty : s.length > 0
    · rw [if_pos nonempty, if_pos nonempty]
      rw [<- argText_length, ih]
      have long := argText_length_ge s
      by_cases first : result = 0
      · rw [if_pos first, decide_eq_false (by omega), decide_eq_true first]
        simp only [if_true, length_append, length_nil]
        omega
      · rw [if_neg first, decide_eq_false (by omega), decide_eq_false first]
        simp only [Bool.false_eq_true, if_false, length_append, length_singleton]
        omega
    · rw [if_neg nonempty, if_neg nonempty]
      exact ih result

theorem getArgStringLength_eq : getArgStringLength argv = (buildArgString argv).length := by
  rw [getArgStringLength, argStringLengthFrom_eq, Nat.zero_add]
  rfl

theorem argStringSizeFrom_lt {result : Nat} (small : result < 2 ^ 32) (argv : List (List Char)) :
    argStringSizeFrom result argv < 2 ^ 32 := by
  induction argv generalizing result with
  | nil => exact small
  | cons s argv ih =>
    rw [argStringSizeFrom]
    split
    · exact ih (Nat.mod_lt _ (Nat.two_pow_pos 32))
    · exact ih small

theorem argStringSizeFrom_eq {result : Nat} (small : argStringLengthFrom result argv < 2 ^ 32) :
    argStringSizeFrom result argv = argStringLengthFrom result argv := by
  induction argv generalizing result with
  | nil => rfl
  | cons s argv ih =>
    rw [argStringLengthFrom] at small ⊢
    rw [argStringSizeFrom]
    split at small
    · rename_i nonempty
      rw [if_pos nonempty, if_pos nonempty]
      dsimp only at small ⊢
      -- the length so far is not above that of the whole string
      have below := small
      rw [argStringLengthFrom_eq] at below
      rw [Nat.mod_eq_of_lt (Nat.lt_of_add_right_lt below)]
      exact ih small
    · rename_i empty
      rw [if_neg empty, if_neg empty]
      exact ih small

/-- The arguments that are not empty, each with a blank behind it but for the last. -/
theorem buildFrom_length (first : Bool) (argv : List (List Char)) :
    (buildFrom first argv).length =
      ((argv.filter (0 < ·.length)).map (argLength · + 1)).sum - first.toNat := by
  induction argv generalizing first with
  | nil => exact (Nat.zero_sub _).symm
  | cons s argv ih =>
    rw [buildFrom]
    by_cases nonempty : s.length > 0
    · rw [if_pos nonempty, filter_cons_of_pos (by simpa using nonempty), map_cons,
        sum_cons, length_append, length_append, argText_length, ih]
      cases first <;> simp
      omega
    · rw [if_neg nonempty, filter_cons_of_neg (by simpa using nonempty), ih]

/-- The memory reserved is what the string takes, so that no character is stored behind it,
exactly as long as the arguments that are not empty, with a character between them, fit
a `size_t`. -/
theorem argStringSize_exact_iff (argv : List (List Char)) :
    argStringSize argv = (buildArgString argv).length <->
      ((argv.filter (0 < ·.length)).map (argLength · + 1)).sum <= 2 ^ 32 := by
  have total : (buildArgString argv).length = _ - 1 := buildFrom_length true argv
  constructor
  · intro same
    have small : argStringSize argv < 2 ^ 32 := argStringSizeFrom_lt (Nat.two_pow_pos 32) argv
    omega
  · intro small
    rw [<- getArgStringLength_eq] at total ⊢
    exact argStringSizeFrom_eq (show getArgStringLength argv < 2 ^ 32 by omega)

theorem buildArgString_replicate {s : List Char} (nonempty : 0 < s.length) (count : Nat) :
    (buildArgString (List.replicate count s)).length = count * (argLength s + 1) - 1 := by
  rw [buildArgString, buildFrom_length, filter_replicate_of_pos (by simpa using nonempty),
    map_replicate, sum_replicate_nat, Bool.toNat_true]

/-- The same argument, of 4095 characters, passed more than 2^20 times. -/
theorem argStringSize_overrun :
    argStringSize (List.replicate (2 ^ 20 + 1) (List.replicate 4095 'a')) <
      (buildArgString (List.replicate (2 ^ 20 + 1) (List.replicate 4095 'a'))).length := by
  have size := argStringSizeFrom_lt (Nat.two_pow_pos 32)
    (List.replicate (2 ^ 20 + 1) (List.replicate 4095 'a'))
  have long := argText_length_ge (List.replicate 4095 'a')
  rw [argText_length, length_replicate] at long
  refine size.trans_le ?_
  rw [buildArgString_replicate (by rw [length_replicate]; exact Nat.succ_pos 4094)]
  omega

end Clib4.Stdlib
