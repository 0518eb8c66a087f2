import Mathlib.Data.List.Infix
import Mathlib.Tactic.Linarith
import Clib4.Stdlib.Arguments

namespace Clib4.Stdlib

open List

/-!
# Which arguments a child gets

The command line that is written for a list of arguments is taken apart into the
same list if and only if each of them is one that the writer does right.
-/

/-- An argument that is not empty, does not begin with a quote, and is quoted if
there is blank space in it. -/
structure Passable (arg : List Char) : Prop where
  ne_nil : arg ≠ []
  unquoted : arg.head? ≠ some quote
  spaces : stringNeedsQuoting arg \/ ∀ c ∈ arg, isSpace c = false

variable {arg : List Char} {args : List (List Char)}

/-! ## What is written -/

theorem argText_ne_nil (ne : arg ≠ []) : argText arg ≠ [] := by
  unfold argText
  split
  · exact cons_ne_nil _ _
  · exact ne

@[simp]
theorem buildArgString_nil_cons : buildArgString ([] :: args) = buildArgString args := rfl

def argTail (args : List (List Char)) : List Char :=
  if buildArgString args = [] then [] else ' ' :: buildArgString args

theorem buildFrom_false (args : List (List Char)) : buildFrom false args = argTail args := by
  induction args with
  | nil => rfl
  | cons arg args ih =>
    by_cases nil : arg = []
    · subst nil
      exact ih
    · have long := length_pos_iff.mpr nil
      have written : buildArgString (arg :: args) = argText arg ++ buildFrom false args := by
        rw [buildArgString, buildFrom, if_pos long]
        rfl
      have ne : buildArgString (arg :: args) ≠ [] := by
        rw [written]
        exact append_ne_nil_of_left_ne_nil (argText_ne_nil nil) _
      rw [argTail, if_neg ne, written, buildFrom, if_pos long]
      rfl

theorem buildArgString_cons (ne : arg ≠ []) :
    buildArgString (arg :: args) = argText arg ++ argTail args := by
  rw [buildArgString, buildFrom, if_pos (length_pos_iff.mpr ne), buildFrom_false]
  rfl

theorem mem_of_mem_argText {c : Char} (space : isSpace c) (mem : c ∈ argText arg) :
    c ∈ arg := by
  have inside : ∀ s, c ∈ escapeChars s -> c ∈ s := by
    intro s
    fun_induction escapeChars s with
    | case1 => exact id
    | case2 d s special ih =>
      intro mem
      rcases mem_cons.mp mem with rfl | mem
      · cases space
      · rcases mem_cons.mp mem with rfl | mem
        · exact mem_cons_self
        · exact mem_cons_of_mem _ (ih mem)
    | case3 s special ih =>
      intro mem
      rcases mem_cons.mp mem with rfl | mem
      · cases space
      · rcases mem_cons.mp mem with rfl | mem
        · cases space
        · exact mem_cons_of_mem _ (ih mem)
    | case4 d s special newline ih =>
      intro mem
      rcases mem_cons.mp mem with rfl | mem
      · exact mem_cons_self
      · exact mem_cons_of_mem _ (ih mem)
  unfold argText at mem
  split at mem
  · rcases mem_cons.mp mem with rfl | mem
    · cases space
    · rcases mem_append.mp mem with mem | last
      · exact inside arg mem
      · rw [mem_singleton.mp last] at space
        cases space
  · exact mem

theorem closing_of_space {c : Char} (space : isSpace c) {before after : List Char}
    {s : List Char} (equal : escapeChars s ++ [quote] = before ++ c :: quote :: after) :
    after = [] := by
  fun_induction escapeChars s generalizing before with
  | case1 =>
    have size := congrArg List.length equal
    simp only [length_append, length_cons, length_nil] at size
    omega
  | case2 d s special ih =>
    match before with
    | [] =>
      cases equal
      cases space
    | [x] =>
      have same := (List.cons.inj (List.cons.inj equal).2).1
      subst same
      rcases special with rfl | rfl <;> cases space
    | x :: y :: before => exact ih (List.cons.inj (List.cons.inj equal).2).2
  | case3 s special ih =>
    match before with
    | [] => cases equal
    | [x] =>
      have same := (List.cons.inj (List.cons.inj equal).2).1
      rw [<- same] at space
      cases space
    | x :: y :: before => exact ih (List.cons.inj (List.cons.inj equal).2).2
  | case4 d s special newline ih =>
    cases before with
    | cons x before => exact ih (List.cons.inj equal).2
    | nil =>
      have rest := (List.cons.inj equal).2
      cases s with
      | nil => exact (List.cons.inj rest).2.symm
      | cons e s =>
        -- a quote inside has an asterisk in front of it
        rw [escapeChars] at rest
        split at rest
        · exact absurd (List.cons.inj rest).1 (by decide)
        · rename_i notSpecial
          split at rest
          · exact absurd (List.cons.inj rest).1 (by decide)
          · exact (notSpecial (Or.inl (List.cons.inj rest).1)).elim

/-! ## A parser that is not at the beginning of the next argument -/

theorem readQuoted_suffix (str : List Char) : (readQuoted str).2 <:+ str := by
  fun_induction readQuoted str with
  | case1 => exact suffix_rfl
  | case2 | case3 => exact nil_suffix
  | case4 c d str final => exact suffix_cons _ _
  | case5 c d str final escape ih =>
    exact ih.trans ((suffix_cons _ _).trans (suffix_cons _ _))
  | case6 c d str final plain ih => exact ih.trans (suffix_cons _ _)

theorem mem_plainArgument {c : Char} {str : List Char} (mem : c ∈ plainArgument str) :
    isSpace c = false := by
  have plain := mem_takeWhile_imp mem
  simpa using plain

def StartsBlank (str : List Char) : Prop :=
  str = [] \/ ∃ c rest, str = c :: rest /\ isSpace c

theorem startsBlank_skipPlain (str : List Char) : StartsBlank (skipPlain str) := by
  unfold StartsBlank skipPlain
  cases shape : str.dropWhile (fun c => !isSpace c) with
  | nil => exact Or.inl rfl
  | cons c rest =>
    have stops := List.head?_dropWhile_not (fun c => !isSpace c) str
    rw [shape] at stops
    exact Or.inr ⟨c, rest, rfl, by simpa using stops⟩

/-- One turn of the parser: the argument it finds, and where it goes on. -/
inductive Turn (str arg rest : List Char) : Prop
  | quoted (body : List Char) (skipped : skipSpaces str = quote :: body)
      (read : readQuoted body = (arg, rest))
  | plain (c : Char) (body : List Char) (skipped : skipSpaces str = c :: body) (ne : c ≠ quote)
      (found : plainArgument (c :: body) = arg) (left : skipPlain (c :: body) = rest)

theorem exists_turn {str : List Char} (read : readArguments str = arg :: args) :
    ∃ rest, Turn str arg rest /\ readArguments rest = args := by
  cases skipped : skipSpaces str with
  | nil =>
    rw [readArguments_nil skipped] at read
    cases read
  | cons c body =>
    by_cases isQuote : c = quote
    · subst isQuote
      rw [readArguments_quoted skipped] at read
      refine ⟨_, .quoted body skipped ?_, (List.cons.inj read).2⟩
      rw [<- (List.cons.inj read).1]
    · rw [readArguments_plain skipped isQuote] at read
      exact ⟨_, .plain c body skipped isQuote (List.cons.inj read).1 rfl, (List.cons.inj read).2⟩

namespace Turn

variable {str rest : List Char}

theorem startsBlank (turn : Turn str arg rest) : StartsBlank rest := by
  cases turn with
  | quoted body skipped read =>
    have starts := readQuoted_rest body
    rw [read] at starts
    exact starts
  | plain c body skipped ne found left =>
    rw [<- left]
    exact startsBlank_skipPlain _

theorem strict (turn : Turn str arg rest) :
    ∃ c body, skipSpaces str = c :: body /\ rest <:+ body := by
  cases turn with
  | quoted body skipped read =>
    have suffix := readQuoted_suffix body
    rw [read] at suffix
    exact ⟨quote, body, skipped, suffix⟩
  | plain c body skipped ne found left =>
    refine ⟨c, body, skipped, ?_⟩
    have plain : (!isSpace c) := by
      rw [skipSpaces_head skipped]
      rfl
    rw [<- left, skipPlain, dropWhile_cons_of_pos (p := fun d => !isSpace d) plain]
    exact dropWhile_suffix _

end Turn

variable {str cut : List Char}

/-- The parser that has got to a blank space inside what was written does not find
the arguments: with every argument it finds it gets further ahead. -/
theorem readArguments_ne (ne : args ≠ []) (starts : StartsBlank str)
    (suffix : str ++ cut <:+ buildArgString args) : readArguments str ≠ args := by
  induction args generalizing str with
  | nil => exact (ne rfl).elim
  | cons arg args ih =>
    intro read
    rcases exists_turn read with ⟨rest, turn, others⟩
    rcases turn.strict with ⟨c, body, skipped, restSuffix⟩
    -- once what is left is part of what was written for the other arguments
    have ahead : args ≠ [] -> (rest ++ cut).length <= (buildArgString args).length ->
        buildArgString args <:+ buildArgString (arg :: args) -> False := by
      intro argsNe short whole
      have within : rest ++ cut <:+ buildArgString (arg :: args) := by
        refine List.IsSuffix.trans ?_ suffix
        rcases restSuffix with ⟨front, equal⟩
        have skip : skipSpaces str <:+ str := dropWhile_suffix _
        rcases skip with ⟨blank, blankEqual⟩
        refine ⟨blank ++ c :: front, ?_⟩
        rw [<- blankEqual, skipped, <- equal]
        simp
      exact ih argsNe turn.startsBlank (suffix_of_suffix_length_le within whole short) others
    rcases starts with rfl | ⟨space, behind, rfl, isBlank⟩
    · cases skipped
    -- the blank space in front of the argument found
    obtain ⟨front, c0, frontEqual, blank⟩ : ∃ front c0,
        space :: behind = front ++ c0 :: c :: body /\ isSpace c0 := by
      have parts := takeWhile_append_dropWhile (p := isSpace) (l := space :: behind)
      have some : (space :: behind).takeWhile isSpace ≠ [] := by
        rw [takeWhile_cons_of_pos isBlank]
        exact cons_ne_nil _ _
      rw [show (space :: behind).dropWhile isSpace = c :: body from skipped] at parts
      refine ⟨((space :: behind).takeWhile isSpace).dropLast,
        ((space :: behind).takeWhile isSpace).getLast some, ?_, ?_⟩
      · conv_lhs => rw [<- parts]
        conv_lhs => rw [<- dropLast_append_getLast some]
        simp
      · exact mem_takeWhile_imp (getLast_mem some)
    rcases suffix with ⟨before, whole⟩
    rw [frontEqual] at whole
    have restLength := restSuffix.length_le
    by_cases nil : arg = []
    · subst nil
      rw [buildArgString_nil_cons] at whole
      have short := congrArg List.length whole
      simp only [length_append, length_cons] at short
      refine ahead ?_ ?_ suffix_rfl
      · rintro rfl
        simp only [show buildArgString [] = [] from rfl, length_nil] at short
        omega
      · rw [length_append]
        omega
    rw [buildArgString_cons nil] at whole
    have tailSuffix : args ≠ [] -> buildArgString args <:+ buildArgString (arg :: args) := by
      intro _
      rw [buildArgString_cons nil, argTail]
      split
      · rename_i empty
        rw [empty]
        exact nil_suffix
      · exact (suffix_cons _ _).trans (suffix_append _ _)
    -- it is enough to find what is left to be shorter than what follows the argument
    have enough : (rest ++ cut).length < (argTail args).length -> False := by
      intro short
      rw [argTail] at short
      split at short
      · exact absurd short (Nat.not_lt_zero _)
      · rename_i written
        have argsNe : args ≠ [] := by
          rintro rfl
          exact written rfl
        exact ahead argsNe (Nat.le_of_lt_succ short) (tailSuffix argsNe)
    rw [length_append] at enough
    rcases Nat.lt_or_ge (argTail args).length (c :: body ++ cut).length with inside | beyond
    · -- the parser is inside what was written for this very argument
      obtain ⟨v, text, left⟩ : ∃ v, argText arg = before ++ front ++ c0 :: c :: v /\
          body ++ cut = v ++ argTail args := by
        have shape : (before ++ front ++ [c0]) ++ (c :: body ++ cut) =
            argText arg ++ argTail args := by
          rw [<- whole]
          simp
        rcases append_eq_append_iff.mp shape with ⟨w, text, left⟩ | ⟨w, text, left⟩
        · cases w with
          | nil =>
            rw [left] at inside
            exact absurd inside (lt_irrefl _)
          | cons d v =>
            have heads := List.cons.inj left
            refine ⟨v, ?_, heads.2⟩
            rw [text, <- heads.1]
            simp
        · rw [left, length_append] at inside
          omega
      have argBlank : c0 ∈ arg := mem_of_mem_argText blank (text ▸ by simp)
      have lengths := congrArg List.length left
      rw [length_append, length_append] at lengths
      cases turn with
      | plain d other skipped' ne' found left' =>
        rw [<- found] at argBlank
        rw [mem_plainArgument argBlank] at blank
        cases blank
      | quoted other skipped' read' =>
        rw [skipped] at skipped'
        cases skipped'
        have consumed := readQuoted_length body
        rw [read'] at consumed
        dsimp only at consumed
        have long := length_pos_iff.mpr nil
        apply enough
        unfold argText at text
        split at text
        · -- only the closing quote follows blank space
          have closing : v = [] := by
            cases outer : before ++ front with
            | nil =>
              rw [outer] at text
              cases (List.cons.inj text).1
              cases blank
            | cons x outside =>
              rw [outer] at text
              exact closing_of_space blank (List.cons.inj text).2
          rw [closing, length_nil] at lengths
          omega
        · have size := congrArg List.length text
          simp only [length_append, length_cons] at size
          omega
    · apply enough
      rw [length_append, length_cons] at beyond
      omega

/-! ## An argument that begins with a quote -/

theorem readQuoted_blank {before after : List Char} (absent : ' ' ∉ before) :
    (readQuoted (before ++ ' ' :: after)).1.length <= before.length \/
      ∃ early late, (readQuoted (before ++ ' ' :: after)).1 = early ++ ' ' :: late /\
        early.length <= before.length := by
  generalize equal : before ++ ' ' :: after = str
  fun_induction readQuoted str generalizing before with
  | case1 => exact absurd equal (by simp)
  | case2 => exact Or.inl (Nat.zero_le _)
  | case3 c plain =>
    cases before with
    | nil =>
      cases equal
      exact Or.inr ⟨[], [], rfl, le_rfl⟩
    | cons x before => exact absurd (List.cons.inj equal).2 (by simp)
  | case4 => exact Or.inl (Nat.zero_le _)
  | case5 c d str final escape ih =>
    rcases before with _ | ⟨x, _ | ⟨y, before⟩⟩
    · cases equal
      cases escape
    · have rest := (List.cons.inj equal).2
      cases rest
      exact Or.inr ⟨[], _, rfl, Nat.zero_le _⟩
    · have rest := (List.cons.inj (List.cons.inj equal).2).2
      have absent' : ' ' ∉ before := fun mem => absent (by simp [mem])
      rcases ih absent' rest with short | ⟨early, late, found, bound⟩
      · left
        simp only [length_cons]
        omega
      · right
        refine ⟨unescape d :: early, late, ?_, ?_⟩
        · rw [found]
          rfl
        · simp only [length_cons]
          omega
  | case6 c d str final plain ih =>
    cases before with
    | nil =>
      cases equal
      exact Or.inr ⟨[], _, rfl, le_rfl⟩
    | cons x before =>
      have absent' : ' ' ∉ before := fun mem => absent (by simp [mem])
      rcases ih absent' (List.cons.inj equal).2 with short | ⟨early, late, found, bound⟩
      · left
        simp only [length_cons]
        omega
      · right
        refine ⟨c :: early, late, ?_, ?_⟩
        · rw [found]
          rfl
        · simp only [length_cons]
          omega

theorem readQuoted_ne {text str cut : List Char} {args : List (List Char)}
    (whole : str ++ cut = text ++ argTail args) : (readQuoted str).1 ≠ quote :: text := by
  intro read
  have consumed := readQuoted_length str
  rw [read, length_cons] at consumed
  -- so much has been read that a blank space has
  obtain ⟨after, shape⟩ : ∃ after, str = text ++ ' ' :: after := by
    rcases append_eq_append_iff.mp whole with ⟨w, text', left⟩ | ⟨w, text', left⟩
    · have size := congrArg List.length text'
      rw [length_append] at size
      omega
    · cases w with
      | nil =>
        have size := congrArg List.length text'
        rw [append_nil] at size
        omega
      | cons d after =>
        unfold argTail at left
        split at left
        · cases left
        · exact ⟨after, by rw [text', (List.cons.inj left).1]⟩
  have parts := takeWhile_append_dropWhile (p := (· ≠ ' ')) (l := text)
  have absent : ' ' ∉ text.takeWhile (· ≠ ' ') := fun mem => by
    simpa using mem_takeWhile_imp mem
  obtain ⟨after', shape'⟩ : ∃ after', str = text.takeWhile (· ≠ ' ') ++ ' ' :: after' := by
    rw [shape]
    cases rest : text.dropWhile (· ≠ ' ') with
    | nil =>
      rw [rest, append_nil] at parts
      exact ⟨after, by rw [parts]⟩
    | cons d rest' =>
      have stops := List.head?_dropWhile_not (· ≠ ' ') text
      rw [rest] at stops
      have isBlank : d = ' ' := by simpa using stops
      refine ⟨rest' ++ ' ' :: after, ?_⟩
      conv_lhs => rw [<- parts, rest, isBlank]
      simp
  have blank := @readQuoted_blank _ after' absent
  rw [<- shape', read] at blank
  have bound : (text.takeWhile (· ≠ ' ')).length <= text.length :=
    (List.takeWhile_prefix _).length_le
  rcases blank with short | ⟨early, late, found, early_le⟩
  · rw [length_cons] at short
    omega
  · cases early with
    | nil => exact absurd (List.cons.inj found).1 (by decide)
    | cons x early =>
      have textEqual : text = early ++ ' ' :: late := (List.cons.inj found).2
      have taken : (text.takeWhile (· ≠ ' ')).length <= early.length := by
        rw [textEqual, takeWhile_append]
        split
        · simp
        · exact (List.takeWhile_prefix _).length_le
      rw [length_cons] at early_le
      omega

/-! ## Arguments that are found again -/

theorem readQuoted_escapeChars (arg : List Char) {rest : List Char} (starts : StartsBlank rest) :
    readQuoted (escapeChars arg ++ quote :: rest) = (arg, rest) := by
  induction arg with
  | nil =>
    rcases starts with rfl | ⟨c, rest, rfl, blank⟩
    · rfl
    · show readQuoted (quote :: c :: rest) = _
      have final : isFinalQuoteCharacter quote (c :: rest) := blank
      rw [readQuoted, if_pos final]
  | cons c arg ih =>
    have escaped : ∀ d, readQuoted ('*' :: d :: (escapeChars arg ++ quote :: rest)) =
        (unescape d :: arg, rest) := by
      intro d
      rw [readQuoted, if_neg (by simp [isFinalQuoteCharacter, quote]),
        if_pos (show isEscapeCharacter '*' from rfl), ih]
    rw [escapeChars]
    split
    · rename_i special
      refine (escaped c).trans ?_
      rcases special with rfl | rfl <;> rfl
    · split
      · rename_i newline
        rw [newline]
        exact escaped 'N'
      · rename_i special newline
        obtain ⟨notQuote, notStar⟩ := not_or.mp special
        have notFinal : ∀ str, isFinalQuoteCharacter c str = false := fun str => by
          simp [isFinalQuoteCharacter, notQuote]
        have notEscape : isEscapeCharacter c = false := by
          simp [isEscapeCharacter, shellEscapeCharacter, notStar]
        cases tail : escapeChars arg ++ quote :: rest with
        | nil => exact absurd tail (by simp)
        | cons d str =>
          rw [cons_append, tail, readQuoted, notFinal, notEscape,
            if_neg Bool.false_ne_true, if_neg Bool.false_ne_true, <- tail, ih]

theorem readArguments_passable (passable : Passable arg) {rest : List Char}
    (starts : StartsBlank rest) :
    readArguments (argText arg ++ rest) = arg :: readArguments rest := by
  unfold argText
  by_cases quoted : arg.head? ≠ some quote /\ stringNeedsQuoting arg
  · rw [if_pos quoted]
    have skipped : skipSpaces (quote :: (escapeChars arg ++ [quote]) ++ rest) =
        quote :: (escapeChars arg ++ quote :: rest) := by
      rw [cons_append, append_assoc]
      rfl
    rw [readArguments_quoted skipped, readQuoted_escapeChars arg starts]
  · rw [if_neg quoted]
    have plain := passable.spaces.resolve_left fun needs => quoted ⟨passable.unquoted, needs⟩
    cases arg with
    | nil => exact (passable.ne_nil rfl).elim
    | cons c arg =>
      have first := plain c mem_cons_self
      have skipped : skipSpaces (c :: arg ++ rest) = c :: (arg ++ rest) := by
        rw [skipSpaces, cons_append, dropWhile_cons_of_neg (by simp [first])]
      have unquoted : c ≠ quote := fun same => passable.unquoted (congrArg some same)
      have allPlain : ∀ d ∈ c :: arg, (!isSpace d) := fun d mem => by
        rw [plain d mem]
        rfl
      have found : plainArgument (c :: (arg ++ rest)) = c :: arg := by
        rw [plainArgument, <- cons_append, takeWhile_append_of_pos allPlain]
        rcases starts with rfl | ⟨d, rest, rfl, blank⟩
        · simp
        · rw [takeWhile_cons_of_neg (by simp [blank]), append_nil]
      have left : skipPlain (c :: (arg ++ rest)) = rest := by
        rw [skipPlain, <- cons_append, dropWhile_append_of_pos allPlain]
        rcases starts with rfl | ⟨d, rest, rfl, blank⟩
        · rfl
        · rw [dropWhile_cons_of_neg (by simp [blank])]
      rw [readArguments_plain skipped unquoted, found, left]

theorem getLast?_argText (passable : Passable arg) :
    ∃ before c, argText arg = before ++ [c] /\ isSpace c = false := by
  unfold argText
  by_cases quoted : arg.head? ≠ some quote /\ stringNeedsQuoting arg
  · rw [if_pos quoted]
    exact ⟨quote :: escapeChars arg, quote, rfl, rfl⟩
  · rw [if_neg quoted]
    have plain := passable.spaces.resolve_left fun needs => quoted ⟨passable.unquoted, needs⟩
    refine ⟨arg.dropLast, arg.getLast passable.ne_nil, ?_, plain _ (getLast_mem _)⟩
    exact (dropLast_append_getLast passable.ne_nil).symm

theorem readArguments_congr {first second : List Char} (same : skipSpaces first = skipSpaces second) :
    readArguments first = readArguments second := by
  cases skipped : skipSpaces second with
  | nil => rw [readArguments_nil skipped, readArguments_nil (same.trans skipped)]
  | cons c rest =>
    by_cases quoted : c = quote
    · subst quoted
      rw [readArguments_quoted skipped, readArguments_quoted (same.trans skipped)]
    · rw [readArguments_plain skipped quoted, readArguments_plain (same.trans skipped) quoted]

theorem readArguments_not_passable (bad : ¬ Passable arg)
    (whole : str ++ cut = buildArgString (arg :: args)) : readArguments str ≠ arg :: args := by
  intro read
  rcases exists_turn read with ⟨rest, turn, others⟩
  rcases turn.strict with ⟨c, body, skipped, restSuffix⟩
  by_cases nil : arg = []
  · -- nothing was written for it
    subst nil
    rw [buildArgString_nil_cons] at whole
    have restWhole : rest ++ cut <:+ buildArgString args := by
      rw [<- whole]
      have skip : skipSpaces str <:+ str := dropWhile_suffix _
      rw [skipped] at skip
      have within := restSuffix.trans ((suffix_cons c body).trans skip)
      rcases within with ⟨front, equal⟩
      exact ⟨front, by rw [<- equal, append_assoc]⟩
    refine readArguments_ne ?_ turn.startsBlank restWhole others
    rintro rfl
    have empty := (append_eq_nil_iff.mp whole).1
    rw [empty] at skipped
    cases skipped
  have line := whole
  rw [buildArgString_cons nil] at whole
  by_cases leading : arg.head? = some quote
  · -- it begins with a quote, which the parser takes for its own
    cases arg with
    | nil => exact nil rfl
    | cons d text =>
      cases Option.some.inj leading
      cases str with
      | nil => cases skipped
      | cons e str =>
        cases (List.cons.inj whole).1
        have atQuote : skipSpaces (quote :: str) = quote :: str := rfl
        cases turn with
        | plain c' body' skipped' ne' found left =>
          exact ne' (List.cons.inj skipped').1.symm
        | quoted body' skipped' read' =>
          cases skipped'
          exact readQuoted_ne (List.cons.inj whole).2 (congrArg Prod.fst read')
  · -- there is blank space in it, but it was not quoted
    have unquoted : stringNeedsQuoting arg ≠ true := fun needs =>
      bad ⟨nil, leading, Or.inl needs⟩
    have raw : argText arg = arg := if_neg fun both => unquoted both.2
    rw [raw] at whole
    have blank : ¬ ∀ c ∈ arg, isSpace c = false := fun plain =>
      bad ⟨nil, leading, Or.inr plain⟩
    cases arg with
    | nil => exact nil rfl
    | cons d text =>
      cases str with
      | nil => cases skipped
      | cons e str =>
        have same := (List.cons.inj whole).1
        subst same
        cases first : isSpace e with
        | true =>
          exact readArguments_ne (cons_ne_nil _ _) (Or.inr ⟨e, str, rfl, first⟩)
            ⟨[], line⟩ read
        | false =>
          have atStart : skipSpaces (e :: str) = e :: str := by
            rw [skipSpaces, dropWhile_cons_of_neg (by simp [first])]
          cases turn with
          | quoted body' skipped' read' =>
            rw [atStart] at skipped'
            exact leading (congrArg some (List.cons.inj skipped').1)
          | plain c' body' skipped' ne' found left =>
            exact blank fun d mem => mem_plainArgument (found ▸ mem)

theorem readArguments_iff (whole : str ++ cut = buildArgString args)
    (blank : ∀ c ∈ cut, isSpace c) :
    readArguments str = args <-> ∀ arg ∈ args, Passable arg := by
  induction args generalizing str cut with
  | nil =>
    have empty := (append_eq_nil_iff.mp whole).1
    rw [empty]
    exact iff_of_true (readArguments_nil rfl) (fun arg mem => by cases mem)
  | cons arg args ih =>
    by_cases passable : Passable arg
    · rw [forall_mem_cons, and_iff_right passable]
      rw [buildArgString_cons passable.ne_nil] at whole
      -- the argument itself is not cut
      obtain ⟨rest, shape, left⟩ : ∃ rest, str = argText arg ++ rest /\
          rest ++ cut = argTail args := by
        rcases append_eq_append_iff.mp whole with ⟨w, text, left⟩ | ⟨w, text, left⟩
        · rcases eq_nil_or_concat' w with rfl | ⟨w, c, rfl⟩
          · exact ⟨[], by rw [text, append_nil, append_nil], left⟩
          · rcases getLast?_argText passable with ⟨before, last, shape, notBlank⟩
            rw [shape, <- append_assoc] at text
            have same := (append_inj' text rfl).2 |> List.cons.inj |>.1
            have spaces := blank c (left ▸ by simp)
            rw [<- same, notBlank] at spaces
            cases spaces
        · exact ⟨w, text, left.symm⟩
      have starts : StartsBlank rest := by
        cases rest with
        | nil => exact Or.inl rfl
        | cons c rest =>
          unfold argTail at left
          split at left
          · cases left
          · exact Or.inr ⟨c, rest, rfl, (List.cons.inj left).1 ▸ rfl⟩
      rw [shape, readArguments_passable passable starts, List.cons.injEq, and_iff_right rfl]
      unfold argTail at left
      split at left
      · rename_i empty
        obtain ⟨restNil, cutNil⟩ := append_eq_nil_iff.mp left
        rw [restNil]
        exact ih (by rw [empty]; rfl) (fun c mem => by cases mem)
      · cases rest with
        | nil =>
          rw [nil_append] at left
          exact ih (nil_append _) (fun c mem => blank c (left ▸ by simp [mem]))
        | cons c rest =>
          cases (List.cons.inj left).1
          rw [@readArguments_congr (' ' :: rest) rest rfl]
          exact ih (List.cons.inj left).2 blank
    · refine iff_of_false (readArguments_not_passable passable whole) fun all => ?_
      exact passable (all arg mem_cons_self)

/-- The child gets exactly the arguments of the list if and only if none of them
is empty or begins with a quote, and none with blank space is written without
quotes. -/
theorem arguments_round_trip_iff (args : List (List Char)) :
    argInit (buildArgString args) = args <-> ∀ arg ∈ args, Passable arg := by
  have parts := takeWhile_append_dropWhile (p := isSpace) (l := buildArgString args)
  have stripped := rdropWhile_append_rtakeWhile (p := isSpace)
    (l := skipSpaces (buildArgString args))
  unfold argInit
  generalize (skipSpaces (buildArgString args)).rdropWhile isSpace = str at stripped ⊢
  have blank : ∀ c ∈ (skipSpaces (buildArgString args)).rtakeWhile isSpace, isSpace c :=
    fun c mem => mem_rtakeWhile_imp mem
  generalize (skipSpaces (buildArgString args)).rtakeWhile isSpace = cut at stripped blank
  have whole : ((buildArgString args).takeWhile isSpace ++ str) ++ cut = buildArgString args := by
    rw [append_assoc, stripped]
    exact parts
  have same : readArguments str =
      readArguments ((buildArgString args).takeWhile isSpace ++ str) := by
    apply readArguments_congr
    rw [skipSpaces, skipSpaces, dropWhile_append_of_pos]
    exact fun c mem => mem_takeWhile_imp mem
  rw [same]
  exact readArguments_iff whole blank

/-- An empty argument is lost, and so are the quotes of one that begins with them. -/
theorem empty_and_quoted_arguments_change : argInit (buildArgString [[], ['x']]) = [['x']] /\
      argInit (buildArgString [[quote, 'x', quote]]) = [['x']] := by
  have first : argInit (buildArgString [[], ['x']]) = [['x']] := by
    show readArguments ['x'] = _
    rw [@readArguments_plain ['x'] [] 'x' rfl (by decide)]
    exact congrArg (List.cons _) (readArguments_nil rfl)
  have second : argInit (buildArgString [[quote, 'x', quote]]) = [['x']] := by
    show readArguments [quote, 'x', quote] = _
    rw [@readArguments_quoted _ ['x', quote] rfl]
    exact congrArg (List.cons _) (readArguments_nil rfl)
  exact ⟨first, second⟩

end Clib4.Stdlib
