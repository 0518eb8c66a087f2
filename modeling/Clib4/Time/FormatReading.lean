import Mathlib.Data.List.DropRight
import Clib4.Time.Numerals

namespace Clib4.Time

open Foundation List
open Stdlib (byteOf leadingDigits)

/-!
# Reading what a format wrote

`Agrees` says of one conversion what `strptime` does at the text that `strftime`
wrote for it: which fields it changes, or that it fails.  The text is followed by
something that does not continue a number, and blanks before it may have been
skipped already, because a blank of the format skips every blank of the text.
`parseTokens_format` carries this over to a whole format, by induction over its
pieces; it is used once for the formats that conversions stand for and once for
the format of the caller.
-/

/-! ## Names -/

/-- Two names of which one continues the other, if case is ignored. -/
def clash (first second : List UInt8) : Bool :=
  (first.take second.length).map tolower == (second.take first.length).map tolower

def Distinct (names : List String) : Prop :=
  names.Pairwise fun first second => clash (bytesOf first) (bytesOf second) = false

instance (names : List String) : Decidable (Distinct names) :=
  inferInstanceAs (Decidable (List.Pairwise _ names))

/-- Names that can be told apart and do not begin with a blank. -/
def Legible (names : List String) : Prop :=
  Distinct names /\ ∀ name ∈ names, ∃ c rest,
    bytesOf name = c :: rest /\ Stdlib.isspace c = false

theorem names_legible :
    ∀ names ∈ [abbWeekdays, fullWeekdays, abbMonth, fullMonth], Legible names := by
  have facts : ∀ names ∈ [abbWeekdays, fullWeekdays, abbMonth, fullMonth], Distinct names /\
      ∀ name ∈ names, (bytesOf name).head?.any (fun c => !Stdlib.isspace c) := by
    decide +kernel
  intro names listed
  refine ⟨(facts names listed).1, fun name mem => ?_⟩
  have visible := (facts names listed).2 name mem
  cases text : bytesOf name with
  | nil => simp [text] at visible
  | cons c rest => exact ⟨c, rest, rfl, by simpa [text] using visible⟩

theorem clash_of_matches {str other rest : List UInt8}
    (found : matchesIgnoringCase (str ++ rest) other) : clash other str := by
  have same := eq_of_beq found
  have front := congrArg (List.take str.length) same
  rw [<- map_take, <- map_take, take_take, Nat.min_comm, <- take_take,
    take_left] at front
  exact beq_iff_eq.mpr front.symm

theorem matchString_name {names : List String} (distinct : Distinct names) {number : Nat}
    (inside : number < names.length) (rest : List UInt8) (i : Nat) :
    matchString names i (bytesOf names[number] ++ rest) = some (i + number, rest) := by
  induction names generalizing number i with
  | nil => exact absurd inside (Nat.not_lt_zero number)
  | cons name names ih =>
    obtain ⟨before, later⟩ := pairwise_cons.mp distinct
    rw [matchString]
    cases number with
    | zero =>
      rw [getElem_cons_zero, if_pos (by simp [matchesIgnoringCase]), drop_left]
      rfl
    | succ number =>
      have inside := Nat.lt_of_succ_lt_succ inside
      have differs := before names[number] (getElem_mem inside)
      rw [getElem_cons_succ, if_neg (fun found => by
        rw [clash_of_matches found] at differs
        cases differs), ih later inside]
      congr 2
      omega

/-! ## One conversion -/

/-- The conversions that stand for a character that is no letter and no digit. -/
def Directive.isCharacter : Directive -> Bool
  | .n | .t | .percent => true
  | _ => false

/-- Where `strptime` gets past a conversion: the blank that `%n` or `%t` asks for
must not have been skipped, and the two functions disagree about `%x`. -/
def Directive.accepts (skipped : Bool) : Directive -> Bool
  | .x => false
  | .n | .t => !skipped
  | _ => true

/-- What `strptime` does at the text of a conversion. -/
def Agrees (expand : List UInt8 -> List UInt8 -> DateTime -> Option (List UInt8 × DateTime))
    (text : List UInt8) (change : DateTime -> DateTime) (directive : Directive) : Prop :=
  ∀ (skipped : Bool) (rest : List UInt8) (tm : DateTime),
    directive.isCharacter \/ leadingDigits 10 rest = [] ->
    parseDirective expand directive (strip skipped (text ++ rest)) tm =
      if directive.accepts skipped then some (rest, change tm) else none

def Directive.written (tm : DateTime) : Directive -> Option Numeral
  | .C => some (.two (tm.tmYear.tdiv 100))
  | .d => some (.two tm.tmMday)
  | .e => some (.two (tm.tmMon + 1))
  | .H => some (.two tm.tmHour)
  | .I => some (.two (if tm.tmHour.tmod 12 = 0 then 12 else tm.tmHour.tmod 12))
  | .j => some ⟨1 + calculateDaysPerDate (tm.tmYear + 1900) (tm.tmMon + 1) tm.tmMday -
      calculateDaysPerDate (tm.tmYear + 1900) 1 1, 3, none⟩
  | .m => some (.two (tm.tmMon + 1))
  | .M => some (.two tm.tmMin)
  | .S => some (.two tm.tmSec)
  | .u => some (.one (if tm.tmWday > 0 then tm.tmWday else 7))
  | .U => some (.two ((tm.tmYday + 7 - tm.tmWday).tdiv 7))
  | .V => some (.two (iso8601CalendarWeekAndYear tm.tmMday (tm.tmMon + 1) (tm.tmYear + 1900)).1)
  | .w => some (.one tm.tmWday)
  | .W => some (.two ((tm.tmYday + 7 - (tm.tmWday + 6).tmod 7).tdiv 7))
  | .y => some (.two (unsigned 32 tm.tmYear % 100))
  | .Y => some ⟨1900 + tm.tmYear, 0, none⟩
  | _ => none

/-- What `strptime` does to the fields at the text that a conversion wrote for `tm`. -/
def Directive.change (tm : DateTime) (directive : Directive) (fields : DateTime) : DateTime :=
  match directive with
  | .a | .A => { fields with tmWday := tm.tmWday }
  | .b | .B | .h => { fields with tmMon := tm.tmMon }
  | .p => storeHalf (if tm.tmHour < 12 then 0 else 1) fields
  | directive =>
    match directive.written tm with
    | some written => storeNumber directive (numeral written.digits) fields
    | none => fields

variable {expand : List UInt8 -> List UInt8 -> DateTime -> Option (List UInt8 × DateTime)}

theorem agrees_number {directive : Directive} {store : Int -> DateTime -> DateTime}
    (parse : parseDirective expand directive = readNumber store)
    (plain : ∀ skipped, directive.accepts skipped)
    (noCharacter : directive.isCharacter = false) {blanks : List UInt8} {digits : List Nat}
    (blank : ∀ c ∈ blanks, Stdlib.isspace c) (some_digit : digits ≠ [])
    (small : ∀ digit ∈ digits, digit < 10) (fits : numeral digits < 2 ^ 31) :
    Agrees expand (blanks ++ digits.map digitByte) (store (numeral digits)) directive := by
  intro skipped rest tm ends
  have ends := ends.resolve_left (by rw [noCharacter]; decide)
  rw [parse, append_assoc, readNumber_digits store blank some_digit small fits ends,
    if_pos (plain skipped)]

theorem agrees_name
    {directive : Directive} {names : List String} (store : Int -> DateTime -> DateTime)
    (parse : parseDirective expand directive = readName names store)
    (plain : ∀ skipped, directive.accepts skipped) (legible : Legible names)
    (fallback : String) {number : Int} (nonneg : 0 <= number) (lt : number < names.length) :
    Agrees expand (nameAt names fallback number) (store number) directive := by
  intro skipped rest tm _
  have inside : number.toNat < names.length := by omega
  have text : nameAt names fallback number = bytesOf names[number.toNat] := by
    rw [nameAt, if_pos ⟨nonneg, by omega⟩, getD_eq_getElem?_getD,
      List.getElem?_eq_getElem inside, Option.getD_some]
  obtain ⟨c, name, shown, visible⟩ := legible.2 _ (getElem_mem inside)
  have unstripped : strip skipped (bytesOf names[number.toNat] ++ rest) =
      bytesOf names[number.toNat] ++ rest := by
    rw [shown]
    exact strip_of_not_isspace skipped visible _
  have back : ((0 + number.toNat : Nat) : Int) = number := by omega
  rw [parse, text, unstripped, readName, matchString_name legible.1 inside rest 0, Option.map_some]
  dsimp only
  rw [back, if_pos (plain skipped)]

theorem agrees_char
    {directive : Directive} {c : UInt8} (parse : parseDirective expand directive = readChar c)
    (some_char : c ≠ 0)
    (accepted : ∀ skipped, directive.accepts skipped = (!skipped || !Stdlib.isspace c)) :
    Agrees expand [c] id directive := by
  intro skipped rest tm _
  rw [parse, accepted]
  cases blank : Stdlib.isspace c with
  | false =>
    rw [singleton_append, strip_of_not_isspace skipped blank]
    simp [readChar, Stdlib.current]
  | true =>
    cases skipped with
    | false => simp [strip, readChar, Stdlib.current]
    | true =>
      -- what follows the skipped blanks is not a blank
      have lost : Stdlib.current (strip true ([c] ++ rest)) ≠ c := by
        unfold strip Stdlib.current
        intro same
        cases remaining : ([c] ++ rest).dropWhile Stdlib.isspace with
        | nil =>
          rw [remaining] at same
          exact some_char same.symm
        | cons d remaining' =>
          have visible := head_dropWhile_not Stdlib.isspace (l := [c] ++ rest)
            (by rw [remaining]; exact cons_ne_nil _ _)
          simp only [remaining, head_cons] at visible
          rw [remaining] at same
          rw [show d = c from same, blank] at visible
          cases visible
      rw [readChar, if_neg lost]
      rfl

/-! ## A whole format -/

def isalnum (c : UInt8) : Bool := (Stdlib.digitValue c).isSome

namespace Token

def directive : Token -> Option Directive
  | .conversion c => Directive.ofByte c
  | _ => none

def text (directiveText : Directive -> List UInt8) : Token -> List UInt8
  | .literal c => [c]
  | .conversion c =>
    match Directive.ofByte c with
    | some directive => directiveText directive
    | none => [c]
  | .bare => []

section

variable (directiveText : Directive -> List UInt8)

theorem text_literal (c : UInt8) : text directiveText (.literal c) = [c] := rfl

theorem text_bare : text directiveText .bare = [] := rfl

theorem text_conversion {c : UInt8} {directive : Directive}
    (found : Directive.ofByte c = some directive) :
    text directiveText (.conversion c) = directiveText directive := by
  simp only [text, found]

end

def isBlank : Token -> Bool
  | .literal c => Stdlib.isspace c
  | _ => false

/-- The piece stands for a character that is no letter and no digit. -/
def isSeparator : Token -> Bool
  | .literal _ => true
  | .conversion c => (Directive.ofByte c).any Directive.isCharacter
  | .bare => false

end Token

/-- Whether `strptime` gets to the end of a format at the text written for it. -/
def readable : Bool -> List Token -> Bool
  | _, [] => true
  | skipped, token :: tokens =>
    token.directive.all (Directive.accepts skipped) && readable token.isBlank tokens

def skippedAfter : Bool -> List Token -> Bool
  | skipped, [] => skipped
  | _, token :: tokens => skippedAfter token.isBlank tokens

def directives (tokens : List Token) : List Directive := tokens.filterMap Token.directive

/-- A conversion that satisfies `good`, or a character that is no letter and no digit. -/
def Token.fits (good : Directive -> Bool) : Token -> Bool
  | .literal c => c != 0 && !isalnum c
  | .conversion c => (Directive.ofByte c).any good
  | .bare => false

/-- The pieces of a format whose conversions satisfy `good` and do not follow each
other. -/
structure Separated (good : Directive -> Bool) (tokens : List Token) : Prop where
  fits : ∀ token ∈ tokens, token.fits good
  apart : tokens.IsChain fun first second => first.isSeparator \/ second.isSeparator

instance (good : Directive -> Bool) (tokens : List Token) : Decidable (Separated good tokens) :=
  letI _ : DecidableRel fun first second : Token =>
      first.isSeparator \/ second.isSeparator :=
    fun _ _ => instDecidableOr
  decidable_of_iff
    ((∀ token ∈ tokens, token.fits good) /\
      tokens.IsChain fun first second => first.isSeparator \/ second.isSeparator)
    ⟨fun both => ⟨both.1, both.2⟩, fun separated => ⟨separated.fits, separated.apart⟩⟩

namespace Separated

variable {good : Directive -> Bool} {token : Token} {tokens : List Token}

theorem tail (separated : Separated good (token :: tokens)) : Separated good tokens where
  fits other mem := separated.fits other (mem_cons_of_mem _ mem)
  apart := separated.apart.tail

theorem literal {c : UInt8} (separated : Separated good (.literal c :: tokens)) :
    c ≠ 0 /\ isalnum c = false := by
  simpa [Token.fits] using separated.fits _ (mem_cons_self ..)

theorem directive {c : UInt8} (separated : Separated good (.conversion c :: tokens)) :
    ∃ directive, Directive.ofByte c = some directive /\ good directive := by
  have found := separated.fits _ (mem_cons_self ..)
  rw [Token.fits, Option.any_eq_true] at found
  exact found

theorem noNul (separated : Separated good tokens) :
    ∀ token ∈ tokens, token ≠ .literal 0 /\ token ≠ .conversion 0 := by
  intro token mem
  have fits := separated.fits token mem
  constructor <;> rintro rfl <;> cases fits

end Separated

section Formats

variable {expand : List UInt8 -> List UInt8 -> DateTime -> Option (List UInt8 × DateTime)}
  {text : Directive -> List UInt8} {change : Directive -> DateTime -> DateTime}
  {good : Directive -> Bool}

theorem leadingDigits_of_not_alnum {c : UInt8} (other : isalnum c = false) (rest : List UInt8) :
    leadingDigits 10 (c :: rest) = [] := by
  have none : Stdlib.digitValue c = none := Option.isNone_iff_eq_none.mp (by
    rw [<- Option.not_isSome, Bool.not_eq_true']
    exact other)
  rw [leadingDigits, none]

theorem leadingDigits_text {token : Token} {tokens : List Token} {rest : List UInt8}
    (separated : Separated good (token :: tokens)) (notSeparator : token.isSeparator = false)
    (characters : ∀ directive rest, directive.isCharacter ->
      leadingDigits 10 (text directive ++ rest) = [])
    (ends : leadingDigits 10 rest = []) :
    leadingDigits 10 (tokens.flatMap (Token.text text) ++ rest) = [] := by
  cases tokens with
  | nil => exact ends
  | cons next tokens =>
    have separates := separated.apart.rel.resolve_left (by rw [notSeparator]; decide)
    rw [flatMap_cons, append_assoc]
    cases next with
    | bare => cases separates
    | literal c =>
      exact leadingDigits_of_not_alnum separated.tail.literal.2 _
    | conversion c =>
      obtain ⟨directive, found, -⟩ := separated.tail.directive
      have character : directive.isCharacter := by
        simpa [Token.isSeparator, found] using separates
      rw [Token.text_conversion text found]
      exact characters directive _ character

theorem parseToken_literal (c : UInt8) (skipped : Bool) (rest : List UInt8) (tm : DateTime) :
    parseToken expand (.literal c) (strip skipped (c :: rest)) tm =
      some (strip (Stdlib.isspace c) rest, tm) := by
  rw [parseToken]
  cases blank : Stdlib.isspace c with
  | true =>
    have dropped : (strip skipped (c :: rest)).dropWhile Stdlib.isspace =
        rest.dropWhile Stdlib.isspace := by
      cases skipped with
      | false => exact dropWhile_cons_of_pos blank
      | true =>
        unfold strip
        rw [if_pos rfl, dropWhile_cons_of_pos blank]
        exact dropWhile_idempotent _ _
    rw [if_pos rfl, dropped]
    rfl
  | false =>
    rw [if_neg Bool.false_ne_true, strip_of_not_isspace skipped blank]
    exact if_pos rfl

theorem parseTokens_format {tokens : List Token} (separated : Separated good tokens)
    (agrees : ∀ directive, good directive ->
      Agrees expand (text directive) (change directive) directive)
    (characters : ∀ directive rest, directive.isCharacter ->
      leadingDigits 10 (text directive ++ rest) = [])
    (skipped : Bool) {rest : List UInt8} (ends : leadingDigits 10 rest = []) (tm : DateTime) :
    parseTokens expand tokens (strip skipped (tokens.flatMap (Token.text text) ++ rest)) tm =
      if readable skipped tokens then
        some (strip (skippedAfter skipped tokens) rest,
          (directives tokens).foldl (fun tm directive => change directive tm) tm)
      else none := by
  induction tokens generalizing skipped tm with
  | nil => rfl
  | cons token tokens ih =>
    rw [parseTokens, flatMap_cons, append_assoc]
    cases token with
    | bare => cases separated.fits _ mem_cons_self
    | literal c =>
      have here : parseToken expand (.literal c) (strip skipped
          (c :: (tokens.flatMap (Token.text text) ++ rest))) tm = _ :=
        parseToken_literal c skipped _ tm
      have shown : Token.text text (.literal c) ++ (tokens.flatMap (Token.text text) ++ rest) =
          c :: (tokens.flatMap (Token.text text) ++ rest) := rfl
      rw [shown, here, Option.bind_some]
      exact ih separated.tail _ tm
    | conversion c =>
      obtain ⟨directive, found, isGood⟩ := separated.directive
      have parsed : ∀ buf, parseToken expand (.conversion c) buf tm =
          parseDirective expand directive buf tm := by
        intro buf
        simp only [parseToken, found]
      have after : directive.isCharacter \/
          leadingDigits 10 (tokens.flatMap (Token.text text) ++ rest) = [] := by
        cases character : directive.isCharacter with
        | true => exact Or.inl rfl
        | false =>
          refine Or.inr (leadingDigits_text separated ?_ characters ends)
          simpa [Token.isSeparator, found] using character
      rw [parsed, Token.text_conversion text found, agrees directive isGood skipped _ tm after]
      have accepts : readable skipped (.conversion c :: tokens) =
          (directive.accepts skipped && readable false tokens) := by
        simp only [readable, Token.directive, found, Option.all_some]
        rfl
      have all : directives (.conversion c :: tokens) = directive :: directives tokens := by
        have here := found
        exact filterMap_cons_some here
      rw [accepts, all, foldl_cons]
      cases directive.accepts skipped with
      | false => rfl
      | true => exact ih separated.tail false (change directive tm)

end Formats

end Clib4.Time
