import Mathlib.Data.List.TakeWhile

namespace Foundation

open List

/-!
# Streams with characters put back

A scanner looks at a character by reading it and puts it back when it does not
want it.  `readOne` and `readWhile` are the two ways in which scanners do so,
inside a field of limited width.  A `TextStream` is one that stands before a
text: reading takes the first character off, and the character that was read
last can be put back.  Putting back more than that may fail, and then the text
is what it was.
-/

/-- A stream that is read character by character. -/
class CharStream (σ : Type) (κ : outParam Type) where
  getc : σ -> Option κ × σ
  ungetc : κ -> σ -> Bool × σ

/-- What to do with a character: take it, take it as the last one, or put it back. -/
inductive Verdict (α : Type)
  | take (value : α)
  | last (value : α)
  | refuse

def having {κ : Type} (test : κ -> Bool) (_ : Unit) (c : κ) : Verdict Unit :=
  if test c then .take () else .refuse

def collecting {κ : Type} (test : κ -> Bool) (text : List κ) (c : κ) : Verdict (List κ) :=
  if test c then .take (text ++ [c]) else .refuse

/-- How reading ended: with one character taken, at the end of the field, with a
character that was the last one, at the end of the stream, with a character put
back or one that could not be put back, or not at all. -/
inductive Ending
  | taken | full | last | ended | refused | lost | unfinished
  deriving DecidableEq, Repr

def Ending.clean : Ending -> Bool
  | .lost | .unfinished => false
  | _ => true

/-- What was read: how it ended, the value, the number of characters taken, the
width that is left and the character that was refused. -/
structure Reading (σ κ α : Type) where
  ending : Ending
  value : α
  count : Nat
  width : Int
  refused : Option κ
  stream : σ

/-- The width behind a character; a negative one is no limit. -/
def narrow (width : Int) : Int := if 0 < width then width - 1 else width

section Reading

variable {σ κ α : Type} [CharStream σ κ]

def readOne (test : α -> κ -> Verdict α) (width : Int) (value : α) (stream : σ) :
    Reading σ κ α :=
  if width = 0 then ⟨.full, value, 0, width, none, stream⟩
  else
    match CharStream.getc stream with
    | (none, stream) => ⟨.ended, value, 0, width, none, stream⟩
    | (some c, stream) =>
      match test value c with
      | .take next => ⟨.taken, next, 1, narrow width, none, stream⟩
      | .last next => ⟨.last, next, 1, narrow width, none, stream⟩
      | .refuse =>
        match CharStream.ungetc c stream with
        | (true, stream) => ⟨.refused, value, 0, width, some c, stream⟩
        | (false, stream) => ⟨.lost, value, 0, width, some c, stream⟩

def readWhile (test : α -> κ -> Verdict α) : Nat -> Int -> α -> σ -> Reading σ κ α
  | 0, width, value, stream => ⟨.unfinished, value, 0, width, none, stream⟩
  | fuel + 1, width, value, stream =>
    let one := readOne test width value stream
    match one.ending with
    | .taken =>
      let more := readWhile test fuel one.width one.value one.stream
      { more with count := more.count + 1 }
    | _ => one

/-- Put characters back, the last one first; the number of those that were taken back. -/
def putBack : List κ -> σ -> Nat × σ
  | [], stream => (0, stream)
  | c :: before, stream =>
    match CharStream.ungetc c stream with
    | (true, stream) =>
      let (count, stream) := putBack before stream
      (count + 1, stream)
    | (false, stream) => putBack before stream

def skipped : Nat -> σ -> σ
  | 0, stream => stream
  | count + 1, stream => (CharStream.getc (skipped count stream)).2

end Reading

/-- A stream that stands before a text. -/
class TextStream (σ : Type) (κ : outParam Type) extends CharStream σ κ where
  Before : σ -> List κ -> Prop
  getc_nil : ∀ {stream : σ}, Before stream [] ->
    (getc stream).1 = none /\ Before (getc stream).2 []
  getc_cons : ∀ {stream : σ} {c : κ} {rest : List κ}, Before stream (c :: rest) ->
    (getc stream).1 = some c /\ Before (getc stream).2 rest /\ (ungetc c (getc stream).2).1
  ungetc_before : ∀ {stream : σ} {text : List κ} (c : κ), Before stream text ->
    Before (ungetc c stream).2 (if (ungetc c stream).1 then c :: text else text)

instance (κ : Type) : TextStream (List κ) κ where
  getc text :=
    match text with
    | [] => (none, [])
    | c :: rest => (some c, rest)
  ungetc c text := (true, c :: text)
  Before stream text := stream = text
  getc_nil := by
    rintro stream rfl
    exact ⟨rfl, rfl⟩
  getc_cons := by
    rintro stream c rest rfl
    exact ⟨rfl, rfl, rfl⟩
  ungetc_before := by
    rintro stream text c rfl
    rfl

open TextStream (Before)

/-! ## Reading a text -/

section Text

variable {κ α : Type}

/-- What `readOne` finds in a text. -/
def lookText (test : α -> κ -> Verdict α) (width : Int) (value : α) :
    List κ -> Reading (List κ) κ α
  | [] => ⟨if width = 0 then .full else .ended, value, 0, width, none, []⟩
  | c :: rest =>
    if width = 0 then ⟨.full, value, 0, width, none, c :: rest⟩
    else
      match test value c with
      | .take next => ⟨.taken, next, 1, narrow width, none, rest⟩
      | .last next => ⟨.last, next, 1, narrow width, none, rest⟩
      | .refuse => ⟨.refused, value, 0, width, some c, c :: rest⟩

/-- What `readWhile` finds in a text. -/
def readText (test : α -> κ -> Verdict α) (width : Int) (value : α) :
    List κ -> Reading (List κ) κ α
  | [] => ⟨if width = 0 then .full else .ended, value, 0, width, none, []⟩
  | c :: rest =>
    if width = 0 then ⟨.full, value, 0, width, none, c :: rest⟩
    else
      match test value c with
      | .take next =>
        let more := readText test (narrow width) next rest
        { more with count := more.count + 1 }
      | .last next => ⟨.last, next, 1, narrow width, none, rest⟩
      | .refuse => ⟨.refused, value, 0, width, some c, c :: rest⟩

variable (test : α -> κ -> Verdict α)

theorem lookText_full (value : α) (text : List κ) :
    lookText test 0 value text = ⟨.full, value, 0, 0, none, text⟩ := by
  cases text <;> rfl

theorem readText_full (value : α) (text : List κ) :
    readText test 0 value text = ⟨.full, value, 0, 0, none, text⟩ := by
  cases text <;> rfl

section Open

variable {test} {width : Int} (inside : width ≠ 0)

include inside

theorem lookText_nil (value : α) :
    lookText test width value [] = ⟨.ended, value, 0, width, none, []⟩ := by
  rw [lookText, if_neg inside]

theorem readText_nil (value : α) :
    readText test width value [] = ⟨.ended, value, 0, width, none, []⟩ := by
  rw [readText, if_neg inside]

variable {value next : α} {c : κ}

theorem lookText_take (verdict : test value c = .take next) (rest : List κ) :
    lookText test width value (c :: rest) = ⟨.taken, next, 1, narrow width, none, rest⟩ := by
  rw [lookText, if_neg inside, verdict]

theorem readText_take (verdict : test value c = .take next) (rest : List κ) :
    readText test width value (c :: rest) =
      { readText test (narrow width) next rest with
        count := (readText test (narrow width) next rest).count + 1 } := by
  rw [readText, if_neg inside, verdict]

theorem lookText_last (verdict : test value c = .last next) (rest : List κ) :
    lookText test width value (c :: rest) = ⟨.last, next, 1, narrow width, none, rest⟩ := by
  rw [lookText, if_neg inside, verdict]

theorem readText_last (verdict : test value c = .last next) (rest : List κ) :
    readText test width value (c :: rest) = ⟨.last, next, 1, narrow width, none, rest⟩ := by
  rw [readText, if_neg inside, verdict]

theorem lookText_refuse {value : α} (verdict : test value c = .refuse) (rest : List κ) :
    lookText test width value (c :: rest) = ⟨.refused, value, 0, width, some c, c :: rest⟩ := by
  rw [lookText, if_neg inside, verdict]

theorem readText_refuse {value : α} (verdict : test value c = .refuse) (rest : List κ) :
    readText test width value (c :: rest) = ⟨.refused, value, 0, width, some c, c :: rest⟩ := by
  rw [readText, if_neg inside, verdict]

end Open

theorem lookText_count (width : Int) (value : α) (text : List κ) :
    (lookText test width value text).count =
      if (lookText test width value text).ending = .taken \/
        (lookText test width value text).ending = .last then 1 else 0 := by
  by_cases full : width = 0
  · rw [full, lookText_full]
    rfl
  · cases text with
    | nil =>
      rw [lookText_nil full]
      rfl
    | cons c rest =>
      cases verdict : test value c with
      | take next =>
        rw [lookText_take full verdict]
        rfl
      | last next =>
        rw [lookText_last full verdict]
        rfl
      | refuse =>
        rw [lookText_refuse full verdict]
        rfl

theorem lookText_ne_last (never : ∀ value c next, test value c ≠ .last next) (width : Int)
    (value : α) (text : List κ) : (lookText test width value text).ending ≠ .last := by
  by_cases full : width = 0
  · rw [full, lookText_full]
    exact nofun
  · cases text with
    | nil =>
      rw [lookText_nil full]
      exact nofun
    | cons c rest =>
      cases verdict : test value c with
      | take next =>
        rw [lookText_take full verdict]
        exact nofun
      | last next => exact absurd verdict (never value c next)
      | refuse =>
        rw [lookText_refuse full verdict]
        exact nofun

/-- A look takes the first character of the text or leaves the text alone, and it
does not lose a character. -/
structure Reading.Splits (got : Reading (List κ) κ α) (text : List κ) : Prop where
  drop : got.stream = text.drop got.count
  inside : got.count <= text.length
  kept : got.ending.clean

theorem lookText_splits (width : Int) (value : α) (text : List κ) :
    (lookText test width value text).Splits text := by
  by_cases full : width = 0
  · rw [full, lookText_full]
    exact ⟨rfl, Nat.zero_le _, rfl⟩
  · cases text with
    | nil =>
      rw [lookText_nil full]
      exact ⟨rfl, Nat.le_refl _, rfl⟩
    | cons c rest =>
      cases verdict : test value c with
      | take next =>
        rw [lookText_take full verdict]
        exact ⟨rfl, Nat.succ_le_succ (Nat.zero_le _), rfl⟩
      | last next =>
        rw [lookText_last full verdict]
        exact ⟨rfl, Nat.succ_le_succ (Nat.zero_le _), rfl⟩
      | refuse =>
        rw [lookText_refuse full verdict]
        exact ⟨rfl, Nat.zero_le _, rfl⟩

theorem readText_splits (width : Int) (value : α) (text : List κ) :
    (readText test width value text).Splits text := by
  induction text generalizing width value with
  | nil =>
    by_cases full : width = 0
    · rw [full]
      exact ⟨rfl, Nat.le_refl _, rfl⟩
    · rw [readText_nil full]
      exact ⟨rfl, Nat.le_refl _, rfl⟩
  | cons c rest ih =>
    by_cases full : width = 0
    · rw [full]
      exact ⟨rfl, Nat.zero_le _, rfl⟩
    · cases verdict : test value c with
      | take next =>
        obtain ⟨drop, inside, kept⟩ := ih (narrow width) next
        rw [readText_take full verdict]
        exact ⟨drop, Nat.succ_le_succ inside, kept⟩
      | last next =>
        rw [readText_last full verdict]
        exact ⟨rfl, Nat.succ_le_succ (Nat.zero_le _), rfl⟩
      | refuse =>
        rw [readText_refuse full verdict]
        exact ⟨rfl, Nat.zero_le _, rfl⟩

theorem having_ne_last (test : κ -> Bool) (value : Unit) (c : κ) (next : Unit) :
    having test value c ≠ .last next := by
  unfold having
  split <;> exact nofun

theorem readText_having (test : κ -> Bool) (text : List κ) : readText (having test) (-1) () text =
      ⟨if text.dropWhile test = [] then .ended else .refused, (),
        (text.takeWhile test).length, -1, (text.dropWhile test).head?, text.dropWhile test⟩ := by
  induction text with
  | nil => rfl
  | cons c rest ih =>
    by_cases holds : test c
    · have verdict : having test () c = .take () := if_pos holds
      rw [readText_take (by decide) verdict, dropWhile_cons_of_pos holds,
        takeWhile_cons_of_pos holds, show narrow (-1) = -1 from rfl, ih]
      rfl
    · have verdict : having test () c = .refuse := if_neg holds
      rw [readText_refuse (by decide) verdict, dropWhile_cons_of_neg holds,
        takeWhile_cons_of_neg holds]
      rfl

/-! ### The text inside a field -/

def limited (width : Int) (text : List κ) : List κ :=
  if width < 0 then text else text.take width.toNat

theorem limited_zero (text : List κ) : limited 0 text = [] := rfl

theorem limited_nil (width : Int) : limited width ([] : List κ) = [] := by
  unfold limited
  split
  · rfl
  · exact take_nil

theorem limited_cons {width : Int} (inside : width ≠ 0) (c : κ) (rest : List κ) :
    limited width (c :: rest) = c :: limited (narrow width) rest := by
  unfold limited
  by_cases negative : width < 0
  · have same : narrow width = width := if_neg (by omega)
    rw [same, if_pos negative, if_pos negative]
  · have less : narrow width = width - 1 := if_pos (by omega)
    rw [less, if_neg negative, if_neg (by omega),
      show width.toNat = (width - 1).toNat + 1 by omega, take_succ_cons]

theorem limited_isPrefix (width : Int) (text : List κ) : limited width text <+: text := by
  unfold limited
  split
  · exact prefix_refl text
  · exact take_prefix _ text

/-- A reading inside a field finds what one without a limit finds in the text inside. -/
structure Reading.Inside (got whole : Reading (List κ) κ α) : Prop where
  value : got.value = whole.value
  count : got.count = whole.count
  refused : got.refused = whole.refused
  taken : got.ending = .taken <-> whole.ending = .taken
  rest : limited got.width got.stream = whole.stream

section

variable (test : α -> κ -> Verdict α) (width : Int) (value : α) (text : List κ)

theorem lookText_inside : (lookText test width value text).Inside
      (lookText test (-1) value (limited width text)) := by
  by_cases full : width = 0
  · rw [full, lookText_full]
    exact ⟨rfl, rfl, rfl, iff_of_false nofun nofun, rfl⟩
  · cases text with
    | nil =>
      rw [limited_nil, lookText_nil full]
      exact ⟨rfl, rfl, rfl, Iff.rfl, limited_nil width⟩
    | cons c rest =>
      rw [limited_cons full]
      cases verdict : test value c with
      | take next =>
        rw [lookText_take full verdict, lookText_take (by decide) verdict]
        exact ⟨rfl, rfl, rfl, Iff.rfl, rfl⟩
      | last next =>
        rw [lookText_last full verdict, lookText_last (by decide) verdict]
        exact ⟨rfl, rfl, rfl, Iff.rfl, rfl⟩
      | refuse =>
        rw [lookText_refuse full verdict, lookText_refuse (by decide) verdict]
        exact ⟨rfl, rfl, rfl, Iff.rfl, limited_cons full c rest⟩

theorem readText_inside : (readText test width value text).value =
        (readText test (-1) value (limited width text)).value /\
      (readText test width value text).count =
        (readText test (-1) value (limited width text)).count := by
  induction text generalizing width value with
  | nil =>
    rw [limited_nil]
    by_cases full : width = 0
    · exact ⟨rfl, rfl⟩
    · exact ⟨rfl, rfl⟩
  | cons c rest ih =>
    by_cases full : width = 0
    · rw [full, limited_zero]
      exact ⟨rfl, rfl⟩
    · rw [limited_cons full]
      cases verdict : test value c with
      | take next =>
        obtain ⟨sameValue, sameCount⟩ := ih (narrow width) next
        rw [readText_take full verdict, readText_take (by decide) verdict]
        exact ⟨sameValue, congrArg (· + 1) sameCount⟩
      | last next =>
        rw [readText_last full verdict, readText_last (by decide) verdict]
        exact ⟨rfl, rfl⟩
      | refuse =>
        rw [readText_refuse full verdict, readText_refuse (by decide) verdict]
        exact ⟨rfl, rfl⟩

end

theorem Reading.Splits.length {got : Reading (List κ) κ α} {text : List κ}
    (splits : got.Splits text) : got.count + got.stream.length = text.length := by
  have inside := splits.inside
  rw [splits.drop, length_drop]
  omega

end Text

/-! ## Reading a stream -/

section Stream

variable {σ κ α : Type} [TextStream σ κ] {stream : σ} {text : List κ}

/-- A stream was read as its text would be. -/
structure Reading.Agrees (got : Reading σ κ α) (pure : Reading (List κ) κ α) : Prop where
  ending : got.ending = pure.ending
  value : got.value = pure.value
  count : got.count = pure.count
  width : got.width = pure.width
  refused : got.refused = pure.refused
  before : Before got.stream pure.stream

theorem readOne_agrees (test : α -> κ -> Verdict α) (width : Int) (value : α)
    (before : Before stream text) :
    (readOne test width value stream).Agrees (lookText test width value text) := by
  unfold readOne
  by_cases full : width = 0
  · rw [full, lookText_full]
    exact ⟨rfl, rfl, rfl, rfl, rfl, before⟩
  · rw [if_neg full]
    cases text with
    | nil =>
      rw [lookText_nil full]
      obtain ⟨ended, after⟩ := TextStream.getc_nil before
      generalize CharStream.getc stream = result at ended after
      obtain ⟨_, next⟩ := result
      cases ended
      exact ⟨rfl, rfl, rfl, rfl, rfl, after⟩
    | cons c rest =>
      obtain ⟨found, after, back⟩ := TextStream.getc_cons before
      generalize CharStream.getc stream = result at found after back
      obtain ⟨_, next⟩ := result
      cases found
      dsimp only at after back ⊢
      cases verdict : test value c with
      | take =>
        rw [lookText_take full verdict]
        exact ⟨rfl, rfl, rfl, rfl, rfl, after⟩
      | last =>
        rw [lookText_last full verdict]
        exact ⟨rfl, rfl, rfl, rfl, rfl, after⟩
      | refuse =>
        rw [lookText_refuse full verdict]
        have again := TextStream.ungetc_before c after
        generalize CharStream.ungetc c next = result at back again
        obtain ⟨_, last⟩ := result
        cases back
        exact ⟨rfl, rfl, rfl, rfl, rfl, again⟩

theorem readWhile_agrees (test : α -> κ -> Verdict α) {fuel : Nat} (width : Int) (value : α)
    (before : Before stream text) (enough : text.length < fuel) :
    (readWhile test fuel width value stream).Agrees (readText test width value text) := by
  induction fuel generalizing width value stream text with
  | zero => exact absurd enough (Nat.not_lt_zero _)
  | succ fuel ih =>
    have one := readOne_agrees test width value before
    rw [readWhile]
    -- a look that does not take its character is the whole reading
    have whole (stays : (lookText test width value text).ending ≠ .taken)
        (same : readText test width value text = lookText test width value text) :
        Reading.Agrees (match (readOne test width value stream).ending with
          | .taken =>
            let more := readWhile test fuel (readOne test width value stream).width
              (readOne test width value stream).value (readOne test width value stream).stream
            { more with count := more.count + 1 }
          | _ => readOne test width value stream) (readText test width value text) := by
      rw [same]
      split
      · rename_i taken
        exact absurd (one.ending.symm.trans taken) stays
      · exact one
    by_cases full : width = 0
    · subst full
      refine whole ?_ ?_
      · rw [lookText_full]
        exact nofun
      · rw [lookText_full, readText_full]
    · cases text with
      | nil =>
        refine whole ?_ ?_
        · rw [lookText_nil full]
          exact nofun
        · rw [lookText_nil full, readText_nil full]
      | cons c rest =>
        cases verdict : test value c with
        | take next =>
          rw [lookText_take full verdict] at one
          have more := ih (narrow width) next one.before (Nat.lt_of_succ_lt_succ enough)
          rw [readText_take full verdict, one.ending, one.width, one.value]
          exact ⟨more.ending, more.value, congrArg (· + 1) more.count, more.width,
            more.refused, more.before⟩
        | last next =>
          refine whole ?_ ?_
          · rw [lookText_last full verdict]
            exact nofun
          · rw [lookText_last full verdict, readText_last full verdict]
        | refuse =>
          refine whole ?_ ?_
          · rw [lookText_refuse full verdict]
            exact nofun
          · rw [lookText_refuse full verdict, readText_refuse full verdict]

theorem putBack_before (characters : List κ) (before : Before stream text) :
    ∃ text', Before (putBack characters stream).2 text' /\
      text'.length = text.length + (putBack characters stream).1 /\
      (putBack characters stream).1 <= characters.length := by
  induction characters generalizing stream text with
  | nil => exact ⟨text, before, rfl, Nat.le_refl _⟩
  | cons c rest ih =>
    have after := TextStream.ungetc_before c before
    rw [putBack]
    generalize CharStream.ungetc c stream = result at after ⊢
    obtain ⟨success, next⟩ := result
    cases success with
    | true =>
      have longer : Before next (c :: text) := after
      obtain ⟨text', before', length, inside⟩ := ih longer
      refine ⟨text', before', ?_, Nat.succ_le_succ inside⟩
      dsimp only
      rw [length, length_cons]
      omega
    | false =>
      have same := after
      obtain ⟨text', before', length, inside⟩ := ih same
      exact ⟨text', before', length, Nat.le_succ_of_le inside⟩

theorem before_unique {other : List κ} (before : Before stream text)
    (before' : Before stream other) : text = other := by
  induction text generalizing stream other with
  | nil =>
    cases other with
    | nil => rfl
    | cons c rest =>
      have none := (TextStream.getc_nil before).1
      rw [(TextStream.getc_cons before').1] at none
      cases none
  | cons c rest ih =>
    have first := TextStream.getc_cons before
    cases other with
    | nil =>
      have none := (TextStream.getc_nil before').1
      rw [first.1] at none
      cases none
    | cons d rest' =>
      have second := TextStream.getc_cons before'
      have same := Option.some.inj (first.1.symm.trans second.1)
      rw [same, ih first.2.1 second.2.1]

theorem skipped_before (before : Before stream text) {count : Nat}
    (inside : count <= text.length) : Before (skipped count stream) (text.drop count) := by
  induction count with
  | zero => exact before
  | succ count ih =>
    have here := ih (Nat.le_of_succ_le inside)
    rw [drop_eq_getElem_cons inside] at here
    exact (TextStream.getc_cons here).2.1

end Stream

end Foundation
