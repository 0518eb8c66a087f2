import Clib4.Stdio.Scanf.Counting

namespace Clib4.Stdio.Scanf

open Foundation Stdlib List
open TextStream (Before)

/-!
# The search for a keyword

The floating point branch looks for `inf`, `infinity` and `nan` before it looks
for digits.  The characters it reads then are not counted one by one: a keyword
sets the counter to its own length, whatever had been counted before it, and
characters that turn out not to be a keyword are put back as far as the stream
takes them, or kept where the stream or the field ends.
-/

/-- How the search ends: with so many characters of `infinity` or `nan` matched
and so many read, or with a character that does not match behind so many others,
which are then put back. -/
inductive KeywordEnd
  | matched (infinityMatch nanMatch read : Nat)
  | mismatch (read : Nat)
  deriving DecidableEq, Repr

def parenthesisText (width : Int) (text : List UInt8) : Nat :=
  let first := lookText (having fun c => c == byteOf '(') width () text
  if first.ending = .taken then
    1 + (readText untilParenthesis first.width () first.stream).count
  else 0

def keywordText : Nat -> Int -> Nat -> Nat -> Nat -> List UInt8 -> KeywordEnd
  | 0, _, infinityMatch, nanMatch, read, _ => .matched infinityMatch nanMatch read
  | _ + 1, _, infinityMatch, nanMatch, read, [] => .matched infinityMatch nanMatch read
  | room + 1, width, infinityMatch, nanMatch, read, c :: text =>
    if width = 0 then .matched infinityMatch nanMatch read
    else
      match keywordStep infinityMatch nanMatch c with
      | .infinity =>
        if infinityMatch + 1 = infinityString.length then
          .matched (infinityMatch + 1) 0 (read + 1)
        else keywordText room (narrow width) (infinityMatch + 1) 0 (read + 1) text
      | .inf => .matched infinityMatch 0 read
      | .nan =>
        if nanMatch + 1 = nanString.length then
          let more := if room = 0 then 0 else parenthesisText (narrow width) text
          .matched 0 (nanMatch + 1 + more) (read + 1 + more)
        else keywordText room (narrow width) 0 (nanMatch + 1) (read + 1) text
      | .mismatch => .mismatch read

section Search

variable {σ ρ : Type} [TextStream σ UInt8] {fuel : Nat}

/-- The stream takes back the characters it has just given away. -/
def TakesBack (count : Nat) (stream : σ) (text : List UInt8) : Prop :=
  (putBack (text.take count).reverse (skipped count stream)).1 = count

/-- What the search leaves: nothing but the place in the stream, the width and
the matches has changed. -/
structure Unchanged (before after : Field σ ρ) : Prop where
  total : after.scan.totalNumCharsRead = before.scan.totalNumCharsRead
  processed : after.processed = before.processed

omit [TextStream σ UInt8] in
theorem Unchanged.onto (field : Field σ ρ) (width : Int) (stream : σ) :
    Unchanged field (field.onto width stream) := ⟨rfl, rfl⟩

variable {state : Keyword σ ρ}

theorem readParenthesis_spec {text : List UInt8}
    (before : Before state.field.scan.stream text) (enough : text.length < fuel) :
    ∃ after, readParenthesis fuel state = .ok after /\
      after.infinityMatch = state.infinityMatch /\
      after.nanMatch = state.nanMatch + parenthesisText state.field.width text /\
      Unchanged state.field after.field /\
      parenthesisText state.field.width text <= text.length /\
      Before after.field.scan.stream (text.drop (parenthesisText state.field.width text)) := by
  have agrees := readOne_agrees (having fun c => c == byteOf '(') state.field.width () before
  have splits := lookText_splits (having fun c => c == byteOf '(') state.field.width () text
  have counted := lookText_count (having fun c => c == byteOf '(') state.field.width () text
  have notLast := lookText_ne_last _ (having_ne_last fun c => c == byteOf '(')
    state.field.width () text
  unfold readParenthesis parenthesisText
  dsimp only
  generalize readOne (having fun c => c == byteOf '(') state.field.width ()
    state.field.scan.stream = got at agrees
  generalize lookText (having fun c => c == byteOf '(') state.field.width () text = look
    at agrees splits counted notLast
  have inside := splits.length
  rw [agrees.ending]
  by_cases taken : look.ending = .taken
  · -- the opening parenthesis, and everything up to the closing one
    have one := counted.trans (if_pos (Or.inl taken))
    have rest := readWhile_agrees untilParenthesis look.width () agrees.before
      (by omega : look.stream.length < fuel)
    have restSplits := readText_splits untilParenthesis look.width () look.stream
    have restInside := restSplits.length
    rw [taken, if_pos rfl, agrees.width]
    have finished : (readWhile untilParenthesis fuel look.width () got.stream).ending ≠
        .unfinished := by
      intro unfinished
      have clean := restSplits.kept
      rw [<- rest.ending, unfinished] at clean
      cases clean
    rw [if_neg finished]
    refine ⟨_, rfl, rfl, ?_, .onto _ _ _, by omega, ?_⟩
    · rw [rest.count, Nat.add_assoc]
    · have joined (count : Nat) : look.stream.drop count = text.drop (1 + count) := by
        rw [splits.drop, drop_drop, one]
      have behind := rest.before
      rw [restSplits.drop, joined] at behind
      exact behind
  · have zero := counted.trans (if_neg (not_or.mpr ⟨taken, notLast⟩))
    have behind := agrees.before
    rw [splits.drop, zero] at behind
    cases ending : look.ending with
    | taken => exact absurd ending taken
    | lost | unfinished =>
      have clean := splits.kept
      rw [ending] at clean
      cases clean
    | full | last | ended | refused =>
      exact ⟨_, rfl, rfl, rfl, .onto _ _ _, Nat.zero_le _, behind⟩

/-- What the search has found in a text that a stream stood before. -/
def Found (stream : σ) (text : List UInt8) (state : Keyword σ ρ) : KeywordEnd -> Prop
  | .matched infinityMatch nanMatch read =>
    state.infinityMatch = infinityMatch /\ state.nanMatch = nanMatch /\ read <= text.length /\
      Before state.field.scan.stream (text.drop read)
  | .mismatch read =>
    state.infinityMatch = 0 /\ state.nanMatch = 0 /\ read < text.length /\ state.field.scan.stream =
        (putBack (text.take (read + 1)).reverse (skipped (read + 1) stream)).2

/-- In the middle of the search: the characters read so far are those in front of
the text. -/
structure Searching (stream : σ) (text : List UInt8) (state : Keyword σ ρ) (read : Nat) : Prop where
  inside : read <= text.length
  characters : state.characters = (text.take read).reverse
  stream : state.field.scan.stream = skipped read stream

variable {stream : σ} {text : List UInt8} {read : Nat}

theorem Searching.next (searching : Searching stream text state read) {c : UInt8}
    {rest : List UInt8} (here : text.drop read = c :: rest) (width : Int)
    (infinityMatch nanMatch : Nat) :
    Searching stream text
      (⟨state.field.onto width (CharStream.getc state.field.scan.stream).2,
        c :: state.characters, infinityMatch, nanMatch⟩ : Keyword σ ρ) (read + 1) /\
      text.drop (read + 1) = rest := by
  have inside : read < text.length := by
    by_contra outside
    rw [drop_eq_nil_of_le (by omega)] at here
    cases here
  have parts := drop_eq_getElem_cons inside
  rw [here] at parts
  obtain ⟨first, behind⟩ := List.cons.inj parts
  refine ⟨⟨inside, ?_, ?_⟩, behind.symm⟩
  · rw [searching.characters, take_succ_eq_append_getElem inside, reverse_append, first]
    rfl
  · rw [searching.stream]
    rfl

/-- The search reads a stream as it would read its text. -/
theorem searchKeyword_spec (before : Before stream text) (enough : text.length < fuel)
    (room : Nat) (searching : Searching stream text state read) :
    ∃ after, searchKeyword fuel room state = .ok after /\ Unchanged state.field after.field /\
      Found stream text after (keywordText room state.field.width state.infinityMatch
        state.nanMatch read (text.drop read)) := by
  induction room generalizing state read with
  | zero =>
    refine ⟨state, rfl, ⟨rfl, rfl⟩, rfl, rfl, searching.inside, ?_⟩
    rw [searching.stream]
    exact skipped_before before searching.inside
  | succ room ih =>
    have here : Before state.field.scan.stream (text.drop read) := by
      rw [searching.stream]
      exact skipped_before before searching.inside
    rw [searchKeyword]
    dsimp only
    by_cases full : state.field.width = 0
    · have ended : keywordText (room + 1) state.field.width state.infinityMatch state.nanMatch
          read (text.drop read) = .matched state.infinityMatch state.nanMatch read := by
        cases text.drop read with
        | nil => rfl
        | cons c rest => rw [keywordText, if_pos full]
      rw [if_pos full, ended]
      exact ⟨state, rfl, ⟨rfl, rfl⟩, rfl, rfl, searching.inside, here⟩
    · rw [if_neg full]
      cases left : text.drop read with
      | nil =>
        rw [left] at here
        obtain ⟨none, behind⟩ := TextStream.getc_nil here
        generalize CharStream.getc state.field.scan.stream = result at none behind
        obtain ⟨_, next⟩ := result
        cases none
        refine ⟨_, rfl, .onto _ _ _, rfl, rfl, searching.inside, ?_⟩
        rw [left]
        exact behind
      | cons c rest =>
        have advance := searching.next left (narrow state.field.width)
        rw [left] at here
        obtain ⟨some, behind, back⟩ := TextStream.getc_cons here
        have again := TextStream.ungetc_before c behind
        rw [keywordText, if_neg full]
        generalize CharStream.getc state.field.scan.stream = result
          at some behind back again advance
        obtain ⟨_, next⟩ := result
        cases some
        dsimp only at behind back again advance ⊢
        cases keywordStep state.infinityMatch state.nanMatch c with
        | infinity =>
          obtain ⟨moved, same⟩ := advance (state.infinityMatch + 1) 0
          dsimp only
          split_ifs with whole
          · refine ⟨_, rfl, .onto _ _ _, rfl, rfl, moved.inside, ?_⟩
            rw [same]
            exact behind
          · obtain ⟨after, searched, unchanged, found⟩ := ih moved
            rw [same] at found
            exact ⟨after, searched, ⟨unchanged.total, unchanged.processed⟩, found⟩
        | inf =>
          dsimp only
          generalize CharStream.ungetc c next = result at back again
          obtain ⟨_, last⟩ := result
          cases back
          refine ⟨_, rfl, .onto _ _ _, rfl, rfl, searching.inside, ?_⟩
          rw [left]
          exact again
        | nan =>
          obtain ⟨moved, same⟩ := advance 0 (state.nanMatch + 1)
          dsimp only
          split_ifs with whole none
          · refine ⟨_, rfl, .onto _ _ _, rfl, rfl, moved.inside, ?_⟩
            rw [same]
            exact behind
          · have length : rest.length = text.length - (read + 1) := by
              rw [<- same, length_drop]
            have inside := moved.inside
            have short : rest.length < fuel := by omega
            obtain ⟨after, parsed, infinity, nan, unchanged, within, behind'⟩ :=
              @readParenthesis_spec σ ρ _ fuel ⟨state.field.onto
                (narrow state.field.width) next, c :: state.characters, 0,
                state.nanMatch + 1⟩ rest behind short
            have within' : parenthesisText (narrow state.field.width) rest <= rest.length :=
              within
            refine ⟨after, parsed, ⟨unchanged.total, unchanged.processed⟩, infinity, nan,
              by omega, ?_⟩
            rw [<- drop_drop, same]
            exact behind'
          · obtain ⟨after, searched, unchanged, found⟩ := ih moved
            rw [same] at found
            exact ⟨after, searched, ⟨unchanged.total, unchanged.processed⟩, found⟩
        | mismatch =>
          obtain ⟨moved, same⟩ := advance 0 0
          have characters := moved.characters
          have skip : next = skipped (read + 1) stream := moved.stream
          have inside := moved.inside
          unfold Found
          dsimp only
          rw [<- characters, <- skip, putBack]
          generalize CharStream.ungetc c next = result at back again
          obtain ⟨_, last⟩ := result
          cases back
          exact ⟨_, rfl, .onto _ _ _, rfl, rfl, inside, rfl⟩

/-! ## What the search does to the count -/

/-- The search keeps the count right: a keyword is all that was read so far; what
is not one is put back; and nothing was read where the stream or the field ends. -/
def KeywordCounted (total width : Int) (stream : σ) (text : List UInt8) : Prop :=
  match keywordText keywordRoom width 0 0 0 text with
  | .matched infinityMatch nanMatch read =>
    if 3 <= infinityMatch then total + read = infinityMatch
    else if 3 <= nanMatch then total + read = nanMatch
    else read = 0
  | .mismatch read => TakesBack (read + 1) stream text

/-- The field in which a directive begins to search for a keyword. -/
def KeywordMet (field : Field σ ρ) : Prop :=
  ∀ text, Before field.scan.stream text ->
    KeywordCounted field.scan.totalNumCharsRead field.width field.scan.stream text

theorem keywordMet_iff {field : Field σ ρ} (before : Before field.scan.stream text) :
    KeywordMet field <->
      KeywordCounted field.scan.totalNumCharsRead field.width field.scan.stream text := by
  constructor
  · intro met
    exact met text before
  · intro counted other before'
    rw [before_unique before' before]
    exact counted

variable {bound : Nat} {balance : Int} {other : Int}

theorem Balanced.unique {scan : Scan σ ρ} (balanced : Balanced bound balance scan)
    (balanced' : Balanced bound other scan) : balance = other := by
  obtain ⟨text, before, _, sum⟩ := balanced
  obtain ⟨text', before', _, sum'⟩ := balanced'
  rw [before_unique before before'] at sum
  omega

theorem Leaves.unique {α : Type} {scanOf : α -> Scan σ ρ} {result : Except (Halt σ ρ) α}
    (leaves : Leaves (Balanced bound balance) scanOf result)
    (leaves' : Leaves (Balanced bound other) scanOf result) : balance = other := by
  cases result with
  | ok value => exact Balanced.unique leaves leaves'
  | error halt =>
    cases halt with
    | stop scan | out scan => exact Balanced.unique leaves leaves'
    | unfinished => exact absurd leaves id

theorem readKeyword_eq (host : Platform) {field : Field σ host.LongDouble}
    {state : Keyword σ host.LongDouble}
    (searched : searchKeyword fuel keywordRoom ⟨field, [], 0, 0⟩ = .ok state) :
    readKeyword host fuel field = .ok (if 3 <= state.infinityMatch then
        (host.infinity, state.field.keyword state.infinityMatch)
      else if 3 <= state.nanMatch then (host.nan, state.field.keyword state.nanMatch)
      else (host.zero, state.field)) := by
  unfold readKeyword
  rw [searched]
  show (if 3 <= state.infinityMatch then _ else if 3 <= state.nanMatch then _ else _) = _
  split_ifs <;> rfl

theorem Balanced.readKeyword (host : Platform) (enough : bound < fuel)
    {field : Field σ host.LongDouble} (balanced : Balanced bound balance field.scan) :
    ∃ sum after balance', readKeyword host fuel field = .ok (sum, after) /\
      Balanced bound balance' after.scan /\ (balance' = balance <-> KeywordMet field) := by
  obtain ⟨text, before, bounded, total⟩ := balanced
  have searching : Searching field.scan.stream text
      (⟨field, [], 0, 0⟩ : Keyword σ host.LongDouble) 0 :=
    ⟨Nat.zero_le _, rfl, rfl⟩
  obtain ⟨after, searched, unchanged, found⟩ :=
    searchKeyword_spec before (by omega : text.length < fuel) keywordRoom searching
  have sameTotal : after.field.scan.totalNumCharsRead = field.scan.totalNumCharsRead :=
    unchanged.total
  rw [keywordMet_iff before, readKeyword_eq host searched]
  unfold KeywordCounted
  have met : Found field.scan.stream text after (keywordText keywordRoom field.width 0 0 0 text) :=
    found
  generalize keywordText keywordRoom field.width 0 0 0 text = ending at met
  cases ending with
  | matched infinityMatch nanMatch read =>
    obtain ⟨infinity, nan, inside, behind⟩ := met
    have left : ((text.drop read).length : Int) = text.length - read := by
      rw [length_drop]
      omega
    -- the counter is set to the length of the keyword, or left alone
    have set (count : Nat) : Balanced bound (count + (text.drop read).length)
        (after.field.keyword count).scan :=
      ⟨text.drop read, behind, by omega, rfl⟩
    rw [infinity, nan]
    dsimp only
    split_ifs
    · exact ⟨_, _, _, rfl, set infinityMatch, by omega⟩
    · exact ⟨_, _, _, rfl, set nanMatch, by omega⟩
    · exact ⟨_, _, _, rfl, ⟨text.drop read, behind, by omega, rfl⟩, by omega⟩
  | mismatch read =>
    obtain ⟨infinity, nan, inside, back⟩ := met
    have whole : read + 1 <= text.length := inside
    obtain ⟨text', before', length, few⟩ := putBack_before (text.take (read + 1)).reverse
      (skipped_before before whole)
    rw [<- back] at before'
    rw [length_drop] at length
    rw [length_reverse, length_take] at few
    rw [infinity, nan]
    refine ⟨_, _, _, rfl, ⟨text', before', by omega, rfl⟩, ?_⟩
    unfold TakesBack
    dsimp only
    omega

end Search

end Clib4.Stdio.Scanf
