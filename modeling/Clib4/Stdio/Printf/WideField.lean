import Clib4.Stdio.Printf.Convert

namespace Clib4.Stdio.Printf

open List

/-!
# Wide strings and wide characters

What `%ls`, `%S`, `%lc` and `%C` are for: the longest whole-character prefix
of the multibyte conversion that fits into the precision, padded to the field
width.  The loops of the `S` case compare the index with the precision as an
`int`, so they only deliver it where a precision was given; and no flag stands
for blanks in front of a field with the flag `0`.
-/

section Multibyte

variable (wctomb : Nat -> Option (List UInt8))

def wideChars (ws : List Nat) : List Nat := ws.takeWhile (· ≠ 0)

def Converts (chars : List Nat) : Prop := ∀ c ∈ chars, (wctomb c).isSome

def multibyteChar (c : Nat) : List UInt8 := (wctomb c).getD []

def multibyte (chars : List Nat) : List UInt8 := chars.flatMap (multibyteChar wctomb)

/-- The longest prefix of whole characters with at most `p` bytes; everything
for a negative `p`, which stands for no precision. -/
def LongestPrefix (p : Int) (chars : List Nat) (text : List UInt8) : Prop :=
  if p < 0 then text = multibyte wctomb chars
  else
    (∃ count, text = multibyte wctomb (chars.take count)) /\ text.length <= p /\
    ∀ count, ((multibyte wctomb (chars.take count)).length : Int) <= p ->
      (multibyte wctomb (chars.take count)).length <= text.length

def fitting : Nat -> List Nat -> List UInt8
  | _, [] => []
  | room, c :: rest =>
    let mb := multibyteChar wctomb c
    if mb.length <= room then mb ++ fitting (room - mb.length) rest else []

def prefixFor (p : Int) (chars : List Nat) : List UInt8 :=
  if p < 0 then multibyte wctomb chars else fitting wctomb p.toNat chars

variable {wctomb}

theorem multibyte_cons (c : Nat) (rest : List Nat) :
    multibyte wctomb (c :: rest) = multibyteChar wctomb c ++ multibyte wctomb rest :=
  flatMap_cons

theorem multibyte_take_isPrefix (chars : List Nat) {one other : Nat} (le : one <= other) :
    multibyte wctomb (chars.take one) <+: multibyte wctomb (chars.take other) := by
  obtain ⟨rest, split⟩ : chars.take one <+: chars.take other := take_prefix_take_left le
  refine ⟨multibyte wctomb rest, ?_⟩
  rw [<- split, multibyte, multibyte, multibyte, flatMap_append]

theorem fitting_zero (chars : List Nat) : fitting wctomb 0 chars = [] := by
  induction chars with
  | nil =>
    rfl
  | cons c rest ih =>
    rw [fitting]
    split
    · rename_i empty
      rw [eq_nil_of_length_eq_zero (Nat.le_zero.mp empty)]
      exact ih
    · rfl

theorem fitting_longest (room : Nat) (chars : List Nat) :
    (∃ count, fitting wctomb room chars = multibyte wctomb (chars.take count)) /\
    (fitting wctomb room chars).length <= room /\
    ∀ count, (multibyte wctomb (chars.take count)).length <= room ->
      (multibyte wctomb (chars.take count)).length <= (fitting wctomb room chars).length := by
  induction chars generalizing room with
  | nil =>
    refine ⟨⟨0, rfl⟩, Nat.zero_le _, fun count _ => ?_⟩
    rw [take_nil]
    exact Nat.le_refl 0
  | cons c rest ih =>
    rw [fitting]
    by_cases fits : (multibyteChar wctomb c).length <= room
    · obtain ⟨⟨count, taken⟩, bounded, longest⟩ := ih (room - (multibyteChar wctomb c).length)
      rw [if_pos fits, length_append]
      refine ⟨⟨count + 1, ?_⟩, by omega, ?_⟩
      · rw [take_succ_cons, multibyte_cons, taken]
      · intro other small
        cases other with
        | zero => exact Nat.zero_le _
        | succ other =>
          rw [take_succ_cons, multibyte_cons, length_append] at small ⊢
          have := longest other (by omega)
          omega
    · rw [if_neg fits]
      refine ⟨⟨0, rfl⟩, Nat.zero_le _, ?_⟩
      intro other small
      cases other with
      | zero => exact Nat.le_refl 0
      | succ other =>
        rw [take_succ_cons, multibyte_cons, length_append] at small
        omega

theorem longestPrefix_iff (p : Int) (chars : List Nat) (text : List UInt8) :
    LongestPrefix wctomb p chars text <-> text = prefixFor wctomb p chars := by
  rw [LongestPrefix, prefixFor]
  by_cases none : p < 0
  · rw [if_pos none, if_pos none]
  · obtain ⟨⟨count, taken⟩, bounded, longest⟩ := @fitting_longest wctomb p.toNat chars
    rw [if_neg none, if_neg none]
    constructor
    · rintro ⟨⟨other, rfl⟩, fits, best⟩
      -- Both are prefixes of the same conversion, and neither is longer.
      have upper := longest other (by omega)
      have lower := best count (by rw [<- taken]; omega)
      rw [<- taken] at lower
      have same : (multibyte wctomb (chars.take other)).length =
          (multibyte wctomb (chars.take count)).length := by rw [<- taken]; omega
      rw [taken]
      rcases Nat.le_total other count with le | le
      · exact (multibyte_take_isPrefix chars le).eq_of_length same
      · exact ((multibyte_take_isPrefix chars le).eq_of_length same.symm).symm
    · rintro rfl
      exact ⟨⟨count, taken⟩, by omega, fun other fits => longest other (by omega)⟩

theorem wideText_eq (p : Int) (ws : List Nat) (converts : Converts wctomb (wideChars ws))
    (done : List UInt8) (bounded : (done.length : Int) <= p) :
    wideText wctomb p ws done =
      .ok (done ++ fitting wctomb (p - done.length).toNat (wideChars ws)) := by
  induction ws generalizing done with
  | nil =>
    rw [wideText, wideChars, takeWhile_nil, fitting, append_nil]
  | cons c rest ih =>
    rw [wideText]
    by_cases ends : c = 0
    · rw [if_neg (fun more => more.2 ends), wideChars, takeWhile_cons_of_neg (by simp [ends]),
        fitting, append_nil]
    · have split : wideChars (c :: rest) = c :: wideChars rest :=
        takeWhile_cons_of_pos (by simp [ends])
      rw [split] at converts ⊢
      obtain ⟨mb, converted⟩ := Option.isSome_iff_exists.mp (converts c mem_cons_self)
      have bytes : multibyteChar wctomb c = mb := by rw [multibyteChar, converted, Option.getD_some]
      by_cases more : (done.length : Int) < p
      · rw [if_pos ⟨more, ends⟩, converted, fitting, bytes]
        dsimp only
        by_cases fits : (mb.length : Int) <= p - done.length
        · have longer : ((done ++ mb).length : Int) <= p := by
            rw [length_append]
            omega
          have room : (p - (done ++ mb).length).toNat = (p - done.length).toNat - mb.length := by
            rw [length_append]
            omega
          rw [if_pos fits, if_pos (by omega),
            ih (fun c mem => converts c (mem_cons_of_mem _ mem)) _ longer, room,
            append_assoc]
        · rw [if_neg fits, if_neg (by omega), append_nil]
      · have full : (p - done.length).toNat = 0 := by omega
        rw [if_neg (fun both => more both.1), full, fitting_zero, append_nil]

theorem wideText_negative {p : Int} (none : p < 0) (ws : List Nat) :
    wideText wctomb p ws [] = .ok [] := by
  cases ws with
  | nil => rfl
  | cons c rest =>
    rw [wideText, if_neg]
    rintro ⟨more, -⟩
    omega

end Multibyte

/-! ## Padding -/

def gap (w : Int) (text : List UInt8) : Nat := (w - text.length).toNat

/-- Padded to the field width, on the side the flag `-` selects.  The flag `0`
allows zeros in front instead of blanks. -/
def PaddedTo (fl : Flags) (w : Int) (text field : List UInt8) : Prop :=
  if fl.leftAdj then field = text ++ List.replicate (gap w text) (ch ' ')
  else
    field = List.replicate (gap w text) (ch ' ') ++ text \/
    (fl.zeroPad /\ field = List.replicate (gap w text) (ch '0') ++ text)

/-- The flags `-` and `0` exclude each other. -/
def Flags.excl (fl : Flags) : Flags :=
  if fl.leftAdj then { fl with zeroPad := false } else fl

/-- What the `S` case writes around its text. -/
def padded (fl : Flags) (w : Int) (text : List UInt8) : List UInt8 :=
  pad ' ' w text.length fl.excl ++ text ++ pad ' ' w text.length fl.excl.flipLeft

/-- The flag `0` takes part in padding. -/
def ZeroPadded (fl : Flags) : Prop := fl.zeroPad /\ fl.leftAdj = false

variable {fl : Flags}

theorem pad_eq_gap (c : Char) (w : Int) (text : List UInt8)
    (right : fl.leftAdj = false) (blanks : fl.zeroPad = false) :
    pad c w text.length fl = List.replicate (gap w text) (ch c) := by
  rw [pad, right, blanks, gap]
  by_cases wide : w <= text.length
  · have none : (w - text.length).toNat = 0 := by omega
    rw [if_pos (.inr (.inr wide)), none, replicate_zero]
  · rw [if_neg (by simpa using wide)]

theorem pad_eq_nil (c : Char) (w l : Int) (flagged : fl.leftAdj \/ fl.zeroPad) :
    pad c w l fl = [] := by
  rw [pad, if_pos]
  rcases flagged with left | zero
  · exact .inl left
  · exact .inr (.inl zero)

theorem padded_left (left : fl.leftAdj) (w : Int) (text : List UInt8) :
    padded fl w text = text ++ List.replicate (gap w text) (ch ' ') := by
  have flags : fl.excl = { fl with zeroPad := false } := if_pos left
  rw [padded, flags, @pad_eq_nil { fl with zeroPad := false } ' ' w _ (.inl left), nil_append]
  exact congrArg (text ++ ·) (pad_eq_gap ' ' w text (by simp [Flags.flipLeft, left]) rfl)

theorem padded_right (right : fl.leftAdj = false) (blanks : fl.zeroPad = false)
    (w : Int) (text : List UInt8) :
    padded fl w text = List.replicate (gap w text) (ch ' ') ++ text := by
  have flags : fl.excl = fl := if_neg (by simp [right])
  rw [padded, flags, pad_eq_gap ' ' w text right blanks,
    pad_eq_nil _ _ _ (.inl (by simp [Flags.flipLeft, right])), append_nil]

theorem padded_zero (zero : ZeroPadded fl) (w : Int) (text : List UInt8) :
    padded fl w text = text := by
  have flags : fl.excl = fl := if_neg (by simp [zero.2])
  rw [padded, flags, @pad_eq_nil fl ' ' w _ (.inr zero.1), @pad_eq_nil fl.flipLeft ' ' w _ (.inr zero.1),
    nil_append, append_nil]

variable {text : List UInt8}

/-- A text is padded as it should be, unless the flag `0` keeps blanks away
that are needed. -/
theorem padded_self_iff {fl : Flags} {w : Int} :
    PaddedTo fl w text (padded fl w text) <-> (ZeroPadded fl -> w <= text.length) := by
  rw [PaddedTo]
  cases left : fl.leftAdj with
  | true =>
    rw [if_pos rfl, padded_left left]
    exact iff_of_true rfl fun zero => absurd (left.symm.trans zero.2) (by decide)
  | false =>
    cases blanks : fl.zeroPad with
    | false =>
      rw [padded_right left blanks]
      exact iff_of_true (.inl rfl) fun zero => absurd (blanks.symm.trans zero.1) (by decide)
    | true =>
      have lengths : ∀ c, text = List.replicate (gap w text) c ++ text -> w <= text.length := by
        intro c same
        have := congrArg List.length same
        rw [length_append, length_replicate] at this
        unfold gap at this
        omega
      rw [padded_zero ⟨blanks, left⟩]
      constructor
      · rintro (same | ⟨-, same⟩) -
        all_goals exact lengths _ same
      · intro wide
        have none : gap w text = 0 := by
          have := wide ⟨blanks, left⟩
          unfold gap
          omega
        rw [none]
        exact .inl rfl

/-- Bytes of one kind alone are a padded text exactly when the text is made of
them itself and fits. -/
theorem replicate_gap_iff {c : UInt8} {w : Int} :
    text.length + gap w text = gap w [] /\ text = List.replicate text.length c <->
      (∀ d ∈ text, d = c) /\ text.length <= w.toNat := by
  rw [eq_replicate_iff, gap, gap, length_nil]
  constructor
  · rintro ⟨total, -, all⟩
    exact ⟨all, by omega⟩
  · rintro ⟨all, fits⟩
    exact ⟨by omega, rfl, all⟩

theorem padded_nil_iff {fl : Flags} {w : Int} :
    PaddedTo fl w text (padded fl w []) <->
      (∀ d ∈ text, d = ch ' ') /\ text.length <= w.toNat /\ (ZeroPadded fl -> w <= 0) := by
  rw [PaddedTo]
  cases left : fl.leftAdj with
  | true =>
    have free : ZeroPadded fl -> w <= 0 := fun zero => absurd (left.symm.trans zero.2) (by decide)
    rw [if_pos rfl, padded_left left, nil_append, eq_comm, append_eq_replicate_iff,
      length_replicate, and_iff_left rfl, replicate_gap_iff, and_iff_left free]
  | false =>
    rw [if_neg Bool.false_ne_true]
    cases blanks : fl.zeroPad with
    | false =>
      have free : ZeroPadded fl -> w <= 0 :=
        fun zero => absurd (blanks.symm.trans zero.1) (by decide)
      rw [padded_right left blanks, append_nil, eq_comm, append_eq_replicate_iff,
        length_replicate, and_iff_right rfl, Nat.add_comm, replicate_gap_iff]
      simp only [Bool.false_eq_true, false_and, or_false, and_iff_left free]
    | true =>
      have zero : ZeroPadded fl := ⟨blanks, left⟩
      rw [padded_zero zero]
      constructor
      · intro either
        have empty : ∃ c, [] = List.replicate (gap w text) c ++ text := by
          rcases either with same | ⟨-, same⟩ <;> exact ⟨_, same⟩
        obtain ⟨c, same⟩ := empty
        obtain ⟨none, nothing⟩ := append_eq_nil_iff.mp same.symm
        have noGap := congrArg List.length none
        rw [length_replicate, nothing, gap, length_nil] at noGap
        rw [nothing]
        exact ⟨forall_mem_nil _, Nat.zero_le _, fun _ => by omega⟩
      · rintro ⟨-, fits, narrow⟩
        have := narrow zero
        have nothing : text = [] := eq_nil_of_length_eq_zero (by omega)
        have noGap : gap w [] = 0 := by
          rw [gap, length_nil]
          omega
        rw [nothing, noGap]
        exact .inl rfl

/-! ## The conversions -/

section Conversions

variable {φ : Type}

/-- `%ls` and `%S`. -/
def Conversion.IsWideString (conversion : Conversion φ) : Prop :=
  (conversion.ps = .lpre /\ conversion.t = ch 's') \/ (conversion.ps = .bare /\ conversion.t = ch 'S')

/-- `%lc` and `%C`. -/
def Conversion.IsWideChar (conversion : Conversion φ) : Prop :=
  (conversion.ps = .lpre /\ conversion.t = ch 'c') \/ (conversion.ps = .bare /\ conversion.t = ch 'C')

def Emits (lib : Library φ) (msg : List UInt8) (cnt : Int) (conversion : Conversion φ)
    (text : List UInt8) : Prop :=
  ∃ effect, convert lib msg cnt conversion = .ok effect /\
    PaddedTo conversion.fl conversion.w text effect.text

/-- When a string of wide characters comes out: with a precision, unless the
flag `0` keeps blanks away; without one, if it only consists of blanks that the
field width makes up for. -/
def ComesOut (fl : Flags) (w p : Int) (text : List UInt8) : Prop :=
  if 0 <= p then ZeroPadded fl -> w <= text.length
  else (∀ d ∈ text, d = ch ' ') /\ text.length <= w.toNat /\ (ZeroPadded fl -> w <= 0)

variable {conversion : Conversion φ}

theorem letter_wideString (string : conversion.IsWideString) :
    letter conversion.ps conversion.t = 'S' := by
  rcases string with ⟨state, character⟩ | ⟨state, character⟩ <;> rw [state, character] <;> decide

theorem letter_wideChar (character : conversion.IsWideChar) :
    letter conversion.ps conversion.t = 'C' := by
  rcases character with ⟨state, named⟩ | ⟨state, named⟩ <;> rw [state, named] <;> decide

theorem wideField_eq {wctomb : Nat -> Option (List UInt8)} (fl : Flags) (w p : Int) (ws : List Nat)
    {text : List UInt8} (converted : wideText wctomb p ws [] = .ok text) :
    wideField wctomb fl.excl w p ws = .ok (padded fl w text, max w text.length) := by
  rw [wideField, converted]
  rfl

variable {msg : List UInt8}

theorem convert_wideString {lib : Library φ} {cnt : Int} (string : conversion.IsWideString)
    {addr : Nat} {ws : List Nat} (pointer : conversion.arg.p = .wide addr ws)
    {text : List UInt8} (converted : wideText lib.wctomb conversion.p ws [] = .ok text) :
    convert lib msg cnt conversion =
      .ok (Effect.ofField (padded conversion.fl conversion.w text,
        max conversion.w text.length)) := by
  have field := wideField_eq conversion.fl conversion.w conversion.p ws converted
  rw [Flags.excl] at field
  simp only [convert, letter_wideString string, pointer, field]
  rfl

theorem convert_wideChar {lib : Library φ} {cnt : Int} (character : conversion.IsWideChar) :
    convert lib msg cnt conversion =
      .ok (Effect.ofField (padded conversion.fl conversion.w [], max conversion.w 0)) := by
  have field := @wideField_eq lib.wctomb conversion.fl conversion.w (-1) [conversion.arg.i] []
    (wideText_negative (by decide) _)
  rw [Flags.excl] at field
  simp only [convert, letter_wideChar character, field]
  rfl

/-- A library whose wide characters are Latin 1 letters in UTF-8. -/
def latinLibrary : Library Unit where
  zero := ()
  fmtFp := fun _ _ _ _ _ => none
  wctomb := fun c =>
    if c < 128 then some [UInt8.ofNat c]
    else some [UInt8.ofNat (192 + c / 64), UInt8.ofNat (128 + c % 64)]
  strerror := fun _ => []

/-- The text `aé`, of one byte and of two, converted by `%4.2ls` and the like. -/
def sampleConversion (p : Int) (fl : Flags) : Conversion Unit where
  fl := fl
  w := 4
  p := p
  xp := decide (0 <= p)
  ps := .lpre
  t := ch 's'
  arg := ⟨0, (), .wide 4096 [97, 233]⟩

end Conversions

end Clib4.Stdio.Printf
