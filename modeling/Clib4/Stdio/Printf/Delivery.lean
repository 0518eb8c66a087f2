import Clib4.Stdio.Printf.Core
import Clib4.Stdio.Printf.WideField
import Clib4.Stdio.Medium

namespace Clib4.Stdio

open List
namespace Printf

/-!
# What `vfprintf` returns, and what it delivers

The count `printf_core` keeps against the bytes it puts out, and the result
of `__vfprintf_r` against what the stream took.  The count is the length of
the output except for wide fields that the flag `0` keeps from being padded;
what the stream refuses is not noticed at all.
-/

/-! ## One conversion -/

/-- The flags `-` and `0` are not both set. -/
def Flags.Exclusive (fl : Flags) : Prop := fl.leftAdj -> fl.zeroPad = false

theorem Flags.exclusive_exclusive (fl : Flags) : fl.excl.Exclusive := by
  intro left
  unfold Flags.excl at left ⊢
  split_ifs at left ⊢ with right
  · rfl
  · exact absurd left right

theorem Flags.Exclusive.withoutZero (fl : Flags) : ({ fl with zeroPad := false } : Flags).Exclusive :=
  fun _ => rfl

theorem pad_length (c : Char) (w l : Int) (fl : Flags) :
    (pad c w l fl).length = if fl.leftAdj \/ fl.zeroPad then 0 else (w - l).toNat := by
  unfold pad
  split_ifs with either flagged flagged
  · rw [length_nil]
  · have wide : w <= l := by tauto
    rw [length_nil]
    omega
  · exact absurd flagged (by tauto)
  · rw [length_replicate]

theorem pads_length (w size : Int) {fl : Flags} (excl : fl.Exclusive) :
    (pad ' ' w size fl).length + (pad '0' w size fl.flipZero).length +
      (pad ' ' w size fl.flipLeft).length = (w - size).toNat := by
  rw [pad_length, pad_length, pad_length]
  unfold Flags.Exclusive at excl
  cases left : fl.leftAdj <;> cases zero : fl.zeroPad <;>
    simp_all [Flags.flipZero, Flags.flipLeft]

theorem Body.assemble_length {body : Body} {w cnt : Int} {field : List UInt8 × Int}
    (excl : body.fl.Exclusive) (done : body.assemble w cnt = .ok field) :
    (field.1.length : Int) = field.2 := by
  unfold Body.assemble at done
  dsimp only at done
  split_ifs at done
  cases done
  have three := pads_length (max w (body.sign.length + max body.p body.text.length))
    (body.sign.length + max body.p body.text.length) excl
  have digits : (pad '0' (max body.p body.text.length) body.text.length {}).length =
      (max body.p body.text.length - body.text.length).toNat := pad_length _ _ _ _
  simp only [length_append, digits]
  omega

def BodyExclusive (body : Except Stop Body) : Prop :=
  ∀ done, body = .ok done -> done.fl.Exclusive

theorem integerBody_exclusive {fl : Flags} (excl : fl.Exclusive) (p : Int) (xp : Bool) (i : Nat)
    (sign text : List UInt8) : BodyExclusive (integerBody fl p xp i sign text) := by
  intro body done
  unfold integerBody at done
  split_ifs at done <;> cases done <;>
    first | exact excl | exact Flags.Exclusive.withoutZero fl

theorem stringBody_exclusive (fl : Flags) (p : Int) (text : List UInt8) :
    BodyExclusive (stringBody fl p text) := by
  intro body done
  unfold stringBody at done
  generalize (if p < 0 then intMax.toNat else p.toNat) = limit at done
  dsimp only at done
  split_ifs at done
  cases done
  exact Flags.Exclusive.withoutZero fl

theorem pointedBody_exclusive (fl : Flags) (p : Int) (pointer : Pointer) :
    BodyExclusive (pointedBody fl p pointer) := by
  cases pointer with
  | null => exact stringBody_exclusive fl p _
  | text addr s => exact stringBody_exclusive fl p s
  | wide addr ws | cell addr => exact fun body done => nomatch done

/-- The wide string an argument points to; none is looked at elsewhere. -/
def wideString : Pointer -> List Nat
  | .wide _ ws => ws
  | _ => []

/-- A wide field that counts for its width without filling it. -/
def Unfilled {φ : Type} (lib : Library φ) (conversion : Conversion φ) : Prop :=
  ZeroPadded conversion.fl /\
  ((letter conversion.ps conversion.t = 'C' /\ 0 < conversion.w) \/
   (letter conversion.ps conversion.t = 'S' /\
    ∃ text, wideText lib.wctomb conversion.p (wideString conversion.arg.p) [] = .ok text /\
      text.length < conversion.w))

def Effect.Counts (effect : Effect) (exactly : Prop) : Prop :=
  (effect.text.length : Int) <= effect.l /\ (effect.l = effect.text.length <-> exactly)

theorem padded_counts {fl : Flags} {w : Int} {text : List UInt8} :
    (Effect.ofField (padded fl w text, max w text.length)).Counts
      (¬ (ZeroPadded fl /\ text.length < w)) := by
  unfold Effect.Counts Effect.ofField
  by_cases zero : ZeroPadded fl
  · rw [padded_zero zero]
    simp only [zero, true_and]
    omega
  · have length : ((padded fl w text).length : Int) = max w text.length := by
      cases left : fl.leftAdj with
      | true =>
        rw [padded_left left, length_append, length_replicate, gap]
        omega
      | false =>
        have blanks := Bool.eq_false_iff.mpr fun given => zero ⟨given, left⟩
        rw [padded_right left blanks, length_append, length_replicate, gap]
        omega
    exact ⟨le_of_eq length, iff_of_true length.symm fun both => zero both.1⟩

section Counting

variable {φ : Type}

variable {lib : Library φ} {conversion : Conversion φ}

theorem not_unfilled (notChar : letter conversion.ps conversion.t ≠ 'C')
    (notString : letter conversion.ps conversion.t ≠ 'S') : ¬ Unfilled lib conversion := by
  rintro ⟨-, ⟨character, -⟩ | ⟨string, -⟩⟩
  · exact notChar character
  · exact notString string

theorem ok_of_bind_ok {α β : Type} {first : Except Stop α} {rest : α -> Except Stop β} {result : β}
    (done : (first >>= rest) = .ok result) :
    ∃ value, first = .ok value /\ rest value = .ok result := by
  rcases first with stop | value
  · cases done
  · exact ⟨value, rfl, done⟩

theorem counts_of_body (lib : Library φ) {cnt : Int}
    {effect : Effect} {body : Except Stop Body} {named : Char}
    (letters : letter conversion.ps conversion.t = named) (other : named ≠ 'C' /\ named ≠ 'S')
    (apart : BodyExclusive body) (done : (do
      let body <- body
      let text <- body.assemble conversion.w cnt
      return Effect.ofField text : Except Stop Effect) = .ok effect) :
    effect.Counts (¬ Unfilled lib conversion) := by
  obtain ⟨body, given, done⟩ := ok_of_bind_ok done
  obtain ⟨field, made, done⟩ := ok_of_bind_ok done
  have length := Body.assemble_length (apart body given) made
  cases done
  subst letters
  exact ⟨le_of_eq length, iff_of_true length.symm (not_unfilled other.1 other.2)⟩

theorem counts_of_wide {effect : Effect} {p : Int} {ws : List Nat}
    (unfilled : ∀ text, wideText lib.wctomb p ws [] = .ok text ->
      (Unfilled lib conversion <-> ZeroPadded conversion.fl /\ text.length < conversion.w))
    (done : (do
      let text <- wideField lib.wctomb conversion.fl.excl conversion.w p ws
      return Effect.ofField text : Except Stop Effect) = .ok effect) :
    effect.Counts (¬ Unfilled lib conversion) := by
  rcases converted : wideText lib.wctomb p ws [] with stop | text
  · rw [wideField, converted] at done
    cases done
  · rw [wideField_eq conversion.fl conversion.w p ws converted] at done
    cases done
    rw [unfilled text converted]
    exact padded_counts

theorem unfilled_string_iff (named : letter conversion.ps conversion.t = 'S') {text : List UInt8}
    (converted : wideText lib.wctomb conversion.p (wideString conversion.arg.p) [] = .ok text) :
    Unfilled lib conversion <-> ZeroPadded conversion.fl /\ text.length < conversion.w := by
  unfold Unfilled
  rw [named, converted]
  simp

theorem convert_counts {msg : List UInt8} {cnt : Int} {effect : Effect}
    (done : convert lib msg cnt conversion = .ok effect) :
    effect.Counts (¬ Unfilled lib conversion) := by
  have excl := conversion.fl.exclusive_exclusive
  have marked : ∀ (t : UInt8) (fl : Flags) (p : Int) (text : List UInt8), fl.Exclusive ->
      BodyExclusive (markedBody t fl p conversion.xp conversion.arg.i text) :=
    fun t fl p text apart => integerBody_exclusive apart p _ _ _ text
  have signed : BodyExclusive
      (signedBody conversion.fl.excl conversion.p conversion.xp conversion.arg.i) := by
    unfold signedBody
    split <;> exact integerBody_exclusive excl _ _ _ _ _
  unfold convert at done
  rw [<- Flags.excl] at done
  dsimp only at done
  -- One case per letter of the `switch`.
  split at done
  case h_1 named | h_4 named | h_5 named =>
    exact counts_of_body _ named (by decide) (marked _ _ _ _ excl) done
  case h_2 named =>
    obtain ⟨stores, _, done⟩ := ok_of_bind_ok done
    cases done
    exact ⟨le_refl 0, iff_of_true rfl (not_unfilled (by rw [named]; decide)
      (by rw [named]; decide))⟩
  case h_3 named =>
    exact counts_of_body _ named (by decide)
      (marked _ { conversion.fl.excl with altForm := true } _ _ excl) done
  case h_7 named | h_8 named => exact counts_of_body _ named (by decide) signed done
  case h_6 named | h_9 named =>
    exact counts_of_body _ named (by decide) (integerBody_exclusive excl _ _ _ _ _) done
  case h_10 named =>
    refine counts_of_body _ named (by decide) ?_ done
    rintro body ⟨⟩
    exact Flags.Exclusive.withoutZero _
  case h_11 named => exact counts_of_body _ named (by decide) (stringBody_exclusive _ _ _) done
  case h_12 named => exact counts_of_body _ named (by decide) (pointedBody_exclusive _ _ _) done
  case h_13 named =>
    refine counts_of_wide (fun text converted => ?_) done
    cases converted
    unfold Unfilled
    rw [named]
    simp
  case h_14 named =>
    split at done
    · rename_i addr ws pointer
      refine counts_of_wide (fun text converted => unfilled_string_iff named ?_) done
      rw [pointer]
      exact converted
    · rename_i notWide
      split at done
      · refine counts_of_wide (fun text converted => unfilled_string_iff named ?_) done
        have nothing : wideString conversion.arg.p = [] := by
          unfold wideString
          split
          · rename_i addr ws pointer
            exact absurd pointer (notWide addr ws)
          · rfl
        rw [nothing]
        exact converted
      · cases done
  case h_15 notChar notString =>
    split_ifs at done
    split at done <;> cases done
    exact ⟨le_refl _, iff_of_true rfl (not_unfilled notChar notString)⟩

/-! ## The loop -/

/-- The conversion a round carries out, if it does not copy text. -/
def conversionIn (lib : Library φ) (nlArg : Nat -> Arg φ) (state : State φ) :
    Option (Conversion φ) :=
  if (literal state.reader.s).1 = [] then
    (readConversion lib.zero nlArg state.reader).toOption.map Prod.fst
  else none

def conversionsOf (lib : Library φ) (msg : List UInt8 -> List UInt8)
    (nlArg : Nat -> Arg φ) : Nat -> State φ -> List (Conversion φ)
  | 0, _ => []
  | fuel + 1, state =>
    match round lib msg nlArg state with
    | .error _ => []
    | .ok next =>
      (conversionIn lib nlArg state).toList ++ conversionsOf lib msg nlArg fuel next

/-- The bytes put out so far, compared with what is counted for them. -/
def State.Counts (state : State φ) (exactly : Prop) : Prop :=
  (state.output.length : Int) <= state.cnt + state.l /\
    (state.cnt + state.l = state.output.length <-> exactly)

variable {msg : List UInt8 -> List UInt8} {nlArg : Nat -> Arg φ}

/-- A round that copies text counts all of it; one that converts counts what the conversion does. -/
theorem round_counts {state next : State φ} {exactly : Prop} (counts : state.Counts exactly)
    (done : round lib msg nlArg state = .ok next) :
    next.Counts (exactly /\ ∀ conversion ∈ conversionIn lib nlArg state,
      ¬ Unfilled lib conversion) := by
  obtain ⟨le, same⟩ := counts
  unfold round at done
  split at done
  · cases done
  dsimp only at done
  split at done
  · cases done
  split at done
  · cases done
  split at done
  · rename_i nonempty
    cases done
    have nothing : conversionIn lib nlArg state = none := if_neg nonempty
    refine ⟨?_, ?_⟩
    · simp only [length_append, Nat.cast_add]
      omega
    · rw [nothing, <- same]
      simp only [length_append, Nat.cast_add, Option.mem_def, reduceCtorEq, false_implies,
        implies_true, and_true]
      omega
  · rename_i copied
    have empty := not_not.mp copied
    obtain ⟨⟨conversion, reader⟩, reads, done⟩ := ok_of_bind_ok done
    obtain ⟨effect, made, done⟩ := ok_of_bind_ok done
    cases done
    have carried : conversionIn lib nlArg state = some conversion := by
      rw [conversionIn, if_pos empty, reads]
      rfl
    obtain ⟨shorter, filled⟩ := convert_counts made
    rw [carried]
    refine ⟨?_, ?_⟩
    · simp only [length_append, Nat.cast_add]
      omega
    · simp only [length_append, Nat.cast_add, Option.mem_def, Option.some.injEq,
        forall_eq', <- same, <- filled]
      omega

def GoesOn {α : Type} (result : Except Stop α) : Prop :=
  ∀ count, result ≠ .error (.returned count)

theorem GoesOn.bind {α β : Type} {first : Except Stop α} {rest : α -> Except Stop β}
    (one : GoesOn first) (other : ∀ value, GoesOn (rest value)) : GoesOn (first >>= rest) := by
  rcases first with stop | value
  · intro count ended
    exact one count (by cases ended; rfl)
  · exact other value

@[simp]
theorem goesOn_ok {α : Type} (value : α) : GoesOn (.ok value) := fun _ ended => nomatch ended

@[simp]
theorem goesOn_error_iff {α : Type} (stop : Stop) :
    GoesOn (.error stop : Except Stop α) <-> ∀ count, stop ≠ .returned count := by
  simp only [GoesOn, ne_eq, Except.error.injEq]

section

variable {fl : Flags} {reader : Reader φ} {zero : φ} {p : Int} {s : List UInt8}

theorem readWidth_goesOn : GoesOn (readWidth nlArg fl reader) := by
  unfold readWidth
  repeat' split
  all_goals simp

theorem readPrecision_goesOn : GoesOn (readPrecision nlArg reader) := by
  unfold readPrecision
  repeat' split
  all_goals simp

theorem readType_goesOn {st : LengthState} : GoesOn (readType st s) := by
  induction s generalizing st with
  | nil => simp [readType]
  | cons c rest ih =>
    rw [readType]
    split
    · simp
    · split
      · simp
      · exact ih
      · simp

theorem fetchArg_goesOn {argpos : Option Nat} {type : ArgType} {ap : List (VaArg φ)} :
    GoesOn (fetchArg zero nlArg argpos type ap) := by
  unfold fetchArg
  repeat' split
  all_goals simp

theorem readConversion_goesOn : GoesOn (readConversion zero nlArg reader) := by
  refine readWidth_goesOn.bind ?_
  rintro ⟨⟨w, fl⟩, reader⟩
  refine readPrecision_goesOn.bind ?_
  rintro ⟨⟨p, xp⟩, reader⟩
  refine readType_goesOn.bind ?_
  rintro ⟨type, ps, t, s⟩
  refine fetchArg_goesOn.bind ?_
  rintro ⟨arg, ap⟩
  exact goesOn_ok _

theorem integerBody_goesOn {xp : Bool} {i : Nat} {sign : List UInt8} :
    GoesOn (integerBody fl p xp i sign s) := by
  unfold integerBody
  split_ifs <;> simp

theorem stringBody_goesOn : GoesOn (stringBody fl p s) := by
  unfold stringBody
  dsimp only
  split_ifs <;> simp

theorem pointedBody_goesOn {pointer : Pointer} : GoesOn (pointedBody fl p pointer) := by
  cases pointer with
  | null | text addr s => exact stringBody_goesOn
  | wide addr ws | cell addr => simp [pointedBody]

theorem assemble_goesOn {body : Body} {w cnt : Int} : GoesOn (body.assemble w cnt) := by
  unfold Body.assemble
  dsimp only
  split_ifs <;> simp

variable {wctomb : Nat -> Option (List UInt8)} {ws : List Nat}

theorem wideText_goesOn {done : List UInt8} : GoesOn (wideText wctomb p ws done) := by
  induction ws generalizing done with
  | nil => simp [wideText]
  | cons c rest ih =>
    rw [wideText]
    split
    · split
      · simp
      · split
        · exact ih
        · simp
    · simp

theorem storeCount_goesOn {ps : LengthState} {pointer : Pointer} {cnt : Int} :
    GoesOn (storeCount ps pointer cnt) := by
  unfold storeCount
  repeat' split
  all_goals simp

theorem convert_goesOn {msg : List UInt8} {cnt : Int} :
    GoesOn (convert lib msg cnt conversion) := by
  have field {body : Except Stop Body} (one : GoesOn body) : GoesOn (do
      let body <- body
      let text <- body.assemble conversion.w cnt
      return Effect.ofField text : Except Stop Effect) :=
    one.bind fun body => assemble_goesOn.bind fun _ => goesOn_ok _
  have wide {fl p ws} : GoesOn (do
      let text <- wideField lib.wctomb fl conversion.w p ws
      return Effect.ofField text : Except Stop Effect) :=
    (wideText_goesOn.bind fun _ => goesOn_ok _).bind fun _ => goesOn_ok _
  unfold convert
  dsimp only
  split
  case h_1 | h_3 | h_4 | h_5 | h_6 | h_9 => exact field integerBody_goesOn
  case h_2 => exact storeCount_goesOn.bind fun _ => goesOn_ok _
  case h_7 | h_8 =>
    refine field ?_
    unfold signedBody
    split <;> exact integerBody_goesOn
  case h_10 => exact field (goesOn_ok _)
  case h_11 => exact field stringBody_goesOn
  case h_12 => exact field pointedBody_goesOn
  case h_13 => exact wide
  case h_14 =>
    split
    · exact wide
    · split
      · exact wide
      · simp
  case h_15 =>
    repeat' split
    all_goals simp

end

/-- Only the end of the format returns a count. -/
theorem round_returned {state : State φ} {count : Int}
    (ended : round lib msg nlArg state = .error (.returned count)) :
    count = state.cnt + state.l := by
  unfold round at ended
  split at ended
  · cases ended
  dsimp only at ended
  split at ended
  · cases ended
    rfl
  split at ended
  · cases ended
  split at ended
  · cases ended
  · refine absurd ended (readConversion_goesOn.bind ?_ count)
    rintro ⟨conversion, reader⟩
    exact convert_goesOn.bind fun effect => goesOn_ok _

/-- The loop returns at least the length of the output, and exactly that if
every field was filled. -/
theorem rounds_counts (fuel : Nat) (state : State φ) {exactly : Prop}
    (counts : state.Counts exactly) {count : Int} {final : State φ}
    (done : rounds lib msg nlArg fuel state = (.returned count, final)) :
    (final.output.length : Int) <= count /\ (count = final.output.length <->
      exactly /\ ∀ conversion ∈ conversionsOf lib msg nlArg fuel state,
        ¬ Unfilled lib conversion) := by
  induction fuel generalizing state exactly with
  | zero => cases done
  | succ fuel ih =>
    rw [rounds] at done
    rw [conversionsOf]
    rcases step : round lib msg nlArg state with stop | next
    · rw [step] at done
      obtain ⟨rfl, rfl⟩ := Prod.mk.inj done
      rw [round_returned step]
      simp only [not_mem_nil, false_implies, implies_true, and_true]
      exact counts
    · rw [step] at done
      obtain ⟨le, same⟩ := ih next (round_counts counts step) done
      refine ⟨le, same.trans ?_⟩
      rw [and_assoc]
      simp only [mem_append, Option.mem_toList, or_imp, forall_and, Option.mem_def]

/-! ## Enough rounds -/

theorem readFlags_length (s : List UInt8) (fl : Flags) : (readFlags s fl).2.length <= s.length := by
  induction s generalizing fl with
  | nil => exact le_refl _
  | cons c rest ih =>
    rw [readFlags]
    split
    · exact (ih _).trans (Nat.le_succ _)
    · exact le_refl _

theorem getintFrom_length (i : Int) (s : List UInt8) : (getintFrom i s).2.length <= s.length := by
  induction s generalizing i with
  | nil => exact le_refl _
  | cons c rest ih =>
    rw [getintFrom]
    split
    · dsimp only
      split <;> exact (ih _).trans (Nat.le_succ _)
    · exact le_refl _

variable {reader : Reader φ}

theorem readWidth_length {fl : Flags}
    {result : (Int × Flags) × Reader φ} (done : readWidth nlArg fl reader = .ok result) :
    result.2.s.length <= reader.s.length := by
  unfold readWidth at done
  split_ifs at done
  · cases done
    exact (drop_sublist _ _).length_le
  · split at done <;> cases done
    exact (drop_sublist _ _).length_le
  · dsimp only at done
    split at done <;> cases done
    exact getintFrom_length _ _

theorem readPrecision_length
    {result : (Int × Bool) × Reader φ} (done : readPrecision nlArg reader = .ok result) :
    result.2.s.length <= reader.s.length := by
  unfold readPrecision at done
  split_ifs at done
  · cases done
    exact (drop_sublist _ _).length_le
  · split at done <;> cases done
    exact (drop_sublist _ _).length_le
  · cases done
    exact (getintFrom_length _ _).trans ((drop_sublist _ _).length_le)
  · cases done
    exact le_refl _

theorem readType_length {st : LengthState} {s : List UInt8}
    {result : ArgType × LengthState × UInt8 × List UInt8} (done : readType st s = .ok result) :
    result.2.2.2.length <= s.length := by
  induction s generalizing st with
  | nil => cases done
  | cons c rest ih =>
    rw [readType] at done
    split at done
    · cases done
    · split at done
      · cases done
      · exact (ih done).trans (Nat.le_succ _)
      · cases done
        exact Nat.le_succ _

theorem readConversion_length {zero : φ}
    {result : Conversion φ × Reader φ} (nonempty : reader.s ≠ [])
    (done : readConversion zero nlArg reader = .ok result) :
    result.2.s.length < reader.s.length := by
  have pos := length_pos_of_ne_nil nonempty
  obtain ⟨⟨⟨w, fl⟩, afterWidth⟩, width, done⟩ := ok_of_bind_ok done
  obtain ⟨⟨⟨p, xp⟩, afterPrecision⟩, precision, done⟩ := ok_of_bind_ok done
  obtain ⟨⟨type, ps, t, s⟩, typed, done⟩ := ok_of_bind_ok done
  obtain ⟨⟨arg, ap⟩, -, done⟩ := ok_of_bind_ok done
  cases done
  calc s.length <= afterPrecision.s.length := readType_length typed
    _ <= afterWidth.s.length := readPrecision_length precision
    _ <= (readFlags (reader.s.drop (if positionAt reader.s 1 then 3 else 1)) {}).2.length :=
        readWidth_length width
    _ <= (reader.s.drop (if positionAt reader.s 1 then 3 else 1)).length := readFlags_length _ _
    _ < reader.s.length := by
        rw [length_drop]
        split <;> omega

theorem round_length {state next : State φ} (done : round lib msg nlArg state = .ok next) :
    next.reader.s.length < state.reader.s.length := by
  unfold round at done
  split at done
  · cases done
  dsimp only at done
  split at done
  · cases done
  rename_i more
  have nonempty : state.reader.s ≠ [] := fun empty => more (by rw [empty]; rfl)
  split at done
  · cases done
  split at done
  · rename_i copies
    cases done
    unfold literal at copies ⊢
    have taken := length_pos_of_ne_nil copies
    rw [length_take] at taken
    rw [length_drop]
    omega
  · obtain ⟨⟨conversion, reader⟩, reads, done⟩ := ok_of_bind_ok done
    obtain ⟨effect, _, done⟩ := ok_of_bind_ok done
    cases done
    exact readConversion_length nonempty reads

/-- The interpreter does not run out of rounds: it ends where a round stops it. -/
theorem printfCore_stops (lib : Library φ) (msg : List UInt8 -> List UInt8)
    (nlArg : Nat -> Arg φ) (format : List UInt8) (ap : List (VaArg φ)) :
    let ended := printfCore lib msg nlArg format ap
    round lib msg nlArg ended.2 = .error ended.1 := by
  have stops (fuel : Nat) (state : State φ) (enough : state.reader.s.length < fuel) :
      let ended := rounds lib msg nlArg fuel state
      round lib msg nlArg ended.2 = .error ended.1 := by
    induction fuel generalizing state with
    | zero => exact absurd enough (Nat.not_lt_zero _)
    | succ fuel ih =>
      rw [rounds]
      rcases step : round lib msg nlArg state with stop | next
      · exact step
      · have shorter := round_length step
        exact ih next (by omega)
  exact stops _ _ (Nat.lt_succ_self _)

end Counting

end Printf

/-! ## The stream -/

namespace Iob

open Printf

variable {δ φ : Type} [Action δ]

/-- How many bytes of a text the stream took, out of the calls `out` makes. -/
def accepted : List UInt8 -> Iob δ -> Nat
  | [], _ => 0
  | c :: rest, file =>
    match file.fputcCore c.toNat file.bufferMode with
    | (none, file) => accepted rest file
    | (some _, file) => accepted rest file + 1

/-- `printf_core`, as `__vfprintf_r` calls it. -/
def interpret (lib : Library φ) (format : List UInt8) (ap : List (VaArg φ)) (file : Iob δ) :
    Stop × State φ :=
  printfCore lib (fun written => lib.strerror (file.out written).errno) (noArgs lib)
    format ap

def carriedOut (lib : Library φ) (format : List UInt8) (ap : List (VaArg φ)) (file : Iob δ) :
    List (Conversion φ) :=
  conversionsOf lib (fun written => lib.strerror (file.out written).errno) (noArgs lib)
    (format.length + 1)
    { reader := { s := format, l10n := false, ap := ap }
      cnt := 0, l := 0, output := [], stores := [] }

def beforeFlush (output : List UInt8) (file : Iob δ) : Iob δ :=
  let file := file.out output
  if file.noNul then file else (file.putc 0 file.bufferMode).2

/-- Every byte of the output was delivered: the stream took it and, if that is
to count as well, the flush at the end succeeded. -/
def Delivered (flushed : Bool) (interpretation : Stop × State φ) (file : Iob δ) : Prop :=
  file.accepted interpretation.2.output = interpretation.2.output.length /\
  (flushed -> ∀ count, interpretation.1 = .returned count ->
    (file.beforeFlush interpretation.2.output).fflush.1)

/-- `vfprintf` reports what was delivered: a negative number if anything was
not, and otherwise the number of bytes. -/
def ReportsDelivery (flushed : Bool) (lib : Library φ) (format : List UInt8)
    (ap : List (VaArg φ)) (file : Iob δ) : Prop :=
  ∃ result, (file.vfprintf lib format ap).1 = some result /\
    (¬ file.Delivered flushed (file.interpret lib format ap) -> result < 0) /\
    (file.Delivered flushed (file.interpret lib format ap) ->
      result = file.accepted (file.interpret lib format ap).2.output)

theorem vfprintf_result {lib : Library φ} {format : List UInt8} {ap : List (VaArg φ)}
    {file : Iob δ} :
    (file.vfprintf lib format ap).1 =
      match (file.interpret lib format ap).1 with
      | .returned count => some count
      | .undefined => none
      | _ => some (-1) := by
  rw [vfprintf, interpret]
  dsimp only
  split <;> rename_i stopped <;> rw [stopped]

theorem interpret_counts {lib : Library φ} {format : List UInt8} {ap : List (VaArg φ)}
    {file : Iob δ} {count : Int}
    (returned : (file.interpret lib format ap).1 = .returned count) :
    ((file.interpret lib format ap).2.output.length : Int) <= count /\
    (count = (file.interpret lib format ap).2.output.length <->
      ∀ conversion ∈ file.carriedOut lib format ap, ¬ Unfilled lib conversion) := by
  have start : State.Counts ({
      reader := { s := format, l10n := false, ap := ap }
      cnt := 0, l := 0, output := [], stores := [] } : State φ) True :=
    ⟨le_refl 0, iff_of_true rfl trivial⟩
  have counted := rounds_counts _ _ start (Prod.ext returned rfl)
  rw [true_and] at counted
  exact counted

/--
`vfprintf` reports what it delivered exactly when the format was carried out to
its end, everything was delivered and every wide field filled; or when it was
not, and something was not delivered.  It does not matter whether the flush at
the end counts.
-/
theorem vfprintf_reports_delivery_iff (flushed : Bool) (lib : Library φ) (format : List UInt8)
    (ap : List (VaArg φ)) (file : Iob δ)
    (defined : (file.interpret lib format ap).1 ≠ .undefined) :
    file.ReportsDelivery flushed lib format ap <->
      ((∃ count, (file.interpret lib format ap).1 = .returned count) /\
        file.Delivered flushed (file.interpret lib format ap) /\
        ∀ conversion ∈ file.carriedOut lib format ap, ¬ Unfilled lib conversion) \/
      ((∀ count, (file.interpret lib format ap).1 ≠ .returned count) /\
        ¬ file.Delivered flushed (file.interpret lib format ap)) := by
  by_cases ended : ∃ count, (file.interpret lib format ap).1 = .returned count
  · obtain ⟨count, returned⟩ := ended
    obtain ⟨le, same⟩ := interpret_counts returned
    have value : (file.vfprintf lib format ap).1 = some count := by
      rw [vfprintf_result, returned]
    constructor
    · rintro ⟨result, shown, reported, counted⟩
      cases value.symm.trans shown
      have delivered : file.Delivered flushed (file.interpret lib format ap) := by
        by_contra missing
        have := reported missing
        omega
      refine .inl ⟨⟨count, returned⟩, delivered, same.mp ?_⟩
      rw [counted delivered, delivered.1]
    · rintro (⟨-, delivered, filled⟩ | ⟨none, -⟩)
      · refine ⟨count, value, fun missing => absurd delivered missing, fun _ => ?_⟩
        rw [same.mpr filled, delivered.1]
      · exact absurd returned (none count)
  · have none : ∀ count, (file.interpret lib format ap).1 ≠ .returned count :=
      fun count returned => ended ⟨count, returned⟩
    have value : (file.vfprintf lib format ap).1 = some (-1) := by
      rw [vfprintf_result]
      split
      · rename_i count returned
        exact absurd returned (none count)
      · rename_i undefined
        exact absurd undefined defined
      · rfl
    constructor
    · rintro ⟨result, shown, -, counted⟩
      cases value.symm.trans shown
      refine .inr ⟨none, fun delivered => ?_⟩
      have := counted delivered
      omega
    · rintro (⟨returns, -⟩ | ⟨-, missing⟩)
      · exact absurd returns ended
      · exact ⟨-1, value, fun _ => by decide, fun delivered => absurd delivered missing⟩

def mediumStream (mode : BufferMode) (outcomes : List Bool) : Iob Medium where
  bufferMode := mode
  eofReached := false
  canRead := false
  canWrite := true
  inUse := true
  error := false
  noNul := true
  littleEndian := false
  buffer := fun _ => 0
  bufferSize := 4
  bufferPosition := 0
  bufferReadBytes := 0
  bufferWriteBytes := 0
  interactive := false
  descriptorLittleEndian := false
  errno := none
  device := ⟨[], outcomes⟩

/-- Text that the medium takes is reported. -/
theorem vfprintf_reports_text :
    (mediumStream .full []).ReportsDelivery true latinLibrary [65, 66] [] := by
  refine (vfprintf_reports_delivery_iff true latinLibrary [65, 66] [] (mediumStream .full [])
    (by decide)).mpr (.inl ⟨⟨2, by decide⟩, ⟨by decide, fun _ _ _ => by decide⟩, ?_⟩)
  exact forall_mem_nil _

/-- An unbuffered stream refuses the byte of `"A"`, and the call returns 1; a
buffered one fails to flush it, with the same result; and `%05lc` counts for
five bytes that nobody sees. -/
theorem vfprintf_misses_failure : (let file := mediumStream .none [false, false]
     (file.vfprintf latinLibrary [65] []).1 = some 1 /\
     file.accepted (file.interpret latinLibrary [65] []).2.output = 0 /\
     ¬ file.ReportsDelivery false latinLibrary [65] []) /\
    (let file := mediumStream .full [false]
     (file.vfprintf latinLibrary [65] []).1 = some 1 /\
     (file.vfprintf latinLibrary [65] []).2.device.taken = [] /\
     ¬ file.ReportsDelivery true latinLibrary [65] []) /\
    (let file := mediumStream .full []
     (file.vfprintf latinLibrary ("%05lc".toList.map ch) [.word 97]).1 = some 5 /\
     (file.interpret latinLibrary ("%05lc".toList.map ch) [.word 97]).2.output = [] /\
     ¬ file.ReportsDelivery false latinLibrary ("%05lc".toList.map ch) [.word 97]) := by
  refine ⟨⟨by decide, by decide, ?_⟩, ⟨by decide, by decide, ?_⟩, ⟨by decide, by decide, ?_⟩⟩
  · rintro ⟨result, shown, reported, -⟩
    have value : result = 1 := Option.some.inj (shown.symm.trans (by decide))
    have negative := reported fun delivered => absurd delivered.1 (by decide)
    omega
  · rintro ⟨result, shown, reported, -⟩
    have value : result = 1 := Option.some.inj (shown.symm.trans (by decide))
    have negative := reported fun delivered => absurd (delivered.2 rfl 1 (by decide)) (by decide)
    omega
  · rintro ⟨result, shown, -, counted⟩
    have value : result = 5 := Option.some.inj (shown.symm.trans (by decide))
    have exactly := counted ⟨by decide, fun flushed => absurd flushed (by decide)⟩
    rw [value] at exactly
    exact absurd exactly (by decide)

end Iob

end Clib4.Stdio
