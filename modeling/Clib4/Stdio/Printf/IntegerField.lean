import Clib4.Stdio.Printf.Delivery

namespace Clib4.Stdio.Printf

open List

/-!
# Integer conversions

The digits of an integer are built backwards from the end of `buf`.  In base 8
and above 40 bytes are enough for whatever `uintmax_t` holds.  The argument of
`%b` is taken as an `int`, so a negative one reaches `fmt_b` with 64 binary
digits, which are more.  Its prefix is picked from `leads` by the same rule as
that of `%x`, but there is no `0b` in `leads`.
-/

/-! ## Digits -/

theorem div_lt_pow {base x n : Nat} (less : x < base ^ (n + 1)) : x / base < base ^ n := by
  rw [pow_succ'] at less
  exact Nat.div_lt_of_lt_mul less

variable {base : Nat}

theorem digits_length_le (fuel n x : Nat) (less : x < base ^ n) :
    (digits base fuel x).length <= n := by
  induction fuel generalizing n x with
  | zero => exact Nat.zero_le n
  | succ fuel ih =>
    rw [digits]
    split_ifs with zero
    · exact Nat.zero_le n
    · cases n with
      | zero => exact absurd (Nat.lt_one_iff.mp (by rwa [pow_zero] at less)) zero
      | succ n =>
        rw [length_append]
        exact Nat.succ_le_succ (ih n _ (div_lt_pow less))

theorem lt_digits_length (pos : 0 < base) (fuel n x : Nat) (large : base ^ n <= x)
    (enough : n < fuel) : n < (digits base fuel x).length := by
  induction fuel generalizing n x with
  | zero => exact absurd enough (Nat.not_lt_zero n)
  | succ fuel ih =>
    have notZero : x ≠ 0 := by
      have := Nat.pow_pos (n := n) pos
      omega
    rw [digits, if_neg notZero, length_append]
    cases n with
    | zero => exact Nat.succ_pos _
    | succ n =>
      have quotient : base ^ n <= x / base := by
        rw [Nat.le_div_iff_mul_le pos]
        exact large
      exact Nat.succ_lt_succ (ih n _ quotient (by omega))

def valueOf (base : Nat) (digits : List Nat) : Nat :=
  digits.foldl (fun value digit => base * value + digit) 0

theorem valueOf_digits (fuel x : Nat) (less : x < base ^ fuel) :
    valueOf base (digits base fuel x) = x := by
  induction fuel generalizing x with
  | zero =>
    exact (Nat.lt_one_iff.mp less).symm
  | succ fuel ih =>
    rw [digits]
    split_ifs with zero
    · exact zero.symm
    · have upper := ih _ (div_lt_pow less)
      rw [valueOf, foldl_append]
      rw [valueOf] at upper
      rw [upper]
      exact Nat.div_add_mod x base

theorem digits_lt (pos : 0 < base) {fuel x : Nat} :
    ∀ digit ∈ digits base fuel x, digit < base := by
  fun_induction digits base fuel x with
  | case1 | case2 => exact forall_mem_nil _
  | case3 fuel x zero ih =>
    exact forall_mem_append.mpr ⟨ih, forall_mem_singleton.mpr (Nat.mod_lt x pos)⟩

theorem digits_head (fuel x : Nat) (less : x < base ^ fuel) (notZero : x ≠ 0) :
    ∃ first rest, digits base fuel x = first :: rest /\ first ≠ 0 := by
  induction fuel generalizing x with
  | zero =>
    exact absurd (Nat.lt_one_iff.mp less) notZero
  | succ fuel ih =>
    rw [digits, if_neg notZero]
    by_cases small : x / base = 0
    · have none : digits base fuel (x / base) = [] := by
        rw [small]
        cases fuel with
        | zero => rfl
        | succ fuel => exact if_pos rfl
      have whole := Nat.div_add_mod x base
      rw [small, Nat.mul_zero, Nat.zero_add] at whole
      exact ⟨x % base, [], by rw [none, nil_append], by rw [whole]; exact notZero⟩
    · rcases ih _ (div_lt_pow less) small with ⟨first, rest, split, pos⟩
      exact ⟨first, rest ++ [x % base], by rw [split, cons_append], pos⟩

/-! ## What is to be printed -/

/-- The shortest binary numeral of a number. -/
structure MinimalNumeral (value : Nat) (text : List UInt8) : Prop where
  binary : ∀ c ∈ text, c = ch '0' \/ c = ch '1'
  reads : valueOf 2 (text.map fun c => c.toNat - 48) = value
  shortest : text = [ch '0'] \/ text.head? = some (ch '1')

def binaryNumeral (value : Nat) : List UInt8 :=
  if value = 0 then [ch '0'] else fmtDecimal 2 value

/-- A number laid out in its field: `mark` is its sign or prefix. -/
def layout (fl : Flags) (w : Int) (mark number : List UInt8) : List UInt8 :=
  let missing := (w - (mark.length + number.length)).toNat
  if fl.leftAdj then mark ++ number ++ List.replicate missing (ch ' ')
  else if fl.zeroPad then mark ++ List.replicate missing (ch '0') ++ number
  else List.replicate missing (ch ' ') ++ mark ++ number

/-- `0b`, with the flag `#` and a number other than 0. -/
def binaryMark (fl : Flags) (value : Nat) : List UInt8 :=
  if fl.altForm /\ value ≠ 0 then [ch '0', ch 'b'] else []

/-- At least `p` digits; no digit at all for a 0 with the precision 0. -/
def preciseNumeral (p : Int) (value : Nat) : List UInt8 :=
  if p = 0 /\ value = 0 then []
  else List.replicate (p - (binaryNumeral value).length).toNat (ch '0') ++ binaryNumeral value

/-- The field of `%b`.  A precision turns the flag `0` off. -/
def binaryField {φ : Type} (conversion : Conversion φ) (value : Nat) : List UInt8 :=
  layout { conversion.fl with zeroPad := conversion.fl.zeroPad && !conversion.xp } conversion.w
    (binaryMark conversion.fl value) (preciseNumeral conversion.p value)

/-- The precision is an `int`, and so is the count with the field. -/
def Room {φ : Type} (conversion : Conversion φ) (cnt : Int) (value : Nat) : Prop :=
  (conversion.xp -> 0 <= conversion.p) /\
    cnt + (binaryField conversion value).length <= intMax

/-- The contract of `%b`. -/
def PrintsBinary {φ : Type} (conversion : Conversion φ) (cnt : Int) (value : Nat)
    (outcome : Except Stop Effect) : Prop :=
  MinimalNumeral value (binaryNumeral value) /\ (Room conversion cnt value ->
      outcome = .ok (Effect.ofField (binaryField conversion value,
        (binaryField conversion value).length)))

variable {value : Nat}

theorem binaryNumeral_minimal (less : value < 2 ^ 64) :
    MinimalNumeral value (binaryNumeral value) := by
  unfold binaryNumeral fmtDecimal
  split_ifs with zero
  · subst zero
    exact ⟨forall_mem_singleton.mpr (by decide), by decide, Or.inl rfl⟩
  · have small : ∀ digit ∈ digits 2 64 value, digit < 2 := digits_lt two_pos
    refine ⟨?_, ?_, Or.inr ?_⟩
    · intro c mem
      rcases mem_map.mp mem with ⟨digit, inside, rfl⟩
      have bit : digit = 0 \/ digit = 1 := by
        have := small digit inside
        omega
      rcases bit with rfl | rfl
      · exact Or.inl rfl
      · exact Or.inr rfl
    · rw [map_map]
      have same : (digits 2 64 value).map
          ((fun c : UInt8 => c.toNat - 48) ∘ fun digit => UInt8.ofNat (48 + digit)) =
            digits 2 64 value := by
        refine (map_congr_left fun digit inside => ?_).trans (map_id _)
        have bit := small digit inside
        have byte := UInt8.toNat_ofNat_of_lt' (by show 48 + digit < 256; omega)
        show (UInt8.ofNat (48 + digit)).toNat - 48 = digit
        omega
      rw [same]
      exact valueOf_digits 64 value less
    · rcases digits_head 64 value less zero with ⟨first, rest, split, notZero⟩
      have one : first = 1 := by
        have := small first (by rw [split]; exact mem_cons_self)
        omega
      rw [split, one]
      rfl

/-! ## The buffer -/

/-- Only digits behind the end of the buffer are undefined. -/
theorem integerBody_undefined_iff {fl : Flags} {p : Int} {xp : Bool} {i : Nat}
    {sign text : List UInt8} :
    integerBody fl p xp i sign text = .error .undefined <-> bufSize < text.length := by
  unfold integerBody
  by_cases large : bufSize < text.length
  · rw [if_pos large]
    exact iff_of_true rfl large
  · refine iff_of_false ?_ large
    split_ifs <;> intro same <;> cases same

theorem assemble_undefined_iff (body : Except Stop Body) (w cnt : Int) :
    (do let body <- body
        let text <- body.assemble w cnt
        return Effect.ofField text) = (.error .undefined : Except Stop Effect) <->
      body = .error .undefined := by
  cases body with
  | error stop =>
    constructor <;> intro same <;> cases same <;> rfl
  | ok body =>
    refine iff_of_false ?_ (by intro same; cases same)
    show (body.assemble w cnt >>= fun text => pure (Effect.ofField text)) ≠ _
    unfold Body.assemble
    dsimp only
    split_ifs <;> intro same <;> cases same

/-- The integer conversions. -/
inductive IntegerLetter
  | d | i | o | u | x | X | b | p
  deriving DecidableEq

def IntegerLetter.char : IntegerLetter -> Char
  | .d => 'd'
  | .i => 'i'
  | .o => 'o'
  | .u => 'u'
  | .x => 'x'
  | .X => 'X'
  | .b => 'b'
  | .p => 'p'

def IntegerLetter.text (value : Nat) : IntegerLetter -> List UInt8
  | .d | .i => fmtDecimal 10 (if 2 ^ 63 <= value then 2 ^ 64 - value else value)
  | .o => fmtDecimal 8 value
  | .u => fmtDecimal 10 value
  | .x | .p => fmtX value true
  | .X => fmtX value false
  | .b => fmtDecimal 2 value

def IntegerLetter.body (fl : Flags) (p : Int) (xp : Bool) (value : Nat) :
    IntegerLetter -> Except Stop Body
  | .d | .i => signedBody fl p xp value
  | .o => octalBody fl p xp value
  | .u => integerBody fl p xp value [] (fmtDecimal 10 value)
  | .x => markedBody (ch 'x') fl p xp value (fmtX value true)
  | .X => markedBody (ch 'X') fl p xp value (fmtX value false)
  | .b => markedBody (ch 'b') fl p xp value (fmtDecimal 2 value)
  | .p => pointerBody fl p xp value

variable {φ : Type}

theorem convert_integer (lib : Library φ) (msg : List UInt8) (cnt : Int)
    (conversion : Conversion φ) (kind : IntegerLetter) (named : conversion.t = ch kind.char) :
    convert lib msg cnt conversion = (do
      let body <- kind.body conversion.fl.excl conversion.p conversion.xp conversion.arg.i
      let text <- body.assemble conversion.w cnt
      return Effect.ofField text) := by
  have same : letter conversion.ps conversion.t = kind.char := by
    rw [named]
    cases kind <;> cases conversion.ps <;> rfl
  unfold convert
  rw [same]
  cases kind <;> rfl

theorem IntegerLetter.body_undefined_iff (fl : Flags) (p : Int) (xp : Bool) (value : Nat)
    (kind : IntegerLetter) :
    kind.body fl p xp value = .error .undefined <-> bufSize < (kind.text value).length := by
  have signed : signedBody fl p xp value = .error .undefined <->
      bufSize < (fmtDecimal 10 (if 2 ^ 63 <= value then 2 ^ 64 - value else value)).length := by
    unfold signedBody
    split_ifs <;> exact integerBody_undefined_iff ..
  cases kind with
  | d | i => exact signed
  | _ => exact integerBody_undefined_iff ..

theorem IntegerLetter.text_fits (less : value < 2 ^ 64) {kind : IntegerLetter}
    (notBinary : kind ≠ .b) : (kind.text value).length <= bufSize := by
  have decimal {base x : Nat} (small : x < 2 ^ 64) (large : 2 ^ 64 < base ^ 40) :
      (fmtDecimal base x).length <= 40 := by
    rw [fmtDecimal, length_map]
    exact digits_length_le 64 40 x (small.trans large)
  have hex (lower : Bool) : (fmtX value lower).length <= 40 := by
    rw [fmtX, length_map]
    exact digits_length_le 64 40 value (less.trans (by decide))
  have signed : (if 2 ^ 63 <= value then 2 ^ 64 - value else value) < 2 ^ 64 := by
    split_ifs <;> omega
  cases kind with
  | d | i => exact decimal signed (by decide)
  | o | u => exact decimal less (by decide)
  | x | p => exact hex true
  | X => exact hex false
  | b => exact absurd rfl notBinary

theorem binary_text_fits_iff :
    bufSize < (IntegerLetter.text value .b).length <-> 2 ^ 40 <= value := by
  show 40 < (fmtDecimal 2 value).length <-> 2 ^ 40 <= value
  rw [fmtDecimal, length_map]
  constructor
  · intro long
    by_contra small
    have := digits_length_le 64 40 value (Nat.lt_of_not_le small)
    omega
  · intro large
    exact lt_digits_length two_pos 64 40 value large (by omega)

/-! ## Arguments -/

theorem popArg_lt (zero : φ) {type : ArgType} {args rest : List (VaArg φ)} {arg : Arg φ}
    (popped : popArg zero type args = some (arg, rest)) : arg.i < 2 ^ 64 := by
  have converted (value : Int) : (Arg.ofInt zero value).i < 2 ^ 64 := by
    show (value % 2 ^ 64).toNat < 2 ^ 64
    omega
  cases args with
  | nil => cases popped
  | cons first ap =>
    cases first <;> cases type <;> cases popped <;>
      first | exact converted _ | exact Nat.two_pow_pos 64

/-- The value of the next argument as an `unsigned int`. -/
def unsignedValue : List (VaArg φ) -> Nat
  | .word value :: _ => (value % 2 ^ 32).toNat
  | _ => 0

theorem popArg_int (zero : φ) {args rest : List (VaArg φ)} {arg : Arg φ}
    (popped : popArg zero .int args = some (arg, rest)) :
    unsignedValue args < 2 ^ 32 /\ arg.i = if unsignedValue args < 2 ^ 31 then unsignedValue args
        else unsignedValue args + (2 ^ 64 - 2 ^ 32) := by
  match args, popped with
  | .word value :: ap, popped =>
    cases popped
    show (value % 2 ^ 32).toNat < 2 ^ 32 /\ (toLong value % 2 ^ 64).toNat =
      if (value % 2 ^ 32).toNat < 2 ^ 31 then (value % 2 ^ 32).toNat
      else (value % 2 ^ 32).toNat + (2 ^ 64 - 2 ^ 32)
    rw [toLong_eq_bmod, Int.bmod_def]
    split_ifs <;> omega

/-! ## The field of `%b` -/

theorem layout_length (fl : Flags) (w : Int) (mark number : List UInt8) :
    ((layout fl w mark number).length : Int) = max w (mark.length + number.length) := by
  unfold layout
  split_ifs <;> simp only [length_append, length_replicate] <;> omega

theorem layout_congr {one other : Flags} (left : one.leftAdj = other.leftAdj)
    (zero : one.leftAdj = false -> one.zeroPad = other.zeroPad) {w : Int}
    {mark number : List UInt8} : layout one w mark number = layout other w mark number := by
  unfold layout
  rw [left] at zero ⊢
  cases adjusted : other.leftAdj with
  | true => rfl
  | false => rw [zero adjusted]

variable {fl : Flags}

theorem pad_eq {c : Char} {w l : Int} : pad c w l fl =
      if fl.leftAdj || fl.zeroPad then [] else List.replicate (w - l).toNat (ch c) := by
  unfold pad
  cases left : fl.leftAdj with
  | true => simp
  | false =>
    cases zero : fl.zeroPad with
    | true => simp
    | false =>
      by_cases wide : w <= l
      · have enough : (w - l).toNat = 0 := by omega
        simp [wide, enough]
      · simp [wide]

theorem pads_eq_layout (excl : fl.Exclusive) {w size : Int} {mark number : List UInt8}
    (whole : size = mark.length + number.length) :
    pad ' ' (max w size) size fl ++ mark ++ pad '0' (max w size) size fl.flipZero ++ number ++
      pad ' ' (max w size) size fl.flipLeft = layout fl w mark number := by
  have gap : (max w size - size).toNat = (w - (mark.length + number.length)).toNat := by omega
  rw [pad_eq, pad_eq, pad_eq, gap]
  unfold layout Flags.flipZero Flags.flipLeft
  cases left : fl.leftAdj with
  | true => simp [excl left]
  | false => cases fl.zeroPad <;> simp

/-- The number of a body, with the zeros its precision asks for. -/
def Body.number (body : Body) : List UInt8 :=
  List.replicate (body.p - body.text.length).toNat (ch '0') ++ body.text

theorem Body.number_length (body : Body) :
    (body.number.length : Int) = max body.p body.text.length := by
  rw [Body.number, length_append, length_replicate]
  omega

theorem Body.pad_number (body : Body) :
    pad '0' (max body.p body.text.length) body.text.length {} ++ body.text = body.number := by
  have zeros : (max body.p body.text.length - body.text.length).toNat =
      (body.p - body.text.length).toNat := by omega
  rw [pad_eq, zeros]
  rfl

theorem Body.assemble_eq_layout {body : Body} (excl : body.fl.Exclusive) {w cnt : Int}
    (counted : 0 <= cnt)
    (room : cnt + (layout body.fl w body.sign body.number).length <= intMax) :
    body.assemble w cnt = .ok (layout body.fl w body.sign body.number,
      (layout body.fl w body.sign body.number).length) := by
  have size := layout_length body.fl w body.sign body.number
  have whole : (body.sign.length : Int) + max body.p body.text.length =
      body.sign.length + body.number.length := by rw [Body.number_length]
  rw [Body.number_length] at size
  unfold Body.assemble
  rw [if_neg (by omega), if_neg (by omega), size, <- pads_eq_layout excl whole,
    <- Body.pad_number]
  simp only [append_assoc]

theorem fmtDecimal_zero {base : Nat} : fmtDecimal base 0 = [] := rfl

theorem fmtDecimal_length_le (less : value < 2 ^ 31) : (fmtDecimal 2 value).length <= bufSize := by
  rw [fmtDecimal, length_map]
  exact (digits_length_le 64 31 value less).trans (by decide)

/-- What `leads` holds where the prefix of `%b` is looked for. -/
def wrongMark (fl : Flags) (value : Nat) : List UInt8 :=
  if value ≠ 0 /\ fl.altForm then [ch 'X', ch '0'] else []

theorem binary_body (fl : Flags) {p : Int} {xp : Bool} (less : value < 2 ^ 31)
    (precise : xp -> 0 <= p) :
    ∃ body, IntegerLetter.body fl p xp value .b = .ok body /\
      body.fl = (if xp then { fl with zeroPad := false } else fl) /\
      body.sign = wrongMark fl value /\ body.number = preciseNumeral p value := by
  have short := Nat.not_lt.mpr (fmtDecimal_length_le less)
  have valid : ¬ (xp /\ p < 0) := fun both => by
    have := precise both.1
    omega
  show ∃ body, integerBody fl p xp value (wrongMark fl value) (fmtDecimal 2 value) = .ok body /\ _
  unfold integerBody
  rw [if_neg short, if_neg valid]
  by_cases nothing : value = 0 /\ p = 0
  · have empty : preciseNumeral p value = [] := if_pos ⟨nothing.2, nothing.1⟩
    rw [if_pos nothing, empty, nothing.2]
    exact ⟨_, rfl, rfl, rfl, rfl⟩
  · have some : preciseNumeral p value = List.replicate
        (p - (binaryNumeral value).length).toNat (ch '0') ++ binaryNumeral value :=
      if_neg fun both => nothing ⟨both.2, both.1⟩
    rw [if_neg nothing, some]
    refine ⟨_, rfl, rfl, rfl, ?_⟩
    rw [Body.number]
    unfold binaryNumeral
    by_cases zero : value = 0
    · -- the digit of 0 is made by the precision
      have one : (max p ((0 : Nat) + 1) - (0 : Nat)).toNat = (p - (1 : Nat)).toNat + 1 := by
        omega
      rw [if_pos zero, zero, fmtDecimal_zero, length_nil, one, replicate_succ',
        append_nil]
      rfl
    · have same : (max p ((fmtDecimal 2 value).length + 0) -
          (fmtDecimal 2 value).length).toNat = (p - (fmtDecimal 2 value).length).toNat := by omega
      rw [if_neg zero, if_neg zero, same]

theorem marks_length {value : Nat} :
    (wrongMark fl value).length = (binaryMark fl value).length := by
  unfold wrongMark binaryMark
  rw [if_congr And.comm rfl rfl]
  split_ifs <;> rfl

theorem layout_body_flags (fl : Flags) (xp : Bool) (w : Int) (mark number : List UInt8) :
    layout (if xp then { fl.excl with zeroPad := false } else fl.excl) w mark number =
      layout { fl with zeroPad := fl.zeroPad && !xp } w mark number := by
  have kept : fl.excl.leftAdj = fl.leftAdj := by
    unfold Flags.excl
    split_ifs <;> rfl
  have same : fl.leftAdj = false -> fl.excl = fl := fun left => if_neg (by simp [left])
  apply layout_congr
  · cases xp <;> exact kept
  · cases xp with
    | true => exact fun _ => (Bool.and_false fl.zeroPad).symm
    | false =>
      intro left
      show fl.excl.zeroPad = (fl.zeroPad && true)
      rw [same (kept.symm.trans left), Bool.and_true]

/-- The field `%b` writes for an argument that is not negative. -/
def writtenField (conversion : Conversion φ) (value : Nat) : List UInt8 :=
  layout { conversion.fl with zeroPad := conversion.fl.zeroPad && !conversion.xp } conversion.w
    (wrongMark conversion.fl value) (preciseNumeral conversion.p value)

variable (conversion : Conversion φ)

theorem convert_binary (lib : Library φ) (msg : List UInt8) {cnt : Int}
    (counted : 0 <= cnt) {conversion : Conversion φ} (named : conversion.t = ch 'b')
    (less : conversion.arg.i < 2 ^ 31) (room : Room conversion cnt conversion.arg.i) :
    convert lib msg cnt conversion =
      .ok (Effect.ofField (writtenField conversion conversion.arg.i,
        (writtenField conversion conversion.arg.i).length)) := by
  rcases room with ⟨precise, fits⟩
  rcases binary_body conversion.fl.excl less precise with ⟨body, made, flags, sign, number⟩
  have mark : body.sign = wrongMark conversion.fl conversion.arg.i := by
    rw [sign]
    unfold wrongMark Flags.excl
    cases conversion.fl.leftAdj <;> rfl
  have excl : body.fl.Exclusive := by
    rw [flags]
    split
    · exact Flags.Exclusive.withoutZero _
    · exact Flags.exclusive_exclusive _
  have field : layout body.fl conversion.w body.sign body.number =
      writtenField conversion conversion.arg.i := by
    rw [mark, number, flags]
    exact layout_body_flags conversion.fl conversion.xp conversion.w _ _
  have room : cnt + (layout body.fl conversion.w body.sign body.number).length <= intMax := by
    rw [field, writtenField, layout_length, marks_length, <- layout_length]
    exact fits
  have assembled := Body.assemble_eq_layout excl counted room
  rw [convert_integer lib msg cnt conversion .b named, made]
  show (body.assemble conversion.w cnt >>= fun text => pure (Effect.ofField text)) = _
  rw [assembled, field]
  rfl

/-! ## All integer conversions -/

variable {c : UInt8}

theorem mem_layout_cases {fl : Flags} {w : Int} {mark number : List UInt8}
    (mem : c ∈ layout fl w mark number) :
    c = ch ' ' \/ c = ch '0' \/ c ∈ mark \/ c ∈ number := by
  unfold layout at mem
  split_ifs at mem <;> simp only [mem_append, mem_replicate] at mem <;> tauto

theorem mem_preciseNumeral {p : Int} (less : value < 2 ^ 64) (mem : c ∈ preciseNumeral p value) :
    c = ch '0' \/ c = ch '1' := by
  unfold preciseNumeral at mem
  split_ifs at mem
  · cases mem
  · rcases mem_append.mp mem with zero | digit
    · exact Or.inl (eq_of_mem_replicate zero)
    · exact (binaryNumeral_minimal less).binary c digit

theorem writtenField_eq_iff (less : value < 2 ^ 64) :
    writtenField conversion value = binaryField conversion value <->
      ¬ (value ≠ 0 /\ conversion.fl.altForm) := by
  constructor
  · intro same marked
    have mark : ch 'X' ∈ wrongMark conversion.fl value := by
      rw [wrongMark, if_pos marked]
      exact mem_cons_self
    have there : ch 'X' ∈ binaryField conversion value := by
      rw [<- same]
      unfold writtenField layout
      split_ifs <;> simp only [mem_append] <;> tauto
    rcases mem_layout_cases there with blank | zero | inMark | inNumber
    · exact absurd blank (by decide)
    · exact absurd zero (by decide)
    · rw [binaryMark, if_pos marked.symm] at inMark
      exact absurd inMark (by decide)
    · rcases mem_preciseNumeral less inNumber with zero | one
      · exact absurd zero (by decide)
      · exact absurd one (by decide)
  · intro plain
    have none : wrongMark conversion.fl value = binaryMark conversion.fl value :=
      (if_neg plain).trans (if_neg (mt And.symm plain)).symm
    rw [writtenField, none]
    rfl

/-- The digits stay inside the buffer: nothing the language leaves undefined happens. -/
def StaysInside (lib : Library φ) (msg : List UInt8) (cnt : Int)
    (conversion : Conversion φ) : Prop :=
  convert lib msg cnt conversion ≠ .error .undefined

/-- For every argument, length modifier, flags, width and precision, an integer
conversion keeps its digits inside the buffer and, if it is `%b`, prints the
binary numeral of its argument with its prefix, except for `%b` of a negative
argument, and of any argument but 0 with the flag `#` when it is printed. -/
theorem integer_conversions_iff (lib : Library φ) (msg : List UInt8) (cnt : Int)
    (counted : 0 <= cnt) (conversion : Conversion φ) (kind : IntegerLetter)
    (named : conversion.t = ch kind.char) (type : ArgType)
    (typed : states conversion.ps conversion.t = some (.inr type)) (args rest : List (VaArg φ))
    (popped : popArg lib.zero type args = some (conversion.arg, rest)) :
    (StaysInside lib msg cnt conversion /\
      (kind = .b -> PrintsBinary conversion cnt (unsignedValue args)
        (convert lib msg cnt conversion))) <->
    (kind = .b -> unsignedValue args < 2 ^ 31 /\
      ¬ (unsignedValue args ≠ 0 /\ conversion.fl.altForm /\
        Room conversion cnt (unsignedValue args))) := by
  have inside : StaysInside lib msg cnt conversion <->
      ¬ bufSize < (kind.text conversion.arg.i).length := by
    rw [StaysInside, convert_integer lib msg cnt conversion kind named, Ne,
      assemble_undefined_iff, IntegerLetter.body_undefined_iff]
  by_cases binary : kind = .b
  · subst binary
    have isInt : type = .int := by
      rw [named] at typed
      cases state : conversion.ps <;> rw [state] at typed <;> cases typed
      rfl
    subst isInt
    rcases popArg_int lib.zero popped with ⟨word, value⟩
    rw [inside, binary_text_fits_iff, value]
    simp only [true_imp_iff]
    by_cases nonnegative : unsignedValue args < 2 ^ 31
    · rw [if_pos nonnegative] at value ⊢
      have small : ¬ 2 ^ 40 <= unsignedValue args := by omega
      rw [and_iff_right small, and_iff_right nonnegative]
      have outcome := convert_binary lib msg counted named (by rw [value]; exact nonnegative)
      rw [value] at outcome
      have fits : unsignedValue args < 2 ^ 64 := by omega
      have same := writtenField_eq_iff conversion fits
      constructor
      · rintro prints ⟨notZero, marked, room⟩
        have field := congrArg Effect.text
          (Except.ok.inj ((outcome room).symm.trans (prints.2 room)))
        exact same.mp field ⟨notZero, marked⟩
      · intro plain
        refine ⟨binaryNumeral_minimal fits, fun room => (outcome room).trans ?_⟩
        rw [same.mpr fun marked => plain ⟨marked.1, marked.2, room⟩]
    · rw [if_neg nonnegative]
      exact iff_of_false (fun both => both.1 (by omega)) fun both => nonnegative both.1
  · refine iff_of_true ⟨inside.mpr ?_, fun same => absurd same binary⟩
      fun same => absurd same binary
    exact Nat.not_lt.mpr (IntegerLetter.text_fits (popArg_lt lib.zero popped) binary)

/-- `%b` or `%#b` with an argument. -/
def binaryConversion (marked : Bool) (value : Int) : Conversion Unit where
  fl := { altForm := marked }
  w := 0
  p := -1
  xp := false
  ps := .bare
  t := ch 'b'
  arg := Arg.ofInt () (toLong value)

theorem binary_of_five_printed : StaysInside latinLibrary [] 0 (binaryConversion false 5) /\
      PrintsBinary (binaryConversion false 5) 0 5
        (convert latinLibrary [] 0 (binaryConversion false 5)) := by
  have meets := (integer_conversions_iff latinLibrary [] 0 (Int.le_refl 0)
    (binaryConversion false 5) .b rfl .int rfl [.word 5] [] rfl).mpr fun _ =>
      ⟨by decide, fun all => absurd all.2.1 (by decide)⟩
  exact ⟨meets.1, meets.2 rfl⟩

/-- `%b` of -1 runs over the buffer, and `%#b` of 5 prints `X0101`. -/
theorem binary_of_minus_one_overruns :
    ¬ StaysInside latinLibrary [] 0 (binaryConversion false (-1)) /\
    convert latinLibrary [] 0 (binaryConversion true 5) =
      .ok (Effect.ofField ("X0101".toList.map ch, 5)) /\
    ¬ PrintsBinary (binaryConversion true 5) 0 5
        (convert latinLibrary [] 0 (binaryConversion true 5)) := by
  have printed : convert latinLibrary [] 0 (binaryConversion true 5) =
      .ok (Effect.ofField ("X0101".toList.map ch, 5)) := by
    rfl
  refine ⟨fun inside => inside rfl, printed, fun prints => ?_⟩
  have field := congrArg Effect.text
    (Except.ok.inj (printed.symm.trans (prints.2 ⟨by decide, by decide⟩)))
  exact absurd field (by decide)

end Clib4.Stdio.Printf
