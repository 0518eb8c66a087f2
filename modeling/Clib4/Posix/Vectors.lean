import Clib4.Foundation.MachineInt

namespace Clib4.Posix.Vectors

open Foundation List

/-!
# `writev` and `readv`

Both add up the lengths of the segments before anything else, in a signed number
of 32 bits, and give up when the sum becomes negative.  `writev` hands all bytes
to the descriptor at once, from a buffer, or segment by segment when there is no
memory for one; how many bytes the descriptor took is not looked at.

The locks have no counterpart, and neither has the null pointer in place of a
vector.  How `readv` reads is a parameter.
-/

/-- Why a call does not come to the descriptor. -/
inductive Errno
  | EINVAL | EBADF
  deriving DecidableEq

/-- The running total; `none` once it is negative. -/
def addLengths : Int -> List (List UInt8) -> Option Int
  | total, [] => some total
  | total, part :: segments =>
    let total := signed 32 (total + part.length)
    if total < 0 then none else addLengths total segments

def check (segments : List (List UInt8)) : Except Errno Int :=
  if segments.length < 1 \/ 1024 < segments.length then .error .EINVAL
  else
    match addLengths 0 segments with
    | none => .error .EINVAL
    | some total => .ok total

/-- The writes segment by segment: whether none failed, and how many bytes were
taken.  `answers` tells of each write how much the descriptor would take, or
that it fails. -/
def writeSegments (answers : Nat -> Option Nat) : Nat -> List (List UInt8) -> Bool × Nat
  | _, [] => (true, 0)
  | call, part :: segments =>
    if 0 < part.length then
      match answers call with
      | none => (false, 0)
      | some count =>
        let (completed, accepted) := writeSegments answers (call + 1) segments
        (completed, min count part.length + accepted)
    else writeSegments answers call segments

/-- What a call did: the size it asked `malloc` for, the bytes it copied into that
memory, the bytes the descriptor took, and the result. -/
structure Delivery where
  allocated : Int
  copied : Option (List UInt8)
  accepted : Nat
  result : Int
  deriving DecidableEq

def deliver (memory : Bool) (answers : Nat -> Option Nat) (segments : List (List UInt8))
    (total : Int) : Delivery :=
  if memory then
    match answers 0 with
    | none => ⟨total, some segments.flatten, 0, -1⟩
    | some count => ⟨total, some segments.flatten, min count total.toNat, total⟩
  else
    let (completed, accepted) := writeSegments answers 0 segments
    ⟨total, none, accepted, if completed then total else -1⟩

/-- What both functions do once the checks are passed and the descriptor is open. -/
def guarded {α : Type} (opened : Bool) (segments : List (List UInt8)) (act : Int -> α) :
    Except Errno α :=
  match check segments with
  | .error errno => .error errno
  | .ok total => if opened = false then .error .EBADF else .ok (act total)

def writev (opened memory : Bool) (answers : Nat -> Option Nat) (segments : List (List UInt8)) :
    Except Errno Delivery :=
  guarded opened segments (deliver memory answers segments)

def readv (opened : Bool) (read : List (List UInt8) -> Int) (segments : List (List UInt8)) :
    Except Errno Int :=
  guarded opened segments fun _ => read segments

/-! ## The total -/

variable {segments : List (List UInt8)} {total : Int}

theorem addLengths_nonneg {start : Int} (nonneg : 0 <= start)
    (added : addLengths start segments = some total) : 0 <= total := by
  induction segments generalizing start with
  | nil =>
    cases added
    exact nonneg
  | cons part segments ih =>
    rw [addLengths] at added
    split_ifs at added with negative
    exact ih (Int.not_lt.mp negative) added

theorem addLengths_of_fits {start : Nat} (fits : start + segments.flatten.length < 2 ^ 31) :
    addLengths start segments = some ((start + segments.flatten.length : Nat) : Int) := by
  induction segments generalizing start with
  | nil => rfl
  | cons part segments ih =>
    rw [flatten_cons, length_append, <- add_assoc] at fits ⊢
    have sum : signed 32 ((start : Int) + part.length) = _ :=
      signed_of_fits (by omega) (by omega)
    rw [addLengths, sum, <- Nat.cast_add]
    exact ih fits

/-- The total becomes negative exactly if the lengths up to some segment, modulo
`2 ^ 32`, reach `2 ^ 31`. -/
theorem addLengths_eq_none_iff {start : Nat} (small : start < 2 ^ 31) :
    addLengths start segments = none <->
      ∃ count, 2 ^ 31 <= (start + (segments.take count).flatten.length) % 2 ^ 32 := by
  induction segments generalizing start with
  | nil =>
    refine iff_of_false nofun ?_
    rintro ⟨count, large⟩
    simp only [take_nil, flatten_nil, length_nil] at large
    omega
  | cons part segments ih =>
    have wrapped : signed 32 ((start : Int) + part.length) =
        if (start + part.length) % 2 ^ 32 < 2 ^ 31 then (((start + part.length) % 2 ^ 32 : Nat) : Int)
        else (((start + part.length) % 2 ^ 32 : Nat) : Int) - 2 ^ 32 := by
      rw [signed_eq_bmod, Int.bmod_def]
      split_ifs <;> omega
    have further : (∃ count, 2 ^ 31 <=
          (start + ((part :: segments).take count).flatten.length) % 2 ^ 32) <->
        ∃ count, 2 ^ 31 <=
          (start + part.length + (segments.take count).flatten.length) % 2 ^ 32 := by
      rw [<- Nat.or_exists_add_one]
      simp only [take_zero, take_succ_cons, flatten_nil, flatten_cons,
        length_nil, length_append, <- add_assoc]
      exact or_iff_right (by omega)
    rw [addLengths, further, wrapped]
    split_ifs with fits negative negative
    · omega
    · rw [ih fits]
      simp only [Nat.mod_add_mod]
    · refine iff_of_true rfl ⟨0, ?_⟩
      simp only [take_zero, flatten_nil, length_nil]
      omega
    · omega

theorem check_eq_ok_iff : check segments = .ok total <->
    (1 <= segments.length /\ segments.length <= 1024) /\ addLengths 0 segments = some total := by
  unfold check
  split_ifs with count
  · exact iff_of_false nofun (by omega)
  · rw [and_iff_right (by omega)]
    cases addLengths 0 segments <;> simp

theorem total_nonneg (checked : check segments = .ok total) : 0 <= total :=
  addLengths_nonneg le_rfl (check_eq_ok_iff.mp checked).2

variable {α : Type} {opened : Bool}

theorem guarded_eq_ok_iff {act : Int -> α} {value : α} : guarded opened segments act = .ok value <->
    ∃ total, check segments = .ok total /\ opened /\ act total = value := by
  unfold guarded
  cases check segments with
  | error errno => simp
  | ok total => cases opened <;> simp

/-- Only vectors whose sum fits are written, and all of them as they are, when the
sum fits or the lengths up to some segment make the total negative; and `readv` rejects
the same vectors. -/
theorem writev_allocates_iff (counted : 1 <= segments.length /\ segments.length <= 1024)
    (memory : Bool) (answers : Nat -> Option Nat) (read : List (List UInt8) -> Int) :
    ((∀ delivery, writev opened memory answers segments = .ok delivery ->
        segments.flatten.length < 2 ^ 31 /\ delivery.allocated = segments.flatten.length /\
          ∀ copied ∈ delivery.copied, copied = segments.flatten) /\
      ∀ errno, readv opened read segments = .error errno <->
        writev opened memory answers segments = .error errno) <->
    (opened -> segments.flatten.length < 2 ^ 31 \/
      ∃ count, 2 ^ 31 <= (segments.take count).flatten.length % 2 ^ 32) := by
  have same : ∀ errno, readv opened read segments = .error errno <->
      writev opened memory answers segments = .error errno := by
    intro errno
    unfold readv writev guarded
    cases check segments with
    | error _ => simp
    | ok _ => cases opened <;> simp
  have seen := @addLengths_eq_none_iff segments 0 (by decide)
  simp only [Nat.zero_add, Nat.cast_zero] at seen
  rw [and_iff_left same, <- seen]
  constructor
  · intro right isOpen
    by_contra neither
    obtain ⟨large, added⟩ := not_or.mp neither
    obtain ⟨total, added⟩ := Option.ne_none_iff_exists'.mp added
    have checked := check_eq_ok_iff.mpr ⟨counted, added⟩
    exact large (right _ (guarded_eq_ok_iff.mpr ⟨_, checked, isOpen, rfl⟩)).1
  · intro fits delivery written
    obtain ⟨total, checked, isOpen, rfl⟩ := guarded_eq_ok_iff.mp written
    have added := (check_eq_ok_iff.mp checked).2
    have small := (fits isOpen).resolve_right (by simp [added])
    have whole : addLengths 0 segments = _ := @addLengths_of_fits segments 0 (by omega)
    rw [Nat.zero_add, added, Option.some.injEq] at whole
    subst whole
    unfold deliver
    split
    · split <;> exact ⟨small, rfl, by simp⟩
    · exact ⟨small, rfl, by simp⟩

theorem writev_allocates_two : (writev true true (fun _ => some 3) [[1], [2, 3]]).isOk /\
    ∀ delivery, writev true true (fun _ => some 3) [[1], [2, 3]] = .ok delivery ->
      delivery.allocated = 3 :=
  ⟨by decide, fun delivery written => (((writev_allocates_iff (by decide) _ _ fun _ => 0).mpr
    fun _ => Or.inl (by decide)).1 delivery written).2.1⟩

/-- Of a byte and `2 ^ 32 - 1` bytes the total is 0, and all of them are copied. -/
theorem writev_copies_too_much : ∃ part : List UInt8, part.length = 2 ^ 32 - 1 /\
    writev true true (fun _ => none) [[7], part] = .ok ⟨0, some (7 :: part), 0, -1⟩ := by
  have any : ∀ count, ∃ part : List UInt8, part.length = count :=
    fun count => ⟨List.replicate count 7, length_replicate⟩
  obtain ⟨part, length⟩ := any (2 ^ 32 - 1)
  refine ⟨part, length, ?_⟩
  have first : signed 32 1 = 1 := by decide
  have second : signed 32 4294967296 = 0 := by decide
  simp [writev, guarded, check, addLengths, deliver, length, first, second]

/-! ## The result -/

/-- The result is the number of bytes the descriptor took, or -1 if it took none. -/
def Delivery.Reports (delivery : Delivery) : Prop :=
  delivery.result = delivery.accepted \/ delivery.accepted = 0 /\ delivery.result = -1

def written (segments : List (List UInt8)) : List (List UInt8) :=
  segments.filter fun part => 0 < part.length

def FailsFirst (answers : Nat -> Option Nat) (parts : List (List UInt8)) : Prop :=
  ∃ idx < parts.length, answers idx = none /\ ∀ earlier < idx, answers earlier = some 0

def TakesAll (answers : Nat -> Option Nat) (parts : List (List UInt8)) : Prop :=
  ∀ idx part, parts[idx]? = some part -> ∃ count ∈ answers idx, part.length <= count

/-- No write fails, and what they take adds up to the number. -/
def AddsUp (answers : Nat -> Option Nat) (parts : List (List UInt8)) (total : Nat) : Prop :=
  (∀ idx < parts.length, answers idx ≠ none) /\
    (parts.mapIdx fun idx part => min ((answers idx).getD 0) part.length).sum = total

section

variable {answers : Nat -> Option Nat} {part : List UInt8} {parts : List (List UInt8)} {taken : Nat}

theorem failsFirst_cons : FailsFirst answers (part :: parts) <->
    answers 0 = none \/ answers 0 = some 0 /\ FailsFirst (fun idx => answers (idx + 1)) parts := by
  constructor
  · rintro ⟨_ | idx, inside, failed, before⟩
    · exact Or.inl failed
    · refine Or.inr ⟨before 0 (Nat.succ_pos _), idx, Nat.lt_of_succ_lt_succ inside, failed, ?_⟩
      exact fun earlier less => before (earlier + 1) (Nat.succ_lt_succ less)
  · rintro (failed | ⟨nothing, idx, inside, failed, before⟩)
    · exact ⟨0, Nat.succ_pos _, failed, fun _ less => (Nat.not_lt_zero _ less).elim⟩
    · refine ⟨idx + 1, Nat.succ_lt_succ inside, failed, ?_⟩
      rintro (_ | earlier) less
      · exact nothing
      · exact before earlier (Nat.lt_of_succ_lt_succ less)

theorem addsUp_cons : AddsUp answers (part :: parts) taken <-> ∃ count rest,
    answers 0 = some count /\ AddsUp (fun idx => answers (idx + 1)) parts rest /\
      taken = min count part.length + rest := by
  unfold AddsUp
  rw [mapIdx_cons, sum_cons, length_cons]
  constructor
  · rintro ⟨answered, sum⟩
    obtain ⟨count, first⟩ := Option.ne_none_iff_exists'.mp (answered 0 (Nat.succ_pos _))
    rw [first] at sum
    exact ⟨count, _, first, ⟨fun idx inside => answered _ (Nat.succ_lt_succ inside), rfl⟩, sum.symm⟩
  · rintro ⟨count, rest, first, ⟨answered, rfl⟩, rfl⟩
    rw [first]
    refine ⟨?_, rfl⟩
    rintro (_ | idx) inside
    · rw [first]
      exact nofun
    · exact answered idx (Nat.lt_of_succ_lt_succ inside)

theorem takesAll_cons : TakesAll answers (part :: parts) <->
    (∃ count ∈ answers 0, part.length <= count) /\ TakesAll (fun idx => answers (idx + 1)) parts := by
  constructor
  · exact fun all => ⟨all 0 part rfl, fun idx => all (idx + 1)⟩
  · rintro ⟨first, rest⟩ (_ | idx) other at_
    · cases at_
      exact first
    · exact rest idx other at_

theorem AddsUp.le (adds : AddsUp answers parts taken) : taken <= parts.flatten.length := by
  induction parts generalizing answers taken with
  | nil => exact adds.2.symm.le
  | cons part parts ih =>
    obtain ⟨count, rest, -, others, rfl⟩ := addsUp_cons.mp adds
    have less := ih others
    rw [flatten_cons, length_append]
    omega

/-- Only whole segments add up to all bytes. -/
theorem addsUp_length_iff : AddsUp answers parts parts.flatten.length <-> TakesAll answers parts := by
  induction parts generalizing answers with
  | nil => exact iff_of_true ⟨nofun, rfl⟩ nofun
  | cons part parts ih =>
    rw [addsUp_cons, takesAll_cons, <- ih, flatten_cons, length_append]
    constructor
    · rintro ⟨count, rest, first, adds, sum⟩
      have less := adds.le
      have whole : rest = parts.flatten.length := by omega
      exact ⟨⟨count, first, by omega⟩, whole ▸ adds⟩
    · rintro ⟨⟨count, first, enough⟩, adds⟩
      exact ⟨count, _, first, adds, by omega⟩

end

/-- What the writes of the segments come to, told by the answers: the induction is over
the segments, and an empty one asks for no answer. -/
theorem writeSegments_iff (answers : Nat -> Option Nat) (call : Nat) (segments : List (List UInt8)) :
    (writeSegments answers call segments = (false, 0) <->
      FailsFirst (fun idx => answers (call + idx)) (written segments)) /\
    ∀ taken, writeSegments answers call segments = (true, taken) <->
      AddsUp (fun idx => answers (call + idx)) (written segments) taken := by
  induction segments generalizing call with
  | nil =>
    refine ⟨iff_of_false nofun fun ⟨_, inside, _⟩ => Nat.not_lt_zero _ inside, fun taken => ?_⟩
    simp [writeSegments, written, AddsUp]
  | cons part segments ih =>
    by_cases some : 0 < part.length
    · have kept : written (part :: segments) = part :: written segments :=
        filter_cons_of_pos (by simpa using some)
      have later : (fun idx => answers (call + (idx + 1))) = fun idx => answers (call + 1 + idx) := by
        funext idx
        rw [add_comm idx, add_assoc]
      obtain ⟨failed, completed⟩ := ih (call + 1)
      rw [writeSegments, if_pos some, kept, failsFirst_cons, later, <- failed]
      simp only [addsUp_cons, later, <- completed, Nat.add_zero]
      generalize writeSegments answers (call + 1) segments = result
      obtain ⟨ended, accepted⟩ := result
      cases answers call with
      | none => simp
      | some count =>
        refine ⟨⟨fun same => ?_, ?_⟩, fun taken => ⟨fun same => ?_, ?_⟩⟩
        · obtain ⟨rfl, sum⟩ := Prod.mk.inj same
          have none : count = 0 /\ accepted = 0 := by omega
          exact Or.inr ⟨congrArg Option.some none.1, congrArg (Prod.mk false) none.2⟩
        · rintro (none | ⟨nothing, same⟩)
          · cases none
          · cases nothing
            cases same
            simp
        · obtain ⟨rfl, rfl⟩ := Prod.mk.inj same
          exact ⟨count, accepted, rfl, rfl, rfl⟩
        · rintro ⟨_, _, first, same, rfl⟩
          cases first
          cases same
          rfl
    · have dropped : written (part :: segments) = written segments :=
        filter_cons_of_neg (by simpa using some)
      rw [writeSegments, if_neg some, dropped]
      exact ih call

theorem written_flatten (segments : List (List UInt8)) :
    (written segments).flatten = segments.flatten := by
  have same : written segments = segments.filter fun part => part ≠ [] :=
    filter_congr fun part _ => by simp [length_pos_iff]
  rw [same, flatten_filter_ne_nil]

/-- The answers that make the result right.  A total that has not wrapped is reached by
whole segments only; one that has may be reached by short writes. -/
def Truthful (memory : Bool) (answers : Nat -> Option Nat) (segments : List (List UInt8))
    (total : Int) : Prop :=
  if memory then ∀ count ∈ answers 0, total <= count
  else FailsFirst answers (written segments) \/
    if segments.flatten.length < 2 ^ 31 then TakesAll answers (written segments)
    else AddsUp answers (written segments) total.toNat

theorem deliver_reports_iff (checked : check segments = .ok total) (memory : Bool)
    (answers : Nat -> Option Nat) :
    (deliver memory answers segments total).Reports <-> Truthful memory answers segments total := by
  have nonneg := total_nonneg checked
  unfold deliver Delivery.Reports Truthful
  cases memory with
  | true =>
    cases answers 0 with
    | none => simp
    | some count =>
      simp
      omega
  | false =>
    obtain ⟨failed, completed⟩ := writeSegments_iff answers 0 segments
    simp only [Nat.zero_add] at failed completed
    have all : segments.flatten.length < 2 ^ 31 ->
        (AddsUp answers (written segments) total.toNat <-> TakesAll answers (written segments)) := by
      intro fits
      have whole : addLengths 0 segments = _ := @addLengths_of_fits segments 0 (by omega)
      rw [(check_eq_ok_iff.mp checked).2, Nat.zero_add, Option.some.injEq] at whole
      rw [whole, Int.toNat_natCast, <- written_flatten]
      exact addsUp_length_iff
    have same : (if segments.flatten.length < 2 ^ 31 then TakesAll answers (written segments)
        else AddsUp answers (written segments) total.toNat) <->
          AddsUp answers (written segments) total.toNat := by
      split_ifs with fits
      · exact (all fits).symm
      · rfl
    simp only [Bool.false_eq_true, if_false]
    rw [same, <- failed, <- completed]
    obtain ⟨ended, accepted⟩ := writeSegments answers 0 segments
    cases ended with
    | true =>
      simp
      omega
    | false => simp

/-- With a buffer, the one write must fail or take everything; without one, every write
must take its whole segment, or one must fail before any byte was taken. -/
theorem writev_reports_iff (opened memory : Bool) (answers : Nat -> Option Nat)
    (segments : List (List UInt8)) :
    (∀ delivery, writev opened memory answers segments = .ok delivery -> delivery.Reports) <->
    ∀ total, check segments = .ok total -> opened ->
      Truthful memory answers segments total := by
  constructor
  · intro right total checked isOpen
    exact (deliver_reports_iff checked memory answers).mp
      (right _ (guarded_eq_ok_iff.mpr ⟨total, checked, isOpen, rfl⟩))
  · intro complete delivery written
    obtain ⟨total, checked, isOpen, rfl⟩ := guarded_eq_ok_iff.mp written
    exact (deliver_reports_iff checked memory answers).mpr (complete total checked isOpen)

/-- Of two bytes the descriptor takes one, and 2 is returned; without a buffer, -1
is returned when the first segment was taken and the second fails. -/
theorem writev_misreports :
    writev true true (fun _ => some 1) [[7, 8]] = .ok ⟨2, some [7, 8], 1, 2⟩ /\
    writev true false (fun call => if call = 0 then some 1 else none) [[7], [8]] =
      .ok ⟨2, none, 1, -1⟩ := by
  decide

end Clib4.Posix.Vectors
