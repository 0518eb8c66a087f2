import Clib4.Stdio.Locking.Table

namespace Clib4.Stdio.Locking

open Foundation

/-!
# Which bytes a lock covers

A request names bytes between 0 and the largest offset a 64-bit file position
can have; a length of zero means all bytes from the start on.  The handler
replaces that length by `LONG_MAX`, which has 32 bits, and falls back to
`LONG_MAX` when the last byte does not fit 64 bits.
-/

/-- The position `l_start` counts from, where the system calls tell it. -/
def Flock.origin (l : Flock) (answers : Answers) : Option Int :=
  match l.whence with
  | .set => some 0
  | .cur => answers.position.toOption
  | .fromEnd => answers.fileSize.toOption

def Flock.Requests (l : Flock) (origin byte : Int) : Prop :=
  0 <= byte /\ byte < 2 ^ 63 /\ origin + l.start + min l.len 0 <= byte /\
    (l.len = 0 \/ byte < origin + l.start + max l.len 0)

/-- A request with 64-bit quantities whose first byte is in the file. -/
structure Flock.WellFormed (l : Flock) (origin : Int) : Prop where
  startFits : -2 ^ 63 <= l.start /\ l.start < 2 ^ 63
  lenFits : -2 ^ 63 <= l.len /\ l.len < 2 ^ 63
  originFits : 0 <= origin /\ origin < 2 ^ 63
  first : 0 <= origin + l.start + min l.len 0

def Flock.region (l : Flock) (answers : Answers) : Option (Int × Int) :=
  match rangeStart l answers with
  | .error _ => none
  | .ok start => lockRange start l.len

/-- A region that is stored is not empty and covers the bytes requested. -/
def Flock.Exact (l : Flock) (answers : Answers) (origin : Int) : Prop :=
  ∀ start stop, l.region answers = some (start, stop) ->
    start <= stop /\ ∀ byte, start <= byte /\ byte <= stop ↔ l.Requests origin byte

/-- Where the handler gets the range right: the start does not fit 64 bits and
the request is refused; or it is about bytes before its start; or it has a
length and its last byte fits 64 bits; or its length is zero and `LONG_MAX`
bytes from its start lead exactly to the last offset. -/
def Flock.InRange (l : Flock) (origin : Int) : Prop :=
  2 ^ 63 <= origin + l.start \/ l.len < 0 \/ (0 < l.len /\ origin + l.start + l.len <= 2 ^ 63) \/
    (l.len = 0 /\ origin + l.start + longMax = 2 ^ 63)

theorem signed_sum_of_overflow {value : Int} (lower : 2 ^ 63 <= value) (upper : value < 2 ^ 64) :
    signed 64 value = value - 2 ^ 64 := by
  have congruent : value ≡ value - 2 ^ 64 [ZMOD 2 ^ 64] := by
    rw [Int.modEq_iff_dvd]
    exact ⟨-1, by ring⟩
  rw [signed_congr congruent]
  exact signed_of_fits (by omega) (by omega)

variable {answers : Answers} {origin : Int}

section

variable {l : Flock} (known : l.origin answers = some origin) (wellFormed : l.WellFormed origin)
include known wellFormed

theorem rangeStart_eq : rangeStart l answers = .ok (signed 64 (origin + l.start)) := by
  have fits := wellFormed.startFits
  unfold Flock.origin at known
  unfold rangeStart
  cases whence : l.whence with
  | set =>
    rw [whence] at known
    have zero := (Option.some.inj known).symm
    rw [zero, zero_add]
    exact congrArg Except.ok (signed_of_fits (by omega) (by omega)).symm
  | cur =>
    rw [whence] at known
    cases position : answers.position with
    | error error => rw [position] at known; exact absurd known (by simp [Except.toOption])
    | ok value =>
      rw [position] at known
      rw [show value = origin from Option.some.inj known]
      rfl
  | fromEnd =>
    rw [whence] at known
    cases size : answers.fileSize with
    | error error => rw [size] at known; exact absurd known (by simp [Except.toOption])
    | ok value =>
      rw [size] at known
      rw [show value = origin from Option.some.inj known]
      rfl

theorem region_eq (fits : origin + l.start < 2 ^ 63) : l.region answers = some
      (if l.len < 0 then (origin + l.start + l.len, origin + l.start - 1)
      else (origin + l.start,
        if origin + l.start + (if l.len = 0 then longMax else l.len) <= 2 ^ 63 then
          origin + l.start + (if l.len = 0 then longMax else l.len) - 1
        else longMax)) := by
  have ⟨startRange, lenRange, originRange, first⟩ := wellFormed
  have maximum : longMax = 2 ^ 31 - 1 := rfl
  unfold Flock.region
  rw [rangeStart_eq known wellFormed, signed_of_fits (by omega) fits]
  generalize origin + l.start = start at *
  unfold lockRange
  dsimp only
  rw [if_neg (by omega)]
  by_cases negative : l.len < 0
  · rw [if_neg (show ¬ l.len = 0 by omega), if_pos negative, if_pos negative,
      signed_of_fits (by omega) (by omega), if_neg (by omega)]
    have stop : signed 64 (start + l.len - l.len - 1) = start - 1 := by
      rw [show start + l.len - l.len - 1 = start - 1 by omega]
      exact signed_of_fits (by omega) (by omega)
    rw [stop, if_neg (by omega)]
  · generalize lenEq : (if l.len = 0 then longMax else l.len) = len
    rw [if_neg (by omega), if_neg negative]
    by_cases inside : start + len <= 2 ^ 63
    · rw [signed_of_fits (by omega) (by omega), if_pos inside]
      congr 2
      omega
    · rw [signed_sum_of_overflow (by omega) (by omega), if_pos (by omega), if_neg inside]

theorem region_none (large : 2 ^ 63 <= origin + l.start) : l.region answers = none := by
  have ⟨startRange, lenRange, originRange, first⟩ := wellFormed
  unfold Flock.region
  rw [rangeStart_eq known wellFormed, signed_sum_of_overflow large (by omega)]
  unfold lockRange
  dsimp only
  rw [if_pos (by omega)]

theorem Flock.exact_iff : l.Exact answers origin ↔ l.InRange origin := by
  have ⟨startRange, lenRange, originRange, first⟩ := wellFormed
  have maximum : longMax = 2 ^ 31 - 1 := rfl
  unfold Flock.Exact Flock.InRange
  by_cases large : 2 ^ 63 <= origin + l.start
  · rw [region_none known wellFormed large]
    exact iff_of_true (fun _ _ none => absurd none (by simp)) (Or.inl large)
  · rw [region_eq known wellFormed (not_le.mp large)]
    have single (P : Int -> Int -> Prop) (region : Int × Int) :
        (∀ start stop, some region = some (start, stop) -> P start stop) ↔
          P region.1 region.2 := by
      constructor
      · intro all
        exact all region.1 region.2 rfl
      · rintro holds start stop ⟨⟩
        exact holds
    rw [single]
    unfold Flock.Requests
    by_cases negative : l.len < 0
    · rw [if_pos negative]
      refine iff_of_true ⟨by dsimp only; omega, fun byte => ?_⟩ (Or.inr (Or.inl negative))
      omega
    · rw [if_neg negative]
      by_cases zero : l.len = 0
      · constructor
        · rintro ⟨_, bytes⟩
          have last := (bytes (2 ^ 63 - 1)).mpr (by omega)
          right; right; right
          split at last <;> omega
        · rintro (overflow | before | pos | whole)
          · omega
          · omega
          · omega
          · exact ⟨by omega, fun byte => by omega⟩
      · rw [if_neg zero]
        constructor
        · rintro ⟨_, bytes⟩
          right; right; left
          by_contra overflow
          have last := (bytes (2 ^ 63 - 1)).mpr (by omega)
          omega
        · rintro (overflow | before | pos | whole)
          · omega
          · omega
          · exact ⟨by omega, fun byte => by omega⟩
          · omega

end

def LockedRegionNode.StoredFor (region : LockedRegionNode) (l : Flock) (answers : Answers) : Prop :=
  l.region answers = some (region.start, region.stop)

/-- Every request stores exactly the bytes it is about if and only if its range
is right; and wherever the processes get to, two conflicting regions of
different owners on one file whose ranges are right have no byte in common. -/
theorem lock_range_exact_iff (naming : Naming) (handles : Nat -> Handle naming)
    (steps : List Step) :
    (∀ (l : Flock) (answers : Answers) (origin : Int), l.origin answers = some origin ->
      l.WellFormed origin -> (l.Exact answers origin ↔ l.InRange origin)) /\
    ∀ first ∈ ((System.initial naming).run handles steps).lockList,
      ∀ second ∈ ((System.initial naming).run handles steps).lockList, first.SameFile second ->
      ∀ region ∈ first.lockedRegionList, ∀ other ∈ second.lockedRegionList,
      region.owner ≠ other.owner -> ¬ (region.shared /\ other.shared) ->
      ∀ (l l' : Flock) (answers answers' : Answers) (origin origin' : Int),
        l.origin answers = some origin -> l.WellFormed origin -> l.InRange origin ->
        region.StoredFor l answers ->
        l'.origin answers' = some origin' -> l'.WellFormed origin' -> l'.InRange origin' ->
        other.StoredFor l' answers' ->
        ¬ ∃ byte, l.Requests origin byte /\ l'.Requests origin' byte := by
  constructor
  · intro l answers origin known wellFormed
    exact Flock.exact_iff known wellFormed
  · intro first inFirst second inSecond same region inRegion other inOther owners excl
      l l' answers answers' origin origin' known wellFormed inRange stored known' wellFormed'
      inRange' stored'
    rintro ⟨byte, requested, requested'⟩
    have valid := System.run_keeps handles steps Consistent.nil (System.initial_prepared
      naming)
    have compatible := valid.compatible first inFirst second inSecond same region inRegion
      other inOther
    have covered := ((Flock.exact_iff known wellFormed).mpr inRange _ _ stored).2 byte
    have covered' := ((Flock.exact_iff known' wellFormed').mpr inRange' _ _ stored').2 byte
    have inside := covered.mpr requested
    have inside' := covered'.mpr requested'
    exact excl (compatible ⟨by omega, by omega⟩ owners)

/-! ## Two processes -/

def plainNaming : Naming where
  Dir := Nat
  Name := Nat
  sameLock first second := first == second
  stricmp first second := first == second
  sameLock_equivalence := ⟨by simp, by simp, by simp⟩
  stricmp_equivalence := ⟨by simp, by simp, by simp⟩

def plainHandles (fd : Nat) : Handle plainNaming :=
  ⟨fd, (0 : Nat), (0 : Nat), true, true⟩

def plainAnswers : Answers where
  examineForNode := none
  allocNode := true
  parentForNode := none
  allocRegion := true
  position := .ok 0
  fileSize := .ok 0
  examineForName := none
  parentForName := none
  examineToFind := none
  parentToFind := none
  semaphore := true
  examine_found := by simp
  parent_found := by simp

def excl (start len : Int) : Flock := ⟨.wrlck, .set, start, len, 0⟩

theorem lock_range_of_ten_bytes :
    (excl 5 10).origin plainAnswers = some 0 /\ (excl 5 10).WellFormed 0 /\
      (excl 5 10).Exact plainAnswers 0 := by
  have wellFormed : (excl 5 10).WellFormed 0 :=
    ⟨by decide, by decide, by decide, by decide⟩
  refine ⟨rfl, wellFormed, ?_⟩
  refine ((lock_range_exact_iff plainNaming plainHandles []).1 _ _ 0 rfl wellFormed).mpr ?_
  exact Or.inr (Or.inr (Or.inl ⟨by decide, by decide⟩))

/-- One process locks the whole file, then another one the byte at `2 ^ 31`:
both are granted, although both requests are about that byte. -/
theorem whole_file_lock_ends_early : ¬ (excl 0 0).Exact plainAnswers 0 /\
    (excl 0 0).Requests 0 (2 ^ 31) /\ (excl (2 ^ 31) 1).Requests 0 (2 ^ 31) /\
    ((System.initial plainNaming).run plainHandles
        [.request 1 .setlk (excl 0 0) plainAnswers,
          .request 2 .setlk (excl (2 ^ 31) 1) plainAnswers]).lockList.map
      (fun node => node.lockedRegionList) =
      [[⟨0, 2 ^ 31 - 2, 0, 1, false⟩, ⟨2 ^ 31, 2 ^ 31, 1, 2, false⟩]] := by
  have requested : (excl 0 0).Requests 0 (2 ^ 31) :=
    ⟨by decide, by decide, by decide, Or.inl rfl⟩
  refine ⟨?_, requested, ⟨by decide, by decide, by decide, Or.inr (by decide)⟩, by decide +kernel⟩
  intro exact
  have stored : (excl 0 0).region plainAnswers = some (0, 2 ^ 31 - 2) := by decide +kernel
  have covered := ((exact _ _ stored).2 (2 ^ 31)).mpr requested
  exact absurd covered.2 (by decide)

end Clib4.Stdio.Locking
