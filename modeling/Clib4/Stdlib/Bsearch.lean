import Mathlib.Algebra.Ring.Nat
import Mathlib.Data.Nat.Find
import Mathlib.Logic.Function.Iterate

namespace Clib4.Stdlib

/-!
# `bsearch`

The search keeps a window of positions, from `lower` up to but not including
`upper`, and compares the key with the element in its middle.  The bounds have
the type `size_t`, and so has their sum.  With more than `2 ^ 31` elements the
sum can wrap around, and the middle is then in front of the window.  The search
never errs by that, since every element in front of the window is known to be
less than the key; but it may go back there again and again.
-/

/-! ## The search -/

def midpoint (lower upper : UInt32) : UInt32 := (lower + upper) / 2

/-- An array: it ends within the memory. -/
structure Elements where
  base : UInt32
  count : UInt32
  size : UInt32
  fits : base.toNat + count.toNat * size.toNat <= 2 ^ 32

def Elements.addr (elements : Elements) (position : UInt32) : UInt32 :=
  elements.base + position * elements.size

/-- A search under way, or what it returned; 0 is the null pointer. -/
inductive Search where
  | running (lower upper : UInt32)
  | returned (result : UInt32)
deriving DecidableEq

section Searching

-- `compare` is told where the key and the element are
variable (cmp : UInt32 -> UInt32 -> Int) (key : UInt32) (elements : Elements)

def Search.examine (lower upper position : UInt32) : Search :=
  let current := elements.addr position
  let delta := cmp key current
  if delta = 0 then .returned current
  else if delta < 0 then .running lower position
  else .running (position + 1) upper

def Search.step : Search -> Search
  | .returned result => .returned result
  | .running lower upper =>
    if lower < upper then examine cmp key elements lower upper (midpoint lower upper)
    else .returned 0

/-- The position whose element the next round compares with the key. -/
def Search.compared : Search -> Option UInt32
  | .returned _ => none
  | .running lower upper => if lower < upper then some (midpoint lower upper) else none

/-- The search before the first round, and the `errno` it leaves. -/
def bsearch (errno : Nat) : Search × Nat :=
  if elements.count > 0 /\ elements.size > 0 then
    if key = 0 \/ elements.base = 0 then (.returned 0, 14)
    else (.running 0 elements.count, errno)
  else (.returned 0, errno)

def rounds (errno : Nat) (number : Nat) : Search :=
  (Search.step cmp key elements)^[number] (bsearch key elements errno).1

/-! ## What it is for -/

/-- The elements before `first` are less than the key, those from `last` on are
greater, and those between compare equal. -/
structure Partitioned (first last : Nat) : Prop where
  ordered : first <= last
  bounded : last <= elements.count.toNat
  less : ∀ position : UInt32, position.toNat < first ->
    0 < cmp key (elements.addr position)
  equal : ∀ position : UInt32, first <= position.toNat -> position.toNat < last ->
    cmp key (elements.addr position) = 0
  greater : ∀ position : UInt32, last <= position.toNat -> position < elements.count ->
    cmp key (elements.addr position) < 0

def Present : Prop :=
  ∃ position, position < elements.count /\ cmp key (elements.addr position) = 0

/-- An element that compares equal if there is one, and otherwise the null pointer. -/
def Answers (result : UInt32) : Prop :=
  (result ≠ 0 <-> Present cmp key elements) /\
    (result ≠ 0 -> ∃ position, position < elements.count /\
      result = elements.addr position /\ cmp key result = 0)

/-- The contract of `bsearch`. -/
structure Searches (errno : Nat) : Prop where
  terminates : ∃ number result, rounds cmp key elements errno number = .returned result
  within : ∀ number position,
    (rounds cmp key elements errno number).compared = some position -> position < elements.count
  answers : ∀ number result, rounds cmp key elements errno number = .returned result ->
      Answers cmp key elements result

/-! ## Windows -/

variable {cmp key elements} {first last : Nat}

theorem midpoint_toNat {lower upper : UInt32} :
    (midpoint lower upper).toNat = (lower.toNat + upper.toNat) % 2 ^ 32 / 2 := by
  rfl

theorem midpoint_lt_half (lower upper : UInt32) : (midpoint lower upper).toNat < 2 ^ 31 := by
  rw [midpoint_toNat]
  omega

variable {lower upper : UInt32}

theorem midpoint_lt_upper (nonempty : lower < upper) :
    (midpoint lower upper).toNat < upper.toNat := by
  have below := UInt32.lt_iff_toNat_lt.mp nonempty
  rw [midpoint_toNat]
  omega

theorem lower_le_midpoint (nonempty : lower < upper)
    (early : upper.toNat <= 2 ^ 31) : lower.toNat <= (midpoint lower upper).toNat := by
  have below := UInt32.lt_iff_toNat_lt.mp nonempty
  rw [midpoint_toNat]
  omega

theorem midpoint_add_one (lower upper : UInt32) :
    (midpoint lower upper + 1).toNat = (midpoint lower upper).toNat + 1 := by
  have small := midpoint_lt_half lower upper
  rw [UInt32.toNat_add]
  exact Nat.mod_eq_of_lt (by have : (1 : UInt32).toNat = 1 := rfl; omega)

theorem Elements.address_toNat (elements : Elements) (position : UInt32) :
    (elements.addr position).toNat =
        (elements.base.toNat + position.toNat * elements.size.toNat) % 2 ^ 32 := by
  rw [Elements.addr, UInt32.toNat_add, UInt32.toNat_mul, Nat.add_mod_mod]

variable {position : UInt32}

theorem Elements.address_ne_zero (elements : Elements)
    (inside : position < elements.count) (sized : elements.size ≠ 0)
    (located : elements.base ≠ 0) : elements.addr position ≠ 0 := by
  have start : elements.base.toNat ≠ 0 := fun zero => located (UInt32.toNat_inj.mp zero)
  have width : elements.size.toNat ≠ 0 := fun zero => sized (UInt32.toNat_inj.mp zero)
  have next := UInt32.lt_iff_toNat_lt.mp inside
  have ends : (position.toNat + 1) * elements.size.toNat <=
      elements.count.toNat * elements.size.toNat := Nat.mul_le_mul_right _ next
  have fits := elements.fits
  rw [Nat.succ_mul] at ends
  intro null
  have zero := elements.address_toNat position
  rw [null] at zero
  have : (0 : UInt32).toNat = 0 := rfl
  omega

/-! ## Partial correctness -/

section

variable (partitioned : Partitioned cmp key elements first last)
include partitioned

theorem Partitioned.present_iff : Present cmp key elements <-> first < last := by
  constructor
  · rintro ⟨position, inside, same⟩
    by_contra none
    rcases Nat.lt_or_ge position.toNat first with before | behind
    · have := partitioned.less position before
      omega
    · have := partitioned.greater position (by omega) inside
      omega
  · intro some
    have size : first < 2 ^ 32 := by
      have := partitioned.bounded
      have := elements.count.toNat_lt
      omega
    have value := UInt32.toNat_ofNat_of_lt' size
    refine ⟨UInt32.ofNat first, ?_, partitioned.equal _ (by omega) (by omega)⟩
    rw [UInt32.lt_iff_toNat_lt]
    have := partitioned.bounded
    omega

theorem examine_less (lower upper : UInt32) (before : position.toNat < first) :
    Search.examine cmp key elements lower upper position = .running (position + 1) upper := by
  have delta := partitioned.less position before
  unfold Search.examine
  rw [if_neg (by omega), if_neg (by omega)]

theorem examine_not_less (lower upper : UInt32) (behind : first <= position.toNat)
    (inside : position < elements.count) :
    (position.toNat < last /\ cmp key (elements.addr position) = 0 /\
      Search.examine cmp key elements lower upper position =
        .returned (elements.addr position)) \/
    (last <= position.toNat /\
      Search.examine cmp key elements lower upper position = .running lower position) := by
  unfold Search.examine
  rcases Nat.lt_or_ge position.toNat last with equal | greater
  · have delta := partitioned.equal position behind equal
    exact Or.inl ⟨equal, delta, if_pos delta⟩
  · have delta := partitioned.greater position greater inside
    rw [if_neg (by omega), if_pos delta]
    exact Or.inr ⟨greater, rfl⟩

end

theorem step_nonempty (nonempty : lower < upper) :
    (Search.running lower upper).step cmp key elements =
      Search.examine cmp key elements lower upper (midpoint lower upper) := if_pos nonempty

theorem step_empty (empty : ¬ lower < upper) :
    (Search.running lower upper).step cmp key elements = .returned 0 := if_neg empty

/-- What holds before every round: the elements that compare equal are inside the window. -/
def Sound (cmp : UInt32 -> UInt32 -> Int) (key : UInt32) (elements : Elements)
    (first last : Nat) : Search -> Prop
  | .returned result => Answers cmp key elements result
  | .running lower upper =>
    lower.toNat <= first /\ last <= upper.toNat /\ upper <= elements.count

theorem midpoint_lt_count (nonempty : lower < upper)
    (bound : upper <= elements.count) : midpoint lower upper < elements.count :=
  UInt32.lt_of_lt_of_le (UInt32.lt_iff_toNat_lt.mpr (midpoint_lt_upper nonempty)) bound

theorem answers_zero_iff : Answers cmp key elements 0 <-> ¬ Present cmp key elements := by
  constructor
  · intro answers present
    exact answers.1.mpr present rfl
  · intro absent
    exact ⟨⟨fun nonzero => absurd rfl nonzero, fun present => absurd present absent⟩,
      fun nonzero => absurd rfl nonzero⟩

section

variable (partitioned : Partitioned cmp key elements first last) (sized : elements.size ≠ 0)
  (located : elements.base ≠ 0)
include partitioned sized located

/-- One round keeps the elements that compare equal inside the window. -/
theorem Sound.step {search : Search} (sound : Sound cmp key elements first last search) :
    Sound cmp key elements first last (search.step cmp key elements) := by
  cases search with
  | returned result => exact sound
  | running lower upper =>
    rcases sound with ⟨start, finish, bound⟩
    by_cases nonempty : lower < upper
    · have inside := midpoint_lt_count nonempty bound
      rw [step_nonempty nonempty]
      rcases Nat.lt_or_ge (midpoint lower upper).toNat first with before | behind
      · -- a lesser element, maybe one in front of the window
        rw [examine_less partitioned lower upper before]
        exact ⟨by rw [midpoint_add_one]; exact before, finish, bound⟩
      · rcases examine_not_less partitioned lower upper behind inside with
          ⟨_, same, found⟩ | ⟨greater, narrowed⟩
        · rw [found]
          exact ⟨⟨fun _ => ⟨_, inside, same⟩,
            fun _ => elements.address_ne_zero inside sized located⟩,
            fun _ => ⟨_, inside, rfl, same⟩⟩
        · rw [narrowed]
          exact ⟨start, greater, UInt32.le_of_lt inside⟩
    · rw [step_empty nonempty]
      have empty := Nat.le_of_not_lt fun less => nonempty (UInt32.lt_iff_toNat_lt.mpr less)
      refine answers_zero_iff.mpr fun present => ?_
      have := partitioned.present_iff.mp present
      omega

theorem Sound.iterate (number : Nat) : Sound cmp key elements first last
      ((Search.step cmp key elements)^[number] (.running 0 elements.count)) := by
  induction number with
  | zero => exact ⟨Nat.zero_le _, partitioned.bounded, UInt32.le_refl _⟩
  | succ number ih =>
    rw [Function.iterate_succ_apply']
    exact ih.step partitioned sized located

end

theorem Sound.compared_lt {search : Search} (sound : Sound cmp key elements first last search)
    (compared : search.compared = some position) : position < elements.count := by
  cases search with
  | returned result => cases compared
  | running lower upper =>
    rcases sound with ⟨_, _, bound⟩
    by_cases nonempty : lower < upper
    · have middle : some (midpoint lower upper) = some position :=
        (if_pos nonempty).symm.trans compared
      cases middle
      exact midpoint_lt_count nonempty bound
    · have nothing : none = some position := (if_neg nonempty).symm.trans compared
      cases nothing

/-! ## Comparisons without an order -/

/-- The window lies in the array, and a pointer returned is that of an element
which compares equal. -/
def Search.Inside (cmp : UInt32 -> UInt32 -> Int) (key : UInt32) (elements : Elements) :
    Search -> Prop
  | .running _ upper => upper <= elements.count
  | .returned result => result = 0 \/ ∃ position, position < elements.count /\
      result = elements.addr position /\ cmp key result = 0

theorem Search.Inside.step {search : Search} (inside : search.Inside cmp key elements) :
    (search.step cmp key elements).Inside cmp key elements := by
  cases search with
  | returned result => exact inside
  | running lower upper =>
    by_cases nonempty : lower < upper
    · have middle := midpoint_lt_count nonempty inside
      rw [step_nonempty nonempty]
      unfold Search.examine
      dsimp only
      split_ifs with equal
      · exact Or.inr ⟨_, middle, rfl, equal⟩
      · exact UInt32.le_of_lt middle
      · exact inside
    · rw [step_empty nonempty]
      exact Or.inl rfl

/-- Whatever `compare` answers, also for an array that is in no order. -/
theorem rounds_inside (errno number : Nat) :
    (rounds cmp key elements errno number).Inside cmp key elements := by
  induction number with
  | zero =>
    unfold rounds bsearch
    split_ifs
    · exact Or.inl rfl
    · exact UInt32.le_refl _
    · exact Or.inl rfl
  | succ number ih =>
    unfold rounds
    rw [Function.iterate_succ_apply']
    exact ih.step

/-! ## Termination -/

def Search.Ends (cmp : UInt32 -> UInt32 -> Int) (key : UInt32) (elements : Elements)
    (search : Search) : Prop :=
  ∃ number result, (Search.step cmp key elements)^[number] search = .returned result

theorem Search.Ends.of_iterate {search : Search} (number : Nat)
    (later : ((Search.step cmp key elements)^[number] search).Ends cmp key elements) :
    search.Ends cmp key elements := by
  rcases later with ⟨more, result, returned⟩
  refine ⟨more + number, result, ?_⟩
  rw [Function.iterate_add_apply]
  exact returned

theorem Search.ends_returned (result : UInt32) :
    (Search.returned result).Ends cmp key elements := ⟨0, result, rfl⟩

theorem Search.ends_of_early (lower upper : UInt32) (early : upper.toNat <= 2 ^ 31) :
    (Search.running lower upper).Ends cmp key elements := by
  induction width : upper.toNat - lower.toNat using Nat.strongRecOn generalizing lower upper with
  | ind width ih =>
    apply Search.Ends.of_iterate 1
    rw [Function.iterate_one]
    by_cases nonempty : lower < upper
    · have inside := lower_le_midpoint nonempty early
      have below := midpoint_lt_upper nonempty
      rw [step_nonempty nonempty]
      unfold Search.examine
      dsimp only
      split_ifs
      · exact Search.ends_returned _
      · exact ih _ (by omega) _ _ (by omega) rfl
      · have next := midpoint_add_one lower upper
        exact ih _ (by omega) _ _ early rfl
    · rw [step_empty nonempty]
      exact Search.ends_returned _

/-- Where the window begins after rounds in which every element was less than the key. -/
def advanced (count : UInt32) : Nat -> UInt32
  | 0 => 0
  | number + 1 => midpoint (advanced count number) count + 1

def nextPosition (count : UInt32) (number : Nat) : UInt32 := midpoint (advanced count number) count

theorem advanced_lt {count : UInt32} (large : 2 ^ 31 < count.toNat) (number : Nat) :
    advanced count number < count := by
  rw [UInt32.lt_iff_toNat_lt]
  cases number with
  | zero => exact Nat.lt_of_le_of_lt (Nat.zero_le _) large
  | succ number =>
    have half := midpoint_lt_half (advanced count number) count
    rw [advanced, midpoint_add_one]
    omega

section

variable (partitioned : Partitioned cmp key elements first last)
  (large : 2 ^ 31 < elements.count.toNat)
include partitioned large

/-- As long as only lesser elements are met the end of the window stays. -/
theorem iterate_step_advanced (number : Nat)
    (lesser : ∀ earlier, earlier < number -> (nextPosition elements.count earlier).toNat <
      first) :
    (Search.step cmp key elements)^[number] (.running 0 elements.count) =
      .running (advanced elements.count number) elements.count := by
  induction number with
  | zero => rfl
  | succ number ih =>
    rw [Function.iterate_succ_apply', ih fun earlier less => lesser earlier (by omega),
      step_nonempty (advanced_lt large number)]
    exact examine_less partitioned _ _ (lesser number (Nat.lt_succ_self number))

/-- In a large array the search ends when it comes upon an element that is not
less than the key: from then on no sum wraps around. -/
theorem ends_iff_of_large : (Search.running 0 elements.count).Ends cmp key elements <->
      ∃ number, first <= (nextPosition elements.count number).toNat := by
  constructor
  · rintro ⟨number, result, returned⟩
    by_contra none
    have lesser : ∀ number, (nextPosition elements.count number).toNat < first :=
      fun number => Nat.lt_of_not_le fun reached => none ⟨number, reached⟩
    rw [iterate_step_advanced partitioned large number fun earlier _ => lesser earlier] at returned
    cases returned
  · intro some
    have reached := Nat.find_spec some
    have inside : nextPosition elements.count (Nat.find some) < elements.count :=
      midpoint_lt_count (advanced_lt large _) (UInt32.le_refl _)
    apply Search.Ends.of_iterate (Nat.find some)
    rw [iterate_step_advanced partitioned large _ fun earlier less =>
      Nat.lt_of_not_le (Nat.find_min some less)]
    apply Search.Ends.of_iterate 1
    rw [Function.iterate_one, step_nonempty (advanced_lt large _)]
    rcases examine_not_less partitioned (advanced elements.count (Nat.find some)) elements.count
      reached inside with ⟨_, _, found⟩ | ⟨_, narrowed⟩
    · exact (congrArg (Search.Ends cmp key elements) found).mpr (Search.ends_returned _)
    · exact (congrArg (Search.Ends cmp key elements) narrowed).mpr
        (Search.ends_of_early _ _ (Nat.le_of_lt (midpoint_lt_half _ _)))

end

/-! ## Total correctness -/

/-- The arguments are of a kind that `bsearch` searches for. -/
def Searchable (key : UInt32) (elements : Elements) : Prop :=
  key ≠ 0 /\ elements.base ≠ 0 /\ elements.size ≠ 0

instance (key : UInt32) (elements : Elements) : Decidable (Searchable key elements) :=
  inferInstanceAs (Decidable (_ /\ _))

theorem word_pos_iff {value : UInt32} : value > 0 <-> value ≠ 0 := by
  rw [GT.gt, Ne, <- UInt32.toNat_inj]
  exact Nat.pos_iff_ne_zero

theorem bsearch_nothing (nothing : ¬ Searchable key elements \/ elements.count = 0) {errno : Nat} :
    (bsearch key elements errno).1 = .returned 0 := by
  unfold bsearch
  split_ifs with sized located
  · rfl
  · rcases nothing with unsearchable | empty
    · exact absurd ⟨fun null => located (Or.inl null), fun null => located (Or.inr null),
        word_pos_iff.mp sized.2⟩ unsearchable
    · exact absurd empty (word_pos_iff.mp sized.1)
  · rfl

/-- A call that does not search returns the null pointer, which is the answer
when no element compares equal. -/
theorem searches_nothing_iff (nothing : ¬ Searchable key elements \/ elements.count = 0)
    {errno : Nat} : Searches cmp key elements errno <-> ¬ Present cmp key elements := by
  have after : ∀ number, rounds cmp key elements errno number = .returned 0 := by
    intro number
    unfold rounds
    rw [bsearch_nothing nothing]
    exact Function.iterate_fixed rfl number
  constructor
  · intro searches
    exact answers_zero_iff.mp (searches.answers 0 0 (after 0))
  · intro absent
    refine ⟨⟨0, 0, after 0⟩, ?_, ?_⟩
    · intro number position compared
      rw [after] at compared
      cases compared
    · intro number result returned
      rw [after] at returned
      cases returned
      exact answers_zero_iff.mpr absent

theorem searches_iff_ends (partitioned : Partitioned cmp key elements first last)
    (searchable : Searchable key elements) (some : elements.count ≠ 0) (errno : Nat) :
    Searches cmp key elements errno <->
      (Search.running 0 elements.count).Ends cmp key elements := by
  have after : ∀ number, rounds cmp key elements errno number =
      (Search.step cmp key elements)^[number] (.running 0 elements.count) := by
    intro number
    unfold rounds
    unfold bsearch
    rw [if_pos ⟨word_pos_iff.mpr some, word_pos_iff.mpr searchable.2.2⟩,
      if_neg (not_or.mpr ⟨searchable.1, searchable.2.1⟩)]
  have sound := Sound.iterate partitioned searchable.2.2 searchable.2.1
  constructor
  · intro searches
    rcases searches.terminates with ⟨number, result, returned⟩
    exact ⟨number, result, (after number).symm.trans returned⟩
  · rintro ⟨number, result, returned⟩
    refine ⟨⟨number, result, (after number).trans returned⟩, ?_, ?_⟩
    · intro number position compared
      rw [after] at compared
      exact (sound number).compared_lt compared
    · intro number result returned
      have answers := sound number
      rw [<- after, returned] at answers
      exact answers

/-- `bsearch` keeps its contract for up to `2 ^ 31` elements, and for more when
a search that only meets lesser elements comes to a position behind those that
are less.  Without a key, an array or a size there must be nothing to find. -/
theorem bsearch_searches_iff (cmp : UInt32 -> UInt32 -> Int) (key : UInt32)
    (elements : Elements) (first last errno : Nat)
    (partitioned : Partitioned cmp key elements first last) :
    Searches cmp key elements errno <->
      if Searchable key elements then
        elements.count.toNat <= 2 ^ 31 \/
          ∃ number, first <= (nextPosition elements.count number).toNat
      else first = last := by
  by_cases searchable : Searchable key elements
  · rw [if_pos searchable]
    by_cases empty : elements.count = 0
    · have absent : ¬ Present cmp key elements := by
        rintro ⟨position, inside, _⟩
        rw [empty] at inside
        exact UInt32.not_lt_zero inside
      refine iff_of_true ((searches_nothing_iff (Or.inr empty)).mpr absent) (Or.inl ?_)
      rw [empty]
      exact Nat.zero_le _
    · rw [searches_iff_ends partitioned searchable empty errno]
      rcases Nat.lt_or_ge (2 ^ 31) elements.count.toNat with large | small
      · rw [ends_iff_of_large partitioned large, or_iff_right (Nat.not_le.mpr large)]
      · exact iff_of_true (Search.ends_of_early 0 elements.count small) (Or.inl small)
  · have ordered := partitioned.ordered
    rw [if_neg searchable, searches_nothing_iff (Or.inl searchable), partitioned.present_iff]
    omega

end Searching

/-! ## Searching by address -/

def compareAddress (sought : UInt32) (_ current : UInt32) : Int :=
  (sought.toNat : Int) - current.toNat

section Addresses

variable (elements : Elements) (bytes : elements.size = 1)

include bytes in
theorem address_of_bytes {position : UInt32} (inside : position < elements.count) :
    (elements.addr position).toNat = elements.base.toNat + position.toNat := by
  have below := UInt32.lt_iff_toNat_lt.mp inside
  have one : (1 : UInt32).toNat = 1 := rfl
  have fits := elements.fits
  rw [bytes, one] at fits
  rw [Elements.address_toNat, bytes, one]
  omega

include bytes in
theorem partitioned_by_address (key place : UInt32) (inside : place < elements.count) :
    Partitioned (compareAddress (elements.addr place)) key elements place.toNat
      (place.toNat + 1) := by
  have there := address_of_bytes elements bytes inside
  have below := UInt32.lt_iff_toNat_lt.mp inside
  have distance : ∀ {position : UInt32}, position < elements.count ->
      compareAddress (elements.addr place) key (elements.addr position) =
        (place.toNat : Int) - position.toNat := by
    intro position within
    have here := address_of_bytes elements bytes within
    unfold compareAddress
    omega
  refine ⟨Nat.le_succ _, below, ?_, ?_, ?_⟩
  · intro position before
    rw [distance (UInt32.lt_iff_toNat_lt.mpr (by omega))]
    omega
  · intro position from_first to_last
    rw [distance (UInt32.lt_iff_toNat_lt.mpr (by omega))]
    omega
  · intro position behind within
    rw [distance within]
    omega

end Addresses

def threeBytes : Elements := ⟨100, 3, 1, by decide⟩

theorem bsearch_searches_three_bytes : Partitioned (compareAddress 101) 50 threeBytes 1 2 /\
      Searches (compareAddress 101) 50 threeBytes 0 :=
  have partitioned : Partitioned (compareAddress 101) 50 threeBytes 1 2 :=
    partitioned_by_address threeBytes rfl 50 1 (by decide)
  ⟨partitioned, (bsearch_searches_iff _ _ _ 1 2 0 partitioned).mpr (Or.inl (by decide))⟩

def manyBytes : Elements := ⟨1, 2147483649, 1, by decide⟩

/-- The search for the last of them never ends. -/
theorem bsearch_runs_forever :
    Partitioned (compareAddress 2147483649) 1 manyBytes 2147483648 2147483649 /\
      ∀ number result,
        rounds (compareAddress 2147483649) 1 manyBytes 0 number ≠ .returned result := by
  have partitioned : Partitioned (compareAddress 2147483649) 1 manyBytes 2147483648 2147483649 :=
    partitioned_by_address manyBytes rfl 1 2147483648 (by decide)
  refine ⟨partitioned, fun number result returned => ?_⟩
  have ends : (Search.running 0 manyBytes.count).Ends (compareAddress 2147483649) 1 manyBytes :=
    ⟨number, result, returned⟩
  rcases (ends_iff_of_large partitioned (by decide)).mp ends with ⟨reached, far⟩
  exact absurd far (Nat.not_le.mpr (midpoint_lt_half _ _))

end Clib4.Stdlib
