import Mathlib.Data.List.TakeWhile
import Clib4.Stdlib.Qsort

namespace Clib4.Stdlib

open List

/-!
# One round of `qsort` on lists

What one round of dividing makes of an array, said about the list of its
elements.  Because the results of the comparisons are kept in an unsigned
variable, a round does not separate smaller from larger elements: it collects
the elements equal to the pivot in front and goes on with all the others, in
the order computed here.
-/

/-- A comparison function that is a total preorder; it returns an `int`. -/
structure Comparator (β : Type) where
  cmp : β -> β -> Int
  int_range : ∀ x y, -2 ^ 31 <= cmp x y /\ cmp x y < 2 ^ 31
  flip : ∀ x y, cmp x y < 0 ↔ 0 < cmp y x
  trans : ∀ x y z, cmp x y <= 0 -> cmp y z <= 0 -> cmp x z <= 0

namespace Comparator

variable {β : Type} (order : Comparator β)

def Le (x y : β) : Prop := order.cmp x y <= 0

theorem le_of_not_le {x y : β} (greater : 0 < order.cmp x y) : order.Le y x :=
  le_of_lt ((order.flip y x).mpr greater)

theorem le_of_compare_nonneg {x y : β} (notLess : 0 <= order.cmp y x) : order.Le x y := by
  by_contra greater
  have less := (order.flip y x).mpr (not_le.mp greater)
  omega

theorem nonneg_of_le {x y : β} (le : order.Le x y) : 0 <= order.cmp y x := by
  by_contra less
  have greater := (order.flip y x).mp (not_le.mp less)
  exact absurd le (not_le.mpr greater)

theorem le_of_equal {x y pivot : β} (first : order.cmp x pivot = 0)
    (second : order.cmp y pivot = 0) : order.Le x y :=
  order.trans x pivot y (le_of_eq first) (order.le_of_compare_nonneg (le_of_eq second.symm))

theorem sizeT_compare (x y : β) : sizeT (order.cmp x y) = 0 ↔ order.cmp x y = 0 := by
  have range := order.int_range x y
  unfold sizeT
  omega

end Comparator

/-! ## The pivot by index -/

section

variable (cmp : Int -> Int -> Int)

theorem med3_place (place : Int -> Int) (a b c : Int) : med3 cmp (place a) (place b) (place c) =
      place (med3 (fun i j => cmp (place i) (place j)) a b c) := by
  unfold med3
  split_ifs <;> rfl

theorem med3_bounds {a b c n : Int} (first : 0 <= a /\ a < n) (second : 0 <= b /\ b < n)
    (third : 0 <= c /\ c < n) : 0 <= med3 cmp a b c /\ med3 cmp a b c < n := by
  unfold med3
  split_ifs <;> assumption

theorem choosePivot_place (a : Int) (n es : Nat) : choosePivot cmp a n es =
      a + choosePivot (fun i j => cmp (a + i * es) (a + j * es)) 0 n 1 *
        (es : Int) := by
  have median := med3_place cmp fun idx => a + idx * es
  unfold choosePivot
  dsimp only
  by_cases small : n > 7
  · rw [if_pos small, if_pos small]
    by_cases large : n > 40
    · rw [if_pos large, if_pos large, <- median, <- median, <- median, <- median]
      congr 2 <;> ring
    · rw [if_neg large, if_neg large, <- median]
      congr 1 <;> ring
  · rw [if_neg small, if_neg small]
    ring

theorem choosePivot_bounds {n : Nat} (nonempty : 0 < n) :
    0 <= choosePivot cmp 0 n 1 /\ choosePivot cmp 0 n 1 < (n : Int) := by
  unfold choosePivot
  dsimp only
  by_cases small : n > 7
  · rw [if_pos small]
    by_cases large : n > 40
    · rw [if_pos large]
      apply med3_bounds
      all_goals apply med3_bounds <;> omega
    · rw [if_neg large]
      apply med3_bounds <;> omega
  · omega

end

/-! ## Dividing a list -/

section Lists

variable {β : Type} (cmp : β -> β -> Int)

def equals (p : β) (x : β) : Bool := cmp x p == 0

/-- The last of the elements kept so far takes the place of an element equal
to the pivot. -/
def lastToFront (xs : List β) : List β :=
  match xs.getLast? with
  | none => []
  | some last => last :: xs.dropLast

def keep (p : β) (x : β) (kept : List β) : List β :=
  if equals cmp p x then lastToFront kept else x :: kept

theorem lastToFront_concat (xs : List β) (last : β) : lastToFront (xs ++ [last]) = last :: xs := by
  simp [lastToFront]

theorem lastToFront_perm (xs : List β) : (lastToFront xs).Perm xs := by
  rcases eq_nil_or_concat xs with rfl | ⟨front, last, rfl⟩
  · exact List.Perm.refl _
  · rw [concat_eq_append, lastToFront_concat]
    exact (perm_append_singleton last front).symm

theorem foldr_keep_perm (p : β) (xs start : List β) : (xs.foldr (keep cmp p) start).Perm
      (xs.filter (fun x => !equals cmp p x) ++ start) := by
  induction xs with
  | nil => exact List.Perm.refl _
  | cons x xs ih =>
    rw [foldr_cons, keep]
    by_cases equal : equals cmp p x
    · rw [if_pos equal, filter_cons_of_neg (by simp [equal])]
      exact (lastToFront_perm _).trans ih
    · rw [if_neg equal, filter_cons_of_pos (by simp [equal]), cons_append]
      exact ih.cons x

theorem filter_dropWhile_equals (p : β) (xs : List β) :
    (xs.dropWhile (equals cmp p)).filter (fun x => !equals cmp p x) =
      xs.filter (fun x => !equals cmp p x) := by
  induction xs with
  | nil => rfl
  | cons x xs ih =>
    by_cases equal : equals cmp p x
    · rw [dropWhile_cons_of_pos equal, filter_cons_of_neg (by simp [equal]), ih]
    · rw [dropWhile_cons_of_neg equal]

variable [Inhabited β]

def pivotIndex (xs : List β) : Nat :=
  (choosePivot (fun i j => cmp (xs.getD i.toNat default) (xs.getD j.toNat default))
    0 xs.length 1).toNat

def pivot (xs : List β) : β := xs.getD (pivotIndex cmp xs) default

/-- The other elements, once the pivot has changed places with the first. -/
def rest (xs : List β) : List β :=
  (xs.set (pivotIndex cmp xs) (xs.headD default)).tail

/-- What the scan from the top runs over: everything behind the elements equal
to the pivot at the beginning. -/
def passed (xs : List β) : List β :=
  (rest cmp xs).dropWhile (equals cmp (pivot cmp xs))

/-- The unequal elements as the scan from the top leaves them. -/
def kept (xs : List β) : List β :=
  (passed cmp xs).foldr (keep cmp (pivot cmp xs)) []

/-- The unequal elements after the equal ones have been moved before them. -/
def remainder (xs : List β) : List β :=
  let kept := kept cmp xs
  let behind := (passed cmp xs).length - kept.length
  if behind < kept.length then kept.drop behind ++ kept.take behind else kept

/-- In every round either the pivot is unlike all other elements or none of
them is smaller. -/
inductive Separates : List β -> Prop
  | short (xs : List β) : xs.length < 7 -> Separates xs
  | distinct (xs : List β) :
      (∀ x ∈ rest cmp xs, cmp x (pivot cmp xs) ≠ 0) -> Separates xs
  | lowest (xs : List β) :
      (∀ x ∈ rest cmp xs, 0 <= cmp x (pivot cmp xs)) ->
      Separates (remainder cmp xs) -> Separates xs

theorem remainder_perm_kept (xs : List β) : (remainder cmp xs).Perm (kept cmp xs) := by
  unfold remainder
  dsimp only
  split
  · exact perm_append_comm.trans (by rw [take_append_drop])
  · exact List.Perm.refl _

theorem remainder_perm (xs : List β) : (remainder cmp xs).Perm
      ((rest cmp xs).filter fun x => !equals cmp (pivot cmp xs) x) := by
  have scanned := foldr_keep_perm cmp (pivot cmp xs) (passed cmp xs) []
  rw [append_nil, passed, filter_dropWhile_equals] at scanned
  exact (remainder_perm_kept cmp xs).trans scanned

theorem mem_remainder {xs : List β} {x : β} :
    x ∈ remainder cmp xs ↔ x ∈ rest cmp xs /\ cmp x (pivot cmp xs) ≠ 0 := by
  rw [(remainder_perm cmp xs).mem_iff, mem_filter]
  simp [equals]

end Lists

end Clib4.Stdlib
