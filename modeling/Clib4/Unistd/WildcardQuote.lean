import Mathlib.Data.List.GetD
import Mathlib.Data.Nat.Bitwise

namespace Clib4.Unistd

open List

/-!
# Quoted parameters

`__wildcard_quote_parameter()` marks a parameter in a table of bits, at which
`__wildcard_expand_init()` looks for every parameter but the first.  The table
grows by eight bytes a call at most, however far behind its end a parameter is,
and not at all for the parameters that are only looked at.  `realloc()` finds the
memory it needs here.
-/

def quoteMask (param : Nat) : Nat := 1 <<< (7 - param % 8)

def growQuoteVector (vector : List Nat) (param : Nat) : List Nat :=
  let numBytes := (param + 7) % 2 ^ 32 / 8
  if numBytes >= vector.length then vector ++ List.replicate 8 0 else vector

/-- `__wildcard_quote_parameter`; no table is `[]`.  There is no result when it
changes a byte behind the table. -/
def wildcardQuoteParameter (vector : List Nat) (param : Nat) : Option (List Nat) :=
  let vector := growQuoteVector vector param
  if param / 8 < vector.length then
    some (vector.modify (param / 8) (· ||| quoteMask param))
  else none

def wildcardQuoteParameters (params : List Nat) : Option (List Nat) :=
  params.foldlM wildcardQuoteParameter []

/-- How `__wildcard_expand_init` finds out whether a parameter was quoted; there is
no result when it looks behind the table. -/
def parameterIsQuoted (vector : List Nat) (i : Nat) : Option Bool :=
  if vector = [] then some false
  else vector[i / 8]?.map fun byte => byte &&& quoteMask i != 0

/-- The table shows what was quoted, and all accesses are inside it. -/
def QuotesKept (params : List Nat) (argc : Nat) : Prop :=
  ∃ vector, wildcardQuoteParameters params = some vector /\
    (∀ i, vector.getD (i / 8) 0 &&& quoteMask i ≠ 0 <-> i ∈ params) /\
    ∀ i, 0 < i -> i < argc -> parameterIsQuoted vector i = some (decide (i ∈ params))

def grownSize (size param : Nat) : Nat :=
  if (param + 7) % 2 ^ 32 / 8 >= size then size + 8 else size

/-- The size of the table in the end, if every parameter has its byte in time. -/
def quoteVectorSize : Nat -> List Nat -> Option Nat
  | size, [] => some size
  | size, param :: rest =>
    if param / 8 < grownSize size param then quoteVectorSize (grownSize size param) rest
    else none

/-- Each parameter has its byte when it is quoted, and all of them have in the end. -/
def QuotesFit (params : List Nat) (argc : Nat) : Prop :=
  ∃ size, quoteVectorSize 0 params = some size /\
    (params ≠ [] -> ∀ i, 0 < i -> i < argc -> i / 8 < size)

variable {vector : List Nat} {param i : Nat} {params : List Nat}

theorem quoteMask_and (byte : Nat) :
    byte &&& quoteMask i ≠ 0 <-> byte.testBit (7 - i % 8) := by
  rw [quoteMask, Nat.one_shiftLeft, Nat.and_two_pow]
  cases byte.testBit (7 - i % 8) <;> simp

theorem quoteMask_or (byte : Nat) (same : i / 8 = param / 8) :
    (byte ||| quoteMask param) &&& quoteMask i ≠ 0 <->
      i = param \/ byte &&& quoteMask i ≠ 0 := by
  rw [quoteMask_and, quoteMask_and, quoteMask, Nat.one_shiftLeft, Nat.testBit_or,
    Nat.testBit_two_pow, Bool.or_eq_true, decide_eq_true_iff, or_comm]
  exact or_congr_left ⟨fun bits => by omega, fun equal => by rw [equal]⟩

theorem getD_growQuoteVector : (growQuoteVector vector param).getD i 0 = vector.getD i 0 := by
  unfold growQuoteVector
  dsimp only
  split
  · rcases Nat.lt_or_ge i vector.length with inside | behind
    · exact getD_append _ _ _ _ inside
    · rw [getD_append_right _ _ _ _ behind, getD_eq_default _ _ behind]
      rw [getD_eq_getElem?_getD, List.getElem?_replicate]
      split <;> rfl
  · rfl

theorem length_growQuoteVector :
    (growQuoteVector vector param).length = grownSize vector.length param := by
  unfold growQuoteVector grownSize
  dsimp only
  split
  · rw [length_append, length_replicate]
  · rfl

theorem getD_modify_quoteMask (inside : param / 8 < vector.length) :
    (vector.modify (param / 8) (· ||| quoteMask param)).getD (i / 8) 0 &&& quoteMask i ≠ 0 <->
      i = param \/ vector.getD (i / 8) 0 &&& quoteMask i ≠ 0 := by
  rw [getD_eq_getElem?_getD, getD_eq_getElem?_getD, List.getElem?_modify]
  split
  · rename_i same
    rw [same] at inside
    rw [List.getElem?_eq_getElem inside]
    exact quoteMask_or _ same.symm
  · rename_i other
    rw [id_map']
    exact (or_iff_right fun equal => other (by rw [equal])).symm

theorem foldlM_wildcardQuoteParameter (vector : List Nat) (params : List Nat) :
    (params.foldlM wildcardQuoteParameter vector).map List.length =
        quoteVectorSize vector.length params /\
      ∀ final ∈ params.foldlM wildcardQuoteParameter vector, ∀ i,
        final.getD (i / 8) 0 &&& quoteMask i ≠ 0 <->
          i ∈ params \/ vector.getD (i / 8) 0 &&& quoteMask i ≠ 0 := by
  induction params generalizing vector with
  | nil => exact ⟨rfl, fun final same i => by cases same; simp⟩
  | cons param rest ih =>
    rw [foldlM_cons, quoteVectorSize, <- length_growQuoteVector, wildcardQuoteParameter]
    by_cases inside : param / 8 < (growQuoteVector vector param).length
    · obtain ⟨size, bits⟩ := ih
        ((growQuoteVector vector param).modify (param / 8) (· ||| quoteMask param))
      rw [length_modify] at size
      rw [if_pos inside, if_pos inside]
      refine ⟨size, fun final same i => (bits final same i).trans ?_⟩
      rw [getD_modify_quoteMask inside, getD_growQuoteVector, mem_cons, or_left_comm, or_assoc]
    · rw [if_neg inside, if_neg inside]
      exact ⟨rfl, nofun⟩

/-- The table shows what was quoted and is never left exactly if it is large enough
in time. -/
theorem quotes_kept_iff (params : List Nat) (argc : Nat) :
    QuotesKept params argc <-> QuotesFit params argc := by
  have bits := (foldlM_wildcardQuoteParameter [] params).2
  have size : (wildcardQuoteParameters params).map List.length = quoteVectorSize 0 params :=
    (foldlM_wildcardQuoteParameter [] params).1
  rw [QuotesKept, QuotesFit, <- size]
  cases quoted : wildcardQuoteParameters params with
  | none =>
    constructor
    all_goals
      rintro ⟨_, same, _⟩
      cases same
  | some vector =>
    have shown (i : Nat) : vector.getD (i / 8) 0 &&& quoteMask i ≠ 0 <-> i ∈ params := by
      simpa using bits vector quoted i
    have table : vector = [] <-> params = [] := by
      constructor
      · rintro rfl
        exact eq_nil_iff_forall_not_mem.mpr fun i mem => (shown i).mpr mem (by simp)
      · rintro rfl
        exact (Option.some.inj quoted).symm
    constructor
    · rintro ⟨_, same, _, tested⟩
      cases same
      refine ⟨_, rfl, fun some i pos below => ?_⟩
      have looked := tested i pos below
      rw [parameterIsQuoted, if_neg (mt table.mp some)] at looked
      obtain ⟨byte, here, _⟩ := Option.map_eq_some_iff.mp looked
      exact (List.getElem?_eq_some_iff.mp here).1
    · rintro ⟨_, same, room⟩
      cases same
      refine ⟨vector, rfl, shown, fun i pos below => ?_⟩
      unfold parameterIsQuoted
      split
      · rename_i none
        simp [table.mp none]
      · rename_i some
        have inside := room (mt table.mpr some) i pos below
        rw [List.getElem?_eq_getElem inside, Option.map_some, <- getD_eq_getElem _ 0 inside,
          Option.some.injEq, Bool.eq_iff_iff, decide_eq_true_iff, <- shown i, bne_iff_ne]

/-- The quoted parameter 64 is marked in the ninth byte of eight; the parameter 1
leaves no byte to look for the parameter 64 in. -/
theorem quotes_outside : wildcardQuoteParameters [64] = none /\
      (wildcardQuoteParameters [1]).bind (parameterIsQuoted · 64) = none := by
  decide

end Clib4.Unistd
