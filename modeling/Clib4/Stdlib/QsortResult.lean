import Clib4.Stdlib.QsortSorting

namespace Clib4.Stdlib

open Foundation List

/-!
# When `qsort` sorts

A round leaves a permutation in which the elements equal to the pivot come
first.  The array ends up sorted exactly when, in every round on seven or more
elements, either no other element equals the pivot (then the routine falls
back on insertion sort) or no element is smaller than it.
-/

/-! ## Lists of the elements in memory -/

section Lists

variable {β : Type} [Inhabited β] (cmp : β -> β -> Int)

theorem getD_segment (f : Int -> β) (lo : Int) {n : Nat} {idx : Int} (lower : 0 <= idx)
    (upper : idx < (n : Int)) : (segment f lo n).getD idx.toNat default = f (lo + idx) := by
  rw [getD_eq_getElem?_getD, getElem?_segment f lo (by omega), Option.getD_some,
    Int.toNat_of_nonneg lower]

theorem med3_congr {first second : Int -> Int -> Int} {n : Int}
    (same : ∀ i j, 0 <= i -> i < n -> 0 <= j -> j < n -> first i j = second i j) {a b c : Int}
    (inA : 0 <= a /\ a < n) (inB : 0 <= b /\ b < n) (inC : 0 <= c /\ c < n) :
    med3 first a b c = med3 second a b c := by
  unfold med3
  rw [same a b inA.1 inA.2 inB.1 inB.2, same b c inB.1 inB.2 inC.1 inC.2,
    same a c inA.1 inA.2 inC.1 inC.2]

theorem choosePivot_congr {first second : Int -> Int -> Int} {n : Nat}
    (same : ∀ i j, 0 <= i -> i < (n : Int) -> 0 <= j -> j < (n : Int) ->
      first i j = second i j) : choosePivot first 0 n 1 = choosePivot second 0 n 1 := by
  unfold choosePivot
  dsimp only
  by_cases small : n > 7
  · rw [if_pos small, if_pos small]
    by_cases large : n > 40
    · rw [if_pos large, if_pos large]
      rw [med3_congr same (a := 0) (by omega) (by omega) (by omega),
        med3_congr same (b := 0 + ((n / 2 : Nat) : Int) * ((1 : Nat) : Int)) (by omega) (by omega)
          (by omega),
        med3_congr same (c := 0 + ((n - 1 : Nat) : Int) * ((1 : Nat) : Int)) (by omega) (by omega)
          (by omega)]
      apply med3_congr same
      all_goals apply med3_bounds <;> omega
    · rw [if_neg large, if_neg large]
      apply med3_congr same <;> omega
  · rw [if_neg small, if_neg small]

/-- The pivot and the other elements of a list, read off the sequence it is taken from. -/
theorem pivot_segment (f : Int -> β) (lo : Int) {n : Nat} (nonempty : 0 < n) :
    ∃ m : Nat, m < n /\
      choosePivot (fun i j => cmp (f (lo + i)) (f (lo + j))) 0 n 1 = (m : Int) /\
      pivot cmp (segment f lo n) = f (lo + m) /\
      rest cmp (segment f lo n) = segment (f ∘ rangeSwap lo (lo + m) 1) (lo + 1) (n - 1) := by
  have bounds := choosePivot_bounds (fun i j => cmp (f (lo + i)) (f (lo + j))) nonempty
  have chosen : pivotIndex cmp (segment f lo n) =
      (choosePivot (fun i j => cmp (f (lo + i)) (f (lo + j))) 0 n 1).toNat := by
    unfold pivotIndex
    rw [length_segment]
    congr 1
    apply choosePivot_congr
    intro i j lower upper lower' upper'
    rw [getD_segment f lo lower upper, getD_segment f lo lower' upper']
  generalize choosePivot (fun i j => cmp (f (lo + i)) (f (lo + j))) 0 n 1 = m at bounds chosen
  obtain ⟨m, rfl⟩ := Int.eq_ofNat_of_zero_le bounds.1
  rw [Int.toNat_natCast] at chosen
  refine ⟨m, by omega, rfl, ?_, ?_⟩
  · unfold pivot
    rw [chosen]
    exact getD_segment f lo bounds.1 bounds.2
  · have head : (segment f lo n).headD default = f lo := by
      obtain ⟨n, rfl⟩ := Nat.exists_eq_add_one.mpr nonempty
      rw [segment_cons]
      rfl
    unfold rest
    rw [chosen, head]
    apply ext_getElem?
    intro idx
    rw [List.getElem?_tail, List.getElem?_set]
    by_cases inside : idx < n - 1
    · rw [getElem?_segment _ _ inside, length_segment]
      show _ = some (f (rangeSwap lo (lo + m) 1 (lo + 1 + idx)))
      by_cases here : m = idx + 1
      · have target : lo + 1 + idx = lo + m := by omega
        rw [if_pos here, if_pos (by omega), target, rangeSwap_one_right]
      · rw [if_neg here, getElem?_segment f lo (by omega), rangeSwap_one_other (by omega) (by omega)]
        congr 2
        omega
    · rw [List.getElem?_eq_none (by rw [length_segment]; omega),
        List.getElem?_eq_none (by rw [length_segment]; omega), length_segment]
      by_cases here : m = idx + 1
      · omega
      · rw [if_neg here]

theorem length_remainder_eq_iff (xs : List β) :
    (remainder cmp xs).length = (rest cmp xs).length ↔
      ∀ x ∈ rest cmp xs, cmp x (pivot cmp xs) ≠ 0 := by
  rw [(remainder_perm cmp xs).length_eq]
  simp [equals]

/-- With another element equal to the pivot, separating means that no element
is smaller and that the remainder separates. -/
theorem separates_iff_remainder {xs : List β} (long : 7 <= xs.length)
    (found : ¬ ∀ x ∈ rest cmp xs, cmp x (pivot cmp xs) ≠ 0) :
    Separates cmp xs ↔
      (∀ x ∈ remainder cmp xs, 0 <= cmp x (pivot cmp xs)) /\
        Separates cmp (remainder cmp xs) := by
  constructor
  · intro separates
    cases separates with
    | short _ few => omega
    | distinct _ unequal => exact absurd unequal found
    | lowest _ lowest continues =>
      exact ⟨fun x mem => lowest x ((mem_remainder cmp).mp mem).1, continues⟩
  · rintro ⟨lowest, continues⟩
    apply Separates.lowest xs _ continues
    intro x mem
    by_cases equal : cmp x (pivot cmp xs) = 0
    · exact le_of_eq equal.symm
    · exact lowest x ((mem_remainder cmp).mpr ⟨mem, equal⟩)

end Lists

/-! ## One round -/

section Round

variable {base : Int} {es swaptype : Nat} (order : Comparator (Record es))

variable {n : Nat} {lo : Int} {f : Int -> Record es} {p : Record es}

/-- The dividing loops come to an end after one turn, whatever the elements
are: the scan from above meets the one from below. -/
theorem divide_spec (suits : Suits swaptype es) (pos : 0 < es) (nonempty : 0 < n)
    (block : Block) (atPivot : block.records base es lo = p) :
    ∃ run size block', run + size <= n - 1 /\
      divide order.cmp swaptype (place base es lo) n (n + 1)
        ⟨block, place base es (lo + 1), place base es (lo + 1),
          place base es (lo + n - 1), place base es (lo + n - 1), 0⟩ =
        some ⟨block', place base es (lo + 1 + run), place base es (lo + 1 + run),
          place base es (lo + run), place base es (lo + run + size),
          if size = n - 1 then 0 else 1⟩ /\
      Rearranges (lo + 1 + run) (n - 1 - run) (block.records base es)
        (block'.records base es) /\
      (segment (block.records base es) (lo + 1) (n - 1)).dropWhile (equals order.cmp p) =
        segment (block.records base es) (lo + 1 + run) (n - 1 - run) /\
      segment (block'.records base es) (lo + 1 + run) size =
        (segment (block.records base es) (lo + 1 + run) (n - 1 - run)).foldr
          (keep order.cmp p) [] /\
      (∀ k, lo + 1 <= k -> k < lo + 1 + run ->
        order.cmp (block.records base es k) p = 0) /\
      ∀ k, lo + 1 + run + size <= k -> k < lo + n ->
        order.cmp (block'.records base es k) p = 0 := by
  have last : lo + 1 + ((n - 1 : Nat) : Int) - 1 = lo + n - 1 := by omega
  rcases scanUp_spec order suits pos (place base es (lo + n - 1)) (n - 1) (n + 1)
    block (lo + 1) 0 (by omega) atPivot with ⟨run, raised, runBound, up, same, dropped, front⟩
  rw [last] at up
  have atPivotStill : raised.records base es lo = p := by
    rw [same]
    exact atPivot
  have above : lo < lo + 1 + run := by omega
  rcases scanDown_spec order suits pos above (place base es (lo + 1 + run))
    (n - 1 - run) (n + 1) raised 0 (if run = 0 then 0 else 1) (by omega) atPivotStill with
    ⟨size, block', sizeBound, down, rearranged, scanned, tops⟩
  have top : lo + 1 + run + ((n - 1 - run : Nat) : Int) - 1 = lo + n - 1 := by
    omega
  have bottom : lo + 1 + run - 1 = lo + run := by omega
  rw [top, Nat.cast_zero, add_zero, bottom] at down
  rw [same] at rearranged scanned
  refine ⟨run, size, block', by omega, ?_, rearranged, dropped, scanned, front, ?_⟩
  · rw [divide, up, Option.bind_some, down, Option.bind_some, if_pos]
    · congr 2
      -- nothing equal was met by either scan just when nothing was left out
      split_ifs <;> omega
    · exact (place_lt_iff pos _ _).mpr (by omega)
  · intro k lower upper
    exact tops k lower (by omega)

/-- Moving the equal elements from the top to the front: the exchange of the
shorter of the two ranges. -/
theorem gather_spec {u : Int} {size behind : Nat}
    (tops : ∀ k, u + size <= k -> k < u + size + behind -> order.cmp (f k) p = 0) :
    (∀ k, u <= k -> k < u + behind ->
      order.cmp (f (rangeSwap u (u + size + behind - (min size behind : Nat))
        (min size behind) k)) p = 0) /\
    segment (f ∘ rangeSwap u (u + size + behind - (min size behind : Nat))
        (min size behind)) (u + behind) size =
      if behind < size then
        (segment f u size).drop behind ++ (segment f u size).take behind
      else segment f u size := by
  by_cases fewer : behind < size
  · rw [if_pos fewer, Nat.min_eq_right (le_of_lt fewer)]
    have target : u + size + behind - behind = u + size := by omega
    obtain ⟨middle, rfl⟩ := Nat.exists_eq_add_of_le (le_of_lt fewer)
    constructor
    · intro k lower upper
      rw [rangeSwap_first lower upper]
      exact tops _ (by omega) (by omega)
    · rw [segment_add f, drop_left' (length_segment ..), take_left' (length_segment ..),
        Nat.add_comm behind middle, segment_add]
      congr 1
      · apply segment_congr
        intro k lower upper
        show f (rangeSwap u _ behind k) = f k
        rw [rangeSwap_outside (by omega) (by push_cast; omega)]
      · apply segment_shift
        intro idx inside
        show f (rangeSwap u _ behind _) = _
        rw [rangeSwap_second (by push_cast; omega) (by push_cast; omega) (by push_cast; omega)]
        congr 1
        push_cast
        omega
  · rw [if_neg fewer, Nat.min_eq_left (not_lt.mp fewer)]
    have target : u + size + behind - size = u + behind := by omega
    constructor
    · intro k lower upper
      by_cases front : k < u + size
      · rw [rangeSwap_first lower front]
        exact tops _ (by omega) (by omega)
      · rw [rangeSwap_outside (by omega) (by omega)]
        exact tops _ (by omega) (by omega)
    · apply segment_shift
      intro idx inside
      show f (rangeSwap u _ size _) = _
      rw [rangeSwap_second (by omega) (by omega) (by omega)]
      congr 1
      omega

/-- With the elements equal to the pivot in front, an array is in order when
what follows is in order and nothing in it is smaller than the pivot. -/
theorem sortedOn_behind_equals_iff {lo mid hi : Int} (nonempty : lo < mid)
    (front : ∀ k, lo <= k -> k < mid -> order.cmp (f k) p = 0) :
    SortedOn order.Le f lo hi ↔
      (∀ k, mid <= k -> k < hi -> 0 <= order.cmp (f k) p) /\
        SortedOn order.Le f mid hi := by
  constructor
  · intro sorted
    refine ⟨?_, fun i j lower => sorted i j (by omega)⟩
    intro k lower upper
    have first := order.le_of_compare_nonneg (le_of_eq (front lo (le_refl lo) nonempty).symm)
    exact order.nonneg_of_le
      (order.trans _ _ _ first (sorted lo k (le_refl lo) (by omega) upper))
  · rintro ⟨above, sorted⟩ i j lo_i i_j j_hi
    by_cases second : j < mid
    · exact order.le_of_equal (front i lo_i (by omega)) (front j (by omega) second)
    · by_cases first : i < mid
      · exact order.trans _ _ _ (le_of_eq (front i lo_i first))
          (order.le_of_compare_nonneg (above j (by omega) j_hi))
      · exact sorted i j (by omega) i_j j_hi

def roundStart (block : Block) (a : Int) (n : Nat) : Division :=
  ⟨swap es (swapinit a es) a (choosePivot (compareAt order.cmp block) a n es) block,
    a + (es : Int), a + (es : Int), a + ((n - 1 : Nat) : Int) * (es : Int),
    a + ((n - 1 : Nat) : Int) * (es : Int), 0⟩

variable {xs : List (Record es)}

section

variable (pos : 0 < es)
include pos

theorem roundStart_eq (nonempty : 0 < n) (block : Block)
    (list : segment (block.records base es) lo n = xs) :
    ∃ swapped, roundStart order block (place base es lo) n =
        ⟨swapped, place base es (lo + 1), place base es (lo + 1),
          place base es (lo + n - 1), place base es (lo + n - 1), 0⟩ /\
      Rearranges lo n (block.records base es) (swapped.records base es) /\
      swapped.records base es lo = pivot order.cmp xs /\
      segment (swapped.records base es) (lo + 1) (n - 1) = rest order.cmp xs := by
  rcases pivot_segment order.cmp (block.records base es) lo nonempty with
    ⟨m, bound, chosen, pivotEq, restEq⟩
  rw [list] at pivotEq restEq
  have pm : choosePivot (compareAt order.cmp block) (place base es lo) n es =
      place base es (lo + m) := by
    rw [choosePivot_place, <- place_add, <- chosen]
    congr 4
    funext i j
    unfold compareAt Block.records place
    congr 2 <;> ring
  have moved := @records_swap base es _ (swapinit_suits (place base es lo) es) pos lo
    (lo + m) block
  refine ⟨swap es (swapinit (place base es lo) es) (place base es lo)
    (place base es (lo + m)) block, ?_, ?_, ?_, ?_⟩
  · unfold roundStart
    have last : lo + ((n - 1 : Nat) : Int) = lo + n - 1 := by omega
    rw [pm, place_add_es, place_add, last]
  · rw [moved]
    exact Rearranges.exchange _ 1 (by omega) (by omega) (by omega)
  · rw [moved, pivotEq]
    show block.records base es (rangeSwap _ _ 1 _) = _
    rw [rangeSwap_one_left]
  · rw [moved, restEq]

/-- The dividing loops, in terms of the list of the elements. -/
theorem round_spec (nonempty : 0 < n) (block : Block)
    (list : segment (block.records base es) lo n = xs) {size : Nat}
    (length : (kept order.cmp xs).length = size) :
    ∃ run block', run + size <= n - 1 /\
      divide order.cmp (swapinit (place base es lo) es) (place base es lo) n (n + 1)
        (roundStart order block (place base es lo) n) =
        some ⟨block', place base es (lo + 1 + run), place base es (lo + 1 + run),
          place base es (lo + run), place base es (lo + run + size),
          if size = n - 1 then 0 else 1⟩ /\
      Rearranges lo n (block.records base es) (block'.records base es) /\
      (passed order.cmp xs).length = n - 1 - run /\
      segment (block'.records base es) (lo + 1 + run) size = kept order.cmp xs /\
      (∀ k, lo <= k -> k < lo + 1 + run ->
        order.cmp (block'.records base es k) (pivot order.cmp xs) = 0) /\
      ∀ k, lo + 1 + run + size <= k -> k < lo + n ->
        order.cmp (block'.records base es k) (pivot order.cmp xs) = 0 := by
  rcases roundStart_eq order pos nonempty block list with
    ⟨swapped, start, exchanged, atPivot, others⟩
  rcases divide_spec order (swapinit_suits (place base es lo) es) pos nonempty swapped atPivot
    with ⟨run, size', block', bound, divided, rearranged, dropped, scanned, front, tops⟩
  rw [others] at dropped
  have passedEq : passed order.cmp xs =
      segment (swapped.records base es) (lo + 1 + run) (n - 1 - run) := dropped
  have keptEq : segment (block'.records base es) (lo + 1 + run) size' = kept order.cmp xs := by
    rw [scanned, <- passedEq]
    rfl
  have sizeEq : size' = size := by
    rw [<- length, <- keptEq, length_segment]
  subst sizeEq
  refine ⟨run, block', bound, by rw [start]; exact divided,
    exchanged.trans (rearranged.widen (by omega) (by omega)), ?_, keptEq, ?_, tops⟩
  · rw [passedEq, length_segment]
  · intro k lower upper
    rw [rearranged.outside k (Or.inl upper)]
    by_cases first : k = lo
    · rw [first, atPivot]
      have irreflexive := order.flip (pivot order.cmp xs) (pivot order.cmp xs)
      omega
    · exact front k (by omega) upper

theorem qsortFrom_insertion (enough : 7 <= n) (fuel : Nat) (block : Block)
    (list : segment (block.records base es) lo n = xs)
    (all : (kept order.cmp xs).length = n - 1) :
    ∃ next, qsortFrom order.cmp (fuel + 1) (place base es lo) n block = some next /\
      Rearranges lo n (block.records base es) (next.records base es) /\
      SortedOn order.Le (next.records base es) lo (lo + n) := by
  rcases round_spec order pos (by omega) block list all with
    ⟨run, block', bound, divided, rearranged, _⟩
  rcases insertionSort_spec order (swapinit_suits (place base es lo) es) pos lo n block' with
    ⟨next, sorts, sorting, sorted⟩
  refine ⟨next, ?_, rearranged.trans sorting, sorted⟩
  unfold roundStart at divided
  rw [qsortFrom]
  dsimp only
  rw [if_neg (by omega), divided, Option.bind_some]
  rw [if_pos rfl, if_pos rfl, sorts]

/-- A round in which something equals the pivot moves all of that to the front
and goes on with the remainder. -/
theorem qsortFrom_remainder (enough : 7 <= n) (fuel : Nat) (block : Block)
    (list : segment (block.records base es) lo n = xs) {size : Nat}
    (length : (kept order.cmp xs).length = size) (fewer : size ≠ n - 1) :
    size < n - 1 /\ ∃ next, qsortFrom order.cmp (fuel + 1) (place base es lo) n block =
        (if 1 < size then
          qsortFrom order.cmp fuel (place base es (lo + n - size)) size next
        else some next) /\
      Rearranges lo n (block.records base es) (next.records base es) /\
      segment (next.records base es) (lo + n - size) size = remainder order.cmp xs /\
      ∀ k, lo <= k -> k < lo + n - size ->
        order.cmp (next.records base es k) (pivot order.cmp xs) = 0 := by
  rcases round_spec order pos (by omega) block list length with
    ⟨run, block', bound, divided, rearranged, passedLength, keptEq, front, tops⟩
  obtain ⟨behind, behindEq⟩ := Nat.exists_eq_add_of_le bound
  have total : lo + 1 + run + size + behind = lo + n := by omega
  have suits := swapinit_suits (place base es lo) es
  have gathered := @gather_spec es order _ _ _ size behind fun k lower upper =>
    tops k lower (by omega)
  rw [total, keptEq] at gathered
  have apart : lo + 1 + run + ((min size behind : Nat) : Int) <=
      lo + n - ((min size behind : Nat) : Int) := by omega
  have moved := @records_vecswap base es _ _ suits pos _ _ block' (Or.inl apart)
  generalize nextEq : vecswap _ _ _ _ block' = next at moved
  rw [<- moved] at gathered
  refine ⟨by omega, next, ?_, ?_, ?_, ?_⟩
  · unfold roundStart at divided
    rw [qsortFrom]
    dsimp only
    rw [if_neg (by omega), divided, Option.bind_some]
    have left : (min (place base es (lo + 1 + run) - place base es lo)
        (place base es (lo + 1 + run) - place base es (lo + 1 + run))).toNat = 0 := by
      rw [sub_self]
      exact Int.toNat_of_nonpos (min_le_right _ _)
    have right : place base es (lo + run + size) - place base es (lo + run) =
        ((size * es : Nat) : Int) := by
      rw [place_sub_place]
      push_cast
      ring
    have top : place base es lo + (n : Int) * es -
        place base es (lo + run + size) - es = ((behind * es : Nat) : Int) := by
      have count : (behind : Int) = (n : Int) - run - size - 1 := by omega
      unfold place
      push_cast
      rw [count]
      ring
    have shorter : (min ((size * es : Nat) : Int) ((behind * es : Nat) : Int)).toNat =
        min size behind * es := by
      rw [<- Nat.cast_min, Int.toNat_natCast, Nat.mul_min_mul_right]
    have end_ (count : Nat) : place base es lo + (n : Int) * es -
        ((count * es : Nat) : Int) = place base es (lo + n - count) := by
      unfold place
      push_cast
      ring
    have many : size * es > es ↔ 1 < size := by
      rw [gt_iff_lt, Nat.lt_mul_iff_one_lt_left pos]
    rw [if_neg fewer, if_neg one_ne_zero, left, top, right, shorter, end_, Int.toNat_natCast,
      end_, Nat.mul_div_cancel _ pos]
    rw [vecswap_zero, nextEq, sub_self, Int.toNat_zero, if_neg (Nat.not_lt_zero es),
      Option.bind_some, if_congr many rfl rfl]
  · have exchanged : Rearranges lo n (block'.records base es) (next.records base es) := by
      rw [moved]
      exact Rearranges.exchange _ _ (Or.inl apart) (by omega) (by omega)
    exact rearranged.trans exchanged
  · have start : lo + 1 + run + behind = lo + n - size := by omega
    have behindLength : (passed order.cmp xs).length - (kept order.cmp xs).length =
        behind := by omega
    rw [start] at gathered
    rw [gathered.2, <- length]
    unfold remainder
    dsimp only
    rw [behindLength]
  · intro k lower upper
    by_cases early : k < lo + 1 + run
    · rw [moved]
      show order.cmp (block'.records base es (rangeSwap _ _ _ k)) _ = 0
      rw [rangeSwap_outside (by omega) (by omega)]
      exact front k lower early
    · rw [moved]
      exact gathered.1 k (by omega) (by omega)

theorem frame_of_records {block result : Block}
    (outside : ∀ k : Int, k < 0 \/ 0 + n <= k -> result.records base es k = block.records base
      es k) :
    ∀ addr, addr < base \/ base + (n : Int) * es <= addr ->
      result addr = block addr := by
  intro addr beyond
  have esPos : (0 : Int) < (es : Int) := by exact_mod_cast pos
  have split := Int.emod_add_mul_ediv (addr - base) (es : Int)
  have lower := Int.emod_nonneg (addr - base) (ne_of_gt esPos)
  have upper := Int.emod_lt_of_pos (addr - base) esPos
  generalize (addr - base) % (es : Int) = offset at split lower upper
  generalize (addr - base) / (es : Int) = idx at split
  obtain ⟨t, rfl⟩ := Int.eq_ofNat_of_zero_le lower
  have location : addr = base + idx * es + t := by linarith
  rw [location]
  apply Block.apply_eq_of_records_eq (outside idx ?_) (by omega)
  rcases beyond with before | after
  · left
    by_contra notNegative
    have : 0 <= idx * es := mul_nonneg (by omega) (le_of_lt esPos)
    omega
  · right
    by_contra less
    have : (idx + 1) * es <= (n : Int) * es :=
      mul_le_mul_of_nonneg_right (by omega) (le_of_lt esPos)
    linarith

/-- A whole run: the elements are rearranged, and they are in order just when
every round separates. -/
theorem qsortFrom_spec (fuel : Nat) : ∀ (lo : Int) (n : Nat) (block : Block), n < fuel ->
      ∃ next, qsortFrom order.cmp fuel (place base es lo) n block = some next /\
        Rearranges lo n (block.records base es) (next.records base es) /\
        (SortedOn order.Le (next.records base es) lo (lo + n) ↔
          Separates order.cmp (segment (block.records base es) lo n)) := by
  induction fuel with
  | zero =>
    intro lo n block enough
    exact absurd enough (Nat.not_lt_zero n)
  | succ fuel ih =>
    intro lo n block enough
    generalize list : segment (block.records base es) lo n = xs
    have lengthEq : xs.length = n := by
      rw [<- list, length_segment]
    by_cases few : n < 7
    · rcases insertionSort_spec order (swapinit_suits (place base es lo) es) pos lo n block
        with ⟨next, sorts, rearranged, sorted⟩
      refine ⟨next, ?_, rearranged, iff_of_true sorted (Separates.short xs (by omega))⟩
      rw [qsortFrom]
      rw [if_pos few, sorts]
    · have restLength : (rest order.cmp xs).length = n - 1 := by
        unfold rest
        rw [length_tail, length_set, lengthEq]
      have sameLength := (remainder_perm_kept order.cmp xs).length_eq
      by_cases all : (kept order.cmp xs).length = n - 1
      · rcases qsortFrom_insertion order pos (by omega) fuel block list all with
          ⟨next, run, rearranged, sorted⟩
        have unequal := (length_remainder_eq_iff order.cmp xs).mp (by omega)
        exact ⟨next, run, rearranged, iff_of_true sorted (Separates.distinct xs unequal)⟩
      · rcases qsortFrom_remainder order pos (by omega) fuel block list rfl all with
          ⟨fewer, middle, run, rearranged, listed, front⟩
        have found : ¬ ∀ x ∈ rest order.cmp xs,
            order.cmp x (pivot order.cmp xs) ≠ 0 := by
          rw [<- length_remainder_eq_iff]
          omega
        generalize (kept order.cmp xs).length = size at *
        -- what the rest of the run does to the remainder
        have tail : ∃ next, (if 1 < size then qsortFrom order.cmp fuel
              (place base es (lo + n - size)) size middle
            else some middle) = some next /\
            Rearranges (lo + n - size) size (middle.records base es)
              (next.records base es) /\
            (SortedOn order.Le (next.records base es) (lo + n - size)
                (lo + n) ↔ Separates order.cmp (remainder order.cmp xs)) := by
          by_cases many : 1 < size
          · rw [if_pos many]
            rcases ih (lo + n - size) size middle (by omega) with
              ⟨next, tailRun, tailRearranged, tailSorted⟩
            rw [listed, sub_add_cancel] at tailSorted
            exact ⟨next, tailRun, tailRearranged, tailSorted⟩
          · rw [if_neg many]
            refine ⟨middle, rfl, Rearranges.refl _ _ _, iff_of_true ?_
              (Separates.short _ (by omega))⟩
            intro i j lower less upper
            omega
        rcases tail with ⟨next, tailRun, tailRearranged, tailSorted⟩
        refine ⟨next, run.trans tailRun,
          rearranged.trans (tailRearranged.widen (by omega) (by omega)), ?_⟩
        have frontStill : ∀ k, lo <= k -> k < lo + n - size ->
            order.cmp (next.records base es k) (pivot order.cmp xs) = 0 := by
          intro k lower upper
          rw [tailRearranged.outside k (Or.inl upper)]
          exact front k lower upper
        have members : (∀ k, lo + n - size <= k -> k < lo + n ->
            0 <= order.cmp (next.records base es k) (pivot order.cmp xs)) ↔
            ∀ x ∈ remainder order.cmp xs, 0 <= order.cmp x (pivot order.cmp xs) := by
          rw [<- listed]
          constructor
          · intro above x mem
            rcases mem_segment.mp (tailRearranged.perm.mem_iff.mpr mem) with
              ⟨k, lower, upper, rfl⟩
            exact above k lower (by omega)
          · intro above k lower upper
            exact above _ (tailRearranged.perm.mem_iff.mp
              (mem_segment.mpr ⟨k, lower, by omega, rfl⟩))
        rw [sortedOn_behind_equals_iff order (by omega) frontStill, tailSorted, members,
          separates_iff_remainder order.cmp (by omega) found]

end

/-- `qsort` always returns a permutation of the elements and touches nothing
else; the permutation is sorted if and only if in every round on seven or more
elements the pivot differs from all others or none of them is smaller. -/
theorem qsort_sorts_iff (pos : 0 < es) (a : Int) (n : Nat) (block : Block) :
    (∃ result, qsort order.cmp a n block = some result /\
      (elements es result a n).Perm (elements es block a n) /\
      ∀ addr, addr < a \/ a + (n : Int) * (es : Int) <= addr ->
        result addr = block addr) /\
    ((∃ result, qsort order.cmp a n block = some result /\
      (elements es result a n).Perm (elements es block a n) /\
      (elements es result a n).Pairwise order.Le) ↔
        Separates order.cmp (elements es block a n)) := by
  rcases @qsortFrom_spec a es order pos (n + 1) 0 n block (Nat.lt_succ_self n) with
    ⟨result, run, rearranged, sorted⟩
  have origin : place a es 0 = a := by
    unfold place
    ring
  rw [origin] at run
  rw [sortedOn_iff_pairwise] at sorted
  constructor
  · exact ⟨result, run, rearranged.perm, frame_of_records pos rearranged.outside⟩
  · constructor
    · rintro ⟨other, otherRun, _, pairwise⟩
      have same := Option.some.inj (run.symm.trans otherRun)
      subst same
      exact sorted.mp pairwise
    · intro separates
      exact ⟨result, run, rearranged.perm, sorted.mpr separates⟩

end Round

/-! ## Bytes -/

def byteOrder : Comparator (Record 1) where
  cmp x y := ((x.val.headD 0).toNat : Int) - ((y.val.headD 0).toNat : Int)
  int_range := by
    intro x y
    have := (x.val.headD 0).toNat_lt
    have := (y.val.headD 0).toNat_lt
    omega
  flip := by
    intro x y
    omega
  trans := by
    intro x y z first second
    omega

def bytesAt (bytes : List UInt8) : Block := fun addr => bytes.getD addr.toNat 0

theorem qsort_sorts_distinct_bytes : 0 < 1 /\ ∃ result,
      qsort byteOrder.cmp 0 7 (bytesAt [3, 1, 2, 7, 5, 6, 4]) = some result /\
      (elements 1 result 0 7).Perm (elements 1 (bytesAt [3, 1, 2, 7, 5, 6, 4]) 0 7) /\
      (elements 1 result 0 7).Pairwise byteOrder.Le := by
  refine ⟨Nat.one_pos, (qsort_sorts_iff byteOrder Nat.one_pos 0 7 _).2.mpr ?_⟩
  apply Separates.distinct
  decide +kernel

/-- Two elements equal to the pivot and three smaller ones: the pivot ends up first. -/
theorem qsort_leaves_equal_bytes_first : ¬ ∃ result,
      qsort byteOrder.cmp 0 7 (bytesAt [2, 5, 1, 5, 3, 6, 7]) = some result /\
      (elements 1 result 0 7).Perm (elements 1 (bytesAt [2, 5, 1, 5, 3, 6, 7]) 0 7) /\
      (elements 1 result 0 7).Pairwise byteOrder.Le := by
  rintro ⟨result, run, _, sorted⟩
  have computed : (qsort byteOrder.cmp 0 7 (bytesAt [2, 5, 1, 5, 3, 6, 7])).map
      (fun result => (elements 1 result 0 7).map Subtype.val) =
        some [[5], [5], [1], [2], [3], [6], [7]] := by
    decide +kernel
  rw [run] at computed
  have values := Option.some.inj computed
  have second : (result.records 0 1 1).val = [5] := congrArg (fun list => list.getD 1 []) values
  have third : (result.records 0 1 2).val = [1] := congrArg (fun list => list.getD 2 []) values
  have inOrder := (sortedOn_iff_pairwise byteOrder.Le (result.records 0 1) 0 7).mpr sorted
    1 2 (by omega) (by omega) (by omega)
  have less : byteOrder.cmp (result.records 0 1 1) (result.records 0 1 2) <= 0 := inOrder
  simp only [byteOrder, second, third] at less
  exact absurd less (by decide)

end Clib4.Stdlib
