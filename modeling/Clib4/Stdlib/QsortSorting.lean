import Clib4.Stdlib.QsortRound

namespace Clib4.Stdlib

open Foundation

/-!
# What `qsort` does to the elements

The loops of `qsort` seen through the sequence of records in memory: every
exchange of bytes is an exchange of indices, insertion sort sorts, and a round
of dividing leaves the elements equal to the pivot in front of the remainder
of the round.
-/

/-! ## Pointers to elements -/

def place (base : Int) (es : Nat) (idx : Int) : Int := base + idx * (es : Int)

section Place

variable {base : Int} {es : Nat}

theorem place_add_es (i : Int) : place base es i + es = place base es (i + 1) := by
  unfold place
  ring

theorem place_sub_es (i : Int) : place base es i - es = place base es (i - 1) := by
  unfold place
  ring

theorem place_add (i : Int) (count : Nat) :
    place base es i + (count : Int) * es = place base es (i + count) := by
  unfold place
  ring

theorem place_sub_place (i j : Int) : place base es i - place base es j = (i - j) * es := by
  unfold place
  ring

theorem place_lt_iff (pos : 0 < es) (i j : Int) :
    place base es i < place base es j ↔ i < j := by
  unfold place
  rw [add_lt_add_iff_left]
  exact mul_lt_mul_iff_left₀ (by exact_mod_cast pos)

theorem place_le_iff (pos : 0 < es) (i j : Int) :
    place base es i <= place base es j ↔ i <= j := by
  rw [<- not_lt, place_lt_iff pos, not_lt]

end Place

/-! ## Exchanges -/

def Suits (swaptype es : Nat) : Prop :=
  (swaptype = 0 -> es = sizeofLong) /\ (swaptype <= 1 -> es % sizeofLong = 0)

theorem swapinit_suits (a : Int) (es : Nat) : Suits (swapinit a es) es := by
  unfold Suits swapinit
  split_ifs with unaligned single
  · simp
  · have aligned := not_not.mp (not_or.mp unaligned).2
    exact ⟨fun _ => single, fun _ => aligned⟩
  · have aligned := not_not.mp (not_or.mp unaligned).2
    exact ⟨fun zero => zero.elim, fun _ => aligned⟩

section Exchanges

variable {base : Int} {es swaptype : Nat} {count : Nat}

theorem records_swapcode {width : Nat} {i j : Int} (block : Block) (divides : width ∣ count * es)
    (pos : 0 < count * es) (apart : i + count <= j \/ j + count <= i \/ i = j) :
    (swapcode width (place base es i) (place base es j) (count * es) block).records base es =
      block.records base es ∘ rangeSwap i j count := by
  rcases divides with ⟨units, product⟩
  have total : 0 < width * units := by
    rw [<- product]
    exact pos
  have widthPos := Nat.pos_of_ne_zero (left_ne_zero_of_mul total.ne')
  have unitsPos := Nat.pos_of_ne_zero (right_ne_zero_of_mul total.ne')
  have quotient : count * es / width = units := by
    rw [product, Nat.mul_div_cancel_left _ widthPos]
  unfold swapcode
  rw [quotient, max_eq_right unitsPos]
  exact Block.records_exchangeUnits block base es (by rw [product, Nat.mul_comm]) apart

theorem records_swapfunc {i j : Int} (suits : Suits swaptype es) (block : Block)
    (pos : 0 < count * es) (apart : i + count <= j \/ j + count <= i \/ i = j) :
    (swapfunc (place base es i) (place base es j) (count * es) swaptype block).records base es =
      block.records base es ∘ rangeSwap i j count := by
  unfold swapfunc
  by_cases words : swaptype <= 1
  · rw [if_pos words]
    have divides := Dvd.dvd.mul_left (Nat.dvd_of_mod_eq_zero (suits.2 words)) count
    exact records_swapcode block divides pos apart
  · rw [if_neg words]
    exact records_swapcode block (one_dvd _) pos apart

theorem records_swap (suits : Suits swaptype es) (pos : 0 < es) (i j : Int) (block : Block) :
    (swap es swaptype (place base es i) (place base es j) block).records base es =
      block.records base es ∘ rangeSwap i j 1 := by
  have apart : i + ((1 : Nat) : Int) <= j \/ j + ((1 : Nat) : Int) <= i \/ i = j := by omega
  unfold swap
  by_cases single : swaptype = 0
  · rw [if_pos single]
    exact Block.records_exchangeUnits block base es (by rw [suits.1 single]) apart
  · rw [if_neg single]
    have whole : (swapfunc (place base es i) (place base es j) (1 * es) swaptype block).records
        base es = _ := records_swapfunc suits block (by omega) apart
    rwa [Nat.one_mul] at whole

theorem vecswap_zero (a b : Int) (block : Block) : vecswap swaptype a b 0 block = block :=
  if_neg (lt_irrefl 0)

theorem records_vecswap (suits : Suits swaptype es) (pos : 0 < es) {i j : Int}
    (block : Block) (apart : i + count <= j \/ j + count <= i \/ i = j) :
    (vecswap swaptype (place base es i) (place base es j) (count * es) block).records base es =
      block.records base es ∘ rangeSwap i j count := by
  unfold vecswap
  by_cases some : 0 < count * es
  · rw [if_pos some]
    exact records_swapfunc suits block some apart
  · have none : count = 0 := by
      by_contra nonzero
      exact some (Nat.mul_pos (Nat.pos_of_ne_zero nonzero) pos)
    subst none
    rw [if_neg some]
    funext k
    show _ = block.records base es (rangeSwap i j 0 k)
    rw [rangeSwap_outside (by omega) (by omega)]

end Exchanges

/-! ## Insertion sort -/

/-- The elements are in order but for pairs whose later element is the one at `k`. -/
def SortedExcept {β : Type} (le : β -> β -> Prop) (f : Int -> β) (lo hi k : Int) : Prop :=
  ∀ i j, lo <= i -> i < j -> j < hi -> j ≠ k -> le (f i) (f j)

section Insertion

variable {base : Int} {es swaptype : Nat} (order : Comparator (Record es)) {f : Int -> Record es}

theorem SortedExcept.sinks {lo hi k : Int} (sorted : SortedExcept order.Le f lo hi k)
    (lower : lo < k) (upper : k < hi) (greater : 0 < order.cmp (f (k - 1)) (f k)) :
    SortedExcept order.Le (f ∘ rangeSwap k (k - 1) 1) lo hi (k - 1) := by
  intro i j lo_i i_j j_hi differ
  show order.Le (f (rangeSwap k (k - 1) 1 i)) (f (rangeSwap k (k - 1) 1 j))
  by_cases last : j = k
  · subst last
    rw [rangeSwap_one_left]
    by_cases next : i = j - 1
    · rw [next, rangeSwap_one_right]
      exact order.le_of_not_le greater
    · rw [rangeSwap_one_other (by omega) (by omega)]
      exact sorted i (j - 1) lo_i (by omega) (by omega) (by omega)
  · rw [rangeSwap_one_other last differ]
    by_cases sunk : i = k - 1
    · rw [sunk, rangeSwap_one_right]
      exact sorted k j (by omega) (by omega) j_hi last
    · by_cases raised : i = k
      · rw [raised, rangeSwap_one_left]
        exact sorted (k - 1) j (by omega) (by omega) j_hi last
      · rw [rangeSwap_one_other raised sunk]
        exact sorted i j lo_i i_j j_hi last

theorem SortedExcept.settles {lo hi k : Int} (sorted : SortedExcept order.Le f lo hi k)
    (upper : k < hi) (stays : k <= lo \/ order.cmp (f (k - 1)) (f k) <= 0) :
    SortedOn order.Le f lo hi := by
  intro i j lo_i i_j j_hi
  by_cases here : j = k
  · subst here
    have before : order.Le (f (j - 1)) (f j) := by
      rcases stays with first | inOrder
      · omega
      · exact inOrder
    by_cases next : i = j - 1
    · rw [next]
      exact before
    · exact order.trans _ _ _ (sorted i (j - 1) lo_i (by omega) (by omega) (by omega)) before
  · exact sorted i j lo_i i_j j_hi here

section

variable (suits : Suits swaptype es) (pos : 0 < es)
include suits pos

/-- The inner loop takes the element at `lo + depth` down to its place. -/
theorem sink_spec {lo hi : Int} (depth : Nat) :
    ∀ (fuel : Nat) (block : Block), depth < fuel -> lo + depth < hi ->
      SortedExcept order.Le (block.records base es) lo hi (lo + depth) ->
      ∃ next, sink order.cmp swaptype (place base es lo) fuel
          (place base es (lo + depth)) block = some next /\
        Rearranges lo (depth + 1) (block.records base es) (next.records base es) /\
        SortedOn order.Le (next.records base es) lo hi := by
  induction depth with
  | zero =>
    intro fuel block enough inside sorted
    obtain ⟨fuel, rfl⟩ := Nat.exists_eq_add_one.mpr enough
    refine ⟨block, ?_, Rearranges.refl _ _ _, sorted.settles order inside (Or.inl (by simp))⟩
    rw [sink, if_neg]
    intro both
    have := (place_lt_iff pos _ _).mp both.1
    omega
  | succ depth ih =>
    intro fuel block enough inside sorted
    obtain ⟨fuel, rfl⟩ := Nat.exists_eq_add_one.mpr (Nat.zero_lt_of_lt enough)
    push_cast at sorted inside ⊢
    have previous : lo + ((depth : Int) + 1) - 1 = lo + depth := by omega
    rw [sink, place_sub_es, previous]
    by_cases greater : 0 < order.cmp (block.records base es (lo + depth))
        (block.records base es (lo + ((depth : Int) + 1)))
    · have above : place base es lo < place base es (lo + ((depth : Int) + 1)) :=
        (place_lt_iff pos _ _).mpr (by omega)
      rw [if_pos ⟨above, greater⟩]
      have moved := @records_swap base es swaptype suits pos (lo + ((depth : Int) + 1))
        (lo + depth) block
      have lowered := sorted.sinks order (by omega) inside (by rwa [previous])
      rw [previous, <- moved] at lowered
      rcases ih fuel _ (by omega) (by omega) lowered with ⟨next, run, rearranged, done⟩
      refine ⟨next, run, ?_, done⟩
      rw [moved] at rearranged
      have swapped : Rearranges lo (depth + 1 + 1) _ (block.records base es ∘
          rangeSwap (lo + ((depth : Int) + 1)) (lo + depth) 1) :=
        Rearranges.exchange _ 1 (by omega) (by push_cast; omega) (by push_cast; omega)
      exact swapped.trans (rearranged.widen (le_refl lo) (by push_cast; omega))
    · rw [if_neg (fun both => greater both.2)]
      refine ⟨block, rfl, Rearranges.refl _ _ _, sorted.settles order inside (Or.inr ?_)⟩
      rw [previous]
      exact not_lt.mp greater

/-- The outer loop, once the first `done` elements are in order. -/
theorem insertFrom_spec {lo : Int} {n : Nat} (left : Nat) :
    ∀ (done fuel : Nat) (block : Block), left < fuel -> done + left = n ->
      SortedOn order.Le (block.records base es) lo (lo + done) ->
      ∃ next, insertFrom order.cmp swaptype (place base es lo) n fuel
          (place base es (lo + done)) block = some next /\
        Rearranges lo n (block.records base es) (next.records base es) /\
        SortedOn order.Le (next.records base es) lo (lo + n) := by
  induction left with
  | zero =>
    intro done fuel block enough total sorted
    obtain ⟨fuel, rfl⟩ := Nat.exists_eq_add_one.mpr enough
    have complete : done = n := total
    subst complete
    refine ⟨block, ?_, Rearranges.refl _ _ _, sorted⟩
    rw [insertFrom, place_add, if_neg (lt_irrefl _)]
  | succ left ih =>
    intro done fuel block enough total sorted
    obtain ⟨fuel, rfl⟩ := Nat.exists_eq_add_one.mpr (Nat.zero_lt_of_lt enough)
    have inside : place base es (lo + done) < place base es (lo + n) :=
      (place_lt_iff pos _ _).mpr (by omega)
    have open_ : SortedExcept order.Le (block.records base es) lo (lo + ((done + 1 : Nat) : Int))
        (lo + done) := by
      intro i j lo_i i_j j_hi differ
      exact sorted i j lo_i i_j (by omega)
    rcases sink_spec order suits pos done (n + 1) block (by omega) (by omega) open_ with
      ⟨sunk, sinks, rearranged, sortedNow⟩
    rcases ih (done + 1) fuel sunk (by omega) (by omega) sortedNow with
      ⟨next, run, rest, sortedAll⟩
    refine ⟨next, ?_, (rearranged.widen (le_refl lo) (by omega)).trans rest, sortedAll⟩
    rw [insertFrom, place_add, if_pos inside, sinks, Option.bind_some, place_add_es]
    push_cast at run
    rw [add_assoc]
    exact run

theorem insertionSort_spec (lo : Int) (n : Nat) (block : Block) :
    ∃ next, insertionSort order.cmp swaptype (place base es lo) n block = some next /\
      Rearranges lo n (block.records base es) (next.records base es) /\
      SortedOn order.Le (next.records base es) lo (lo + n) := by
  unfold insertionSort
  rw [place_add_es]
  cases n with
  | zero =>
    refine ⟨block, ?_, Rearranges.refl _ _ _, fun i j lo_i i_j j_hi => by omega⟩
    rw [insertFrom, place_add, if_neg]
    rw [place_lt_iff pos]
    omega
  | succ n =>
    have single : SortedOn order.Le (block.records base es) lo (lo + ((1 : Nat) : Int)) :=
      fun i j lo_i i_j j_hi => by omega
    exact insertFrom_spec order suits pos n 1 (n + 1 + 1) block (by omega) (by omega) single

end

end Insertion

/-! ## Dividing -/

section Division

variable {base : Int} {es swaptype : Nat} (order : Comparator (Record es)) {p : Record es}

/-- The scan from below passes the elements equal to the pivot at the beginning;
`pa` and `pb` move together, so nothing changes places. -/
theorem scanUp_spec (suits : Suits swaptype es) (pos : 0 < es) {lo : Int} (pd : Int)
    (count : Nat) :
    ∀ (fuel : Nat) (block : Block) (u : Int) (swapCnt : Nat), count < fuel ->
      block.records base es lo = p ->
      ∃ run block', run <= count /\ scanUp order.cmp swaptype (place base es lo) fuel
          ⟨block, place base es u, place base es u, place base es (u + count - 1), pd, swapCnt⟩ =
          some ⟨block', place base es (u + run), place base es (u + run),
            place base es (u + count - 1), pd, if run = 0 then swapCnt else 1⟩ /\
        block'.records base es = block.records base es /\
        (segment (block.records base es) u count).dropWhile (equals order.cmp p) =
          segment (block.records base es) (u + run) (count - run) /\
        ∀ k, u <= k -> k < u + run -> order.cmp (block.records base es k) p = 0 := by
  induction count with
  | zero =>
    intro fuel block u swapCnt enough atPivot
    obtain ⟨fuel, rfl⟩ := Nat.exists_eq_add_one.mpr enough
    refine ⟨0, block, le_refl 0, ?_, rfl, ?_, by omega⟩
    · rw [scanUp]
      rw [if_neg]
      · simp
      · intro both
        have := (place_le_iff pos _ _).mp both.1
        omega
    · simp [Foundation.segment]
  | succ count ih =>
    intro fuel block u swapCnt enough atPivot
    obtain ⟨fuel, rfl⟩ := Nat.exists_eq_add_one.mpr (Nat.zero_lt_of_lt enough)
    have compared : compareAt order.cmp block (place base es u) (place base es lo) =
        order.cmp (block.records base es u) p := by
      rw [<- atPivot]
      rfl
    have inside : place base es u <= place base es (u + ((count + 1 : Nat) : Int) - 1) :=
      (place_le_iff pos _ _).mpr (by omega)
    rw [scanUp]
    dsimp only
    rw [compared]
    by_cases equal : order.cmp (block.records base es u) p = 0
    · have zero := (order.sizeT_compare _ _).mpr equal
      rw [zero, if_pos ⟨inside, le_refl 0⟩, if_pos rfl]
      have same : (swap es swaptype (place base es u) (place base es u) block).records base es =
          block.records base es := by
        rw [records_swap suits pos]
        funext k
        simp
      rcases ih fuel _ (u + 1) 1 (by omega) (by rw [same]; exact atPivot) with
        ⟨run, block', bound, runs, records, dropped, front⟩
      refine ⟨run + 1, block', by omega, ?_, records.trans same, ?_, ?_⟩
      · rw [place_add_es]
        have last : u + 1 + count - 1 = u + ((count + 1 : Nat) : Int) - 1 := by omega
        have reached : u + 1 + run = u + ((run + 1 : Nat) : Int) := by omega
        rw [last, reached, ite_self] at runs
        rw [runs, if_neg (Nat.succ_ne_zero run)]
      · rw [segment_cons, List.dropWhile_cons_of_pos (by simp [equals, equal])]
        rw [same] at dropped
        rw [dropped]
        congr 1
        all_goals omega
      · intro k lower upper
        by_cases here : k = u
        · rw [here]
          exact equal
        · rw [<- same]
          exact front k (by omega) (by omega)
    · have nonzero : ¬ sizeT (order.cmp (block.records base es u) p) <= 0 := by
        intro small
        exact equal ((order.sizeT_compare _ _).mp (by omega))
      refine ⟨0, block, Nat.zero_le _, ?_, rfl, ?_, by omega⟩
      · rw [if_neg (fun both => nonzero both.2)]
        simp
      · rw [segment_cons, List.dropWhile_cons_of_neg (by simpa [equals] using equal),
          <- segment_cons]
        simp

theorem segment_exchange_last {β : Type} (f : Int -> β) (u : Int) (n : Nat) :
    segment (f ∘ rangeSwap u (u + n) 1) u n = lastToFront (segment f (u + 1) n) := by
  cases n with
  | zero => simp [Foundation.segment, lastToFront]
  | succ n =>
    rw [segment_concat f, lastToFront_concat, segment_cons]
    congr 1
    · show f (rangeSwap u _ 1 u) = _
      rw [rangeSwap_one_left]
      congr 1
      omega
    · apply segment_congr
      intro k lower upper
      show f (rangeSwap u _ 1 k) = f k
      rw [rangeSwap_one_other (by omega) (by omega)]

/-- The scan from above runs over everything that is left, whether smaller or
larger than the pivot, and collects the equal elements at the top. -/
theorem scanDown_spec (suits : Suits swaptype es) (pos : 0 < es) {lo u : Int}
    (above : lo < u) (pa : Int) (count : Nat) :
    ∀ (fuel : Nat) (block : Block) (size swapCnt : Nat), count < fuel ->
      block.records base es lo = p ->
      ∃ size' block', size' <= count + size /\
        scanDown order.cmp swaptype (place base es lo) fuel
          ⟨block, pa, place base es u, place base es (u + count - 1),
            place base es (u + count - 1 + size), swapCnt⟩ =
          some ⟨block', pa, place base es u, place base es (u - 1), place base es (u - 1 + size'),
            if size' = count + size then swapCnt else 1⟩ /\
        Rearranges u (count + size) (block.records base es) (block'.records base es) /\
        segment (block'.records base es) u size' =
          (segment (block.records base es) u count).foldr (keep order.cmp p)
            (segment (block.records base es) (u + count) size) /\
        ∀ k, u + size' <= k -> k < u + ((count + size : Nat) : Int) ->
          order.cmp (block'.records base es k) p = 0 := by
  induction count with
  | zero =>
    intro fuel block size swapCnt enough atPivot
    obtain ⟨fuel, rfl⟩ := Nat.exists_eq_add_one.mpr enough
    refine ⟨size, block, by omega, ?_, Rearranges.refl _ _ _, by simp [Foundation.segment], by omega⟩
    rw [scanDown]
    dsimp only
    rw [if_neg]
    · simp
    · intro both
      have := (place_le_iff pos _ _).mp both.1
      omega
  | succ count ih =>
    intro fuel block size swapCnt enough atPivot
    obtain ⟨fuel, rfl⟩ := Nat.exists_eq_add_one.mpr (Nat.zero_lt_of_lt enough)
    have here : u + ((count + 1 : Nat) : Int) - 1 = u + count := by omega
    rw [here]
    have compared : compareAt order.cmp block (place base es (u + count))
        (place base es lo) = order.cmp (block.records base es (u + count)) p := by
      rw [<- atPivot]
      rfl
    have inside : place base es u <= place base es (u + count) :=
      (place_le_iff pos _ _).mpr (by omega)
    rw [scanDown]
    dsimp only
    rw [compared, if_pos ⟨inside, Nat.zero_le _⟩]
    rw [segment_concat (block.records base es) u count, List.foldr_append, List.foldr_cons,
      List.foldr_nil]
    by_cases equal : order.cmp (block.records base es (u + count)) p = 0
    · -- the equal element goes to the top and the last one kept takes its place
      rw [if_pos ((order.sizeT_compare _ _).mpr equal)]
      rw [place_sub_es, place_sub_es]
      have moved := @records_swap base es swaptype suits pos (u + count)
        (u + count + size) block
      generalize swap es swaptype _ _ block = swapped at moved
      have pivotStays : swapped.records base es lo = p := by
        rw [moved, <- atPivot]
        show block.records base es (rangeSwap _ _ 1 lo) = _
        rw [rangeSwap_one_other (by omega) (by omega)]
      rcases ih fuel swapped size 1 (by omega) pivotStays with
        ⟨size', block', bound, run, rearranged, scanned, tops⟩
      have exchanged : Rearranges u (count + 1 + size) (block.records base es)
          (swapped.records base es) := by
        rw [moved]
        exact Rearranges.exchange _ 1 (by omega) (by push_cast; omega) (by push_cast; omega)
      refine ⟨size', block', by omega, ?_,
        exchanged.trans (rearranged.widen (le_refl u) (by push_cast; omega)), ?_, ?_⟩
      · have top : u + count + size - 1 = u + count - 1 + size := by omega
        rw [top, run, ite_self, if_neg (by omega)]
      · have below : segment (swapped.records base es) u count =
            segment (block.records base es) u count := by
          apply segment_congr
          intro k lower upper
          rw [moved]
          show block.records base es (rangeSwap _ _ 1 k) = _
          rw [rangeSwap_one_other (by omega) (by omega)]
        rw [scanned, below, keep, if_pos (by simp [equals, equal]), moved, segment_exchange_last]
        congr 3
        omega
      · intro k lower upper
        by_cases top : k < u + ((count + size : Nat) : Int)
        · exact tops k lower top
        · have last : k = u + count + size := by omega
          rw [rearranged.outside k (by omega), moved, last]
          show order.cmp (block.records base es (rangeSwap _ _ 1 _)) p = 0
          rw [rangeSwap_one_right]
          exact equal
    · -- the element is kept
      have nonzero : ¬ sizeT (order.cmp (block.records base es (u + count)) p) = 0 :=
        fun zero => equal ((order.sizeT_compare _ _).mp zero)
      rw [if_neg nonzero]
      rw [place_sub_es]
      rcases ih fuel block (size + 1) swapCnt (by omega) atPivot with
        ⟨size', block', bound, run, rearranged, scanned, tops⟩
      have total : count + (size + 1) = count + 1 + size := by omega
      rw [total] at bound run rearranged tops
      refine ⟨size', block', bound, ?_, rearranged, ?_, tops⟩
      · have top : u + count - 1 + ((size + 1 : Nat) : Int) = u + count + size := by omega
        rw [top] at run
        exact run
      · rw [scanned, segment_cons, keep, if_neg (by simpa [equals] using equal)]
        congr 3
        omega

end Division

end Clib4.Stdlib
