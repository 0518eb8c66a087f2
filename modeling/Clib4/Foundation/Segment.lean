import Mathlib.Data.List.Perm.Basic
import Mathlib.Data.List.Nodup
import Mathlib.Logic.Equiv.Basic
import Mathlib.Tactic.Ring

namespace Foundation

open List

/-!
# Rearranging a stretch of a sequence

A sequence indexed by the integers stands for the elements of an array and
whatever lies around it.  Sorting rearranges one stretch and leaves the rest
alone; both halves of that are kept together here, so that steps on smaller
stretches compose.
-/

variable {β : Type}

/-- The `n` elements from `lo` on. -/
def segment (f : Int -> β) (lo : Int) (n : Nat) : List β :=
  (List.range n).map fun idx : Nat => f (lo + (idx : Int))

theorem segment_add (f : Int -> β) (lo : Int) (first second : Nat) : segment f lo (first + second) =
      segment f lo first ++ segment f (lo + first) second := by
  unfold segment
  rw [range_add, map_append, map_map]
  congr 1
  apply map_congr_left
  intro idx _
  simp [add_assoc]

@[simp] theorem length_segment (f : Int -> β) (lo : Int) (n : Nat) :
    (segment f lo n).length = n := by
  simp [segment]

theorem segment_cons (f : Int -> β) (lo : Int) (n : Nat) :
    segment f lo (n + 1) = f lo :: segment f (lo + 1) n := by
  rw [Nat.add_comm, segment_add]
  simp [segment]

theorem segment_concat (f : Int -> β) (lo : Int) (n : Nat) :
    segment f lo (n + 1) = segment f lo n ++ [f (lo + n)] := by
  rw [segment_add]
  simp [segment]

theorem getElem?_segment (f : Int -> β) (lo : Int) {n idx : Nat} (inside : idx < n) :
    (segment f lo n)[idx]? = some (f (lo + idx)) := by
  unfold segment
  rw [List.getElem?_map, List.getElem?_range inside]
  rfl

theorem mem_segment {f : Int -> β} {lo : Int} {n : Nat} {x : β} :
    x ∈ segment f lo n ↔ ∃ k, lo <= k /\ k < lo + n /\ f k = x := by
  unfold segment
  rw [mem_map]
  constructor
  · rintro ⟨idx, mem, rfl⟩
    have := mem_range.mp mem
    exact ⟨lo + idx, by omega, by omega, rfl⟩
  · rintro ⟨k, lower, upper, rfl⟩
    refine ⟨(k - lo).toNat, mem_range.mpr (by omega), ?_⟩
    congr 1
    omega

theorem segment_shift {f g : Int -> β} {lo lo' : Int} {n : Nat}
    (same : ∀ idx : Nat, idx < n -> f (lo + idx) = g (lo' + idx)) :
    segment f lo n = segment g lo' n := by
  apply map_congr_left
  intro idx mem
  exact same idx (mem_range.mp mem)

theorem segment_congr {f g : Int -> β} {lo : Int} {n : Nat}
    (same : ∀ k, lo <= k -> k < lo + n -> f k = g k) :
    segment f lo n = segment g lo n :=
  segment_shift fun idx inside => same _ (by omega) (by omega)

theorem segment_comp_perm (f : Int -> β) {lo : Int} {n : Nat} (σ : Equiv.Perm Int)
    (inside : ∀ k, lo <= k -> k < lo + n -> lo <= σ k /\ σ k < lo + n)
    (back : ∀ k, lo <= k -> k < lo + n -> lo <= σ.symm k /\ σ.symm k < lo + n) :
    (segment (f ∘ σ) lo n).Perm (segment f lo n) := by
  let indices : List Int := (List.range n).map fun idx : Nat => lo + idx
  have nodup : indices.Nodup := by
    apply List.Nodup.map _ nodup_range
    intro first second equal
    have : lo + first = lo + second := equal
    omega
  have mem_indices : ∀ k, k ∈ indices ↔ lo <= k /\ k < lo + n := by
    intro k
    simp only [indices, mem_map, mem_range]
    constructor
    · rintro ⟨idx, bound, rfl⟩
      omega
    · intro bounds
      exact ⟨(k - lo).toNat, by omega, by omega⟩
  have moved : (indices.map σ).Perm indices := by
    rw [perm_ext_iff_of_nodup (nodup.map σ.injective) nodup]
    intro k
    rw [mem_map, mem_indices]
    constructor
    · rintro ⟨source, mem, rfl⟩
      rw [mem_indices] at mem
      exact inside source mem.1 mem.2
    · intro bounds
      refine ⟨σ.symm k, ?_, σ.apply_symm_apply k⟩
      rw [mem_indices]
      exact back k bounds.1 bounds.2
  have mapped := moved.map f
  simpa only [segment, indices, map_map, Function.comp_def] using mapped

/-- `g` is `f` with the `n` elements from `lo` on in some other order. -/
structure Rearranges (lo : Int) (n : Nat) (f g : Int -> β) : Prop where
  perm : (segment g lo n).Perm (segment f lo n)
  outside : ∀ k, k < lo \/ lo + (n : Int) <= k -> g k = f k

namespace Rearranges

variable {lo : Int} {n : Nat} {f g h : Int -> β}

theorem refl (lo : Int) (n : Nat) (f : Int -> β) : Rearranges lo n f f :=
  ⟨List.Perm.refl _, fun _ _ => rfl⟩

theorem trans (first : Rearranges lo n f g) (second : Rearranges lo n g h) : Rearranges lo n f h :=
  ⟨second.perm.trans first.perm,
    fun k outside => (second.outside k outside).trans (first.outside k outside)⟩

theorem widen {lo' : Int} {n' : Nat} (part : Rearranges lo' n' f g) (lower : lo <= lo')
    (upper : lo' + n' <= lo + n) : Rearranges lo n f g := by
  refine ⟨?_, fun k outside => part.outside k (by omega)⟩
  obtain ⟨before, beforeEq⟩ := Int.eq_ofNat_of_zero_le (show 0 <= lo' - lo by omega)
  obtain ⟨after, afterEq⟩ := Int.eq_ofNat_of_zero_le
    (show 0 <= lo + n - (lo' + n') by omega)
  have total : n = before + n' + after := by omega
  have start : lo + before = lo' := by omega
  rw [total, segment_add, segment_add, segment_add, segment_add]
  have head : segment g lo before = segment f lo before :=
    segment_congr fun k _ _ => part.outside k (by omega)
  have tail : segment g (lo + ((before + n' : Nat) : Int)) after =
      segment f (lo + ((before + n' : Nat) : Int)) after :=
    segment_congr fun k _ _ => part.outside k (by push_cast at *; omega)
  rw [head, tail, start]
  exact ((List.Perm.refl _).append part.perm).append (List.Perm.refl _)

theorem of_involution (f : Int -> β) {σ : Int -> Int} (involutive : Function.Involutive σ)
    (inside : ∀ k, lo <= k -> k < lo + n -> lo <= σ k /\ σ k < lo + n)
    (fixed : ∀ k, k < lo \/ lo + n <= k -> σ k = k) :
    Rearranges lo n f (f ∘ σ) :=
  ⟨segment_comp_perm f involutive.toPerm inside inside,
    fun k outside => congrArg f (fixed k outside)⟩

end Rearranges

/-! ## Order -/

/-- The elements from `lo` up to `hi`, which is excluded, are in order. -/
def SortedOn (le : β -> β -> Prop) (f : Int -> β) (lo hi : Int) : Prop :=
  ∀ i j, lo <= i -> i < j -> j < hi -> le (f i) (f j)

theorem sortedOn_iff_pairwise (le : β -> β -> Prop) (f : Int -> β) (lo : Int) (n : Nat) :
    SortedOn le f lo (lo + n) ↔ (segment f lo n).Pairwise le := by
  unfold segment
  rw [pairwise_map, pairwise_iff_getElem]
  constructor
  · intro sorted i j iBound jBound less
    simp only [getElem_range]
    rw [length_range] at jBound
    exact sorted _ _ (by omega) (by omega) (by omega)
  · intro pairwise i j lower less upper
    have entry := pairwise (i - lo).toNat (j - lo).toNat (by rw [length_range]; omega)
      (by rw [length_range]; omega) (by omega)
    simp only [getElem_range] at entry
    have first : lo + ((i - lo).toNat : Int) = i := by omega
    have second : lo + ((j - lo).toNat : Int) = j := by omega
    rwa [first, second] at entry

end Foundation
