import Mathlib.Data.List.Basic
import Mathlib.Tactic.Ring

namespace Foundation

open List

/-!
# Blocks of byte memory

A block assigns a byte to every address, counted from the place its owner
points at.  Loads and stores are total: whether an access stays inside the
memory its owner was given is a property of the addresses, and is stated as
one where it matters.
-/

abbrev Block := Int -> UInt8

namespace Block

/-- The `count` bytes from `start` on. -/
def load (block : Block) (start : Int) (count : Nat) : List UInt8 :=
  (List.range count).map fun idx : Nat => block (start + (idx : Int))

/-- Copy `bytes` to the addresses from `start` on. -/
def store (block : Block) (start : Int) (bytes : List UInt8) : Block :=
  fun addr =>
    if start <= addr then
      (bytes[(addr - start).toNat]?).getD (block addr)
    else block addr

@[simp] theorem length_load (block : Block) (start : Int) (count : Nat) :
    (block.load start count).length = count := by
  simp [load]

@[simp] theorem load_zero (block : Block) (start : Int) : block.load start 0 = [] := rfl

section

variable (block : Block) (start : Int)

theorem getElem?_load (count idx : Nat) : (block.load start count)[idx]? =
      if idx < count then some (block (start + idx)) else none := by
  unfold load
  rw [List.getElem?_map]
  by_cases inside : idx < count
  · rw [if_pos inside, List.getElem?_range inside]
    rfl
  · rw [if_neg inside, List.getElem?_eq_none (by simpa using inside)]
    rfl

theorem load_add (first second : Nat) : block.load start (first + second) =
      block.load start first ++ block.load (start + first) second := by
  unfold load
  rw [range_add, map_append, map_map]
  congr 1
  apply map_congr_left
  intro idx _
  simp [add_assoc]

theorem load_succ (count : Nat) :
    block.load start (count + 1) = block start :: block.load (start + 1) count := by
  rw [Nat.add_comm, load_add]
  simp [load]

/-- A shorter load is a prefix of a longer one from the same place. -/
theorem take_load {shorter longer : Nat} (bound : shorter <= longer) :
    (block.load start longer).take shorter = block.load start shorter := by
  obtain ⟨rest, rfl⟩ := Nat.exists_eq_add_of_le bound
  rw [load_add, take_left' (length_load ..)]

theorem drop_load {skipped total : Nat} (bound : skipped <= total) :
    (block.load start total).drop skipped = block.load (start + skipped) (total - skipped) := by
  obtain ⟨rest, rfl⟩ := Nat.exists_eq_add_of_le bound
  rw [load_add, drop_left' (length_load ..), Nat.add_sub_cancel_left]

variable (bytes : List UInt8)

theorem store_apply (addr : Int) : block.store start bytes addr =
      if start <= addr then
        (bytes[(addr - start).toNat]?).getD (block addr)
      else block addr := rfl

theorem load_store_same : (block.store start bytes).load start bytes.length = bytes := by
  apply ext_getElem?
  intro idx
  rw [getElem?_load]
  by_cases inside : idx < bytes.length
  · rw [if_pos inside, store_apply, if_pos (by omega)]
    have position : (start + idx - start).toNat = idx := by omega
    rw [position, List.getElem?_eq_getElem inside]
    rfl
  · rw [if_neg inside, List.getElem?_eq_none (by omega)]

theorem store_apply_outside (addr : Int)
    (outside : addr < start \/ start + (bytes.length : Int) <= addr) :
    block.store start bytes addr = block addr := by
  rw [store_apply]
  rcases outside with before | after
  · rw [if_neg (by omega)]
  · split
    · rw [List.getElem?_eq_none (by omega)]
      rfl
    · rfl

theorem load_store_disjoint (from_ : Int) (count : Nat)
    (disjoint : from_ + count <= start \/ start + (bytes.length : Int) <= from_) :
    (block.store start bytes).load from_ count = block.load from_ count := by
  apply ext_getElem?
  intro idx
  rw [getElem?_load, getElem?_load]
  by_cases inside : idx < count
  · rw [if_pos inside, if_pos inside, store_apply_outside]
    omega
  · rw [if_neg inside, if_neg inside]

theorem load_store_append (count : Nat) (bytes : List UInt8) :
    (block.store (start + count) bytes).load start (count + bytes.length) =
      block.load start count ++ bytes := by
  rw [load_add, load_store_same, load_store_disjoint]
  exact Or.inl (le_refl _)

end

end Block

end Foundation
