import Mathlib.Tactic.Linarith
import Clib4.Foundation.Block
import Clib4.Foundation.Segment

namespace Foundation

/-!
# Exchanging records in memory

Two ranges of memory exchange their contents word by word.  Seen as a sequence
of records of one size, the memory afterwards is the memory before with the
indices of the two ranges exchanged, whatever the word size was.
-/

/-- The indices of two ranges of `count` records change places. -/
def rangeSwap (i j : Int) (count : Nat) (k : Int) : Int :=
  if i <= k /\ k < i + (count : Int) then k + (j - i)
  else if j <= k /\ k < j + (count : Int) then k - (j - i)
  else k

section RangeSwap

variable {i j k : Int} {count : Nat}

theorem rangeSwap_first (lower : i <= k) (upper : k < i + count) :
    rangeSwap i j count k = k + (j - i) :=
  if_pos ⟨lower, upper⟩

theorem rangeSwap_second (apart : i + count <= j \/ j + count <= i \/ i = j)
    (lower : j <= k) (upper : k < j + count) :
    rangeSwap i j count k = k - (j - i) := by
  unfold rangeSwap
  by_cases first : i <= k /\ k < i + count
  · omega
  · rw [if_neg first, if_pos ⟨lower, upper⟩]

theorem rangeSwap_outside (before : k < i \/ i + count <= k)
    (after : k < j \/ j + count <= k) : rangeSwap i j count k = k := by
  unfold rangeSwap
  rw [if_neg (by omega), if_neg (by omega)]

theorem rangeSwap_involutive
    (apart : i + count <= j \/ j + count <= i \/ i = j) :
    Function.Involutive (rangeSwap i j count) := by
  intro k
  by_cases first : i <= k /\ k < i + count
  · rw [rangeSwap_first first.1 first.2, rangeSwap_second apart (by omega) (by omega)]
    omega
  · by_cases second : j <= k /\ k < j + count
    · rw [rangeSwap_second apart second.1 second.2, rangeSwap_first (by omega) (by omega)]
      omega
    · have fixed : rangeSwap i j count k = k := rangeSwap_outside (by omega) (by omega)
      rw [fixed, fixed]

@[simp] theorem rangeSwap_self (i k : Int) (count : Nat) : rangeSwap i i count k = k := by
  unfold rangeSwap
  split_ifs <;> omega

theorem rangeSwap_one_left (i j : Int) : rangeSwap i j 1 i = j := by
  rw [rangeSwap_first (le_refl i) (by omega)]
  omega

theorem rangeSwap_one_right (i j : Int) : rangeSwap i j 1 j = i := by
  rw [rangeSwap_second (by omega) (le_refl j) (by omega)]
  omega

theorem rangeSwap_one_other (first : k ≠ i) (second : k ≠ j) : rangeSwap i j 1 k = k :=
  rangeSwap_outside (by omega) (by omega)

/-- Exchanging two ranges rearranges every stretch that contains both. -/
theorem Rearranges.exchange {β : Type} (f : Int -> β) {lo : Int} {n : Nat} (count : Nat)
    (apart : i + count <= j \/ j + count <= i \/ i = j)
    (first : lo <= i /\ i + count <= lo + n)
    (second : lo <= j /\ j + count <= lo + n) :
    Rearranges lo n f (f ∘ rangeSwap i j count) := by
  refine Rearranges.of_involution f (rangeSwap_involutive apart) ?_ ?_
  · intro k lower upper
    unfold rangeSwap
    split_ifs <;> omega
  · intro k outside
    exact rangeSwap_outside (by omega) (by omega)

end RangeSwap

namespace Block

/-- Exchange the `width` bytes at `a` and at `b`. -/
def exchange (block : Block) (a b : Int) (width : Nat) : Block :=
  (block.store a (block.load b width)).store b (block.load a width)

/-- Exchange `units` words of `width` bytes, one after the other. -/
def exchangeUnits (width : Nat) : Nat -> Int -> Int -> Block -> Block
  | 0, _, _, block => block
  | units + 1, a, b, block =>
    exchangeUnits width units (a + (width : Int)) (b + (width : Int))
      (block.exchange a b width)

theorem store_load_apply (block source : Block) (start origin addr : Int) (count : Nat) :
    block.store start (source.load origin count) addr =
      if start <= addr /\ addr < start + count then
        source (origin + (addr - start))
      else block addr := by
  rw [store_apply]
  by_cases lower : start <= addr
  · rw [if_pos lower, getElem?_load]
    by_cases upper : addr < start + count
    · rw [if_pos (by omega), if_pos ⟨lower, upper⟩, Int.toNat_of_nonneg (by omega)]
      rfl
    · rw [if_neg (by omega), if_neg (fun both => upper both.2)]
      rfl
  · rw [if_neg lower, if_neg (fun both => lower both.1)]

theorem exchange_apply (block : Block) {a b : Int} {width : Nat}
    (apart : a + width <= b \/ b + width <= a \/ a = b) (addr : Int) :
    block.exchange a b width addr = block (rangeSwap a b width addr) := by
  unfold exchange
  rw [store_load_apply, store_load_apply]
  by_cases second : b <= addr /\ addr < b + width
  · rw [if_pos second, rangeSwap_second apart second.1 second.2]
    congr 1
    omega
  · rw [if_neg second]
    by_cases first : a <= addr /\ addr < a + width
    · rw [if_pos first, rangeSwap_first first.1 first.2]
      congr 1
      omega
    · rw [if_neg first, rangeSwap_outside (by omega) (by omega)]

theorem exchangeUnits_apply {width : Nat} (units : Nat) {a b : Int} {total : Nat}
    (size : units * width = total)
    (apart : a + total <= b \/ b + total <= a \/ a = b)
    (block : Block) (addr : Int) :
    exchangeUnits width units a b block addr = block (rangeSwap a b total addr) := by
  induction units generalizing a b total block with
  | zero =>
    subst size
    show block addr = _
    rw [rangeSwap_outside (by omega) (by omega)]
  | succ units ih =>
    have split : total = units * width + width := by rw [<- size]; ring
    generalize restSize : units * width = rest at split
    show exchangeUnits width units _ _ _ _ = _
    rw [ih restSize (by omega), exchange_apply block (by omega)]
    congr 1
    -- the first word, the words behind it, and everything else
    unfold rangeSwap
    split_ifs <;> omega

end Block

/-! ## Records -/

/-- A record of `es` bytes. -/
abbrev Record (es : Nat) := { bytes : List UInt8 // bytes.length = es }

instance (es : Nat) : Inhabited (Record es) :=
  ⟨⟨List.replicate es 0, List.length_replicate⟩⟩

namespace Block

def record (block : Block) (es : Nat) (addr : Int) : Record es :=
  ⟨block.load addr es, length_load block addr es⟩

/-- The sequence of records laid out from `base` on. -/
def records (block : Block) (base : Int) (es : Nat) (idx : Int) : Record es :=
  block.record es (base + idx * (es : Int))

theorem apply_eq_of_records_eq {first second : Block} {base : Int} {es : Nat} {idx : Int}
    (same : first.records base es idx = second.records base es idx) {t : Nat}
    (bound : t < es) :
    first (base + idx * es + t) = second (base + idx * es + t) := by
  have bytes : (first.load (base + idx * es) es)[t]? = (second.load (base + idx * es) es)[t]? :=
    congrArg (fun record : Record es => record.val[t]?) same
  rw [getElem?_load, getElem?_load, if_pos bound, if_pos bound] at bytes
  exact Option.some.inj bytes

theorem mem_range_iff {es t : Nat} (bound : t < es) (i k : Int) (count : Nat) :
    (i * es <= k * es + t /\ k * es + t < i * es + ((count * es : Nat) : Int)) ↔
      i <= k /\ k < i + count := by
  push_cast
  constructor
  · rintro ⟨lower, upper⟩
    constructor
    · by_contra less
      have : (k + 1) * es <= i * es :=
        mul_le_mul_of_nonneg_right (by omega) (by omega)
      linarith
    · by_contra more
      have : (i + count) * es <= k * es :=
        mul_le_mul_of_nonneg_right (by omega) (by omega)
      linarith
  · rintro ⟨lower, upper⟩
    constructor
    · have : i * es <= k * es :=
        mul_le_mul_of_nonneg_right lower (by omega)
      linarith
    · have : (k + 1) * es <= (i + count) * es :=
        mul_le_mul_of_nonneg_right (by omega) (by omega)
      linarith

theorem records_exchangeUnits (block : Block) (base : Int) (es : Nat) {width units : Nat}
    {i j : Int} {count : Nat} (size : units * width = count * es)
    (apart : i + count <= j \/ j + count <= i \/ i = j) :
    (exchangeUnits width units (base + i * es) (base + j * es) block).records
        base es = block.records base es ∘ rangeSwap i j count := by
  have apartBytes : base + i * es + ((count * es : Nat) : Int) <= base + j * es \/
      base + j * es + ((count * es : Nat) : Int) <= base + i * es \/
      base + i * es = base + j * es := by
    push_cast
    rcases apart with less | more | same
    · have : (i + count) * es <= j * es :=
        mul_le_mul_of_nonneg_right less (by omega)
      exact Or.inl (by linarith)
    · have : (j + count) * es <= i * es :=
        mul_le_mul_of_nonneg_right more (by omega)
      exact Or.inr (Or.inl (by linarith))
    · exact Or.inr (Or.inr (by rw [same]))
  funext k
  apply Subtype.ext
  apply List.map_congr_left
  intro t mem
  have bound := List.mem_range.mp mem
  rw [exchangeUnits_apply units size apartBytes]
  congr 1
  have first := mem_range_iff bound i k count
  have second := mem_range_iff bound j k count
  unfold rangeSwap
  by_cases inFirst : i <= k /\ k < i + count
  · rw [if_pos (by omega), if_pos inFirst]
    ring
  · rw [if_neg (by omega), if_neg inFirst]
    by_cases inSecond : j <= k /\ k < j + count
    · rw [if_pos (by omega), if_pos inSecond]
      ring
    · rw [if_neg (by omega), if_neg inSecond]

end Block

end Foundation
