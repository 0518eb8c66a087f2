import Mathlib.Data.Int.ModEq
import Mathlib.Tactic.Positivity
import Mathlib.Tactic.Ring

namespace Foundation

/-!
# Integers of a machine word

`signed w` and `unsigned w` take an integer to the value a word of `w` bits
holds for it.  Both depend on the integer modulo `2 ^ w` only, so a computation
may wrap after every step or once at the end.
-/

def signed (w : Nat) (value : Int) : Int := (BitVec.ofInt w value).toInt

def unsigned (w : Nat) (value : Int) : Int := ((BitVec.ofInt w value).toNat : Int)

section

variable (w : Nat) (value : Int)

theorem signed_eq_bmod : signed w value = value.bmod (2 ^ w) :=
  BitVec.toInt_ofInt value

theorem unsigned_eq_emod : unsigned w value = value % 2 ^ w := by
  unfold unsigned
  rw [BitVec.toNat_ofInt]
  push_cast
  exact Int.toNat_of_nonneg (Int.emod_nonneg _ (pow_ne_zero w two_ne_zero))

theorem signed_modEq : signed w value ≡ value [ZMOD 2 ^ w] := by
  rw [signed_eq_bmod]
  have equal := Int.bmod_emod (x := value) (m := 2 ^ w)
  push_cast at equal
  exact equal

theorem unsigned_modEq : unsigned w value ≡ value [ZMOD 2 ^ w] := by
  rw [unsigned_eq_emod]
  exact Int.emod_emod_of_dvd value (dvd_refl _)

end

variable {w : Nat} {first second : Int}

theorem signed_congr (same : first ≡ second [ZMOD 2 ^ w]) : signed w first = signed w second := by
  rw [signed_eq_bmod, signed_eq_bmod]
  rw [Int.bmod_def, Int.bmod_def]
  push_cast
  rw [show first % 2 ^ w = second % 2 ^ w from same]

theorem unsigned_congr (same : first ≡ second [ZMOD 2 ^ w]) :
    unsigned w first = unsigned w second := by
  rw [unsigned_eq_emod, unsigned_eq_emod]
  exact same

theorem unsigned_nonneg (w : Nat) (value : Int) : 0 <= unsigned w value :=
  Int.natCast_nonneg _

theorem unsigned_lt (w : Nat) (value : Int) : unsigned w value < 2 ^ w := by
  rw [unsigned_eq_emod]
  exact Int.emod_lt_of_pos _ (by positivity)

theorem signed_eq_signed_iff :
    signed w first = signed w second <-> first ≡ second [ZMOD 2 ^ w] := by
  constructor
  · intro same
    calc first ≡ signed w first [ZMOD 2 ^ w] := (signed_modEq w first).symm
      _ = signed w second := same
      _ ≡ second [ZMOD 2 ^ w] := signed_modEq w second
  · exact signed_congr

theorem signed_lt (w : Nat) (value : Int) : signed (w + 1) value < 2 ^ w := by
  have lt := BitVec.two_mul_toInt_lt (x := BitVec.ofInt (w + 1) value)
  have double : (2 : Int) ^ (w + 1) = 2 * 2 ^ w := by ring
  unfold signed
  omega

theorem le_signed (w : Nat) (value : Int) : -2 ^ w <= signed (w + 1) value := by
  have le := BitVec.le_two_mul_toInt (x := BitVec.ofInt (w + 1) value)
  have double : (2 : Int) ^ (w + 1) = 2 * 2 ^ w := by ring
  unfold signed
  omega

theorem signed_of_fits {value : Int} (lower : -2 ^ w <= value) (upper : value < 2 ^ w) :
    signed (w + 1) value = value := by
  rw [signed_eq_bmod]
  have double : (2 : Int) ^ (w + 1) = 2 * 2 ^ w := by ring
  apply Int.bmod_eq_of_le
  all_goals
    push_cast
    omega

theorem unsigned_of_fits {value : Int} (lower : 0 <= value) (upper : value < 2 ^ w) :
    unsigned w value = value := by
  rw [unsigned_eq_emod]
  exact Int.emod_eq_of_lt lower upper

end Foundation
