import Mathlib.Data.Int.Basic

set_option autoImplicit false

namespace Library

-- A quotient rounded to the nearest integer, halves up.
def nearest (a b : Int) : Int := (2 * a + b) / (2 * b)

-- A quotient raised by one from the remainder `b / 2` on, where that half is
-- itself rounded down.
def raised (a b : Int) : Int := (a + (b - b / 2)) / b

theorem ediv_below_two (value b : Int) (nonneg : 0 ≤ value) (small : value < 2 * b) :
    value / b = if b ≤ value then 1 else 0 := by
  split
  · rename_i large
    have shifted : value = (value - b) + b := by omega
    rw [shifted, Int.add_ediv_of_dvd_right (Int.dvd_refl b), Int.ediv_self (by omega),
      Int.ediv_eq_zero_of_lt (by omega) (by omega)]
    rfl
  · exact Int.ediv_eq_zero_of_lt nonneg (by omega)

theorem raised_eq (a b : Int) (pos : 0 < b) : raised a b = if b / 2 ≤ a % b then a / b + 1 else a / b := by
  have low := Int.emod_nonneg a (by omega : b ≠ 0)
  have high := Int.emod_lt_of_pos a pos
  have split : a + (b - b / 2) = (a % b + (b - b / 2)) + b * (a / b) := by
    have whole := Int.emod_add_mul_ediv a b
    omega
  rw [raised, split, Int.add_mul_ediv_left _ _ (by omega), ediv_below_two _ b (by omega) (by omega)]
  split_ifs <;> omega

theorem nearest_eq (a b : Int) (pos : 0 < b) : nearest a b = if b ≤ 2 * (a % b) then a / b + 1 else a / b := by
  have low := Int.emod_nonneg a (by omega : b ≠ 0)
  have high := Int.emod_lt_of_pos a pos
  have split : 2 * a + b = (2 * (a % b) + b) + 2 * b * (a / b) := by
    have whole := Int.emod_add_mul_ediv a b
    rw [Int.mul_assoc]
    omega
  rw [nearest, split, Int.add_mul_ediv_left _ _ (by omega), ediv_below_two _ (2 * b) (by omega) (by omega)]
  split_ifs <;> omega

theorem raised_nearest_iff (a b : Int) (pos : 0 < b) : raised a b = nearest a b ↔ 2 * (a % b) + 1 ≠ b := by
  rw [raised_eq a b pos, nearest_eq a b pos]
  split_ifs <;> omega

theorem raised_bounds (a b : Int) (pos : 0 < b) : a / b ≤ raised a b ∧ raised a b ≤ a / b + 1 := by
  rw [raised_eq a b pos]
  split <;> omega

theorem le_raised_iff (a b bound : Int) (pos : 0 < b) : bound ≤ raised a b ↔ bound * b ≤ a + (b - b / 2) :=
  Int.le_ediv_iff_mul_le pos

theorem raised_lt_iff (a b bound : Int) (pos : 0 < b) : raised a b < bound ↔ a + (b - b / 2) < bound * b :=
  Int.ediv_lt_iff_lt_mul pos

theorem raised_mono (a larger b : Int) (pos : 0 < b) (below : a ≤ larger) : raised a b ≤ raised larger b :=
  Int.ediv_le_ediv pos (by omega)

theorem raised_nonneg (a b : Int) (pos : 0 < b) (nonneg : 0 ≤ a) : 0 ≤ raised a b :=
  Int.ediv_nonneg (by omega) (by omega)

end Library
