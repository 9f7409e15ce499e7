import Mathlib.Data.Int.Basic

set_option autoImplicit false

namespace Library

-- A 32-bit `int` is an integer brought back into its range after every sum
-- and product. A division that the processor traps has no result.
def intMin : Int := -2147483648
def intMax : Int := 2147483647

def Fits (value : Int) : Prop := intMin ≤ value ∧ value ≤ intMax

def wrap (value : Int) : Int := (value + 2147483648) % 4294967296 - 2147483648

theorem wrap_of_fits (value : Int) (fits : Fits value) : wrap value = value := by
  unfold Fits intMin intMax at fits
  unfold wrap
  omega

theorem wrap_fits (value : Int) : Fits (wrap value) := by
  unfold Fits wrap intMin intMax
  omega

theorem wrap_add (value more : Int) : wrap (wrap value + more) = wrap (value + more) := by
  unfold wrap
  omega

def cDiv (a b : Int) : Option Int :=
  if b = 0 ∨ (a = intMin ∧ b = -1) then none else some (a.tdiv b)

def cMod (a b : Int) : Option Int :=
  if b = 0 ∨ (a = intMin ∧ b = -1) then none else some (a.tmod b)

theorem c_div_of_pos (a b : Int) (nonneg : 0 ≤ a) (pos : 0 < b) : cDiv a b = some (a / b) := by
  unfold cDiv intMin
  rw [if_neg (by omega), Int.tdiv_eq_ediv_of_nonneg nonneg]

theorem c_mod_of_pos (a b : Int) (nonneg : 0 ≤ a) (pos : 0 < b) : cMod a b = some (a % b) := by
  unfold cMod intMin
  rw [if_neg (by omega), Int.tmod_eq_emod_of_nonneg nonneg]

theorem tdiv_of_neg (a b : Int) (negative : a < 0) (pos : 0 < b) : a ≤ a.tdiv b ∧ a.tdiv b ≤ 0 := by
  have flipped : a.tdiv b = -(-a / b) := by
    rw [← Int.tdiv_eq_ediv_of_nonneg (by omega), Int.neg_tdiv, Int.neg_neg]
  have nonneg : 0 ≤ -a / b := Int.ediv_nonneg (by omega) (by omega)
  have small : -a / b ≤ -a := Int.ediv_le_self b (by omega)
  omega

end Library
