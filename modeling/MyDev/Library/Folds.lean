import Mathlib.Algebra.Order.BigOperators.Group.List
import Mathlib.Algebra.Ring.Int.Defs
import Mathlib.Data.Nat.Cast.Basic
import MyDev.Library.CInt

set_option autoImplicit false

namespace Library

-- Terms that are not negative reach their sum from below, so no partial sum
-- wraps if the whole sum does not.
theorem foldl_wrap_sum (values : List Int) (base : Int) (nonneg : ∀ value ∈ values, 0 ≤ value) (start : 0 ≤ base)
    (fits : base + values.sum ≤ intMax) : values.foldl (fun sum value => wrap (sum + value)) base = base + values.sum := by
  induction values generalizing base with
  | nil => simp
  | cons value rest ih =>
      have first := nonneg value (by simp)
      have later : ∀ other ∈ rest, 0 ≤ other := fun other member => nonneg other (by simp [member])
      have tail := List.sum_nonneg later
      rw [List.sum_cons] at fits ⊢
      rw [List.foldl_cons, wrap_of_fits _ ⟨by unfold intMin; omega, by omega⟩, ih _ later (by omega) (by omega)]
      omega

theorem sum_le_length_mul (values : List Int) (bound : Int) (below : ∀ value ∈ values, value ≤ bound) :
    values.sum ≤ values.length * bound := by
  have total := List.sum_le_card_nsmul values bound below
  rwa [nsmul_eq_mul] at total

section Best

variable {α : Type} (better : α → α → Prop) [DecidableRel better]

end Best

end Library
