import MyDev.Library.CInt
import MyDev.Library.Rounding
import MyDev.Kbuf

set_option autoImplicit false

namespace MyDev

open Library

def kbOcc : Int := 75

def myDiv (a b : Int) : Option Int := do
  let res ← cMod a b
  let mod ← cDiv a b
  if b.tdiv 2 ≤ res then return wrap (mod + 1)
  return mod

def calculatePer (a b : Int) : Option Int := myDiv (wrap (a * 100)) b

-- `ds_list` is the content of the array it points to.
structure Ds where
  dsDim : Int
  dsList : List Int
  dsKbDim : Int
  dsKbMax : Int
  dsKbSum : Int
deriving DecidableEq, Repr

-- kmalloc does not clear: `block` is what the array holds before the scan.
def dsInitStat (ds : Ds) (dim : Int) (block : Nat → Int) : Ds :=
  { ds with dsDim := dim, dsList := (List.range dim.toNat).map block }

def dsInitAlloc (ds : Ds) (max : Int) : Ds := { ds with dsKbDim := 0, dsKbSum := 0, dsKbMax := max }

def dsResetStat (ds : Ds) : Ds := { ds with dsList := [], dsDim := 0 }

def dsResetAlloc (ds : Ds) : Ds := { ds with dsKbDim := 0, dsKbSum := 0 }

def dsAddKbValue (ds : Ds) (value : Int) : Ds :=
  { ds with dsKbDim := wrap (ds.dsKbDim + 1), dsKbSum := wrap (ds.dsKbSum + value) }

def dsGetKbOccupation (ds : Ds) : Option Int := do
  let a ← myDiv ds.dsKbSum ds.dsKbDim
  calculatePer a ds.dsKbMax

def dsSetKbOccupation (ds : Ds) (value : Int) : Option Ds := do
  if value ≤ 1 then return { ds with dsKbMax := 2 }
  let max ← myDiv (wrap (value * 100)) kbOcc
  return { ds with dsKbMax := max }

def dsPopulate (ds : Ds) (kbuf : Kb) (block : Nat → Int) : Int × Ds :=
  let len := kbuf.count
  if len ≠ 0 then
    let ready := dsInitStat ds len block
    (len, { ready with dsList := kbScan ready.dsList kbuf })
  else (len, ds)

def dsMed (ds : Ds) : Option Int :=
  cDiv ((ds.dsList.take ds.dsDim.toNat).foldl (fun tmp len => wrap (tmp + len)) 0) ds.dsDim

def dsMax (ds : Ds) : Int :=
  (ds.dsList.take ds.dsDim.toNat).foldl (fun tmp len => if tmp < len then len else tmp) 0

def dsMin (ds : Ds) (max : Int) : Int :=
  if max = 0 then 0
  else (ds.dsList.take ds.dsDim.toNat).foldl (fun tmp len => if tmp > len then len else tmp) max

theorem ds_populate_len (ds : Ds) (kbuf : Kb) (block : Nat → Int) : (dsPopulate ds kbuf block).1 = kbuf.count := by
  simp only [dsPopulate]
  split <;> rfl

theorem ds_populate_keeps (ds : Ds) (kbuf : Kb) (block : Nat → Int) :
    (dsPopulate ds kbuf block).2.dsKbDim = ds.dsKbDim ∧ (dsPopulate ds kbuf block).2.dsKbMax = ds.dsKbMax ∧
      (dsPopulate ds kbuf block).2.dsKbSum = ds.dsKbSum := by
  simp only [dsPopulate]
  split <;> exact ⟨rfl, rfl, rfl⟩

theorem my_div_of_pos (a b : Int) (nonneg : 0 ≤ a) (pos : 0 < b) :
    myDiv a b = some (if b / 2 ≤ a % b then wrap (a / b + 1) else a / b) := by
  have half : b.tdiv 2 = b / 2 := Int.tdiv_eq_ediv_of_nonneg (by omega)
  unfold myDiv
  rw [c_mod_of_pos a b nonneg pos, c_div_of_pos a b nonneg pos]
  simp only [Option.bind_eq_bind, Option.bind_some, half]
  split <;> rfl

theorem my_div_raised (a b : Int) (nonneg : 0 ≤ a) (pos : 0 < b) (fits : Fits (raised a b)) :
    myDiv a b = some (raised a b) := by
  rw [my_div_of_pos a b nonneg pos]
  rw [raised_eq a b pos] at fits ⊢
  split
  · rename_i half
    rw [if_pos half] at fits
    rw [wrap_of_fits _ fits]
  · rfl

theorem my_div_wrap (a b : Int) (nonneg : 0 ≤ a) (small : a ≤ intMax) (pos : 0 < b) :
    myDiv a b = some (wrap (raised a b)) := by
  rw [my_div_of_pos a b nonneg pos, raised_eq a b pos]
  split
  · rfl
  · have below := Int.ediv_le_self b nonneg
    have above := Int.ediv_nonneg nonneg (by omega : 0 ≤ b)
    rw [wrap_of_fits _ ⟨by unfold intMin; omega, by omega⟩]

theorem my_div_one (a : Int) (nonneg : 0 ≤ a) (small : a ≤ intMax) : myDiv a 1 = some (wrap (a + 1)) := by
  rw [my_div_wrap a 1 nonneg small (by decide)]
  simp [raised]

theorem my_div_several (a b : Int) (nonneg : 0 ≤ a) (small : a ≤ intMax) (several : 2 ≤ b) :
    myDiv a b = some (raised a b) := by
  apply my_div_raised a b nonneg (by omega)
  have bounds := raised_bounds a b (by omega)
  have positive := Int.ediv_nonneg nonneg (by omega : 0 ≤ b)
  have halved : a / b * 2 ≤ a :=
    Int.le_trans (Int.mul_le_mul_of_nonneg_left several positive) (Int.ediv_mul_le a (by omega))
  unfold intMax at small
  unfold Fits intMin intMax
  omega

theorem my_div_le (a b bound : Int) (fits : Fits a) (pos : 0 < b) (small : a < (bound + 1) * b) (nonneg : 0 ≤ bound)
    (room : bound < intMax) : ∃ quotient, myDiv a b = some quotient ∧ quotient ≤ bound + 1 := by
  unfold Fits intMin at fits
  unfold intMax at fits room
  have range : a.tdiv b ≤ bound ∧ -2147483648 ≤ a.tdiv b := by
    by_cases positive : 0 ≤ a
    · rw [Int.tdiv_eq_ediv_of_nonneg positive]
      have above := Int.ediv_lt_of_lt_mul pos small
      have below := Int.ediv_nonneg positive (by omega : 0 ≤ b)
      omega
    · have bounds := tdiv_of_neg a b (by omega) pos
      omega
  have raised : wrap (a.tdiv b + 1) = a.tdiv b + 1 := wrap_of_fits _ (by unfold Fits intMin intMax; omega)
  have untrapped : ¬ (b = 0 ∨ a = intMin ∧ b = -1) := by omega
  simp only [myDiv, cMod, cDiv, if_neg untrapped, Option.bind_eq_bind, Option.bind_some, raised, Option.pure_def]
  split
  · exact ⟨_, rfl, by omega⟩
  · exact ⟨_, rfl, by omega⟩

theorem my_div_isSome (a b : Int) (pos : 0 < b) : ∃ quotient, myDiv a b = some quotient := by
  have untrapped : ¬ (b = 0 ∨ a = intMin ∧ b = -1) := by omega
  simp only [myDiv, cMod, cDiv, if_neg untrapped, Option.bind_eq_bind, Option.bind_some, Option.pure_def]
  split
  · exact ⟨_, rfl⟩
  · exact ⟨_, rfl⟩

-- The limit for a mean of `mean` strings, which makes them three quarters of
-- it; one string or none gets two places.
def targetLimit (mean : Int) : Int := if mean ≤ 1 then 2 else raised (mean * 100) kbOcc

theorem target_limit_one (mean : Int) (small : mean ≤ 1) : targetLimit mean = 2 := if_pos small

-- A hundredfold leaves remainder 0, 25 or 50 of 75, on none of which the two
-- roundings differ.
theorem target_limit_nearest (mean : Int) (several : 2 ≤ mean) : (3 * targetLimit mean - 4 * mean).natAbs ≤ 1 := by
  rw [targetLimit, if_neg (by omega), raised, kbOcc]
  omega

theorem target_limit_least (mean : Int) : 2 ≤ targetLimit mean := by
  by_cases small : mean ≤ 1
  · exact Int.le_of_eq (target_limit_one mean small).symm
  · have near := target_limit_nearest mean (by omega)
    omega

theorem ds_set_kb_occupation_target (ds : Ds) (mean : Int) (small : mean * 100 ≤ intMax) :
    dsSetKbOccupation ds mean = some { ds with dsKbMax := targetLimit mean } := by
  unfold dsSetKbOccupation targetLimit
  split
  · rfl
  · rw [wrap_of_fits _ ⟨by unfold intMin; omega, small⟩, my_div_several _ _ (by omega) small (by decide)]
    rfl

theorem target_limit_at_most (mean count : Int) (room : 4 * mean + 1 ≤ 3 * count) (two : 2 ≤ count) : targetLimit mean ≤ count := by
  by_cases small : mean ≤ 1
  · rw [target_limit_one mean small]
    exact two
  · have near := target_limit_nearest mean (by omega)
    omega

theorem ds_set_kb_occupation_at_most (ds next : Ds) (mean count : Int) (room : 4 * mean + 1 ≤ 3 * count) (two : 2 ≤ count)
    (set : dsSetKbOccupation ds mean = some next) : next.dsKbMax ≤ count := by
  by_cases small : mean * 100 ≤ intMax
  · rw [ds_set_kb_occupation_target ds mean small] at set
    cases set
    exact target_limit_at_most mean count room two
  · unfold intMax at small
    have several : ¬ mean ≤ 1 := by omega
    have bits := wrap_fits (mean * 100)
    have large : wrap (mean * 100) < (28633115 + 1) * kbOcc := by
      unfold Fits intMax at bits
      unfold kbOcc
      omega
    obtain ⟨limit, divided, bound⟩ := my_div_le (wrap (mean * 100)) kbOcc 28633115 bits (by decide) large (by decide) (by decide)
    simp only [dsSetKbOccupation, if_neg several, divided, Option.bind_eq_bind, Option.bind_some, Option.pure_def,
      Option.some.injEq] at set
    rw [← set]
    simp only
    omega

theorem my_div_at_most (sum dim count : Int) (fits : Fits sum) (sampled : 1 ≤ dim) (two : 2 ≤ count)
    (low : 4 * sum + 5 * dim ≤ 3 * count * dim) : ∃ mean, myDiv sum dim = some mean ∧ 4 * mean + 1 ≤ 3 * count := by
  by_cases negative : sum < 0
  · obtain ⟨mean, divided, bound⟩ := my_div_le sum dim 0 fits (by omega) (by omega) (by decide) (by decide)
    exact ⟨mean, divided, by omega⟩
  have nonneg : 0 ≤ sum := by omega
  by_cases room : sum / dim < intMax
  · have above : sum < (sum / dim + 1) * dim := Int.lt_ediv_add_one_mul_self sum (by omega)
    obtain ⟨mean, divided, bound⟩ := my_div_le sum dim (sum / dim) fits (by omega) above (Int.ediv_nonneg nonneg (by omega)) room
    have scaled : (4 * (sum / dim) + 5) * dim ≤ 3 * count * dim := by
      have below := Int.ediv_mul_le sum (by omega : dim ≠ 0)
      rw [Int.add_mul, Int.mul_assoc]
      omega
    have floor := Int.le_of_mul_le_mul_right scaled (by omega)
    exact ⟨mean, divided, by omega⟩
  · -- Only INT_MAX itself, divided by one, leaves no room for the rounding.
    have whole : dim = 1 := by
      by_contra several
      have product : intMax * 2 ≤ sum / dim * dim :=
        Int.mul_le_mul (by omega) (by omega) (by decide) (Int.ediv_nonneg nonneg (by omega))
      have below := Int.ediv_mul_le sum (by omega : dim ≠ 0)
      unfold Fits intMax at fits
      unfold intMax at product
      omega
    subst whole
    refine ⟨wrap (sum + 1), my_div_one sum nonneg fits.2, ?_⟩
    have bits := wrap_fits (sum + 1)
    unfold Fits at fits bits
    omega

end MyDev
