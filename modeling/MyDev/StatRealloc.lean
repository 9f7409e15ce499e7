import MyDev.DeviceStep

set_option autoImplicit false

namespace MyDev

open Library

-- What kt_realloc makes of the limit: it is kept if the mean already is three
-- quarters of it, to the percent.
def newLimit (limit mean : Int) : Int := if raised (mean * 100) limit = kbOcc then limit else targetLimit mean

theorem target_limit_mono (mean larger : Int) (below : mean ≤ larger) : targetLimit mean ≤ targetLimit larger := by
  by_cases small : mean ≤ 1
  · rw [target_limit_one mean small]
    exact target_limit_least larger
  · rw [targetLimit, targetLimit, if_neg small, if_neg (by omega)]
    exact raised_mono _ _ _ (by decide) (by omega)

-- Below 75 percent the target is not above the limit, above 75 not below it:
-- half a percent of the limit is more than what the target's rounding adds.
theorem target_limit_shrinks (limit mean : Int) (limited : 2 ≤ limit) (under : raised (mean * 100) limit < kbOcc) :
    targetLimit mean ≤ limit := by
  rw [raised_lt_iff _ _ _ (by omega), kbOcc] at under
  by_cases small : mean ≤ 1
  · rw [target_limit_one mean small]
    exact limited
  · have near := target_limit_nearest mean (by omega)
    omega

theorem target_limit_grows (limit mean : Int) (limited : 2 ≤ limit) (above : kbOcc < raised (mean * 100) limit) :
    limit ≤ targetLimit mean := by
  have reached : kbOcc + 1 ≤ raised (mean * 100) limit := by omega
  rw [le_raised_iff _ _ _ (by omega), kbOcc] at reached
  by_cases small : mean ≤ 1
  · omega
  · have near := target_limit_nearest mean (by omega)
    omega

theorem new_limit_mono (limit mean larger : Int) (limited : 2 ≤ limit) (below : mean ≤ larger) :
    newLimit limit mean ≤ newLimit limit larger := by
  have percent := raised_mono (mean * 100) (larger * 100) limit (by omega) (by omega)
  unfold newLimit
  by_cases kept : raised (mean * 100) limit = kbOcc
  · rw [if_pos kept]
    split
    · exact Int.le_refl limit
    · exact target_limit_grows limit larger limited (by omega)
  · rw [if_neg kept]
    split
    · exact target_limit_shrinks limit mean limited (by omega)
    · exact target_limit_mono mean larger below

theorem mean_raised (sum dim mean : Int) (nonneg : 0 ≤ sum) (small : sum ≤ intMax) (sampled : 1 ≤ dim)
    (divided : myDiv sum dim = some mean) (fits : Fits (100 * mean)) : mean = raised sum dim ∧ 0 ≤ mean := by
  rw [my_div_wrap sum dim nonneg small (by omega), Option.some.injEq] at divided
  have bounds := raised_bounds sum dim (by omega)
  have below := Int.ediv_le_self dim nonneg
  have above := raised_nonneg sum dim (by omega) nonneg
  unfold intMax at small
  unfold Fits intMin at fits
  unfold wrap at divided
  omega

theorem kt_realloc_work_limit (ds : Ds) (mean : Int) (limited : 2 ≤ ds.dsKbMax)
    (divided : myDiv ds.dsKbSum ds.dsKbDim = some mean) (nonneg : 0 ≤ mean) (fits : Fits (100 * mean)) :
    dsGetKbOccupation ds = some (raised (mean * 100) ds.dsKbMax) ∧
      ktReallocWork ds = some (dsResetAlloc { ds with dsKbMax := newLimit ds.dsKbMax mean }) := by
  have small : mean * 100 ≤ intMax := by
    have above := fits.2
    omega
  have percent : dsGetKbOccupation ds = some (raised (mean * 100) ds.dsKbMax) := by
    rw [dsGetKbOccupation, divided]
    simp only [Option.bind_eq_bind, Option.bind_some, calculatePer]
    rw [wrap_of_fits _ ⟨by unfold intMin; omega, small⟩]
    exact my_div_several _ _ (by omega) small limited
  refine ⟨percent, ?_⟩
  have set := ds_set_kb_occupation_target ds mean small
  by_cases kept : raised (mean * 100) ds.dsKbMax = kbOcc
  · simp [ktReallocWork, percent, divided, kept, newLimit]
  · simp [ktReallocWork, percent, divided, set, kept, newLimit]

section Iteration

variable {ι : Type}

structure Reallocating (s : Dev ι) (mean : Int) : Prop where
  point : (s.kts .ktRealloc).pc = .work
  nonneg : 0 ≤ s.devStat.dsKbSum
  small : s.devStat.dsKbSum ≤ intMax
  sampled : 1 ≤ s.devStat.dsKbDim
  limited : 2 ≤ s.devStat.dsKbMax
  divided : myDiv s.devStat.dsKbSum s.devStat.dsKbDim = some mean
  fits : Fits (100 * mean)

theorem reallocating_mean (s : Dev ι) (mean : Int) (ready : Reallocating s mean) :
    mean = raised s.devStat.dsKbSum s.devStat.dsKbDim ∧ 0 ≤ mean :=
  mean_raised _ _ _ ready.nonneg ready.small ready.sampled ready.divided ready.fits

theorem realloc_step (s : Dev ι) (mean : Int) (env : Env) (ready : Reallocating s mean) :
    dsGetKbOccupation s.devStat = some (raised (mean * 100) s.devStat.dsKbMax) ∧
      ∃ next out, ktStep s .ktRealloc env = some (next, out) ∧ next.devStat.dsKbMax = newLimit s.devStat.dsKbMax mean := by
  obtain ⟨percent, work⟩ := kt_realloc_work_limit s.devStat mean ready.limited ready.divided (reallocating_mean s mean ready).2
    ready.fits
  refine ⟨percent, _, _, by simp only [ktStep, ready.point, work]; rfl, rfl⟩

theorem realloc_on_target (s : Dev ι) (mean : Int) (env : Env) (ready : Reallocating s mean) :
    ∃ per next out, dsGetKbOccupation s.devStat = some per ∧ ktStep s .ktRealloc env = some (next, out) ∧
      (per < 75 → next.devStat.dsKbMax ≤ s.devStat.dsKbMax) ∧ (75 < per → s.devStat.dsKbMax ≤ next.devStat.dsKbMax) ∧
      (per = 75 → next.devStat.dsKbMax = s.devStat.dsKbMax) ∧
      (per ≠ 75 → (mean ≤ 1 → next.devStat.dsKbMax = 2) ∧
        (2 ≤ mean → (3 * next.devStat.dsKbMax - 4 * mean).natAbs ≤ 1 ∧ mean < next.devStat.dsKbMax ∧
          ∀ kbuf : Kb, kbuf.count = mean → kbIsfull kbuf next.devStat.dsKbMax = false)) := by
  obtain ⟨percent, next, out, stepped, limit⟩ := realloc_step s mean env ready
  have limited := ready.limited
  refine ⟨_, next, out, percent, stepped, ?_⟩
  rw [limit, newLimit]
  by_cases kept : raised (mean * 100) s.devStat.dsKbMax = kbOcc
  · simp [kept, kbOcc]
  · rw [if_neg kept]
    refine ⟨target_limit_shrinks _ mean limited, target_limit_grows _ mean limited, fun same => absurd same kept, ?_⟩
    refine fun _ => ⟨target_limit_one mean, ?_⟩
    intro several
    have near := target_limit_nearest mean several
    have room : mean < targetLimit mean := by omega
    exact ⟨near, room, fun kbuf count => (kb_isfull_false_iff _ _).mpr (by omega)⟩

def reallocState (sum : Int) : Dev Unit :=
  { myModuleInit Unit with devStat := ⟨0, [], 2, 4, sum⟩, kts := fun _ => ⟨.work, .interruptible, false⟩ }

theorem realloc_on_target_full : ∃ next out, ktStep (reallocState 8) .ktRealloc {} = some (next, out) ∧
    4 ≤ next.devStat.dsKbMax ∧ 4 < next.devStat.dsKbMax := by
  obtain ⟨per, next, out, percent, stepped, _, grows, _, moves⟩ := realloc_on_target (reallocState 8) 4 {}
    ⟨rfl, by decide, by decide, by decide, by decide, by decide, by decide, by decide⟩
  have full : per = 100 := by
    have computed : dsGetKbOccupation (reallocState 8).devStat = some 100 := by decide
    rw [computed] at percent
    cases percent
    rfl
  exact ⟨next, out, stepped, grows (by omega), ((moves (by omega)).2 (by decide)).2.1⟩

theorem realloc_monotone (lighter heavier : Dev ι) (mean larger : Int) (env envHeavier : Env) (first : Reallocating lighter mean)
    (second : Reallocating heavier larger) (samples : heavier.devStat.dsKbDim = lighter.devStat.dsKbDim)
    (limit : heavier.devStat.dsKbMax = lighter.devStat.dsKbMax) (load : lighter.devStat.dsKbSum ≤ heavier.devStat.dsKbSum) :
    ∃ next out nextHeavier outHeavier, ktStep lighter .ktRealloc env = some (next, out) ∧
      ktStep heavier .ktRealloc envHeavier = some (nextHeavier, outHeavier) ∧
      next.devStat.dsKbMax ≤ nextHeavier.devStat.dsKbMax := by
  obtain ⟨_, next, out, stepped, least⟩ := realloc_step lighter mean env first
  obtain ⟨_, nextHeavier, outHeavier, steppedHeavier, most⟩ := realloc_step heavier larger envHeavier second
  refine ⟨next, out, nextHeavier, outHeavier, stepped, steppedHeavier, ?_⟩
  have means : mean ≤ larger := by
    have sampled := first.sampled
    rw [(reallocating_mean lighter mean first).1, (reallocating_mean heavier larger second).1, samples]
    exact raised_mono _ _ _ (by omega) load
  rw [least, most, limit]
  exact new_limit_mono _ mean larger first.limited means

-- The lighter load is three quarters of the limit, which is then kept.
theorem realloc_monotone_kept : ∃ next out nextHeavier outHeavier, ktStep (reallocState 6) .ktRealloc {} = some (next, out) ∧
    ktStep (reallocState 8) .ktRealloc {} = some (nextHeavier, outHeavier) ∧
    next.devStat.dsKbMax ≤ nextHeavier.devStat.dsKbMax :=
  realloc_monotone (reallocState 6) (reallocState 8) 3 4 {} {}
    ⟨rfl, by decide, by decide, by decide, by decide, by decide, by decide, by decide⟩
    ⟨rfl, by decide, by decide, by decide, by decide, by decide, by decide, by decide⟩ rfl rfl (by decide)

end Iteration

end MyDev
