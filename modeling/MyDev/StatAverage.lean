import MyDev.Library.Folds
import MyDev.DeviceLimit

set_option autoImplicit false

namespace MyDev

open Library

def addSamples (ds : Ds) (samples : List Int) : Ds := samples.foldl dsAddKbValue ds

theorem add_samples_dim (ds : Ds) (samples : List Int) (nonneg : 0 ≤ ds.dsKbDim) (few : ds.dsKbDim + samples.length ≤ intMax) :
    (addSamples ds samples).dsKbDim = ds.dsKbDim + samples.length := by
  induction samples generalizing ds with
  | nil => simp [addSamples]
  | cons sample rest ih =>
      simp only [List.length_cons] at few
      have next : (dsAddKbValue ds sample).dsKbDim = ds.dsKbDim + 1 := by
        rw [dsAddKbValue, wrap_of_fits _ ⟨by unfold intMin; omega, by omega⟩]
      have later := ih (dsAddKbValue ds sample) (by omega) (by omega)
      simp only [addSamples, List.foldl_cons, List.length_cons] at later ⊢
      omega

theorem add_samples_fold (ds : Ds) (samples : List Int) :
    (addSamples ds samples).dsKbSum = samples.foldl (fun sum value => wrap (sum + value)) ds.dsKbSum := by
  induction samples generalizing ds with
  | nil => rfl
  | cons sample rest ih => exact ih (dsAddKbValue ds sample)

theorem some_sample_above (samples : List Int) (bound : Int) (large : samples.length * (bound - 1) < samples.sum) :
    ∃ sample ∈ samples, bound ≤ sample := by
  by_contra none
  push Not at none
  have total := sum_le_length_mul samples (bound - 1) (fun sample member => by
    have below := none sample member
    omega)
  omega

-- The mean of two samples or more, rounded as my_div does, is reached by one of
-- them: it is above the quotient only when there is a remainder.
theorem raised_sample (samples : List Int) (several : 2 ≤ samples.length) :
    ∃ sample ∈ samples, raised samples.sum samples.length ≤ sample := by
  apply some_sample_above
  have pos : (0 : Int) < samples.length := by omega
  have whole := Int.emod_add_mul_ediv samples.sum samples.length
  have low := Int.emod_nonneg samples.sum (by omega : (samples.length : Int) ≠ 0)
  rw [raised_eq _ _ pos]
  split
  · rename_i half
    rw [Int.add_sub_cancel]
    omega
  · rw [Int.mul_sub]
    omega

theorem my_div_rounds_iff (a b : Int) (nonneg : 0 ≤ a) (small : a ≤ intMax) (pos : 0 < b) :
    myDiv a b = some ((2 * a + b) / (2 * b)) ↔ 2 * (a % b) + 1 ≠ b := by
  by_cases several : 2 ≤ b
  · rw [my_div_several a b nonneg small several, Option.some.injEq]
    exact raised_nearest_iff a b pos
  · have one : b = 1 := by omega
    subst one
    rw [my_div_one a nonneg small, Option.some.injEq, Int.emod_one, wrap]
    omega

theorem average_rounds_iff (ds start : Ds) (max : Int) (samples : List Int)
    (fresh : start = dsResetAlloc ds ∨ start = dsInitAlloc ds max) (filled : samples ≠ [])
    (few : samples.length ≤ intMax) (nonneg : ∀ sample ∈ samples, 0 ≤ sample) (fits : Fits samples.sum) :
    (addSamples start samples).dsKbDim = samples.length ∧ (addSamples start samples).dsKbSum = samples.sum ∧
      (myDiv (addSamples start samples).dsKbSum (addSamples start samples).dsKbDim =
          some ((2 * samples.sum + samples.length) / (2 * samples.length)) ↔
        2 * (samples.sum % samples.length) + 1 ≠ samples.length) ∧
      (samples.length ≠ 1 → ∃ average,
        myDiv (addSamples start samples).dsKbSum (addSamples start samples).dsKbDim = some average ∧
          ∃ sample ∈ samples, average ≤ sample) ∧
      ∀ a b : Int, 0 ≤ a → a ≤ intMax → 1 ≤ b →
        (myDiv a b = some ((2 * a + b) / (2 * b)) ↔ 2 * (a % b) + 1 ≠ b) := by
  have empty : start.dsKbDim = 0 ∧ start.dsKbSum = 0 := by
    rcases fresh with rfl | rfl <;> exact ⟨rfl, rfl⟩
  have some := List.length_pos_iff.mpr filled
  have dim : (addSamples start samples).dsKbDim = samples.length := by
    rw [add_samples_dim start samples (by omega) (by omega), empty.1, Int.zero_add]
  have sum : (addSamples start samples).dsKbSum = samples.sum := by
    rw [add_samples_fold, empty.2, foldl_wrap_sum samples 0 nonneg (by decide) (by rw [Int.zero_add]; exact fits.2), Int.zero_add]
  have total := List.sum_nonneg nonneg
  rw [dim, sum]
  refine ⟨rfl, rfl, my_div_rounds_iff _ _ total fits.2 (by omega), ?_, ?_⟩
  · intro several
    exact ⟨_, my_div_several _ _ total fits.2 (by omega), raised_sample samples (by omega)⟩
  · intro a b positive small pos
    exact my_div_rounds_iff a b positive small pos

theorem average_rounds_iff_two_samples :
    myDiv (addSamples (dsResetAlloc ⟨0, [], 7, 5, 9⟩) [1, 2]).dsKbSum (addSamples (dsResetAlloc ⟨0, [], 7, 5, 9⟩) [1, 2]).dsKbDim =
      some 2 :=
  (average_rounds_iff ⟨0, [], 7, 5, 9⟩ _ 5 [1, 2] (.inl rfl) (by decide) (by decide) (by decide) ⟨by decide, by decide⟩).2.2.1.mpr
    (by decide)

-- One string in three samples is rounded up to one, and a single sample of five
-- strings to six.
theorem average_above_mean :
    myDiv (addSamples (dsInitAlloc ⟨0, [], 0, 0, 0⟩ startKbDim) [1, 0, 0]).dsKbSum
        (addSamples (dsInitAlloc ⟨0, [], 0, 0, 0⟩ startKbDim) [1, 0, 0]).dsKbDim = some 1 ∧
      (2 * 1 + 3) / (2 * 3) = (0 : Int) ∧
      myDiv (addSamples (dsInitAlloc ⟨0, [], 0, 0, 0⟩ startKbDim) [5]).dsKbSum
        (addSamples (dsInitAlloc ⟨0, [], 0, 0, 0⟩ startKbDim) [5]).dsKbDim = some 6 := by
  decide

section Samples

variable {ι : Type} [DecidableEq ι] {ok : Dev ι → Action ι → Prop} {events : List (Event ι)} {s : Dev ι}

theorem add_samples_snoc (ds : Ds) (samples : List Int) (sample : Int) :
    addSamples ds (samples ++ [sample]) = dsAddKbValue (addSamples ds samples) sample := by
  simp [addSamples]

structure SamplesInv (events : List (Event ι)) (s : Dev ι) : Prop where
  dim : s.devStat.dsKbDim = (addSamples (myModuleInit ι).devStat (samplesSince events)).dsKbDim
  sum : s.devStat.dsKbSum = (addSamples (myModuleInit ι).devStat (samplesSince events)).dsKbSum
  nonneg : ∀ sample ∈ samplesSince events, 0 ≤ sample

theorem samples_run (run : Run (device ι) ok (myModuleInit ι) events s) : SamplesInv events s := by
  refine Run.invariant SamplesInv ⟨rfl, rfl, by simp [samplesSince]⟩ ?_ run
  intro events s action next out _ inv _ stepped
  cases device_effect s next action out (device_moves s next action out stepped) with
  | quiet stat _ silent | push _ stat _ silent =>
      have same := samples_since_silent events out silent
      exact ⟨by rw [stat, same]; exact inv.dim, by rw [stat, same]; exact inv.sum, by rw [same]; exact inv.nonneg⟩
  | sample acts point work fifo emits =>
      obtain ⟨dim, _, sum⟩ := kt_stat_work_spec _ _ _ _ work
      have added : samplesSince (events ++ out) = samplesSince events ++ [s.kbFifo.count] := by
        simp [emits, samplesSince, Event.collect]
      refine ⟨?_, ?_, ?_⟩
      · rw [dim, inv.dim, added, add_samples_snoc]
        rfl
      · rw [sum, inv.sum, added, add_samples_snoc]
        rfl
      · intro sample member
        rw [added, List.mem_append, List.mem_singleton] at member
        rcases member with old | rfl
        · exact inv.nonneg sample old
        · exact kb_count_nonneg _
  | resize acts point work fifo emits =>
      have cleared : samplesSince (events ++ out) = [] := by simp [emits, samplesSince, Event.collect]
      obtain ⟨dim, sum⟩ := kt_realloc_work_resets _ _ work
      exact ⟨by rw [dim, cleared]; rfl, by rw [sum, cleared]; rfl, by simp [cleared]⟩
  | trap acts point work stat fifo emits =>
      have same : samplesSince (events ++ out) = samplesSince events := by simp [emits, samplesSince, Event.collect]
      exact ⟨by rw [stat, same]; exact inv.dim, by rw [stat, same]; exact inv.sum, by rw [same]; exact inv.nonneg⟩

end Samples

end MyDev
