import MyDev.PipelineDrain

set_option autoImplicit false

namespace MyDev

open Library

def Pipe.threads (s : Pipe) : Stage → Int
  | .source => s.nsrc
  | .elaborate => s.nela
  | .sink => s.nsnk

theorem threads_count (s : Pipe) (stage : Stage) : (s.threads stage).toNat = s.count stage := by
  cases stage <;> rfl

theorem step_pos (prog : Prog) (stage : Stage) : 1 ≤ prog.step stage := by
  cases prog <;> cases stage <;> decide

theorem step_one (prog : Prog) : ∃ stage, prog.step stage = 1 := by
  cases prog with
  | writer => exact ⟨.sink, rfl⟩
  | reader => exact ⟨.source, rfl⟩

theorem quotient_fits (prog : Prog) (stage : Stage) (arg : Int) (nonneg : 0 ≤ arg) (small : arg < intMax) :
    Fits (arg.tdiv (prog.step stage) + 1) := by
  have step := step_pos prog stage
  have least := Int.ediv_nonneg nonneg (by omega : 0 ≤ prog.step stage)
  have most := Int.ediv_le_self (prog.step stage) nonneg
  rw [Int.tdiv_eq_ediv_of_nonneg nonneg]
  exact ⟨by unfold intMin; omega, by omega⟩

theorem staffed_bounds (prog : Prog) (arg : Int)
    (staffed : ∀ stage, Fits (arg.tdiv (prog.step stage) + 1) ∧ 1 ≤ prog.count (programStart arg) stage) :
    0 ≤ arg ∧ arg < intMax := by
  obtain ⟨stage, step⟩ := step_one prog
  obtain ⟨fits, positive⟩ := staffed stage
  rw [step, Int.tdiv_one] at fits
  have small := fits.2
  refine ⟨?_, by omega⟩
  by_cases zero : arg = 0
  · omega
  · simp only [Prog.count, programStart, zero, decide_false, Bool.false_eq_true, if_false, threadCount, step, Int.tdiv_one,
      wrap_of_fits _ fits] at positive
    split at positive <;> rename_i below
    · omega
    · have max : 1 ≤ prog.max stage := by cases prog <;> cases stage <;> decide
      omega

theorem threads_run {prog : Prog} {ok : Pipe → UserAction → Prop} {arg : Int} {events : List UserEvent} {s : Pipe}
    (run : Run (pipeline prog) ok (programStart arg) events s) (nonneg : 0 ≤ arg) (small : arg < intMax)
    (past : s.main = .init ∨ 0 < s.main.phase) (stage : Stage) : 1 ≤ s.threads stage ∧ s.threads stage ≤ prog.max stage := by
  have inv : CountInv (fun todo _ => 0 ≤ todo ∧ todo < intMax) (fun _ count => 1 ≤ count) s := by
    refine count_inv_run ⟨nonneg, small⟩ ?_ (fun _ _ _ _ _ _ => by decide) run
    intro s known stage
    have positive := prog_count_pos prog s stage known.1 known.2
    omega
  have positive := inv.counted past stage
  have bounded := count_bound_run run stage
  rw [← threads_count] at positive bounded
  omega

theorem stages_staffed_iff (prog : Prog) (arg : Int) :
    ((∀ stage, Fits (arg.tdiv (prog.step stage) + 1) ∧ 1 ≤ prog.count (programStart arg) stage ∧
        prog.count (programStart arg) stage ≤ prog.max stage) ↔ 0 ≤ arg ∧ arg < intMax) ∧
      (0 ≤ arg → arg < intMax → ∀ events s, Run (pipeline prog) Any (programStart arg) events s →
        s.main = .init ∨ 0 < s.main.phase → ∀ stage, 1 ≤ s.threads stage ∧ s.threads stage ≤ prog.max stage) := by
  refine ⟨⟨?_, ?_⟩, ?_⟩
  · intro staffed
    exact staffed_bounds prog arg fun stage => ⟨(staffed stage).1, (staffed stage).2.1⟩
  · rintro ⟨nonneg, small⟩ stage
    exact ⟨quotient_fits prog stage arg nonneg small, prog_count_pos prog (programStart arg) stage nonneg small,
      prog_count_le prog (programStart arg) stage⟩
  · intro nonneg small events s run past
    exact threads_run run nonneg small past

def startSchedule : List UserAction := [.go .main {}, .go .main {}, .call .main, .ret .main 0 [], .go .main {}]

theorem stages_staffed_iff_seven : ∃ events s, Run (pipeline .writer) Any (programStart 7) events s ∧ s.nsrc = 1 ∧ s.nela = 2 ∧
    ∀ stage, 1 ≤ s.threads stage ∧ s.threads stage ≤ Prog.writer.max stage := by
  obtain ⟨events, s, run, seen⟩ := exec_reaches_any (pipeline .writer) (programStart 7) startSchedule
    (fun s _ => s.main = .init && s.nsrc = 1 && s.nela = 2) (by decide +kernel)
  simp only [Bool.and_eq_true, decide_eq_true_eq] at seen
  obtain ⟨⟨point, sources⟩, elaborators⟩ := seen
  exact ⟨events, s, run, sources, elaborators,
    (stages_staffed_iff .writer 7).2 (by decide) (by decide) events s run (.inl point)⟩

-- The Writer started with INT_MAX overflows in todo / S_WT + 1 and has no
-- write_dev thread for all its strings; started with -1 it has none either.
theorem stage_without_threads :
    ¬ Fits (intMax.tdiv (Prog.writer.step .sink) + 1) ∧
      (∃ events s, Run (pipeline .writer) Any (programStart intMax) events s ∧ s.main = .init ∧ s.nsrc = 4 ∧ s.nela = 10 ∧
        s.nsnk < 1) ∧
      ∃ events s, Run (pipeline .writer) Any (programStart (-1)) events s ∧ s.main = .init ∧ s.nsnk = 0 := by
  refine ⟨by unfold Fits; decide, ?_, ?_⟩
  · obtain ⟨events, s, run, seen⟩ := exec_reaches_any (pipeline .writer) (programStart intMax) startSchedule
      (fun s _ => s.main = .init && s.nsrc = 4 && s.nela = 10 && s.nsnk < 1) (by decide +kernel)
    simp only [Bool.and_eq_true, decide_eq_true_eq] at seen
    exact ⟨events, s, run, seen.1.1.1, seen.1.1.2, seen.1.2, seen.2⟩
  · obtain ⟨events, s, run, seen⟩ := exec_reaches_any (pipeline .writer) (programStart (-1)) startSchedule
      (fun s _ => s.main = .init && s.nsnk = 0) (by decide +kernel)
    simp only [Bool.and_eq_true, decide_eq_true_eq] at seen
    exact ⟨events, s, run, seen.1, seen.2⟩

end MyDev
