import MyDev.DeviceFifo

set_option autoImplicit false

namespace MyDev

open Library

-- A kernel thread in the else branch of its loop that no wake-up has reached:
-- schedule() will put it to sleep without a timeout, or has already.
def KtTask.Idle (task : KtTask) : Prop :=
  (task.pc = .unlock false ∨ task.pc = .sched false) ∧ task.state = .interruptible

instance (task : KtTask) : Decidable task.Idle := inferInstanceAs (Decidable (_ ∧ _))

theorem not_idle_running (task : KtTask) (running : task.state = .running) : ¬ task.Idle := by
  intro idle
  have asleep := idle.2
  rw [running] at asleep
  cases asleep

theorem not_idle_at (task : KtTask) (awayUnlock : task.pc ≠ .unlock false) (awaySched : task.pc ≠ .sched false) :
    ¬ task.Idle := by
  intro idle
  rcases idle.1 with unlocking | scheduled
  · exact awayUnlock unlocking
  · exact awaySched scheduled

section Threads

variable {ι : Type} [DecidableEq ι]

omit [DecidableEq ι] in
theorem my_open_run (s : Dev ι) : (myOpen s).devRun = s.devRun + 1 := by
  simp only [myOpen]
  split <;> rfl

omit [DecidableEq ι] in
theorem my_open_wakes (s : Dev ι) (k : Kt) (first : s.devRun = 0) : ((myOpen s).kts k).state = .running := by
  have reached : s.devRun + 1 = 1 := by omega
  simp only [myOpen, if_pos reached, Dev.wakeUpProcess]
  cases k <;> simp

omit [DecidableEq ι] in
theorem my_open_kts_later (s : Dev ι) (later : s.devRun ≠ 0) : (myOpen s).kts = s.kts := by
  have above : ¬ s.devRun + 1 = 1 := by omega
  simp only [myOpen, if_neg above]

-- Both threads leave for the untimed sleep only after finding dev_run zero.
-- From there an open either wakes them or still leaves dev_run below one.
def IdleClosed (s : Dev ι) : Prop := ∀ k, (s.kts k).Idle → s.devRun ≤ 0

omit [DecidableEq ι] in
theorem idle_closed_open (s : Dev ι) (inv : IdleClosed s) : IdleClosed (myOpen s) := by
  intro k idle
  by_cases first : s.devRun = 0
  · exact absurd idle (not_idle_running _ (my_open_wakes s k first))
  · rw [my_open_kts_later s first] at idle
    have closed := inv k idle
    rw [my_open_run]
    omega

theorem idle_closed_client (s next : Dev ι) (t : ι) (env : Env) (out : List (Event ι)) (inv : IdleClosed s)
    (move : ClientMove s t env next out) : IdleClosed next := by
  cases move with
  | opened => exact idle_closed_open s inv
  | closed =>
      intro k idle
      have closed := inv k idle
      change s.devRun - 1 ≤ 0
      omega
  | _ => exact inv

omit [DecidableEq ι] in
theorem kt_move_run (s next : Dev ι) (k : Kt) (out : List (Event ι)) (move : KtMove s k next out) :
    next.devRun = s.devRun := by
  cases move <;> rfl

omit [DecidableEq ι] in
theorem idle_closed_kt (s next : Dev ι) (k : Kt) (out : List (Event ι)) (inv : IdleClosed s)
    (move : KtMove s k next out) : IdleClosed next := by
  intro j idle
  by_cases here : j = k
  · subst here
    cases move with
    | proceed =>
        rw [goto_kt_kts, if_pos rfl] at idle
        split at idle <;> exact absurd idle (not_idle_at _ (by simp) (by simp))
    | test =>
        rw [goto_kt_kts, if_pos rfl] at idle
        split at idle
        · exact absurd idle (not_idle_at _ (by simp) (by simp))
        · rename_i untouched
          have closed : s.devRun = 0 := by simpa using untouched
          exact Int.le_of_eq closed
    | @release _ timed point =>
        rw [goto_kt_kts, if_pos rfl] at idle
        cases timed with
        | false => exact inv j ⟨.inl point, idle.2⟩
        | true => exact absurd idle (not_idle_at _ (by simp) (by simp))
    | acquire | sampled | statOops | resized | reallocOops | wake =>
        rw [goto_kt_kts, if_pos rfl] at idle
        exact absurd idle (not_idle_at _ (by simp) (by simp))
    | setState =>
        rw [put_kt_kts, if_pos rfl] at idle
        exact absurd idle (not_idle_at _ (by simp) (by simp))
  · have before : (s.kts j).Idle := by cases move <;> simpa [here] using idle
    rw [kt_move_run s next k out move]
    exact inv j before

theorem idle_closed_move (s next : Dev ι) (action : Action ι) (out : List (Event ι)) (inv : IdleClosed s)
    (move : DevMove s action next out) : IdleClosed next := by
  cases move with
  | client move => exact idle_closed_client s next _ _ out inv move
  | kt move => exact idle_closed_kt s next _ out inv move
  | @timer k point =>
      intro j idle
      by_cases here : j = k
      · rw [put_kt_kts, if_pos here] at idle
        exact absurd idle (not_idle_running _ rfl)
      · exact inv j (by simpa [here] using idle)
  | _ => exact inv

theorem kts_see_open {events : List (Event ι)} {s : Dev ι} (run : Run (device ι) Any (myModuleInit ι) events s)
    (opened : 1 ≤ s.devRun) (k : Kt) : ¬ (s.kts k).Idle := by
  have inv : IdleClosed s := by
    refine Run.invariant (fun _ s => IdleClosed s) ?_ ?_ run
    · intro j idle
      exact absurd idle (not_idle_running _ rfl)
    · intro _ s action next out _ inv _ stepped
      exact idle_closed_move s next action out inv (device_moves s next action out stepped)
  intro idle
  have closed := inv k idle
  omega

end Threads

theorem kts_see_open_reopened : ∃ events s, Run (device Bool) Any (myModuleInit Bool) events s ∧ s.devRun = 1 ∧
    (s.kts .ktStat).pc = .sched false ∧ (s.kts .ktRealloc).pc = .sched false ∧ ∀ k, ¬ (s.kts k).Idle := by
  obtain ⟨events, s, run, seen⟩ := exec_reaches_any (device Bool)
    (myModuleInit Bool)
    (List.replicate 5 (Action.kt .ktStat {}) ++ List.replicate 5 (Action.kt .ktRealloc {}) ++
      [Action.call true .myOpen] ++ alone true 3 ++ [Action.ret true, Action.call true .myClose] ++ alone true 3 ++
      [Action.ret true, Action.call false .myOpen] ++ alone false 3)
    (fun s _ => s.devRun = 1 ∧ (s.kts .ktStat).pc = .sched false ∧ (s.kts .ktRealloc).pc = .sched false)
    (by decide +kernel)
  obtain ⟨opened, stat, realloc⟩ :
      s.devRun = 1 ∧ (s.kts .ktStat).pc = .sched false ∧ (s.kts .ktRealloc).pc = .sched false := by simpa using seen
  exact ⟨events, s, run, opened, stat, realloc, kts_see_open run (by omega)⟩

end MyDev
