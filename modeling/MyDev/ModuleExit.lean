import MyDev.DeviceThreads

set_option autoImplicit false

namespace MyDev

open Library

-- The points of my_module_exit after the two mutex_destroy, which do nothing
-- in this kernel. kthread_stop sets the flag, wakes the thread once, and waits
-- until it has left its loop.
inductive ExitPc where
  | flag (k : Kt)
  | wake (k : Kt)
  | join (k : Kt)
  | deregister
  | done
deriving DecidableEq, Repr

structure Unload (ι : Type) where
  dev : Dev ι
  exit : ExitPc

-- Nobody has the device open any more: only the kernel threads still run.
inductive UnloadAction where
  | exit
  | kt (k : Kt) (env : Env)
  | timer (k : Kt)

section Unloading

variable {ι : Type}

def ExitPc.joined : Kt → ExitPc
  | .ktStat => .flag .ktRealloc
  | .ktRealloc => .deregister

def myModuleExit (s : Unload ι) : Option (Unload ι) :=
  match s.exit with
  | .flag k => some ⟨s.dev.putKt k { s.dev.kts k with stop := true }, .wake k⟩
  | .wake k => some ⟨s.dev.wakeUpProcess k, .join k⟩
  | .join k => if (s.dev.kts k).pc = .exited then some { s with exit := .joined k } else none
  | .deregister => some { s with exit := .done }
  | .done => none

def unload (ι : Type) : Machine (Unload ι) UnloadAction (Event ι) where
  step
    | s, .exit => (myModuleExit s).map (·, [])
    | s, .kt k env => (ktStep s.dev k env).map fun moved => ({ s with dev := moved.1 }, moved.2)
    | s, .timer k => (timerStep s.dev k).map fun moved => ({ s with dev := moved.1 }, moved.2)

def ExitPc.woken : ExitPc → Kt → Bool
  | .flag .ktStat, _ | .wake .ktStat, _ => false
  | .join .ktStat, k | .flag .ktRealloc, k | .wake .ktRealloc, k => k = .ktStat
  | .join .ktRealloc, _ | .deregister, _ | .done, _ => true

-- Past the test of kthread_should_stop, with set_current_state still to come:
-- a wake-up that finds the thread here is undone by set_current_state.
def KtPc.unwarned : KtPc → Bool
  | .lock | .setState => true
  | _ => false

def WakeSeen (s : Unload ι) : UnloadAction → Prop
  | .exit => ∀ k, s.exit = .wake k → (s.dev.kts k).pc.unwarned = false
  | _ => True

structure KtTask.Stopping (task : KtTask) : Prop where
  stop : task.stop = true
  warned : task.pc.unwarned = false
  running : task.state = .running

inductive UnloadMove (s : Unload ι) : UnloadAction → Unload ι → Prop where
  | flag {k : Kt} (point : s.exit = .flag k) :
      UnloadMove s .exit ⟨s.dev.putKt k { s.dev.kts k with stop := true }, .wake k⟩
  | wake {k : Kt} (point : s.exit = .wake k) : UnloadMove s .exit ⟨s.dev.wakeUpProcess k, .join k⟩
  | join {k : Kt} (point : s.exit = .join k) : UnloadMove s .exit { s with exit := .joined k }
  | deregister (point : s.exit = .deregister) : UnloadMove s .exit { s with exit := .done }
  | kt {k : Kt} {env : Env} {dev : Dev ι} {out : List (Event ι)} (move : KtMove s.dev k dev out) :
      UnloadMove s (.kt k env) { s with dev := dev }
  | timer {k : Kt} : UnloadMove s (.timer k) { s with dev := s.dev.wakeUpProcess k }

theorem unload_moves (s next : Unload ι) (action : UnloadAction) (out : List (Event ι))
    (stepped : (unload ι).step s action = some (next, out)) : UnloadMove s action next := by
  cases action with
  | exit =>
      simp only [unload, Option.map_eq_some_iff, Prod.mk.injEq] at stepped
      obtain ⟨_, exited, rfl, _⟩ := stepped
      unfold myModuleExit at exited
      cases point : s.exit with
      | flag k => rw [point] at exited; cases exited; exact .flag point
      | wake k => rw [point] at exited; cases exited; exact .wake point
      | join k =>
          simp only [point] at exited
          split at exited
          · cases exited
            exact .join point
          · cases exited
      | deregister => rw [point] at exited; cases exited; exact .deregister point
      | done => rw [point] at exited; cases exited
  | kt k env =>
      simp only [unload, Option.map_eq_some_iff, Prod.mk.injEq] at stepped
      obtain ⟨⟨dev, out⟩, moved, rfl, _⟩ := stepped
      exact .kt (kt_step_moves s.dev dev k env out moved)
  | timer k =>
      simp only [unload, Option.map_eq_some_iff, Prod.mk.injEq, timerStep] at stepped
      obtain ⟨_, moved, rfl, _⟩ := stepped
      split at moved
      · cases moved
        exact .timer
      · cases moved

theorem wake_up_process_stop (s : Dev ι) (j k : Kt) : ((s.wakeUpProcess k).kts j).stop = (s.kts j).stop := by
  by_cases here : j = k
  · subst here
    simp [Dev.wakeUpProcess]
  · simp [Dev.wakeUpProcess, here]

theorem stopping_wakes (s : Dev ι) (j k : Kt) (inv : (s.kts j).Stopping) : ((s.wakeUpProcess k).kts j).Stopping := by
  by_cases here : j = k
  · subst here
    simp only [Dev.wakeUpProcess, put_kt_kts, if_pos]
    exact ⟨inv.stop, inv.warned, rfl⟩
  · simpa [Dev.wakeUpProcess, here] using inv

theorem stopping_kt (s next : Dev ι) (j k : Kt) (out : List (Event ι)) (inv : (s.kts j).Stopping)
    (move : KtMove s k next out) : (next.kts j).Stopping := by
  by_cases here : j = k
  · subst here
    have warned := inv.warned
    cases move with
    | acquire point | setState point =>
        rw [point] at warned
        cases warned
    | proceed =>
        rw [goto_kt_kts, if_pos rfl, if_pos inv.stop]
        exact ⟨inv.stop, rfl, inv.running⟩
    | test =>
        rw [goto_kt_kts, if_pos rfl]
        exact ⟨inv.stop, by split <;> rfl, inv.running⟩
    | sampled | statOops | resized | reallocOops | release | wake =>
        rw [goto_kt_kts, if_pos rfl]
        exact ⟨inv.stop, rfl, inv.running⟩
  · cases move <;> simpa [here] using inv

structure UnloadInv (s : Unload ι) : Prop where
  flagged : ∀ k, s.exit = .wake k → (s.dev.kts k).stop = true
  stopping : ∀ k, s.exit.woken k = true → (s.dev.kts k).Stopping

theorem kt_move_stop (s next : Dev ι) (j k : Kt) (out : List (Event ι)) (move : KtMove s k next out) :
    (next.kts j).stop = (s.kts j).stop := by
  by_cases here : j = k
  · subst here
    cases move <;> simp
  · cases move <;> simp [here]

theorem unload_inv_move (s next : Unload ι) (action : UnloadAction) (inv : UnloadInv s) (seen : WakeSeen s action)
    (move : UnloadMove s action next) : UnloadInv next := by
  cases move with
  | @flag k point =>
      constructor
      · intro j same
        cases same
        simp
      · intro j woken
        have before : s.exit.woken j = true := by rw [point]; cases k <;> exact woken
        have apart : j ≠ k := by
          rintro rfl
          cases j <;> cases woken
        simpa [apart] using inv.stopping j before
  | @wake k point =>
      constructor
      · intro j same
        cases same
      · intro j woken
        by_cases here : j = k
        · subst here
          simp only [Dev.wakeUpProcess, put_kt_kts, if_pos]
          exact ⟨inv.flagged j point, seen j point, rfl⟩
        · apply stopping_wakes
          apply inv.stopping
          rw [point]
          cases j <;> cases k <;> first | exact absurd rfl here | exact woken
  | @join k point =>
      constructor
      · intro j same
        cases k <;> cases same
      · intro j woken
        apply inv.stopping
        rw [point]
        cases k <;> exact woken
  | deregister point =>
      constructor
      · intro j same
        cases same
      · intro j _
        apply inv.stopping
        rw [point]
        rfl
  | kt move =>
      constructor
      · intro j same
        rw [kt_move_stop s.dev _ j _ _ move]
        exact inv.flagged j same
      · intro j woken
        exact stopping_kt s.dev _ j _ _ (inv.stopping j woken) move
  | @timer k =>
      constructor
      · intro j same
        rw [wake_up_process_stop]
        exact inv.flagged j same
      · intro j woken
        exact stopping_wakes s.dev j k (inv.stopping j woken)

theorem stop_not_missed {dev : Dev ι} {events : List (Event ι)} {s : Unload ι}
    (run : Run (unload ι) WakeSeen ⟨dev, .flag .ktStat⟩ events s) (k : Kt) (issued : s.exit.woken k = true) :
    ¬ (s.dev.kts k).Idle := by
  have inv : UnloadInv s := by
    refine Run.invariant (fun _ s => UnloadInv s) ?_ ?_ run
    · constructor
      · intro j same
        cases same
      · intro j woken
        cases woken
    · intro _ s action next out _ inv seen stepped
      exact unload_inv_move s next action inv seen (unload_moves s next action out stepped)
  exact not_idle_running _ (inv.stopping k issued).running

def wakeSeen (s : Unload ι) : UnloadAction → Bool
  | .exit => !(s.dev.kts .ktStat).pc.unwarned && !(s.dev.kts .ktRealloc).pc.unwarned
  | _ => true

theorem wake_seen_sound (s : Unload ι) (action : UnloadAction) (checked : wakeSeen s action = true) :
    WakeSeen s action := by
  cases action with
  | exit =>
      simp only [wakeSeen, Bool.and_eq_true, Bool.not_eq_true'] at checked
      intro k _
      cases k
      · exact checked.1
      · exact checked.2
  | kt | timer => trivial

end Unloading

theorem stop_not_missed_both_asleep : ∃ events s,
    Run (unload Bool) WakeSeen ⟨myModuleInit Bool, .flag .ktStat⟩ events s ∧ s.exit = .done ∧ s.dev.devRun = 0 ∧
      ∀ k, ¬ (s.dev.kts k).Idle := by
  obtain ⟨events, s, run, seen⟩ := exec_reaches (unload Bool) wakeSeen WakeSeen wake_seen_sound
    ⟨myModuleInit Bool, .flag .ktStat⟩
    (List.replicate 5 (UnloadAction.kt .ktStat {}) ++ List.replicate 5 (UnloadAction.kt .ktRealloc {}) ++
      List.replicate 2 UnloadAction.exit ++ List.replicate 2 (UnloadAction.kt .ktStat {}) ++
      List.replicate 3 UnloadAction.exit ++ List.replicate 2 (UnloadAction.kt .ktRealloc {}) ++
      List.replicate 2 UnloadAction.exit)
    (fun s _ => s.exit = .done ∧ s.dev.devRun = 0) (by decide +kernel)
  obtain ⟨finished, closed⟩ : s.exit = .done ∧ s.dev.devRun = 0 := by simpa using seen
  refine ⟨events, s, run, finished, closed, ?_⟩
  intro k
  exact stop_not_missed run k (by rw [finished]; rfl)

-- kt_stat has found its stop flag clear and is about to lock when
-- kthread_stop sets the flag and wakes it. It then sets its state, finds
-- dev_run zero and sleeps, with rmmod waiting for it and no wake-up to come.
theorem stop_missed : ∃ events s, Run (unload Bool) Any ⟨myModuleInit Bool, .flag .ktStat⟩ events s ∧
    s.exit = .join .ktStat ∧ s.dev.devRun = 0 ∧ (s.dev.kts .ktStat).stop = true ∧
    (s.dev.kts .ktStat).pc = .sched false ∧ (s.dev.kts .ktStat).state = .interruptible := by
  obtain ⟨events, s, run, seen⟩ := exec_reaches_any (unload Bool)
    ⟨myModuleInit Bool, .flag .ktStat⟩
    ([UnloadAction.kt .ktStat {}, .exit, .exit] ++ List.replicate 4 (UnloadAction.kt .ktStat {}))
    (fun s _ => s.exit = .join .ktStat ∧ s.dev.devRun = 0 ∧ (s.dev.kts .ktStat).stop = true ∧
      (s.dev.kts .ktStat).pc = .sched false ∧ (s.dev.kts .ktStat).state = .interruptible) (by decide +kernel)
  exact ⟨events, s, run, by simpa using seen⟩

end MyDev
