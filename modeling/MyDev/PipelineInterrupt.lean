import MyDev.PipelineClose
import MyDev.PipelineTermination

set_option autoImplicit false

namespace MyDev

open Library

-- Where catcher_SIGINT has not tested control yet, and where it has found
-- itself the first and is on its way to `todo = 0`.
def HandPc.deciding : HandPc → Bool
  | .load | .store _ | .check => true
  | _ => false

def HandPc.obeying : HandPc → Bool
  | .lockR | .bodyR => true
  | _ => false

def Pipe.deciding (s : Pipe) (t : Tid) : Bool := (s.hands t).any HandPc.deciding

-- No signal arrives while another handler is between its first statement and its
-- test of control.
def Apart (prog : Prog) (s : Pipe) : UserAction → Prop
  | .sigint _ => ∀ u ∈ prog.tids, s.deciding u = false
  | _ => True

instance (prog : Prog) (s : Pipe) (action : UserAction) : Decidable (Apart prog s action) := by
  unfold Apart
  split <;> infer_instance

def Heeding (s : Pipe) : Prop := (∃ u pc, s.hands u = some pc ∧ pc.obeying = true) ∨ Ended s

structure CtrlInv (s : Pipe) : Prop where
  sole : ∀ t u, s.deciding t = true → s.deciding u = true → t = u
  stored : ∀ t value, s.hands t = some (.store value) → value = s.control
  first : 1 ≤ s.control → (s.control = 1 ∧ ∃ t, s.hands t = some .check) ∨ Heeding s
  closing : ∀ t pc, s.hands t = some pc → pc.closing = true → Ended s

theorem deciding_at (s : Pipe) (t : Tid) (pc : HandPc) (point : s.hands t = some pc) : s.deciding t = pc.deciding := by
  simp [Pipe.deciding, point]

theorem deciding_busy (s : Pipe) (t : Tid) (deciding : s.deciding t = true) : s.hands t ≠ none := by
  intro idle
  simp [Pipe.deciding, idle] at deciding

theorem apart_undecided (prog : Prog) (s : Pipe) (t u : Tid) (inv : JoinInv s) (locks : MutexInv s) (bound : CountBound prog s)
    (apart : Apart prog s (.sigint t)) : s.deciding u = false := by
  by_contra decides
  have deciding := Bool.eq_true_of_not_eq_false decides
  have member := tids_mem prog s u (pool_inside prog s inv bound) (locks.alive u (deciding_busy s u deciding))
  exact decides (apart u member)

theorem heeding_step (prog : Prog) (s next : Pipe) (action : UserAction) (out : List UserEvent) (locks : MutexInv s)
    (step : PipeStep prog s action next out) (heeding : Heeding s) : Heeding next := by
  rcases heeding with ⟨u, pc, point, obeying⟩ | ended
  · cases hand_to prog s next action out step u with
    | same kept => exact .inl ⟨u, pc, kept.trans point, obeying⟩
    | starts idle => cases idle.symm.trans point
    | moves _ move =>
        cases move with
        | acquireR => exact .inl ⟨u, .bodyR, Function.update_self .., rfl⟩
        | bodyR was => exact .inr (body_ended s u locks was)
        | load was | store was | check was | acquireE was | unlockR was | bodyE was | unlockE was =>
            cases was.symm.trans point
            cases obeying
  · exact .inr (ended_move prog s next action out ended (step_moves prog s next action out step)).1

theorem first_heeding (s : Pipe) (inv : CtrlInv s) (counted : 1 ≤ s.control) (unchecked : ∀ u, s.hands u ≠ some .check) :
    Heeding s := by
  rcases inv.first counted with ⟨_, u, checking⟩ | heeding
  · exact absurd checking (unchecked u)
  · exact heeding

theorem sole_unchecked (s : Pipe) (t u : Tid) (pc : HandPc) (inv : CtrlInv s) (point : s.hands t = some pc)
    (deciding : pc.deciding = true) (before : pc ≠ .check) : s.hands u ≠ some .check := by
  intro checking
  obtain rfl := inv.sole t u (by rw [deciding_at s t pc point, deciding]) (by rw [deciding_at s u .check checking]; rfl)
  exact before (Option.some.inj (point.symm.trans checking))

section Handler

variable {s next : Pipe} {t : Tid}

theorem hand_deciding (u : Tid) (move : HandMove s t next) (now : next.deciding u = true) : s.deciding u = true := by
  by_cases here : u = t
  · subst here
    cases move with
    | load was | store was | check was => rw [deciding_at s u _ was]; rfl
    | _ => simp [Pipe.deciding, Pipe.setHand, HandPc.deciding] at now
  · rwa [Pipe.deciding, hand_elsewhere s next t u move here] at now

theorem hand_stored (u : Tid) (value : Int) (inv : CtrlInv s) (move : HandMove s t next)
    (now : next.hands u = some (.store value)) : value = next.control := by
  by_cases here : u = t
  · subst here
    cases move with
    | load =>
        cases (Function.update_self ..).symm.trans now
        rfl
    | check =>
        have ended := (Function.update_self ..).symm.trans now
        split at ended <;> cases ended
    | _ => cases (Function.update_self ..).symm.trans now
  · have before := (hand_elsewhere s next t u move here).symm.trans now
    cases move with
    | store was =>
        exact absurd (inv.sole u t (by rw [deciding_at s u _ before]; rfl) (by rw [deciding_at s t _ was]; rfl)) here
    | _ => exact inv.stored u value before

theorem hand_first (inv : CtrlInv s) (locks : MutexInv s) (heeds : Heeding s → Heeding next) (move : HandMove s t next)
    (counted : 1 ≤ next.control) : (next.control = 1 ∧ ∃ u, next.hands u = some .check) ∨ Heeding next := by
  cases move with
  | load was =>
      exact .inr (heeds (first_heeding s inv counted fun u => sole_unchecked s t u _ inv was rfl (by simp)))
  | store was =>
      obtain rfl := inv.stored t _ was
      by_cases again : 1 ≤ s.control
      · exact .inr (heeds (first_heeding s inv again fun u => sole_unchecked s t u _ inv was rfl (by simp)))
      · have one : s.control + 1 = 1 := Int.le_antisymm (by omega) counted
        exact .inl ⟨one, t, Function.update_self ..⟩
  | check was =>
      by_cases again : 1 < s.control
      · rcases inv.first counted with ⟨one, _⟩ | heeding
        · omega
        · exact .inr (heeds heeding)
      · refine .inr (.inl ⟨t, .lockR, ?_, rfl⟩)
        simp only [Pipe.setHand, Function.update_self, if_neg again]
  | acquireR was => exact .inr (heeds (.inl ⟨t, _, was, rfl⟩))
  | bodyR was => exact .inr (.inr (body_ended s t locks was))
  | acquireE was | unlockR was | bodyE was | unlockE was => exact .inr (heeds (.inr (inv.closing t _ was rfl)))

theorem hand_closing (u : Tid) (pc : HandPc) (inv : CtrlInv s) (locks : MutexInv s) (move : HandMove s t next)
    (now : next.hands u = some pc) (closing : pc.closing = true) : Ended next := by
  by_cases here : u = t
  · subst here
    cases move with
    | load | store | acquireR =>
        cases (Function.update_self ..).symm.trans now
        cases closing
    | check =>
        have tested := (Function.update_self ..).symm.trans now
        split at tested <;> cases tested
        cases closing
    | bodyR was => exact body_ended s u locks was
    | acquireE was => exact hand_ended s _ u (inv.closing u _ was rfl) (.acquireE was (by assumption))
    | unlockR was => exact hand_ended s _ u (inv.closing u _ was rfl) (.unlockR was)
    | bodyE was => exact hand_ended s _ u (inv.closing u _ was rfl) (.bodyE was)
    | unlockE => cases (Function.update_self ..).symm.trans now
  · exact hand_ended s next t (inv.closing u pc ((hand_elsewhere s next t u move here).symm.trans now) closing) move

theorem ctrl_inv_hand (inv : CtrlInv s) (locks : MutexInv s) (heeds : Heeding s → Heeding next) (move : HandMove s t next) :
    CtrlInv next where
  sole a b first second := inv.sole a b (hand_deciding a move first) (hand_deciding b move second)
  stored u value := hand_stored u value inv move
  first := hand_first inv locks heeds move
  closing u pc := hand_closing u pc inv locks move

end Handler

theorem ctrl_inv_sigint (s : Pipe) (t : Tid) (inv : CtrlInv s) (undecided : ∀ u, s.deciding u = false)
    (heeds : Heeding s → Heeding (s.setHand t (some .load))) (ends : Ended s → Ended (s.setHand t (some .load))) :
    CtrlInv (s.setHand t (some .load)) := by
  have elsewhere : ∀ u, u ≠ t → (s.setHand t (some .load)).hands u = s.hands u := fun u other =>
    Function.update_of_ne other ..
  have mine : (s.setHand t (some .load)).hands t = some .load := Function.update_self ..
  have alone : ∀ u, (s.setHand t (some .load)).deciding u = true → u = t := by
    intro u deciding
    by_contra other
    rw [Pipe.deciding, elsewhere u other] at deciding
    cases (undecided u).symm.trans deciding
  refine ⟨fun a b first second => (alone a first).trans (alone b second).symm, fun u value point => ?_, fun counted => ?_,
    fun u pc point closing => ?_⟩
  · by_cases here : u = t
    · subst here
      cases mine.symm.trans point
    · exact inv.stored u value ((elsewhere u here).symm.trans point)
  · refine .inr (heeds (first_heeding s inv counted fun u checking => ?_))
    have deciding := deciding_at s u .check checking
    cases (undecided u).symm.trans deciding
  · by_cases here : u = t
    · subst here
      cases mine.symm.trans point
      cases closing
    · exact ends (inv.closing u pc ((elsewhere u here).symm.trans point) closing)

theorem base_control (prog : Prog) (s next : Pipe) (t : Tid) (out : List UserEvent) (move : BaseMove prog s t next out) :
    next.control = s.control ∨ t = .main ∧ s.main = .ready ∧ next.control = 0 := by
  cases move with
  | source move =>
      cases move with
      | create _ _ _ signalled | failed _ _ _ signalled | last _ _ _ _ signalled | receive _ _ _ _ signalled =>
          obtain ⟨_, rfl, _⟩ := signal_r_spec _ _ _ signalled
          exact .inl rfl
      | _ => exact .inl rfl
  | elaborate move =>
      cases move with
      | insert _ signalled =>
          obtain ⟨_, rfl, _⟩ := signal_e_spec _ _ _ signalled
          exact .inl rfl
      | _ => exact .inl rfl
  | sink move => cases move <;> exact .inl rfl
  | main move =>
      cases move with
      | ready point => exact .inr ⟨rfl, point, rfl⟩
      | @create stage => cases stage <;> exact .inl rfl
      | relAcquire _ free => rcases lock_main_spec _ _ _ _ free with rfl | rfl <;> exact .inl rfl
      | @relSet buf | @relUnlock buf => cases buf <;> exact .inl rfl
      | _ => exact .inl rfl

theorem ready_idle (s : Pipe) (u : Tid) (inv : JoinInv s) (locks : MutexInv s) (idle : s.hands .main = none)
    (point : s.main = .ready) : s.hands u = none := by
  by_contra busy
  by_cases here : u = .main
  · exact busy (here ▸ idle)
  · have alone := (early_alone s u .raw inv (by rw [point]; rfl) here).2
    rw [locks.alive u busy] at alone
    cases alone

theorem ctrl_inv_still (s next : Pipe) (inv : CtrlInv s) (hands : next.hands = s.hands)
    (control : next.control = s.control ∨ (∀ u, s.hands u = none) ∧ next.control = 0) (heeds : Heeding s → Heeding next)
    (ends : Ended s → Ended next) : CtrlInv next := by
  refine ⟨fun a b first second => ?_, fun u value point => ?_, fun counted => ?_, fun u pc point closing => ?_⟩
  · rw [Pipe.deciding, hands] at first second
    exact inv.sole a b first second
  · rw [hands] at point
    rcases control with same | ⟨none, _⟩
    · rw [same, inv.stored u value point]
    · cases (none u).symm.trans point
  · rcases control with same | ⟨_, zero⟩
    · rw [same] at counted ⊢
      rw [hands]
      exact (inv.first counted).imp_right heeds
    · omega
  · rw [hands] at point
    exact ends (inv.closing u pc point closing)

theorem ctrl_inv_step (prog : Prog) (s next : Pipe) (action : UserAction) (out : List UserEvent) (join : JoinInv s)
    (locks : MutexInv s) (bound : CountBound prog s) (inv : CtrlInv s) (apart : Apart prog s action)
    (step : PipeStep prog s action next out) : CtrlInv next := by
  have heeds := heeding_step prog s next action out locks step
  have ends : Ended s → Ended next := fun ended =>
    (ended_move prog s next action out ended (step_moves prog s next action out step)).1
  cases step with
  | base idle move =>
      refine ctrl_inv_still s next inv (base_hands prog s next _ out move) ?_ heeds ends
      refine (base_control prog s next _ out move).imp_right fun reset => ?_
      obtain ⟨rfl, point, zero⟩ := reset
      exact ⟨fun u => ready_idle s u join locks idle point, zero⟩
  | hand move => exact ctrl_inv_hand inv locks heeds move
  | call _ move => exact ctrl_inv_still s next inv (call_same prog s next _ _ .raw move).1 (.inl (by cases move <;> rfl)) heeds ends
  | ret move => exact ctrl_inv_still s next inv (ret_same s next _ _ _ out .raw move).1 (.inl (by cases move <;> rfl)) heeds ends
  | spuriousR | spuriousE => exact ctrl_inv_still s _ inv rfl (.inl rfl) heeds ends
  | @sigint t => exact ctrl_inv_sigint s t inv (fun u => apart_undecided prog s t u join locks bound apart) heeds ends

theorem caught_step (prog : Prog) (s next : Pipe) (action : UserAction) (out : List UserEvent) (t : Tid) (locks : MutexInv s)
    (inv : CtrlInv s) (step : PipeStep prog s action next out) (caught : s.hands t ≠ none ∨ Heeding s) :
    next.hands t ≠ none ∨ Heeding next := by
  have heeds := heeding_step prog s next action out locks step
  rcases caught with busy | heeding
  · cases hand_to prog s next action out step t with
    | same kept => exact .inl (by rwa [kept])
    | starts _ started => exact .inl (by simp [started])
    | moves _ move =>
        cases move with
        | check =>
            by_cases again : 1 < s.control
            · rcases inv.first (by omega) with ⟨one, _⟩ | heeding
              · omega
              · exact .inr (heeds heeding)
            · exact .inl (by simp [Pipe.setHand, again])
        | unlockE was => exact .inr (heeds (.inr (inv.closing t _ was rfl)))
        | _ => exact .inl (by simp [Pipe.setHand])
  · exact .inr (heeds heeding)

section Runs

variable {prog : Prog} {arg : Int} {events more : List UserEvent} {s final : Pipe}

theorem ctrl_inv_run (run : Run (pipeline prog) (Apart prog) (programStart arg) events s) : CtrlInv s := by
  refine Run.invariant (fun _ s => CtrlInv s) ?_ ?_ run
  · refine ⟨fun t u deciding => (by cases deciding), fun t value point => (by cases point), fun counted => ?_,
      fun t pc point => (by cases point)⟩
    simp [programStart] at counted
  · intro _ s action next out before inv apart stepped
    exact ctrl_inv_step prog s next action out (join_inv_run before) (mutex_inv_run before) (count_bound_run before) inv
      apart (pipe_steps prog s next action out stepped)

theorem caught_run (run : Run (pipeline prog) (Apart prog) (programStart arg) events s) (t : Tid) (caught : s.hands t ≠ none)
    (later : Run (pipeline prog) (Apart prog) s more final) : final.hands t ≠ none ∨ Heeding final := by
  refine Run.invariant (fun _ s => s.hands t ≠ none ∨ Heeding s) (.inl caught) ?_ later
  intro _ s action next out before caught _ stepped
  exact caught_step prog s next action out t (mutex_inv_run (run.trans before)) (ctrl_inv_run (run.trans before))
    (pipe_steps prog s next action out stepped) caught

theorem ended_quiet (ended : Ended s) (later : Run (pipeline prog) Any s more final) : more.flatMap UserEvent.puts = [] := by
  have both : Ended final ∧ more.flatMap UserEvent.puts = [] := by
    refine Run.invariant (fun more s => Ended s ∧ more.flatMap UserEvent.puts = []) ⟨ended, rfl⟩ ?_ later
    rintro _ s action next out _ ⟨ended, quiet⟩ _ stepped
    obtain ⟨still, none⟩ := ended_move prog s next action out ended (pipe_moves prog s next action out stepped)
    exact ⟨still, by rw [List.flatMap_append, quiet, none]; rfl⟩
  exact both.2

theorem ctrl_c_heeded (run : Run (pipeline prog) (Apart prog) (programStart arg) events s) (t : Tid) (caught : s.hands t ≠ none)
    (later : Run (pipeline prog) (Apart prog) s more final) (returned : final.hands t = none) :
    (∃ u, final.hands u = some .lockR ∨ final.hands u = some .bodyR) ∨
    final.loop = false ∧ ∀ schedule state after, (pipeline prog).exec (fun _ _ => true) final schedule = some (state, after) →
      after.flatMap UserEvent.puts = [] ∧ schedule.length ≤ final.effort counted prog + total UserAction.charge schedule := by
  rcases caught_run run t caught later with busy | ⟨u, pc, point, obeying⟩ | ended
  · exact absurd returned busy
  · refine .inl ⟨u, ?_⟩
    cases pc with
    | lockR => exact .inl point
    | bodyR => exact .inr point
    | _ => cases obeying
  · refine .inr ⟨ended.loop, fun schedule state after done => ⟨?_, ?_⟩⟩
    · exact ended_quiet ended (exec_run (pipeline prog) (fun _ _ => true) Any (fun _ _ _ => trivial) _ _ _ _ done)
    · have bound := effort_bounds ((run.trans later).weaken fun _ _ _ => trivial) ended.loop done
      omega

end Runs

def loopStarted : List UserAction :=
  steps .main 2 ++ [UserAction.call .main, .ret .main 0 []] ++ steps .main 3

-- Two signals: main's handler is the first, the source's returns at once.
theorem ctrl_c_heeded_twice :
    ∃ events s more final, Run (pipeline .writer) (Apart .writer) (programStart 0) events s ∧ s.hands .main ≠ none ∧
      Run (pipeline .writer) (Apart .writer) s more final ∧ final.hands .main = none ∧
      ((∃ u, final.hands u = some .lockR ∨ final.hands u = some .bodyR) ∨
        final.loop = false ∧ ∀ schedule state after,
          (pipeline .writer).exec (fun _ _ => true) final schedule = some (state, after) →
            after.flatMap UserEvent.puts = [] ∧
              schedule.length ≤ final.effort counted .writer + total UserAction.charge schedule) := by
  obtain ⟨events, s, run, seen⟩ := exec_reaches (pipeline .writer) (fun s action => decide (Apart .writer s action))
    (Apart .writer) (fun _ _ => of_decide_eq_true) (programStart 0) (loopStarted ++ [UserAction.sigint .main] ++ steps .main 3)
    (fun s _ => s.hands .main ≠ none &&
      ((pipeline .writer).exec (fun s action => decide (Apart .writer s action)) s
        ([UserAction.sigint (.source 0)] ++ steps (.source 0) 3 ++ steps .main 6)).any
          fun result => result.1.hands .main = none) (by decide +kernel)
  simp only [Bool.and_eq_true, decide_eq_true_eq] at seen
  obtain ⟨caught, continued⟩ := seen
  obtain ⟨more, final, later, returned⟩ := exec_reaches (pipeline .writer) (fun s action => decide (Apart .writer s action))
    (Apart .writer) (fun _ _ => of_decide_eq_true) s _ (fun final _ => final.hands .main = none) continued
  have returned := of_decide_eq_true returned
  exact ⟨events, s, more, final, run, caught, later, returned, ctrl_c_heeded run .main caught later returned⟩

-- The source's `control++` between main's and its test: both handlers find
-- control at 2 and return, and the Writer stays in loop mode.
example : ((pipeline .writer).exec (fun _ _ => true) (programStart 0)
    (loopStarted ++ [UserAction.sigint .main] ++ steps .main 2 ++ [UserAction.sigint (.source 0)] ++ steps (.source 0) 3 ++
      steps .main 1)).any (fun result => result.1.loop && result.1.control = 2 && result.1.hands .main = none &&
        result.1.hands (.source 0) = none) = true := by decide +kernel

end MyDev
