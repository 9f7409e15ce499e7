import MyDev.PipelineLock
import MyDev.ReaderPipeline

set_option autoImplicit false

namespace MyDev

open Library

-- The mutex a thread is blocked on, in its handler when one runs and in the
-- thread itself otherwise. A woken waiter is back at its lock.
def Pipe.baseWants (s : Pipe) : Tid → Option Buf
  | .main => match s.main with
    | .relLock buf => some buf
    | _ => none
  | .source i => match s.sources i with
    | .lock => some .raw
    | _ => none
  | .elaborate i => match s.elaborators i with
    | .lock => some .raw
    | .lockE _ => some .elaborated
    | _ => none
  | .sink i => match s.sinks i with
    | .lock => some .elaborated
    | _ => none

def Pipe.wants (s : Pipe) (t : Tid) : Option Buf :=
  match s.hands t with
  | some .lockR => some .raw
  | some .lockE => some .elaborated
  | some _ => none
  | none => s.baseWants t

-- Over rmutex and emutex only; stdio's lock, which printf takes, is not in the
-- graph.
def WaitsFor (s : Pipe) (t u : Tid) : Prop := ∃ buf, s.wants t = some buf ∧ s.owner buf = some u

-- A handler goes past its test of control only on a thread that holds neither
-- mutex.
def InterruptsOutside (s : Pipe) : UserAction → Prop
  | .go t _ => s.hands t = some .check → s.control ≤ 1 → s.inside .raw t = false ∧ s.inside .elaborated t = false
  | _ => True

def HandPc.past : HandPc → Bool
  | .load | .store _ | .check => false
  | _ => true

def Clear (s : Pipe) : Prop := ∀ t pc buf, s.hands t = some pc → pc.past = true → s.base buf t = false

theorem clear_move (prog : Prog) (s next : Pipe) (action : UserAction) (out : List UserEvent) (inv : JoinInv s)
    (locks : MutexInv s) (clear : Clear s) (allowed : InterruptsOutside s action) (step : PipeStep prog s action next out) :
    Clear next := by
  intro u pc buf point past
  have kept := busy_base prog s next action out inv locks step u buf
  cases hand_to prog s next action out step u with
  | same same =>
      rw [same] at point
      rw [kept (by simp [point])]
      exact clear u pc buf point past
  | starts _ started =>
      cases started.symm.trans point
      cases past
  | @moves choice mine move =>
      subst mine
      cases move with
      | load was | store was =>
          cases (Function.update_self ..).symm.trans point
          cases past
      | check was =>
          rw [kept (by simp [was])]
          have now := (Function.update_self ..).symm.trans point
          by_cases again : 1 < s.control
          · rw [if_pos again] at now
            cases now
          · obtain ⟨raw, elaborated⟩ := allowed was (by omega)
            simp only [Pipe.inside, Bool.or_eq_false_iff] at raw elaborated
            cases buf with
            | raw => exact raw.1
            | elaborated => exact elaborated.1
      | acquireR was | bodyR was | acquireE was | unlockR was | bodyE was | unlockE was =>
          rw [kept (by simp [was])]
          exact clear u _ buf was rfl

theorem owner_wants (s : Pipe) (u : Tid) (buf : Buf) (clear : Clear s) (inside : s.inside buf u = true) :
    s.wants u = none ∨ buf = .raw ∧ s.wants u = some .elaborated := by
  simp only [Pipe.inside, Bool.or_eq_true] at inside
  cases point : s.hands u with
  | none =>
      rw [point] at inside
      have base := inside.resolve_right (by simp)
      refine .inl ?_
      simp only [Pipe.wants, point]
      cases u with
      | main => cases at_ : s.main <;> simp_all [Pipe.base, Pipe.baseWants, MainPc.inside]
      | source i => cases at_ : s.sources i <;> simp_all [Pipe.base, Pipe.baseWants, SourcePc.inside]
      | elaborate i => cases at_ : s.elaborators i <;> cases buf <;> simp_all [Pipe.base, Pipe.baseWants, ElaboratePc.inside]
      | sink i => cases at_ : s.sinks i <;> simp_all [Pipe.base, Pipe.baseWants, SinkPc.inside]
  | some pc =>
      have below := clear u pc buf point
      cases pc <;> cases buf <;> simp_all [Pipe.wants, HandPc.inside, HandPc.past]

def Pipe.waitRank (s : Pipe) (t : Tid) : Nat :=
  match s.wants t with
  | none => 0
  | some .elaborated => 1
  | some .raw => 2

theorem waits_down (s : Pipe) (t u : Tid) (locks : MutexInv s) (clear : Clear s) (waits : WaitsFor s t u) :
    s.waitRank u < s.waitRank t := by
  obtain ⟨buf, wanted, owned⟩ := waits
  have inside := (locks.exclusive buf u).mpr owned
  simp only [Pipe.waitRank, wanted]
  rcases owner_wants s u buf clear inside with nothing | ⟨rfl, other⟩
  · rw [nothing]
    cases buf <;> decide
  · rw [other]
    decide

section Runs

variable {prog : Prog} {arg : Int} {events : List UserEvent} {s : Pipe}

theorem clear_run (run : Run (pipeline prog) InterruptsOutside (programStart arg) events s) : Clear s := by
  induction run with
  | nil =>
      intro t pc buf point
      cases point
  | snoc action before allowed stepped ih =>
      exact clear_move prog _ _ action _ (join_inv_run before) (mutex_inv_run before) ih allowed
        (pipe_steps prog _ _ action _ stepped)

theorem no_wait_cycle (run : Run (pipeline prog) InterruptsOutside (programStart arg) events s) (t : Tid) :
    ¬ Relation.TransGen (WaitsFor s) t t := by
  apply rank_no_cycle (WaitsFor s) s.waitRank
  intro u v waits
  exact waits_down s u v (mutex_inv_run run) (clear_run run) waits

end Runs

def interruptsOutside (s : Pipe) : UserAction → Bool
  | .go t _ => s.hands t ≠ some .check || 1 < s.control || !s.inside .raw t && !s.inside .elaborated t
  | _ => true

theorem interrupts_outside_sound (s : Pipe) (action : UserAction) (checked : interruptsOutside s action = true) :
    InterruptsOutside s action := by
  cases action with
  | go t choice =>
      intro point first
      have later : ¬ 1 < s.control := by omega
      simpa [interruptsOutside, point, later] using checked
  | _ => trivial

def sourceInside : List UserAction :=
  steps .main 2 ++ [UserAction.call .main, .ret .main 0 []] ++ steps .main 3 ++ steps (.source 0) 1

-- The signal reaches main while a source holds rmutex: main's handler waits for
-- the source, and nobody else waits.
theorem no_wait_cycle_main_interrupted :
    ∃ events s, Run (pipeline .writer) InterruptsOutside (programStart 1) events s ∧ WaitsFor s .main (.source 0) ∧
      ∀ t, ¬ Relation.TransGen (WaitsFor s) t t := by
  obtain ⟨events, s, run, seen⟩ := exec_reaches (pipeline .writer) interruptsOutside InterruptsOutside interrupts_outside_sound
    (programStart 1) (sourceInside ++ [UserAction.sigint .main] ++ steps .main 3)
    (fun s _ => s.wants .main = some .raw && s.owner .raw = some (.source 0)) (by decide +kernel)
  simp only [Bool.and_eq_true, decide_eq_true_eq] at seen
  exact ⟨events, s, run, ⟨.raw, seen⟩, no_wait_cycle run⟩

-- The signal reaches the source instead: its handler waits for the thread it
-- runs on.
theorem handler_waits_for_itself :
    ∃ events s, Run (pipeline .writer) Any (programStart 1) events s ∧
      Relation.TransGen (WaitsFor s) (.source 0) (.source 0) := by
  obtain ⟨events, s, run, seen⟩ := exec_reaches_any (pipeline .writer)
    (programStart 1) (sourceInside ++ [UserAction.sigint (.source 0)] ++ steps (.source 0) 3)
    (fun s _ => s.wants (.source 0) = some .raw && s.owner .raw = some (.source 0)) (by decide +kernel)
  simp only [Bool.and_eq_true, decide_eq_true_eq] at seen
  exact ⟨events, s, run, .single ⟨.raw, seen⟩⟩

end MyDev
