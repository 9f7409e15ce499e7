import MyDev.Library.Fifo
import MyDev.DeviceLock

set_option autoImplicit false

namespace MyDev

open Library

section Events

variable {ι : Type}

def Event.pushes : Event ι → List Bytes
  | .pushed _ data => [data]
  | _ => []

def Event.pops : Event ι → List Bytes
  | .popped _ data => [data]
  | _ => []

def Event.fifo : Event ι → List (FifoEvent Bytes)
  | .pushed _ data => [.pushed data]
  | .popped _ data => [.popped data]
  | _ => []

theorem fifo_pushes (event : Event ι) : event.fifo.flatMap FifoEvent.pushes = event.pushes := by
  cases event <;> rfl

theorem fifo_pops (event : Event ι) : event.fifo.flatMap FifoEvent.pops = event.pops := by
  cases event <;> rfl

theorem done_events_silent (t : ι) (pc : Pc) : (doneEvents t pc).flatMap Event.fifo = [] := by
  unfold doneEvents
  split <;> rfl

end Events

section Fifo

variable {ι : Type} [DecidableEq ι] {ok : Dev ι → Action ι → Prop} {events : List (Event ι)} {s : Dev ι}

-- The device simulates the atomic queue: the instant of a push or a pop is
-- the one statement of kb_push or kb_pop that links or unlinks the node.
theorem move_refines_fifo (s next : Dev ι) (action : Action ι) (out : List (Event ι)) (move : DevMove s action next out) :
    (next.kbFifo.nodes = s.kbFifo.nodes ∧ out.flatMap Event.fifo = []) ∨
      ∃ queueMove, (fifo Bytes).step s.kbFifo.nodes queueMove = some (next.kbFifo.nodes, out.flatMap Event.fifo) := by
  cases move with
  | call | ret | signal | timer => exact .inl ⟨rfl, rfl⟩
  | client move =>
      cases move with
      | «local» | acquire => exact .inl ⟨rfl, rfl⟩
      | release => exact .inl ⟨rfl, done_events_silent _ _⟩
      | opened => exact .inl ⟨by simp, rfl⟩
      | closed | wakeWriters | wakeReaders => exact .inl ⟨rfl, rfl⟩
      | popped point found =>
          obtain ⟨nodes, _⟩ := kb_pop_some _ _ _ found
          exact .inr ⟨.pop, by simp [Library.fifo, nodes, Event.fifo]⟩
      | pushed point success => exact .inr ⟨.push _, rfl⟩
  | kt move => cases move <;> exact .inl ⟨rfl, rfl⟩

theorem device_refines_fifo (run : Run (device ι) ok (myModuleInit ι) events s) :
    Run (fifo Bytes) Any [] (events.flatMap Event.fifo) s.kbFifo.nodes := by
  refine run.project (fun s => s.kbFifo.nodes) Event.fifo ?_
  intro _ s action next out _ _ stepped
  rcases move_refines_fifo s next action out (device_moves s next action out stepped) with quiet | ⟨queueMove, moved⟩
  · exact .inl quiet
  · exact .inr ⟨queueMove, trivial, moved⟩

theorem device_fifo_law (run : Run (device ι) ok (myModuleInit ι) events s) :
    events.flatMap Event.pushes = events.flatMap Event.pops ++ s.kbFifo.nodes := by
  have law := fifo_law (device_refines_fifo run)
  simpa only [List.flatMap_assoc, fifo_pushes, fifo_pops] using law

-- Between the test that ended the wait loop and kb_pop the reader keeps
-- dev_mutex, so the string it saw is still there.
def PopReady (s : Dev ι) : Prop := ∀ t dim value, (s.tasks t).pc = .readPop dim value → s.kbFifo.nodes ≠ []

omit [DecidableEq ι] in
theorem local_enters_pop {s : Dev ι} {env : Env} {pc : Pc} {dim : Nat} {value : Bytes}
    (step : LocalPc s env pc (.readPop dim value)) : s.kbFifo.nodes ≠ [] := by
  cases step with
  | readPass room => simpa [blocked_readers, kb_isempty_iff, ← Bool.not_eq_true] using room

theorem enters_pop (s next : Dev ι) (t : ι) (env : Env) (out : List (Event ι)) (dim : Nat) (value : Bytes)
    (move : ClientMove s t env next out) (reached : (next.tasks t).pc = .readPop dim value) :
    next.kbFifo.nodes ≠ [] := by
  cases move with
  | «local» move =>
      simp only [put_tasks, if_true] at reached
      have step := local_move_pc s env _ _ move
      rw [reached] at step
      have stored : s.kbFifo.nodes ≠ [] := local_enters_pop step
      exact stored
  | acquire free entered =>
      simp only [goto_tasks, if_true] at reached
      rw [reached] at entered
      unfold Pc.locked at entered
      split at entered <;> cases entered
  | release left =>
      simp only [goto_tasks, if_true] at reached
      rw [reached] at left
      unfold Pc.unlocked at left
      split at left <;> cases left
  | _ => simp at reached

theorem pop_ready_move (s next : Dev ι) (action : Action ι) (out : List (Event ι)) (inv : LockInv s) (ready : PopReady s)
    (move : DevMove s action next out) : PopReady next := by
  intro u dim value reached
  cases task_move s next u action out move with
  | @call op _ entered =>
      rw [entered] at reached
      cases op <;> cases reached
  | go own => exact enters_pop s next u _ out dim value own reached
  | ret _ left =>
      rw [left] at reached
      cases reached
  | other other same =>
      rw [same] at reached
      have held : (s.tasks u).pc.holds = true := by rw [reached]; rfl
      rw [(holder_alone s next u action out inv move held other).1]
      exact ready u dim value reached

theorem pop_ready_run (run : Run (device ι) ok (myModuleInit ι) events s) : PopReady s := by
  refine Run.invariant (fun _ s => PopReady s) (by simp [PopReady, myModuleInit]) ?_ run
  intro _ s action next out before ready _ stepped
  exact pop_ready_move s next action out (lock_inv_run before) ready (device_moves s next action out stepped)

theorem device_atomic_fifo (run : Run (device ι) Any (myModuleInit ι) events s) :
    events.flatMap Event.pushes = events.flatMap Event.pops ++ s.kbFifo.nodes ∧
      ∀ t dim value, (s.tasks t).pc = .readPop dim value → kbPop s.kbFifo ≠ none := by
  refine ⟨device_fifo_law run, ?_⟩
  intro t dim value reached missing
  exact pop_ready_run run t dim value reached ((kb_pop_none_iff _).mp missing)

end Fifo

def alone {ι : Type} (t : ι) (steps : Nat) : List (Action ι) := List.replicate steps (.go t {})

theorem device_atomic_fifo_write_then_read : ∃ events s, Run (device Bool) Any (myModuleInit Bool) events s ∧
    (s.tasks true).pc = .readPop 2 [0, 0] ∧
    events.flatMap Event.pushes = events.flatMap Event.pops ++ s.kbFifo.nodes ∧ s.kbFifo.nodes = [[97]] ∧
    kbPop s.kbFifo ≠ none := by
  obtain ⟨events, s, run, seen⟩ := exec_reaches_any (device Bool)
    (myModuleInit Bool)
    ([Action.call false (.myWrite [97, 0])] ++ alone false 7 ++ [Action.ret false, Action.call true (.myRead 2)] ++ alone true 3)
    (fun s _ => (s.tasks true).pc = .readPop 2 [0, 0] ∧ s.kbFifo.nodes = [[97]]) (by decide +kernel)
  obtain ⟨reached, nodes⟩ : (s.tasks true).pc = .readPop 2 [0, 0] ∧ s.kbFifo.nodes = [[97]] := by simpa using seen
  obtain ⟨law, ready⟩ := device_atomic_fifo run
  exact ⟨events, s, run, reached, law, nodes, ready true 2 [0, 0] reached⟩

end MyDev
