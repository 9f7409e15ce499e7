import MyDev.Library.Machine

set_option autoImplicit false

namespace Library

-- The atomic queue: what a concurrent first-in first-out buffer is meant to
-- be, with a push and a pop that each happen at one instant.
inductive FifoMove (α : Type) where
  | push (item : α)
  | pop

inductive FifoEvent (α : Type) where
  | pushed (item : α)
  | popped (item : α)

def fifo (α : Type) : Machine (List α) (FifoMove α) (FifoEvent α) where
  step
    | queue, .push item => some (queue ++ [item], [.pushed item])
    | [], .pop => none
    | item :: rest, .pop => some (rest, [.popped item])

def FifoEvent.pushes {α : Type} : FifoEvent α → List α
  | .pushed item => [item]
  | .popped _ => []

def FifoEvent.pops {α : Type} : FifoEvent α → List α
  | .pushed _ => []
  | .popped item => [item]

theorem fifo_law {α : Type} {ok : List α → FifoMove α → Prop} {events : List (FifoEvent α)} {queue : List α}
    (run : Run (fifo α) ok [] events queue) :
    events.flatMap FifoEvent.pushes = events.flatMap FifoEvent.pops ++ queue := by
  refine Run.invariant (fun events queue => events.flatMap FifoEvent.pushes =
    events.flatMap FifoEvent.pops ++ queue) rfl ?_ run
  intro events queue move next out _ law _ stepped
  cases move with
  | push item =>
      simp only [fifo, Option.some.injEq, Prod.mk.injEq] at stepped
      obtain ⟨rfl, rfl⟩ := stepped
      simp [List.flatMap_append, law, FifoEvent.pushes, FifoEvent.pops]
  | pop =>
      cases queue with
      | nil => simp [fifo] at stepped
      | cons item rest =>
          simp only [fifo, Option.some.injEq, Prod.mk.injEq] at stepped
          obtain ⟨rfl, rfl⟩ := stepped
          simp [List.flatMap_append, law, FifoEvent.pushes, FifoEvent.pops]

end Library
