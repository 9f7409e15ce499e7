import MyDev.Library.Machine

set_option autoImplicit false

namespace Library

-- A queue that its producers put into, that somebody closes once they are
-- finished, and whose consumers stop when it is both closed and empty.
structure Channel (α : Type) where
  items : List α
  done : Prop
  finished : Prop
  stopped : Prop

-- What may happen to a channel in one step. The items put and taken in the
-- step are listed; the other fields say who may do what.
structure ChannelMove {α : Type} (before after : Channel α) (puts takes : List α) : Prop where
  flow : before.items ++ puts = takes ++ after.items
  accepts : puts ≠ [] → ¬ before.finished
  closes : after.done → before.done ∨ before.finished
  keepsDone : before.done → after.done
  keepsFinished : before.finished → after.finished
  stops : after.stopped → before.stopped ∨ after.done ∧ after.items = []

structure Channel.Sound {α : Type} (channel : Channel α) : Prop where
  closed : channel.done → channel.finished
  drained : channel.stopped → channel.done ∧ channel.items = []

theorem channel_sound_move {α : Type} (before after : Channel α) (puts takes : List α) (sound : before.Sound)
    (move : ChannelMove before after puts takes) : after.Sound := by
  constructor
  · intro closed
    rcases move.closes closed with earlier | finished
    · exact move.keepsFinished (sound.closed earlier)
    · exact move.keepsFinished finished
  · intro stop
    rcases move.stops stop with earlier | now
    · obtain ⟨closed, empty⟩ := sound.drained earlier
      have nothing : puts = [] := by
        by_contra some
        exact move.accepts some (sound.closed closed)
      have left := move.flow
      rw [empty, nothing] at left
      exact ⟨move.keepsDone closed, (List.append_eq_nil_iff.mp left.symm).2⟩
    · exact now

section Runs

variable {σ α ε β : Type} {machine : Machine σ α ε} {ok : σ → α → Prop} {start state : σ} {events : List ε}

theorem channel_run (view : σ → Channel β) (puts takes : ε → List β) (sound : (view start).Sound)
    (empty : (view start).items = [])
    (moves : ∀ events state action next out, Run machine ok start events state → ok state action →
      machine.step state action = some (next, out) →
      ChannelMove (view state) (view next) (out.flatMap puts) (out.flatMap takes))
    (run : Run machine ok start events state) :
    (view state).Sound ∧ events.flatMap puts = events.flatMap takes ++ (view state).items := by
  refine Run.invariant (fun events state => (view state).Sound ∧
    events.flatMap puts = events.flatMap takes ++ (view state).items) ⟨sound, by simp [empty]⟩ ?_ run
  rintro events state action next out before ⟨sound, law⟩ allowed stepped
  have move := moves events state action next out before allowed stepped
  refine ⟨channel_sound_move _ _ _ _ sound move, ?_⟩
  calc
    (events ++ out).flatMap puts = events.flatMap takes ++ ((view state).items ++ out.flatMap puts) := by
      rw [List.flatMap_append, law, List.append_assoc]
    _ = events.flatMap takes ++ (out.flatMap takes ++ (view next).items) := by rw [move.flow]
    _ = (events ++ out).flatMap takes ++ (view next).items := by rw [List.flatMap_append, List.append_assoc]

end Runs

end Library
