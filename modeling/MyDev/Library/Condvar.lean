import Mathlib.Logic.Function.Basic

set_option autoImplicit false

namespace Library

section Condvar

variable {τ : Type} [DecidableEq τ]

-- A condition variable over numbered threads: a thread at `wait` is blocked,
-- and being woken puts it at `lock`, where it competes for the mutex again.
-- pthread_cond_signal wakes a waiter of the environment's choice if there is
-- one among the first `n` threads.
def condSignal (wait lock : τ) (n : Nat) (threads : Nat → τ) (wake : Nat) : Option (Nat → τ) :=
  if threads wake = wait then some (Function.update threads wake lock)
  else if (List.range n).any (fun i => threads i = wait) then none
  else some threads

def condBroadcast (wait lock : τ) (threads : Nat → τ) (i : Nat) : τ := if threads i = wait then lock else threads i

omit [DecidableEq τ] in
def Roused (wait lock before after : τ) : Prop := after = before ∨ before = wait ∧ after = lock

theorem cond_signal_roused (wait lock : τ) (n : Nat) (threads woken : Nat → τ) (wake : Nat)
    (signalled : condSignal wait lock n threads wake = some woken) (i : Nat) : Roused wait lock (threads i) (woken i) := by
  unfold condSignal at signalled
  split at signalled
  · rename_i waiting
    cases signalled
    by_cases here : i = wake
    · subst here
      exact .inr ⟨waiting, Function.update_self ..⟩
    · exact .inl (Function.update_of_ne here ..)
  · split at signalled
    · cases signalled
    · cases signalled
      exact .inl rfl

theorem cond_signal_wakes (wait lock : τ) (n : Nat) (threads woken : Nat → τ) (wake : Nat)
    (signalled : condSignal wait lock n threads wake = some woken) :
    threads wake = wait ∧ woken wake = lock ∨ ∀ i < n, woken i ≠ wait := by
  unfold condSignal at signalled
  split at signalled
  · rename_i waiting
    cases signalled
    exact .inl ⟨waiting, Function.update_self ..⟩
  · split at signalled
    · cases signalled
    · rename_i nobody
      cases signalled
      refine .inr fun i inside waiting => nobody ?_
      exact List.any_eq_true.mpr ⟨i, List.mem_range.mpr inside, decide_eq_true waiting⟩

theorem cond_broadcast_none (wait lock : τ) (threads : Nat → τ) (i : Nat) (apart : lock ≠ wait) :
    condBroadcast wait lock threads i ≠ wait := by
  unfold condBroadcast
  split
  · exact apart
  · assumption

theorem cond_broadcast_roused (wait lock : τ) (threads : Nat → τ) (i : Nat) :
    Roused wait lock (threads i) (condBroadcast wait lock threads i) := by
  unfold condBroadcast
  split
  · rename_i waiting
    exact .inr ⟨waiting, rfl⟩
  · exact .inl rfl

theorem cond_signal_possible (wait lock : τ) (n : Nat) (threads : Nat → τ) :
    ∃ wake woken, condSignal wait lock n threads wake = some woken := by
  by_cases waiting : ∃ i, i < n ∧ threads i = wait
  · obtain ⟨i, _, point⟩ := waiting
    exact ⟨i, _, by rw [condSignal, if_pos point]⟩
  · have nobody : ¬ (List.range n).any (fun i => threads i = wait) = true := by
      intro found
      obtain ⟨i, inside, point⟩ := List.any_eq_true.mp found
      exact waiting ⟨i, List.mem_range.mp inside, of_decide_eq_true point⟩
    by_cases first : threads 0 = wait
    · exact ⟨0, _, by rw [condSignal, if_pos first]⟩
    · exact ⟨0, threads, by rw [condSignal, if_neg first, if_neg nobody]⟩

end Condvar

theorem roused_same {τ β : Type} (f : τ → β) (wait lock before after : τ) (roused : Roused wait lock before after)
    (same : f lock = f wait) : f after = f before := by
  rcases roused with still | ⟨waiting, woken⟩
  · rw [still]
  · rw [waiting, woken, same]

end Library
