import Mathlib.Algebra.BigOperators.Group.Finset.Basic
import Mathlib.Algebra.Order.Group.Multiset
import MyDev.Library.Machine

set_option autoImplicit false

namespace Library

section Held

variable {τ β : Type}

def held (n : Nat) (workers : Nat → τ) (hand : τ → Multiset β) : Multiset β :=
  ∑ i ∈ Finset.range n, hand (workers i)

theorem held_congr (n : Nat) (before after : Nat → τ) (hand : τ → Multiset β)
    (same : ∀ i, hand (after i) = hand (before i)) : held n after hand = held n before hand :=
  Finset.sum_congr rfl fun i _ => same i

theorem held_idle (n : Nat) (workers : Nat → τ) (hand : τ → Multiset β) (idle : ∀ i, hand (workers i) = 0) :
    held n workers hand = 0 :=
  Finset.sum_eq_zero fun i _ => idle i

theorem held_update (n i : Nat) (workers : Nat → τ) (hand : τ → Multiset β) (task : τ) (inside : i < n) :
    held n (Function.update workers i task) hand + hand (workers i) = held n workers hand + hand task := by
  have member : i ∈ Finset.range n := Finset.mem_range.mpr inside
  have others : ∑ j ∈ (Finset.range n).erase i, hand (Function.update workers i task j) =
      ∑ j ∈ (Finset.range n).erase i, hand (workers j) := by
    refine Finset.sum_congr rfl fun j there => ?_
    rw [Function.update_of_ne (Finset.ne_of_mem_erase there)]
  unfold held
  rw [← Finset.sum_erase_add _ _ member, ← Finset.sum_erase_add _ _ member, others, Function.update_self]
  exact add_right_comm _ _ _

inductive WorkMove (n : Nat) (hand : τ → Multiset β) (before after : Nat → τ) (gained given : Multiset β) : Prop where
  | idle (same : ∀ i, hand (after i) = hand (before i)) (balanced : gained = given)
  | trade {i : Nat} {task : τ} (inside : i < n) (updated : after = Function.update before i task)
      (balanced : hand (before i) + gained = hand task + given)

theorem work_move_held (n : Nat) (hand : τ → Multiset β) (before after : Nat → τ) (gained given : Multiset β)
    (move : WorkMove n hand before after gained given) :
    held n before hand + gained = held n after hand + given := by
  cases move with
  | idle same balanced => rw [held_congr n before after hand same, balanced]
  | @trade i task inside updated balanced =>
      have changed := held_update n i before hand task inside
      rw [← updated] at changed
      refine add_right_cancel (b := hand (before i)) ?_
      calc
        held n before hand + gained + hand (before i) = held n before hand + (hand (before i) + gained) := by
          rw [add_assoc, add_comm gained]
        _ = held n before hand + hand task + given := by rw [balanced, add_assoc]
        _ = held n after hand + given + hand (before i) := by rw [← changed, add_right_comm]

end Held

section Runs

variable {σ α ε τ β : Type} {machine : Machine σ α ε} {ok : σ → α → Prop} {start state : σ} {events : List ε}

theorem workers_run (n : Nat) (workers : σ → Nat → τ) (hand : τ → Multiset β) (gained given : ε → List β)
    (idle : ∀ i, hand (workers start i) = 0)
    (moves : ∀ events state action next out, Run machine ok start events state → ok state action →
      machine.step state action = some (next, out) →
      WorkMove n hand (workers state) (workers next) (out.flatMap gained : List β) (out.flatMap given : List β))
    (run : Run machine ok start events state) :
    ((events.flatMap gained : List β) : Multiset β) =
      held n (workers state) hand + (events.flatMap given : List β) := by
  refine Run.invariant (fun events state => ((events.flatMap gained : List β) : Multiset β) =
    held n (workers state) hand + (events.flatMap given : List β)) (by simp [held_idle n _ hand idle]) ?_ run
  intro events state action next out before balance allowed stepped
  have traded := work_move_held n hand _ _ _ _ (moves events state action next out before allowed stepped)
  simp only [List.flatMap_append, ← Multiset.coe_add]
  calc
    ((events.flatMap gained : List β) : Multiset β) + (out.flatMap gained : List β)
      = held n (workers state) hand + (out.flatMap gained : List β) + (events.flatMap given : List β) := by
        rw [balance, add_right_comm]
    _ = held n (workers next) hand + (out.flatMap given : List β) + (events.flatMap given : List β) := by rw [traded]
    _ = held n (workers next) hand + ((events.flatMap given : List β) + (out.flatMap given : List β)) := by
        rw [add_assoc, add_comm (Multiset.ofList (out.flatMap given))]

end Runs

end Library
