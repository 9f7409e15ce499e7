import Mathlib.Algebra.BigOperators.Group.Finset.Basic
import Mathlib.Algebra.Order.BigOperators.Group.Finset
import MyDev.Library.Condvar
import MyDev.Library.Machine

set_option autoImplicit false

namespace Library

section Potential

variable {σ α ε : Type}

def total (charge : α → Nat) : List α → Nat
  | [] => 0
  | action :: rest => charge action + total charge rest

theorem total_zero (schedule : List α) : total (fun _ => 0) schedule = 0 := by
  induction schedule with
  | nil => rfl
  | cons action rest ih => simp only [total, ih]

-- A potential that the steps of one party lower and those of the others leave
-- as it is, up to what the action of a step may add to it, bounds the number of
-- steps the one can make, whoever comes between. The potential may look at the
-- events that are still to come.
theorem exec_count_le (machine : Machine σ α ε) (ok : σ → α → Bool) (inv : σ → Prop) (potential : σ → List ε → Nat)
    (charge : α → Nat) (own : α → Bool)
    (kept : ∀ state action next out, inv state → ok state action = true → machine.step state action = some (next, out) →
      inv next)
    (lowers : ∀ state action next out later, inv state → ok state action = true →
      machine.step state action = some (next, out) → own action = true →
      potential next later < potential state (out ++ later) + charge action)
    (leaves : ∀ state action next out later, inv state → ok state action = true →
      machine.step state action = some (next, out) → own action = false →
      potential next later ≤ potential state (out ++ later) + charge action)
    (state final : σ) (schedule : List α) (events : List ε) (good : inv state)
    (done : machine.exec ok state schedule = some (final, events)) :
    schedule.countP own + potential final [] ≤ potential state events + total charge schedule := by
  induction schedule generalizing state events with
  | nil =>
      simp only [Machine.exec, Option.some.injEq, Prod.mk.injEq] at done
      obtain ⟨rfl, rfl⟩ := done
      simp [total]
  | cons action rest ih =>
      simp only [Machine.exec] at done
      split at done
      · rename_i permitted
        split at done
        · cases done
        · rename_i next out stepped
          simp only [Option.map_eq_some_iff, Prod.mk.injEq] at done
          obtain ⟨⟨last, later⟩, finished, rfl, rfl⟩ := done
          have after : rest.countP own + potential last [] ≤ potential next later + total charge rest :=
            ih next later (kept state action next out good permitted stepped) finished
          simp only [List.countP_cons, total]
          cases mine : own action with
          | true =>
              have before := lowers state action next out later good permitted stepped mine
              simp only [if_true]
              omega
          | false =>
              have before := leaves state action next out later good permitted stepped mine
              simp only [Bool.false_eq_true, if_false]
              omega
      · cases done

theorem exec_length_le (machine : Machine σ α ε) (ok : σ → α → Bool) (inv : σ → Prop) (potential : σ → Nat)
    (charge : α → Nat)
    (kept : ∀ state action next out, inv state → ok state action = true → machine.step state action = some (next, out) →
      inv next)
    (pays : ∀ state action next out, inv state → ok state action = true → machine.step state action = some (next, out) →
      potential next < potential state + charge action)
    (state final : σ) (schedule : List α) (events : List ε) (good : inv state)
    (done : machine.exec ok state schedule = some (final, events)) :
    schedule.length + potential final ≤ potential state + total charge schedule := by
  have bound := exec_count_le machine ok inv (fun state _ => potential state) charge (fun _ => true) kept
    (fun state action next out _ good permitted stepped _ => pays state action next out good permitted stepped)
    (fun _ _ _ _ _ _ _ _ other => absurd other Bool.noConfusion) state final schedule events good done
  rwa [List.countP_true] at bound

end Potential

section Load

variable {ι τ : Type} [DecidableEq ι]

def load (threads : Finset ι) (points : ι → τ) (weight : τ → Nat) : Nat := ∑ t ∈ threads, weight (points t)

theorem load_update (threads : Finset ι) (points : ι → τ) (weight : τ → Nat) (t : ι) (point : τ) (member : t ∈ threads) :
    load threads (Function.update points t point) weight + weight (points t) =
      load threads points weight + weight point := by
  have others : ∑ u ∈ threads.erase t, weight (Function.update points t point u) =
      ∑ u ∈ threads.erase t, weight (points u) := by
    refine Finset.sum_congr rfl fun u there => ?_
    rw [Function.update_of_ne (Finset.ne_of_mem_erase there)]
  unfold load
  rw [← Finset.sum_erase_add _ _ member, ← Finset.sum_erase_add _ _ member, others, Function.update_self]
  omega

omit [DecidableEq ι] in
theorem load_raise (threads : Finset ι) (points later : ι → τ) (weight heavier : τ → Nat) (cost : Nat)
    (each : ∀ t ∈ threads, heavier (later t) ≤ weight (points t) + cost) :
    load threads later heavier ≤ load threads points weight + threads.card * cost :=
  calc
    load threads later heavier ≤ ∑ t ∈ threads, (weight (points t) + cost) := Finset.sum_le_sum each
    _ = load threads points weight + threads.card * cost := by
      rw [Finset.sum_add_distrib, Finset.sum_const_nat (fun _ _ => rfl), load]

omit [DecidableEq ι] in
theorem load_const (threads : Finset ι) (weight : τ → Nat) (point : τ) :
    load threads (fun _ => point) weight = threads.card * weight point :=
  Finset.sum_const_nat fun _ _ => rfl

end Load

section Waking

variable {τ : Type} [DecidableEq τ]

theorem load_signal (threads : Finset Nat) (wait lock : τ) (n : Nat) (points woken : Nat → τ) (wake : Nat) (weight : τ → Nat)
    (cost : Nat) (price : weight lock ≤ weight wait + cost) (signalled : condSignal wait lock n points wake = some woken) :
    load threads woken weight ≤ load threads points weight + cost := by
  unfold condSignal at signalled
  split at signalled
  · rename_i waiting
    cases signalled
    by_cases member : wake ∈ threads
    · have changed := load_update threads points weight wake lock member
      rw [waiting] at changed
      omega
    · have same : load threads (Function.update points wake lock) weight = load threads points weight := by
        refine Finset.sum_congr rfl fun t there => ?_
        have different : t ≠ wake := fun equal => member (equal ▸ there)
        rw [Function.update_of_ne different]
      omega
  · split at signalled
    · cases signalled
    · cases signalled
      omega

theorem load_broadcast (threads : Finset Nat) (wait lock : τ) (points : Nat → τ) (weight : τ → Nat) (cost : Nat)
    (price : weight lock ≤ weight wait + cost) :
    load threads (condBroadcast wait lock points) weight ≤ load threads points weight + threads.card * cost := by
  refine load_raise threads points _ weight weight cost fun t _ => ?_
  unfold condBroadcast
  split
  · rename_i waiting
    rw [waiting]
    exact price
  · omega

end Waking

end Library
