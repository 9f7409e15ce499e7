import Mathlib.Data.List.Basic

set_option autoImplicit false

namespace Library

-- One action moves a machine once, or is refused. What an observer could see
-- of the move is left behind as a list of events.
structure Machine (σ α ε : Type) where
  step : σ → α → Option (σ × List ε)

-- A run lists the events of its steps in order. Every step satisfies `ok` in
-- the state it was taken from; an unrestricted run has `ok := Any`.
inductive Run {σ α ε : Type} (machine : Machine σ α ε) (ok : σ → α → Prop) (start : σ) :
    List ε → σ → Prop where
  | nil : Run machine ok start [] start
  | snoc {events out : List ε} {state next : σ} (action : α) (before : Run machine ok start events state)
      (allowed : ok state action) (stepped : machine.step state action = some (next, out)) :
      Run machine ok start (events ++ out) next

def Any {σ α : Type} (_ : σ) (_ : α) : Prop := True

section Runs

variable {σ α ε : Type} {machine : Machine σ α ε} {ok : σ → α → Prop} {start state : σ} {events : List ε}

-- The step hypothesis also receives the run so far, so that invariants proved
-- earlier can be used in the proof of a later one.
theorem Run.invariant (holds : List ε → σ → Prop) (initially : holds [] start)
    (preserved : ∀ events state action next out, Run machine ok start events state → holds events state →
      ok state action → machine.step state action = some (next, out) → holds (events ++ out) next)
    (run : Run machine ok start events state) : holds events state := by
  induction run with
  | nil => exact initially
  | snoc action before allowed stepped ih => exact preserved _ _ action _ _ before ih allowed stepped

theorem Run.weaken {weaker : σ → α → Prop} (implies : ∀ state action, ok state action → weaker state action)
    (run : Run machine ok start events state) : Run machine weaker start events state := by
  induction run with
  | nil => exact .nil
  | snoc action _ allowed stepped ih => exact .snoc action ih (implies _ _ allowed) stepped

theorem Run.trans {later : List ε} {final : σ} (first : Run machine ok start events state)
    (second : Run machine ok state later final) : Run machine ok start (events ++ later) final := by
  induction second with
  | nil => rw [List.append_nil]; exact first
  | snoc action _ allowed stepped ih => rw [← List.append_assoc]; exact .snoc action ih allowed stepped

theorem Run.silent_after {δ : Type} {later : List ε} {final : σ} (closed : σ → Prop) (observe : ε → List δ)
    (keeps : ∀ events state action next out, Run machine ok start events state → closed state → ok state action →
      machine.step state action = some (next, out) → closed next ∧ out.flatMap observe = [])
    (first : Run machine ok start events state) (holds : closed state) (second : Run machine ok state later final) :
    closed final ∧ later.flatMap observe = [] := by
  induction second with
  | nil => exact ⟨holds, rfl⟩
  | snoc action before allowed stepped ih =>
      obtain ⟨still, silent⟩ := keeps _ _ action _ _ (first.trans before) ih.1 allowed stepped
      exact ⟨still, by rw [List.flatMap_append, ih.2, silent, List.append_nil]⟩

-- A larger machine simulates a smaller one: each of its steps is silent for
-- the smaller machine or is one of its steps, with the events it can observe.
theorem Run.project {τ β δ : Type} {small : Machine τ β δ} {okSmall : τ → β → Prop} (view : σ → τ) (observe : ε → List δ)
    (simulates : ∀ events state action next out, Run machine ok start events state → ok state action →
      machine.step state action = some (next, out) →
      (view next = view state ∧ out.flatMap observe = []) ∨
        ∃ move, okSmall (view state) move ∧ small.step (view state) move = some (view next, out.flatMap observe))
    (run : Run machine ok start events state) :
    Run small okSmall (view start) (events.flatMap observe) (view state) := by
  induction run with
  | nil => exact .nil
  | snoc action before allowed stepped ih =>
      rw [List.flatMap_append]
      rcases simulates _ _ action _ _ before allowed stepped with ⟨same, silent⟩ | ⟨move, permitted, moved⟩
      · rw [same, silent, List.append_nil]
        exact ih
      · exact .snoc move ih permitted moved

theorem Run.observed {τ δ : Type} {observer : Machine τ α δ} {okSeen : τ → α → Prop} {first seen : τ} {log : List δ}
    (view : τ → σ)
    (follows : ∀ state action next log, observer.step state action = some (next, log) →
      ∃ out, machine.step (view state) action = some (view next, out))
    (run : Run observer okSeen first log seen) : ∃ events, Run machine Any (view first) events (view seen) := by
  induction run with
  | nil => exact ⟨[], .nil⟩
  | snoc action _ _ stepped ih =>
      obtain ⟨events, before⟩ := ih
      obtain ⟨out, moved⟩ := follows _ action _ _ stepped
      exact ⟨events ++ out, .snoc action before trivial moved⟩

theorem Run.observe {τ δ : Type} {observer : Machine τ α δ} (view : τ → σ) (first : τ)
    (follows : ∀ state action next out, machine.step (view state) action = some (next, out) →
      ∃ after log, observer.step state action = some (after, log) ∧ view after = next)
    (run : Run machine Any (view first) events state) : ∃ log seen, Run observer Any first log seen ∧ view seen = state := by
  induction run with
  | nil => exact ⟨[], first, .nil, rfl⟩
  | snoc action _ _ stepped ih =>
      obtain ⟨log, seen, before, rfl⟩ := ih
      obtain ⟨after, more, moved, same⟩ := follows _ action _ _ stepped
      exact ⟨log ++ more, after, .snoc action before trivial moved, same⟩

end Runs

-- The evaluator of a run, for concrete schedules. It refuses a schedule that
-- leaves `ok` or that the machine refuses.
def Machine.exec {σ α ε : Type} (machine : Machine σ α ε) (ok : σ → α → Bool) : σ → List α → Option (σ × List ε)
  | state, [] => some (state, [])
  | state, action :: rest =>
      if ok state action then
        match machine.step state action with
        | none => none
        | some (next, out) => (machine.exec ok next rest).map fun (final, later) => (final, out ++ later)
      else none

theorem exec_continues {σ α ε : Type} (machine : Machine σ α ε) (check : σ → α → Bool) (ok : σ → α → Prop)
    (sound : ∀ state action, check state action = true → ok state action) (start state final : σ)
    (schedule : List α) (prior events : List ε) (before : Run machine ok start prior state)
    (done : machine.exec check state schedule = some (final, events)) :
    Run machine ok start (prior ++ events) final := by
  induction schedule generalizing state prior events with
  | nil =>
      simp only [Machine.exec, Option.some.injEq, Prod.mk.injEq] at done
      obtain ⟨rfl, rfl⟩ := done
      simpa using before
  | cons action rest ih =>
      simp only [Machine.exec] at done
      split at done
      · rename_i permitted
        split at done
        · simp at done
        · rename_i next out stepped
          simp only [Option.map_eq_some_iff, Prod.mk.injEq] at done
          obtain ⟨⟨last, later⟩, finished, rfl, rfl⟩ := done
          rw [← List.append_assoc]
          exact ih next (prior ++ out) later (.snoc action before (sound _ _ permitted) stepped) finished
      · simp at done

theorem exec_run {σ α ε : Type} (machine : Machine σ α ε) (check : σ → α → Bool) (ok : σ → α → Prop)
    (sound : ∀ state action, check state action = true → ok state action) (start final : σ)
    (schedule : List α) (events : List ε) (done : machine.exec check start schedule = some (final, events)) :
    Run machine ok start events final :=
  exec_continues machine check ok sound start start final schedule [] events .nil done

theorem exec_reaches {σ α ε : Type} (machine : Machine σ α ε) (check : σ → α → Bool) (ok : σ → α → Prop)
    (sound : ∀ state action, check state action = true → ok state action) (start : σ) (schedule : List α)
    (seen : σ → List ε → Bool)
    (found : (machine.exec check start schedule).any (fun result => seen result.1 result.2) = true) :
    ∃ events state, Run machine ok start events state ∧ seen state events = true := by
  obtain ⟨⟨state, events⟩, done, observed⟩ := (Option.any_eq_true _ _).mp found
  exact ⟨events, state, exec_run machine check ok sound start state schedule events done, observed⟩

theorem exec_reaches_any {σ α ε : Type} (machine : Machine σ α ε) (start : σ) (schedule : List α)
    (seen : σ → List ε → Bool)
    (found : (machine.exec (fun _ _ => true) start schedule).any (fun result => seen result.1 result.2) = true) :
    ∃ events state, Run machine Any start events state ∧ seen state events = true :=
  exec_reaches machine (fun _ _ => true) Any (fun _ _ _ => trivial) start schedule seen found

end Library
