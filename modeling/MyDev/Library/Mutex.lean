import Mathlib.Logic.Relation

set_option autoImplicit false

namespace Library

section Mutex

variable {ι : Type}

def Exclusive (owner : Option ι) (inside : ι → Bool) : Prop := ∀ t, inside t = true ↔ owner = some t

inductive MutexMove (t : ι) (owner after : Option ι) (was now : Bool) : Prop where
  | keep (same : after = owner) (still : now = was)
  | acquire (free : owner = none) (taken : after = some t) (entered : now = true)
  | release (held : was = true) (given : after = none) (left : now = false)

theorem exclusive_free (owner : Option ι) (inside : ι → Bool) (exclusive : Exclusive owner inside) (free : owner = none) (t : ι) :
    inside t = false := by
  cases entered : inside t with
  | false => rfl
  | true =>
      have owned := (exclusive t).mp entered
      simp [free] at owned

theorem exclusive_move (t : ι) (owner after : Option ι) (inside later : ι → Bool) (exclusive : Exclusive owner inside)
    (move : MutexMove t owner after (inside t) (later t)) (others : ∀ u, u ≠ t → later u = inside u) :
    Exclusive after later := by
  intro u
  by_cases same : u = t
  · subst same
    cases move with
    | keep same still => rw [same, still]; exact exclusive u
    | acquire free taken entered => simp [taken, entered]
    | release held given left => simp [given, left]
  · rw [others u same]
    cases move with
    | keep same _ => rw [same]; exact exclusive u
    | acquire free taken _ =>
        have outside := exclusive_free owner inside exclusive free u
        simp [outside, taken, Ne.symm same]
    | release held given _ =>
        have owned := (exclusive t).mp held
        have outside : inside u ≠ true := by
          intro also
          exact same (Option.some.inj (((exclusive u).mp also).symm.trans owned))
        simp [outside, given]

theorem rank_no_cycle (waits : ι → ι → Prop) (rank : ι → Nat) (down : ∀ t u, waits t u → rank u < rank t) (t : ι) :
    ¬ Relation.TransGen waits t t := by
  intro cycle
  have lower : ∀ u, Relation.TransGen waits t u → rank u < rank t := by
    intro u path
    induction path with
    | single edge => exact down _ _ edge
    | tail _ edge ih => exact Nat.lt_trans (down _ _ edge) ih
  exact Nat.lt_irrefl _ (lower t cycle)

end Mutex

end Library
