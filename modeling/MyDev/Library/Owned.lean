import MyDev.Library.Linked

set_option autoImplicit false

namespace Library

section Owned

variable {γ ω : Type} {heap : Heap γ} {holds later : ω → Nat → Prop}

-- Every live address has exactly one owner, and no other address has any.
structure Owned (heap : Heap γ) (holds : ω → Nat → Prop) : Prop where
  kept : ∀ block, heap block ≠ none → ∃ owner, holds owner block
  live : ∀ owner block, holds owner block → heap block ≠ none
  sole : ∀ owner other block, holds owner block → holds other block → other = owner

theorem owned_dead (owned : Owned heap holds) (block : Nat) (dead : heap block = none) (owner : ω) : ¬ holds owner block :=
  fun mine => owned.live owner block mine dead

theorem owned_take (owned : Owned heap holds) (block : Nat) (value : γ) (owner : ω)
    (here : ∀ other, later other block ↔ other = owner)
    (elsewhere : ∀ other there, there ≠ block → (later other there ↔ holds other there)) :
    Owned (Function.update heap block (some value)) later := by
  constructor
  · intro there live
    by_cases same : there = block
    · exact ⟨owner, by rw [same, here]⟩
    · rw [Function.update_of_ne same] at live
      obtain ⟨holder, mine⟩ := owned.kept there live
      exact ⟨holder, (elsewhere holder there same).mpr mine⟩
  · intro holder there mine
    by_cases same : there = block
    · rw [same, Function.update_self]
      exact Option.some_ne_none _
    · rw [Function.update_of_ne same]
      exact owned.live holder there ((elsewhere holder there same).mp mine)
  · intro holder other there mine also
    by_cases same : there = block
    · rw [same, here] at mine also
      rw [mine, also]
    · exact owned.sole holder other there ((elsewhere _ there same).mp mine) ((elsewhere _ there same).mp also)

theorem owned_free (owned : Owned heap holds) (block : Nat) (here : ∀ other, ¬ later other block)
    (elsewhere : ∀ other there, there ≠ block → (later other there ↔ holds other there)) :
    Owned (Function.update heap block none) later := by
  constructor
  · intro there live
    have different : there ≠ block := by
      rintro rfl
      exact live (Function.update_self ..)
    rw [Function.update_of_ne different] at live
    obtain ⟨holder, mine⟩ := owned.kept there live
    exact ⟨holder, (elsewhere holder there different).mpr mine⟩
  · intro holder there mine
    have different : there ≠ block := fun same => here holder (same ▸ mine)
    rw [Function.update_of_ne different]
    exact owned.live holder there ((elsewhere holder there different).mp mine)
  · intro holder other there mine also
    have different : there ≠ block := fun same => here holder (same ▸ mine)
    exact owned.sole holder other there ((elsewhere _ there different).mp mine) ((elsewhere _ there different).mp also)

end Owned

end Library
