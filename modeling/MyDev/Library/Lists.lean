import Mathlib.Data.List.Basic

set_option autoImplicit false

namespace Library

theorem count_flat_map_own {α β : Type} [DecidableEq α] (log : List (α × β)) (gives : α × β → List α)
    (own : ∀ entry, ∀ key ∈ gives entry, key = entry.1) (unique : (log.map Prod.fst).Nodup) (entry : α × β)
    (member : entry ∈ log) : (log.flatMap gives).count entry.1 = (gives entry).count entry.1 := by
  induction log with
  | nil => cases member
  | cons head tail ih =>
      rw [List.map_cons, List.nodup_cons] at unique
      rw [List.flatMap_cons, List.count_append]
      rcases List.mem_cons.mp member with rfl | later
      · have absent : entry.1 ∉ tail.flatMap gives := by
          intro inside
          obtain ⟨other, there, given⟩ := List.mem_flatMap.mp inside
          exact unique.1 (own other entry.1 given ▸ List.mem_map_of_mem there)
        rw [List.count_eq_zero.mpr absent, Nat.add_zero]
      · have different : entry.1 ∉ gives head := by
          intro inside
          exact unique.1 (own head entry.1 inside ▸ List.mem_map_of_mem later)
        rw [List.count_eq_zero.mpr different, Nat.zero_add]
        exact ih unique.2 later

theorem only_last {α : Type} (mark : α → Prop) (old before after : List α) (last entry : α) (clean : ∀ other ∈ old, ¬ mark other)
    (marked : mark entry) (split : old ++ [last] = before ++ entry :: after) : after = [] := by
  by_contra more
  obtain ⟨rest, final, rfl⟩ : ∃ rest final, after = rest ++ [final] := ⟨_, _, (List.dropLast_append_getLast more).symm⟩
  rw [← List.cons_append, ← List.append_assoc] at split
  have front := (List.append_inj' split rfl).1
  exact clean entry (front ▸ by simp) marked

end Library
