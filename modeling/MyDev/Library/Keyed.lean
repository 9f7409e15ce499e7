import Mathlib.Algebra.BigOperators.Group.Finset.Piecewise
import Mathlib.Algebra.Order.Group.Multiset

set_option autoImplicit false

namespace Library

section Keyed

variable {κ α β : Type} [DecidableEq κ]

def ofKey (key : α → κ) (value : α → β) (k : κ) (log : List α) : List β := (log.filter (key · = k)).map value

theorem of_key_append (key : α → κ) (value : α → β) (k : κ) (front back : List α) :
    ofKey key value k (front ++ back) = ofKey key value k front ++ ofKey key value k back := by
  simp [ofKey]

theorem of_key_cons (key : α → κ) (value : α → β) (k : κ) (entry : α) (log : List α) :
    ofKey key value k (entry :: log) = if key entry = k then value entry :: ofKey key value k log else ofKey key value k log := by
  by_cases mine : key entry = k <;> simp [ofKey, mine]

theorem of_key_none (key : α → κ) (value : α → β) (k : κ) (log : List α) (absent : ∀ entry ∈ log, key entry ≠ k) :
    ofKey key value k log = [] := by
  simpa [ofKey] using absent

theorem of_key_all (key : α → κ) (value : α → β) (k : κ) (log : List α) (mine : ∀ entry ∈ log, key entry = k) :
    ofKey key value k log = log.map value := by
  rw [ofKey, List.filter_eq_self.mpr (by simpa using mine)]

theorem log_sum [Fintype κ] (key : α → κ) (value : α → β) (log : List α) :
    ((log.map value : List β) : Multiset β) = ∑ k, (ofKey key value k log : Multiset β) := by
  induction log with
  | nil => simp [ofKey]
  | cons entry log ih =>
      have each : ∀ k, (ofKey key value k (entry :: log) : Multiset β) =
          (if key entry = k then {value entry} else 0) + (ofKey key value k log : Multiset β) := by
        intro k
        rw [of_key_cons]
        split <;> simp
      rw [Finset.sum_congr rfl fun k _ => each k, Finset.sum_add_distrib, Finset.sum_ite_eq, if_pos (Finset.mem_univ _), ← ih]
      rfl

theorem count_sum [Fintype κ] [BEq β] (key : α → κ) (value : α → β) (log : List α) (item : β) :
    (log.map value).count item = ∑ k, (ofKey key value k log).count item := by
  induction log with
  | nil => simp [ofKey]
  | cons entry log ih =>
      have each : ∀ k, (ofKey key value k (entry :: log)).count item =
          (if key entry = k then if value entry == item then 1 else 0 else 0) + (ofKey key value k log).count item := by
        intro k
        rw [of_key_cons]
        split
        · rw [List.count_cons, Nat.add_comm]
        · rw [Nat.zero_add]
      rw [Finset.sum_congr rfl fun k _ => each k, Finset.sum_add_distrib, Finset.sum_ite_eq, if_pos (Finset.mem_univ _), ← ih,
        List.map_cons, List.count_cons, Nat.add_comm]

end Keyed

end Library
