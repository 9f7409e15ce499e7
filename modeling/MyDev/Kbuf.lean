import MyDev.Library.CString

set_option autoImplicit false

namespace MyDev

open Library

-- The kernel buffer as the chain of strings from `head`; `head == NULL` is the
-- empty chain. The counter is a field of its own, and exact by construction.
structure Kb where
  nodes : List Bytes
  count : Int
  counted : count = nodes.length

def kbInit : Kb := ⟨[], 0, by simp⟩

def kbIsempty (kbuf : Kb) : Bool := kbuf.nodes.isEmpty

def kbIsfull (kbuf : Kb) (max : Int) : Bool := if kbuf.count < max then false else true

-- `data` is the memory from the argument on: the node gets a copy of the
-- string found there, wherever its NUL is.
def kbPush (data : Bytes) (kbuf : Kb) : Kb :=
  ⟨kbuf.nodes ++ [cstr data], kbuf.count + 1, by simp [kbuf.counted]⟩

def kbPop : Kb → Option (Bytes × Kb)
  | ⟨[], _, _⟩ => none
  | ⟨node :: rest, count, counted⟩ => some (node, ⟨rest, count - 1, by simp [counted]⟩)

-- The lengths are written over the start of the array `data`.
def kbScan (data : List Int) (kbuf : Kb) : List Int :=
  kbuf.nodes.map (fun node => (node.length : Int)) ++ data.drop kbuf.nodes.length

theorem kb_isempty_iff (kbuf : Kb) : kbIsempty kbuf = true ↔ kbuf.nodes = [] := by
  simp [kbIsempty]

theorem kb_isfull_iff (kbuf : Kb) (max : Int) : kbIsfull kbuf max = true ↔ max ≤ kbuf.count := by
  simp [kbIsfull]

theorem kb_isfull_false_iff (kbuf : Kb) (max : Int) : kbIsfull kbuf max = false ↔ kbuf.count < max := by
  simp [kbIsfull]

theorem kb_count_nonneg (kbuf : Kb) : 0 ≤ kbuf.count := by
  rw [kbuf.counted]
  omega

theorem kb_pop_none_iff (kbuf : Kb) : kbPop kbuf = none ↔ kbuf.nodes = [] := by
  obtain ⟨nodes, count, counted⟩ := kbuf
  cases nodes <;> simp [kbPop]

theorem kb_pop_some (kbuf rest : Kb) (node : Bytes) (popped : kbPop kbuf = some (node, rest)) :
    kbuf.nodes = node :: rest.nodes ∧ rest.count = kbuf.count - 1 := by
  obtain ⟨nodes, count, counted⟩ := kbuf
  cases nodes with
  | nil => simp [kbPop] at popped
  | cons first others =>
      simp only [kbPop, Option.some.injEq, Prod.mk.injEq] at popped
      obtain ⟨rfl, rfl⟩ := popped
      exact ⟨rfl, rfl⟩

theorem kb_pop_head (kbuf : Kb) (node : Bytes) (others : List Bytes) (nodes : kbuf.nodes = node :: others) :
    ∃ rest, kbPop kbuf = some (node, rest) := by
  cases found : kbPop kbuf with
  | none =>
      rw [(kb_pop_none_iff _).mp found] at nodes
      cases nodes
  | some popped =>
      obtain ⟨first, rest⟩ := popped
      rw [(kb_pop_some _ _ _ found).1] at nodes
      cases nodes
      exact ⟨rest, rfl⟩

@[simp] theorem kb_push_nodes (data : Bytes) (kbuf : Kb) : (kbPush data kbuf).nodes = kbuf.nodes ++ [cstr data] := rfl

@[simp] theorem kb_push_count (data : Bytes) (kbuf : Kb) : (kbPush data kbuf).count = kbuf.count + 1 := rfl

end MyDev
