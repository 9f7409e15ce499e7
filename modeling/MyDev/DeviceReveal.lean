import MyDev.DeviceFifo

set_option autoImplicit false

namespace MyDev

open Library

def Pc.got : Pc → Option Bytes
  | .ret res got => if res = 0 then some got else none
  | _ => none

section Reveal

variable {ι : Type} [DecidableEq ι]

-- One my_read from its call to its return, with nobody else running. `old` is
-- what the block that kmalloc returns held before.
def readCall (t : ι) (dim : Nat) (old : Bytes) : List (Action ι) :=
  [Action.call t (.myRead dim)] ++ alone t 1 ++ [Action.go t { mem := old }] ++ alone t 5

def revealed (s : Dev ι) (t : ι) (dim : Nat) (old : Bytes) : Option Bytes :=
  ((device ι).exec (fun _ _ => true) s (readCall t dim old)).bind fun result => (result.1.tasks t).pc.got

theorem nodes_clean {ok : Dev ι → Action ι → Prop} {events : List (Event ι)} {s : Dev ι}
    (run : Run (device ι) ok (myModuleInit ι) events s) : ∀ node ∈ s.kbFifo.nodes, 0 ∉ node := by
  refine Run.invariant (fun _ s => ∀ node ∈ s.kbFifo.nodes, 0 ∉ node) (by simp [myModuleInit, kbInit]) ?_ run
  intro _ s action next out _ clean _ stepped
  cases device_moves s next action out stepped with
  | client move =>
      cases move with
      | popped point found =>
          intro node member
          apply clean
          rw [(kb_pop_some _ _ _ found).1]
          exact List.mem_cons_of_mem _ member
      | pushed =>
          intro node member
          rcases List.mem_append.mp member with old | new
          · exact clean node old
          · rw [List.mem_singleton.mp new]
            exact cstr_no_nul _
      | opened => simpa using clean
      | _ => exact clean
  | kt move => cases move <;> exact clean
  | _ => exact clean

theorem revealed_bytes (s : Dev ι) (t : ι) (dim : Nat) (old node : Bytes) (rest : Kb) (free : s.devMutex = none)
    (idle : (s.tasks t).pc = .user) (head : kbPop s.kbFifo = some (node, rest)) :
    revealed s t dim old = some ((strcpy (kmallocBytes dim old) (node ++ [0])).take dim) := by
  have filled : kbIsempty s.kbFifo = false := by
    simp [kbIsempty, (kb_pop_some _ _ _ head).1]
  simp [revealed, readCall, alone, Machine.exec, device, callStep, idle, clientStep, Op.entry, mutexLock, free,
    waitLoop, filled, head, List.replicate, Pc.got]

theorem revealed_split (s : Dev ι) (t : ι) (dim : Nat) (old node : Bytes) (others : List Bytes) (free : s.devMutex = none)
    (idle : (s.tasks t).pc = .user) (nodes : s.kbFifo.nodes = node :: others) (clean : 0 ∉ node) (room : node.length < dim)
    (block : old.length = dim) : revealed s t dim old = some (node ++ 0 :: old.drop (node.length + 1)) := by
  obtain ⟨rest, head⟩ := kb_pop_head s.kbFifo node others nodes
  rw [revealed_bytes s t dim old node rest free idle head]
  have text : cstr (node ++ [0]) = node := cstr_append_nul node [] clean
  have whole : kmallocBytes dim old = old := by simp [kmallocBytes, ← block]
  have length : (node ++ 0 :: old.drop (node.length + 1)).length = dim := by
    simp only [List.length_append, List.length_cons, List.length_drop]
    omega
  rw [whole, strcpy, text, List.take_of_length_le (by omega)]

theorem read_reveals_iff {events : List (Event ι)} {s : Dev ι} (run : Run (device ι) Any (myModuleInit ι) events s)
    (t : ι) (free : s.devMutex = none) (idle : (s.tasks t).pc = .user) (node : Bytes) (others : List Bytes)
    (nodes : s.kbFifo.nodes = node :: others) (dim : Nat) (room : node.length < dim) :
    (∀ old, old.length = dim → ∃ got, revealed s t dim old = some got ∧ got.length = dim) ∧
      ((∀ old other : Bytes, old.length = dim → other.length = dim → revealed s t dim old = revealed s t dim other) ↔
        dim = node.length + 1) := by
  have clean : 0 ∉ node := nodes_clean run node (by simp [nodes])
  have split := fun old => revealed_split s t dim old node others free idle nodes clean room
  refine ⟨?_, ?_, ?_⟩
  · intro old block
    refine ⟨_, split old block, ?_⟩
    simp only [List.length_append, List.length_cons, List.length_drop]
    omega
  · intro same
    -- A block of zeros and a block of ones tell the two apart.
    have equal := same (List.replicate dim 0) (List.replicate dim 1) (by simp) (by simp)
    rw [split _ (by simp), split _ (by simp)] at equal
    simp only [List.drop_replicate, Option.some.injEq, List.append_cancel_left_eq, List.cons.injEq, true_and] at equal
    have empty : dim - (node.length + 1) = 0 := by
      by_contra more
      simp [List.replicate_inj, more] at equal
    omega
  · rintro rfl old other block otherBlock
    rw [split old block, split other otherBlock, List.drop_of_length_le (by omega), List.drop_of_length_le (by omega)]

end Reveal

theorem read_reveals_iff_exact : ∃ events s, Run (device Bool) Any (myModuleInit Bool) events s ∧
    s.kbFifo.nodes = [[97]] ∧ revealed s true 2 [5, 6] = revealed s true 2 [7, 8] := by
  obtain ⟨events, s, run, seen⟩ := exec_reaches_any (device Bool)
    (myModuleInit Bool) ([Action.call false (.myWrite [97, 0])] ++ alone false 7)
    (fun s _ => s.devMutex = none ∧ (s.tasks true).pc = .user ∧ s.kbFifo.nodes = [[97]]) (by decide +kernel)
  obtain ⟨free, idle, nodes⟩ : s.devMutex = none ∧ (s.tasks true).pc = .user ∧ s.kbFifo.nodes = [[97]] := by
    simpa using seen
  exact ⟨events, s, run, nodes,
    (read_reveals_iff run true free idle [97] [] nodes 2 (by decide)).2.mpr rfl [5, 6] [7, 8] rfl rfl⟩

-- "a" read with three bytes: the third byte of the old block goes to the user.
theorem read_reveals_old_block : ∃ events s, Run (device Bool) Any (myModuleInit Bool) events s ∧
    s.devMutex = none ∧ s.kbFifo.nodes = [[97]] ∧ revealed s true 3 [5, 5, 5] = some [97, 0, 5] ∧
      revealed s true 3 [6, 6, 6] = some [97, 0, 6] := by
  obtain ⟨events, s, run, seen⟩ := exec_reaches_any (device Bool)
    (myModuleInit Bool) ([Action.call false (.myWrite [97, 0])] ++ alone false 7)
    (fun s _ => s.devMutex = none ∧ s.kbFifo.nodes = [[97]] ∧ revealed s true 3 [5, 5, 5] = some [97, 0, 5] ∧
      revealed s true 3 [6, 6, 6] = some [97, 0, 6]) (by decide +kernel)
  exact ⟨events, s, run, by simpa using seen⟩

end MyDev
