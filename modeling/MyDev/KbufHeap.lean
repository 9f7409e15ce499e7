import MyDev.Kbuf
import MyDev.Library.Fifo
import MyDev.Library.Linked

set_option autoImplicit false

namespace MyDev

open Library

-- The buffer as kbuf.c has it: kb_node cells whose `data` points to a block of
-- characters, with `head`, `tail` and `count` of struct kb. A function that
-- follows a null or dangling pointer yields none.
structure KbHeap where
  kbuf : Linked Nat
  chars : Heap Bytes

def kbHeapInit : KbHeap := ⟨.empty, fun _ => none⟩

def kbHeapIsempty (s : KbHeap) : Bool := s.kbuf.head.isNone

def kbHeapIsfull (s : KbHeap) (max : Int) : Bool := if s.kbuf.count < max then false else true

-- kmalloc chooses `node` and `block`; the block holds `old` until strcpy.
def kbHeapPush (data : Bytes) (node block : Nat) (old : Bytes) (s : KbHeap) : Option KbHeap :=
  (s.kbuf.append node block).map fun kbuf => ⟨kbuf, Function.update s.chars block (some (strcpy old data))⟩

def kbHeapPop (data : Bytes) (s : KbHeap) : Option (Int × Bytes × KbHeap) :=
  if s.kbuf.head.isNone then some (1, data, s)
  else
    s.kbuf.unlink.bind fun (block, kbuf) =>
      (s.chars block).map fun text => (0, strcpy data text, ⟨kbuf, Function.update s.chars block none⟩)

-- The loop of kb_scan from the cell `p` on; a write outside `data` is a fault.
def kbHeapScan (s : KbHeap) : Nat → Option Nat → Nat → List Int → Option (List Int)
  | _, none, _, data => some data
  | 0, some _, _, _ => none
  | fuel + 1, some p, i, data =>
      (s.kbuf.cells p).bind fun node =>
        (s.chars node.data).bind fun text =>
          if i < data.length then kbHeapScan s fuel node.next (i + 1) (data.set i (cstr text).length) else none

inductive KbAction where
  | push (data : Bytes) (node block : Nat) (old : Bytes)
  | pop (data : Bytes)

inductive KbEvent where
  | pushed (text : Bytes)
  | popped (data : Bytes)
  | missed
deriving DecidableEq, Repr

def KbHeap.fresh (s : KbHeap) (node block : Nat) : Bool := (s.kbuf.cells node).isNone && (s.chars block).isNone

def KbEvent.ofPop (res : Int) (data : Bytes) : KbEvent := if res = 0 then .popped data else .missed

def kbHeap : Machine KbHeap KbAction KbEvent where
  step
    | s, .push data node block old =>
        if s.fresh node block then (kbHeapPush data node block old s).map fun next => (next, [.pushed (cstr data)]) else none
    | s, .pop data => (kbHeapPop data s).map fun (res, got, next) => (next, [.ofPop res (cstr got)])

def KbEvent.observe : KbEvent → List (FifoEvent Bytes)
  | .pushed text => [.pushed text]
  | .popped data => [.popped data]
  | .missed => []

structure KbHeap.Holds (s : KbHeap) (chain : List (Nat × Nat)) (kb : Kb) : Prop where
  follows : Chain s.kbuf.cells s.kbuf.head chain
  distinct : (addresses chain).Nodup
  final : s.kbuf.tail = (addresses chain).getLast?
  counted : s.kbuf.count = chain.length
  owns : Owns s.chars chain kb.nodes
  count : s.kbuf.count = kb.count

theorem holds_of_sound (s : KbHeap) (chain : List (Nat × Nat)) (kb : Kb) (sound : s.kbuf.Sound chain)
    (final : s.kbuf.tail = (addresses chain).getLast?) (owns : Owns s.chars chain kb.nodes) : s.Holds chain kb where
  follows := sound.follows
  distinct := chain_nodup _ _ _ sound.follows
  final := final
  counted := sound.counted
  owns := owns
  count := by rw [sound.counted, kb.counted, owns_length _ _ _ owns]

theorem holds_sound (s : KbHeap) (chain : List (Nat × Nat)) (kb : Kb) (holds : s.Holds chain kb) : s.kbuf.Sound chain :=
  ⟨holds.follows, holds.counted, fun _ => holds.final⟩

theorem kb_init_holds : kbHeapInit.Holds [] kbInit :=
  holds_of_sound _ _ _ sound_empty rfl (owns_nil _)

theorem holds_head_none_iff (s : KbHeap) (chain : List (Nat × Nat)) (kb : Kb) (holds : s.Holds chain kb) :
    s.kbuf.head = none ↔ kb.nodes = [] := by
  have same := owns_length _ _ _ holds.owns
  rw [chain_head _ _ _ holds.follows, List.head?_eq_none_iff, ← List.length_eq_zero_iff, ← List.length_eq_zero_iff, ← same]
  simp [addresses]

theorem kb_isempty_holds (s : KbHeap) (chain : List (Nat × Nat)) (kb : Kb) (holds : s.Holds chain kb) :
    kbHeapIsempty s = kbIsempty kb := by
  rw [Bool.eq_iff_iff, kb_isempty_iff, ← holds_head_none_iff s chain kb holds]
  simp [kbHeapIsempty]

theorem kb_isfull_holds (s : KbHeap) (chain : List (Nat × Nat)) (kb : Kb) (max : Int) (holds : s.Holds chain kb) :
    kbHeapIsfull s max = kbIsfull kb max := by
  rw [kbHeapIsfull, kbIsfull, holds.count]

theorem kb_push_holds (s : KbHeap) (chain : List (Nat × Nat)) (kb : Kb) (data old : Bytes) (node block : Nat)
    (holds : s.Holds chain kb) (fresh : s.fresh node block = true) :
    ∃ next, kbHeapPush data node block old s = some next ∧ next.Holds (chain ++ [(node, block)]) (kbPush data kb) := by
  simp only [KbHeap.fresh, Bool.and_eq_true, Option.isNone_iff_eq_none] at fresh
  obtain ⟨kbuf, appended, sound, tail, _⟩ := append_sound s.kbuf chain node block (holds_sound s chain kb holds) fresh.1
  have owns := owns_append s.chars chain kb.nodes node block (strcpy old data) holds.owns fresh.2
  rw [cstr_strcpy] at owns
  refine ⟨⟨kbuf, _⟩, by rw [kbHeapPush, appended]; rfl, holds_of_sound _ _ _ sound ?_ owns⟩
  rw [tail, addresses_append]
  exact List.getLast?_concat.symm

theorem kb_pop_empty_holds (s : KbHeap) (chain : List (Nat × Nat)) (kb : Kb) (data : Bytes) (holds : s.Holds chain kb)
    (empty : kb.nodes = []) : kbHeapPop data s = some (1, data, s) := by
  rw [kbHeapPop, (holds_head_none_iff s chain kb holds).mpr empty]
  rfl

theorem kb_pop_holds (s : KbHeap) (chain : List (Nat × Nat)) (kb rest : Kb) (data text : Bytes) (holds : s.Holds chain kb)
    (popped : kbPop kb = some (text, rest)) :
    ∃ got next, kbHeapPop data s = some (0, got, next) ∧ cstr got = text ∧ next.Holds chain.tail rest := by
  obtain ⟨nodes, _⟩ := kb_pop_some kb rest text popped
  have same := owns_length _ _ _ holds.owns
  cases chain with
  | nil => simp [nodes] at same
  | cons first others =>
      obtain ⟨node, block⟩ := first
      obtain ⟨kbuf, unlinked, sound, _, tail⟩ := unlink_sound s.kbuf node block others (holds_sound s _ kb holds)
      obtain ⟨bytes, texts, queue, live, owns, outside⟩ := owns_first s.chars node block others kb.nodes holds.owns
      rw [nodes, List.cons.injEq] at queue
      obtain ⟨rfl, rfl⟩ := queue
      have head : s.kbuf.head.isNone = false := by
        rw [chain_head _ _ _ holds.follows]
        rfl
      refine ⟨strcpy data bytes, ⟨kbuf, Function.update s.chars block none⟩, ?_, cstr_strcpy _ _, ?_⟩
      · simp [kbHeapPop, head, unlinked, live]
      · exact holds_of_sound _ _ _ sound tail (owns_write _ _ _ block none owns outside)

theorem set_take_next (data : List Int) (value : Int) (i : Nat) (inside : i < data.length) :
    (data.set i value).take (i + 1) = data.take i ++ [value] := by
  rw [List.take_add_one, List.take_set_of_le (Nat.le_refl i), List.getElem?_set_self inside]
  rfl

theorem kb_scan_loop (s : KbHeap) (link : Option Nat) (rest : List (Nat × Nat)) (queue : List Bytes) (fuel i : Nat)
    (data : List Int) (follows : Chain s.kbuf.cells link rest) (owns : Owns s.chars rest queue) (enough : rest.length ≤ fuel)
    (room : i + rest.length ≤ data.length) :
    kbHeapScan s fuel link i data =
      some (data.take i ++ queue.map (fun node => (node.length : Int)) ++ data.drop (i + rest.length)) := by
  induction follows generalizing queue fuel i data with
  | nil =>
      have empty := owns_length _ _ _ owns
      obtain rfl := List.length_eq_zero_iff.mp empty.symm
      simp [kbHeapScan]
  | @cons node cell rest live onward ih =>
      obtain ⟨bytes, others, rfl, read, tail, _⟩ := owns_first s.chars node cell.data rest queue owns
      simp only [List.length_cons] at enough room
      cases fuel with
      | zero => omega
      | succ fuel =>
          have inside : i < data.length := by omega
          have later := ih others fuel (i + 1) (data.set i (cstr bytes).length) tail (by omega) (by simp; omega)
          rw [set_take_next data _ i inside, List.drop_set_of_lt (by omega)] at later
          simp only [kbHeapScan, live, read, Option.bind_some, inside, if_true, later]
          simp [Nat.add_assoc, Nat.add_comm 1]

theorem kb_scan_holds (s : KbHeap) (chain : List (Nat × Nat)) (kb : Kb) (data : List Int) (holds : s.Holds chain kb)
    (room : kb.count ≤ data.length) : kbHeapScan s kb.nodes.length s.kbuf.head 0 data = some (kbScan data kb) := by
  have same := owns_length _ _ _ holds.owns
  have fits : chain.length ≤ data.length := by
    rw [kb.counted] at room
    omega
  rw [kb_scan_loop s s.kbuf.head chain kb.nodes kb.nodes.length 0 data holds.follows holds.owns (by omega) (by omega)]
  simp [kbScan, same]

theorem kb_heap_step (s next : KbHeap) (chain : List (Nat × Nat)) (kb : Kb) (action : KbAction) (out : List KbEvent)
    (holds : s.Holds chain kb) (stepped : kbHeap.step s action = some (next, out)) :
    ∃ chain' kb', next.Holds chain' kb' ∧
      (kb'.nodes = kb.nodes ∧ out.flatMap KbEvent.observe = [] ∨
        ∃ move, (fifo Bytes).step kb.nodes move = some (kb'.nodes, out.flatMap KbEvent.observe)) := by
  cases action with
  | push data node block old =>
      simp only [kbHeap] at stepped
      split at stepped
      · rename_i fresh
        obtain ⟨pushed, made, after⟩ := kb_push_holds s chain kb data old node block holds fresh
        rw [made] at stepped
        cases stepped
        exact ⟨_, _, after, .inr ⟨.push (cstr data), rfl⟩⟩
      · cases stepped
  | pop data =>
      simp only [kbHeap] at stepped
      cases found : kbPop kb with
      | none =>
          rw [kb_pop_empty_holds s chain kb data holds ((kb_pop_none_iff kb).mp found)] at stepped
          cases stepped
          exact ⟨chain, kb, holds, .inl ⟨rfl, rfl⟩⟩
      | some result =>
          obtain ⟨text, rest⟩ := result
          obtain ⟨got, popped, made, rfl, after⟩ := kb_pop_holds s chain kb rest data text holds found
          rw [made] at stepped
          cases stepped
          refine ⟨_, rest, after, .inr ⟨.pop, ?_⟩⟩
          rw [(kb_pop_some kb rest _ found).1]
          rfl

theorem kb_heap_run {events : List KbEvent} {s : KbHeap} (run : Run kbHeap Any kbHeapInit events s) :
    ∃ chain kb, s.Holds chain kb ∧ Run (fifo Bytes) Any [] (events.flatMap KbEvent.observe) kb.nodes := by
  induction run with
  | nil => exact ⟨[], kbInit, kb_init_holds, .nil⟩
  | snoc action before allowed stepped ih =>
      obtain ⟨chain, kb, holds, queue⟩ := ih
      obtain ⟨chain', kb', after, moved⟩ := kb_heap_step _ _ chain kb action _ holds stepped
      refine ⟨chain', kb', after, ?_⟩
      rw [List.flatMap_append]
      rcases moved with ⟨same, silent⟩ | ⟨move, moved⟩
      · rw [same, silent, List.append_nil]
        exact queue
      · exact .snoc move queue trivial moved

theorem holds_cell_live (s : KbHeap) (chain : List (Nat × Nat)) (kb : Kb) (holds : s.Holds chain kb) (node : Nat)
    (member : node ∈ addresses chain) : ∃ cell, s.kbuf.cells node = some cell ∧ (s.chars cell.data).isSome = true := by
  obtain ⟨pair, inside, rfl⟩ := List.mem_map.mp member
  obtain ⟨cell, live, data⟩ := chain_member _ _ _ holds.follows pair inside
  obtain ⟨bytes, read⟩ := owns_live _ _ _ holds.owns pair.2 (List.mem_map_of_mem inside)
  exact ⟨cell, live, by rw [data, read]; rfl⟩

theorem holds_tail_none_iff (s : KbHeap) (chain : List (Nat × Nat)) (kb : Kb) (holds : s.Holds chain kb) :
    s.kbuf.tail = none ↔ s.kbuf.head = none := by
  rw [holds.final, chain_head _ _ _ holds.follows, List.getLast?_eq_none_iff, List.head?_eq_none_iff]

theorem kb_heap_refines_queue {events : List KbEvent} {s : KbHeap} (run : Run kbHeap Any kbHeapInit events s) :
    ∃ chain kb, s.Holds chain kb ∧ Run (fifo Bytes) Any [] (events.flatMap KbEvent.observe) kb.nodes ∧
      (s.kbuf.tail = none ↔ s.kbuf.head = none) ∧
      (∀ node ∈ addresses chain, ∃ cell, s.kbuf.cells node = some cell ∧ (s.chars cell.data).isSome = true) ∧
      (kbHeapIsempty s = true ↔ chain.length = 0) ∧ (∀ max : Int, kbHeapIsfull s max = true ↔ max ≤ chain.length) ∧
      (∀ data node block old, s.fresh node block = true → ∃ next chain' kb', kbHeapPush data node block old s = some next ∧
        next.Holds chain' kb' ∧ kb'.nodes = kb.nodes ++ [cstr data]) ∧
      (∀ data, kb.nodes = [] → kbHeapPop data s = some (1, data, s)) ∧
      (∀ data text rest, kb.nodes = text :: rest → ∃ got next chain' kb', kbHeapPop data s = some (0, got, next) ∧
        cstr got = text ∧ next.Holds chain' kb' ∧ kb'.nodes = rest) := by
  obtain ⟨chain, kb, holds, queue⟩ := kb_heap_run run
  have same := owns_length _ _ _ holds.owns
  refine ⟨chain, kb, holds, queue, holds_tail_none_iff s chain kb holds, holds_cell_live s chain kb holds, ?_, ?_, ?_, ?_, ?_⟩
  · rw [kb_isempty_holds s chain kb holds, kb_isempty_iff, same, List.length_eq_zero_iff]
  · intro max
    rw [kb_isfull_holds s chain kb max holds, kb_isfull_iff, ← holds.count, holds.counted]
  · intro data node block old fresh
    obtain ⟨next, pushed, after⟩ := kb_push_holds s chain kb data old node block holds fresh
    exact ⟨next, _, _, pushed, after, rfl⟩
  · intro data empty
    exact kb_pop_empty_holds s chain kb data holds empty
  · intro data text rest nodes
    cases found : kbPop kb with
    | none => simp [(kb_pop_none_iff kb).mp found] at nodes
    | some result =>
        obtain ⟨first, others⟩ := result
        have split := (kb_pop_some kb others first found).1
        rw [nodes, List.cons.injEq] at split
        obtain ⟨rfl, rfl⟩ := split
        obtain ⟨got, next, popped, read, after⟩ := kb_pop_holds s chain kb others data text holds found
        exact ⟨got, next, _, others, popped, read, after, rfl⟩

-- Two strings in, one out, one more in, with the freed cell used again.
def kbSchedule : List KbAction := [.push [97, 0] 0 0 [], .push [98, 99, 0] 1 1 [], .pop [0, 0], .push [100, 0] 0 0 [7, 7]]

theorem kb_heap_refines_queue_scheduled :
    ∃ events s, Run kbHeap Any kbHeapInit events s ∧ events = [.pushed [97], .pushed [98, 99], .popped [97], .pushed [100]] ∧
      s.kbuf.head = some 1 ∧ s.kbuf.tail = some 0 ∧ ∃ chain kb, s.Holds chain kb ∧ chain.length = 2 := by
  obtain ⟨events, s, run, seen⟩ := exec_reaches_any kbHeap kbHeapInit kbSchedule
    (fun s events => events = [.pushed [97], .pushed [98, 99], .popped [97], .pushed [100]] && s.kbuf.head = some 1 &&
      s.kbuf.tail = some 0 && s.kbuf.count = 2) (by decide +kernel)
  simp only [Bool.and_eq_true, decide_eq_true_eq] at seen
  obtain ⟨⟨⟨trace, head⟩, tail⟩, count⟩ := seen
  obtain ⟨chain, kb, holds, _⟩ := kb_heap_refines_queue run
  have counted := holds.counted
  exact ⟨events, s, run, trace, head, tail, chain, kb, holds, by omega⟩

end MyDev
