import MyDev.DeviceBounds
import MyDev.KbufHeap
import MyDev.Library.Owned

set_option autoImplicit false

namespace MyDev

open Library

structure Kmalloc where
  node : Nat
  block : Nat
  old : Bytes := []

-- The device with its memory. kb_fifo is the chain of cells kbuf.c keeps, and
-- the `value` of a call in progress points into the same heap. The list of
-- strings in `dev` is not looked at.
structure HeapDev (ι : Type) where
  dev : Dev ι
  heap : KbHeap
  value : ι → Option Nat

def KbHeap.store (heap : KbHeap) (block : Nat) (bytes : Bytes) : KbHeap :=
  { heap with chars := Function.update heap.chars block (some bytes) }

-- A write that goes past the end of its block is a fault.
def KbHeap.write (heap : KbHeap) (block : Nat) (bytes : Bytes) : Option KbHeap :=
  (heap.chars block).bind fun old => if bytes.length ≤ old.length then some (heap.store block bytes) else none

-- kfree(NULL) does nothing; freeing a block that is not live is a fault.
def KbHeap.kfree (heap : KbHeap) : Option Nat → Option KbHeap
  | none => some heap
  | some block =>
      if (heap.chars block).isSome then some { heap with chars := Function.update heap.chars block none } else none

def heapPopulate (ds : Ds) (heap : KbHeap) (block : Nat → Int) : Option (Int × Ds) :=
  let len := heap.kbuf.count
  if len ≠ 0 then
    let ready := dsInitStat ds len block
    (kbHeapScan heap len.toNat heap.kbuf.head 0 ready.dsList).map fun list => (len, { ready with dsList := list })
  else some (len, ds)

def statReport (dim : Int) (snapshot : Ds) (env : Env) : Option Ds := do
  if dim = 0 then return dsAddKbValue snapshot dim
  if env.ok = false then none
  let _med ← dsMed snapshot
  let max := dsMax snapshot
  let _min := dsMin snapshot max
  return dsAddKbValue (dsResetStat snapshot) dim

theorem kt_stat_work_eq (ds : Ds) (kbuf : Kb) (env : Env) :
    ktStatWork ds kbuf env = statReport (dsPopulate ds kbuf env.block).1 (dsPopulate ds kbuf env.block).2 env := rfl

section Steps

variable {ι : Type} [DecidableEq ι]

def HeapDev.goto (s : HeapDev ι) (t : ι) (pc : Pc) : HeapDev ι := { s with dev := s.dev.goto t pc }

def HeapDev.hold (s : HeapDev ι) (t : ι) (block : Nat) (bytes : Bytes) : HeapDev ι :=
  { s with heap := s.heap.store block bytes, value := Function.update s.value t (some block) }

-- What `value` points to. A null or dangling pointer yields none.
def HeapDev.held (s : HeapDev ι) (t : ι) : Option Bytes := (s.value t).bind s.heap.chars

def heapClientStep (s : HeapDev ι) (t : ι) (env : Env) (fresh : Kmalloc) : Option (HeapDev ι × List (Event ι)) :=
  match (s.dev.tasks t).pc with
  | .readAlloc dim =>
      if env.ok then
        some ((s.hold t fresh.block (kmallocBytes dim env.mem)).goto t (.readWait dim (kmallocBytes dim env.mem) .test), [])
      else some (s.goto t (.readUnlock 1 [] none), [])
  | .readWait dim value point =>
      (waitLoop s.dev t .waitR 0 (fun _ => kbHeapIsempty s.heap) (.readWait dim value) (.readPop dim value) point).map
        fun dev => ({ s with dev := dev }, [])
  | .readPop dim _ =>
      (s.value t).bind fun block => (s.heap.chars block).bind fun value =>
        (kbHeapPop value s.heap).bind fun (res, got, heap) =>
          if res = 0 then
            (heap.write block got).map fun heap =>
              ({ s with heap := heap }.goto t (.readCopy dim got (cstr got)), [.popped t (cstr got)])
          else some (s.goto t (.readUnlock res [] none), [])
  | .readCopy dim _ taken =>
      if env.ok then (s.held t).map fun value => (s.goto t (.readWake (value.take dim) taken), [])
      else some (s.goto t (.readUnlock (-eFault) [] (some taken)), [])
  -- my_read returns without kfree: nothing points to its block any more.
  | .readUnlock res got taken =>
      some ({ s with dev := (s.dev.setMutex none).goto t (.ret res got), value := Function.update s.value t none },
        [.readDone t res taken])
  | .writeAlloc buf =>
      if env.ok then some ((s.hold t fresh.block (kmallocBytes buf.length fresh.old)).goto t (.writeWait buf .test), [])
      else some (s.goto t (.writeUnlock 1), [])
  | .writeWait buf point =>
      (waitLoop s.dev t .waitW s.dev.devStat.dsKbMax (kbHeapIsfull s.heap) (.writeWait buf) (.writeCopy buf) point).map
        fun dev => ({ s with dev := dev }, [])
  | .writeCopy buf =>
      if env.ok then
        (s.value t).bind fun block => (s.heap.write block buf).map fun heap =>
          ({ s with heap := heap }.goto t (.writePush buf), [])
      else some (s.goto t (.writeUnlock (-eFault)), [])
  -- strlen must find the NUL before the end of the block, also when kmalloc
  -- fails afterwards.
  | .writePush _ =>
      (s.held t).bind fun value =>
        if 0 ∈ value then
          if env.ok then
            (kbHeapPush value fresh.node fresh.block (kmallocBytes ((cstr value).length + 1) fresh.old) s.heap).map fun heap =>
              ({ s with heap := heap }.goto t (.writeWake 0), [.pushed t (cstr value)])
          else some (s.goto t .oops, [])
        else none
  | .writeUnlock res =>
      (s.heap.kfree (s.value t)).map fun heap =>
        (⟨(s.dev.setMutex none).goto t (.ret res []), heap, Function.update s.value t none⟩, [.writeDone t res])
  | _ => (clientStep s.dev t env).map fun (dev, out) => ({ s with dev := dev }, out)

def heapKtStep (s : HeapDev ι) (k : Kt) (env : Env) : Option (HeapDev ι × List (Event ι)) :=
  match (s.dev.kts k).pc, k with
  | .work, .ktStat =>
      (heapPopulate s.dev.devStat s.heap env.block).map fun (dim, snapshot) =>
        match statReport dim snapshot env with
        | none => ({ s with dev := s.dev.gotoKt .ktStat .oops }, [])
        | some ds => ({ s with dev := { s.dev with devStat := ds }.gotoKt .ktStat (.unlock true) }, [.sampled s.heap.kbuf.count])
  | _, _ => (ktStep s.dev k env).map fun (dev, out) => ({ s with dev := dev }, out)

def heapDevice (ι : Type) [DecidableEq ι] : Machine (HeapDev ι) (Action ι × Kmalloc) (Event ι) where
  step s move :=
    if s.heap.fresh move.2.node move.2.block then
      match move.1 with
      | .go t env => heapClientStep s t env move.2
      | .kt k env => heapKtStep s k env
      | action => ((device ι).step s.dev action).map fun (dev, out) => ({ s with dev := dev }, out)
    else none

def heapInit (ι : Type) : HeapDev ι := ⟨myModuleInit ι, kbHeapInit, fun _ => none⟩

end Steps

inductive Owner (ι : Type) where
  | queue
  | call (t : ι)
  | lost

-- The queue holds the blocks of the strings in it, a call the one `value`
-- points to. The blocks in `lost` are nobody's.
def Owner.Holds {ι : Type} (value : ι → Option Nat) (chain : List (Nat × Nat)) (lost : List Nat) : Owner ι → Nat → Prop
  | .queue, block => block ∈ chain.map Prod.snd
  | .call t, block => value t = some block
  | .lost, block => block ∈ lost

structure Accounts {ι : Type} (heap : KbHeap) (value : ι → Option Nat) (chain : List (Nat × Nat)) (lost : List Nat) : Prop where
  cells : ∀ node, heap.kbuf.cells node ≠ none → node ∈ addresses chain
  owned : Owned heap.chars (Owner.Holds value chain lost)
  apart : lost.Nodup

def Pc.Points (value : Option Nat) (held : Option Bytes) : Pc → Prop
  | .readWait dim bytes _ | .readPop dim bytes => held = some bytes ∧ bytes.length = dim
  | .readCopy _ bytes _ | .writePush bytes => held = some bytes
  | .writeWait buf _ | .writeCopy buf => ∃ bytes, held = some bytes ∧ bytes.length = buf.length
  | .readWake _ _ | .writeWake _ => value.isSome = true
  | .readUnlock _ _ taken => value.isSome = taken.isSome
  | .writeUnlock _ | .oops => True
  | _ => value = none

theorem holds_chars (heap : KbHeap) (chain : List (Nat × Nat)) (kb : Kb) (block : Nat) (bytes : Option Bytes)
    (holds : heap.Holds chain kb) (outside : block ∉ chain.map Prod.snd) :
    ({ heap with chars := Function.update heap.chars block bytes } : KbHeap).Holds chain kb where
  follows := holds.follows
  distinct := holds.distinct
  final := holds.final
  counted := holds.counted
  owns := owns_write _ _ _ block bytes holds.owns outside
  count := holds.count

theorem heap_populate_holds (ds : Ds) (heap : KbHeap) (chain : List (Nat × Nat)) (kb : Kb) (block : Nat → Int)
    (holds : heap.Holds chain kb) : heapPopulate ds heap block = some (dsPopulate ds kb block) := by
  unfold heapPopulate dsPopulate
  simp only [holds.count]
  split
  · have room : kb.count ≤ ((dsInitStat ds kb.count block).dsList.length : Int) := by
      simp only [dsInitStat, List.length_map, List.length_range]
      exact Int.self_le_toNat kb.count
    have fuel : kb.count.toNat = kb.nodes.length := by simp [kb.counted]
    rw [fuel, kb_scan_holds heap chain kb _ holds room]
    rfl
  · rfl

theorem kb_push_heap (heap next : KbHeap) (chain : List (Nat × Nat)) (kb : Kb) (data old : Bytes) (node block : Nat)
    (holds : heap.Holds chain kb) (fresh : heap.fresh node block = true) (pushed : kbHeapPush data node block old heap = some next) :
    next.chars = Function.update heap.chars block (some (strcpy old data)) ∧
      ∀ other, other ≠ node → other ∉ addresses chain → next.kbuf.cells other = heap.kbuf.cells other := by
  simp only [KbHeap.fresh, Bool.and_eq_true, Option.isNone_iff_eq_none] at fresh
  obtain ⟨kbuf, appended, _, _, others⟩ := append_sound heap.kbuf chain node block (holds_sound heap chain kb holds) fresh.1
  rw [kbHeapPush, appended] at pushed
  cases pushed
  exact ⟨rfl, others⟩

theorem kb_pop_heap (heap next : KbHeap) (node block : Nat) (rest : List (Nat × Nat)) (kb : Kb) (data got : Bytes)
    (holds : heap.Holds ((node, block) :: rest) kb) (popped : kbHeapPop data heap = some (0, got, next)) :
    (∃ text, heap.chars block = some text ∧ got = strcpy data text) ∧ next.chars = Function.update heap.chars block none ∧
      next.kbuf.cells = Function.update heap.kbuf.cells node none := by
  obtain ⟨kbuf, unlinked, _, cells, _⟩ := unlink_sound heap.kbuf node block rest (holds_sound heap _ kb holds)
  obtain ⟨text, _, _, live, _, _⟩ := owns_first heap.chars node block rest kb.nodes holds.owns
  have head : heap.kbuf.head.isNone = false := by
    rw [chain_head _ _ _ holds.follows]
    rfl
  simp only [kbHeapPop, head, Bool.false_eq_true, if_false, unlinked, Option.bind_some, live, Option.map_some,
    Option.some.injEq, Prod.mk.injEq, true_and] at popped
  obtain ⟨rfl, rfl⟩ := popped
  exact ⟨⟨text, live, rfl⟩, rfl, cells⟩

section Accounting

variable {ι : Type} {heap : KbHeap} {value : ι → Option Nat} {chain : List (Nat × Nat)} {kb : Kb} {lost : List Nat}

theorem value_outside (accounts : Accounts heap value chain lost) (t : ι) (block : Nat) (points : value t = some block) :
    block ∉ chain.map Prod.snd := by
  intro member
  have owned : Owner.Holds value chain lost .queue block := member
  cases accounts.owned.sole (.call t) .queue block points owned

theorem value_not_lost (accounts : Accounts heap value chain lost) (t : ι) (block : Nat) (points : value t = some block) :
    block ∉ lost := by
  intro member
  have owned : Owner.Holds value chain lost .lost block := member
  cases accounts.owned.sole (.call t) .lost block points owned

theorem value_alone (accounts : Accounts heap value chain lost) (t u : ι) (block : Nat) (points : value t = some block)
    (also : value u = some block) : u = t := by
  cases accounts.owned.sole (.call t) (.call u) block points also
  rfl

theorem queue_not_lost (accounts : Accounts heap value chain lost) (block : Nat) (member : block ∈ chain.map Prod.snd) :
    block ∉ lost := by
  intro also
  have owned : Owner.Holds value chain lost .lost block := also
  cases accounts.owned.sole .queue .lost block member owned

variable [DecidableEq ι]

theorem accounts_hold (accounts : Accounts heap value chain lost) (t : ι) (block : Nat) (bytes : Bytes)
    (nothing : value t = none) (fresh : heap.chars block = none) :
    Accounts (heap.store block bytes) (Function.update value t (some block)) chain lost := by
  have free := owned_dead accounts.owned block fresh
  refine ⟨accounts.cells, owned_take accounts.owned block bytes (.call t) ?_ ?_, accounts.apart⟩
  · intro other
    cases other with
    | queue => exact iff_of_false (free .queue) (by simp)
    | lost => exact iff_of_false (free .lost) (by simp)
    | call u =>
        by_cases here : u = t
        · subst here
          simp [Owner.Holds]
        · simpa [Owner.Holds, here] using free (.call u)
  · intro other there different
    cases other with
    | queue | lost => exact Iff.rfl
    | call u =>
        by_cases here : u = t
        · subst here
          simp [Owner.Holds, nothing, Ne.symm different]
        · simp [Owner.Holds, here]

omit [DecidableEq ι] in
theorem accounts_store (accounts : Accounts heap value chain lost) (t : ι) (block : Nat) (bytes : Bytes)
    (points : value t = some block) : Accounts (heap.store block bytes) value chain lost := by
  refine ⟨accounts.cells, owned_take accounts.owned block bytes (.call t) ?_ fun _ _ _ => Iff.rfl, accounts.apart⟩
  intro other
  constructor
  · intro also
    exact accounts.owned.sole (.call t) other block points also
  · rintro rfl
    exact points

theorem accounts_kfree (accounts : Accounts heap value chain lost) (t : ι) (block : Nat) (points : value t = some block) :
    Accounts { heap with chars := Function.update heap.chars block none } (Function.update value t none) chain lost := by
  refine ⟨accounts.cells, owned_free accounts.owned block ?_ ?_, accounts.apart⟩
  · intro other
    cases other with
    | queue => exact value_outside accounts t block points
    | lost => exact value_not_lost accounts t block points
    | call u =>
        by_cases here : u = t
        · subst here
          simp [Owner.Holds]
        · simp only [Owner.Holds, Function.update_of_ne here]
          exact fun also => here (value_alone accounts t u block points also)
  · intro other there different
    cases other with
    | queue | lost => exact Iff.rfl
    | call u =>
        by_cases here : u = t
        · subst here
          simp [Owner.Holds, points, Ne.symm different]
        · simp [Owner.Holds, here]

theorem accounts_abandon (accounts : Accounts heap value chain lost) (t : ι) (block : Nat) (points : value t = some block) :
    Accounts heap (Function.update value t none) chain (block :: lost) := by
  refine ⟨accounts.cells, ?_, List.nodup_cons.mpr ⟨value_not_lost accounts t block points, accounts.apart⟩⟩
  obtain ⟨bytes, live⟩ := Option.ne_none_iff_exists'.mp (accounts.owned.live (.call t) block points)
  rw [← Function.update_eq_self block heap.chars, live]
  refine owned_take accounts.owned block bytes .lost ?_ ?_
  · intro other
    cases other with
    | queue => exact iff_of_false (value_outside accounts t block points) (by simp)
    | lost => simp [Owner.Holds]
    | call u =>
        by_cases here : u = t
        · subst here
          simp [Owner.Holds]
        · simp only [Owner.Holds, Function.update_of_ne here]
          exact iff_of_false (fun also => here (value_alone accounts t u block points also)) (by simp)
  · intro other there different
    cases other with
    | queue => exact Iff.rfl
    | lost => simp [Owner.Holds, different]
    | call u =>
        by_cases here : u = t
        · subst here
          simp [Owner.Holds, points, Ne.symm different]
        · simp [Owner.Holds, here]

omit [DecidableEq ι] in
theorem accounts_push (accounts : Accounts heap value chain lost) (next : KbHeap) (data old : Bytes) (node block : Nat)
    (holds : heap.Holds chain kb) (fresh : heap.fresh node block = true)
    (pushed : kbHeapPush data node block old heap = some next) : Accounts next value (chain ++ [(node, block)]) lost := by
  obtain ⟨chars, cells⟩ := kb_push_heap heap next chain kb data old node block holds fresh pushed
  simp only [KbHeap.fresh, Bool.and_eq_true, Option.isNone_iff_eq_none] at fresh
  have free := owned_dead accounts.owned block fresh.2
  refine ⟨?_, ?_, accounts.apart⟩
  · intro other live
    rw [addresses_append]
    by_cases here : other = node
    · simp [here]
    · by_cases member : other ∈ addresses chain
      · simp [member]
      · rw [cells other here member] at live
        exact absurd (accounts.cells other live) member
  · rw [chars]
    refine owned_take accounts.owned block _ .queue ?_ ?_
    · intro other
      cases other with
      | queue => simp [Owner.Holds]
      | lost => exact iff_of_false (free .lost) (by simp)
      | call u => exact iff_of_false (free (.call u)) (by simp)
    · intro other there different
      cases other with
      | queue => simp [Owner.Holds, different]
      | lost | call => exact Iff.rfl

omit [DecidableEq ι] in
theorem accounts_pop {node block : Nat} {rest : List (Nat × Nat)} (accounts : Accounts heap value ((node, block) :: rest) lost)
    (next : KbHeap) (data got : Bytes) (holds : heap.Holds ((node, block) :: rest) kb)
    (popped : kbHeapPop data heap = some (0, got, next)) : Accounts next value rest lost := by
  obtain ⟨_, chars, cells⟩ := kb_pop_heap heap next node block rest kb data got holds popped
  have member : block ∈ ((node, block) :: rest).map Prod.snd := by simp
  refine ⟨?_, ?_, accounts.apart⟩
  · intro other live
    rw [cells] at live
    by_cases here : other = node
    · rw [here, Function.update_self] at live
      exact absurd rfl live
    · rw [Function.update_of_ne here] at live
      simpa [here] using accounts.cells other live
  · rw [chars]
    refine owned_free accounts.owned block ?_ ?_
    · intro other
      cases other with
      | queue => exact (List.nodup_cons.mp holds.owns.apart).1
      | lost => exact queue_not_lost accounts block member
      | call u => exact fun points => value_outside accounts u block points member
    · intro other there different
      cases other with
      | queue => simp [Owner.Holds, different]
      | lost | call => exact Iff.rfl

end Accounting

end MyDev
