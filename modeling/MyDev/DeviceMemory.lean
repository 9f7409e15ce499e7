import MyDev.DeviceHeap

set_option autoImplicit false

namespace MyDev

open Library

section Memory

variable {ι : Type} [DecidableEq ι]

def Dev.over (s : Dev ι) (kb : Kb) : Dev ι := { s with kbFifo := kb }

omit [DecidableEq ι] in
@[simp] theorem over_tasks (s : Dev ι) (kb : Kb) : (s.over kb).tasks = s.tasks := rfl

omit [DecidableEq ι] in
theorem over_open (s : Dev ι) (kb : Kb) : myOpen (s.over kb) = (myOpen s).over kb := by
  by_cases first : s.devRun + 1 = 1 <;> simp [myOpen, Dev.over, first, Dev.wakeUpProcess, Dev.putKt]

structure MemInv (s : HeapDev ι) (chain : List (Nat × Nat)) (kb : Kb) (lost : List Nat) : Prop where
  holds : s.heap.Holds chain kb
  accounts : Accounts s.heap s.value chain lost
  points : ∀ t, (s.dev.tasks t).pc.Points (s.value t) (s.held t)

-- A my_read that took a string returns without freeing the block it got for it.
def Event.leaks : Event ι → Bool
  | .readDone _ _ taken => taken.isSome
  | _ => false

def After (lost : List Nat) (next : HeapDev ι) (kb : Kb) (out : List (Event ι)) : Prop :=
  ∃ chain more, MemInv next chain kb more ∧ more.length = lost.length + out.countP Event.leaks

inductive StepSim (after : HeapDev ι → Kb → List (Event ι) → Prop) :
    Option (Dev ι × List (Event ι)) → Option (HeapDev ι × List (Event ι)) → Prop where
  | refused : StepSim after none none
  | taken {next : HeapDev ι} {kb : Kb} {out : List (Event ι)} (holds : after next kb out) :
      StepSim after (some (next.dev.over kb, out)) (some (next, out))

variable {s : HeapDev ι} {chain : List (Nat × Nat)} {kb : Kb} {lost : List Nat} {node block : Nat}

theorem mem_step {chain' : List (Nat × Nat)} {kb' : Kb} {lost' : List Nat} (inv : MemInv s chain kb lost) (next : HeapDev ι)
    (t : ι) (holds : next.heap.Holds chain' kb') (accounts : Accounts next.heap next.value chain' lost')
    (pcs : ∀ u, u ≠ t → (next.dev.tasks u).pc = (s.dev.tasks u).pc) (values : ∀ u, u ≠ t → next.value u = s.value u)
    (kept : ∀ u block, u ≠ t → s.value u = some block → next.heap.chars block = s.heap.chars block)
    (own : (next.dev.tasks t).pc.Points (next.value t) (next.held t)) : MemInv next chain' kb' lost' := by
  refine ⟨holds, accounts, fun u => ?_⟩
  by_cases here : u = t
  · rw [here]
    exact own
  · have same : next.held u = s.held u := by
      unfold HeapDev.held
      rw [values u here]
      cases points : s.value u with
      | none => rfl
      | some block => exact kept u block here points
    rw [pcs u here, values u here, same]
    exact inv.points u

omit [DecidableEq ι] in
theorem sim_taken {more : List Nat} {next : HeapDev ι} {kb : Kb} {out : List (Event ι)} (after : MemInv next chain kb more)
    (lengths : more.length = lost.length + out.countP Event.leaks) :
    StepSim (After lost) (some (next.dev.over kb, out)) (some (next, out)) :=
  have sim : After lost next kb out := ⟨chain, more, after, lengths⟩
  .taken sim

theorem sim_local (inv : MemInv s chain kb lost) (t : ι) (dev : Dev ι) (out : List (Event ι))
    (quiet : out.countP Event.leaks = 0) (pcs : ∀ u, u ≠ t → (dev.tasks u).pc = (s.dev.tasks u).pc)
    (own : (dev.tasks t).pc.Points (s.value t) (s.held t)) :
    StepSim (After lost) (some (dev.over kb, out)) (some ({ s with dev := dev }, out)) := by
  have after : MemInv { s with dev := dev } chain kb lost :=
    mem_step inv { s with dev := dev } t inv.holds inv.accounts pcs (fun _ _ => rfl) (fun _ _ _ _ => rfl) own
  exact sim_taken after (by rw [quiet]; rfl)

theorem sim_goto (inv : MemInv s chain kb lost) (t : ι) (pc : Pc) (out : List (Event ι))
    (quiet : out.countP Event.leaks = 0) (own : pc.Points (s.value t) (s.held t)) :
    StepSim (After lost) (some ((s.dev.over kb).goto t pc, out)) (some (s.goto t pc, out)) :=
  sim_local inv t (s.dev.goto t pc) out quiet (fun u other => by simp [other]) (by simpa using own)

theorem sim_lock (inv : MemInv s chain kb lost) (t : ι) (pc : Pc) (own : pc.Points (s.value t) (s.held t)) :
    StepSim (After lost) ((mutexLock (s.dev.over kb) t pc).map (·, []))
      ((mutexLock s.dev t pc).map fun dev => ({ s with dev := dev }, [])) := by
  unfold mutexLock
  by_cases free : s.dev.devMutex.isNone = true
  · have there : (s.dev.over kb).devMutex.isNone = true := free
    rw [if_pos there, if_pos free]
    exact sim_local inv t ((s.dev.setMutex (some (.client t))).goto t pc) [] rfl (fun u other => by simp [other]) (by simpa using own)
  · have there : ¬ (s.dev.over kb).devMutex.isNone = true := free
    rw [if_neg there, if_neg free]
    exact .refused

theorem sim_wait (inv : MemInv s chain kb lost) (t : ι) (queue : WaitQueue) (arg : Int) (blocked : Int → Bool)
    (stay : WaitPc → Pc) (leave : Pc) (point : WaitPc) (stays : ∀ later, (stay later).Points (s.value t) (s.held t))
    (leaves : leave.Points (s.value t) (s.held t)) :
    StepSim (After lost) ((waitLoop (s.dev.over kb) t queue arg blocked stay leave point).map (·, []))
      ((waitLoop s.dev t queue arg blocked stay leave point).map fun dev => ({ s with dev := dev }, [])) := by
  cases point with
  | test => exact sim_goto inv t _ [] rfl (by split; exacts [stays _, leaves])
  | cond | recheck => exact sim_goto inv t _ [] rfl (stays _)
  | condCall | recheckCall => exact sim_goto inv t _ [] rfl (by split <;> exact stays _)
  | pending => exact sim_goto inv t _ [] rfl (by split <;> exact stays _)
  | unlock =>
      exact sim_local inv t ((s.dev.setMutex none).goto t (stay .cond)) [] rfl (fun u other => by simp [other]) (by simpa using stays _)
  | prepare | finish => exact sim_local inv t (s.dev.put t _) [] rfl (fun u other => by simp [other]) (by simpa using stays _)
  | sched =>
      simp only [waitLoop]
      by_cases awake : (s.dev.tasks t).state = .running
      · have there : ((s.dev.over kb).tasks t).state = .running := awake
        rw [if_pos there, if_pos awake]
        exact sim_goto inv t _ [] rfl (stays _)
      · have there : ¬ ((s.dev.over kb).tasks t).state = .running := awake
        rw [if_neg there, if_neg awake]
        exact .refused
  | relock => exact sim_lock inv t _ (stays _)

omit [DecidableEq ι] in
theorem fresh_chars (new : s.heap.fresh node block = true) : s.heap.chars block = none := by
  simp only [KbHeap.fresh, Bool.and_eq_true, Option.isNone_iff_eq_none] at new
  exact new.2

theorem sim_hold (inv : MemInv s chain kb lost) (t : ι) (block : Nat) (bytes : Bytes) (pc : Pc) (nothing : s.value t = none)
    (fresh : s.heap.chars block = none) (own : pc.Points (some block) (some bytes)) :
    StepSim (After lost) (some ((s.dev.over kb).goto t pc, [])) (some ((s.hold t block bytes).goto t pc, [])) := by
  have outside : block ∉ chain.map Prod.snd := owned_dead inv.accounts.owned block fresh .queue
  have after : MemInv ((s.hold t block bytes).goto t pc) chain kb lost := by
    refine mem_step inv _ t (holds_chars _ _ _ block (some bytes) inv.holds outside)
      (accounts_hold inv.accounts t block bytes nothing fresh) (fun u other => by simp [HeapDev.goto, HeapDev.hold, other])
      (fun u other => Function.update_of_ne other ..) (fun u there _ points => Function.update_of_ne ?_ ..) ?_
    · rintro rfl
      exact inv.accounts.owned.live (.call u) there points fresh
    · simpa [HeapDev.goto, HeapDev.hold, HeapDev.held, KbHeap.store] using own
  exact sim_taken after rfl

theorem write_inside (heap : KbHeap) (block : Nat) (old bytes : Bytes) (live : heap.chars block = some old)
    (inside : bytes.length ≤ old.length) : heap.write block bytes = some (heap.store block bytes) := by
  simp [KbHeap.write, live, inside]

theorem strcpy_length (target source : Bytes) :
    (strcpy target source).length = max target.length ((cstr source).length + 1) := by
  simp only [strcpy, List.length_append, List.length_cons, List.length_drop]
  omega

omit [DecidableEq ι] in
theorem pop_copies (inv : MemInv s chain kb lost) (t : ι) (dim : Nat) (bytes node : Bytes) (rest : Kb)
    (point : (s.dev.tasks t).pc = .readPop dim bytes) (found : kbPop kb = some (node, rest)) :
    ∃ block got heap others, s.value t = some block ∧ s.heap.chars block = some bytes ∧ bytes.length = dim ∧
      kbHeapPop bytes s.heap = some (0, got, heap) ∧ cstr got = node ∧ strcpy bytes (node ++ [0]) = got ∧
      heap.Holds others rest ∧ Accounts heap s.value others lost ∧
      ∀ u there, s.value u = some there → heap.chars there = s.heap.chars there := by
  have held : s.held t = some bytes ∧ bytes.length = dim := by simpa [point, Pc.Points] using inv.points t
  obtain ⟨block, points, live⟩ := Option.bind_eq_some_iff.mp held.1
  cases chain with
  | nil =>
      have same := owns_length _ _ _ inv.holds.owns
      rw [(kb_pop_some kb rest node found).1] at same
      cases same
  | cons first others =>
      obtain ⟨cell, freed⟩ := first
      obtain ⟨got, heap, popped, rfl, after⟩ := kb_pop_holds s.heap _ kb rest bytes _ inv.holds found
      obtain ⟨⟨text, _, copied⟩, chars, _⟩ := kb_pop_heap s.heap heap cell freed others kb bytes got inv.holds popped
      have same : strcpy bytes (cstr got ++ [0]) = got := by
        rw [copied, cstr_strcpy]
        unfold strcpy
        rw [cstr_append_nul _ _ (cstr_no_nul text)]
      refine ⟨block, got, heap, others, points, live, held.2, popped, rfl, same, after,
        accounts_pop inv.accounts heap bytes got inv.holds popped, ?_⟩
      intro u there also
      have kept : there ≠ freed := by
        rintro rfl
        exact value_outside inv.accounts u there also (by simp)
      rw [chars, Function.update_of_ne kept]

theorem sim_pop (inv : MemInv s chain kb lost) (t : ι) (env : Env) (fresh : Kmalloc) (dim : Nat) (bytes node : Bytes) (rest : Kb)
    (point : (s.dev.tasks t).pc = .readPop dim bytes) (found : kbPop kb = some (node, rest)) (room : node.length + 1 ≤ dim) :
    StepSim (After lost) (clientStep (s.dev.over kb) t env) (heapClientStep s t env fresh) := by
  obtain ⟨block, got, heap, others, points, live, sized, popped, rfl, copied, after, accounts, kept⟩ :=
    pop_copies inv t dim bytes node rest point found
  have inside : got.length ≤ bytes.length := by
    rw [← copied, strcpy_length, cstr_append_nul _ _ (cstr_no_nul got)]
    omega
  have written := write_inside heap block bytes got ((kept t block points).trans live) inside
  simp only [clientStep, heapClientStep, Dev.over, point, found, points, live, popped, Option.bind_some, Option.map_some,
    if_true, copied, written]
  have final : MemInv ({ s with heap := heap.store block got }.goto t (.readCopy dim got (cstr got))) others rest lost := by
    refine mem_step inv _ t (holds_chars _ _ _ block (some got) after (value_outside accounts t block points))
      (accounts_store accounts t block got points) (fun u other => by simp [HeapDev.goto, other]) (fun _ _ => rfl) ?_ ?_
    · intro u there other also
      have apart : there ≠ block := fun equal => other (value_alone inv.accounts t u block points (equal ▸ also))
      change Function.update heap.chars block (some got) there = _
      rw [Function.update_of_ne apart, kept u there also]
    · simp [HeapDev.goto, HeapDev.held, KbHeap.store, points, Pc.Points]
  exact sim_taken final rfl

theorem pop_overruns (inv : MemInv s chain kb lost) (t : ι) (env : Env) (fresh : Kmalloc) (dim : Nat) (bytes node : Bytes)
    (rest : Kb) (point : (s.dev.tasks t).pc = .readPop dim bytes) (found : kbPop kb = some (node, rest))
    (tight : ¬ node.length + 1 ≤ dim) : heapClientStep s t env fresh = none := by
  obtain ⟨block, got, heap, others, points, live, sized, popped, rfl, copied, after, accounts, kept⟩ :=
    pop_copies inv t dim bytes node rest point found
  have longer : ¬ got.length ≤ bytes.length := by
    rw [← copied, strcpy_length, cstr_append_nul _ _ (cstr_no_nul got)]
    omega
  simp [heapClientStep, point, points, live, popped, KbHeap.write, kept t block points, longer]

theorem kb_push_terminated (data mem : Bytes) (kb : Kb) (terminated : 0 ∈ data) : kbPush (data ++ mem) kb = kbPush data kb := by
  simp only [kbPush, cstr_append_of_nul data mem terminated]

theorem sim_push (inv : MemInv s chain kb lost) (t : ι) (env : Env) (fresh : Kmalloc) (bytes : Bytes)
    (point : (s.dev.tasks t).pc = .writePush bytes) (terminated : 0 ∈ bytes)
    (new : s.heap.fresh fresh.node fresh.block = true) :
    StepSim (After lost) (clientStep (s.dev.over kb) t env) (heapClientStep s t env fresh) := by
  have held : s.held t = some bytes := by simpa [point, Pc.Points] using inv.points t
  by_cases success : env.ok = true
  · let old := kmallocBytes ((cstr bytes).length + 1) fresh.old
    obtain ⟨heap, pushed, holds⟩ := kb_push_holds s.heap chain kb bytes old fresh.node fresh.block inv.holds new
    obtain ⟨chars, _⟩ := kb_push_heap s.heap heap chain kb _ old fresh.node fresh.block inv.holds new pushed
    obtain ⟨block, points, _⟩ := Option.bind_eq_some_iff.mp held
    simp only [clientStep, heapClientStep, Dev.over, point, success, held, terminated, old, pushed, Option.bind_some,
      Option.map_some, if_true, kb_push_terminated bytes env.mem kb terminated, cstr_append_of_nul bytes env.mem terminated]
    have final : MemInv ({ s with heap := heap }.goto t (.writeWake 0)) (chain ++ [(fresh.node, fresh.block)])
        (kbPush bytes kb) lost := by
      refine mem_step inv _ t holds (accounts_push inv.accounts heap _ _ _ _ inv.holds new pushed)
        (fun u other => by simp [HeapDev.goto, other]) (fun _ _ => rfl) ?_ (by simp [HeapDev.goto, points, Pc.Points])
      intro u there _ also
      change heap.chars there = _
      rw [chars, Function.update_of_ne]
      rintro rfl
      exact inv.accounts.owned.live (.call u) _ also (fresh_chars new)
    exact sim_taken final rfl
  · simp only [clientStep, heapClientStep, Dev.over, point, success, held, terminated, Option.bind_some, if_true]
    exact sim_goto inv t _ [] rfl trivial

theorem sim_read_end (inv : MemInv s chain kb lost) (t : ι) (env : Env) (fresh : Kmalloc) (res : Int) (got : Bytes)
    (taken : Option Bytes) (point : (s.dev.tasks t).pc = .readUnlock res got taken) :
    StepSim (After lost) (clientStep (s.dev.over kb) t env) (heapClientStep s t env fresh) := by
  have points : (s.value t).isSome = taken.isSome := by simpa [point, Pc.Points] using inv.points t
  simp only [clientStep, heapClientStep, Dev.over, point]
  cases taken with
  | none =>
      have nothing : s.value t = none := by simpa using points
      rw [show Function.update s.value t none = s.value by rw [← nothing, Function.update_eq_self]]
      exact sim_local inv t ((s.dev.setMutex none).goto t (.ret res got)) [.readDone t res none] rfl
        (fun u other => by simp [other]) (by simp only [goto_tasks, if_true]; exact nothing)
  | some text =>
      obtain ⟨block, points⟩ := Option.isSome_iff_exists.mp points
      have final : MemInv { s with dev := (s.dev.setMutex none).goto t (.ret res got), value := Function.update s.value t none }
          chain kb (block :: lost) := by
        refine mem_step inv _ t inv.holds (accounts_abandon inv.accounts t block points) (fun u other => by simp [other])
          (fun u other => Function.update_of_ne other ..) (fun _ _ _ _ => rfl) ?_
        simp [Pc.Points]
      exact sim_taken final rfl

theorem sim_write_end (inv : MemInv s chain kb lost) (t : ι) (env : Env) (fresh : Kmalloc) (res : Int)
    (point : (s.dev.tasks t).pc = .writeUnlock res) :
    StepSim (After lost) (clientStep (s.dev.over kb) t env) (heapClientStep s t env fresh) := by
  simp only [clientStep, heapClientStep, Dev.over, point]
  cases points : s.value t with
  | none =>
      simp only [KbHeap.kfree, Option.map_some]
      rw [show Function.update s.value t none = s.value by rw [← points, Function.update_eq_self]]
      exact sim_local inv t ((s.dev.setMutex none).goto t (.ret res [])) [.writeDone t res] rfl
        (fun u other => by simp [other]) (by simp only [goto_tasks, if_true]; exact points)
  | some block =>
      have live := Option.isSome_iff_ne_none.mpr (inv.accounts.owned.live (.call t) block points)
      simp only [KbHeap.kfree, live, if_true, Option.map_some]
      have final : MemInv ⟨(s.dev.setMutex none).goto t (.ret res []),
          { s.heap with chars := Function.update s.heap.chars block none }, Function.update s.value t none⟩ chain kb lost := by
        refine mem_step inv _ t (holds_chars _ _ _ block none inv.holds (value_outside inv.accounts t block points))
          (accounts_kfree inv.accounts t block points) (fun u other => by simp [other])
          (fun u other => Function.update_of_ne other ..) ?_ (by simp [Pc.Points])
        intro u there other also
        refine Function.update_of_ne ?_ ..
        rintro rfl
        exact other (value_alone inv.accounts t u there points also)
      exact sim_taken final rfl

theorem sim_copy (inv : MemInv s chain kb lost) (t : ι) (env : Env) (fresh : Kmalloc) (buf : Bytes)
    (point : (s.dev.tasks t).pc = .writeCopy buf) (success : env.ok = true) :
    StepSim (After lost) (clientStep (s.dev.over kb) t env) (heapClientStep s t env fresh) := by
  obtain ⟨bytes, held, sized⟩ : ∃ bytes, s.held t = some bytes ∧ bytes.length = buf.length := by
    simpa [point, Pc.Points] using inv.points t
  obtain ⟨block, points, live⟩ := Option.bind_eq_some_iff.mp held
  simp only [clientStep, heapClientStep, Dev.over, point, success, points, write_inside s.heap block bytes buf live (by omega),
    Option.bind_some, Option.map_some, if_true]
  have final : MemInv ({ s with heap := s.heap.store block buf }.goto t (.writePush buf)) chain kb lost := by
    refine mem_step inv _ t (holds_chars _ _ _ block (some buf) inv.holds (value_outside inv.accounts t block points))
      (accounts_store inv.accounts t block buf points) (fun u other => by simp [HeapDev.goto, other]) (fun _ _ => rfl) ?_
      (by simp [HeapDev.goto, HeapDev.held, KbHeap.store, points, Pc.Points])
    intro u there other also
    refine Function.update_of_ne ?_ ..
    rintro rfl
    exact other (value_alone inv.accounts t u there points also)
  exact sim_taken final rfl

def Dev.InBounds (s : Dev ι) : Action ι → Prop
  | .go t env => ∀ op, stringAccess s t env = some op → op.InBounds
  | _ => True

theorem client_sim (inv : MemInv s chain kb lost) (pops : PopReady (s.dev.over kb)) (t : ι) (env : Env) (fresh : Kmalloc)
    (new : s.heap.fresh fresh.node fresh.block = true) (inside : (s.dev.over kb).InBounds (.go t env)) :
    StepSim (After lost) (clientStep (s.dev.over kb) t env) (heapClientStep s t env fresh) := by
  have points := inv.points t
  cases point : (s.dev.tasks t).pc with
  | readPop dim value =>
      cases found : kbPop kb with
      | none => exact absurd ((kb_pop_none_iff kb).mp found) (pops t dim value point)
      | some result =>
          have room := inside (.pop dim result.1) (by simp [stringAccess, point, Dev.over, found])
          exact sim_pop inv t env fresh dim value result.1 result.2 point found room
  | readUnlock res got taken => exact sim_read_end inv t env fresh res got taken point
  | writeUnlock res => exact sim_write_end inv t env fresh res point
  | readWait dim value loop =>
      rw [point] at points
      simp only [clientStep, heapClientStep, Dev.over, point, kb_isempty_holds s.heap chain kb inv.holds]
      exact sim_wait inv t .waitR _ _ (.readWait dim value) (.readPop dim value) loop (fun _ => points) points
  | writeWait buf loop =>
      rw [point] at points
      have same : kbHeapIsfull s.heap = kbIsfull kb := funext fun max => kb_isfull_holds s.heap chain kb max inv.holds
      simp only [clientStep, heapClientStep, Dev.over, point, same]
      exact sim_wait inv t .waitW _ _ (.writeWait buf) (.writeCopy buf) loop (fun _ => points) points
  | writeCopy buf =>
      by_cases success : env.ok = true
      · exact sim_copy inv t env fresh buf point success
      · simp only [clientStep, heapClientStep, Dev.over, point, success]
        exact sim_goto inv t _ [] rfl trivial
  | writePush value =>
      have room := inside (.push value env.mem env.ok) (by simp [stringAccess, point])
      exact sim_push inv t env fresh value point ((cstr_inside_iff value env.mem).mp room) new
  | readCopy dim value taken =>
      rw [point] at points
      have held : s.held t = some value := points
      obtain ⟨block, some, _⟩ := Option.bind_eq_some_iff.mp held
      simp only [clientStep, heapClientStep, Dev.over, point, held, Option.map_some]
      split <;> exact sim_goto inv t _ [] rfl (by rw [some]; rfl)
  | readAlloc dim =>
      rw [point] at points
      simp only [clientStep, heapClientStep, Dev.over, point]
      split
      · exact sim_hold inv t fresh.block _ _ points (fresh_chars new) ⟨rfl, kmalloc_length dim env.mem⟩
      · exact sim_goto inv t _ [] rfl (by rw [show s.value t = none from points]; rfl)
  | writeAlloc buf =>
      rw [point] at points
      simp only [clientStep, heapClientStep, Dev.over, point]
      split
      · exact sim_hold inv t fresh.block _ _ points (fresh_chars new) ⟨_, rfl, kmalloc_length buf.length fresh.old⟩
      · exact sim_goto inv t _ [] rfl trivial
  | user | ret | oops =>
      simp only [clientStep, heapClientStep, Dev.over, point]
      exact .refused
  | openLock | closeLock | readLock | writeLock =>
      rw [point] at points
      simp only [clientStep, heapClientStep, Dev.over, point, Option.map_map]
      exact sim_lock inv t _ points
  | openRun =>
      rw [point] at points
      simp only [clientStep, heapClientStep, over_tasks, point, over_open]
      exact sim_local inv t ((myOpen s.dev).goto t .openUnlock) [] rfl (fun u other => by simp [other])
        (by simp only [goto_tasks, if_true]; exact points)
  | openUnlock | closeUnlock =>
      rw [point] at points
      simp only [clientStep, heapClientStep, Dev.over, point]
      exact sim_local inv t ((s.dev.setMutex none).goto t (.ret 0 [])) [] rfl (fun u other => by simp [other])
        (by simp only [goto_tasks, if_true]; exact points)
  | closeRun =>
      rw [point] at points
      simp only [clientStep, heapClientStep, Dev.over, point]
      exact sim_local inv t ((myClose s.dev).goto t .closeUnlock) [] rfl (fun u other => by simp [myClose, other])
        (by simp only [goto_tasks, if_true]; exact points)
  | readWake got taken =>
      rw [point] at points
      simp only [clientStep, heapClientStep, Dev.over, point]
      exact sim_local inv t ((s.dev.wakeUpInterruptible .waitW).goto t (.readUnlock 0 got (some taken))) [] rfl
        (fun u other => by simp [other]) (by simp only [goto_tasks, if_true]; exact points)
  | writeWake res =>
      simp only [clientStep, heapClientStep, Dev.over, point]
      exact sim_local inv t ((s.dev.wakeUpInterruptible .waitR).goto t (.writeUnlock res)) [] rfl
        (fun u other => by simp [other]) (by simp [Pc.Points])

theorem client_faults (inv : MemInv s chain kb lost) (t : ι) (env : Env) (fresh : Kmalloc)
    (outside : ¬ (s.dev.over kb).InBounds (.go t env)) : heapClientStep s t env fresh = none := by
  simp only [Dev.InBounds, not_forall] at outside
  obtain ⟨op, found, leaves⟩ := outside
  rcases access_at _ t env op found with ⟨value, point, rfl⟩ | ⟨dim, value, node, rest, point, popped, rfl⟩
  · have held : s.held t = some value := by
      have points := inv.points t
      rw [show (s.dev.tasks t).pc = .writePush value from point] at points
      exact points
    have unterminated : 0 ∉ value := fun terminated => leaves ((cstr_inside_iff value env.mem).mpr terminated)
    simp [heapClientStep, show (s.dev.tasks t).pc = .writePush value from point, held, unterminated]
  · exact pop_overruns inv t env fresh dim value node rest point popped leaves

omit [DecidableEq ι] in
theorem sim_kernel (inv : MemInv s chain kb lost) (dev : Dev ι) (out : List (Event ι)) (quiet : out.countP Event.leaks = 0)
    (tasks : dev.tasks = s.dev.tasks) :
    StepSim (After lost) (some (dev.over kb, out)) (some ({ s with dev := dev }, out)) := by
  have after : MemInv { s with dev := dev } chain kb lost := ⟨inv.holds, inv.accounts, fun t => by rw [tasks]; exact inv.points t⟩
  exact sim_taken after (by rw [quiet]; rfl)

omit [DecidableEq ι] in
theorem kt_sim (inv : MemInv s chain kb lost) (k : Kt) (env : Env) :
    StepSim (After lost) (ktStep (s.dev.over kb) k env) (heapKtStep s k env) := by
  cases point : (s.dev.kts k).pc with
  | check | test =>
      simp only [ktStep, heapKtStep, Dev.over, point]
      exact sim_kernel inv (s.dev.gotoKt k _) [] rfl rfl
  | unlock timed =>
      simp only [ktStep, heapKtStep, Dev.over, point]
      exact sim_kernel inv ((s.dev.setMutex none).gotoKt k (.sched timed)) [] rfl rfl
  | setState =>
      simp only [ktStep, heapKtStep, Dev.over, point]
      exact sim_kernel inv (s.dev.putKt k _) [] rfl rfl
  | lock =>
      by_cases free : s.dev.devMutex.isNone = true
      · simp only [ktStep, heapKtStep, Dev.over, point, free, if_true]
        exact sim_kernel inv ((s.dev.setMutex (some (.kt k))).gotoKt k .setState) [] rfl rfl
      · simp only [ktStep, heapKtStep, Dev.over, point, free]
        exact .refused
  | sched =>
      by_cases awake : (s.dev.kts k).state = .running
      · simp only [ktStep, heapKtStep, Dev.over, point, awake, if_true]
        exact sim_kernel inv (s.dev.gotoKt k .check) [] rfl rfl
      · simp only [ktStep, heapKtStep, Dev.over, point, awake]
        exact .refused
  | exited | oops =>
      simp only [ktStep, heapKtStep, Dev.over, point]
      exact .refused
  | work =>
      cases k with
      | ktStat =>
          simp only [ktStep, heapKtStep, Dev.over, point, heap_populate_holds _ s.heap chain kb env.block inv.holds,
            Option.map_some, kt_stat_work_eq, inv.holds.count]
          cases statReport _ _ env with
          | none => exact sim_kernel inv (s.dev.gotoKt .ktStat .oops) [] rfl rfl
          | some ds => exact sim_kernel inv ({ s.dev with devStat := ds }.gotoKt .ktStat (.unlock true)) [.sampled kb.count] rfl rfl
      | ktRealloc =>
          simp only [ktStep, heapKtStep, Dev.over, point]
          cases ktReallocWork s.dev.devStat with
          | none => exact sim_kernel inv (s.dev.gotoKt .ktRealloc .oops) [.realloc _ _] rfl rfl
          | some ds =>
              exact sim_kernel inv ({ s.dev with devStat := ds }.gotoKt .ktRealloc (.unlock true)) [.realloc _ _, .limit _] rfl rfl

theorem step_sim (inv : MemInv s chain kb lost) (pops : PopReady (s.dev.over kb)) (action : Action ι) (fresh : Kmalloc)
    (new : s.heap.fresh fresh.node fresh.block = true) (inside : (s.dev.over kb).InBounds action) :
    StepSim (After lost) ((device ι).step (s.dev.over kb) action) ((heapDevice ι).step s (action, fresh)) := by
  simp only [heapDevice, new, if_true]
  cases action with
  | go t env => exact client_sim inv pops t env fresh new inside
  | kt k env => exact kt_sim inv k env
  | call t op =>
      have points := inv.points t
      cases point : (s.dev.tasks t).pc with
      | user =>
          rw [point] at points
          simp only [device, callStep, Dev.over, point]
          exact sim_goto inv t op.entry [] rfl (by cases op <;> exact points)
      | _ =>
          simp only [device, callStep, Dev.over, point]
          exact .refused
  | ret t =>
      have points := inv.points t
      cases point : (s.dev.tasks t).pc with
      | ret res got =>
          rw [point] at points
          simp only [device, retStep, Dev.over, point]
          exact sim_local inv t (s.dev.put t _) [] rfl (fun u other => by simp [other])
            (by simp only [put_tasks, if_true]; exact points)
      | _ =>
          simp only [device, retStep, Dev.over, point]
          exact .refused
  | signal t =>
      exact sim_local inv t (signalStep s.dev t) [] rfl (fun u other => by simp [signalStep, other])
        (by simpa [signalStep] using inv.points t)
  | timer k =>
      simp only [device, timerStep, Dev.over]
      split
      · exact sim_kernel inv (s.dev.putKt k _) [] rfl rfl
      · exact .refused

omit [DecidableEq ι] in
theorem init_mem : MemInv (heapInit ι) [] kbInit [] := by
  have nobody : ∀ owner block, ¬ Owner.Holds (heapInit ι).value [] [] owner block := by
    intro owner block mine
    cases owner <;> cases mine
  refine ⟨kb_init_holds, ⟨fun _ live => absurd rfl live, ⟨fun _ live => absurd rfl live, ?_, ?_⟩, List.nodup_nil⟩, fun _ => rfl⟩
  · intro owner block mine
    exact absurd mine (nobody owner block)
  · intro owner other block mine
    exact absurd mine (nobody owner block)

theorem step_faults (inv : MemInv s chain kb lost) (action : Action ι) (fresh : Kmalloc)
    (new : s.heap.fresh fresh.node fresh.block = true) (outside : ¬ (s.dev.over kb).InBounds action) :
    (heapDevice ι).step s (action, fresh) = none := by
  cases action with
  | go t env =>
      simp only [heapDevice, new, if_true]
      exact client_faults inv t env fresh outside
  | _ => exact absurd trivial outside

theorem memory_run {events : List (Event ι)} (run : Run (heapDevice ι) Any (heapInit ι) events s) :
    ∃ chain kb lost, MemInv s chain kb lost ∧ lost.length = events.countP Event.leaks ∧
      Run (device ι) Any (myModuleInit ι) events (s.dev.over kb) := by
  induction run with
  | nil => exact ⟨[], kbInit, [], init_mem, rfl, .nil⟩
  | @snoc events out s next move before _ stepped ih =>
      obtain ⟨chain, kb, lost, inv, counted, below⟩ := ih
      have new : s.heap.fresh move.2.node move.2.block = true := by
        by_contra stale
        simp [heapDevice, stale] at stepped
      have inside : (s.dev.over kb).InBounds move.1 := by
        by_contra outside
        rw [step_faults inv move.1 move.2 new outside] at stepped
        cases stepped
      have sim := step_sim inv (pop_ready_run below) move.1 move.2 new inside
      rw [stepped] at sim
      generalize moved : (device ι).step (s.dev.over kb) move.1 = result at sim
      cases sim with
      | @taken _ after _ holds =>
          obtain ⟨chain', lost', inv', lengths⟩ := holds
          exact ⟨chain', after, lost', inv', by rw [lengths, counted, List.countP_append], .snoc move.1 below trivial moved⟩

theorem step_taken_iff (inv : MemInv s chain kb lost) (pops : PopReady (s.dev.over kb)) (action : Action ι) (fresh : Kmalloc)
    (new : s.heap.fresh fresh.node fresh.block = true) :
    ((heapDevice ι).step s (action, fresh)).isSome = true ↔
      ((device ι).step (s.dev.over kb) action).isSome = true ∧ (s.dev.over kb).InBounds action := by
  by_cases inside : (s.dev.over kb).InBounds action
  · have sim := step_sim inv pops action fresh new inside
    generalize (device ι).step (s.dev.over kb) action = low at sim ⊢
    generalize (heapDevice ι).step s (action, fresh) = high at sim ⊢
    cases sim <;> simp [inside]
  · rw [step_faults inv action fresh new inside]
    simp [inside]

theorem agreed_step_inside {log made : List Note} {w next : Watched ι} (run : Run (watchedDevice ι) Any (watchedInit ι) log w)
    (action : Action ι) (stepped : (watchedDevice ι).step w action = some (next, made)) (agree : ClientsAgree (log ++ made)) :
    w.dev.InBounds action := by
  cases action with
  | go t env =>
      intro op found
      obtain ⟨out, _, _, rfl⟩ := watched_steps w next _ made stepped
      exact agreed_in_bounds (.snoc _ run trivial stepped) agree op (by simp [Watched.made, found])
  | _ => trivial

theorem driver_memory_accounted {events : List (Event ι)} (run : Run (heapDevice ι) Any (heapInit ι) events s) :
    ∃ chain kb lost, s.heap.Holds chain kb ∧ Accounts s.heap s.value chain lost ∧
      (∀ t, (s.dev.tasks t).pc = .user → s.value t = none) ∧ lost.length = events.countP Event.leaks ∧
      Run (device ι) Any (myModuleInit ι) events (s.dev.over kb) ∧
      (∀ action (fresh : Kmalloc), s.heap.fresh fresh.node fresh.block = true →
        (((heapDevice ι).step s (action, fresh)).isSome = true ↔
          ((device ι).step (s.dev.over kb) action).isSome = true ∧ (s.dev.over kb).InBounds action)) ∧
      ∀ log (w : Watched ι), Run (watchedDevice ι) Any (watchedInit ι) log w → w.dev = s.dev.over kb →
        ∀ action next made (fresh : Kmalloc), (watchedDevice ι).step w action = some (next, made) → ClientsAgree (log ++ made) →
          s.heap.fresh fresh.node fresh.block = true → ((heapDevice ι).step s (action, fresh)).isSome = true := by
  obtain ⟨chain, kb, lost, inv, counted, below⟩ := memory_run run
  have taken := step_taken_iff inv (pop_ready_run below)
  refine ⟨chain, kb, lost, inv.holds, inv.accounts, ?_, counted, below, taken, ?_⟩
  · intro t idle
    simpa [idle, Pc.Points] using inv.points t
  · intro log w watched same action next made fresh stepped agree new
    have inside := agreed_step_inside watched action stepped agree
    obtain ⟨out, moved, _⟩ := watched_steps w next action made stepped
    rw [same] at inside moved
    exact (taken action fresh new).mpr ⟨by rw [moved]; rfl, inside⟩

end Memory

-- A my_write puts a string into the queue and a my_read takes it out; every
-- kmalloc returns an address that was not used before.
def writeThenRead : List (Action Bool × Kmalloc) :=
  ([Action.call true (.myWrite [97, 0])] ++ alone true 7 ++ [Action.ret true, Action.call false (.myRead 5)] ++
    alone false 7 ++ [Action.ret false]).zipIdx.map fun move => (move.1, ⟨move.2, move.2, []⟩)

theorem driver_memory_accounted_read : ∃ (events : List (Event Bool)) (s : HeapDev Bool),
    Run (heapDevice Bool) Any (heapInit Bool) events s ∧ s.heap.kbuf.head = none ∧ (s.heap.chars 2).isNone = true ∧
    ∃ chain lost, Accounts s.heap s.value chain lost ∧ lost.length = 1 := by
  obtain ⟨events, s, run, seen⟩ := exec_reaches_any (heapDevice Bool) (heapInit Bool) writeThenRead
    (fun s events => s.heap.kbuf.head = none ∧ (s.heap.chars 2).isNone = true ∧ events.countP Event.leaks = 1) (by decide +kernel)
  obtain ⟨empty, freed, leaked⟩ :
      s.heap.kbuf.head = none ∧ (s.heap.chars 2).isNone = true ∧ events.countP Event.leaks = 1 := by simpa using seen
  obtain ⟨chain, _, lost, _, accounts, _, counted, _⟩ := driver_memory_accounted run
  exact ⟨events, s, run, empty, freed, chain, lost, accounts, counted.trans leaked⟩

end MyDev
