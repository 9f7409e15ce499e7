import MyDev.DeviceLimit
import MyDev.DeviceThreads
import MyDev.Library.Linear

set_option autoImplicit false

namespace MyDev

open Library

-- What the device is for: a shelf of strings with a limit, and the number of
-- those who have it open. Nobody is ever half way through a call.
structure Shelf where
  strings : List Bytes
  limit : Int
  opened : Int

abbrev Answer := Int × Bytes

inductive Shelf.Serves (shelf : Shelf) : Op → Answer → Shelf → Prop where
  | myOpen : Serves shelf .myOpen (0, []) { shelf with opened := shelf.opened + 1 }
  | myClose : Serves shelf .myClose (0, []) { shelf with opened := shelf.opened - 1 }
  | writeNoMemory {buf : Bytes} : Serves shelf (.myWrite buf) (1, []) shelf
  | writeFault {buf : Bytes} (room : shelf.strings.length < shelf.limit) : Serves shelf (.myWrite buf) (-eFault, []) shelf
  | stored {buf mem : Bytes} (room : shelf.strings.length < shelf.limit) :
      Serves shelf (.myWrite buf) (0, []) { shelf with strings := shelf.strings ++ [cstr (buf ++ mem)] }
  | readNoMemory {dim : Nat} : Serves shelf (.myRead dim) (1, []) shelf
  -- The string is gone: copy_to_user fails after kb_pop.
  | readFault {dim : Nat} {text : Bytes} {rest : List Bytes} (first : shelf.strings = text :: rest) :
      Serves shelf (.myRead dim) (-eFault, []) { shelf with strings := rest }
  | fetched {dim : Nat} {text mem : Bytes} {rest : List Bytes} (first : shelf.strings = text :: rest) :
      Serves shelf (.myRead dim) (0, (strcpy (kmallocBytes dim mem) (text ++ [0])).take dim) { shelf with strings := rest }

-- The limit changes when kt_realloc sets it, to the value it sets.
def shelfObject : Object Shelf Op Answer Int where
  apply := Shelf.Serves
  change shelf max next := next = { shelf with limit := max }

-- A my_read takes its effect when it knows whether it can hand the string
-- over, a my_write when it links it into the queue.
def Pc.status : Pc → Status Op Answer
  | .user => .idle
  | .openLock | .openRun => .called .myOpen
  | .closeLock | .closeRun => .called .myClose
  | .openUnlock | .closeUnlock => .answered (0, [])
  | .readLock dim | .readAlloc dim | .readWait dim _ _ | .readPop dim _ | .readCopy dim _ _ => .called (.myRead dim)
  | .readWake got _ => .answered (0, got)
  | .readUnlock res got _ => .answered (res, got)
  | .writeLock buf | .writeAlloc buf | .writeWait buf _ | .writeCopy buf | .writePush buf => .called (.myWrite buf)
  | .writeWake res | .writeUnlock res => .answered (res, [])
  | .ret res got => .answered (res, got)
  | .oops => .lost

def Pc.unfetched : Pc → List Bytes
  | .readCopy _ _ taken => [taken]
  | _ => []

def Pc.Backed : Pc → Prop
  | .readWait dim value _ | .readPop dim value => ∃ mem, value = kmallocBytes dim mem
  | .readCopy dim value taken => ∃ mem, value = strcpy (kmallocBytes dim mem) (taken ++ [0])
  | _ => True

theorem entry_status (op : Op) : op.entry.status = .called op := by
  cases op <;> rfl

theorem entry_unfetched (op : Op) : op.entry.unfetched = [] := by
  cases op <;> rfl

theorem entry_backed (op : Op) : op.entry.Backed := by
  cases op <;> exact trivial

theorem locked_call (pc next : Pc) (entered : pc.locked = some next) :
    next.status = pc.status ∧ next.unfetched = [] ∧ (pc.Backed → next.Backed) := by
  unfold Pc.locked at entered
  split at entered <;> cases entered <;> exact ⟨rfl, rfl, fun backed => backed⟩

theorem unlocked_call (pc next : Pc) (left : pc.unlocked = some next) :
    next.status = pc.status ∧ pc.unfetched = [] ∧ (pc.Backed → next.Backed) := by
  unfold Pc.unlocked at left
  split at left <;> cases left <;> exact ⟨rfl, rfl, fun backed => backed⟩

section Views

variable {ι : Type}

def Dev.unfetched (s : Dev ι) : List Bytes :=
  match s.devMutex with
  | some (.client t) => (s.tasks t).pc.unfetched
  | _ => []

def Dev.shelf (s : Dev ι) : Shelf := ⟨s.unfetched ++ s.kbFifo.nodes, s.devStat.dsKbMax, s.devRun⟩

def Dev.status (s : Dev ι) (t : ι) : Status Op Answer := (s.tasks t).pc.status

theorem unfetched_keep (s next : Dev ι) (mutex : next.devMutex = s.devMutex)
    (same : ∀ t, (next.tasks t).pc.unfetched = (s.tasks t).pc.unfetched) : next.unfetched = s.unfetched := by
  unfold Dev.unfetched
  rw [mutex]
  split
  · exact same _
  · rfl

theorem unfetched_nobody (s : Dev ι) (nobody : ∀ t, s.devMutex ≠ some (.client t)) : s.unfetched = [] := by
  unfold Dev.unfetched
  split
  · rename_i t owner
    exact absurd owner (nobody t)
  · rfl

theorem unfetched_holder (s : Dev ι) (t : ι) (owner : s.devMutex = some (.client t)) :
    s.unfetched = (s.tasks t).pc.unfetched := by
  unfold Dev.unfetched
  rw [owner]

inductive LocalCall (s : Dev ι) (before after : Pc) : Prop where
  | silent (status : after.status = before.status) (unfetched : after.unfetched = before.unfetched)
  | take {op : Op} {res : Answer} (called : before.status = .called op) (answered : after.status = .answered res)
      (held : before.holds = true)
      (served : Shelf.Serves ⟨before.unfetched ++ s.kbFifo.nodes, s.devStat.dsKbMax, s.devRun⟩ op res
        ⟨after.unfetched ++ s.kbFifo.nodes, s.devStat.dsKbMax, s.devRun⟩)
  | lose {op : Op} (called : before.status = .called op) (lost : after.status = .lost)
      (unfetched : after.unfetched = before.unfetched)

theorem local_call {s : Dev ι} {env : Env} {before after : Pc} (step : LocalPc s env before after) (backed : before.Backed)
    (pops : ∀ dim value, before = .readPop dim value → s.kbFifo.nodes ≠ [])
    (pushes : ∀ buf, before = .writeCopy buf → s.kbFifo.count < s.devStat.dsKbMax) : LocalCall s before after := by
  cases step with
  | readLoop | writeLoop | readPass | writePass | readAlloc | writeAlloc | writeCopied => exact .silent rfl rfl
  | readNoMemory => exact .take rfl rfl rfl .readNoMemory
  | readNothing missing => exact absurd ((kb_pop_none_iff _).mp missing) (pops _ _ rfl)
  | readCopied =>
      obtain ⟨mem, rfl⟩ := backed
      exact .take rfl rfl rfl (.fetched rfl)
  | readFault => exact .take rfl rfl rfl (.readFault rfl)
  | writeNoMemory => exact .take rfl rfl rfl .writeNoMemory
  | writeFault =>
      have room := pushes _ rfl
      rw [s.kbFifo.counted] at room
      exact .take rfl rfl rfl (.writeFault room)
  | writeOops => exact .lose rfl rfl rfl

theorem local_backed {s : Dev ι} {env : Env} {before after : Pc} (step : LocalPc s env before after) (backed : before.Backed) :
    after.Backed := by
  cases step with
  | readLoop | readPass => exact backed
  | readAlloc => exact ⟨env.mem, rfl⟩
  | _ => exact trivial

end Views

section Device

variable {ι : Type} [DecidableEq ι]

theorem client_backed (s next : Dev ι) (t : ι) (env : Env) (out : List (Event ι)) (move : ClientMove s t env next out)
    (backed : (s.tasks t).pc.Backed) : (next.tasks t).pc.Backed := by
  cases move with
  | «local» move =>
      simp only [put_tasks, if_true]
      exact local_backed (local_move_pc s env _ _ move) backed
  | acquire _ entered =>
      simp only [goto_tasks, if_true]
      exact (locked_call _ _ entered).2.2 backed
  | release left =>
      simp only [goto_tasks, if_true]
      exact (unlocked_call _ _ left).2.2 backed
  | popped point =>
      rw [point] at backed
      obtain ⟨mem, rfl⟩ := backed
      simp only [goto_tasks, if_true]
      exact ⟨mem, rfl⟩
  | _ =>
      simp only [goto_tasks, if_true]
      exact trivial

theorem backed_run {ok : Dev ι → Action ι → Prop} {events : List (Event ι)} {s : Dev ι}
    (run : Run (device ι) ok (myModuleInit ι) events s) : ∀ t, (s.tasks t).pc.Backed := by
  refine Run.invariant (fun _ s => ∀ t, (s.tasks t).pc.Backed) (fun _ => trivial) ?_ run
  intro _ s action next out _ backed _ stepped u
  cases task_move s next u action out (device_moves s next action out stepped) with
  | @call op _ entered =>
      rw [entered]
      exact entry_backed op
  | go own => exact client_backed s next u _ out own (backed u)
  | ret _ left =>
      rw [left]
      exact trivial
  | other _ same =>
      rw [same]
      exact backed u

inductive CallEffect (s next : Dev ι) (t : ι) : Prop where
  | silent (shelf : next.shelf = s.shelf) (status : next.status = s.status)
  | take {op : Op} {res : Answer} (called : s.status t = .called op) (served : s.shelf.Serves op res next.shelf)
      (answered : next.status = Function.update s.status t (.answered res))
  | lose {op : Op} (called : s.status t = .called op) (shelf : next.shelf = s.shelf)
      (lost : next.status = Function.update s.status t .lost)

theorem status_update (s next : Dev ι) (t : ι) (status : Status Op Answer) (own : (next.tasks t).pc.status = status)
    (others : ∀ u, u ≠ t → (next.tasks u).pc = (s.tasks u).pc) : next.status = Function.update s.status t status := by
  funext u
  by_cases mine : u = t
  · subst mine
    rw [Function.update_self]
    exact own
  · rw [Function.update_of_ne mine]
    exact congrArg Pc.status (others u mine)

theorem status_same (s next : Dev ι) (t : ι) (own : (next.tasks t).pc.status = (s.tasks t).pc.status)
    (others : ∀ u, u ≠ t → (next.tasks u).pc = (s.tasks u).pc) : next.status = s.status := by
  rw [status_update s next t _ own others]
  exact Function.update_eq_self t s.status

omit [DecidableEq ι] in
theorem shelf_holder (s : Dev ι) (t : ι) (pc : Pc) (owner : s.devMutex = some (.client t)) (point : (s.tasks t).pc = pc) :
    s.shelf = ⟨pc.unfetched ++ s.kbFifo.nodes, s.devStat.dsKbMax, s.devRun⟩ := by
  unfold Dev.shelf
  rw [unfetched_holder s t owner, point]

omit [DecidableEq ι] in
theorem shelf_nobody (s : Dev ι) (nobody : ∀ t, s.devMutex ≠ some (.client t)) :
    s.shelf = ⟨s.kbFifo.nodes, s.devStat.dsKbMax, s.devRun⟩ := by
  unfold Dev.shelf
  rw [unfetched_nobody s nobody]
  rfl

theorem put_shelf (s : Dev ι) (t : ι) (task : Task) (same : task.pc.unfetched = (s.tasks t).pc.unfetched) :
    (s.put t task).shelf = s.shelf := by
  have kept : (s.put t task).unfetched = s.unfetched := by
    refine unfetched_keep s (s.put t task) rfl fun u => ?_
    by_cases mine : u = t
    · subst mine
      simpa using same
    · simp [mine]
  unfold Dev.shelf
  rw [kept]
  rfl

theorem put_call (s : Dev ι) (t : ι) (task : Task) (inv : LockInv s) (step : LocalCall s (s.tasks t).pc task.pc) :
    CallEffect s (s.put t task) t := by
  have after : ((s.put t task).tasks t).pc = task.pc := by simp
  have others : ∀ u, u ≠ t → ((s.put t task).tasks u).pc = (s.tasks u).pc := fun u other => by simp [other]
  cases step with
  | silent status unfetched =>
      exact .silent (put_shelf s t task unfetched) (status_same s _ t (by rw [after, status]) others)
  | take called answered held served =>
      have owner := (inv.clients t).mp held
      refine .take called ?_ (status_update s _ t _ (by rw [after, answered]) others)
      rw [shelf_holder s t _ owner rfl, shelf_holder (s.put t task) t _ owner after]
      exact served
  | lose called lost unfetched =>
      exact .lose called (put_shelf s t task unfetched) (status_update s _ t _ (by rw [after, lost]) others)

-- From its kb_pop to the end of its copy_to_user a my_read holds dev_mutex,
-- so nobody can tell that the string has left the queue before the call took
-- its effect.
theorem client_call (s next : Dev ι) (t : ι) (env : Env) (out : List (Event ι)) (inv : LockInv s) (pops : PopReady s)
    (pushes : PushReady s) (backed : (s.tasks t).pc.Backed) (move : ClientMove s t env next out) : CallEffect s next t := by
  have owned : ∀ pc, (s.tasks t).pc = pc → pc.holds = true → s.devMutex = some (.client t) :=
    fun pc point held => (inv.clients t).mp (point ▸ held)
  have others : ∀ u, u ≠ t → (next.tasks u).pc = (s.tasks u).pc := fun u => other_client_pc s next t u env out move
  cases move with
  | «local» move =>
      apply put_call s t _ inv
      exact local_call (local_move_pc s env _ _ move) backed (pops t) fun buf point => pushes t buf (.inl point)
  | @acquire pc free entered =>
      obtain ⟨status, unfetched, _⟩ := locked_call _ _ entered
      refine .silent ?_ (status_same s _ t (by simpa using status) others)
      rw [shelf_nobody s (by simp [free]), shelf_holder _ t pc (by simp) (by simp), unfetched]
      rfl
  | @release pc left =>
      obtain ⟨status, unfetched, _⟩ := unlocked_call _ _ left
      refine .silent ?_ (status_same s _ t (by simpa using status) others)
      rw [shelf_holder s t _ (owned _ rfl (unlocked_holds _ _ left).1) rfl, shelf_nobody _ (by simp), unfetched]
      rfl
  | opened point =>
      have owner := owned _ point rfl
      have called : s.status t = .called .myOpen := congrArg Pc.status point
      refine .take called ?_ (status_update s _ t (.answered (0, [])) (by simp [Pc.status]) others)
      rw [shelf_holder s t _ owner point, shelf_holder _ t .openUnlock (by simpa using owner) (by simp)]
      have run : ((myOpen s).goto t .openUnlock).devRun = s.devRun + 1 := my_open_run s
      rw [run]
      simp only [goto_fifo, goto_stat, my_open_fifo, my_open_stat]
      exact .myOpen
  | closed point =>
      have owner := owned _ point rfl
      have called : s.status t = .called .myClose := congrArg Pc.status point
      refine .take called ?_ (status_update s _ t (.answered (0, [])) (by simp [Pc.status]) others)
      rw [shelf_holder s t _ owner point, shelf_holder _ t .closeUnlock (by simpa [myClose] using owner) (by simp)]
      exact .myClose
  | @popped dim value node rest point found =>
      have owner := owned _ point rfl
      refine .silent ?_ (status_same s _ t (by simp [point, Pc.status]) others)
      rw [shelf_holder s t _ owner point, shelf_holder _ t _ (by simpa using owner) (by simp; rfl), (kb_pop_some _ _ _ found).1]
      rfl
  | @pushed value point success =>
      have owner := owned _ point rfl
      have called : s.status t = .called (.myWrite value) := congrArg Pc.status point
      refine .take called ?_ (status_update s _ t (.answered (0, [])) (by simp [Pc.status]) others)
      rw [shelf_holder s t _ owner point, shelf_holder _ t (.writeWake 0) (by simpa using owner) (by simp)]
      have room := pushes t value (.inr point)
      rw [s.kbFifo.counted] at room
      exact .stored room
  | wakeWriters point =>
      have owner := owned _ point rfl
      refine .silent ?_ (status_same s _ t (by simp [point, Pc.status]) others)
      rw [shelf_holder s t _ owner point, shelf_holder _ t _ (by simpa using owner) (by simp; rfl)]
      rfl
  | wakeReaders point =>
      have owner := owned _ point rfl
      refine .silent ?_ (status_same s _ t (by simp [point, Pc.status]) others)
      rw [shelf_holder s t _ owner point, shelf_holder _ t _ (by simpa using owner) (by simp; rfl)]
      rfl

def Event.noted : Event ι → List (Exchange ι Op Answer Int)
  | .limit max => [.noted max]
  | _ => []

theorem client_unnoted (s next : Dev ι) (t : ι) (env : Env) (out : List (Event ι)) (move : ClientMove s t env next out) :
    out.flatMap Event.noted = [] := by
  cases move with
  | release left =>
      unfold doneEvents
      split <;> rfl
  | _ => rfl

omit [DecidableEq ι] in
theorem kt_shelf (s next : Dev ι) (k : Kt) (out : List (Event ι)) (inv : LockInv s) (move : KtMove s k next out) :
    next.status = s.status ∧
      (out.flatMap Event.noted = [] ∧ next.shelf = s.shelf ∨
        ∃ max, out.flatMap Event.noted = [.noted max] ∧ shelfObject.change s.shelf max next.shelf) := by
  cases move with
  | proceed | setState | test | statOops | reallocOops | wake => exact ⟨rfl, .inl ⟨rfl, rfl⟩⟩
  | acquire point free =>
      refine ⟨rfl, .inl ⟨rfl, ?_⟩⟩
      rw [shelf_nobody s (by simp [free]), shelf_nobody _ (by simp)]
      rfl
  | release point =>
      have owner := (inv.kernel k).mp (by rw [point]; rfl)
      refine ⟨rfl, .inl ⟨rfl, ?_⟩⟩
      rw [shelf_nobody s (by simp [owner]), shelf_nobody _ (by simp)]
      rfl
  | @sampled ds env point done =>
      refine ⟨rfl, .inl ⟨rfl, ?_⟩⟩
      obtain ⟨_, limit, _⟩ := kt_stat_work_spec _ _ _ _ done
      change (⟨s.unfetched ++ s.kbFifo.nodes, ds.dsKbMax, s.devRun⟩ : Shelf) = s.shelf
      rw [limit]
      rfl
  | @resized ds point done => exact ⟨rfl, .inr ⟨ds.dsKbMax, rfl, rfl⟩⟩

end Device

section History

variable {ι : Type}

def Dev.exchanges (s : Dev ι) : Action ι → List (Exchange ι Op Answer Int)
  | .call t op => [.invoked t op]
  | .ret t =>
      match (s.tasks t).pc with
      | .ret res got => [.responded t (res, got)]
      | _ => []
  | _ => []

variable [DecidableEq ι]

def historyDevice (ι : Type) [DecidableEq ι] : Machine (Dev ι) (Action ι) (Exchange ι Op Answer Int) where
  step s action := ((device ι).step s action).map fun moved => (moved.1, s.exchanges action ++ moved.2.flatMap Event.noted)

theorem history_steps (s next : Dev ι) (action : Action ι) (out : List (Exchange ι Op Answer Int))
    (stepped : (historyDevice ι).step s action = some (next, out)) :
    ∃ events, (device ι).step s action = some (next, events) ∧ out = s.exchanges action ++ events.flatMap Event.noted := by
  obtain ⟨⟨moved, events⟩, step, same⟩ := Option.map_eq_some_iff.mp stepped
  cases same
  exact ⟨events, step, rfl⟩

theorem history_run {history : List (Exchange ι Op Answer Int)} {s : Dev ι}
    (run : Run (historyDevice ι) Any (myModuleInit ι) history s) : ∃ events, Run (device ι) Any (myModuleInit ι) events s := by
  refine Run.observed (fun s => s) ?_ run
  intro s action next log stepped
  obtain ⟨events, step, _⟩ := history_steps s next action log stepped
  exact ⟨events, step⟩

theorem device_linearizable {history : List (Exchange ι Op Answer Int)} {s : Dev ι}
    (run : Run (historyDevice ι) Any (myModuleInit ι) history s) :
    Linearized shelfObject ⟨[], startKbDim, 0⟩ history s.shelf s.status := by
  refine Run.invariant (fun history s => Linearized shelfObject ⟨[], startKbDim, 0⟩ history s.shelf s.status)
    (linearized_start _ _) ?_ run
  intro history s action next out before linear _ stepped
  obtain ⟨events, step, rfl⟩ := history_steps s next action out stepped
  obtain ⟨_, seen⟩ := history_run before
  have inv := lock_inv_run seen
  cases device_moves s next action events step with
  | @call t op idle =>
      rw [show (s.goto t op.entry).shelf = s.shelf from put_shelf s t _ (by rw [idle, entry_unfetched]; rfl),
        status_update s (s.goto t op.entry) t (.called op) (by simp [entry_status]) (by intro u other; simp [other])]
      exact linearized_invoke linear (congrArg Pc.status idle)
  | @client t env _ _ move =>
      rw [client_unnoted s next t env events move, List.append_nil, show s.exchanges (.go t env) = [] from rfl, List.append_nil]
      cases client_call s next t env events inv (pop_ready_run seen) (push_ready_run seen) (backed_run seen t) move with
      | silent shelf status => rwa [shelf, status]
      | take called served answered =>
          rw [answered]
          exact linearized_take linear called served
      | lose called shelf lost =>
          rw [shelf, lost]
          exact linearized_lose linear called
  | @ret t res got point =>
      rw [put_shelf s t _ (by rw [point]; rfl),
        status_update s (s.put t _) t .idle (by simp [Pc.status]) (by intro u other; simp [other]),
        show s.exchanges (.ret t) = [.responded t (res, got)] by simp [Dev.exchanges, point]]
      exact linearized_respond linear (congrArg Pc.status point)
  | @signal t =>
      rw [show s.exchanges (.signal t) ++ [].flatMap Event.noted = [] from rfl, List.append_nil,
        show (signalStep s t).shelf = s.shelf from put_shelf s t _ rfl,
        status_same s (signalStep s t) t (by simp [signalStep]) (by intro u other; simp [signalStep, other])]
      exact linear
  | @kt k env _ _ move =>
      rw [show s.exchanges (.kt k env) = [] from rfl, List.nil_append]
      obtain ⟨status, ⟨silent, shelf⟩ | ⟨max, noted, changed⟩⟩ := kt_shelf s next k events inv move
      · rw [silent, List.append_nil, status, shelf]
        exact linear
      · rw [noted, status]
        exact linearized_note linear changed
  | @timer k =>
      rw [show s.exchanges (.timer k) ++ [].flatMap Event.noted = [] from rfl, List.append_nil]
      exact linear

end History

-- kt_realloc has lowered the limit to 2. A reader that has been called first
-- and has slept on the empty device is given what a later my_write has stored.
def lateWriteHistory : List (Exchange Bool Op Answer Int) :=
  [.invoked false .myOpen, .responded false (0, []), .noted 2, .invoked true (.myRead 2), .invoked false (.myWrite [97, 0]),
    .responded false (0, []), .responded true (0, [97, 0])]

theorem device_linearizable_late_write :
    ∃ s, Run (historyDevice Bool) Any (myModuleInit Bool) lateWriteHistory s ∧
      Linearized shelfObject ⟨[], startKbDim, 0⟩ lateWriteHistory s.shelf s.status ∧ s.shelf.strings = [] ∧ s.shelf.limit = 2 := by
  obtain ⟨history, s, run, seen⟩ := exec_reaches_any (historyDevice Bool) (myModuleInit Bool)
    ([Action.call false .myOpen] ++ alone false 3 ++ [Action.ret false] ++ List.replicate 6 (Action.kt .ktStat {}) ++
      List.replicate 6 (Action.kt .ktRealloc {}) ++
      [Action.call true (.myRead 2)] ++ alone true 10 ++ [Action.call false (.myWrite [97, 0])] ++ alone false 7 ++
      [Action.ret false] ++ alone true 11 ++ [Action.ret true])
    (fun s history => history = lateWriteHistory ∧ s.shelf.strings = [] ∧ s.shelf.limit = 2) (by decide +kernel)
  obtain ⟨rfl, empty, limit⟩ : history = lateWriteHistory ∧ s.shelf.strings = [] ∧ s.shelf.limit = 2 := by simpa using seen
  exact ⟨s, run, device_linearizable run, empty, limit⟩

end MyDev
