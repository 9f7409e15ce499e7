import MyDev.DeviceData
import MyDev.DeviceProgress

set_option autoImplicit false

namespace MyDev

open Library

-- What a task in its wait loop sees of its queue: whether it is blocked, and
-- would be with the argument it has loaded.
structure View where
  blocked : Bool
  shut : Int → Bool

-- The way of a task through wait_event_interruptible: to its sleep if the
-- condition is false, to the test that lets it pass if it is true. An argument
-- that is out of date may lead it astray once.
def WaitPc.way (view : View) (awake : Bool) : WaitPc → Nat
  | .test => if view.blocked then 8 else 1
  | .unlock => if view.blocked then 7 else 5
  | .cond => if view.blocked then 6 else 4
  | .condCall max => if view.blocked then (if view.shut max then 5 else 10) else (if view.shut max then 7 else 3)
  | .prepare => if view.blocked then 4 else 6
  | .recheck => if view.blocked then (if awake then 8 else 3) else 5
  | .recheckCall max =>
      if view.shut max then (if awake then (if view.blocked then 7 else 9) else 2) else (if view.blocked then 11 else 4)
  | .pending => if awake then (if view.blocked then 6 else 8) else 1
  | .sched => if awake then (if view.blocked then 5 else 7) else 0
  | .finish => if view.blocked then 10 else 3
  | .relock => if view.blocked then 9 else 2

def Task.awake (task : Task) : Bool := task.state = .running

-- The price of a string that my_read is about to hand over, and of one in the
-- queue, with `n` tasks around.
def handPrice : Nat := 397

def stringPrice (n : Nat) : Nat := handPrice + 16 * n + 4

-- How many statements a call still has in it. Whoever wakes a queue pays for
-- all who may be in it, 7 each; a push or a pop turns the condition of the
-- others around, which costs them at most 9, and a push puts up the string.
def Task.toll (n : Nat) (view : WaitQueue → View) (task : Task) : Nat :=
  match task.pc with
  | .user | .ret _ _ | .oops | .readPop _ _ => 0
  | .openUnlock | .closeUnlock | .readUnlock _ _ _ | .writeUnlock _ => 1
  | .openRun | .closeRun => 2
  | .openLock | .closeLock => 3
  | .readLock _ => 10
  | .readAlloc _ => 9
  | .readWait _ _ point => point.way (view .waitR) task.awake
  | .readCopy _ _ _ => 3 + 7 * n
  | .readWake _ _ | .writeWake _ => 2 + 7 * n
  | .writePush _ => 3 + 16 * n + stringPrice n
  | .writeCopy _ => 4 + 16 * n + stringPrice n
  | .writeWait _ point => 4 + 16 * n + stringPrice n + point.way (view .waitW) task.awake
  | .writeAlloc _ => 13 + 16 * n + stringPrice n
  | .writeLock _ => 14 + 16 * n + stringPrice n

def Op.toll (n : Nat) : Op → Nat
  | .myOpen | .myClose => 3
  | .myRead _ => 10
  | .myWrite _ => 14 + 16 * n + stringPrice n

theorem entry_toll (n : Nat) (view : WaitQueue → View) (task : Task) (op : Op) (entered : task.pc = op.entry) :
    task.toll n view = op.toll n := by
  cases op <;> simp [Task.toll, entered, Op.entry, Op.toll]

theorem way_flip (point : WaitPc) (before after : View) (awake : Bool) : point.way after awake ≤ point.way before awake + 9 := by
  cases point <;> simp only [WaitPc.way] <;> repeat' split
  all_goals omega

theorem way_wake (point : WaitPc) (view : View) (awake : Bool) : point.way view true ≤ point.way view awake + 7 := by
  cases point <;> cases awake <;> simp only [WaitPc.way] <;> repeat' split
  all_goals omega

theorem toll_outside (n cost : Nat) (before after : WaitQueue → View) (task later : Task) (same : later.pc = task.pc)
    (each : ∀ (point : WaitPc) (queue : WaitQueue), point.way (after queue) later.awake ≤ point.way (before queue) task.awake + cost) :
    later.toll n after ≤ task.toll n before + cost := by
  unfold Task.toll
  rw [same]
  cases task.pc with
  | readWait _ _ point => exact each point .waitR
  | writeWait _ point =>
      have way := each point .waitW
      simp only
      omega
  | _ => exact Nat.le_add_right _ _

theorem toll_flip (n : Nat) (before after : WaitQueue → View) (task : Task) : task.toll n after ≤ task.toll n before + 9 :=
  toll_outside n 9 before after task task rfl fun point _ => way_flip point _ _ _

theorem toll_wake (n : Nat) (view : WaitQueue → View) (queue : WaitQueue) (task : Task) :
    (wakeTask queue task).toll n view ≤ task.toll n view + 7 := by
  unfold wakeTask
  split
  · exact toll_outside n 7 view view task _ rfl fun point _ => way_wake point _ _
  · omega

section Toll

variable {ι : Type}

def Dev.view (s : Dev ι) (queue : WaitQueue) : View := ⟨s.blocked queue, s.blockedAt queue⟩

theorem view_congr (s next : Dev ι) (fifo : next.kbFifo = s.kbFifo) (limit : next.devStat.dsKbMax = s.devStat.dsKbMax) :
    next.view = s.view := by
  funext queue
  have shut : next.blockedAt queue = s.blockedAt queue := by
    funext max
    cases queue <;> simp only [Dev.blockedAt, fifo]
  simp only [Dev.view, blocked_congr s next queue fifo limit, shut]

def Dev.due (threads : Finset ι) (s : Dev ι) : Nat := load threads s.tasks (Task.toll threads.card s.view)

def Dev.owed (threads : Finset ι) (s : Dev ι) : Nat :=
  s.due threads + stringPrice threads.card * s.kbFifo.nodes.length

theorem waiting_toll (n : Nat) (view : WaitQueue → View) (task : Task) (queue : WaitQueue) (point : WaitPc)
    (inside : task.pc.waiting = some (queue, point)) :
    ∃ rest, (∀ later state queues, Task.toll n view { task with pc := task.pc.moved later, state := state, queue := queues } =
        rest + later.way (view queue) (state = .running)) ∧
      task.toll n view = rest + point.way (view queue) task.awake ∧
      Task.toll n view { task with pc := task.pc.passed } = rest := by
  rcases waiting_cases _ _ _ inside with ⟨dim, value, pc, rfl⟩ | ⟨buf, pc, rfl⟩
  · exact ⟨0, by simp [pc, Pc.moved, Task.toll, Task.awake], by simp [pc, Task.toll], by simp [pc, Pc.passed, Task.toll]⟩
  · exact ⟨4 + 16 * n + stringPrice n, by simp [pc, Pc.moved, Task.toll, Task.awake], by simp [pc, Task.toll],
      by simp [pc, Pc.passed, Task.toll]⟩

theorem local_toll (n : Nat) (s : Dev ι) (env : Env) (task next : Task) (healthy : env.ok = true) (calm : task.signal = false)
    (stocked : ∀ dim value, task.pc = .readPop dim value → kbPop s.kbFifo ≠ none) (move : LocalMove s env task next) :
    next.toll n s.view < task.toll n s.view := by
  cases move with
  | pass point room =>
      obtain ⟨rest, _, now, passed⟩ := waiting_toll n s.view task _ _ point
      rw [now, passed]
      simp [WaitPc.way, Dev.view, room]
  | block point shut =>
      obtain ⟨rest, moved, now, _⟩ := waiting_toll n s.view task _ _ point
      rw [now, moved _ task.state task.queue]
      simp [WaitPc.way, Dev.view, shut]
  -- The argument is up to date when it is loaded.
  | @load queue point | @reload queue point =>
      obtain ⟨rest, moved, now, _⟩ := waiting_toll n s.view task _ _ point
      rw [now, moved _ task.state task.queue]
      have current : s.blockedAt queue (s.waitArg queue) = s.blocked queue := rfl
      cases shut : s.blocked queue <;> cases awake : task.awake <;> simp_all [WaitPc.way, Dev.view, Task.awake]
  | @enter queue max point shut | @commit queue max point shut | @skip queue max point shut | @satisfied queue max point shut =>
      obtain ⟨rest, moved, now, _⟩ := waiting_toll n s.view task _ _ point
      rw [now, moved _ task.state task.queue]
      cases blocked : s.blocked queue <;> cases awake : task.awake <;> simp_all [WaitPc.way, Dev.view, Task.awake]
  | @prepare queue point | @finish queue point =>
      obtain ⟨rest, moved, now, _⟩ := waiting_toll n s.view task _ _ point
      rw [now, moved]
      cases blocked : s.blocked queue <;> simp [WaitPc.way, Dev.view, blocked]
  | @sleep queue point =>
      obtain ⟨rest, moved, now, _⟩ := waiting_toll n s.view task _ _ point
      rw [now, moved _ task.state task.queue]
      cases blocked : s.blocked queue <;> cases awake : task.awake <;> simp_all [WaitPc.way, Dev.view, Task.awake]
  | @resume queue point awake =>
      obtain ⟨rest, moved, now, _⟩ := waiting_toll n s.view task _ _ point
      rw [now, moved _ task.state task.queue]
      cases blocked : s.blocked queue <;> simp [WaitPc.way, Dev.view, Task.awake, awake, blocked]
  | interrupted _ signalled => simp [calm] at signalled
  | readNothing point missing => exact absurd missing (stocked _ _ point)
  | readNoMemory _ failure | readFault _ failure | writeNoMemory _ failure | writeFault _ failure | writeOops _ failure =>
      simp [healthy] at failure
  | readAlloc point | writeAlloc point =>
      simp only [Task.toll, point, WaitPc.way]
      split <;> omega
  | readCopied point | writeCopied point =>
      simp only [Task.toll, point]
      omega

theorem locked_toll (n : Nat) (view : WaitQueue → View) (task : Task) (pc : Pc) (entered : task.pc.locked = some pc) :
    Task.toll n view { task with pc := pc } < task.toll n view := by
  unfold Pc.locked at entered
  split at entered <;> cases entered <;> rename_i point <;> simp only [Task.toll, point, WaitPc.way]
  case _ | _ => decide
  all_goals first | omega | (split <;> omega)

theorem unlocked_toll (n : Nat) (view : WaitQueue → View) (task : Task) (pc : Pc) (left : task.pc.unlocked = some pc) :
    Task.toll n view { task with pc := pc } < task.toll n view := by
  unfold Pc.unlocked at left
  split at left <;> cases left <;> rename_i point <;> simp only [Task.toll, point, WaitPc.way]
  all_goals first | omega | (split <;> omega)

variable [DecidableEq ι]

theorem due_put (threads : Finset ι) (s next : Dev ι) (t : ι) (task : Task) (member : t ∈ threads)
    (tasks : next.tasks = Function.update s.tasks t task) :
    load threads next.tasks (Task.toll threads.card s.view) + (s.tasks t).toll threads.card s.view =
      s.due threads + task.toll threads.card s.view := by
  rw [tasks]
  exact load_update threads s.tasks _ t task member

omit [DecidableEq ι] in
theorem due_flip (threads : Finset ι) (s next : Dev ι) :
    next.due threads ≤ load threads next.tasks (Task.toll threads.card s.view) + threads.card * 9 :=
  load_raise threads next.tasks next.tasks _ _ 9 fun t _ => toll_flip threads.card s.view next.view (next.tasks t)

theorem due_own (threads : Finset ι) (s next : Dev ι) (t : ι) (task : Task) (member : t ∈ threads)
    (tasks : next.tasks = Function.update s.tasks t task) (same : next.view = s.view)
    (cheaper : task.toll threads.card s.view < (s.tasks t).toll threads.card s.view) : next.due threads < s.due threads := by
  have own := due_put threads s next t task member tasks
  unfold Dev.due at own ⊢
  rw [same]
  omega

theorem due_wake (threads : Finset ι) (s next : Dev ι) (queue : WaitQueue) (t : ι) (task : Task) (member : t ∈ threads)
    (tasks : next.tasks = Function.update (fun u => wakeTask queue (s.tasks u)) t task) (same : next.view = s.view)
    (cheaper : task.toll threads.card s.view + threads.card * 7 < (wakeTask queue (s.tasks t)).toll threads.card s.view) :
    next.due threads < s.due threads := by
  have woken := load_raise threads s.tasks (fun u => wakeTask queue (s.tasks u)) (Task.toll threads.card s.view) _ 7
    fun u _ => toll_wake threads.card s.view queue (s.tasks u)
  have own := load_update threads (fun u => wakeTask queue (s.tasks u)) (Task.toll threads.card s.view) t task member
  unfold Dev.due
  rw [same, tasks]
  omega

theorem client_toll (threads : Finset ι) (s next : Dev ι) (t : ι) (env : Env) (out : List (Event ι)) (member : t ∈ threads)
    (healthy : env.ok = true) (calm : (s.tasks t).signal = false)
    (stocked : ∀ dim value, (s.tasks t).pc = .readPop dim value → kbPop s.kbFifo ≠ none) (move : ClientMove s t env next out) :
    next.owed threads + handPrice * (out.flatMap Event.pops).length < s.owed threads := by
  unfold Dev.owed
  cases move with
  | @«local» task move =>
      have less := due_own threads s (s.put t task) t task member rfl rfl
        (local_toll threads.card s env _ _ healthy calm stocked move)
      simpa using less
  | @acquire pc _ entered =>
      have less := due_own threads s ((s.setMutex (some (.client t))).goto t pc) t _ member rfl rfl
        (locked_toll threads.card s.view _ _ entered)
      simpa using less
  | @release pc left =>
      have less := due_own threads s ((s.setMutex none).goto t pc) t _ member rfl rfl
        (unlocked_toll threads.card s.view _ _ left)
      simpa [done_events_pops] using less
  | opened point =>
      have less := due_own threads s ((myOpen s).goto t .openUnlock) t { s.tasks t with pc := .openUnlock } member
        (by simp [Dev.goto, Dev.put]) (view_congr s _ (by simp) (by simp)) (by simp [Task.toll, point])
      simpa using less
  | closed point =>
      have less := due_own threads s ((myClose s).goto t .closeUnlock) t { s.tasks t with pc := .closeUnlock } member rfl rfl
        (by simp [Task.toll, point])
      simpa [myClose] using less
  | @wakeWriters got taken point =>
      have less := due_wake threads s ((s.wakeUpInterruptible .waitW).goto t (.readUnlock 0 got (some taken))) .waitW t _ member rfl
        rfl (by simp [Task.toll, wake_task_pc, point]; omega)
      simpa using less
  | @wakeReaders res point =>
      have less := due_wake threads s ((s.wakeUpInterruptible .waitR).goto t (.writeUnlock res)) .waitR t _ member rfl rfl
        (by simp [Task.toll, wake_task_pc, point]; omega)
      simpa using less
  | @popped dim value node rest point found =>
      have own := due_put threads s ({ s with kbFifo := rest }.goto t (.readCopy dim (strcpy value (node ++ [0])) node)) t _ member rfl
      have flip := due_flip threads s ({ s with kbFifo := rest }.goto t (.readCopy dim (strcpy value (node ++ [0])) node))
      have nodes := (kb_pop_some _ _ _ found).1
      simp only [Task.toll, point] at own
      simp only [goto_fifo, nodes, List.length_cons, List.flatMap_cons, List.flatMap_nil, Event.pops, List.append_nil,
        List.length_nil, Nat.mul_add, Nat.mul_one, Nat.mul_zero]
      unfold stringPrice at *
      omega
  | @pushed value point =>
      have own := due_put threads s ({ s with kbFifo := kbPush (value ++ env.mem) s.kbFifo }.goto t (.writeWake 0)) t _ member rfl
      have flip := due_flip threads s ({ s with kbFifo := kbPush (value ++ env.mem) s.kbFifo }.goto t (.writeWake 0))
      simp only [Task.toll, point] at own
      simp only [goto_fifo, kb_push_nodes, List.length_append, List.length_cons, List.length_nil, List.flatMap_cons,
        List.flatMap_nil, Event.pops, Nat.mul_add, Nat.mul_one, Nat.mul_zero]
      omega

theorem call_owed (threads : Finset ι) (s : Dev ι) (t : ι) (op : Op) (member : t ∈ threads) (idle : (s.tasks t).pc = .user) :
    (s.goto t op.entry).owed threads = s.owed threads + op.toll threads.card := by
  have own := due_put threads s (s.goto t op.entry) t ⟨op.entry, (s.tasks t).state, (s.tasks t).queue, (s.tasks t).signal⟩ member rfl
  have free : (s.tasks t).toll threads.card s.view = 0 := by simp [Task.toll, idle]
  have here : (s.goto t op.entry).due threads = load threads (s.goto t op.entry).tasks (Task.toll threads.card s.view) := rfl
  rw [entry_toll threads.card s.view ⟨op.entry, _, _, _⟩ op rfl] at own
  simp only [Dev.owed, goto_fifo]
  omega

theorem ret_owed (threads : Finset ι) (s : Dev ι) (t : ι) (res : Int) (got : Bytes) (task : Task) (member : t ∈ threads)
    (point : (s.tasks t).pc = .ret res got) (left : task.pc = .user) : (s.put t task).owed threads = s.owed threads := by
  have own := due_put threads s (s.put t task) t task member rfl
  have free : (s.tasks t).toll threads.card s.view = 0 := by simp [Task.toll, point]
  have gone : task.toll threads.card s.view = 0 := by simp [Task.toll, left]
  have here : (s.put t task).due threads = load threads (s.put t task).tasks (Task.toll threads.card s.view) := rfl
  simp only [Dev.owed, put_fifo]
  omega

omit [DecidableEq ι] in
theorem kt_move_quiet (s next : Dev ι) (k : Kt) (out : List (Event ι)) (move : KtMove s k next out) :
    next.kbFifo = s.kbFifo ∧ next.tasks = s.tasks ∧ out.flatMap Event.pops = [] := by
  cases move <;> exact ⟨rfl, rfl, rfl⟩

def limitChanges (limit : Int) : List (Event ι) → Nat
  | [] => 0
  | .limit max :: rest => (if max = limit then 0 else 1) + limitChanges max rest
  | _ :: rest => limitChanges limit rest

omit [DecidableEq ι] in
theorem limit_changes_silent (limit : Int) (out later : List (Event ι)) (silent : ∀ event ∈ out, event.kernel = false) :
    limitChanges limit (out ++ later) = limitChanges limit later := by
  induction out with
  | nil => rfl
  | cons event rest ih =>
      have kept := ih fun other member => silent other (by simp [member])
      cases event with
      | limit => cases silent _ (List.mem_cons_self ..)
      | _ => exact kept

theorem limit_changes_step (s next : Dev ι) (action : Action ι) (out later : List (Event ι)) (move : DevMove s action next out) :
    limitChanges s.devStat.dsKbMax (out ++ later) =
      (if next.devStat.dsKbMax = s.devStat.dsKbMax then 0 else 1) + limitChanges next.devStat.dsKbMax later := by
  cases device_effect s next action out move with
  | quiet stat _ silent | push _ stat _ silent => simp [limit_changes_silent _ out later silent, stat]
  | sample _ _ work _ emits => simp [emits, limitChanges, (kt_stat_work_spec _ _ _ _ work).2.1]
  | resize _ _ _ _ emits => simp [emits, limitChanges]
  | trap _ _ _ stat _ emits => simp [emits, limitChanges, stat]

omit [DecidableEq ι] in
theorem kt_owed (threads : Finset ι) (s next : Dev ι) (k : Kt) (out : List (Event ι)) (move : KtMove s k next out) :
    next.owed threads ≤ s.owed threads +
      threads.card * 9 * (if next.devStat.dsKbMax = s.devStat.dsKbMax then 0 else 1) := by
  obtain ⟨fifo, tasks, _⟩ := kt_move_quiet s next k out move
  by_cases kept : next.devStat.dsKbMax = s.devStat.dsKbMax
  · simp only [Dev.owed, Dev.due, fifo, tasks, view_congr s next fifo kept]
    omega
  · have flip := due_flip threads s next
    rw [tasks] at flip
    simp only [Dev.owed, Dev.due, fifo, if_neg kept] at flip ⊢
    omega

end Toll

section Calls

variable {ι : Type}

def Unsignalled (s : Dev ι) : Action ι → Prop
  | .signal _ => False
  | action => Supplied s action

omit ι in
theorem wake_task_signal (queue : WaitQueue) (task : Task) : (wakeTask queue task).signal = task.signal := by
  unfold wakeTask
  split <;> rfl

variable [DecidableEq ι]

theorem unsignalled_move (s next : Dev ι) (action : Action ι) (out : List (Event ι)) (calm : ∀ t, (s.tasks t).signal = false)
    (quiet : Unsignalled s action) (move : DevMove s action next out) : ∀ t, (next.tasks t).signal = false := by
  intro u
  cases move with
  | signal => exact quiet.elim
  | call | ret => simp only [goto_tasks, put_tasks]; split <;> simp [calm]
  | kt move => rw [(kt_move_quiet s next _ out move).2.1]; exact calm u
  | timer => exact calm u
  | @client t _ _ _ move =>
      cases move with
      | «local» move =>
          simp only [put_tasks]
          split
          · have kept := calm t
            cases move <;> exact kept
          · exact calm u
      | wakeWriters | wakeReaders => simp only [goto_tasks]; split <;> simp [Dev.wakeUpInterruptible, wake_task_signal, calm]
      | _ => simp only [goto_tasks]; split <;> simp [myClose, calm]

theorem unsignalled_run {events : List (Event ι)} {s : Dev ι} (run : Run (device ι) Unsignalled (myModuleInit ι) events s) :
    ∀ t, (s.tasks t).signal = false := by
  refine Run.invariant (fun _ s => ∀ t, (s.tasks t).signal = false) (by simp [myModuleInit]) ?_ run
  intro _ s action next out _ calm quiet stepped
  exact unsignalled_move s next action out calm quiet (device_moves s next action out stepped)

def Pc.Succeeds : Pc → Prop
  | .readUnlock res _ _ | .writeWake res | .writeUnlock res | .ret res _ => res = 0
  | _ => True

omit [DecidableEq ι] in
theorem local_succeeds (s : Dev ι) (env : Env) (pc next : Pc) (healthy : env.ok = true)
    (stocked : ∀ dim value, pc = .readPop dim value → kbPop s.kbFifo ≠ none) (step : LocalPc s env pc next) : next.Succeeds := by
  cases step with
  | readNothing missing => exact absurd missing (stocked _ _ rfl)
  | readNoMemory failure | readFault failure | writeNoMemory failure | writeFault failure => simp [healthy] at failure
  | _ => trivial

theorem client_succeeds (s next : Dev ι) (t : ι) (env : Env) (out : List (Event ι)) (healthy : env.ok = true)
    (stocked : ∀ dim value, (s.tasks t).pc = .readPop dim value → kbPop s.kbFifo ≠ none)
    (fine : (s.tasks t).pc.Succeeds) (move : ClientMove s t env next out) : (next.tasks t).pc.Succeeds := by
  cases move with
  | «local» move => simpa using local_succeeds s env _ _ healthy stocked (local_move_pc s env _ _ move)
  | acquire _ entered =>
      simp only [goto_tasks, if_true]
      unfold Pc.locked at entered
      split at entered <;> cases entered <;> trivial
  | release left =>
      simp only [goto_tasks, if_true]
      unfold Pc.unlocked at left
      split at left <;> cases left <;> simp_all [Pc.Succeeds]
  | wakeReaders point => simpa [point, Pc.Succeeds] using fine
  | _ => simp [Pc.Succeeds]

theorem pop_found {events : List (Event ι)} {s : Dev ι} {ok : Dev ι → Action ι → Prop}
    (run : Run (device ι) ok (myModuleInit ι) events s) (t : ι) (dim : Nat) (value : Bytes)
    (point : (s.tasks t).pc = .readPop dim value) : kbPop s.kbFifo ≠ none :=
  fun missing => pop_ready_run run t dim value point ((kb_pop_none_iff _).mp missing)

theorem succeeds_run {events : List (Event ι)} {s : Dev ι} (run : Run (device ι) Unsignalled (myModuleInit ι) events s) :
    ∀ t, (s.tasks t).pc.Succeeds := by
  refine Run.invariant (fun _ s => ∀ t, (s.tasks t).pc.Succeeds) (by simp [myModuleInit, Pc.Succeeds]) ?_ run
  intro _ s action next out before fine quiet stepped t
  cases task_move s next t action out (device_moves s next action out stepped) with
  | @call op _ entered => cases op <;> simp [entered, Op.entry, Pc.Succeeds]
  | go own => exact client_succeeds s next t _ out quiet (fun dim value => pop_found before t dim value) (fine t) own
  | ret _ left => simp [left, Pc.Succeeds]
  | other _ same => rw [same]; exact fine t

end Calls

end MyDev
