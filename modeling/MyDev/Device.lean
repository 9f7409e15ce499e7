import MyDev.Library.Machine
import MyDev.Stat

set_option autoImplicit false

namespace MyDev

open Library

inductive TaskState where
  | running
  | interruptible
deriving DecidableEq, Repr

inductive WaitQueue where
  | waitR
  | waitW
deriving DecidableEq, Repr

-- The points of `while (blocked) { mutex_unlock; wait_event_interruptible;
-- mutex_lock; }`, with wait_event_interruptible expanded as in wait.h. Its two
-- tests run without dev_mutex: the argument is loaded first, then the call of
-- kb_isempty or kb_isfull looks at the queue.
inductive WaitPc where
  | test
  | unlock
  | cond
  | condCall (max : Int)
  | prepare
  | recheck
  | recheckCall (max : Int)
  | pending
  | sched
  | finish
  | relock
deriving DecidableEq, Repr

inductive Op where
  | myOpen
  | myClose
  | myRead (dim : Nat)
  | myWrite (buf : Bytes)
deriving DecidableEq, Repr

-- Where a client task is in its current call. `ret` is a call that has
-- returned to the system call layer, `oops` a task killed inside the call.
-- From the pop on, a my_read carries the string it took out of the queue.
inductive Pc where
  | user
  | openLock
  | openRun
  | openUnlock
  | closeLock
  | closeRun
  | closeUnlock
  | readLock (dim : Nat)
  | readAlloc (dim : Nat)
  | readWait (dim : Nat) (value : Bytes) (point : WaitPc)
  | readPop (dim : Nat) (value : Bytes)
  | readCopy (dim : Nat) (value taken : Bytes)
  | readWake (got taken : Bytes)
  | readUnlock (res : Int) (got : Bytes) (taken : Option Bytes)
  | writeLock (buf : Bytes)
  | writeAlloc (buf : Bytes)
  | writeWait (buf : Bytes) (point : WaitPc)
  | writeCopy (buf : Bytes)
  | writePush (value : Bytes)
  | writeWake (res : Int)
  | writeUnlock (res : Int)
  | ret (res : Int) (got : Bytes)
  | oops
deriving DecidableEq, Repr

structure Task where
  pc : Pc
  state : TaskState
  queue : Option WaitQueue
  signal : Bool
deriving DecidableEq, Repr

inductive Kt where
  | ktStat
  | ktRealloc
deriving DecidableEq, Repr

-- `timed` tells the sleep with a timeout of the dev_run branch from the plain
-- schedule() of the else branch.
inductive KtPc where
  | check
  | lock
  | setState
  | test
  | work
  | unlock (timed : Bool)
  | sched (timed : Bool)
  | exited
  | oops
deriving DecidableEq, Repr

structure KtTask where
  pc : KtPc
  state : TaskState
  stop : Bool
deriving DecidableEq, Repr

inductive Holder (ι : Type) where
  | client (t : ι)
  | kt (k : Kt)
deriving DecidableEq, Repr

structure Dev (ι : Type) where
  devMutex : Option (Holder ι)
  kbFifo : Kb
  devStat : Ds
  devRun : Int
  tasks : ι → Task
  kts : Kt → KtTask

-- What the environment decides in a step: whether the kmalloc or user copy of
-- that step succeeds, and what the memory it comes upon holds.
structure Env where
  ok : Bool := true
  mem : Bytes := []
  block : Nat → Int := fun _ => 0

inductive Action (ι : Type) where
  | call (t : ι) (op : Op)
  | go (t : ι) (env : Env)
  | ret (t : ι)
  | signal (t : ι)
  | kt (k : Kt) (env : Env)
  | timer (k : Kt)

inductive Event (ι : Type) where
  | pushed (t : ι) (data : Bytes)
  | popped (t : ι) (data : Bytes)
  | readDone (t : ι) (res : Int) (taken : Option Bytes)
  | writeDone (t : ι) (res : Int)
  | sampled (dim : Int)
  | realloc (dim max : Int)
  | limit (max : Int)
deriving DecidableEq, Repr

def startKbDim : Int := 5
def eFault : Int := 14

section Steps

variable {ι : Type} [DecidableEq ι]

def Dev.put (s : Dev ι) (t : ι) (task : Task) : Dev ι := { s with tasks := Function.update s.tasks t task }

def Dev.goto (s : Dev ι) (t : ι) (pc : Pc) : Dev ι := s.put t { s.tasks t with pc := pc }

def Dev.putKt (s : Dev ι) (k : Kt) (task : KtTask) : Dev ι := { s with kts := Function.update s.kts k task }

def Dev.gotoKt (s : Dev ι) (k : Kt) (pc : KtPc) : Dev ι := s.putKt k { s.kts k with pc := pc }

def Dev.setMutex (s : Dev ι) (holder : Option (Holder ι)) : Dev ι := { s with devMutex := holder }

-- Every queued waiter that is not yet running is made to run and taken off
-- the queue, as autoremove_wake_function does for non-exclusive waiters.
def wakeTask (queue : WaitQueue) (task : Task) : Task :=
  if task.queue = some queue ∧ task.state = .interruptible then { task with state := .running, queue := none } else task

def Dev.wakeUpInterruptible (s : Dev ι) (queue : WaitQueue) : Dev ι :=
  { s with tasks := fun t => wakeTask queue (s.tasks t) }

def Dev.wakeUpProcess (s : Dev ι) (k : Kt) : Dev ι := s.putKt k { s.kts k with state := .running }

def waitLoop (s : Dev ι) (t : ι) (queue : WaitQueue) (arg : Int) (blocked : Int → Bool) (stay : WaitPc → Pc) (leave : Pc) :
    WaitPc → Option (Dev ι)
  | .test => some (s.goto t (if blocked arg then stay .unlock else leave))
  | .unlock => some ((s.setMutex none).goto t (stay .cond))
  | .cond => some (s.goto t (stay (.condCall arg)))
  | .condCall max => some (s.goto t (if blocked max then stay .prepare else stay .relock))
  | .prepare =>
      some (s.put t { s.tasks t with pc := stay .recheck, state := .interruptible, queue := some queue })
  | .recheck => some (s.goto t (stay (.recheckCall arg)))
  | .recheckCall max => some (s.goto t (if blocked max then stay .pending else stay .finish))
  -- The result -ERESTARTSYS of this branch is not looked at by either caller.
  | .pending => some (s.goto t (if (s.tasks t).signal then stay .finish else stay .sched))
  | .sched => if (s.tasks t).state = .running then some (s.goto t (stay .prepare)) else none
  | .finish => some (s.put t { s.tasks t with pc := stay .relock, state := .running, queue := none })
  | .relock =>
      if s.devMutex.isNone then some ((s.setMutex (some (.client t))).goto t (stay .test)) else none

def mutexLock (s : Dev ι) (t : ι) (next : Pc) : Option (Dev ι) :=
  if s.devMutex.isNone then some ((s.setMutex (some (.client t))).goto t next) else none

def myOpen (s : Dev ι) : Dev ι :=
  let opened := { s with devRun := s.devRun + 1 }
  if opened.devRun = 1 then (opened.wakeUpProcess .ktStat).wakeUpProcess .ktRealloc else opened

def myClose (s : Dev ι) : Dev ι := { s with devRun := s.devRun - 1 }

-- What kmalloc(dim) returns when it succeeds: dim bytes nobody has cleared.
def kmallocBytes (dim : Nat) (mem : Bytes) : Bytes := (mem ++ List.replicate dim 0).take dim

def clientStep (s : Dev ι) (t : ι) (env : Env) : Option (Dev ι × List (Event ι)) :=
  match (s.tasks t).pc with
  | .user => none
  | .openLock => (mutexLock s t .openRun).map (·, [])
  | .openRun => some ((myOpen s).goto t .openUnlock, [])
  | .openUnlock => some ((s.setMutex none).goto t (.ret 0 []), [])
  | .closeLock => (mutexLock s t .closeRun).map (·, [])
  | .closeRun => some ((myClose s).goto t .closeUnlock, [])
  | .closeUnlock => some ((s.setMutex none).goto t (.ret 0 []), [])
  | .readLock dim => (mutexLock s t (.readAlloc dim)).map (·, [])
  | .readAlloc dim =>
      if env.ok then some (s.goto t (.readWait dim (kmallocBytes dim env.mem) .test), [])
      else some (s.goto t (.readUnlock 1 [] none), [])
  -- kb_isempty has no argument to load but the address of kb_fifo.
  | .readWait dim value point =>
      (waitLoop s t .waitR 0 (fun _ => kbIsempty s.kbFifo) (.readWait dim value) (.readPop dim value) point).map (·, [])
  | .readPop dim value =>
      match kbPop s.kbFifo with
      | none => some (s.goto t (.readUnlock 1 [] none), [])
      | some (node, rest) =>
          some ({ s with kbFifo := rest }.goto t (.readCopy dim (strcpy value (node ++ [0])) node), [.popped t node])
  | .readCopy dim value taken =>
      if env.ok then some (s.goto t (.readWake (value.take dim) taken), [])
      else some (s.goto t (.readUnlock (-eFault) [] (some taken)), [])
  | .readWake got taken => some ((s.wakeUpInterruptible .waitW).goto t (.readUnlock 0 got (some taken)), [])
  | .readUnlock res got taken => some ((s.setMutex none).goto t (.ret res got), [.readDone t res taken])
  | .writeLock buf => (mutexLock s t (.writeAlloc buf)).map (·, [])
  | .writeAlloc buf =>
      if env.ok then some (s.goto t (.writeWait buf .test), []) else some (s.goto t (.writeUnlock 1), [])
  | .writeWait buf point =>
      (waitLoop s t .waitW s.devStat.dsKbMax (kbIsfull s.kbFifo) (.writeWait buf) (.writeCopy buf) point).map (·, [])
  | .writeCopy buf =>
      if env.ok then some (s.goto t (.writePush buf), []) else some (s.goto t (.writeUnlock (-eFault)), [])
  -- kb_push does not look at what kmalloc returned. The string it copies may
  -- run on into the memory after the dim bytes of `value`.
  | .writePush value =>
      if env.ok then
        some ({ s with kbFifo := kbPush (value ++ env.mem) s.kbFifo }.goto t (.writeWake 0),
          [.pushed t (cstr (value ++ env.mem))])
      else some (s.goto t .oops, [])
  | .writeWake res => some ((s.wakeUpInterruptible .waitR).goto t (.writeUnlock res), [])
  | .writeUnlock res => some ((s.setMutex none).goto t (.ret res []), [.writeDone t res])
  | .ret _ _ => none
  | .oops => none

-- The body of kt_stat's dev_run branch; the values it prints are not kept.
-- The array is only allocated for a non-empty buffer, and not checked.
def ktStatWork (ds : Ds) (kbuf : Kb) (env : Env) : Option Ds := do
  let (dim, snapshot) := dsPopulate ds kbuf env.block
  if dim = 0 then return dsAddKbValue snapshot dim
  if env.ok = false then none
  let _med ← dsMed snapshot
  let max := dsMax snapshot
  let _min := dsMin snapshot max
  return dsAddKbValue (dsResetStat snapshot) dim

def ktReallocWork (ds : Ds) : Option Ds := do
  let per ← dsGetKbOccupation ds
  let medOcc ← myDiv ds.dsKbSum ds.dsKbDim
  if per ≠ kbOcc then
    let resized ← dsSetKbOccupation ds medOcc
    return dsResetAlloc resized
  return dsResetAlloc ds

def ktStep (s : Dev ι) (k : Kt) (env : Env) : Option (Dev ι × List (Event ι)) :=
  match (s.kts k).pc with
  | .check => some (s.gotoKt k (if (s.kts k).stop then .exited else .lock), [])
  | .lock => if s.devMutex.isNone then some ((s.setMutex (some (.kt k))).gotoKt k .setState, []) else none
  | .setState => some (s.putKt k { s.kts k with pc := .test, state := .interruptible }, [])
  | .test => some (s.gotoKt k (if s.devRun ≠ 0 then .work else .unlock false), [])
  | .work =>
      match k with
      | .ktStat =>
          match ktStatWork s.devStat s.kbFifo env with
          | none => some (s.gotoKt .ktStat .oops, [])
          | some ds => some ({ s with devStat := ds }.gotoKt .ktStat (.unlock true), [.sampled s.kbFifo.count])
      | .ktRealloc =>
          let found := Event.realloc s.devStat.dsKbDim s.devStat.dsKbMax
          match ktReallocWork s.devStat with
          | none => some (s.gotoKt .ktRealloc .oops, [found])
          | some ds => some ({ s with devStat := ds }.gotoKt .ktRealloc (.unlock true), [found, .limit ds.dsKbMax])
  | .unlock timed => some ((s.setMutex none).gotoKt k (.sched timed), [])
  | .sched _ => if (s.kts k).state = .running then some (s.gotoKt k .check, []) else none
  | .exited => none
  | .oops => none

def Op.entry : Op → Pc
  | .myOpen => .openLock
  | .myClose => .closeLock
  | .myRead dim => .readLock dim
  | .myWrite buf => .writeLock buf

def callStep (s : Dev ι) (t : ι) (op : Op) : Option (Dev ι × List (Event ι)) :=
  match (s.tasks t).pc with
  | .user => some (s.goto t op.entry, [])
  | _ => none

-- Signals are handled on the way back to user mode.
def retStep (s : Dev ι) (t : ι) : Option (Dev ι × List (Event ι)) :=
  match (s.tasks t).pc with
  | .ret _ _ => some (s.put t { s.tasks t with pc := .user, signal := false }, [])
  | _ => none

-- A signal also wakes a task out of an interruptible sleep.
def signalStep (s : Dev ι) (t : ι) : Dev ι := s.put t { s.tasks t with signal := true, state := .running }

def timerStep (s : Dev ι) (k : Kt) : Option (Dev ι × List (Event ι)) :=
  match (s.kts k).pc with
  | .sched true => some (s.putKt k { s.kts k with state := .running }, [])
  | _ => none

def device (ι : Type) [DecidableEq ι] : Machine (Dev ι) (Action ι) (Event ι) where
  step
    | s, .call t op => callStep s t op
    | s, .go t env => clientStep s t env
    | s, .ret t => retStep s t
    | s, .signal t => some (signalStep s t, [])
    | s, .kt k env => ktStep s k env
    | s, .timer k => timerStep s k

-- The state a completed my_module_init leaves, with the kernel threads about
-- to enter their loops.
def myModuleInit (ι : Type) : Dev ι where
  devMutex := none
  kbFifo := kbInit
  devStat := dsInitAlloc ⟨0, [], 0, 0, 0⟩ startKbDim
  devRun := 0
  tasks := fun _ => ⟨.user, .running, none, false⟩
  kts := fun _ => ⟨.check, .running, false⟩

end Steps

end MyDev
