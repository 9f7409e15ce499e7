import MyDev.Device

set_option autoImplicit false

namespace MyDev

open Library

-- The wait loops of my_read and my_write are the same program: these say in
-- which of the two a task is, and rename its point inside it.
def Pc.waiting : Pc → Option (WaitQueue × WaitPc)
  | .readWait _ _ point => some (.waitR, point)
  | .writeWait _ point => some (.waitW, point)
  | _ => none

def Pc.moved (pc : Pc) (point : WaitPc) : Pc :=
  match pc with
  | .readWait dim value _ => .readWait dim value point
  | .writeWait buf _ => .writeWait buf point
  | other => other

def Pc.passed : Pc → Pc
  | .readWait dim value _ => .readPop dim value
  | .writeWait buf _ => .writeCopy buf
  | other => other

def WaitPc.holds : WaitPc → Bool
  | .test | .unlock => true
  | _ => false

-- The points at which a task has dev_mutex. A task killed inside its call
-- never gives it back.
def Pc.holds : Pc → Bool
  | .openRun | .openUnlock | .closeRun | .closeUnlock => true
  | .readAlloc _ | .readPop _ _ | .readCopy _ _ _ | .readWake _ _ | .readUnlock _ _ _ => true
  | .writeAlloc _ | .writeCopy _ | .writePush _ | .writeWake _ | .writeUnlock _ => true
  | .readWait _ _ point | .writeWait _ point => point.holds
  | .oops => true
  | .user | .openLock | .closeLock | .readLock _ | .writeLock _ | .ret _ _ => false

def KtPc.holds : KtPc → Bool
  | .setState | .test | .work | .unlock _ | .oops => true
  | .check | .lock | .sched _ | .exited => false

def Pc.locked : Pc → Option Pc
  | .openLock => some .openRun
  | .closeLock => some .closeRun
  | .readLock dim => some (.readAlloc dim)
  | .writeLock buf => some (.writeAlloc buf)
  | .readWait dim value .relock => some (.readWait dim value .test)
  | .writeWait buf .relock => some (.writeWait buf .test)
  | _ => none

def Pc.unlocked : Pc → Option Pc
  | .openUnlock | .closeUnlock => some (.ret 0 [])
  | .readUnlock res got _ => some (.ret res got)
  | .writeUnlock res => some (.ret res [])
  | .readWait dim value .unlock => some (.readWait dim value .cond)
  | .writeWait buf .unlock => some (.writeWait buf .cond)
  | _ => none

def doneEvents {ι : Type} (t : ι) : Pc → List (Event ι)
  | .readUnlock res _ taken => [.readDone t res taken]
  | .writeUnlock res => [.writeDone t res]
  | _ => []

theorem kmalloc_length (dim : Nat) (mem : Bytes) : (kmallocBytes dim mem).length = dim := by
  simp [kmallocBytes]

theorem kt_stat_work_spec (ds next : Ds) (kbuf : Kb) (env : Env) (done : ktStatWork ds kbuf env = some next) :
    next.dsKbDim = wrap (ds.dsKbDim + 1) ∧ next.dsKbMax = ds.dsKbMax ∧ next.dsKbSum = wrap (ds.dsKbSum + kbuf.count) := by
  obtain ⟨dim, limit, sum⟩ := ds_populate_keeps ds kbuf env.block
  simp only [ktStatWork, ds_populate_len, Option.bind_eq_bind, Option.pure_def] at done
  split at done
  · cases done
    simp [dsAddKbValue, dim, limit, sum]
  · split at done
    · simp at done
    · simp only [Option.bind_eq_some_iff] at done
      obtain ⟨_, _, _, _, rfl⟩ := done
      simp [dsAddKbValue, dsResetStat, dim, limit, sum]

theorem kt_realloc_work_resets (ds next : Ds) (done : ktReallocWork ds = some next) : next.dsKbDim = 0 ∧ next.dsKbSum = 0 := by
  simp only [ktReallocWork, Option.bind_eq_bind, Option.pure_def, Option.bind_eq_some_iff] at done
  obtain ⟨_, _, _, _, done⟩ := done
  split at done
  · obtain ⟨_, _, done⟩ := Option.bind_eq_some_iff.mp done
    cases done
    exact ⟨rfl, rfl⟩
  · cases done
    exact ⟨rfl, rfl⟩

section Moves

variable {ι : Type} [DecidableEq ι]

def Dev.waitArg (s : Dev ι) : WaitQueue → Int
  | .waitR => 0
  | .waitW => s.devStat.dsKbMax

def Dev.blockedAt (s : Dev ι) : WaitQueue → Int → Bool
  | .waitR, _ => kbIsempty s.kbFifo
  | .waitW, max => kbIsfull s.kbFifo max

def Dev.blocked (s : Dev ι) (queue : WaitQueue) : Bool := s.blockedAt queue (s.waitArg queue)

omit [DecidableEq ι] in
theorem blocked_readers (s : Dev ι) : s.blocked .waitR = kbIsempty s.kbFifo := rfl

omit [DecidableEq ι] in
theorem blocked_writers (s : Dev ι) : s.blocked .waitW = kbIsfull s.kbFifo s.devStat.dsKbMax := rfl

omit [DecidableEq ι] in
theorem blocked_writers_iff (s : Dev ι) : s.blocked .waitW = true ↔ s.devStat.dsKbMax ≤ s.kbFifo.count :=
  kb_isfull_iff _ _

-- The statements that change nothing but the task that runs them, each with
-- the test it made. Those of the wait loop come first.
inductive LocalMove (s : Dev ι) (env : Env) (task : Task) : Task → Prop where
  | pass {queue : WaitQueue} (point : task.pc.waiting = some (queue, .test)) (room : s.blocked queue = false) :
      LocalMove s env task { task with pc := task.pc.passed }
  | block {queue : WaitQueue} (point : task.pc.waiting = some (queue, .test)) (shut : s.blocked queue = true) :
      LocalMove s env task { task with pc := task.pc.moved .unlock }
  | load {queue : WaitQueue} (point : task.pc.waiting = some (queue, .cond)) :
      LocalMove s env task { task with pc := task.pc.moved (.condCall (s.waitArg queue)) }
  | enter {queue : WaitQueue} {max : Int} (point : task.pc.waiting = some (queue, .condCall max))
      (shut : s.blockedAt queue max = true) : LocalMove s env task { task with pc := task.pc.moved .prepare }
  | skip {queue : WaitQueue} {max : Int} (point : task.pc.waiting = some (queue, .condCall max))
      (room : s.blockedAt queue max = false) : LocalMove s env task { task with pc := task.pc.moved .relock }
  | prepare {queue : WaitQueue} (point : task.pc.waiting = some (queue, .prepare)) :
      LocalMove s env task { task with pc := task.pc.moved .recheck, state := .interruptible, queue := some queue }
  | reload {queue : WaitQueue} (point : task.pc.waiting = some (queue, .recheck)) :
      LocalMove s env task { task with pc := task.pc.moved (.recheckCall (s.waitArg queue)) }
  | commit {queue : WaitQueue} {max : Int} (point : task.pc.waiting = some (queue, .recheckCall max))
      (shut : s.blockedAt queue max = true) : LocalMove s env task { task with pc := task.pc.moved .pending }
  | satisfied {queue : WaitQueue} {max : Int} (point : task.pc.waiting = some (queue, .recheckCall max))
      (room : s.blockedAt queue max = false) : LocalMove s env task { task with pc := task.pc.moved .finish }
  | interrupted {queue : WaitQueue} (point : task.pc.waiting = some (queue, .pending)) (signalled : task.signal = true) :
      LocalMove s env task { task with pc := task.pc.moved .finish }
  | sleep {queue : WaitQueue} (point : task.pc.waiting = some (queue, .pending)) (quiet : task.signal = false) :
      LocalMove s env task { task with pc := task.pc.moved .sched }
  | resume {queue : WaitQueue} (point : task.pc.waiting = some (queue, .sched)) (awake : task.state = .running) :
      LocalMove s env task { task with pc := task.pc.moved .prepare }
  | finish {queue : WaitQueue} (point : task.pc.waiting = some (queue, .finish)) :
      LocalMove s env task { task with pc := task.pc.moved .relock, state := .running, queue := none }
  | readAlloc {dim : Nat} (point : task.pc = .readAlloc dim) (success : env.ok = true) :
      LocalMove s env task { task with pc := .readWait dim (kmallocBytes dim env.mem) .test }
  | readNoMemory {dim : Nat} (point : task.pc = .readAlloc dim) (failure : env.ok = false) :
      LocalMove s env task { task with pc := .readUnlock 1 [] none }
  | readNothing {dim : Nat} {value : Bytes} (point : task.pc = .readPop dim value) (missing : kbPop s.kbFifo = none) :
      LocalMove s env task { task with pc := .readUnlock 1 [] none }
  | readCopied {dim : Nat} {value taken : Bytes} (point : task.pc = .readCopy dim value taken) (success : env.ok = true) :
      LocalMove s env task { task with pc := .readWake (value.take dim) taken }
  | readFault {dim : Nat} {value taken : Bytes} (point : task.pc = .readCopy dim value taken) (failure : env.ok = false) :
      LocalMove s env task { task with pc := .readUnlock (-eFault) [] (some taken) }
  | writeAlloc {buf : Bytes} (point : task.pc = .writeAlloc buf) (success : env.ok = true) :
      LocalMove s env task { task with pc := .writeWait buf .test }
  | writeNoMemory {buf : Bytes} (point : task.pc = .writeAlloc buf) (failure : env.ok = false) :
      LocalMove s env task { task with pc := .writeUnlock 1 }
  | writeCopied {buf : Bytes} (point : task.pc = .writeCopy buf) (success : env.ok = true) :
      LocalMove s env task { task with pc := .writePush buf }
  | writeFault {buf : Bytes} (point : task.pc = .writeCopy buf) (failure : env.ok = false) :
      LocalMove s env task { task with pc := .writeUnlock (-eFault) }
  | writeOops {value : Bytes} (point : task.pc = .writePush value) (failure : env.ok = false) :
      LocalMove s env task { task with pc := .oops }

inductive ClientMove (s : Dev ι) (t : ι) (env : Env) : Dev ι → List (Event ι) → Prop where
  | local {task : Task} (move : LocalMove s env (s.tasks t) task) : ClientMove s t env (s.put t task) []
  | acquire {pc : Pc} (free : s.devMutex = none) (entered : (s.tasks t).pc.locked = some pc) :
      ClientMove s t env ((s.setMutex (some (.client t))).goto t pc) []
  | release {pc : Pc} (left : (s.tasks t).pc.unlocked = some pc) :
      ClientMove s t env ((s.setMutex none).goto t pc) (doneEvents t (s.tasks t).pc)
  | opened (point : (s.tasks t).pc = .openRun) : ClientMove s t env ((myOpen s).goto t .openUnlock) []
  | closed (point : (s.tasks t).pc = .closeRun) : ClientMove s t env ((myClose s).goto t .closeUnlock) []
  | popped {dim : Nat} {value node : Bytes} {rest : Kb} (point : (s.tasks t).pc = .readPop dim value)
      (found : kbPop s.kbFifo = some (node, rest)) :
      ClientMove s t env ({ s with kbFifo := rest }.goto t (.readCopy dim (strcpy value (node ++ [0])) node)) [.popped t node]
  | pushed {value : Bytes} (point : (s.tasks t).pc = .writePush value) (success : env.ok = true) :
      ClientMove s t env ({ s with kbFifo := kbPush (value ++ env.mem) s.kbFifo }.goto t (.writeWake 0))
        [.pushed t (cstr (value ++ env.mem))]
  | wakeWriters {got taken : Bytes} (point : (s.tasks t).pc = .readWake got taken) :
      ClientMove s t env ((s.wakeUpInterruptible .waitW).goto t (.readUnlock 0 got (some taken))) []
  | wakeReaders {res : Int} (point : (s.tasks t).pc = .writeWake res) :
      ClientMove s t env ((s.wakeUpInterruptible .waitR).goto t (.writeUnlock res)) []

theorem mutex_lock_acquires (s next : Dev ι) (t : ι) (env : Env) (pc : Pc) (entered : (s.tasks t).pc.locked = some pc)
    (stepped : mutexLock s t pc = some next) : ClientMove s t env next [] := by
  unfold mutexLock at stepped
  split at stepped
  · rename_i free
    cases stepped
    exact .acquire (by simpa using free) entered
  · cases stepped

theorem mutex_unlock_releases (s : Dev ι) (t : ι) (env : Env) (pc next : Pc) (point : (s.tasks t).pc = pc)
    (left : pc.unlocked = some next) : ClientMove s t env ((s.setMutex none).goto t next) (doneEvents t pc) := by
  subst point
  exact .release left

theorem wait_loop_moves (s next : Dev ι) (t : ι) (env : Env) (queue : WaitQueue) (point : WaitPc) (stay : WaitPc → Pc)
    (inside : (s.tasks t).pc.waiting = some (queue, point)) (stays : stay = (s.tasks t).pc.moved)
    (locks : point = .relock → (s.tasks t).pc.locked = some (stay .test))
    (unlocks : point = .unlock → (s.tasks t).pc.unlocked = some (stay .cond) ∧ doneEvents t (s.tasks t).pc = [])
    (stepped : waitLoop s t queue (s.waitArg queue) (s.blockedAt queue) stay (s.tasks t).pc.passed point = some next) :
    ClientMove s t env next [] := by
  subst stays
  cases point with
  | test =>
      cases stepped
      cases shut : s.blockedAt queue (s.waitArg queue) with
      | false => exact .local (.pass inside shut)
      | true => exact .local (.block inside shut)
  | unlock =>
      cases stepped
      obtain ⟨left, silent⟩ := unlocks rfl
      simpa only [silent] using ClientMove.release left
  | cond =>
      cases stepped
      exact .local (.load inside)
  | condCall max =>
      cases stepped
      cases shut : s.blockedAt queue max with
      | false => exact .local (.skip inside shut)
      | true => exact .local (.enter inside shut)
  | prepare =>
      cases stepped
      exact .local (.prepare inside)
  | recheck =>
      cases stepped
      exact .local (.reload inside)
  | recheckCall max =>
      cases stepped
      cases shut : s.blockedAt queue max with
      | false => exact .local (.satisfied inside shut)
      | true => exact .local (.commit inside shut)
  | pending =>
      by_cases signalled : (s.tasks t).signal = true
      · rw [waitLoop, if_pos signalled] at stepped
        cases stepped
        exact .local (.interrupted inside signalled)
      · rw [waitLoop, if_neg signalled] at stepped
        cases stepped
        exact .local (.sleep inside (by simpa using signalled))
  | sched =>
      by_cases awake : (s.tasks t).state = .running
      · rw [waitLoop, if_pos awake] at stepped
        cases stepped
        exact .local (.resume inside awake)
      · rw [waitLoop, if_neg awake] at stepped
        cases stepped
  | finish =>
      cases stepped
      exact .local (.finish inside)
  | relock =>
      exact mutex_lock_acquires s next t env _ (locks rfl) stepped

-- Every step of the model is one of the moves above. Later proofs go through
-- the moves and never unfold the step functions.
theorem client_step_moves (s next : Dev ι) (t : ι) (env : Env) (out : List (Event ι))
    (stepped : clientStep s t env = some (next, out)) : ClientMove s t env next out := by
  unfold clientStep at stepped
  cases point : (s.tasks t).pc with
  | user | ret | oops => simp [point] at stepped
  | openLock | closeLock | readLock | writeLock =>
      simp only [point, Option.map_eq_some_iff, Prod.mk.injEq] at stepped
      obtain ⟨_, acquired, rfl, rfl⟩ := stepped
      exact mutex_lock_acquires s _ t env _ (by rw [point]; rfl) acquired
  | openUnlock | closeUnlock | readUnlock | writeUnlock =>
      simp only [point, Option.some.injEq, Prod.mk.injEq] at stepped
      obtain ⟨rfl, rfl⟩ := stepped
      exact mutex_unlock_releases s t env _ _ point rfl
  | openRun =>
      simp only [point, Option.some.injEq, Prod.mk.injEq] at stepped
      obtain ⟨rfl, rfl⟩ := stepped
      exact .opened point
  | closeRun =>
      simp only [point, Option.some.injEq, Prod.mk.injEq] at stepped
      obtain ⟨rfl, rfl⟩ := stepped
      exact .closed point
  | readWait dim value loop =>
      simp only [point, Option.map_eq_some_iff, Prod.mk.injEq] at stepped
      obtain ⟨_, waited, rfl, rfl⟩ := stepped
      have inside : (s.tasks t).pc.waiting = some (.waitR, loop) := by rw [point]; rfl
      refine wait_loop_moves s _ t env .waitR loop (.readWait dim value) inside (by rw [point]; rfl) ?_ ?_ (by rw [point]; exact waited)
      · rintro rfl; rw [point]; rfl
      · rintro rfl; rw [point]; exact ⟨rfl, rfl⟩
  | writeWait buf loop =>
      simp only [point, Option.map_eq_some_iff, Prod.mk.injEq] at stepped
      obtain ⟨_, waited, rfl, rfl⟩ := stepped
      have inside : (s.tasks t).pc.waiting = some (.waitW, loop) := by rw [point]; rfl
      refine wait_loop_moves s _ t env .waitW loop (.writeWait buf) inside (by rw [point]; rfl) ?_ ?_ (by rw [point]; exact waited)
      · rintro rfl; rw [point]; rfl
      · rintro rfl; rw [point]; exact ⟨rfl, rfl⟩
  | readAlloc =>
      simp only [point] at stepped
      split at stepped
      · rename_i success
        cases stepped
        exact .local (.readAlloc point success)
      · rename_i failed
        cases stepped
        exact .local (.readNoMemory point (by simpa using failed))
  | readPop =>
      simp only [point] at stepped
      split at stepped
      · rename_i missing
        cases stepped
        exact .local (.readNothing point missing)
      · rename_i found
        cases stepped
        exact .popped point found
  | readCopy =>
      simp only [point] at stepped
      split at stepped
      · rename_i success
        cases stepped
        exact .local (.readCopied point success)
      · rename_i failed
        cases stepped
        exact .local (.readFault point (by simpa using failed))
  | readWake =>
      simp only [point, Option.some.injEq, Prod.mk.injEq] at stepped
      obtain ⟨rfl, rfl⟩ := stepped
      exact .wakeWriters point
  | writeAlloc =>
      simp only [point] at stepped
      split at stepped
      · rename_i success
        cases stepped
        exact .local (.writeAlloc point success)
      · rename_i failed
        cases stepped
        exact .local (.writeNoMemory point (by simpa using failed))
  | writeCopy =>
      simp only [point] at stepped
      split at stepped
      · rename_i success
        cases stepped
        exact .local (.writeCopied point success)
      · rename_i failed
        cases stepped
        exact .local (.writeFault point (by simpa using failed))
  | writePush =>
      simp only [point] at stepped
      split at stepped
      · rename_i success
        cases stepped
        exact .pushed point success
      · rename_i failed
        cases stepped
        exact .local (.writeOops point (by simpa using failed))
  | writeWake =>
      simp only [point, Option.some.injEq, Prod.mk.injEq] at stepped
      obtain ⟨rfl, rfl⟩ := stepped
      exact .wakeReaders point

inductive KtMove (s : Dev ι) : Kt → Dev ι → List (Event ι) → Prop where
  | proceed {k : Kt} (point : (s.kts k).pc = .check) :
      KtMove s k (s.gotoKt k (if (s.kts k).stop then .exited else .lock)) []
  | acquire {k : Kt} (point : (s.kts k).pc = .lock) (free : s.devMutex = none) :
      KtMove s k ((s.setMutex (some (.kt k))).gotoKt k .setState) []
  | setState {k : Kt} (point : (s.kts k).pc = .setState) :
      KtMove s k (s.putKt k { s.kts k with pc := .test, state := .interruptible }) []
  | test {k : Kt} (point : (s.kts k).pc = .test) :
      KtMove s k (s.gotoKt k (if s.devRun ≠ 0 then .work else .unlock false)) []
  | sampled {ds : Ds} {env : Env} (point : (s.kts .ktStat).pc = .work)
      (done : ktStatWork s.devStat s.kbFifo env = some ds) :
      KtMove s .ktStat ({ s with devStat := ds }.gotoKt .ktStat (.unlock true)) [.sampled s.kbFifo.count]
  | statOops (point : (s.kts .ktStat).pc = .work) : KtMove s .ktStat (s.gotoKt .ktStat .oops) []
  | resized {ds : Ds} (point : (s.kts .ktRealloc).pc = .work) (done : ktReallocWork s.devStat = some ds) :
      KtMove s .ktRealloc ({ s with devStat := ds }.gotoKt .ktRealloc (.unlock true))
        [.realloc s.devStat.dsKbDim s.devStat.dsKbMax, .limit ds.dsKbMax]
  | reallocOops (point : (s.kts .ktRealloc).pc = .work) (trapped : ktReallocWork s.devStat = none) :
      KtMove s .ktRealloc (s.gotoKt .ktRealloc .oops) [.realloc s.devStat.dsKbDim s.devStat.dsKbMax]
  | release {k : Kt} {timed : Bool} (point : (s.kts k).pc = .unlock timed) :
      KtMove s k ((s.setMutex none).gotoKt k (.sched timed)) []
  | wake {k : Kt} {timed : Bool} (point : (s.kts k).pc = .sched timed) (awake : (s.kts k).state = .running) :
      KtMove s k (s.gotoKt k .check) []

omit [DecidableEq ι] in
theorem kt_step_moves (s next : Dev ι) (k : Kt) (env : Env) (out : List (Event ι))
    (stepped : ktStep s k env = some (next, out)) : KtMove s k next out := by
  unfold ktStep at stepped
  cases point : (s.kts k).pc with
  | exited | oops => simp [point] at stepped
  | check =>
      simp only [point, Option.some.injEq, Prod.mk.injEq] at stepped
      obtain ⟨rfl, rfl⟩ := stepped
      exact .proceed point
  | lock =>
      simp only [point] at stepped
      split at stepped
      · rename_i free
        cases stepped
        exact .acquire point (by simpa using free)
      · cases stepped
  | setState =>
      simp only [point, Option.some.injEq, Prod.mk.injEq] at stepped
      obtain ⟨rfl, rfl⟩ := stepped
      exact .setState point
  | test =>
      simp only [point, Option.some.injEq, Prod.mk.injEq] at stepped
      obtain ⟨rfl, rfl⟩ := stepped
      exact .test point
  | unlock =>
      simp only [point, Option.some.injEq, Prod.mk.injEq] at stepped
      obtain ⟨rfl, rfl⟩ := stepped
      exact .release point
  | sched =>
      simp only [point] at stepped
      split at stepped
      · rename_i awake
        cases stepped
        exact .wake point awake
      · cases stepped
  | work =>
      simp only [point] at stepped
      cases k with
      | ktStat =>
          simp only at stepped
          split at stepped
          · cases stepped
            exact .statOops point
          · rename_i done
            cases stepped
            exact .sampled point done
      | ktRealloc =>
          simp only at stepped
          split at stepped
          · rename_i trapped
            cases stepped
            exact .reallocOops point trapped
          · rename_i done
            cases stepped
            exact .resized point done

inductive DevMove (s : Dev ι) : Action ι → Dev ι → List (Event ι) → Prop where
  | call {t : ι} {op : Op} (idle : (s.tasks t).pc = .user) : DevMove s (.call t op) (s.goto t op.entry) []
  | client {t : ι} {env : Env} {next : Dev ι} {out : List (Event ι)} (move : ClientMove s t env next out) :
      DevMove s (.go t env) next out
  | ret {t : ι} {res : Int} {got : Bytes} (point : (s.tasks t).pc = .ret res got) :
      DevMove s (.ret t) (s.put t { s.tasks t with pc := .user, signal := false }) []
  | signal {t : ι} : DevMove s (.signal t) (signalStep s t) []
  | kt {k : Kt} {env : Env} {next : Dev ι} {out : List (Event ι)} (move : KtMove s k next out) :
      DevMove s (.kt k env) next out
  | timer {k : Kt} (point : (s.kts k).pc = .sched true) :
      DevMove s (.timer k) (s.putKt k { s.kts k with state := .running }) []

theorem device_moves (s next : Dev ι) (action : Action ι) (out : List (Event ι))
    (stepped : (device ι).step s action = some (next, out)) : DevMove s action next out := by
  cases action with
  | call t op =>
      simp only [device, callStep] at stepped
      split at stepped
      · rename_i idle
        cases stepped
        exact .call idle
      · cases stepped
  | go t env => exact .client (client_step_moves s next t env out stepped)
  | ret t =>
      simp only [device, retStep] at stepped
      split at stepped
      · rename_i point
        cases stepped
        exact .ret point
      · cases stepped
  | signal t =>
      cases stepped
      exact .signal
  | kt k env => exact .kt (kt_step_moves s next k env out stepped)
  | timer k =>
      simp only [device, timerStep] at stepped
      split at stepped
      · rename_i point
        cases stepped
        exact .timer point
      · cases stepped

end Moves

end MyDev
