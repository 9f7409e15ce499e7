import Mathlib.Tactic.Common
import MyDev.DeviceStep

set_option autoImplicit false

namespace MyDev

open Library

section Updates

variable {ι : Type} [DecidableEq ι] (s : Dev ι) (t u : ι) (task : Task) (pc : Pc) (k j : Kt) (ktTask : KtTask)
  (ktPc : KtPc) (holder : Option (Holder ι)) (queue : WaitQueue)

@[simp] theorem put_tasks : (s.put t task).tasks u = if u = t then task else s.tasks u := Function.update_apply ..
@[simp] theorem put_mutex : (s.put t task).devMutex = s.devMutex := rfl
@[simp] theorem put_fifo : (s.put t task).kbFifo = s.kbFifo := rfl
@[simp] theorem put_stat : (s.put t task).devStat = s.devStat := rfl
@[simp] theorem put_kts : (s.put t task).kts = s.kts := rfl
@[simp] theorem goto_tasks : (s.goto t pc).tasks u = if u = t then { s.tasks t with pc := pc } else s.tasks u :=
  Function.update_apply ..
@[simp] theorem goto_mutex : (s.goto t pc).devMutex = s.devMutex := rfl
@[simp] theorem goto_fifo : (s.goto t pc).kbFifo = s.kbFifo := rfl
@[simp] theorem goto_stat : (s.goto t pc).devStat = s.devStat := rfl
@[simp] theorem goto_kts : (s.goto t pc).kts = s.kts := rfl

omit [DecidableEq ι]
@[simp] theorem put_kt_kts : (s.putKt k ktTask).kts j = if j = k then ktTask else s.kts j := Function.update_apply ..
@[simp] theorem put_kt_mutex : (s.putKt k ktTask).devMutex = s.devMutex := rfl
@[simp] theorem put_kt_fifo : (s.putKt k ktTask).kbFifo = s.kbFifo := rfl
@[simp] theorem put_kt_stat : (s.putKt k ktTask).devStat = s.devStat := rfl
@[simp] theorem put_kt_tasks : (s.putKt k ktTask).tasks = s.tasks := rfl
@[simp] theorem goto_kt_kts : (s.gotoKt k ktPc).kts j = if j = k then { s.kts k with pc := ktPc } else s.kts j :=
  Function.update_apply ..
@[simp] theorem goto_kt_mutex : (s.gotoKt k ktPc).devMutex = s.devMutex := rfl
@[simp] theorem goto_kt_fifo : (s.gotoKt k ktPc).kbFifo = s.kbFifo := rfl
@[simp] theorem goto_kt_stat : (s.gotoKt k ktPc).devStat = s.devStat := rfl
@[simp] theorem goto_kt_tasks : (s.gotoKt k ktPc).tasks = s.tasks := rfl
@[simp] theorem set_mutex_mutex : (s.setMutex holder).devMutex = holder := rfl
@[simp] theorem set_mutex_fifo : (s.setMutex holder).kbFifo = s.kbFifo := rfl
@[simp] theorem set_mutex_stat : (s.setMutex holder).devStat = s.devStat := rfl
@[simp] theorem set_mutex_tasks : (s.setMutex holder).tasks = s.tasks := rfl
@[simp] theorem set_mutex_kts : (s.setMutex holder).kts = s.kts := rfl
@[simp] theorem wake_up_tasks : (s.wakeUpInterruptible queue).tasks t = wakeTask queue (s.tasks t) := rfl
@[simp] theorem wake_up_mutex : (s.wakeUpInterruptible queue).devMutex = s.devMutex := rfl
@[simp] theorem wake_up_fifo : (s.wakeUpInterruptible queue).kbFifo = s.kbFifo := rfl
@[simp] theorem wake_up_stat : (s.wakeUpInterruptible queue).devStat = s.devStat := rfl
@[simp] theorem wake_up_kts : (s.wakeUpInterruptible queue).kts = s.kts := rfl

@[simp] theorem wake_task_pc : (wakeTask queue task).pc = task.pc := by
  unfold wakeTask
  split <;> rfl

@[simp] theorem my_open_mutex : (myOpen s).devMutex = s.devMutex := by
  simp only [myOpen]
  split <;> rfl

@[simp] theorem my_open_fifo : (myOpen s).kbFifo = s.kbFifo := by
  simp only [myOpen]
  split <;> rfl

@[simp] theorem my_open_stat : (myOpen s).devStat = s.devStat := by
  simp only [myOpen]
  split <;> rfl

@[simp] theorem my_open_tasks : (myOpen s).tasks = s.tasks := by
  simp only [myOpen]
  split <;> rfl

@[simp] theorem my_open_kts_pc : ((myOpen s).kts k).pc = (s.kts k).pc := by
  simp only [myOpen]
  split
  · cases k <;> simp [Dev.wakeUpProcess]
  · rfl

end Updates

theorem waiting_cases (pc : Pc) (queue : WaitQueue) (point : WaitPc) (inside : pc.waiting = some (queue, point)) :
    (∃ dim value, pc = .readWait dim value point ∧ queue = .waitR) ∨ (∃ buf, pc = .writeWait buf point ∧ queue = .waitW) := by
  cases pc with
  | readWait dim value loop =>
      simp only [Pc.waiting, Option.some.injEq, Prod.mk.injEq] at inside
      exact .inl ⟨dim, value, by rw [inside.2], inside.1.symm⟩
  | writeWait buf loop =>
      simp only [Pc.waiting, Option.some.injEq, Prod.mk.injEq] at inside
      exact .inr ⟨buf, by rw [inside.2], inside.1.symm⟩
  | _ => simp [Pc.waiting] at inside

theorem waiting_moved (pc : Pc) (queue : WaitQueue) (point next : WaitPc) (inside : pc.waiting = some (queue, point)) :
    (pc.moved next).waiting = some (queue, next) := by
  rcases waiting_cases pc queue point inside with ⟨_, _, rfl, rfl⟩ | ⟨_, rfl, rfl⟩ <;> rfl

theorem waiting_passed (pc : Pc) (queue : WaitQueue) (point : WaitPc) (inside : pc.waiting = some (queue, point)) :
    pc.passed.waiting = none := by
  rcases waiting_cases pc queue point inside with ⟨_, _, rfl, _⟩ | ⟨_, rfl, _⟩ <;> rfl

theorem waiting_holds (pc : Pc) (queue : WaitQueue) (point : WaitPc) (inside : pc.waiting = some (queue, point)) :
    pc.holds = point.holds := by
  rcases waiting_cases pc queue point inside with ⟨_, _, rfl, _⟩ | ⟨_, rfl, _⟩ <;> rfl

-- A local statement seen from its program points alone: the statements of
-- the wait loop are one step inside the loop of my_read or of my_write.
inductive LocalPc {ι : Type} (s : Dev ι) (env : Env) : Pc → Pc → Prop where
  | readLoop {dim : Nat} {value : Bytes} {point later : WaitPc} (kept : later.holds = point.holds) :
      LocalPc s env (.readWait dim value point) (.readWait dim value later)
  | writeLoop {buf : Bytes} {point later : WaitPc} (kept : later.holds = point.holds) :
      LocalPc s env (.writeWait buf point) (.writeWait buf later)
  | readPass {dim : Nat} {value : Bytes} (room : s.blocked .waitR = false) :
      LocalPc s env (.readWait dim value .test) (.readPop dim value)
  | writePass {buf : Bytes} (room : s.blocked .waitW = false) : LocalPc s env (.writeWait buf .test) (.writeCopy buf)
  | readAlloc {dim : Nat} (success : env.ok = true) :
      LocalPc s env (.readAlloc dim) (.readWait dim (kmallocBytes dim env.mem) .test)
  | readNoMemory {dim : Nat} (failure : env.ok = false) : LocalPc s env (.readAlloc dim) (.readUnlock 1 [] none)
  | readNothing {dim : Nat} {value : Bytes} (missing : kbPop s.kbFifo = none) :
      LocalPc s env (.readPop dim value) (.readUnlock 1 [] none)
  | readCopied {dim : Nat} {value taken : Bytes} (success : env.ok = true) :
      LocalPc s env (.readCopy dim value taken) (.readWake (value.take dim) taken)
  | readFault {dim : Nat} {value taken : Bytes} (failure : env.ok = false) :
      LocalPc s env (.readCopy dim value taken) (.readUnlock (-eFault) [] (some taken))
  | writeAlloc {buf : Bytes} (success : env.ok = true) : LocalPc s env (.writeAlloc buf) (.writeWait buf .test)
  | writeNoMemory {buf : Bytes} (failure : env.ok = false) : LocalPc s env (.writeAlloc buf) (.writeUnlock 1)
  | writeCopied {buf : Bytes} (success : env.ok = true) : LocalPc s env (.writeCopy buf) (.writePush buf)
  | writeFault {buf : Bytes} (failure : env.ok = false) : LocalPc s env (.writeCopy buf) (.writeUnlock (-eFault))
  | writeOops {buf : Bytes} (failure : env.ok = false) : LocalPc s env (.writePush buf) .oops

theorem waiting_loop {ι : Type} (s : Dev ι) (env : Env) (pc : Pc) (queue : WaitQueue) (point later : WaitPc)
    (inside : pc.waiting = some (queue, point)) (kept : later.holds = point.holds) : LocalPc s env pc (pc.moved later) := by
  rcases waiting_cases pc queue point inside with ⟨_, _, rfl, _⟩ | ⟨_, rfl, _⟩
  · exact .readLoop kept
  · exact .writeLoop kept

theorem local_move_pc {ι : Type} (s : Dev ι) (env : Env) (task next : Task) (move : LocalMove s env task next) :
    LocalPc s env task.pc next.pc := by
  cases move with
  | pass point room =>
      rcases waiting_cases _ _ _ point with ⟨_, _, pcEq, rfl⟩ | ⟨_, pcEq, rfl⟩ <;> rw [pcEq]
      · exact .readPass room
      · exact .writePass room
  | block point | load point | enter point | skip point | prepare point | reload point | commit point | satisfied point
  | interrupted point | sleep point | resume point | finish point => exact waiting_loop s env _ _ _ _ point rfl
  | readAlloc point success => exact point ▸ .readAlloc success
  | readNoMemory point failure => exact point ▸ .readNoMemory failure
  | readNothing point missing => exact point ▸ .readNothing missing
  | readCopied point success => exact point ▸ .readCopied success
  | readFault point failure => exact point ▸ .readFault failure
  | writeAlloc point success => exact point ▸ .writeAlloc success
  | writeNoMemory point failure => exact point ▸ .writeNoMemory failure
  | writeCopied point success => exact point ▸ .writeCopied success
  | writeFault point failure => exact point ▸ .writeFault failure
  | writeOops point failure => exact point ▸ .writeOops failure

section Lock

variable {ι : Type} [DecidableEq ι]

-- dev_mutex is held by exactly the tasks whose program point lies inside the
-- critical section, so there is at most one of them.
structure LockInv (s : Dev ι) : Prop where
  clients : ∀ t, (s.tasks t).pc.holds = true ↔ s.devMutex = some (.client t)
  kernel : ∀ k, (s.kts k).pc.holds = true ↔ s.devMutex = some (.kt k)

omit [DecidableEq ι] in
theorem lock_inv_keep (s next : Dev ι) (inv : LockInv s) (mutex : next.devMutex = s.devMutex)
    (clients : ∀ t, (next.tasks t).pc.holds = (s.tasks t).pc.holds)
    (kernel : ∀ k, (next.kts k).pc.holds = (s.kts k).pc.holds) : LockInv next := by
  constructor
  · intro t
    rw [mutex, clients]
    exact inv.clients t
  · intro k
    rw [mutex, kernel]
    exact inv.kernel k

theorem lock_inv_goto (s : Dev ι) (t : ι) (task : Task) (inv : LockInv s)
    (same : task.pc.holds = (s.tasks t).pc.holds) : LockInv (s.put t task) := by
  refine lock_inv_keep s (s.put t task) inv rfl ?_ (fun _ => rfl)
  intro u
  by_cases here : u = t
  · subst here
    simpa using same
  · simp [here]

theorem lock_inv_acquire (s : Dev ι) (t : ι) (pc : Pc) (inv : LockInv s) (free : s.devMutex = none)
    (held : pc.holds = true) : LockInv ((s.setMutex (some (.client t))).goto t pc) := by
  constructor
  · intro u
    by_cases here : u = t
    · subst here
      simp [held]
    · have outside := (inv.clients u).not.mpr (by simp [free])
      simp only [goto_tasks, set_mutex_tasks, if_neg here, outside, goto_mutex, set_mutex_mutex]
      simp [Ne.symm here]
  · intro k
    have outside := (inv.kernel k).not.mpr (by simp [free])
    simpa using outside

theorem lock_inv_release (s : Dev ι) (t : ι) (pc : Pc) (inv : LockInv s) (held : (s.tasks t).pc.holds = true)
    (left : pc.holds = false) : LockInv ((s.setMutex none).goto t pc) := by
  have owner := (inv.clients t).mp held
  constructor
  · intro u
    by_cases here : u = t
    · subst here
      simp [left]
    · have outside := (inv.clients u).not.mpr (by simp [owner, Ne.symm here])
      simpa [here] using outside
  · intro k
    have outside := (inv.kernel k).not.mpr (by simp [owner])
    simpa using outside

omit [DecidableEq ι] in
theorem lock_inv_kt_goto (s : Dev ι) (k : Kt) (task : KtTask) (inv : LockInv s)
    (same : task.pc.holds = (s.kts k).pc.holds) : LockInv (s.putKt k task) := by
  refine lock_inv_keep s (s.putKt k task) inv rfl (fun _ => rfl) ?_
  intro j
  by_cases here : j = k
  · subst here
    simpa using same
  · simp [here]

omit [DecidableEq ι] in
theorem local_holds {s : Dev ι} {env : Env} {pc next : Pc} (step : LocalPc s env pc next) : next.holds = pc.holds := by
  cases step with
  | readLoop kept | writeLoop kept => exact kept
  | _ => rfl

theorem locked_holds (pc next : Pc) (entered : pc.locked = some next) : pc.holds = false ∧ next.holds = true := by
  unfold Pc.locked at entered
  split at entered <;> cases entered <;> exact ⟨rfl, rfl⟩

theorem unlocked_holds (pc next : Pc) (left : pc.unlocked = some next) : pc.holds = true ∧ next.holds = false := by
  unfold Pc.unlocked at left
  split at left <;> cases left <;> exact ⟨rfl, rfl⟩

theorem lock_inv_client (s next : Dev ι) (t : ι) (env : Env) (out : List (Event ι)) (inv : LockInv s)
    (move : ClientMove s t env next out) : LockInv next := by
  cases move with
  | «local» move => exact lock_inv_goto s t _ inv (local_holds (local_move_pc s env _ _ move))
  | acquire free entered => exact lock_inv_acquire s t _ inv free (locked_holds _ _ entered).2
  | release left =>
      obtain ⟨held, given⟩ := unlocked_holds _ _ left
      exact lock_inv_release s t _ inv held given
  | opened point | closed point | popped point | pushed point | wakeWriters point | wakeReaders point =>
      refine lock_inv_keep s _ inv (by simp [myClose]) ?_ (by simp [myClose])
      intro u
      by_cases here : u = t
      · subst here
        simp [point, Pc.holds]
      · simp [here, myClose]

omit [DecidableEq ι] in
theorem lock_inv_kt (s next : Dev ι) (k : Kt) (out : List (Event ι)) (inv : LockInv s) (move : KtMove s k next out) :
    LockInv next := by
  cases move with
  | proceed point =>
      apply lock_inv_kt_goto s k _ inv
      simp only [point]
      split <;> rfl
  | setState point =>
      apply lock_inv_kt_goto s k _ inv
      rw [point]
      rfl
  | test point =>
      apply lock_inv_kt_goto s k _ inv
      simp only [point]
      split <;> rfl
  | statOops point | reallocOops point =>
      apply lock_inv_kt_goto s _ _ inv
      rw [point]
      rfl
  | wake point =>
      apply lock_inv_kt_goto s k _ inv
      rw [point]
      rfl
  | sampled point | resized point =>
      refine lock_inv_keep s _ inv rfl (fun _ => rfl) ?_
      intro j
      cases j <;> simp [point, KtPc.holds]
  | acquire point free =>
      constructor
      · intro t
        have outside := (inv.clients t).not.mpr (by simp [free])
        simpa using outside
      · intro j
        by_cases here : j = k
        · subst here
          simp [KtPc.holds]
        · have outside := (inv.kernel j).not.mpr (by simp [free])
          simp only [goto_kt_kts, set_mutex_kts, if_neg here, outside, goto_kt_mutex, set_mutex_mutex]
          simp [Ne.symm here]
  | release point =>
      have owner := (inv.kernel k).mp (by rw [point]; rfl)
      constructor
      · intro t
        have outside := (inv.clients t).not.mpr (by simp [owner])
        simpa using outside
      · intro j
        by_cases here : j = k
        · subst here
          simp [KtPc.holds]
        · have outside := (inv.kernel j).not.mpr (by simp [owner, Ne.symm here])
          simpa [here] using outside

theorem lock_inv_move (s next : Dev ι) (action : Action ι) (out : List (Event ι)) (inv : LockInv s)
    (move : DevMove s action next out) : LockInv next := by
  cases move with
  | @call t op idle =>
      apply lock_inv_goto s t _ inv
      rw [idle]
      cases op <;> rfl
  | client move => exact lock_inv_client s next _ _ out inv move
  | ret point =>
      apply lock_inv_goto s _ _ inv
      rw [point]
      rfl
  | signal => exact lock_inv_goto s _ _ inv rfl
  | kt move => exact lock_inv_kt s next _ out inv move
  | timer point => exact lock_inv_kt_goto s _ _ inv rfl

omit [DecidableEq ι] in
theorem lock_inv_init : LockInv (myModuleInit ι) := by
  constructor <;> intro <;> simp [myModuleInit, Pc.holds, KtPc.holds]

theorem lock_inv_run {ok : Dev ι → Action ι → Prop} {events : List (Event ι)} {s : Dev ι}
    (run : Run (device ι) ok (myModuleInit ι) events s) : LockInv s := by
  refine Run.invariant (fun _ s => LockInv s) lock_inv_init ?_ run
  intro _ s action next out _ inv _ stepped
  exact lock_inv_move s next action out inv (device_moves s next action out stepped)

def Action.client : Action ι → Option ι
  | .call t _ | .go t _ | .ret t => some t
  | .signal _ | .kt _ _ | .timer _ => none

theorem other_client_pc (s next : Dev ι) (t u : ι) (env : Env) (out : List (Event ι))
    (move : ClientMove s t env next out) (other : u ≠ t) : (next.tasks u).pc = (s.tasks u).pc := by
  cases move <;> simp [other, myClose]

theorem other_pc (s next : Dev ι) (u : ι) (action : Action ι) (out : List (Event ι)) (move : DevMove s action next out)
    (other : action.client ≠ some u) : (next.tasks u).pc = (s.tasks u).pc := by
  cases move with
  | @call t op idle =>
      have different : u ≠ t := fun same => other (by rw [same]; rfl)
      simp [different]
  | @client t env _ _ move =>
      have different : u ≠ t := fun same => other (by rw [same]; rfl)
      exact other_client_pc s next t u env out move different
  | @ret t res got point =>
      have different : u ≠ t := fun same => other (by rw [same]; rfl)
      simp [different]
  | @signal t =>
      by_cases here : u = t
      · subst here
        simp [signalStep]
      · simp [signalStep, here]
  | kt move => cases move <;> rfl
  | timer => rfl

inductive TaskMove (s next : Dev ι) (u : ι) (out : List (Event ι)) : Action ι → Prop where
  | call {op : Op} (idle : (s.tasks u).pc = .user) (entered : (next.tasks u).pc = op.entry) : TaskMove s next u out (.call u op)
  | go {env : Env} (move : ClientMove s u env next out) : TaskMove s next u out (.go u env)
  | ret {res : Int} {got : Bytes} (point : (s.tasks u).pc = .ret res got) (left : (next.tasks u).pc = .user) :
      TaskMove s next u out (.ret u)
  | other {action : Action ι} (other : action.client ≠ some u) (same : (next.tasks u).pc = (s.tasks u).pc) :
      TaskMove s next u out action

theorem task_move (s next : Dev ι) (u : ι) (action : Action ι) (out : List (Event ι)) (move : DevMove s action next out) :
    TaskMove s next u out action := by
  by_cases mine : action.client = some u
  · cases move with
    | call idle =>
        cases mine
        exact .call idle (by simp)
    | client move =>
        cases mine
        exact .go move
    | ret point =>
        cases mine
        exact .ret point (by simp)
    | signal | kt | timer => cases mine
  · exact .other mine (other_pc s next u action out move mine)

theorem holder_alone (s next : Dev ι) (u : ι) (action : Action ι) (out : List (Event ι)) (inv : LockInv s)
    (move : DevMove s action next out) (held : (s.tasks u).pc.holds = true) (other : action.client ≠ some u) :
    next.kbFifo = s.kbFifo ∧ next.devStat = s.devStat := by
  have owner := (inv.clients u).mp held
  cases move with
  | call | ret | signal | timer => exact ⟨rfl, rfl⟩
  | @client t env _ _ move =>
      have different : t ≠ u := fun same => other (by rw [same]; rfl)
      have outside : (s.tasks t).pc.holds ≠ true := fun inside => by
        have second := (inv.clients t).mp inside
        simp only [owner, Option.some.injEq, Holder.client.injEq] at second
        exact different second.symm
      cases move with
      | «local» | acquire | release | closed | wakeWriters | wakeReaders => exact ⟨rfl, rfl⟩
      | opened => exact ⟨by simp, by simp⟩
      | popped point | pushed point =>
          rw [point] at outside
          exact absurd rfl outside
  | @kt k env _ _ move =>
      have outside : (s.kts k).pc.holds ≠ true := fun inside => by
        have second := (inv.kernel k).mp inside
        simp [owner] at second
      cases move with
      | proceed | acquire | setState | test | statOops | reallocOops | release | wake => exact ⟨rfl, rfl⟩
      | sampled point | resized point =>
          rw [point] at outside
          exact absurd rfl outside

end Lock

end MyDev
