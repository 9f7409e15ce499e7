import MyDev.DeviceFifo

set_option autoImplicit false

namespace MyDev

open Library

-- The points of wait_event_interruptible between prepare_to_wait and the
-- moment the task runs on.
def WaitPc.queued : WaitPc → Bool
  | .recheck | .recheckCall _ | .pending | .sched => true
  | _ => false

def Task.Queued (task : Task) : Prop :=
  ∀ queue point, task.pc.waiting = some (queue, point) → point.queued = true → task.state = .interruptible →
    task.queue = some queue

-- The points from which a task that nobody wakes may go to sleep although its
-- condition holds under the limit: it found the condition false before, or will
-- look with a smaller limit it has loaded already.
def WaitPc.commits (limit : Int) : WaitPc → Bool
  | .pending | .sched => true
  | .recheckCall max => max < limit
  | _ => false

def Task.Committed (queue : WaitQueue) (limit : Int) (task : Task) : Prop :=
  ∃ point : WaitPc, task.pc.waiting = some (queue, point) ∧ point.commits limit = true ∧ task.state = .interruptible

def Task.Asleep (queue : WaitQueue) (task : Task) : Prop :=
  task.pc.waiting = some (queue, .sched) ∧ task.state = .interruptible

instance (queue : WaitQueue) (task : Task) : Decidable (task.Asleep queue) :=
  inferInstanceAs (Decidable (_ ∧ _))

def Pc.waking : Pc → Option WaitQueue
  | .readCopy _ _ _ | .readWake _ _ => some .waitW
  | .writeWake _ => some .waitR
  | _ => none

theorem waking_holds (pc : Pc) (queue : WaitQueue) (waking : pc.waking = some queue) : pc.holds = true := by
  cases pc with
  | readCopy | readWake | writeWake => rfl
  | _ => cases waking

theorem commits_queued (point : WaitPc) (limit : Int) (commits : point.commits limit = true) : point.queued = true := by
  cases point with
  | recheckCall | pending | sched => rfl
  | _ => cases commits

theorem asleep_committed (queue : WaitQueue) (limit : Int) (task : Task) (asleep : task.Asleep queue) :
    task.Committed queue limit :=
  ⟨.sched, asleep.1, rfl, asleep.2⟩

theorem queued_of_outside (task : Task) (outside : task.pc.waiting = none) : task.Queued := by
  intro queue point inside
  rw [outside] at inside
  cases inside

theorem queued_at (task : Task) (queue : WaitQueue) (point : WaitPc) (inside : task.pc.waiting = some (queue, point))
    (queued : point.queued = true → task.state = .interruptible → task.queue = some queue) : task.Queued := by
  intro other there same sleeping interruptible
  rw [inside] at same
  cases same
  exact queued sleeping interruptible

theorem queued_running (task : Task) (running : task.state = .running) : task.Queued := by
  intro _ _ _ _ interruptible
  rw [running] at interruptible
  cases interruptible

theorem queued_wake (queue : WaitQueue) (task : Task) (queued : task.Queued) : (wakeTask queue task).Queued := by
  unfold wakeTask
  split
  · exact queued_running _ rfl
  · exact queued

theorem committed_wake (queue other : WaitQueue) (limit : Int) (task : Task)
    (committed : (wakeTask other task).Committed queue limit) : task.Committed queue limit := by
  unfold wakeTask at committed
  split at committed
  · obtain ⟨_, _, _, interruptible⟩ := committed
    cases interruptible
  · exact committed

theorem wake_leaves_none (queue : WaitQueue) (limit : Int) (task : Task) (queued : task.Queued) :
    ¬ (wakeTask queue task).Committed queue limit := by
  intro committed
  obtain ⟨point, inside, commits, interruptible⟩ := committed_wake queue queue limit task committed
  have listed := queued queue point inside (commits_queued point limit commits) interruptible
  unfold wakeTask at committed
  rw [if_pos ⟨listed, interruptible⟩] at committed
  obtain ⟨_, _, _, asleep⟩ := committed
  cases asleep

theorem not_committed_at (task : Task) (queue other : WaitQueue) (limit : Int) (point : WaitPc)
    (inside : task.pc.waiting = some (other, point)) (wary : point.commits limit = false) : ¬ task.Committed queue limit := by
  rintro ⟨there, same, commits, _⟩
  cases inside.symm.trans same
  cases wary.symm.trans commits

theorem not_committed_outside (task : Task) (queue : WaitQueue) (limit : Int) (outside : task.pc.waiting = none) :
    ¬ task.Committed queue limit := by
  rintro ⟨there, same, _⟩
  cases outside.symm.trans same

theorem locked_waiting (pc next : Pc) (entered : pc.locked = some next) :
    next.waiting = none ∨ ∃ queue, next.waiting = some (queue, .test) := by
  unfold Pc.locked at entered
  split at entered <;> cases entered <;> simp [Pc.waiting]

theorem unlocked_waiting (pc next : Pc) (left : pc.unlocked = some next) :
    next.waiting = none ∨ ∃ queue, next.waiting = some (queue, .cond) := by
  unfold Pc.unlocked at left
  split at left <;> cases left <;> simp [Pc.waiting]

section Wake

variable {ι : Type}

theorem local_move_queued (s : Dev ι) (env : Env) (task next : Task) (move : LocalMove s env task next)
    (queued : task.Queued) : next.Queued := by
  cases move with
  | pass point => exact queued_of_outside _ (waiting_passed _ _ _ point)
  | block point | load point | enter point | skip point | satisfied point | interrupted point | resume point | finish point =>
      exact queued_at _ _ _ (waiting_moved _ _ _ _ point) (fun sleeping => by cases sleeping)
  | prepare point => exact queued_at _ _ _ (waiting_moved _ _ _ _ point) (fun _ _ => rfl)
  | reload point | commit point | sleep point =>
      exact queued_at _ _ _ (waiting_moved _ _ _ _ point) (fun _ interruptible => queued _ _ point rfl interruptible)
  | readAlloc | writeAlloc => exact queued_at _ _ .test rfl (fun sleeping => by cases sleeping)
  | _ => exact queued_of_outside _ rfl

theorem blocked_at_mono (s : Dev ι) (queue : WaitQueue) (limit max : Int) (shut : s.blockedAt queue max = true)
    (less : limit ≤ max) : s.blockedAt queue limit = true := by
  cases queue with
  | waitR => exact shut
  | waitW => exact (kb_isfull_iff _ _).mpr (Int.le_trans less ((kb_isfull_iff _ _).mp shut))

theorem local_move_committed (s : Dev ι) (env : Env) (task next : Task) (queue : WaitQueue) (limit : Int)
    (move : LocalMove s env task next) (current : limit ≤ s.waitArg queue) (committed : next.Committed queue limit) :
    task.Committed queue limit ∨ s.blockedAt queue limit = true := by
  cases move with
  | pass point => exact absurd committed (not_committed_outside _ queue _ (waiting_passed _ _ _ point))
  | block point | load point | enter point | skip point | satisfied point | interrupted point | resume point | finish point
  | prepare point =>
      exact absurd committed (not_committed_at _ queue _ _ _ (waiting_moved _ _ _ _ point) rfl)
  | @reload found point =>
      obtain ⟨there, inside, commits, _⟩ := committed
      cases (waiting_moved _ _ _ _ point).symm.trans inside
      have stale := of_decide_eq_true commits
      omega
  | @commit found max point shut =>
      obtain ⟨there, inside, _, interruptible⟩ := committed
      cases (waiting_moved _ _ _ _ point).symm.trans inside
      by_cases stale : max < limit
      · exact .inl ⟨_, point, decide_eq_true stale, interruptible⟩
      · exact .inr (blocked_at_mono s queue limit max shut (by omega))
  | @sleep found point quiet =>
      obtain ⟨there, inside, _, interruptible⟩ := committed
      cases (waiting_moved _ _ _ _ point).symm.trans inside
      exact .inl ⟨_, point, rfl, interruptible⟩
  | readAlloc | writeAlloc => exact absurd committed (not_committed_at _ queue _ _ .test rfl rfl)
  | _ => exact absurd committed (not_committed_outside _ queue _ rfl)

theorem local_waking {s : Dev ι} {env : Env} {pc next : Pc} {queue : WaitQueue} (step : LocalPc s env pc next)
    (waking : pc.waking = some queue) :
    next.waking = some queue ∨ queue = .waitW ∧ env.ok = false ∧ ∃ dim value taken, pc = .readCopy dim value taken := by
  cases step with
  | readCopied => exact .inl waking
  | readFault failure =>
      cases waking
      exact .inr ⟨rfl, failure, _, _, _, rfl⟩
  | _ => cases waking

variable [DecidableEq ι] {ok : Dev ι → Action ι → Prop} {events : List (Event ι)} {s : Dev ι}

def QueueInv (s : Dev ι) : Prop := ∀ t, (s.tasks t).Queued

theorem queue_inv_client (s next : Dev ι) (t u : ι) (env : Env) (out : List (Event ι)) (inv : QueueInv s)
    (move : ClientMove s t env next out) : (next.tasks u).Queued := by
  by_cases here : u = t
  · subst here
    cases move with
    | «local» move => simpa using local_move_queued s env _ _ move (inv u)
    | @acquire pc free entered =>
        rw [goto_tasks, if_pos rfl]
        rcases locked_waiting _ _ entered with outside | ⟨queue, test⟩
        · exact queued_of_outside _ outside
        · exact queued_at _ queue .test test (fun sleeping => by cases sleeping)
    | @release pc left =>
        rw [goto_tasks, if_pos rfl]
        rcases unlocked_waiting _ _ left with outside | ⟨queue, cond⟩
        · exact queued_of_outside _ outside
        · exact queued_at _ queue .cond cond (fun sleeping => by cases sleeping)
    | _ =>
        rw [goto_tasks, if_pos rfl]
        exact queued_of_outside _ rfl
  · cases move with
    | wakeWriters | wakeReaders =>
        rw [goto_tasks, if_neg here]
        exact queued_wake _ _ (inv u)
    | _ => simpa [here, myClose] using inv u

theorem queue_inv_move (s next : Dev ι) (action : Action ι) (out : List (Event ι)) (inv : QueueInv s)
    (move : DevMove s action next out) : QueueInv next := by
  intro u
  cases move with
  | @call t op idle =>
      by_cases here : u = t
      · rw [goto_tasks, if_pos here]
        refine queued_of_outside _ ?_
        cases op <;> rfl
      · simpa [here] using inv u
  | client move => exact queue_inv_client s next _ u _ out inv move
  | @ret t res got point =>
      by_cases here : u = t
      · rw [put_tasks, if_pos here]
        exact queued_of_outside _ rfl
      · simpa [here] using inv u
  | @signal t =>
      by_cases here : u = t
      · simp only [signalStep, put_tasks, if_pos here]
        exact queued_running _ rfl
      · simpa [signalStep, here] using inv u
  | kt move => cases move <;> exact inv u
  | timer => exact inv u

theorem queue_inv_run (run : Run (device ι) ok (myModuleInit ι) events s) : QueueInv s := by
  refine Run.invariant (fun _ s => QueueInv s) (fun _ => queued_running _ rfl) ?_ run
  intro _ s action next out _ inv _ stepped
  exact queue_inv_move s next action out inv (device_moves s next action out stepped)

-- The condition a queue waits for does not come true behind its back: a task
-- still committed to sleep finds the condition false, or the task in the
-- critical section is going to wake it.
def Guarded (queue : WaitQueue) (s : Dev ι) : Prop :=
  ∀ t, (s.tasks t).Committed queue (s.waitArg queue) → s.blocked queue = true ∨ ∃ u, (s.tasks u).pc.waking = some queue

-- The queue is full, and its strings would fill it under any limit of which
-- the mean of the samples, rounded up by one, is three quarters.
def Dev.StaysFull (s : Dev ι) : Prop :=
  s.devStat.dsKbMax ≤ s.kbFifo.count ∧ 2 ≤ s.kbFifo.count ∧ 1 ≤ s.devStat.dsKbDim ∧
    4 * s.devStat.dsKbSum + 5 * s.devStat.dsKbDim ≤ 3 * s.kbFifo.count * s.devStat.dsKbDim

-- Room that no wake-up follows: the string a faulting copy_to_user has lost,
-- and a raised limit. Neither does harm if no writer on wait_w is committed to
-- sleep, whatever the limit becomes, or the queue stays full all the same.
def RoomAnnounced (s : Dev ι) : Action ι → Prop
  | .go t env => ∀ dim value taken, (s.tasks t).pc = .readCopy dim value taken → env.ok = false →
      (∀ u, ¬ (s.tasks u).Committed .waitW s.devStat.dsKbMax) ∨ kbIsfull s.kbFifo s.devStat.dsKbMax = true
  | .kt .ktRealloc _ => (s.kts .ktRealloc).pc = .work →
      (∀ u limit, ¬ (s.tasks u).Committed .waitW limit) ∨ s.StaysFull
  | _ => True

omit [DecidableEq ι] in
theorem stays_full_resized (s : Dev ι) (ds : Ds) (fits : Fits s.devStat.dsKbSum) (full : s.StaysFull)
    (done : ktReallocWork s.devStat = some ds) : kbIsfull s.kbFifo ds.dsKbMax = true := by
  obtain ⟨limit, two, sampled, low⟩ := full
  obtain ⟨mean, divided, room⟩ := my_div_at_most _ _ _ fits sampled two low
  refine (kb_isfull_iff _ _).mpr ?_
  simp only [ktReallocWork, divided, Option.bind_eq_bind, Option.bind_some, Option.pure_def, Option.bind_eq_some_iff] at done
  obtain ⟨per, _, done⟩ := done
  split at done
  · obtain ⟨resized, set, reset⟩ := Option.bind_eq_some_iff.mp done
    cases reset
    exact ds_set_kb_occupation_at_most s.devStat resized mean _ room two set
  · cases done
    exact limit

theorem sum_fits_run (run : Run (device ι) ok (myModuleInit ι) events s) : Fits s.devStat.dsKbSum := by
  have start : Fits (dsInitAlloc ⟨0, [], 0, 0, 0⟩ startKbDim).dsKbSum := ⟨by decide, by decide⟩
  refine Run.invariant (fun _ s => Fits s.devStat.dsKbSum) start ?_ run
  intro _ s action next out _ fits _ stepped
  cases device_moves s next action out stepped with
  | client move => cases move <;> simpa [myClose] using fits
  | kt move =>
      cases move with
      | sampled point done => exact (kt_stat_work_spec _ _ _ _ done).2.2 ▸ wrap_fits _
      | resized point done => exact (kt_realloc_work_resets _ _ done).2 ▸ ⟨by decide, by decide⟩
      | _ => exact fits
  | _ => exact fits

theorem committed_client (s next : Dev ι) (t u : ι) (env : Env) (out : List (Event ι)) (queue : WaitQueue) (limit : Int)
    (move : ClientMove s t env next out) (current : limit ≤ s.waitArg queue) (committed : (next.tasks u).Committed queue limit) :
    (s.tasks u).Committed queue limit ∨ next.blockedAt queue limit = true := by
  by_cases here : u = t
  · subst here
    cases move with
    | «local» move => exact local_move_committed s env _ _ queue limit move current (by simpa using committed)
    | @acquire pc free entered =>
        rw [goto_tasks, if_pos rfl] at committed
        rcases locked_waiting _ _ entered with outside | ⟨other, test⟩
        · exact absurd committed (not_committed_outside _ queue _ outside)
        · exact absurd committed (not_committed_at _ queue other _ .test test rfl)
    | @release pc left =>
        rw [goto_tasks, if_pos rfl] at committed
        rcases unlocked_waiting _ _ left with outside | ⟨other, cond⟩
        · exact absurd committed (not_committed_outside _ queue _ outside)
        · exact absurd committed (not_committed_at _ queue other _ .cond cond rfl)
    | _ =>
        rw [goto_tasks, if_pos rfl] at committed
        exact absurd committed (not_committed_outside _ queue _ rfl)
  · left
    cases move with
    | wakeWriters | wakeReaders =>
        rw [goto_tasks, if_neg here] at committed
        exact committed_wake queue _ _ _ committed
    | _ => simpa [here, myClose] using committed

theorem committed_still (s next : Dev ι) (u : ι) (action : Action ι) (out : List (Event ι)) (queue : WaitQueue) (limit : Int)
    (move : DevMove s action next out) (current : limit ≤ s.waitArg queue) (committed : (next.tasks u).Committed queue limit) :
    (s.tasks u).Committed queue limit ∨ next.blockedAt queue limit = true := by
  cases move with
  | @call t op idle =>
      by_cases here : u = t
      · rw [goto_tasks, if_pos here] at committed
        refine absurd committed (not_committed_outside _ queue _ ?_)
        cases op <;> rfl
      · exact .inl (by simpa [here] using committed)
  | client move => exact committed_client s next _ u _ out queue limit move current committed
  | @ret t res got point =>
      by_cases here : u = t
      · rw [put_tasks, if_pos here] at committed
        exact absurd committed (not_committed_outside _ queue _ rfl)
      · exact .inl (by simpa [here] using committed)
  | @signal t =>
      by_cases here : u = t
      · simp only [signalStep, put_tasks, if_pos here] at committed
        obtain ⟨_, _, _, interruptible⟩ := committed
        cases interruptible
      · exact .inl (by simpa [signalStep, here] using committed)
  | kt move => exact .inl (by cases move <;> exact committed)
  | timer => exact .inl committed

omit [DecidableEq ι] in
theorem wait_arg_congr (s next : Dev ι) (queue : WaitQueue) (limit : next.devStat.dsKbMax = s.devStat.dsKbMax) :
    next.waitArg queue = s.waitArg queue := by
  cases queue with
  | waitR => rfl
  | waitW => exact limit

theorem committed_move (s next : Dev ι) (u : ι) (action : Action ι) (out : List (Event ι)) (queue : WaitQueue)
    (fits : Fits s.devStat.dsKbSum) (move : DevMove s action next out) (announced : queue = .waitW → RoomAnnounced s action)
    (committed : (next.tasks u).Committed queue (next.waitArg queue)) :
    (s.tasks u).Committed queue (s.waitArg queue) ∨ next.blocked queue = true := by
  have unchanged (same : next.devStat.dsKbMax = s.devStat.dsKbMax) :
      (s.tasks u).Committed queue (s.waitArg queue) ∨ next.blocked queue = true := by
    unfold Dev.blocked
    rw [wait_arg_congr s next queue same] at committed ⊢
    exact committed_still s next u action out queue _ move (Int.le_refl _) committed
  cases move with
  | client move => exact unchanged (by cases move <;> simp [myClose])
  | kt move =>
      cases move with
      | sampled point done => exact unchanged (kt_stat_work_spec _ _ _ _ done).2.1
      | @resized ds point done =>
          cases queue with
          | waitR => exact .inl committed
          | waitW =>
              rcases announced rfl point with none | full
              · exact absurd committed (none u _)
              · exact .inr (stays_full_resized s ds fits full done)
      | _ => exact unchanged rfl
  | _ => exact unchanged rfl

omit [DecidableEq ι] in
theorem blocked_congr (s next : Dev ι) (queue : WaitQueue) (fifo : next.kbFifo = s.kbFifo)
    (limit : next.devStat.dsKbMax = s.devStat.dsKbMax) : next.blocked queue = s.blocked queue := by
  cases queue <;> simp only [blocked_readers, blocked_writers, fifo, limit]

theorem blocked_client (s next : Dev ι) (t : ι) (env : Env) (out : List (Event ι)) (queue : WaitQueue)
    (move : ClientMove s t env next out) (shut : s.blocked queue = true) :
    next.blocked queue = true ∨ ∃ u, (next.tasks u).pc.waking = some queue := by
  cases move with
  | @pushed value point success =>
      cases queue with
      | waitR => exact .inr ⟨t, by simp [Pc.waking]⟩
      | waitW =>
          have full := (blocked_writers_iff s).mp shut
          refine .inl ((blocked_writers_iff _).mpr ?_)
          simp only [goto_stat, goto_fifo, kb_push_count]
          omega
  | @popped dim value node rest point found =>
      cases queue with
      | waitW => exact .inr ⟨t, by simp [Pc.waking]⟩
      | waitR =>
          have empty := (kb_isempty_iff _).mp shut
          rw [(kb_pop_some _ _ _ found).1] at empty
          cases empty
  | _ =>
      left
      rw [← shut]
      exact blocked_congr s _ queue (by simp [myClose]) (by simp [myClose])

theorem blocked_move (s next : Dev ι) (action : Action ι) (out : List (Event ι)) (queue : WaitQueue)
    (fits : Fits s.devStat.dsKbSum) (move : DevMove s action next out) (announced : queue = .waitW → RoomAnnounced s action)
    (shut : s.blocked queue = true) :
    next.blocked queue = true ∨ (∃ u, (next.tasks u).pc.waking = some queue) ∨
      ∀ u, ¬ (s.tasks u).Committed queue (s.waitArg queue) := by
  cases move with
  | client move => exact (blocked_client s next _ _ out queue move shut).imp_right .inl
  | kt move =>
      cases move with
      | sampled point done =>
          left
          rw [← shut]
          exact blocked_congr s _ queue rfl (kt_stat_work_spec _ _ _ _ done).2.1
      | @resized ds point done =>
          cases queue with
          | waitR => exact .inl shut
          | waitW =>
              rcases announced rfl point with none | full
              · exact .inr (.inr fun u => none u _)
              · exact .inl (stays_full_resized s ds fits full done)
      | _ => exact .inl shut
  | _ => exact .inl (by rw [← shut]; exact blocked_congr s _ queue rfl rfl)

theorem waking_client (s next : Dev ι) (t : ι) (env : Env) (out : List (Event ι)) (queue : WaitQueue) (inv : QueueInv s)
    (move : ClientMove s t env next out) (waking : (s.tasks t).pc.waking = some queue) :
    (next.tasks t).pc.waking = some queue ∨ (∀ u limit, ¬ (next.tasks u).Committed queue limit) ∨
      queue = .waitW ∧ next.blocked queue = s.blocked queue ∧ env.ok = false ∧
        ∃ dim value taken, (s.tasks t).pc = .readCopy dim value taken := by
  cases move with
  | «local» move =>
      rcases local_waking (local_move_pc s env _ _ move) waking with still | ⟨writers, fault⟩
      · exact .inl (by simpa using still)
      · exact .inr (.inr ⟨writers, rfl, fault⟩)
  | acquire free entered =>
      have outside := (locked_holds _ _ entered).1
      rw [waking_holds _ _ waking] at outside
      cases outside
  | release left =>
      unfold Pc.unlocked at left
      split at left <;> rename_i point <;> first | (rw [point] at waking; cases waking) | cases left
  | opened point | closed point | popped point | pushed point =>
      rw [point] at waking
      cases waking
  | wakeWriters point | wakeReaders point =>
      rw [point] at waking
      cases waking
      refine .inr (.inl ?_)
      intro u limit committed
      by_cases here : u = t
      · rw [goto_tasks, if_pos here] at committed
        exact not_committed_outside _ _ _ rfl committed
      · rw [goto_tasks, if_neg here] at committed
        exact wake_leaves_none _ _ _ (inv u) committed

theorem waking_move (s next : Dev ι) (u : ι) (action : Action ι) (out : List (Event ι)) (queue : WaitQueue)
    (inv : QueueInv s) (move : DevMove s action next out) (announced : queue = .waitW → RoomAnnounced s action)
    (waking : (s.tasks u).pc.waking = some queue) :
    next.blocked queue = true ∨ (next.tasks u).pc.waking = some queue ∨
      (∀ t limit, ¬ (next.tasks t).Committed queue limit) ∨ ∀ t, ¬ (s.tasks t).Committed queue (s.waitArg queue) := by
  cases task_move s next u action out move with
  | call idle | ret idle =>
      rw [idle] at waking
      cases waking
  | @go env own =>
      rcases waking_client s next u env out queue inv own waking with still | woken | ⟨rfl, same, failure, dim, value, taken, point⟩
      · exact .inr (.inl still)
      · exact .inr (.inr (.inl woken))
      · rcases announced rfl dim value taken point failure with none | full
        · exact .inr (.inr (.inr none))
        · exact .inl (same.trans full)
  | other _ same =>
      rw [← same] at waking
      exact .inr (.inl waking)

theorem guarded_move (s next : Dev ι) (action : Action ι) (out : List (Event ι)) (queue : WaitQueue) (inv : QueueInv s)
    (fits : Fits s.devStat.dsKbSum) (guarded : Guarded queue s) (announced : queue = .waitW → RoomAnnounced s action) (move : DevMove s action next out) :
    Guarded queue next := by
  intro t committed
  rcases committed_move s next t action out queue fits move announced committed with before | shut
  · rcases guarded t before with shut | ⟨u, waking⟩
    · rcases blocked_move s next action out queue fits move announced shut with still | waker | none
      · exact .inl still
      · exact .inr waker
      · exact absurd before (none t)
    · rcases waking_move s next u action out queue inv move announced waking with shut | still | woken | none
      · exact .inl shut
      · exact .inr ⟨u, still⟩
      · exact absurd committed (woken t _)
      · exact absurd before (none t)
  · exact .inl shut

theorem guarded_run (queue : WaitQueue) (announced : ∀ s action, ok s action → queue = .waitW → RoomAnnounced s action)
    (run : Run (device ι) ok (myModuleInit ι) events s) : Guarded queue s := by
  refine Run.invariant (fun _ s => Guarded queue s) ?_ ?_ run
  · intro t committed
    exact absurd committed (not_committed_outside _ queue _ rfl)
  · intro _ s action next out before guarded allowed stepped
    exact guarded_move s next action out queue (queue_inv_run before) (sum_fits_run before) guarded (announced s action allowed)
      (device_moves s next action out stepped)

theorem asleep_blocked (queue : WaitQueue) (announced : ∀ s action, ok s action → queue = .waitW → RoomAnnounced s action)
    (run : Run (device ι) ok (myModuleInit ι) events s) (free : s.devMutex = none) (t : ι)
    (asleep : (s.tasks t).Asleep queue) : s.blocked queue = true := by
  rcases guarded_run queue announced run t (asleep_committed queue _ _ asleep) with shut | ⟨u, waking⟩
  · exact shut
  · have owner := ((lock_inv_run run).clients u).mp (waking_holds _ _ waking)
    rw [free] at owner
    cases owner

theorem reader_asleep_only_on_empty (run : Run (device ι) Any (myModuleInit ι) events s) (free : s.devMutex = none) (t : ι)
    (asleep : (s.tasks t).Asleep .waitR) : s.kbFifo.nodes = [] :=
  (kb_isempty_iff _).mp (asleep_blocked .waitR (fun _ _ _ same => nomatch same) run free t asleep)

theorem writer_asleep_only_on_full (run : Run (device ι) RoomAnnounced (myModuleInit ι) events s) (free : s.devMutex = none)
    (t : ι) (asleep : (s.tasks t).Asleep .waitW) : ¬ s.kbFifo.count < s.devStat.dsKbMax := by
  have full := (blocked_writers_iff s).mp (asleep_blocked .waitW (fun _ _ allowed _ => allowed) run free t asleep)
  omega

def undisturbed (_ : Dev ι) : Action ι → Bool
  | .go _ env => env.ok
  | .kt _ _ => false
  | _ => true

omit [DecidableEq ι] in
theorem undisturbed_sound (s : Dev ι) (action : Action ι) (checked : undisturbed s action = true) : RoomAnnounced s action := by
  cases action with
  | go t env =>
      intro dim value taken point failure
      simp [undisturbed, failure] at checked
  | kt k env => cases checked
  | _ => trivial

end Wake

theorem reader_asleep_only_on_empty_first_reader : ∃ events s, Run (device Bool) Any (myModuleInit Bool) events s ∧
    s.devMutex = none ∧ (s.tasks true).Asleep .waitR ∧ s.kbFifo.nodes = [] := by
  obtain ⟨events, s, run, seen⟩ := exec_reaches_any (device Bool)
    (myModuleInit Bool) ([Action.call true (.myRead 2)] ++ alone true 10)
    (fun s _ => s.devMutex = none ∧ (s.tasks true).Asleep .waitR) (by decide +kernel)
  obtain ⟨free, asleep⟩ : s.devMutex = none ∧ (s.tasks true).Asleep .waitR := by simpa using seen
  exact ⟨events, s, run, free, asleep, reader_asleep_only_on_empty run free true asleep⟩

-- The device is opened, filled up to its first limit, and a sixth my_write
-- is called.
def fillUp : List (Action Bool) :=
  [Action.call false .myOpen] ++ alone false 3 ++ [Action.ret false] ++
    (List.replicate 5 ([Action.call false (.myWrite [97, 0])] ++ alone false 7 ++ [Action.ret false])).flatten ++
    [Action.call true (.myWrite [97, 0])]

def fillAndSleep : List (Action Bool) := fillUp ++ alone true 10

theorem writer_asleep_only_on_full_sixth_writer : ∃ events s, Run (device Bool) RoomAnnounced (myModuleInit Bool) events s ∧
    s.devMutex = none ∧ (s.tasks true).Asleep .waitW ∧ ¬ s.kbFifo.count < s.devStat.dsKbMax := by
  obtain ⟨events, s, run, seen⟩ := exec_reaches (device Bool) undisturbed RoomAnnounced undisturbed_sound
    (myModuleInit Bool) fillAndSleep (fun s _ => s.devMutex = none ∧ (s.tasks true).Asleep .waitW) (by decide +kernel)
  obtain ⟨free, asleep⟩ : s.devMutex = none ∧ (s.tasks true).Asleep .waitW := by simpa using seen
  exact ⟨events, s, run, free, asleep, writer_asleep_only_on_full run free true asleep⟩

-- One iteration of each kernel thread, which raises the limit from 5 to 8 and
-- wakes nobody.
def raiseLimit : List (Action Bool) := List.replicate 6 (Action.kt .ktStat {}) ++ List.replicate 6 (Action.kt .ktRealloc {})

-- The sixth writer is left asleep beside a free slot in three ways: the limit
-- is raised while it sleeps, it is raised between the load of ds_kb_max and the
-- call of kb_isfull in the re-test, or the copy_to_user of a my_read faults.
theorem writer_asleep_beside_room :
    (∃ events s, Run (device Bool) Any (myModuleInit Bool) events s ∧ s.devMutex = none ∧ (s.tasks true).Asleep .waitW ∧
      s.kbFifo.count = 5 ∧ s.devStat.dsKbMax = 8) ∧
    (∃ events before later s, Run (device Bool) Any (myModuleInit Bool) events before ∧
      (before.tasks true).pc = .writeWait [97, 0] (.recheckCall 5) ∧ before.devStat.dsKbMax = 8 ∧
      Run (device Bool) Any before later s ∧ s.devMutex = none ∧ (s.tasks true).Asleep .waitW ∧ s.kbFifo.count = 5 ∧ s.devStat.dsKbMax = 8) ∧
    (∃ events s, Run (device Bool) Any (myModuleInit Bool) events s ∧ s.devMutex = none ∧ (s.tasks true).Asleep .waitW ∧
      s.kbFifo.count = 4 ∧ s.devStat.dsKbMax = 5) := by
  refine ⟨?_, ?_, ?_⟩
  · obtain ⟨events, s, run, seen⟩ := exec_reaches_any (device Bool)
      (myModuleInit Bool) (fillAndSleep ++ raiseLimit)
      (fun s _ => s.devMutex = none ∧ (s.tasks true).Asleep .waitW ∧ s.kbFifo.count = 5 ∧ s.devStat.dsKbMax = 8)
      (by decide +kernel)
    exact ⟨events, s, run, by simpa using seen⟩
  · obtain ⟨events, before, run, seen⟩ := exec_reaches_any (device Bool)
      (myModuleInit Bool) (fillUp ++ alone true 8 ++ raiseLimit)
      (fun s _ => (s.tasks true).pc = .writeWait [97, 0] (.recheckCall 5) ∧ s.devStat.dsKbMax = 8 ∧
        ((device Bool).exec (fun _ _ => true) s (alone true 2)).any (fun found => found.1.devMutex = none ∧
          (found.1.tasks true).Asleep .waitW ∧ found.1.kbFifo.count = 5 ∧ found.1.devStat.dsKbMax = 8) = true)
      (by decide +kernel)
    obtain ⟨loaded, raised, onward⟩ := of_decide_eq_true seen
    obtain ⟨later, s, rest, asleep⟩ := exec_reaches_any (device Bool) before (alone true 2) (fun s _ => s.devMutex = none ∧
      (s.tasks true).Asleep .waitW ∧ s.kbFifo.count = 5 ∧ s.devStat.dsKbMax = 8) onward
    exact ⟨events, before, later, s, run, loaded, raised, rest, by simpa using asleep⟩
  · obtain ⟨events, s, run, seen⟩ := exec_reaches_any (device Bool)
      (myModuleInit Bool) (fillAndSleep ++ [Action.call false (.myRead 2)] ++ alone false 4 ++ [Action.go false { ok := false }] ++ alone false 1)
      (fun s _ => s.devMutex = none ∧ (s.tasks true).Asleep .waitW ∧ s.kbFifo.count = 4 ∧ s.devStat.dsKbMax = 5)
      (by decide +kernel)
    exact ⟨events, s, run, by simpa using seen⟩

end MyDev
