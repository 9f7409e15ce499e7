import MyDev.DeviceWake

set_option autoImplicit false

namespace MyDev

open Library

-- What a call has done since a signal cut a wait of it short: whether it has
-- changed kb_fifo, and whether its copy_from_user has failed.
structure CutCall where
  touched : Bool
  faulted : Bool
deriving DecidableEq

-- What is seen of signals: that a call goes into another pass of its wait loop
-- although one was pending when the last pass ended, and how a call ends whose
-- wait_event_interruptible has returned -ERESTARTSYS.
inductive Heed (ι : Type) where
  | again (t : ι)
  | ended (t : ι) (res : Int) (call : CutCall)
deriving DecidableEq

def Heed.Obeyed {ι : Type} : Heed ι → Prop
  | .again _ => False
  | .ended _ res call => res ≠ 0 ∧ call.touched = false

def Heed.Faulted {ι : Type} : Heed ι → Prop
  | .again _ => False
  | .ended _ _ call => call.faulted = true

-- The device with each client's current call watched: `due` is set between the
-- end of a pass with a signal pending and the next test of the loop, `cut` once
-- a signal has cut a wait of the call short.
structure Signalled (ι : Type) where
  dev : Dev ι
  due : ι → Bool
  cut : ι → Option CutCall

section Signals

variable {ι : Type}

def Dev.signalledAt (s : Dev ι) (t : ι) (place : WaitPc) : Bool :=
  match (s.tasks t).pc.waiting with
  | some (_, point) => point = place && (s.tasks t).signal
  | none => false

def Dev.turnsBack (s : Dev ι) (t : ι) : Bool :=
  match (s.tasks t).pc.waiting with
  | some (queue, .test) => s.blocked queue
  | _ => false

def Dev.copyFails (s : Dev ι) (t : ι) (env : Env) : Bool :=
  match (s.tasks t).pc with
  | .writeCopy _ => !env.ok
  | _ => false

def Event.ended (cut : ι → Option CutCall) : Event ι → List (Heed ι)
  | .readDone t res _ | .writeDone t res => (cut t).toList.map (.ended t res)
  | _ => []

def Signalled.turns (s : Signalled ι) : Action ι → List (Heed ι)
  | .go t _ => if s.due t && s.dev.turnsBack t then [.again t] else []
  | _ => []

variable [DecidableEq ι]

def Event.changes (t : ι) : Event ι → Bool
  | .pushed u _ | .popped u _ => u = t
  | _ => false

def Signalled.track (s : Signalled ι) (out : List (Event ι)) : Action ι → ι → Option CutCall
  | .call t _ => Function.update s.cut t none
  | .go t env =>
      Function.update s.cut t
        ((if s.dev.signalledAt t .pending then some ⟨false, false⟩ else s.cut t).map fun call =>
          ⟨call.touched || out.any (Event.changes t), call.faulted || s.dev.copyFails t env⟩)
  | _ => s.cut

def Signalled.mark (s : Signalled ι) : Action ι → ι → Bool
  | .go t _ => Function.update s.due t (s.dev.signalledAt t .relock)
  | _ => s.due

def signalDevice (ι : Type) [DecidableEq ι] : Machine (Signalled ι) (Action ι) (Heed ι) where
  step s action := ((device ι).step s.dev action).map fun moved =>
    (⟨moved.1, s.mark action, s.track moved.2 action⟩, s.turns action ++ moved.2.flatMap (Event.ended s.cut))

def signalInit (ι : Type) : Signalled ι := ⟨myModuleInit ι, fun _ => false, fun _ => none⟩

theorem signal_steps (s next : Signalled ι) (action : Action ι) (log : List (Heed ι))
    (stepped : (signalDevice ι).step s action = some (next, log)) :
    ∃ out, (device ι).step s.dev action = some (next.dev, out) ∧ next.due = s.mark action ∧ next.cut = s.track out action ∧
      log = s.turns action ++ out.flatMap (Event.ended s.cut) := by
  simp only [signalDevice, Option.map_eq_some_iff, Prod.mk.injEq] at stepped
  obtain ⟨⟨dev, out⟩, moved, rfl, rfl⟩ := stepped
  exact ⟨out, moved, rfl, rfl, rfl⟩

variable {ok : Signalled ι → Action ι → Prop} {log : List (Heed ι)} {s : Signalled ι}

theorem signal_device_run (run : Run (signalDevice ι) ok (signalInit ι) log s) :
    ∃ events, Run (device ι) Any (myModuleInit ι) events s.dev := by
  refine Run.observed Signalled.dev ?_ run
  intro s action next log stepped
  obtain ⟨out, moved, _⟩ := signal_steps s next action log stepped
  exact ⟨out, moved⟩

theorem device_signalled {events : List (Event ι)} {d : Dev ι} (run : Run (device ι) Any (myModuleInit ι) events d) :
    ∃ log s, Run (signalDevice ι) Any (signalInit ι) log s ∧ s.dev = d := by
  refine Run.observe Signalled.dev (signalInit ι) ?_ run
  intro s action next out stepped
  exact ⟨⟨next, s.mark action, s.track out action⟩, _, by simp only [signalDevice, stepped]; rfl, rfl⟩

-- Where a call whose wait was cut short can be, and what it has done by then.
-- Only the failed copy of a my_write ends it with the queue as it was.
def Pc.Cut (cut : Option CutCall) : Pc → Prop
  | .readLock _ | .readAlloc _ | .writeLock _ | .writeAlloc _ => cut = none
  | .readWait _ _ _ | .readPop _ _ | .writeWait _ _ | .writeCopy _ | .writePush _ => cut = none ∨ cut = some ⟨false, false⟩
  | .readCopy _ _ _ | .readWake _ _ | .readUnlock _ _ _ => cut = none ∨ cut = some ⟨true, false⟩
  | .writeWake res => (cut = none ∨ cut = some ⟨true, false⟩) ∧ res = 0
  | .writeUnlock res => cut = none ∨ cut = some ⟨true, false⟩ ∧ res = 0 ∨ cut = some ⟨false, true⟩ ∧ res = -eFault
  | _ => True

omit [DecidableEq ι] in
theorem signalled_at_waits (s : Dev ι) (t : ι) (place : WaitPc) (signalled : s.signalledAt t place = true) :
    ∃ queue, (s.tasks t).pc.waiting = some (queue, place) ∧ (s.tasks t).signal = true := by
  unfold Dev.signalledAt at signalled
  split at signalled
  · rename_i queue point inside
    obtain ⟨rfl, signal⟩ : point = place ∧ (s.tasks t).signal = true := by simpa using signalled
    exact ⟨queue, inside, signal⟩
  · cases signalled

omit [DecidableEq ι] in
theorem cut_local {s : Dev ι} {env : Env} {t : ι} {next : Pc} {cut : Option CutCall} (interrupted : Bool)
    (step : LocalPc s env (s.tasks t).pc next) (found : ∀ dim value, (s.tasks t).pc = .readPop dim value → kbPop s.kbFifo ≠ none)
    (inside : interrupted = true → (s.tasks t).pc.waiting ≠ none) (inv : (s.tasks t).pc.Cut cut) :
    next.Cut ((if interrupted then some ⟨false, false⟩ else cut).map fun call =>
      ⟨call.touched, call.faulted || s.copyFails t env⟩) := by
  unfold Dev.copyFails
  generalize (s.tasks t).pc = pc at step found inside inv
  cases step with
  | readNothing missing => exact absurd missing (found _ _ rfl)
  | _ => cases interrupted <;> cases cut <;> simp_all [Pc.Cut, Pc.waiting]

omit [DecidableEq ι] in
theorem not_interrupted (s : Dev ι) (t : ι) (elsewhere : ∀ queue, (s.tasks t).pc.waiting ≠ some (queue, .pending)) :
    s.signalledAt t .pending = false := by
  cases interrupted : s.signalledAt t .pending with
  | false => rfl
  | true =>
      obtain ⟨queue, point, _⟩ := signalled_at_waits s t .pending interrupted
      exact absurd point (elsewhere queue)

omit [DecidableEq ι] in
theorem copies_nothing (s : Dev ι) (t : ι) (env : Env) (elsewhere : ∀ buf, (s.tasks t).pc ≠ .writeCopy buf) :
    s.copyFails t env = false := by
  unfold Dev.copyFails
  split
  · rename_i buf point
    exact absurd point (elsewhere buf)
  · rfl

theorem track_go (s : Signalled ι) (t : ι) (env : Env) (out : List (Event ι)) (calm : s.dev.signalledAt t .pending = false)
    (elsewhere : ∀ buf, (s.dev.tasks t).pc ≠ .writeCopy buf) :
    s.track out (.go t env) t = (s.cut t).map fun call => ⟨call.touched || out.any (Event.changes t), call.faulted⟩ := by
  simp [Signalled.track, calm, copies_nothing s.dev t env elsewhere]

theorem pending_keeps (pc : Pc) (queue : WaitQueue) (point : pc.waiting = some (queue, .pending)) :
    pc.locked = none ∧ pc.unlocked = none := by
  rcases waiting_cases pc queue _ point with ⟨_, _, rfl, _⟩ | ⟨_, rfl, _⟩ <;> exact ⟨rfl, rfl⟩

theorem done_changes (t : ι) (pc : Pc) : (doneEvents t pc).any (Event.changes t) = false := by
  unfold doneEvents
  split <;> rfl

theorem cut_locked (pc next : Pc) (cut : Option CutCall) (entered : pc.locked = some next) (inv : pc.Cut cut) : next.Cut cut := by
  unfold Pc.locked at entered
  split at entered <;> cases entered <;> exact inv

theorem cut_unlocked (pc next : Pc) (cut : Option CutCall) (left : pc.unlocked = some next) (inv : pc.Cut cut) : next.Cut cut := by
  unfold Pc.unlocked at left
  split at left <;> cases left <;> first | exact inv | trivial

theorem cut_client (s : Signalled ι) (next : Dev ι) (t : ι) (env : Env) (out : List (Event ι))
    (ready : PopReady s.dev) (move : ClientMove s.dev t env next out) (inv : (s.dev.tasks t).pc.Cut (s.cut t)) :
    (next.tasks t).pc.Cut (s.track out (.go t env) t) := by
  cases move with
  | «local» move =>
      have kept := cut_local (s.dev.signalledAt t .pending) (local_move_pc _ env _ _ move)
        (fun dim value point missing => ready t dim value point ((kb_pop_none_iff _).mp missing))
        (fun interrupted => by obtain ⟨_, point, _⟩ := signalled_at_waits _ _ _ interrupted; simp [point]) inv
      simpa [Signalled.track] using kept
  | acquire free entered =>
      have calm : s.dev.signalledAt t .pending = false := not_interrupted _ _ fun queue point => by
        simp [(pending_keeps _ _ point).1] at entered
      rw [track_go s t env _ calm (fun buf point => by rw [point] at entered; cases entered)]
      simpa using cut_locked _ _ _ entered inv
  | release left =>
      have calm : s.dev.signalledAt t .pending = false := not_interrupted _ _ fun queue point => by
        simp [(pending_keeps _ _ point).2] at left
      rw [track_go s t env _ calm (fun buf point => by rw [point] at left; cases left), done_changes]
      simpa using cut_unlocked _ _ _ left inv
  | popped point | pushed point | wakeWriters point | wakeReaders point | opened point | closed point =>
      rw [track_go s t env _ (not_interrupted _ _ (by simp [point, Pc.waiting])) (by simp [point])]
      rw [point] at inv
      cases cut : s.cut t <;> simp_all [Pc.Cut, Event.changes]

theorem track_other (s : Signalled ι) (u : ι) (action : Action ι) (out : List (Event ι)) (other : action.client ≠ some u) :
    s.track out action u = s.cut u := by
  cases action with
  | call t op | go t env =>
      have different : u ≠ t := fun same => other (by rw [same]; rfl)
      simp [Signalled.track, different]
  | _ => rfl

theorem cut_move (s : Signalled ι) (next : Dev ι) (action : Action ι) (out : List (Event ι)) (ready : PopReady s.dev)
    (move : DevMove s.dev action next out) (inv : ∀ t, (s.dev.tasks t).pc.Cut (s.cut t)) (u : ι) :
    (next.tasks u).pc.Cut (s.track out action u) := by
  cases task_move s.dev next u action out move with
  | @call op _ entered =>
      rw [entered]
      cases op <;> simp [Signalled.track, Op.entry, Pc.Cut]
  | go own => exact cut_client s next u _ out ready own (inv u)
  | ret _ left =>
      rw [left]
      trivial
  | other other same =>
      rw [same, track_other s u action out other]
      exact inv u

theorem cut_run (run : Run (signalDevice ι) ok (signalInit ι) log s) (t : ι) : (s.dev.tasks t).pc.Cut (s.cut t) := by
  refine Run.invariant (fun _ s => ∀ t, (s.dev.tasks t).pc.Cut (s.cut t)) (fun _ => trivial) ?_ run t
  intro log s action next more before inv _ stepped u
  obtain ⟨events, seen⟩ := signal_device_run before
  obtain ⟨out, moved, _, tracked, _⟩ := signal_steps s next action more stepped
  rw [tracked]
  exact cut_move s next.dev action out (pop_ready_run seen) (device_moves _ _ _ _ moved) inv u

omit [DecidableEq ι] in
theorem ended_at (t : ι) (pc : Pc) (res : Int) (call : CutCall)
    (ends : (∃ got taken, pc = .readUnlock res got taken) ∨ pc = .writeUnlock res) (inv : pc.Cut (some call)) :
    (Heed.ended t res call).Obeyed ↔ (Heed.ended t res call).Faulted := by
  rcases ends with ⟨got, taken, rfl⟩ | rfl
  · have done : call = ⟨true, false⟩ := by simpa [Pc.Cut] using inv
    simp [done, Heed.Obeyed, Heed.Faulted]
  · have done : call = ⟨true, false⟩ ∧ res = 0 ∨ call = ⟨false, true⟩ ∧ res = -eFault := by simpa [Pc.Cut] using inv
    rcases done with ⟨rfl, rfl⟩ | ⟨rfl, rfl⟩
    · simp [Heed.Obeyed, Heed.Faulted]
    · simp [Heed.Obeyed, Heed.Faulted, eFault]

theorem ended_fit (s : Signalled ι) (next : Dev ι) (action : Action ι) (out : List (Event ι))
    (inv : ∀ t, (s.dev.tasks t).pc.Cut (s.cut t)) (move : DevMove s.dev action next out) (note : Heed ι)
    (seen : note ∈ out.flatMap (Event.ended s.cut)) : (∀ t, note ≠ .again t) ∧ (note.Obeyed ↔ note.Faulted) := by
  cases move with
  | @client u env _ _ move =>
      have here := inv u
      cases move with
      | release left =>
          unfold doneEvents at seen
          split at seen <;> rename_i pc <;>
            simp only [List.flatMap_cons, List.flatMap_nil, List.append_nil, Event.ended, List.mem_map, Option.mem_toList,
              List.not_mem_nil] at seen
          all_goals
            obtain ⟨call, cut, rfl⟩ := seen
            rw [pc, cut] at here
            exact ⟨by simp, ended_at _ _ _ call (by simp) here⟩
      | _ => simp [Event.ended] at seen
  | kt move => cases move <;> simp [Event.ended] at seen
  | _ => simp at seen

-- Whenever a client with a signal pending gets dev_mutex back in its loop, the
-- queue is available to it.
def Answered (s : Signalled ι) : Action ι → Prop
  | .go t _ => (s.dev.tasks t).signal = true → ∀ queue, (s.dev.tasks t).pc.waiting = some (queue, .relock) →
      s.dev.blocked queue = false
  | _ => True

def Passing (dev : Dev ι) (due : ι → Bool) (t : ι) : Prop :=
  due t = true → ∀ queue, (dev.tasks t).pc.waiting = some (queue, .test) → dev.blocked queue = false

theorem relock_client (s next : Dev ι) (t : ι) (env : Env) (out : List (Event ι)) (queue : WaitQueue)
    (move : ClientMove s t env next out) (point : (s.tasks t).pc.waiting = some (queue, .relock)) :
    next.blocked queue = s.blocked queue ∧ (next.tasks t).pc.waiting = some (queue, .test) := by
  cases move with
  | «local» move =>
      exfalso
      cases move <;> simp_all [Pc.waiting]
  | acquire free entered =>
      refine ⟨blocked_congr s _ queue rfl rfl, ?_⟩
      rcases waiting_cases _ _ _ point with ⟨_, _, pc, rfl⟩ | ⟨_, pc, rfl⟩ <;>
      · rw [pc] at entered
        cases entered
        simp [Pc.waiting]
  | release left =>
      exfalso
      rcases waiting_cases _ _ _ point with ⟨_, _, pc, _⟩ | ⟨_, pc, _⟩ <;>
      · rw [pc] at left
        cases left
  | popped there | pushed there | wakeWriters there | wakeReaders there | opened there | closed there =>
      simp [there, Pc.waiting] at point

theorem mark_other (s : Signalled ι) (u : ι) (action : Action ι) (other : action.client ≠ some u) : s.mark action u = s.due u := by
  cases action with
  | go t env =>
      have different : u ≠ t := fun same => other (by rw [same]; rfl)
      simp [Signalled.mark, different]
  | _ => rfl

theorem passing_move (s : Signalled ι) (next : Dev ι) (action : Action ι) (out : List (Event ι)) (lock : LockInv s.dev)
    (move : DevMove s.dev action next out) (passing : ∀ t, Passing s.dev s.due t) (answered : Answered s action) (u : ι) :
    Passing next (s.mark action) u := by
  intro due queue point
  cases task_move s.dev next u action out move with
  | @call op _ entered =>
      rw [entered] at point
      cases op <;> cases point
  | go own =>
      obtain ⟨other, back, signal⟩ := signalled_at_waits s.dev u .relock (by simpa [Signalled.mark] using due)
      obtain ⟨same, test⟩ := relock_client s.dev next u _ out other own back
      rw [test] at point
      cases point
      rw [same]
      exact answered signal queue back
  | ret _ left =>
      rw [left] at point
      cases point
  | other other same =>
      rw [mark_other s u action other] at due
      rw [same] at point
      have held : (s.dev.tasks u).pc.holds = true := waiting_holds _ _ _ point
      obtain ⟨fifo, stat⟩ := holder_alone _ _ u action out lock move held other
      rw [blocked_congr s.dev next queue fifo (by rw [stat])]
      exact passing u due queue point

theorem passing_run (run : Run (signalDevice ι) Answered (signalInit ι) log s) (t : ι) : Passing s.dev s.due t := by
  refine Run.invariant (fun _ s => ∀ t, Passing s.dev s.due t) (fun _ due => by cases due) ?_ run t
  intro log s action next more before passing answered stepped u
  obtain ⟨events, seen⟩ := signal_device_run before
  obtain ⟨out, moved, marked, _⟩ := signal_steps s next action more stepped
  rw [marked]
  exact passing_move s next.dev action out (lock_inv_run seen) (device_moves _ _ _ _ moved) passing answered u

omit [DecidableEq ι] in
theorem turns_seen (s : Signalled ι) (action : Action ι) (note : Heed ι) (seen : note ∈ s.turns action) :
    ∃ t, note = .again t ∧ ¬ Passing s.dev s.due t := by
  cases action with
  | go t env =>
      simp only [Signalled.turns] at seen
      split at seen
      · rename_i turned
        obtain ⟨due, back⟩ : s.due t = true ∧ s.dev.turnsBack t = true := by simpa using turned
        refine ⟨t, by simpa using seen, fun passing => ?_⟩
        unfold Dev.turnsBack at back
        split at back
        · rename_i queue point
          rw [passing due queue point] at back
          cases back
        · cases back
      · cases seen
  | _ => cases seen

omit [DecidableEq ι] in
theorem turns_blocked (s : Signalled ι) (t : ι) (env : Env) (queue : WaitQueue) (due : s.due t = true)
    (point : (s.dev.tasks t).pc.waiting = some (queue, .test)) (shut : s.dev.blocked queue = true) :
    s.turns (.go t env) = [.again t] := by
  simp [Signalled.turns, due, Dev.turnsBack, point, shut]

theorem obeyed_run (run : Run (signalDevice ι) Answered (signalInit ι) log s) :
    ∀ note ∈ log, (∀ t, note ≠ .again t) ∧ (note.Obeyed ↔ note.Faulted) := by
  refine Run.invariant (fun log _ => ∀ note ∈ log, (∀ t, note ≠ .again t) ∧ (note.Obeyed ↔ note.Faulted)) (by simp) ?_ run
  intro log s action next more before earlier _ stepped note member
  rcases List.mem_append.mp member with old | new
  · exact earlier note old
  obtain ⟨out, moved, _, _, rfl⟩ := signal_steps s next action more stepped
  rcases List.mem_append.mp new with turned | returned
  · obtain ⟨t, _, stuck⟩ := turns_seen s action note turned
    exact absurd (passing_run before t) stuck
  · exact ended_fit s next.dev action out (cut_run before) (device_moves _ _ _ _ moved) note returned

theorem loop_step (s : Dev ι) (t : ι) (env : Env) (queue : WaitQueue) (point : WaitPc)
    (inside : (s.tasks t).pc.waiting = some (queue, point)) :
    (device ι).step s (.go t env) =
      (waitLoop s t queue (s.waitArg queue) (s.blockedAt queue) (s.tasks t).pc.moved (s.tasks t).pc.passed point).map (·, []) := by
  rcases waiting_cases _ _ _ inside with ⟨_, _, pc, rfl⟩ | ⟨_, pc, rfl⟩ <;> simp only [device, clientStep, pc] <;> rfl

theorem unanswered_turns (s next : Signalled ι) (t : ι) (env : Env) (more : List (Heed ι))
    (stepped : (signalDevice ι).step s (.go t env) = some (next, more)) (unanswered : ¬ Answered s (.go t env)) :
    ∃ after, (signalDevice ι).step next (.go t {}) = some (after, [.again t]) := by
  simp only [Answered, not_forall, exists_prop, Bool.not_eq_false] at unanswered
  obtain ⟨signal, queue, back, shut⟩ := unanswered
  obtain ⟨out, moved, marked, _, _⟩ := signal_steps s next _ more stepped
  obtain ⟨same, test⟩ := relock_client s.dev next.dev t env out queue (client_step_moves _ _ _ _ _ moved) back
  have due : next.due t = true := by simp [marked, Signalled.mark, Dev.signalledAt, back, signal]
  rw [← same] at shut
  have turned := turns_blocked next t {} queue due test shut
  exact ⟨_, by simp only [signalDevice, loop_step next.dev t _ queue .test test, waitLoop, turned]; rfl⟩

def Spinning (s : Signalled ι) (t : ι) (queue : WaitQueue) : Prop :=
  (s.dev.tasks t).pc.waiting = some (queue, .test) ∧ s.dev.blocked queue = true ∧ s.dev.devMutex = some (.client t) ∧
    (s.dev.tasks t).signal = true ∧ (s.dev.tasks t).state = .running ∧ (s.dev.tasks t).queue = none ∧
    s.due t = true ∧ s.cut t = some ⟨false, false⟩

instance (s : Signalled ι) (t : ι) (queue : WaitQueue) : Decidable (Spinning s t queue) :=
  inferInstanceAs (Decidable (_ ∧ _))

theorem spin_pass (s : Signalled ι) (t : ι) (queue : WaitQueue) (spinning : Spinning s t queue) :
    (signalDevice ι).exec (fun _ _ => true) s (alone t 10) = some (s, [.again t]) := by
  obtain ⟨point, shut, owner, signal, awake, off, due, cut⟩ := spinning
  obtain ⟨⟨mutex, fifo, stat, devRun, tasks, kts⟩, dues, cuts⟩ := s
  cases task : tasks t with
  | mk pc state on pending =>
      simp only [task] at point shut owner signal awake off due cut
      subst owner signal awake off
      have back : Function.update tasks t ⟨pc, .running, none, true⟩ = tasks := by
        rw [← task]
        exact Function.update_eq_self t tasks
      have still : Function.update dues t true = dues := by
        rw [← due]
        exact Function.update_eq_self t dues
      have kept : Function.update cuts t (some ⟨false, false⟩) = cuts := by
        rw [← cut]
        exact Function.update_eq_self t cuts
      rcases waiting_cases pc queue .test point with ⟨_, _, rfl, rfl⟩ | ⟨_, rfl, rfl⟩
      all_goals
        simp only [Dev.blocked, Dev.blockedAt, Dev.waitArg] at shut
        simp only [alone, List.replicate, Machine.exec, signalDevice, device, clientStep, waitLoop, Dev.goto, Dev.put, Dev.setMutex,
          Signalled.mark, Signalled.track, Signalled.turns, Dev.signalledAt, Dev.copyFails, Dev.turnsBack, Dev.blocked, Dev.blockedAt, Dev.waitArg, Pc.waiting, task, shut, due,
          cut, back, still, kept, Function.update_self, Function.update_idem, Option.map_some, Option.isNone_none, reduceCtorEq,
          decide_false, decide_true, Bool.and_true, Bool.and_self, Bool.false_or, Bool.false_eq_true, if_true, if_false, List.any_nil,
          List.flatMap_nil, List.append_nil, List.nil_append]

theorem spin_run (s : Signalled ι) (t : ι) (queue : WaitQueue) (spinning : Spinning s t queue) (n : Nat) :
    Run (signalDevice ι) Any s (List.replicate n (.again t)) s := by
  induction n with
  | zero => exact .nil
  | succ n ih =>
      have pass := exec_run (signalDevice ι) (fun _ _ => true) Any (fun _ _ _ => trivial) s s _ _ (spin_pass s t queue spinning)
      rw [List.replicate_succ']
      exact ih.trans pass

end Signals

theorem signalled_call_leaves_iff {ι : Type} [DecidableEq ι] {log : List (Heed ι)} {s : Signalled ι}
    (run : Run (signalDevice ι) Answered (signalInit ι) log s) :
    (∀ t, .again t ∉ log) ∧ ((∀ note ∈ log, note.Obeyed) ↔ ∀ note ∈ log, note.Faulted) ∧
      ∀ t env next more, (signalDevice ι).step s (.go t env) = some (next, more) → ¬ Answered s (.go t env) →
        ∃ after, (signalDevice ι).step next (.go t {}) = some (after, [.again t]) := by
  refine ⟨fun t member => (obeyed_run run _ member).1 t rfl, ?_, ?_⟩
  · exact forall_congr' fun note => forall_congr' fun member => (obeyed_run run note member).2
  · intro t env next more stepped unanswered
    exact unanswered_turns s next t env more stepped unanswered

def answered {ι : Type} (s : Signalled ι) : Action ι → Bool
  | .go t _ =>
      match (s.dev.tasks t).pc.waiting with
      | some (queue, .relock) => !(s.dev.tasks t).signal || !s.dev.blocked queue
      | _ => true
  | _ => true

theorem answered_sound {ι : Type} (s : Signalled ι) (action : Action ι) (checked : answered s action = true) :
    Answered s action := by
  cases action with
  | go t env =>
      intro signal queue point
      simpa [answered, point, signal] using checked
  | _ => trivial

-- The device is full, a signal cuts the sixth my_write short in its wait, and
-- another client makes room before the writer has dev_mutex back.
def cutThenRoom : List (Action Bool) :=
  fillAndSleep ++ [Action.signal true] ++ alone true 6 ++ [Action.call false (.myRead 2)] ++ alone false 7 ++ [Action.ret false]

theorem signalled_call_leaves_iff_faulting_writer : ∃ (log : List (Heed Bool)) (s : Signalled Bool),
    Run (signalDevice Bool) Answered (signalInit Bool) log s ∧ log = [.ended true (-eFault) ⟨false, true⟩] ∧
      ∀ note ∈ log, note.Obeyed := by
  obtain ⟨log, s, run, seen⟩ := exec_reaches (signalDevice Bool) answered Answered answered_sound (signalInit Bool)
    (cutThenRoom ++ alone true 2 ++ [Action.go true { ok := false }] ++ alone true 1)
    (fun _ log => decide (log = [.ended true (-eFault) ⟨false, true⟩])) (by decide +kernel)
  obtain rfl := of_decide_eq_true seen
  refine ⟨_, s, run, rfl, (signalled_call_leaves_iff run).2.1.mpr ?_⟩
  intro note member
  rw [List.mem_singleton.mp member]
  exact rfl

theorem signalled_client_spins :
    (∃ log s, Run (signalDevice Bool) Any (signalInit Bool) log s ∧ s.dev.kbFifo.count = 0 ∧ Spinning s true .waitR ∧
      ∀ n, Run (signalDevice Bool) Any s (List.replicate n (.again true)) s) ∧
    (∃ log s, Run (signalDevice Bool) Any (signalInit Bool) log s ∧ s.dev.kbFifo.count = s.dev.devStat.dsKbMax ∧
      Spinning s true .waitW ∧ ∀ n, Run (signalDevice Bool) Any s (List.replicate n (.again true)) s) ∧
    ∃ log s, Run (signalDevice Bool) Any (signalInit Bool) log s ∧ log = [.ended true 0 ⟨true, false⟩] := by
  refine ⟨?_, ?_, ?_⟩
  · obtain ⟨log, s, run, seen⟩ := exec_reaches_any (signalDevice Bool) (signalInit Bool)
      ([Action.call true (.myRead 2), Action.signal true] ++ alone true 12)
      (fun s _ => decide (s.dev.kbFifo.count = 0 ∧ Spinning s true .waitR)) (by decide +kernel)
    obtain ⟨empty, spinning⟩ := of_decide_eq_true seen
    exact ⟨log, s, run, empty, spinning, spin_run s true .waitR spinning⟩
  · obtain ⟨log, s, run, seen⟩ := exec_reaches_any (signalDevice Bool) (signalInit Bool)
      (fillAndSleep ++ [Action.signal true] ++ alone true 7)
      (fun s _ => decide (s.dev.kbFifo.count = s.dev.devStat.dsKbMax ∧ Spinning s true .waitW)) (by decide +kernel)
    obtain ⟨full, spinning⟩ := of_decide_eq_true seen
    exact ⟨log, s, run, full, spinning, spin_run s true .waitW spinning⟩
  · obtain ⟨log, s, run, seen⟩ := exec_reaches_any (signalDevice Bool) (signalInit Bool) (cutThenRoom ++ alone true 6)
      (fun _ log => decide (log = [.ended true 0 ⟨true, false⟩])) (by decide +kernel)
    exact ⟨log, s, run, of_decide_eq_true seen⟩

end MyDev
