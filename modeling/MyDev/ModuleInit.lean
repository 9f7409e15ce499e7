import MyDev.DeviceThreads

set_option autoImplicit false

namespace MyDev

open Library

-- The statements of my_module_init from the moment misc_register has returned
-- 0, with which the device can be opened. A kthread_run that fails ends it.
inductive InitPc where
  | mutexInit
  | kbInit
  | waitRInit
  | waitWInit
  | runStat
  | runRealloc
  | dsInitAlloc
  | devRun
  | returned
  | failed (k : Kt)
deriving DecidableEq, Repr

def InitPc.rank : InitPc → Nat
  | .mutexInit => 0
  | .kbInit => 1
  | .waitRInit => 2
  | .waitWInit => 3
  | .runStat | .failed .ktStat => 4
  | .runRealloc | .failed .ktRealloc => 5
  | .dsInitAlloc => 6
  | .devRun => 7
  | .returned => 8

def InitPc.queueReady (init : InitPc) : WaitQueue → Bool
  | .waitR => 3 ≤ init.rank
  | .waitW => 4 ≤ init.rank

def InitPc.started (init : InitPc) : Kt → Bool
  | .ktStat => 5 ≤ init.rank
  | .ktRealloc => 6 ≤ init.rank

structure Load (ι : Type) where
  dev : Dev ι
  init : InitPc

inductive LoadAction (ι : Type) where
  | init (ok : Bool)
  | dev (action : Action ι)

inductive LoadEvent (ι : Type) where
  | dev (event : Event ι)
  | opened
  | closed
  | reset
deriving DecidableEq, Repr

def Pc.queueUsed : Pc → Option WaitQueue
  | .readWait _ _ .prepare | .writeWake _ => some .waitR
  | .writeWait _ .prepare | .readWake _ _ => some .waitW
  | _ => none

-- A call that comes upon a mutex or a wait queue that is still all zeros. Such
-- a mutex counts as locked, and both have NULL for their lists.
def Pc.early (init : InitPc) (pc : Pc) : Bool :=
  (pc.locked.isSome && init.rank = 0) || pc.queueUsed.any fun queue => !init.queueReady queue

section Loading

variable {ι : Type} [DecidableEq ι]

-- my_open once it has the mutex. Before both descriptors are set, the first
-- open calls wake_up_process on one that is not, and dies with the mutex.
def loadOpen (s : Dev ι) (init : InitPc) (t : ι) : Dev ι :=
  if s.devRun + 1 = 1 ∧ init.started .ktRealloc = false then
    let opened := { s with devRun := s.devRun + 1 }
    (if init.started .ktStat then opened.wakeUpProcess .ktStat else opened).goto t .oops
  else (myOpen s).goto t .openUnlock

-- An early call spins on the zeroed lock until it is set up, or follows a NULL
-- list and is killed.
def loadClient (s : Load ι) (t : ι) (env : Env) : Option (Dev ι × List (LoadEvent ι)) :=
  if (s.dev.tasks t).pc.early s.init then (if env.ok then none else some (s.dev.goto t .oops, []))
  else if (s.dev.tasks t).pc = .openRun then some (loadOpen s.dev s.init t, [.opened])
  else if (s.dev.tasks t).pc = .closeRun then some ((myClose s.dev).goto t .closeUnlock, [.closed])
  else (clientStep s.dev t env).map fun moved => (moved.1, moved.2.map .dev)

def Dev.initWaitqueueHead (s : Dev ι) (queue : WaitQueue) : Dev ι :=
  { s with tasks := fun t => if (s.tasks t).queue = some queue then { s.tasks t with queue := none } else s.tasks t }

def initStep (s : Load ι) (ok : Bool) : Option (Load ι × List (LoadEvent ι)) :=
  match s.init with
  | .mutexInit => some (⟨s.dev.setMutex none, .kbInit⟩, [])
  | .kbInit => some (⟨{ s.dev with kbFifo := kbInit }, .waitRInit⟩, [])
  | .waitRInit => some (⟨s.dev.initWaitqueueHead .waitR, .waitWInit⟩, [])
  | .waitWInit => some (⟨s.dev.initWaitqueueHead .waitW, .runStat⟩, [])
  | .runStat => some ({ s with init := if ok then .runRealloc else .failed .ktStat }, [])
  | .runRealloc => some ({ s with init := if ok then .dsInitAlloc else .failed .ktRealloc }, [])
  | .dsInitAlloc => some (⟨{ s.dev with devStat := MyDev.dsInitAlloc s.dev.devStat startKbDim }, .devRun⟩, [])
  | .devRun => some (⟨{ s.dev with devRun := 0 }, .returned⟩, [.reset])
  | .returned => none
  | .failed _ => none

def loading (ι : Type) [DecidableEq ι] : Machine (Load ι) (LoadAction ι) (LoadEvent ι) where
  step
    | s, .init ok => initStep s ok
    | s, .dev (.go t env) => (loadClient s t env).map fun moved => ({ s with dev := moved.1 }, moved.2)
    | s, .dev (.kt k env) =>
        if s.init.started k then
          (ktStep s.dev k env).map fun moved => ({ s with dev := moved.1 }, moved.2.map .dev)
        else none
    | s, .dev action => ((device ι).step s.dev action).map fun moved => ({ s with dev := moved.1 }, moved.2.map .dev)

def loadStart (ι : Type) : Load ι where
  dev :=
    { devMutex := none
      kbFifo := kbInit
      devStat := ⟨0, [], 0, 0, 0⟩
      devRun := 0
      tasks := fun _ => ⟨.user, .running, none, false⟩
      kts := fun _ => ⟨.check, .running, false⟩ }
  init := .mutexInit

-- Run first and alone, my_module_init leaves the state the device starts from.
theorem init_alone : ((loading ι).exec (fun _ _ => true) (loadStart ι) (List.replicate 8 (LoadAction.init true))).map Prod.fst =
    some ⟨myModuleInit ι, .returned⟩ := by
  simp [Machine.exec, loading, initStep, loadStart, myModuleInit, List.replicate, Dev.initWaitqueueHead, Dev.setMutex]

theorem returned_on_time (pc : Pc) : pc.early .returned = false := by
  have ready : ∀ queue, InitPc.returned.queueReady queue = true := by
    intro queue
    cases queue <;> rfl
  simp [Pc.early, InitPc.rank, ready]

theorem returned_steps (s : Load ι) (action : Action ι) (finished : s.init = .returned) :
    ((loading ι).step s (.dev action)).map (fun moved => moved.1.dev) = ((device ι).step s.dev action).map Prod.fst := by
  cases action with
  | go t env =>
      simp only [loading, loadClient, finished, returned_on_time]
      by_cases opening : (s.dev.tasks t).pc = .openRun
      · simp [opening, loadOpen, device, clientStep, InitPc.started, InitPc.rank]
      · by_cases closing : (s.dev.tasks t).pc = .closeRun
        · simp [closing, device, clientStep]
        · simp [opening, closing, device, Function.comp_def]
  | kt k env =>
      have running : InitPc.returned.started k = true := by cases k <;> rfl
      simp [loading, device, finished, running, Function.comp_def]
  | _ => simp [loading, device, Function.comp_def]

inductive InitMove (s : Load ι) : Load ι → List (LoadEvent ι) → Prop where
  | mutex (point : s.init = .mutexInit) : InitMove s ⟨s.dev.setMutex none, .kbInit⟩ []
  | queue (point : s.init = .kbInit) : InitMove s ⟨{ s.dev with kbFifo := kbInit }, .waitRInit⟩ []
  | waits {queue : WaitQueue} {init : InitPc} (before : s.init ≠ .returned) (later : 1 < init.rank)
      (after : init ≠ .returned) : InitMove s ⟨s.dev.initWaitqueueHead queue, init⟩ []
  | thread {init : InitPc} (before : s.init ≠ .returned) (later : 1 < init.rank) (after : init ≠ .returned) :
      InitMove s { s with init := init } []
  | stat (point : s.init = .dsInitAlloc) :
      InitMove s ⟨{ s.dev with devStat := dsInitAlloc s.dev.devStat startKbDim }, .devRun⟩ []
  | run (point : s.init = .devRun) : InitMove s ⟨{ s.dev with devRun := 0 }, .returned⟩ [.reset]

omit [DecidableEq ι] in
theorem init_moves (s next : Load ι) (ok : Bool) (out : List (LoadEvent ι)) (stepped : initStep s ok = some (next, out)) :
    InitMove s next out := by
  unfold initStep at stepped
  cases point : s.init with
  | mutexInit =>
      rw [point] at stepped
      cases stepped
      exact .mutex point
  | kbInit =>
      rw [point] at stepped
      cases stepped
      exact .queue point
  | waitRInit | waitWInit =>
      rw [point] at stepped
      cases stepped
      exact .waits (by simp [point]) (by decide) (by simp)
  | runStat | runRealloc =>
      rw [point] at stepped
      cases stepped
      cases ok
      · exact .thread (by simp [point]) (by decide) (by simp)
      · exact .thread (by simp [point]) (by decide) (by simp)
  | dsInitAlloc =>
      rw [point] at stepped
      cases stepped
      exact .stat point
  | devRun =>
      rw [point] at stepped
      cases stepped
      exact .run point
  | returned | failed => simp [point] at stepped

inductive LoadMove (s : Load ι) : LoadAction ι → Load ι → List (LoadEvent ι) → Prop where
  | init {ok : Bool} {next : Load ι} {out : List (LoadEvent ι)} (move : InitMove s next out) :
      LoadMove s (.init ok) next out
  | killed {t : ι} {env : Env} : LoadMove s (.dev (.go t env)) { s with dev := s.dev.goto t .oops } []
  | opened {t : ι} {env : Env} (point : (s.dev.tasks t).pc = .openRun) :
      LoadMove s (.dev (.go t env)) { s with dev := loadOpen s.dev s.init t } [.opened]
  | closed {t : ι} {env : Env} (point : (s.dev.tasks t).pc = .closeRun) :
      LoadMove s (.dev (.go t env)) { s with dev := (myClose s.dev).goto t .closeUnlock } [.closed]
  | client {t : ι} {env : Env} {dev : Dev ι} {out : List (Event ι)} (opening : (s.dev.tasks t).pc ≠ .openRun)
      (closing : (s.dev.tasks t).pc ≠ .closeRun) (move : ClientMove s.dev t env dev out) :
      LoadMove s (.dev (.go t env)) { s with dev := dev } (out.map .dev)
  | kt {k : Kt} {env : Env} {dev : Dev ι} {out : List (Event ι)} (started : s.init.started k = true)
      (move : KtMove s.dev k dev out) : LoadMove s (.dev (.kt k env)) { s with dev := dev } (out.map .dev)
  | call {t : ι} {op : Op} : LoadMove s (.dev (.call t op)) { s with dev := s.dev.goto t op.entry } []
  | ret {t : ι} :
      LoadMove s (.dev (.ret t)) { s with dev := s.dev.put t { s.dev.tasks t with pc := .user, signal := false } } []
  | signal {t : ι} : LoadMove s (.dev (.signal t)) { s with dev := signalStep s.dev t } []
  | timer {k : Kt} : LoadMove s (.dev (.timer k)) { s with dev := s.dev.wakeUpProcess k } []

theorem load_moves (s next : Load ι) (action : LoadAction ι) (out : List (LoadEvent ι))
    (stepped : (loading ι).step s action = some (next, out)) : LoadMove s action next out := by
  cases action with
  | init ok => exact .init (init_moves s next ok out stepped)
  | dev action =>
      cases action with
      | go t env =>
          simp only [loading, Option.map_eq_some_iff, Prod.mk.injEq] at stepped
          obtain ⟨⟨dev, made⟩, moved, rfl, rfl⟩ := stepped
          unfold loadClient at moved
          split at moved
          · split at moved
            · cases moved
            · cases moved
              exact .killed
          · split at moved
            · rename_i point
              cases moved
              exact .opened point
            · rename_i opening
              split at moved
              · rename_i point
                cases moved
                exact .closed point
              · rename_i closing
                simp only [Option.map_eq_some_iff, Prod.mk.injEq] at moved
                obtain ⟨⟨dev, out⟩, stepped, rfl, rfl⟩ := moved
                exact .client opening closing (client_step_moves s.dev dev t env out stepped)
      | kt k env =>
          simp only [loading] at stepped
          split at stepped
          · rename_i started
            simp only [Option.map_eq_some_iff, Prod.mk.injEq] at stepped
            obtain ⟨⟨dev, out⟩, moved, rfl, rfl⟩ := stepped
            exact .kt started (kt_step_moves s.dev dev k env out moved)
          · cases stepped
      | call | ret | signal | timer =>
          simp only [loading, Option.map_eq_some_iff, Prod.mk.injEq] at stepped
          obtain ⟨⟨dev, out⟩, moved, rfl, rfl⟩ := stepped
          cases device_moves s.dev dev _ out moved
          constructor

end Loading

section Counting

variable {ι : Type}

def LoadEvent.isOpened : LoadEvent ι → Bool
  | .opened => true
  | _ => false

def LoadEvent.isClosed : LoadEvent ι → Bool
  | .closed => true
  | _ => false

def LoadEvent.isReset : LoadEvent ι → Bool
  | .reset => true
  | _ => false

def openings (log : List (LoadEvent ι)) : Int := log.countP LoadEvent.isOpened - log.countP LoadEvent.isClosed

def beforeReset (log : List (LoadEvent ι)) : List (LoadEvent ι) := log.takeWhile fun event => !event.isReset

theorem openings_append (log out : List (LoadEvent ι)) : openings (log ++ out) = openings log + openings out := by
  simp only [openings, List.countP_append]
  omega

theorem openings_dev (out : List (Event ι)) : openings (out.map LoadEvent.dev) = 0 := by
  simp [openings, LoadEvent.isOpened, LoadEvent.isClosed, Function.comp_def]

theorem reset_dev (out : List (Event ι)) : (out.map LoadEvent.dev).any LoadEvent.isReset = false := by
  simp [LoadEvent.isReset]

theorem before_reset_append (log out : List (LoadEvent ι)) (reset : log.any LoadEvent.isReset = true) :
    beforeReset (log ++ out) = beforeReset log := by
  induction log with
  | nil => cases reset
  | cons event rest ih =>
      cases here : event.isReset with
      | true => simp [beforeReset, here]
      | false =>
          have later : rest.any LoadEvent.isReset = true := by simpa [here] using reset
          have same := ih later
          simp only [beforeReset] at same ⊢
          simp [here, same]

theorem before_reset_end (log : List (LoadEvent ι)) (none : log.any LoadEvent.isReset = false) :
    beforeReset (log ++ [LoadEvent.reset]) = log := by
  have all : ∀ event ∈ log, (!event.isReset) = true := by simpa using none
  rw [beforeReset, List.takeWhile_append_of_pos all]
  simp [LoadEvent.isReset]

structure Balance (log : List (LoadEvent ι)) (s : Load ι) : Prop where
  reset : log.any LoadEvent.isReset = decide (s.init = .returned)
  run : s.dev.devRun = openings log - if s.init = .returned then openings (beforeReset log) else 0

theorem balance_keep (log out : List (LoadEvent ι)) (s next : Load ι) (inv : Balance log s)
    (init : next.init = .returned ↔ s.init = .returned) (quiet : out.any LoadEvent.isReset = false)
    (run : next.dev.devRun = s.dev.devRun + openings out) : Balance (log ++ out) next := by
  constructor
  · rw [List.any_append, inv.reset, quiet, Bool.or_false]
    exact decide_eq_decide.mpr init.symm
  · rw [run, inv.run, openings_append]
    by_cases finished : s.init = .returned
    · have done : log.any LoadEvent.isReset = true := by rw [inv.reset, finished]; rfl
      rw [before_reset_append log out done, if_pos finished, if_pos (init.mpr finished)]
      omega
    · rw [if_neg finished, if_neg (fun later => finished (init.mp later))]
      omega

theorem balance_init (log out : List (LoadEvent ι)) (s next : Load ι) (inv : Balance log s) (move : InitMove s next out) :
    Balance (log ++ out) next := by
  cases move with
  | mutex point | queue point | stat point =>
      exact balance_keep log [] s _ inv (by simp [point]) rfl (by simp [openings, Dev.setMutex])
  | waits before later after | thread before later after =>
      exact balance_keep log [] s _ inv (by simp [before, after]) rfl (by simp [openings, Dev.initWaitqueueHead])
  | run point =>
      have none : log.any LoadEvent.isReset = false := by simp [inv.reset, point]
      constructor
      · simp [LoadEvent.isReset]
      · rw [if_pos rfl, before_reset_end log none, openings_append]
        simp [openings, LoadEvent.isOpened, LoadEvent.isClosed]

end Counting

section Strings

variable {ι : Type} [DecidableEq ι]

theorem load_open_run (s : Dev ι) (init : InitPc) (t : ι) : (loadOpen s init t).devRun = s.devRun + 1 := by
  unfold loadOpen
  split
  · simp only
    split <;> rfl
  · exact my_open_run s

theorem load_open_fifo (s : Dev ι) (init : InitPc) (t : ι) :
    (loadOpen s init t).kbFifo = s.kbFifo ∧ (loadOpen s init t).devStat = s.devStat := by
  unfold loadOpen
  split
  · simp only
    split <;> exact ⟨rfl, rfl⟩
  · simp

theorem load_open_pc (s : Dev ι) (init : InitPc) (t u : ι) : ((loadOpen s init t).tasks u).pc = (s.tasks u).pc ∨
    u = t ∧ (((loadOpen s init t).tasks u).pc = .oops ∨ ((loadOpen s init t).tasks u).pc = .openUnlock) := by
  by_cases here : u = t
  · right
    subst here
    unfold loadOpen
    split
    · refine ⟨rfl, .inl ?_⟩
      simp
    · refine ⟨rfl, .inr ?_⟩
      simp
  · left
    unfold loadOpen
    split
    · simp only [goto_tasks, if_neg here]
      split <;> rfl
    · simp [here]

theorem client_move_run (s next : Dev ι) (t : ι) (env : Env) (out : List (Event ι)) (opening : (s.tasks t).pc ≠ .openRun)
    (closing : (s.tasks t).pc ≠ .closeRun) (move : ClientMove s t env next out) : next.devRun = s.devRun := by
  cases move with
  | opened point => exact absurd point opening
  | closed point => exact absurd point closing
  | _ => rfl

theorem balance_run {log : List (LoadEvent ι)} {s : Load ι} (run : Run (loading ι) Any (loadStart ι) log s) :
    Balance log s := by
  refine Run.invariant Balance ⟨rfl, rfl⟩ ?_ run
  intro log s action next out _ inv _ stepped
  cases load_moves s next action out stepped with
  | init move => exact balance_init log out s next inv move
  | killed => exact balance_keep log [] s _ inv Iff.rfl rfl (by simp [openings, Dev.goto, Dev.put])
  | opened =>
      refine balance_keep log _ s _ inv Iff.rfl rfl ?_
      rw [load_open_run]
      rfl
  | closed => exact balance_keep log _ s _ inv Iff.rfl rfl rfl
  | client opening closing move =>
      refine balance_keep log _ s _ inv Iff.rfl (reset_dev _) ?_
      rw [openings_dev, client_move_run _ _ _ _ _ opening closing move, Int.add_zero]
  | kt _ move =>
      refine balance_keep log _ s _ inv Iff.rfl (reset_dev _) ?_
      rw [openings_dev, kt_move_run _ _ _ _ move, Int.add_zero]
  | call | ret | signal | timer =>
      refine balance_keep log [] s _ inv Iff.rfl rfl ?_
      simp [openings, Dev.goto, Dev.put, signalStep, Dev.wakeUpProcess, Dev.putKt]

def Pc.copying : Pc → Bool
  | .writeCopy _ | .writePush _ => true
  | _ => false

-- Until kb_init the queue is empty as it is, and the limit of zero keeps every
-- my_write out of it.
structure Unset (s : Dev ι) : Prop where
  nodes : s.kbFifo.nodes = []
  limit : s.devStat.dsKbMax = 0
  copying : ∀ t, (s.tasks t).pc.copying = false

omit [DecidableEq ι] in
theorem unset_blocked (s : Dev ι) (unset : Unset s) (queue : WaitQueue) : s.blocked queue = true := by
  cases queue with
  | waitR => exact (kb_isempty_iff _).mpr unset.nodes
  | waitW =>
      rw [blocked_writers_iff, unset.limit]
      exact kb_count_nonneg _

omit [DecidableEq ι] in
theorem unset_local {s : Dev ι} {env : Env} {pc next : Pc} (unset : Unset s) (idle : pc.copying = false)
    (step : LocalPc s env pc next) : next.copying = false := by
  cases step with
  | writePass room =>
      rw [unset_blocked s unset .waitW] at room
      cases room
  | writeCopied => cases idle
  | _ => rfl

theorem unset_goto (s next : Dev ι) (t : ι) (unset : Unset s) (fifo : next.kbFifo = s.kbFifo)
    (stat : next.devStat = s.devStat) (mine : (next.tasks t).pc.copying = false)
    (others : ∀ u, u ≠ t → (next.tasks u).pc = (s.tasks u).pc) : Unset next := by
  refine ⟨by rw [fifo]; exact unset.nodes, by rw [stat]; exact unset.limit, ?_⟩
  intro u
  by_cases here : u = t
  · rw [here]
    exact mine
  · rw [others u here]
    exact unset.copying u

theorem unset_client (s next : Dev ι) (t : ι) (env : Env) (out : List (Event ι)) (unset : Unset s)
    (move : ClientMove s t env next out) : Unset next := by
  have others := fun u => other_client_pc s next t u env out move
  have idle := unset.copying t
  cases move with
  | «local» move =>
      refine unset_goto s _ t unset rfl rfl ?_ others
      simpa using unset_local unset idle (local_move_pc s env _ _ move)
  | @acquire pc free entered =>
      refine unset_goto s _ t unset rfl rfl ?_ others
      unfold Pc.locked at entered
      split at entered <;> cases entered <;> simp [Pc.copying]
  | @release pc left =>
      refine unset_goto s _ t unset rfl rfl ?_ others
      unfold Pc.unlocked at left
      split at left <;> cases left <;> simp [Pc.copying]
  | popped point found =>
      have empty := unset.nodes
      rw [(kb_pop_some _ _ _ found).1] at empty
      cases empty
  | pushed point =>
      rw [point] at idle
      cases idle
  | opened | closed | wakeWriters | wakeReaders =>
      exact unset_goto s _ t unset (by simp [myClose]) (by simp [myClose]) (by simp [Pc.copying]) others

theorem unset_run {log : List (LoadEvent ι)} {s : Load ι} (run : Run (loading ι) Any (loadStart ι) log s) :
    s.init.rank ≤ 1 → Unset s.dev := by
  refine Run.invariant (fun _ s => s.init.rank ≤ 1 → Unset s.dev) (fun _ => ⟨rfl, rfl, fun _ => rfl⟩) ?_ run
  intro _ s action next out _ inv _ stepped first
  cases load_moves s next action out stepped with
  | init move =>
      cases move with
      | mutex point =>
          have unset := inv (by rw [point]; decide)
          exact ⟨unset.nodes, unset.limit, unset.copying⟩
      | waits _ later | thread _ later => exact absurd first (Nat.not_le.mpr later)
      | queue | stat | run => simp [InitPc.rank] at first
  | @killed t env => exact unset_goto s.dev _ t (inv first) rfl rfl (by simp [Pc.copying]) (fun u other => by simp [other])
  | @opened t env point =>
      have frame := load_open_fifo s.dev s.init t
      have unset := inv first
      refine ⟨by rw [frame.1]; exact unset.nodes, by rw [frame.2]; exact unset.limit, ?_⟩
      intro u
      rcases load_open_pc s.dev s.init t u with same | ⟨_, died | done⟩
      · rw [same]
        exact unset.copying u
      · rw [died]
        rfl
      · rw [done]
        rfl
  | @closed t env point =>
      exact unset_goto s.dev _ t (inv first) rfl rfl (by simp [Pc.copying]) (fun u other => by simp [other, myClose])
  | client _ _ move => exact unset_client s.dev _ _ _ _ (inv first) move
  | @kt k env dev out started move =>
      have early : s.init.rank ≤ 1 := first
      cases k <;> simp only [InitPc.started, decide_eq_true_eq] at started <;> omega
  | @call t op =>
      refine unset_goto s.dev _ t (inv first) rfl rfl ?_ (fun u different => by simp [different])
      cases op <;> simp [Op.entry, Pc.copying]
  | @ret t => exact unset_goto s.dev _ t (inv first) rfl rfl (by simp [Pc.copying]) (fun u different => by simp [different])
  | @signal t =>
      refine unset_goto s.dev _ t (inv first) rfl rfl ?_ (fun u different => by simp [signalStep, different])
      simpa [signalStep] using (inv first).copying t
  | timer =>
      have unset := inv first
      exact ⟨unset.nodes, unset.limit, unset.copying⟩

def LoadEvent.pushes : LoadEvent ι → List Bytes
  | .dev event => event.pushes
  | _ => []

def LoadEvent.pops : LoadEvent ι → List Bytes
  | .dev event => event.pops
  | _ => []

def LoadEvent.fifo : LoadEvent ι → List (FifoEvent Bytes)
  | .dev event => event.fifo
  | _ => []

omit [DecidableEq ι] in
theorem load_pushes (event : LoadEvent ι) : event.fifo.flatMap FifoEvent.pushes = event.pushes := by
  cases event with
  | dev event => exact fifo_pushes event
  | _ => rfl

omit [DecidableEq ι] in
theorem load_pops (event : LoadEvent ι) : event.fifo.flatMap FifoEvent.pops = event.pops := by
  cases event with
  | dev event => exact fifo_pops event
  | _ => rfl

omit [DecidableEq ι] in
theorem load_fifo_dev (out : List (Event ι)) : (out.map LoadEvent.dev).flatMap LoadEvent.fifo = out.flatMap Event.fifo := by
  rw [List.flatMap_map]
  rfl

omit [DecidableEq ι] in
theorem init_queue (s next : Load ι) (out : List (LoadEvent ι)) (unset : s.init.rank ≤ 1 → Unset s.dev)
    (move : InitMove s next out) : next.dev.kbFifo.nodes = s.dev.kbFifo.nodes ∧ out.flatMap LoadEvent.fifo = [] := by
  cases move with
  | queue point =>
      have empty := (unset (by rw [point]; decide)).nodes
      exact ⟨empty.symm, rfl⟩
  | _ => exact ⟨rfl, rfl⟩

theorem loading_refines_fifo {log : List (LoadEvent ι)} {s : Load ι} (run : Run (loading ι) Any (loadStart ι) log s) :
    Run (fifo Bytes) Any [] (log.flatMap LoadEvent.fifo) s.dev.kbFifo.nodes := by
  refine run.project (fun s => s.dev.kbFifo.nodes) LoadEvent.fifo ?_
  intro _ s action next out before _ stepped
  cases load_moves s next action out stepped with
  | init move => exact .inl (init_queue s next out (unset_run before) move)
  | opened => exact .inl ⟨by rw [(load_open_fifo _ _ _).1], rfl⟩
  | killed | closed | call | ret | signal | timer => exact .inl ⟨rfl, rfl⟩
  | client _ _ move =>
      rw [load_fifo_dev]
      rcases move_refines_fifo s.dev _ _ _ (.client move) with quiet | ⟨queueMove, moved⟩
      · exact .inl quiet
      · exact .inr ⟨queueMove, trivial, moved⟩
  | kt _ move =>
      rw [load_fifo_dev]
      cases move <;> exact .inl ⟨rfl, rfl⟩

theorem loading_fifo_law {log : List (LoadEvent ι)} {s : Load ι} (run : Run (loading ι) Any (loadStart ι) log s) :
    log.flatMap LoadEvent.pushes = log.flatMap LoadEvent.pops ++ s.dev.kbFifo.nodes := by
  have law := fifo_law (loading_refines_fifo run)
  simpa only [List.flatMap_assoc, load_pushes, load_pops] using law

def LoadEvent.stored (t : ι) : LoadEvent ι → Bool
  | .dev (.pushed u _) => u = t
  | _ => false

def LoadEvent.wrote (t : ι) : LoadEvent ι → Bool
  | .dev (.writeDone u res) => u = t && res = 0
  | _ => false

def LoadEvent.pushesOf (t : ι) : LoadEvent ι → List Bytes
  | .dev (.pushed u data) => if u = t then [data] else []
  | _ => []

-- The strings of a client's my_writes that have returned 0, and the one it has
-- pushed since its last my_write returned.
structure Receipts where
  acked : List Bytes
  last : Option Bytes

def LoadEvent.settle (t : ι) (receipts : Receipts) : LoadEvent ι → Receipts
  | .dev (.pushed u data) => if u = t then { receipts with last := some data } else receipts
  | .dev (.writeDone u res) =>
      if u = t then ⟨if res = 0 then receipts.acked ++ receipts.last.toList else receipts.acked, none⟩ else receipts
  | _ => receipts

def receipts (t : ι) (log : List (LoadEvent ι)) : Receipts := log.foldl (LoadEvent.settle t) ⟨[], none⟩

def LoadEvent.concerns (t : ι) : LoadEvent ι → Bool
  | .dev (.pushed u _) | .dev (.writeDone u _) => u = t
  | _ => false

theorem settle_silent (t : ι) (out : List (LoadEvent ι)) (silent : ∀ event ∈ out, event.concerns t = false) :
    out.countP (LoadEvent.wrote t) = 0 ∧ out.flatMap (LoadEvent.pushesOf t) = [] ∧
      ∀ before, out.foldl (LoadEvent.settle t) before = before := by
  have each : ∀ event ∈ out, event.wrote t = false ∧ event.pushesOf t = [] ∧ ∀ before, event.settle t before = before := by
    intro event member
    have other := silent event member
    cases event with
    | dev event =>
        cases event with
        | pushed | writeDone =>
            have different := of_decide_eq_false other
            simp [LoadEvent.wrote, LoadEvent.pushesOf, LoadEvent.settle, different]
        | _ => exact ⟨rfl, rfl, fun _ => rfl⟩
    | _ => exact ⟨rfl, rfl, fun _ => rfl⟩
  refine ⟨List.countP_eq_zero.mpr fun event member => by simp [(each event member).1],
    List.flatMap_eq_nil_iff.mpr fun event member => (each event member).2.1, ?_⟩
  clear silent
  induction out with
  | nil => exact fun _ => rfl
  | cons event rest ih =>
      intro before
      rw [List.foldl_cons, (each event (by simp)).2.2]
      exact ih (fun other member => each other (by simp [member])) before

theorem length_pushes_of (t : ι) (log : List (LoadEvent ι)) :
    (log.flatMap (LoadEvent.pushesOf t)).length = log.countP (LoadEvent.stored t) := by
  induction log with
  | nil => rfl
  | cons event rest ih =>
      have here : (event.pushesOf t).length = if event.stored t then 1 else 0 := by
        cases event with
        | dev event =>
            cases event with
            | pushed u data => by_cases same : u = t <;> simp [LoadEvent.pushesOf, LoadEvent.stored, same]
            | _ => rfl
        | _ => rfl
      rw [List.flatMap_cons, List.length_append, List.countP_cons, ih, here, Nat.add_comm]

def Pc.owes : Pc → Bool
  | .writeWake res | .writeUnlock res => res = 0
  | _ => false

inductive Settles (t : ι) (s next : Dev ι) (out : List (LoadEvent ι)) : Prop where
  | quiet (silent : ∀ event ∈ out, event.concerns t = false)
      (owes : (next.tasks t).pc.owes = true → (s.tasks t).pc.owes = true)
  | push {data : Bytes} (emits : out = [.dev (.pushed t data)])
  | ret {res : Int} (point : (s.tasks t).pc = .writeUnlock res) (left : (next.tasks t).pc.owes = false)
      (emits : out = [.dev (.writeDone t res)])

omit [DecidableEq ι] in
theorem local_owes_nothing {s : Dev ι} {env : Env} {pc next : Pc} (step : LocalPc s env pc next) : next.owes = false := by
  cases step <;> rfl

theorem client_settles (s next : Dev ι) (t : ι) (env : Env) (out : List (Event ι)) (move : ClientMove s t env next out) :
    Settles t s next (out.map LoadEvent.dev) := by
  cases move with
  | «local» move =>
      have nothing := local_owes_nothing (local_move_pc s env _ _ move)
      exact .quiet (by simp) (by simp [nothing])
  | acquire _ entered =>
      refine .quiet (by simp) ?_
      unfold Pc.locked at entered
      split at entered <;> cases entered <;> simp [Pc.owes]
  | release left =>
      cases point : (s.tasks t).pc with
      | writeUnlock res =>
          rw [point] at left
          cases left
          exact .ret point (by simp [Pc.owes]) rfl
      | _ =>
          refine .quiet (by simp [doneEvents, LoadEvent.concerns]) ?_
          rw [point] at left
          unfold Pc.unlocked at left
          split at left <;> cases left <;> simp_all [Pc.owes]
  | pushed point => exact .push rfl
  | wakeReaders point => exact .quiet (by simp) (by simp [point, Pc.owes])
  | opened | closed | popped | wakeWriters => exact .quiet (by simp [LoadEvent.concerns]) (by simp [Pc.owes])

theorem client_settles_others (s next : Dev ι) (t u : ι) (env : Env) (out : List (Event ι)) (move : ClientMove s t env next out)
    (other : u ≠ t) : Settles u s next (out.map LoadEvent.dev) := by
  refine .quiet ?_ (by rw [other_client_pc s next t u env out move other]; exact id)
  cases move with
  | release left => cases point : (s.tasks t).pc <;> simp [doneEvents, LoadEvent.concerns, Ne.symm other]
  | pushed => simp [LoadEvent.concerns, Ne.symm other]
  | _ => simp [LoadEvent.concerns]

omit [DecidableEq ι] in
theorem init_tasks (s next : Load ι) (out : List (LoadEvent ι)) (move : InitMove s next out) (t : ι) :
    (next.dev.tasks t).pc = (s.dev.tasks t).pc := by
  cases move with
  | waits =>
      simp only [Dev.initWaitqueueHead]
      split <;> rfl
  | _ => rfl

theorem load_settles (s next : Load ι) (action : LoadAction ι) (out : List (LoadEvent ι)) (move : LoadMove s action next out)
    (u : ι) : Settles u s.dev next.dev out := by
  cases move with
  | init move =>
      refine .quiet ?_ (by rw [init_tasks s next out move u]; exact id)
      cases move <;> simp [LoadEvent.concerns]
  | @client t env dev out _ _ move =>
      by_cases here : u = t
      · subst here
        exact client_settles s.dev dev u env out move
      · exact client_settles_others s.dev dev t u env out move here
  | @opened t env point =>
      refine .quiet (by simp [LoadEvent.concerns]) ?_
      rcases load_open_pc s.dev s.init t u with same | ⟨_, died | done⟩
      · simp [same]
      · simp [died, Pc.owes]
      · simp [done, Pc.owes]
  | @killed t env =>
      refine .quiet (by simp) ?_
      by_cases here : u = t <;> simp [here, Pc.owes]
  | @closed t env point =>
      refine .quiet (by simp [LoadEvent.concerns]) ?_
      by_cases here : u = t <;> simp [here, Pc.owes, myClose]
  | @call t op =>
      refine .quiet (by simp) ?_
      by_cases here : u = t
      · cases op <;> simp [here, Op.entry, Pc.owes]
      · simp [here]
  | @ret t =>
      refine .quiet (by simp) ?_
      by_cases here : u = t <;> simp [here, Pc.owes]
  | @signal t =>
      refine .quiet (by simp) ?_
      by_cases here : u = t <;> simp [here, signalStep]
  | timer => exact .quiet (by simp) id
  | kt _ move => exact .quiet (by cases move <;> simp [LoadEvent.concerns]) (by cases move <;> exact id)

structure Receipted (t : ι) (log : List (LoadEvent ι)) (s : Dev ι) : Prop where
  count : (receipts t log).acked.length = log.countP (LoadEvent.wrote t)
  kept : ((receipts t log).acked ++ (receipts t log).last.toList).Sublist (log.flatMap (LoadEvent.pushesOf t))
  owes : (s.tasks t).pc.owes = true → (receipts t log).last.isSome = true

theorem receipted_step (t : ι) (log out : List (LoadEvent ι)) (s next : Dev ι) (inv : Receipted t log s)
    (step : Settles t s next out) : Receipted t (log ++ out) next := by
  obtain ⟨count, kept, owes⟩ := inv
  have acked := (List.sublist_append_left _ _).trans kept
  cases step with
  | quiet silent back =>
      obtain ⟨none, nothing, same⟩ := settle_silent t out silent
      have receipted : receipts t (log ++ out) = receipts t log := by rw [receipts, List.foldl_append, same]; rfl
      refine ⟨?_, ?_, ?_⟩
      · rw [receipted, List.countP_append, none, count]
        rfl
      · rw [receipted, List.flatMap_append, nothing, List.append_nil]
        exact kept
      · rw [receipted]
        exact fun later => owes (back later)
  | @push data emits =>
      subst emits
      have receipted : receipts t (log ++ [.dev (.pushed t data)]) = ⟨(receipts t log).acked, some data⟩ := by
        simp [receipts, LoadEvent.settle]
      refine ⟨?_, ?_, ?_⟩
      · simp [receipted, count, LoadEvent.wrote]
      · simpa [receipted, LoadEvent.pushesOf] using acked.append (List.Sublist.refl [data])
      · simp [receipted]
  | @ret res point left emits =>
      subst emits
      have receipted : receipts t (log ++ [.dev (.writeDone t res)]) =
          ⟨if res = 0 then (receipts t log).acked ++ (receipts t log).last.toList else (receipts t log).acked, none⟩ := by
        simp [receipts, LoadEvent.settle]
      refine ⟨?_, ?_, by simp [left]⟩
      · rw [receipted]
        by_cases success : res = 0
        · obtain ⟨data, held⟩ := Option.isSome_iff_exists.mp (owes (by simp [point, Pc.owes, success]))
          simp [success, held, count, LoadEvent.wrote]
        · simp [success, count, LoadEvent.wrote]
      · rw [receipted]
        by_cases success : res = 0
        · simpa [success, LoadEvent.pushesOf] using kept
        · simpa [success, LoadEvent.pushesOf] using acked

theorem receipted_run {log : List (LoadEvent ι)} {s : Load ι} (run : Run (loading ι) Any (loadStart ι) log s) (t : ι) :
    Receipted t log s.dev := by
  refine Run.invariant (fun log s => Receipted t log s.dev) ⟨rfl, List.Sublist.refl _, by simp [loadStart, Pc.owes]⟩ ?_ run
  intro log s action next out _ inv _ stepped
  exact receipted_step t log out s.dev next.dev inv (load_settles s next action out (load_moves s next action out stepped) t)

theorem loaded_agrees_iff {log : List (LoadEvent ι)} {s : Load ι} (run : Run (loading ι) Any (loadStart ι) log s)
    (finished : s.init = .returned) :
    (s.dev.devRun = openings log ↔ openings (beforeReset log) = 0) ∧
      log.flatMap LoadEvent.pushes = log.flatMap LoadEvent.pops ++ s.dev.kbFifo.nodes ∧
      ∀ t, log.countP (LoadEvent.wrote t) ≤ log.countP (LoadEvent.stored t) ∧
        (receipts t log).acked.length = log.countP (LoadEvent.wrote t) ∧
        (receipts t log).acked.Sublist (log.flatMap (LoadEvent.pushesOf t)) := by
  refine ⟨?_, loading_fifo_law run, ?_⟩
  · have balance := (balance_run run).run
    rw [if_pos finished] at balance
    omega
  · intro t
    obtain ⟨count, kept, _⟩ := receipted_run run t
    have acked := (List.sublist_append_left _ _).trans kept
    refine ⟨?_, count, acked⟩
    rw [← count, ← length_pushes_of]
    exact acked.length_le

end Strings

theorem loaded_agrees_iff_balanced : ∃ log s, Run (loading Bool) Any (loadStart Bool) log s ∧ s.init = .returned ∧
    log.countP LoadEvent.isOpened = 1 ∧ s.dev.kbFifo.nodes = [[97]] ∧ s.dev.devRun = openings log ∧
      log.flatMap LoadEvent.pushes = log.flatMap LoadEvent.pops ++ s.dev.kbFifo.nodes ∧ (receipts false log).acked = [[97]] ∧
      (receipts false log).acked.length = log.countP (LoadEvent.wrote false) ∧
      (receipts false log).acked.Sublist (log.flatMap (LoadEvent.pushesOf false)) := by
  obtain ⟨log, s, run, seen⟩ := exec_reaches_any (loading Bool) (loadStart Bool)
    (List.replicate 6 (LoadAction.init true) ++
      List.map LoadAction.dev
        ([Action.call true .myOpen] ++ alone true 3 ++ [Action.ret true, Action.call true .myClose] ++ alone true 3 ++ [Action.ret true]) ++
      List.replicate 2 (LoadAction.init true) ++
      List.map LoadAction.dev
        ([Action.call false (.myWrite [97, 0])] ++ alone false 7))
    (fun s log => s.init = .returned ∧ log.countP LoadEvent.isOpened = 1 ∧ s.dev.kbFifo.nodes = [[97]] ∧
      openings (beforeReset log) = 0 ∧ (receipts false log).acked = [[97]]) (by decide +kernel)
  obtain ⟨finished, opened, nodes, balanced, acked⟩ : s.init = .returned ∧ log.countP LoadEvent.isOpened = 1 ∧
      s.dev.kbFifo.nodes = [[97]] ∧ openings (beforeReset log) = 0 ∧ (receipts false log).acked = [[97]] := by simpa using seen
  obtain ⟨counted, law, writes⟩ := loaded_agrees_iff run finished
  exact ⟨log, s, run, finished, opened, nodes, counted.mpr balanced, law, acked, (writes false).2⟩

-- A client opens the device after both threads are started and before the
-- last statement: dev_run is zero with the device open.
theorem loaded_device_open_unseen : ∃ log s, Run (loading Bool) Any (loadStart Bool) log s ∧ s.init = .returned ∧
    (s.dev.tasks true).pc = .ret 0 [] ∧ openings log = 1 ∧ s.dev.devRun = 0 := by
  obtain ⟨log, s, run, seen⟩ := exec_reaches_any (loading Bool) (loadStart Bool)
    (List.replicate 6 (LoadAction.init true) ++ [LoadAction.dev (.call true .myOpen)] ++ (alone true 3).map LoadAction.dev ++ List.replicate 2 (LoadAction.init true))
    (fun s log => s.init = .returned ∧ (s.dev.tasks true).pc = .ret 0 [] ∧ openings log = 1 ∧ s.dev.devRun = 0)
    (by decide +kernel)
  exact ⟨log, s, run, by simpa using seen⟩

end MyDev
