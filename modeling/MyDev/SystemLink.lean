import MyDev.DeviceLock
import MyDev.PipelineWork
import MyDev.System

set_option autoImplicit false

namespace MyDev

open Library

def MainPc.waiting : MainPc → Option Op
  | .inOpen => some .myOpen
  | .inDone _ => some (.myWrite (terminatorText ++ [0]))
  | .inClose => some .myClose
  | _ => none

def SourcePc.waiting : SourcePc → Option Op
  | .inRead => some (.myRead readByte)
  | _ => none

def Pipe.waiting (s : Pipe) : Tid → Option Op
  | .main => s.main.waiting
  | .source i => (s.sources i).waiting
  | .elaborate _ => none
  | .sink i => (s.sinks i).sending.map fun item => .myWrite (item.data ++ [0])

inductive Waits (s : Pipe) : Tid → Op → Prop where
  | openDev (point : s.main = .inOpen) : Waits s .main .myOpen
  | done {i : Nat} (point : s.main = .inDone i) : Waits s .main (.myWrite (terminatorText ++ [0]))
  | closeDev (point : s.main = .inClose) : Waits s .main .myClose
  | read {i : Nat} (point : s.sources i = .inRead) : Waits s (.source i) (.myRead readByte)
  | write {i failures : Nat} {item : Item} (point : s.sinks i = .inWrite item failures) :
      Waits s (.sink i) (.myWrite (item.data ++ [0]))

theorem waits_cases (s : Pipe) (t : Tid) (op : Op) (waits : s.waiting t = some op) : Waits s t op := by
  cases t with
  | main =>
      simp only [Pipe.waiting] at waits
      cases point : s.main <;> rw [point] at waits <;> cases waits
      · exact .openDev point
      · exact .done point
      · exact .closeDev point
  | source i =>
      simp only [Pipe.waiting] at waits
      cases point : s.sources i <;> rw [point] at waits <;> cases waits
      exact .read point
  | elaborate => cases waits
  | sink i =>
      simp only [Pipe.waiting] at waits
      cases point : s.sinks i <;> rw [point] at waits <;> cases waits
      exact .write point

def Pc.Serves : Pc → Op → Prop
  | .openLock, .myOpen | .openRun, .myOpen | .openUnlock, .myOpen => True
  | .closeLock, .myClose | .closeRun, .myClose | .closeUnlock, .myClose => True
  | .readLock dim, .myRead asked | .readAlloc dim, .myRead asked | .readWait dim _ _, .myRead asked => dim = asked
  | .readPop dim _, .myRead asked | .readCopy dim _ _, .myRead asked => dim = asked
  | .readWake _ _, .myRead _ | .readUnlock _ _ _, .myRead _ => True
  | .writeLock buf, .myWrite given | .writeAlloc buf, .myWrite given | .writeWait buf _, .myWrite given => buf = given
  | .writeCopy buf, .myWrite given | .writePush buf, .myWrite given => buf = given
  | .writeWake _, .myWrite _ | .writeUnlock _, .myWrite _ | .oops, .myWrite _ => True
  | .ret _ _, _ => True
  | _, _ => False

-- What is true of a task while its thread is in a call; outside of calls the
-- task is in user mode.
def Linked (good : Op → Pc → Prop) : Option Op → Pc → Prop
  | none, pc => pc = .user
  | some op, pc => good op pc

theorem entry_serves (op : Op) : op.entry.Serves op := by
  cases op <;> simp [Op.entry, Pc.Serves]

theorem locked_serves (pc next : Pc) (op : Op) (entered : pc.locked = some next) (serves : pc.Serves op) : next.Serves op := by
  unfold Pc.locked at entered
  split at entered <;> cases entered <;> cases op <;> exact serves

theorem unlocked_serves (pc next : Pc) (op : Op) (left : pc.unlocked = some next) (serves : pc.Serves op) : next.Serves op := by
  unfold Pc.unlocked at left
  split at left <;> cases left <;> cases op <;> trivial

section Moves

variable {ι : Type}

theorem local_serves {s : Dev ι} {env : Env} {pc next : Pc} {op : Op} (step : LocalPc s env pc next)
    (serves : pc.Serves op) : next.Serves op := by
  cases step <;> cases op <;> first | exact serves | trivial

variable [DecidableEq ι]

theorem client_serves (s next : Dev ι) (t : ι) (env : Env) (out : List (Event ι)) (op : Op)
    (move : ClientMove s t env next out) (serves : (s.tasks t).pc.Serves op) : (next.tasks t).pc.Serves op := by
  cases move with
  | «local» move => simpa using local_serves (local_move_pc s env _ _ move) serves
  | acquire _ entered => simpa using locked_serves _ _ op entered serves
  | release left => simpa using unlocked_serves _ _ op left serves
  | opened point | closed point | popped point | pushed point | wakeWriters point | wakeReaders point =>
      rw [point] at serves
      simp only [goto_tasks, if_true]
      cases op <;> first | exact serves | trivial

theorem client_not_user (s next : Dev ι) (t : ι) (env : Env) (out : List (Event ι)) (move : ClientMove s t env next out) :
    (s.tasks t).pc ≠ .user := by
  intro idle
  cases move with
  | «local» move => cases move <;> simp_all [Pc.waiting]
  | acquire _ entered => simp [idle, Pc.locked] at entered
  | release left => simp [idle, Pc.unlocked] at left
  | _ => simp_all

end Moves

structure SameCalls (s next : Pipe) : Prop where
  main : next.main.waiting = s.main.waiting
  sources : ∀ i, (next.sources i).waiting = (s.sources i).waiting
  sinks : ∀ i, (next.sinks i).sending = (s.sinks i).sending

theorem same_calls_waiting (s next : Pipe) (same : SameCalls s next) (t : Tid) : next.waiting t = s.waiting t := by
  cases t with
  | main => exact same.main
  | source i => exact same.sources i
  | elaborate => rfl
  | sink i => exact congrArg (Option.map _) (same.sinks i)

theorem same_calls_sending (s next : Pipe) (same : SameCalls s next) (t : Tid) : next.sending t = s.sending t := by
  cases t with
  | sink i => exact same.sinks i
  | _ => rfl

theorem source_same_calls (prog : Prog) (s next : Pipe) (j : Nat) (out : List UserEvent) (move : SourceMove prog s j next out) :
    SameCalls s next := by
  have frame := source_frame prog s next j out move
  refine ⟨by rw [frame.main], ?_, by rw [frame.sinks]; exact fun _ => rfl⟩
  intro i
  cases move with
  | acquire point | spent point | ask _ point | release point =>
      exact update_job SourcePc.waiting s.sources i j _ (congrArg SourcePc.waiting point).symm
  | create _ point _ signalled | failed _ point _ signalled | last _ point _ _ signalled | receive _ point _ _ signalled =>
      obtain ⟨_, rfl, _⟩ := signal_r_spec _ _ _ signalled
      exact update_job SourcePc.waiting s.sources i j _ (congrArg SourcePc.waiting point).symm
  | @rest stop point =>
      refine update_job SourcePc.waiting s.sources i j _ ?_
      rw [point]
      cases stop <;> rfl

theorem sink_same_calls (prog : Prog) (s next : Pipe) (j : Nat) (out : List UserEvent) (move : SinkMove prog s j next out) :
    SameCalls s next := by
  have frame := sink_frame prog s next j out move
  refine ⟨by rw [frame.main], by rw [frame.sources]; exact fun _ => rfl, ?_⟩
  intro i
  cases move with
  | acquire point | stop point | wait point | take point | giveUp _ point | settle _ point | print _ point | release point =>
      exact update_job SinkPc.sending s.sinks i j _ (congrArg SinkPc.sending point).symm
  | @rest stop point =>
      refine update_job SinkPc.sending s.sinks i j _ ?_
      rw [point]
      cases stop <;> rfl

theorem main_same_calls (prog : Prog) (s next : Pipe) (out : List UserEvent) (join : JoinInv s)
    (move : MainMove prog s next out) : SameCalls s next := by
  have jobs := (main_jobs prog s next out join move).2.1
  have sinks : ∀ i, (next.sinks i).sending = (s.sinks i).sending := fun i =>
    sink_of_job SinkPc.sending none (by intro pc jobless; cases pc <;> first | rfl | cases jobless) _ _ (jobs i)
  cases move with
  | boot point | ready point | counts point | init point | join point | doneOver point | doneCheck point =>
      exact ⟨(congrArg MainPc.waiting point).symm, fun _ => rfl, sinks⟩
  | @create stage j point =>
      refine ⟨(congrArg MainPc.waiting point).symm, fun i => ?_, sinks⟩
      cases stage with
      | source =>
          have unborn : s.life j .source = .off := unborn_off s .source j join point
          refine update_job SourcePc.waiting s.sources i j .lock ?_
          simp only [Pipe.life] at unborn
          cases pc : s.sources j <;> simp_all [SourcePc.life, SourcePc.waiting]
      | elaborate | sink => rfl
  | @spawned stage _ point => exact ⟨by cases stage <;> exact (congrArg MainPc.waiting point).symm, fun _ => rfl, sinks⟩
  | @joined stage _ point =>
      exact ⟨by cases stage <;> cases prog <;> exact (congrArg MainPc.waiting point).symm, fun _ => rfl, sinks⟩
  | relAcquire point free =>
      rcases lock_main_spec _ _ _ _ free with rfl | rfl <;>
        exact ⟨(congrArg MainPc.waiting point).symm, fun _ => rfl, sinks⟩
  | @relSet buf point => exact ⟨(congrArg MainPc.waiting point).symm, fun _ => by cases buf <;> rfl, sinks⟩
  | @relUnlock buf point => cases buf <;> exact ⟨(congrArg MainPc.waiting point).symm, fun _ => rfl, sinks⟩

theorem internal_same_calls (prog : Prog) (s next : Pipe) (action : UserAction) (out : List UserEvent) (join : JoinInv s)
    (inside : action.internal = true) (move : PipeMove prog s action next out) : SameCalls s next := by
  cases move with
  | source move => exact source_same_calls prog s next _ out move
  | elaborate move =>
      have frame := elaborate_frame prog.change s next _ out move
      exact ⟨by rw [frame.main], by rw [frame.sources]; exact fun _ => rfl,
        fun i => roused_same SinkPc.sending _ _ _ _ (frame.roused i) rfl⟩
  | sink move => exact sink_same_calls prog s next _ out move
  | main move => exact main_same_calls prog s next out join move
  | hand move =>
      have frame := hand_frame s next _ move
      exact ⟨by rw [frame.main], by rw [frame.sources]; exact fun _ => rfl, by rw [frame.sinks]; exact fun _ => rfl⟩
  | call | ret => cases inside
  | spuriousR | sigint => exact ⟨rfl, fun _ => rfl, fun _ => rfl⟩
  | @spuriousE j point =>
      exact ⟨rfl, fun _ => rfl, fun i => update_job SinkPc.sending s.sinks i j _ (congrArg SinkPc.sending point).symm⟩

theorem call_waits (prog : Prog) (s next : Pipe) (t : Tid) (op : Op) (move : CallMove prog s t op next) :
    s.waiting t = none ∧ next.waiting t = some op := by
  cases move with
  | openDev point | done point | closeDev point => exact ⟨by simp [Pipe.waiting, point, MainPc.waiting], rfl⟩
  | read _ point => exact ⟨by simp [Pipe.waiting, point, SourcePc.waiting], by simp [Pipe.waiting, Pipe.setSource, SourcePc.waiting]⟩
  | write _ point => exact ⟨by simp [Pipe.waiting, point, SinkPc.sending], by simp [Pipe.waiting, Pipe.setSink, SinkPc.sending]⟩

theorem ret_waits (s next : Pipe) (t : Tid) (res : Int) (got : Bytes) (out : List UserEvent) (move : RetMove s res got t next out) :
    (∃ op, s.waiting t = some op) ∧ next.waiting t = none := by
  cases move with
  | openDev point | done point =>
      refine ⟨⟨_, by simp only [Pipe.waiting, point]; rfl⟩, ?_⟩
      simp only [Pipe.waiting, Pipe.setMain]
      split <;> rfl
  | closeDev point => exact ⟨⟨_, by simp only [Pipe.waiting, point]; rfl⟩, rfl⟩
  | read point => exact ⟨⟨_, by simp only [Pipe.waiting, point]; rfl⟩, by simp [Pipe.waiting, Pipe.setSource, SourcePc.waiting]⟩
  | written point | refused point =>
      exact ⟨⟨_, by simp only [Pipe.waiting, point]; rfl⟩, by simp [Pipe.waiting, Pipe.setSink, SinkPc.sending]⟩

structure OnlyCalls (s next : Pipe) (t : Tid) : Prop where
  waiting : ∀ u, u ≠ t → next.waiting u = s.waiting u
  sending : ∀ u, u ≠ t → next.sending u = s.sending u
  sources : ∀ i, .source i ≠ t → next.sources i = s.sources i

theorem only_calls_main (s : Pipe) (pc : MainPc) : OnlyCalls s (s.setMain pc) .main := by
  refine ⟨?_, ?_, fun _ _ => rfl⟩ <;> intro u other <;> cases u <;> first | rfl | exact absurd rfl other

theorem only_calls_source (s : Pipe) (i : Nat) (pc : SourcePc) : OnlyCalls s (s.setSource i pc) (.source i) := by
  have elsewhere : ∀ j, Tid.source j ≠ .source i → (s.setSource i pc).sources j = s.sources j := by
    intro j other
    have different : j ≠ i := fun same => other (by rw [same])
    simp [Pipe.setSource, different]
  refine ⟨?_, fun u _ => by cases u <;> rfl, elsewhere⟩
  intro u other
  cases u with
  | source j => exact congrArg SourcePc.waiting (elsewhere j other)
  | _ => rfl

theorem only_calls_sink (s : Pipe) (i : Nat) (pc : SinkPc) : OnlyCalls s (s.setSink i pc) (.sink i) := by
  refine ⟨?_, ?_, fun _ _ => rfl⟩ <;> intro u other <;> cases u with
  | sink j =>
      have different : j ≠ i := fun same => other (by rw [same])
      simp [Pipe.waiting, Pipe.sending, Pipe.setSink, different]
  | _ => rfl

theorem call_only (prog : Prog) (s next : Pipe) (t : Tid) (op : Op) (move : CallMove prog s t op next) : OnlyCalls s next t := by
  cases move with
  | openDev | done | closeDev => exact only_calls_main s _
  | read => exact only_calls_source s _ _
  | write => exact only_calls_sink s _ _

theorem ret_only (s next : Pipe) (t : Tid) (res : Int) (got : Bytes) (out : List UserEvent) (move : RetMove s res got t next out) :
    OnlyCalls s next t := by
  cases move with
  | openDev | done | closeDev => exact only_calls_main s _
  | read => exact only_calls_source s _ _
  | written | refused => exact only_calls_sink s _ _

structure Roles (prog : Prog) (s : Pipe) : Prop where
  writes : ∀ t buf, s.waiting t = some (.myWrite buf) → prog = .writer
  reads : ∀ t dim, s.waiting t = some (.myRead dim) → prog = .reader
  done : ∀ i, s.main = .done i → prog = .writer

theorem main_to_done (prog : Prog) (s next : Pipe) (i : Nat) (out : List UserEvent) (move : MainMove prog s next out)
    (reached : next.main = .done i) : prog = .writer := by
  cases move with
  | @joined stage => cases stage <;> cases prog <;> simp [Pipe.setMain, Stage.joined] at reached ⊢
  | @spawned stage => cases stage <;> simp [Pipe.setMain, Stage.spawned] at reached
  | @relUnlock buf => cases buf <;> simp [Pipe.setMain, Buf.released] at reached
  | _ => simp [Pipe.setMain] at reached

theorem internal_to_done (prog : Prog) (s next : Pipe) (action : UserAction) (i : Nat) (out : List UserEvent)
    (inside : action.internal = true) (roles : Roles prog s) (move : PipeMove prog s action next out)
    (reached : next.main = .done i) : prog = .writer := by
  cases move with
  | source move => exact roles.done i ((source_frame prog s next _ out move).main ▸ reached)
  | elaborate move => exact roles.done i ((elaborate_frame prog.change s next _ out move).main ▸ reached)
  | sink move => exact roles.done i ((sink_frame prog s next _ out move).main ▸ reached)
  | main move => exact main_to_done prog s next i out move reached
  | hand move => exact roles.done i ((hand_frame s next _ move).main ▸ reached)
  | call | ret => cases inside
  | spuriousR | spuriousE | sigint => exact roles.done i reached

theorem roles_call (prog : Prog) (s next : Pipe) (t : Tid) (op : Op) (roles : Roles prog s) (move : CallMove prog s t op next) :
    Roles prog next := by
  have only := call_only prog s next t op move
  have waits := (call_waits prog s next t op move).2
  refine ⟨fun u buf waiting => ?_, fun u dim waiting => ?_, fun i reached => ?_⟩
  · by_cases here : u = t
    · subst here
      rw [waits] at waiting
      cases move with
      | done point => exact roles.done _ point
      | write role => exact role
      | _ => cases waiting
    · exact roles.writes u buf (only.waiting u here ▸ waiting)
  · by_cases here : u = t
    · subst here
      rw [waits] at waiting
      cases move with
      | read role => exact role
      | _ => cases waiting
    · exact roles.reads u dim (only.waiting u here ▸ waiting)
  · cases move with
    | openDev | done | closeDev => simp [Pipe.setMain] at reached
    | read | write => exact roles.done i reached

theorem roles_ret (prog : Prog) (s next : Pipe) (t : Tid) (res : Int) (got : Bytes) (out : List UserEvent) (roles : Roles prog s)
    (move : RetMove s res got t next out) : Roles prog next := by
  have only := ret_only s next t res got out move
  have left := (ret_waits s next t res got out move).2
  have elsewhere : ∀ u op, next.waiting u = some op → s.waiting u = some op := by
    intro u op waiting
    by_cases here : u = t
    · subst here
      rw [left] at waiting
      cases waiting
    · rwa [only.waiting u here] at waiting
  refine ⟨fun u buf waiting => roles.writes u buf (elsewhere u _ waiting),
    fun u dim waiting => roles.reads u dim (elsewhere u _ waiting), fun i reached => ?_⟩
  cases move with
  | done point => exact roles.writes .main _ (by simp only [Pipe.waiting, point]; rfl)
  | openDev => simp only [Pipe.setMain] at reached; split at reached <;> cases reached
  | closeDev => simp [Pipe.setMain] at reached
  | read | written | refused => exact roles.done i reached

theorem roles_run {prog : Prog} {ok : Pipe → UserAction → Prop} {arg : Int} {events : List UserEvent} {s : Pipe}
    (run : Run (pipeline prog) ok (programStart arg) events s) : Roles prog s := by
  refine Run.invariant (fun _ s => Roles prog s) ?_ ?_ run
  · refine ⟨fun t _ waiting => ?_, fun t _ waiting => ?_, fun i reached => ?_⟩
    · cases t <;> cases waiting
    · cases t <;> cases waiting
    · cases reached
  intro _ s action next out before roles _ stepped
  have move := pipe_moves prog s next action out stepped
  by_cases inside : action.internal = true
  · have same := internal_same_calls prog s next action out (join_inv_run before) inside move
    refine ⟨fun t buf => ?_, fun t dim => ?_, fun i => internal_to_done prog s next action i out inside roles move⟩
    · rw [same_calls_waiting s next same]
      exact roles.writes t buf
    · rw [same_calls_waiting s next same]
      exact roles.reads t dim
  · cases move with
    | call move => exact roles_call prog s next _ _ roles move
    | ret move => exact roles_ret prog s next _ _ _ out roles move
    | _ => exact absurd rfl inside

section Link

variable {π κ : Type} [DecidableEq π] [DecidableEq κ]

def CallInv (good : Op → Pc → Prop) (s : Sys π κ) : Prop :=
  ∀ p t, Linked good ((s.pipes p).waiting t) (s.dev.tasks (.inl (p, t))).pc

abbrev LinkInv (s : Sys π κ) : Prop := CallInv (fun op pc => pc.Serves op) s

theorem unattended_move (s next : Dev (Client π κ)) (action : Action (Client π κ)) (out : List (Event (Client π κ))) (p : π) (t : Tid)
    (free : action.unattended = true) (move : DevMove s action next out) :
    (∃ env, action = .go (.inl (p, t)) env ∧ ClientMove s (.inl (p, t)) env next out) ∨
      action.client ≠ some (.inl (p, t)) ∧ (next.tasks (.inl (p, t))).pc = (s.tasks (.inl (p, t))).pc := by
  cases task_move s next (.inl (p, t)) action out move with
  | call | ret => cases free
  | go own => exact .inl ⟨_, rfl, own⟩
  | other other same => exact .inr ⟨other, same⟩

theorem call_inv_dev (good : Op → Pc → Prop) (s : Sys π κ) (dev : Dev (Client π κ)) (action : Action (Client π κ))
    (out : List (Event (Client π κ)))
    (steps : ∀ client env op, action = .go client env → ClientMove s.dev client env dev out →
      good op (s.dev.tasks client).pc → good op (dev.tasks client).pc)
    (inv : CallInv good s) (free : action.unattended = true) (move : DevMove s.dev action dev out) :
    CallInv good (s.setDev dev) := by
  intro p t
  have before := inv p t
  rcases unattended_move _ _ action out p t free move with ⟨env, going, own⟩ | ⟨_, same⟩
  · cases waits : (s.pipes p).waiting t with
    | none =>
        rw [waits] at before
        exact (client_not_user _ _ _ env out own before).elim
    | some op =>
        rw [waits] at before
        change Linked good ((s.pipes p).waiting t) _
        rw [waits]
        exact steps _ env op going own before
  · change Linked good ((s.pipes p).waiting t) (dev.tasks (.inl (p, t))).pc
    rw [same]
    exact before

omit [DecidableEq π] [DecidableEq κ] in
theorem push_waits (s : Sys π κ) (p : π) (t : Tid) (value : Bytes) (link : LinkInv s)
    (point : (s.dev.tasks (.inl (p, t))).pc = .writePush value) : (s.pipes p).waiting t = some (.myWrite value) := by
  have linked := link p t
  rw [point] at linked
  match waits : (s.pipes p).waiting t with
  | none => rw [waits] at linked; cases linked
  | some (.myWrite buf) =>
      rw [waits] at linked
      rw [show value = buf from linked]
  | some .myOpen | some .myClose | some (.myRead _) => rw [waits] at linked; exact linked.elim

omit [DecidableEq π] [DecidableEq κ] in
theorem pop_waits (s : Sys π κ) (p : π) (t : Tid) (dim : Nat) (value : Bytes) (link : LinkInv s)
    (point : (s.dev.tasks (.inl (p, t))).pc = .readPop dim value) : (s.pipes p).waiting t = some (.myRead dim) := by
  have linked := link p t
  rw [point] at linked
  match waits : (s.pipes p).waiting t with
  | none => rw [waits] at linked; cases linked
  | some (.myRead asked) =>
      rw [waits] at linked
      rw [show dim = asked from linked]
  | some .myOpen | some .myClose | some (.myWrite _) => rw [waits] at linked; exact linked.elim

variable {config : Config π} {ok : Sys π κ → SysAction π κ → Prop} {events : List (SysEvent π κ)} {s : Sys π κ}

-- The rule for what holds while a call is served: it holds on entry and each
-- statement of the task keeps it.
theorem call_inv_run (good : Op → Pc → Prop) (starts : ∀ op, good op op.entry)
    (steps : ∀ (s : Sys π κ) client env dev out op, ok s (.dev (.go client env)) → ClientMove s.dev client env dev out →
      good op (s.dev.tasks client).pc → good op (dev.tasks client).pc)
    (run : Run (system config) ok (systemStart config) events s) : CallInv good s := by
  refine Run.invariant (fun _ s => CallInv good s) ?_ ?_ run
  · intro p t
    cases t <;> rfl
  intro _ s action next out before inv allowed stepped
  cases system_moves config s next action out stepped with
  | @user q action pipe _ inside moved =>
      intro p t
      have joins := join_inv_run (system_pipe_any q before)
      have same := internal_same_calls _ _ pipe action _ joins inside (pipe_moves _ _ _ _ _ moved)
      by_cases mine : p = q
      · subst mine
        simpa [Sys.setPipe, same_calls_waiting _ _ same t] using inv p t
      · simpa [Sys.setPipe, mine] using inv p t
  | @call q u op pipe _ asked idle =>
      intro p t
      have move := request_moves _ _ _ _ _ asked
      by_cases mine : p = q
      · subst mine
        by_cases here : t = u
        · subst here
          simpa [Sys.setPipe, Sys.setDev, (call_waits _ _ _ _ _ move).2, Linked] using starts op
        · simpa [Sys.setPipe, Sys.setDev, (call_only _ _ _ _ _ move).waiting t here, here] using inv p t
      · simpa [Sys.setPipe, Sys.setDev, mine] using inv p t
  | @ret q u res got pipe _ point returned =>
      intro p t
      have move := ret_moves _ _ _ _ _ _ returned
      by_cases mine : p = q
      · subst mine
        by_cases here : t = u
        · subst here
          simp [Sys.setPipe, Sys.setDev, (ret_waits _ _ _ _ _ _ move).2, Linked]
        · simpa [Sys.setPipe, Sys.setDev, (ret_only _ _ _ _ _ _ move).waiting t here, here] using inv p t
      · simpa [Sys.setPipe, Sys.setDev, mine] using inv p t
  | dev free moved =>
      refine call_inv_dev good s _ _ _ ?_ inv free (device_moves _ _ _ _ moved)
      rintro client env op rfl
      exact steps s client env _ _ op allowed

theorem link_run (run : Run (system config) ok (systemStart config) events s) : LinkInv s :=
  call_inv_run _ entry_serves (fun _ _ env _ out op _ move => client_serves _ _ _ env out op move) run

end Link

end MyDev
