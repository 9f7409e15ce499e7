import MyDev.DeviceProgress
import MyDev.PipelineProgress
import MyDev.SystemDone
import MyDev.SystemMany

set_option autoImplicit false

namespace MyDev

open Library

section Progress

variable {π κ : Type} [DecidableEq π] [DecidableEq κ]

-- The steps of the user programs and of their calls. The kernel threads count
-- only as long as they hold dev_mutex: for the rest they run for ever.
def SysAction.ordinary (s : Sys π κ) : SysAction π κ → Bool
  | .user _ action => action.own
  | .call _ _ | .ret _ _ => true
  | .dev (.go _ env) => env.ok
  | .dev (.kt k env) => env.ok && s.dev.devMutex = some (.kt k)
  | .dev _ => false

def SysCanStep (config : Config π) (s : Sys π κ) : Prop :=
  ∃ action next out, action.ordinary s = true ∧ (system config).step s action = some (next, out)

def Sys.ended (s : Sys π κ) (p : π) : Prop := (s.pipes p).main = .exited ∨ (s.pipes p).main = .failed

def NobodyKilled (dev : Dev (Client π κ)) : Prop := ∀ holder, ¬ dev.dead holder

variable {config : Config π} {s : Sys π κ}

theorem can_step_by (action : SysAction π κ) (ordinary : action.ordinary s = true)
    (ready : ((system config).step s action).isSome = true) : SysCanStep config s := by
  obtain ⟨⟨next, out⟩, stepped⟩ := Option.isSome_iff_exists.mp ready
  exact ⟨action, next, out, ordinary, stepped⟩

theorem client_can_step (client : Client π κ) (ready : (clientStep s.dev client {}).isSome = true) : SysCanStep config s :=
  can_step_by (.dev (.go client {})) rfl (by simpa [system, Action.unattended, device] using ready)

theorem held_can_step (locks : LockInv s.dev) (alive : NobodyKilled s.dev) (held : s.dev.devMutex ≠ none) :
    SysCanStep config s := by
  obtain ⟨holder, owned⟩ := Option.ne_none_iff_exists'.mp held
  cases holder with
  | client t =>
      have holds := (locks.clients t).mpr owned
      refine (client_ready s.dev t).elim (client_can_step t) fun resting => ?_
      cases resting with
      | killed point => exact (alive (.client t) point).elim
      | user point | returned point => simp [point, Pc.holds] at holds
      | locked outside => simp [outside] at holds
      | asleep asleep =>
          rw [waiting_holds _ _ _ asleep.1] at holds
          cases holds
  | kt k =>
      have ready := kt_ready s.dev k ((locks.kernel k).mpr owned) (alive (.kt k))
      exact can_step_by (.dev (.kt k {})) (by simp [SysAction.ordinary, owned])
        (by simpa [system, Action.unattended, device] using ready)

theorem inside_can_step (link : LinkInv s) (locks : LockInv s.dev) (alive : NobodyKilled s.dev) (p : π) (t : Tid) (res : Int)
    (got : Bytes) (next : Pipe) (out : List UserEvent) (returns : RetMove (s.pipes p) res got t next out) :
    SysCanStep config s ∨ ∃ queue, (s.dev.tasks (.inl (p, t))).Asleep queue := by
  obtain ⟨op, waits⟩ := (ret_waits _ _ _ _ _ _ returns).1
  have serves := link p t
  rw [waits] at serves
  rcases client_ready s.dev (.inl (p, t)) with ready | resting
  · exact .inl (client_can_step _ ready)
  cases resting with
  | user point => cases op <;> simp [Linked, point, Pc.Serves] at serves
  | killed point => exact (alive (.client _) point).elim
  | locked _ held => exact .inl (held_can_step locks alive held)
  | asleep asleep => exact .inr ⟨_, asleep⟩
  | @returned value bytes point =>
      have possible : (userRet (s.pipes p) t value bytes).isSome = true := by
        cases returns with
        | openDev there | done there | closeDev there | read there => simp [userRet, there]
        | written there | refused there =>
            simp only [userRet, there]
            split <;> rfl
      obtain ⟨⟨pipe, events⟩, returned⟩ := Option.isSome_iff_exists.mp possible
      exact .inl (can_step_by (.ret p t) rfl (by simp [system, sysRet, point, retStep, returned]))

theorem process_can_step (link : LinkInv s) (locks : LockInv s.dev) (alive : NobodyKilled s.dev) (p : π)
    (ready : GoesOn (config.prog p) (s.pipes p)) :
    SysCanStep config s ∨ ∃ t queue, (s.dev.tasks (.inl (p, t))).Asleep queue := by
  rcases ready with ⟨action, next, out, own, stepped⟩ | ⟨t, res, got, next, out, returned⟩
  · cases action with
    | go t choice => exact .inl (can_step_by (.user p (.go t choice)) rfl (by simp [system, UserAction.internal, stepped]))
    | call t =>
        simp only [pipeline, userCall] at stepped
        split at stepped
        · cases stepped
        · rename_i calm
          simp only [Option.map_eq_some_iff, Prod.mk.injEq] at stepped
          obtain ⟨⟨op, _⟩, asked, rfl, rfl⟩ := stepped
          have linked := link p t
          rw [(call_waits _ _ _ _ _ (request_moves _ _ _ _ _ asked)).1] at linked
          have idle : (s.dev.tasks (.inl (p, t))).pc = .user := linked
          exact .inl (can_step_by (.call p t) rfl (by simp [system, sysCall, calm, asked, callStep, idle]))
    | ret | spurious | sigint => cases own
  · have returns := ret_moves _ _ _ _ _ _ returned
    rcases inside_can_step link locks alive p t res got next out returns with steps | ⟨queue, asleep⟩
    · exact .inl steps
    · exact .inr ⟨t, queue, asleep⟩

section Runs

variable {ok : Sys π κ → SysAction π κ → Prop} {events : List (SysEvent π κ)}

theorem stuck_asleep (run : Run (system config) ok (systemStart config) events s)
    (outside : ∀ p, Run (pipeline (config.prog p)) InterruptsOutside (programStart (config.arg p))
      (events.flatMap (SysEvent.ofPipe p)) (s.pipes p)) (alive : NobodyKilled s.dev) (stuck : ¬ SysCanStep config s) :
    s.dev.devMutex = none ∧ ∀ p, s.ended p ∨ ∃ t queue, (s.dev.tasks (.inl (p, t))).Asleep queue := by
  have locks := lock_inv_run (system_device_any run)
  refine ⟨?_, fun p => ?_⟩
  · by_contra held
    exact stuck (held_can_step locks alive held)
  by_cases ended : s.ended p
  · exact .inl ended
  · simp only [Sys.ended, not_or] at ended
    rcases process_can_step (link_run run) locks alive p (running_goes_on (outside p) ended) with steps | asleep
    · exact absurd steps stuck
    · exact .inr asleep

theorem local_not_brief {ι : Type} (s : Dev ι) (env : Env) (before after : Pc) (op : Op) (brief : op = .myOpen ∨ op = .myClose)
    (step : LocalPc s env before after) : ¬ before.Serves op := by
  intro serves
  rcases brief with rfl | rfl <;> cases step <;> exact serves

theorem open_unfailed (s next : Dev (Client π κ)) (client : Client π κ) (env : Env) (out : List (Event (Client π κ)))
    (move : ClientMove s client env next out) (serves : (s.tasks client).pc.Serves .myOpen) : (next.tasks client).pc.Unfailed := by
  cases move with
  | «local» move =>
      exact (local_not_brief s env _ _ .myOpen (.inl rfl) (local_move_pc s env _ _ move) serves).elim
  | acquire _ entered =>
      simp only [goto_tasks, if_true]
      unfold Pc.locked at entered
      split at entered <;> cases entered <;> trivial
  | release left =>
      simp only [goto_tasks, if_true]
      unfold Pc.unlocked at left
      split at left <;> cases left <;> simp_all [Pc.Unfailed, Pc.Serves]
  | opened => simp [Pc.Unfailed]
  | closed point | popped point | wakeWriters point | pushed point | wakeReaders point =>
      rw [point] at serves
      exact serves.elim

inductive MainTurn (config : Config π) (s next : Sys π κ) (p : π) : Prop where
  | stay (same : (next.pipes p).main = (s.pipes p).main)
  | own {out : List UserEvent} (move : MainMove (config.prog p) (s.pipes p) (next.pipes p) out)
  | asked {op : Op} (move : CallMove (config.prog p) (s.pipes p) .main op (next.pipes p))
      (entered : (next.dev.tasks (.inl (p, .main))).pc = op.entry)
  | answered {res : Int} {got : Bytes} {out : List UserEvent} (point : (s.dev.tasks (.inl (p, .main))).pc = .ret res got)
      (move : RetMove (s.pipes p) res got .main (next.pipes p) out)

theorem main_turn (next : Sys π κ) (action : SysAction π κ) (out : List (SysEvent π κ)) (p : π)
    (move : SysMove config s action next out) : MainTurn config s next p := by
  cases move with
  | @user q action pipe out inside stepped =>
      by_cases mine : p = q
      · subst mine
        have after : ((s.setPipe p pipe).pipes p) = pipe := by simp [Sys.setPipe]
        cases pipe_moves _ _ _ _ _ stepped with
        | main move => exact .own (by rw [after]; exact move)
        | source move => exact .stay (by rw [after, (source_frame _ _ _ _ _ move).main])
        | elaborate move => exact .stay (by rw [after, (elaborate_frame _ _ _ _ _ move).main])
        | sink move => exact .stay (by rw [after, (sink_frame _ _ _ _ _ move).main])
        | hand move => exact .stay (by rw [after, (hand_frame _ _ _ move).main])
        | call | ret => cases inside
        | spuriousR | spuriousE | sigint => exact .stay (by rw [after]; rfl)
      · exact .stay (by simp [Sys.setPipe, mine])
  | @call q t op pipe _ asked =>
      have move := request_moves _ _ _ _ _ asked
      by_cases mine : p = q
      · subst mine
        by_cases here : t = .main
        · subst here
          exact .asked (by simpa [Sys.setPipe] using move) (by simp [Sys.setPipe, Sys.setDev])
        · exact .stay (by simpa [Sys.setPipe] using call_main _ _ _ _ _ move here)
      · exact .stay (by simp [Sys.setPipe, Sys.setDev, mine])
  | @ret q t res got pipe _ point returned =>
      have move := ret_moves _ _ _ _ _ _ returned
      by_cases mine : p = q
      · subst mine
        by_cases here : t = .main
        · subst here
          exact .answered point (by simpa [Sys.setPipe] using move)
        · exact .stay (by simpa [Sys.setPipe] using (ret_main _ _ _ _ _ _ move here).1)
      · exact .stay (by simp [Sys.setPipe, Sys.setDev, mine])
  | dev => exact .stay rfl

omit [DecidableEq π] [DecidableEq κ] in
theorem main_leads (prog : Prog) (s next : Pipe) (out : List UserEvent) (move : MainMove prog s next out) :
    next.main ≠ .failed ∧ next.main.waiting = none ∧ (∀ i, next.main = .done i → i = 0) ∧
      (next.main.closing = true → s.main.closing = true ∨ (∃ i, s.main = .done i ∧ maxRetry < i) ∨ prog = .reader) := by
  cases move with
  | @spawned stage => cases stage <;> simp [Pipe.setMain, Stage.spawned, MainPc.waiting, MainPc.closing]
  | @joined stage => cases stage <;> cases prog <;> simp [Pipe.setMain, Stage.joined, MainPc.waiting, MainPc.closing]
  | @relUnlock buf => cases buf <;> simp [Pipe.setMain, Buf.released, MainPc.waiting, MainPc.closing]
  | @doneOver i point tried => simp [Pipe.setMain, MainPc.waiting, MainPc.closing, point, tried]
  | @doneCheck i point => simp [Pipe.setMain, MainPc.waiting, MainPc.closing, point]
  | _ => simp [Pipe.setMain, MainPc.waiting, MainPc.closing]

theorem opens_run (run : Run (system config) ok (systemStart config) events s) :
    CallInv (fun op pc => pc.Serves op ∧ (op = .myOpen → pc.Unfailed)) s := by
  refine call_inv_run _ (fun op => ⟨entry_serves op, ?_⟩) ?_ run
  · rintro rfl
    trivial
  · rintro s client env dev out op _ move ⟨serves, _⟩
    refine ⟨client_serves _ _ _ env out op move serves, ?_⟩
    rintro rfl
    exact open_unfailed _ _ _ env out move serves

theorem never_failed (p : π) (run : Run (system config) ok (systemStart config) events s) : (s.pipes p).main ≠ .failed := by
  refine Run.invariant (fun _ s => (s.pipes p).main ≠ .failed) (by simp [systemStart, programStart]) ?_ run
  intro events s action next out before fine _ stepped
  cases main_turn next action out p (system_moves config s next action out stepped) with
  | stay same => rwa [same]
  | own move => exact (main_leads _ _ _ _ move).1
  | asked move =>
      generalize next.pipes p = pipe at move
      cases move <;> simp [Pipe.setMain]
  | @answered res got out point move =>
      generalize next.pipes p = pipe at move
      cases move with
      | openDev there =>
          have opened := opens_run before p .main
          rw [show (s.pipes p).waiting .main = some .myOpen by simp [Pipe.waiting, there, MainPc.waiting], point] at opened
          have success : res = 0 := opened.2 rfl
          simp [Pipe.setMain, success]
      | done =>
          simp only [Pipe.setMain]
          split <;> simp
      | closeDev => simp [Pipe.setMain]

end Runs

end Progress

section Steady

variable {π κ : Type} [DecidableEq π] [DecidableEq κ]

-- No signal, no failed kmalloc or copy, and the statistics stay in range.
def Steady (s : Sys π κ) (action : SysAction π κ) : Prop :=
  Faultless s action ∧
    match action with
    | .dev action => Moderate s.dev action
    | _ => s.dev.kbFifo.count ≤ 21474835

variable {config : Config π} {s : Sys π κ} {events : List (SysEvent π κ)}

structure Announced (p : π) (events : List (SysEvent π κ)) (s : Sys π κ) : Prop where
  first : ∀ i, (s.pipes p).main = .done i ∨ (s.pipes p).main = .inDone i → i = 0
  told : Sealed s p → ∃ data, (none, data) ∈ events.flatMap (SysEvent.appends p)

theorem first_try (next : Sys π κ) (p : π) (before : Run (system config) Faultless (systemStart config) events s)
    (inv : Announced p events s) (turn : MainTurn config s next p) :
    ∀ i, (next.pipes p).main = .done i ∨ (next.pipes p).main = .inDone i → i = 0 := by
  intro i reached
  cases turn with
  | stay same => exact inv.first i (by rwa [same] at reached)
  | own move =>
      have leads := main_leads _ _ _ _ move
      rcases reached with point | point
      · exact leads.2.2.1 i point
      · simp [point, MainPc.waiting] at leads
  | asked move =>
      generalize next.pipes p = pipe at move reached
      cases move with
      | @done j point =>
          simp only [Pipe.setMain, reduceCtorEq, MainPc.inDone.injEq, false_or] at reached
          subst reached
          exact inv.first j (.inl point)
      | openDev | closeDev => simp [Pipe.setMain] at reached
  | @answered res got out point move =>
      generalize next.pipes p = pipe at move reached
      cases move with
      | @done j there =>
          have written := unfailed_run before p .main
          rw [show (s.pipes p).waiting .main = some (.myWrite (terminatorText ++ [0])) by
            simp [Pipe.waiting, there, MainPc.waiting], point] at written
          have success : res = 0 := written.2 _ rfl
          simp [Pipe.setMain, success] at reached
      | openDev =>
          simp only [Pipe.setMain] at reached
          split at reached <;> simp at reached
      | closeDev => simp [Pipe.setMain] at reached

omit [DecidableEq π] [DecidableEq κ] in
theorem answered_sealed (s next : Sys π κ) (p : π) (res : Int) (got : Bytes) (out : List UserEvent)
    (point : (s.dev.tasks (.inl (p, .main))).pc = .ret res got) (move : RetMove (s.pipes p) res got .main (next.pipes p) out)
    (closing : (next.pipes p).main.closing = true) : Sealed s p := by
  generalize next.pipes p = pipe at move closing
  cases move with
  | openDev =>
      simp only [Pipe.setMain] at closing
      split at closing <;> cases closing
  | @done i there =>
      by_cases success : res = 0
      · exact .inr ⟨by simp [Pipe.waiting, there, MainPc.waiting], by simp [point, Pc.sent, success]⟩
      · simp [Pipe.setMain, success, MainPc.closing] at closing
  | closeDev there => exact .inl (by rw [there]; rfl)

omit [DecidableEq κ] in
theorem sealed_before (next : Sys π κ) (p : π) (role : config.prog p = .writer) (inv : Announced p events s)
    (turn : MainTurn config s next p)
    (sent : ∀ t op, (s.pipes p).waiting t = some op → (next.pipes p).waiting t = some op → (∃ buf, op = .myWrite buf) →
      (next.dev.tasks (.inl (p, t))).pc.sent = (s.dev.tasks (.inl (p, t))).pc.sent)
    (done : Sealed next p) : Sealed s p := by
  cases turn with
  | stay same =>
      rcases done with closing | ⟨waits, pushed⟩
      · exact .inl (by rwa [same] at closing)
      · have before : (s.pipes p).waiting .main = _ := (congrArg MainPc.waiting same).symm.trans waits
        exact .inr ⟨before, (sent .main _ before waits ⟨_, rfl⟩).symm.trans pushed⟩
  | own move =>
      have leads := main_leads _ _ _ _ move
      rcases done with closing | ⟨waits, _⟩
      · rcases leads.2.2.2 closing with before | ⟨i, point, tried⟩ | reader
        · exact .inl before
        · have first := inv.first i (.inl point)
          omega
        · rw [role] at reader
          cases reader
      · rw [show (next.pipes p).waiting .main = none from leads.2.1] at waits
        cases waits
  | @asked op move entered =>
      rcases done with closing | ⟨_, pushed⟩
      · generalize next.pipes p = pipe at move closing
        cases move with
        | openDev | done => cases closing
        | closeDev point => exact .inl (by rw [point]; rfl)
      · rw [entered] at pushed
        cases op <;> cases pushed
  | @answered res got out point move =>
      rcases done with closing | ⟨waits, _⟩
      · exact answered_sealed s next p res got out point move closing
      · rw [(ret_waits _ _ _ _ _ _ move).2] at waits
        cases waits

theorem announced_run (p : π) (role : config.prog p = .writer) (run : Run (system config) Faultless (systemStart config) events s) :
    Announced p events s := by
  refine Run.invariant (Announced p) ⟨by simp [systemStart, programStart], ?_⟩ ?_ run
  · intro done
    have := sealed_past _ _ done
    simp [systemStart, programStart, MainPc.phase] at this
  intro events s action next out before inv allowed stepped
  have move := system_moves config s next action out stepped
  have turn := main_turn next action out p move
  refine ⟨first_try next p before inv turn, fun done => ?_⟩
  have earlier : Sealed s p → ∃ data, (none, data) ∈ (events ++ out).flatMap (SysEvent.appends p) := fun told => by
    obtain ⟨data, member⟩ := inv.told told
    exact ⟨data, by rw [List.flatMap_append]; exact List.mem_append_left _ member⟩
  cases append_effect config s next action p out (link_run before) move with
  | nothing _ sent => exact earlier (sealed_before next p role inv turn sent done)
  | @append t buf mem pipes _ _ moved others _ appended =>
      by_cases here : t = .main
      · subst here
        exact ⟨cstr (buf ++ mem), by rw [List.flatMap_append, appended]; exact List.mem_append_right _ (List.mem_singleton_self _)⟩
      · rcases done with closing | ⟨waits, pushed⟩
        · exact earlier (.inl (by rwa [pipes] at closing))
        · rw [pipes] at waits
          rw [others _ (Ne.symm here)] at pushed
          exact earlier (.inr ⟨waits, pushed⟩)

theorem steady_device (run : Run (system config) Steady (systemStart config) events s) :
    Run (device (Client π κ)) Healthy (myModuleInit (Client π κ)) (events.flatMap SysEvent.device) s.dev := by
  refine run.project Sys.dev SysEvent.device ?_
  intro events s action next out before steady stepped
  cases system_moves config s next action out stepped with
  | user => exact .inl ⟨rfl, device_of_piped _ _⟩
  | @call p t op _ _ asked idle =>
      refine .inr ⟨.call (.inl (p, t)) op, ⟨⟨steady.2, trivial⟩, trivial⟩, ?_⟩
      simp [device, callStep, idle, Sys.setDev, Sys.setPipe]
  | @ret p t res got _ out point =>
      refine .inr ⟨.ret (.inl (p, t)), ⟨⟨steady.2, trivial⟩, trivial⟩, ?_⟩
      simp [device, retStep, point, Sys.setDev, Sys.setPipe, device_of_piped]
  | @dev action dev out free moved =>
      refine .inr ⟨action, ⟨steady.2, ?_⟩, by rw [device_of_observed]; exact moved⟩
      cases action with
      | go | kt => exact steady.1
      | _ => trivial

omit [DecidableEq π] [DecidableEq κ] in
theorem steady_faultless (s : Sys π κ) (action : SysAction π κ) (steady : Steady s action) : Faultless s action := steady.1

def WriterSleeps (config : Config π) (s : Sys π κ) (p : π) : Prop :=
  config.prog p = .writer ∧ ∃ t buf, (s.pipes p).waiting t = some (.myWrite buf) ∧ (s.dev.tasks (.inl (p, t))).Asleep .waitW

def ReaderSleeps (config : Config π) (s : Sys π κ) (p : π) : Prop :=
  config.prog p = .reader ∧ ∃ i, (s.pipes p).sources i = .inRead ∧ (s.dev.tasks (.inl (p, .source i))).Asleep .waitR

theorem sleeper_cases {ok : Sys π κ → SysAction π κ → Prop} (p : π) (t : Tid) (queue : WaitQueue)
    (run : Run (system config) ok (systemStart config) events s) (asleep : (s.dev.tasks (.inl (p, t))).Asleep queue) :
    (queue = .waitW ∧ WriterSleeps config s p) ∨ (queue = .waitR ∧ ReaderSleeps config s p) := by
  have linked := link_run run p t
  have roles := roles_run (system_pipe_any p run)
  cases waits : (s.pipes p).waiting t with
  | none =>
      rw [waits] at linked
      have idle : (s.dev.tasks (.inl (p, t))).pc = .user := linked
      simp [Task.Asleep, idle, Pc.waiting] at asleep
  | some op =>
      rw [waits] at linked
      have serves : (s.dev.tasks (.inl (p, t))).pc.Serves op := linked
      rcases waiting_cases _ _ _ asleep.1 with ⟨dim, value, point, rfl⟩ | ⟨buf, point, rfl⟩
      · rw [point] at serves
        cases op with
        | myRead asked =>
            refine .inr ⟨rfl, roles.reads t asked waits, ?_⟩
            cases waits_cases _ t _ waits with
            | @read i reading => exact ⟨i, reading, asleep⟩
        | _ => exact serves.elim
      · rw [point] at serves
        cases op with
        | myWrite given => exact .inl ⟨rfl, roles.writes t given waits, t, given, waits, asleep⟩
        | _ => exact serves.elim

theorem steady_calm (p : π) (run : Run (system config) Steady (systemStart config) events s) :
    Run (pipeline (config.prog p)) NoSigint (programStart (config.arg p)) (events.flatMap (SysEvent.ofPipe p)) (s.pipes p) :=
  system_pipe_calm p rfl rfl (fun s action steady => faultless_calm p s action steady.1) run

theorem steady_pipe (p : π) (run : Run (system config) Steady (systemStart config) events s) :
    Run (pipeline (config.prog p)) InterruptsOutside (programStart (config.arg p)) (events.flatMap (SysEvent.ofPipe p)) (s.pipes p) :=
  calm_outside (steady_calm p run)

theorem one_kind_sleeps (run : Run (system config) Steady (systemStart config) events s) (stuck : ¬ SysCanStep config s) :
    s.dev.devMutex = none ∧
      ((s.dev.kbFifo.nodes = [] ∧ ∀ p, (s.pipes p).main = .exited ∨ ReaderSleeps config s p) ∨
        (s.dev.kbFifo.nodes ≠ [] ∧ ∀ p, (s.pipes p).main = .exited ∨ WriterSleeps config s p)) := by
  have device := steady_device run
  obtain ⟨free, all⟩ := stuck_asleep run (fun p => steady_pipe p run) (alive_run device) stuck
  refine ⟨free, ?_⟩
  have exited : ∀ p, s.ended p → (s.pipes p).main = .exited := fun p ended => ended.resolve_right (never_failed p run)
  by_cases empty : s.dev.kbFifo.nodes = []
  · refine .inl ⟨empty, fun p => ?_⟩
    rcases all p with ended | ⟨t, queue, asleep⟩
    · exact .inl (exited p ended)
    rcases sleeper_cases p t queue run asleep with ⟨rfl, _⟩ | ⟨_, sleeps⟩
    · exact absurd empty (asleep_stocked (device.weaken healthy_orderly) free _ asleep)
    · exact .inr sleeps
  · refine .inr ⟨empty, fun p => ?_⟩
    rcases all p with ended | ⟨t, queue, asleep⟩
    · exact .inl (exited p ended)
    rcases sleeper_cases p t queue run asleep with ⟨_, sleeps⟩ | ⟨rfl, _⟩
    · exact .inr sleeps
    · have shut := asleep_blocked .waitR (fun _ _ _ other => by cases other) device free _ asleep
      exact absurd ((kb_isempty_iff _).mp shut) empty

end Steady

section Balanced

variable {π : Type} [DecidableEq π] {config : Config π} {events : List (SysEvent π Empty)} {s : Sys π Empty}

theorem sleeping_unsealed {ok : Sys π Empty → SysAction π Empty → Prop} (p : π)
    (run : Run (system config) ok (systemStart config) events s) (sleeps : WriterSleeps config s p) : ¬ Sealed s p := by
  intro done
  have past := sealed_past s p done
  obtain ⟨_, t, buf, waits, asleep⟩ := sleeps
  cases waits_cases _ t _ waits with
  | done point =>
      rcases done with closing | ⟨_, pushed⟩
      · rw [point] at closing
        cases closing
      · rcases waiting_cases _ _ _ asleep.1 with ⟨_, _, there, _⟩ | ⟨_, there, _⟩ <;> rw [there] at pushed <;> cases pushed
  | @write i failures item point =>
      have dead := (join_inv_run (system_pipe_any p run)).joined .sink i (.inl (by simpa only [Stage.joinPhase] using past))
      simp [Pipe.life, point, SinkPc.life] at dead

theorem exited_past (pipe : Pipe) (exited : pipe.main = .exited) : 8 < pipe.main.phase := by
  rw [exited]
  decide

variable [Fintype π]

section Accounts

variable (run : Run (system config) Faultless (systemStart config) events s)

include run

omit [Fintype π] in
theorem exited_sent (p : π) (role : config.prog p = .writer) (exited : (s.pipes p).main = .exited) :
    (sentBy p events).count terminatorText = 1 :=
  (sealed_account p run role ((announced_run p role run).told (.inl (by rw [exited]; rfl)))).2

omit [Fintype π] in
theorem sleeping_sent (p : π) (sleeps : WriterSleeps config s p) : (sentBy p events).count terminatorText = 0 :=
  unsent_account p run sleeps.1 fun data member => sleeping_unsealed p run sleeps ((seal_run p run).done data member)

omit [Fintype π] in
theorem sleeping_taken (p : π) (loops : config.arg p = 0) (sleeps : ReaderSleeps config s p) :
    (takenBy p events).count terminatorText = 0 := by
  obtain ⟨role, i, reading, asleep⟩ := sleeps
  have first := reads_first p role run i reading
  subst first
  refine waiting_account p run role loops reading ?_
  rcases waiting_cases _ _ _ asleep.1 with ⟨_, _, point, _⟩ | ⟨_, point, _⟩ <;> rw [point] <;> rfl

omit [Fintype π] in
theorem taken_exited (p : π) (loops : config.prog p = .reader → config.arg p = 0)
    (stopped : config.prog p = .reader → (s.pipes p).main = .exited ∨ ReaderSleeps config s p) :
    (takenBy p events).count terminatorText = if config.prog p = .reader ∧ (s.pipes p).main = .exited then 1 else 0 := by
  cases role : config.prog p with
  | writer => simp [writer_takes_nothing p role run]
  | reader =>
      rcases stopped role with exited | sleeps
      · simp [(reader_account p run role (loops role) (exited_past _ exited)).2, exited]
      · have running : (s.pipes p).main ≠ .exited := by
          intro exited
          obtain ⟨_, i, reading, _⟩ := sleeps
          have dead := (join_inv_run (system_pipe_any p run)).joined .source i (.inl (by rw [exited]; decide))
          simp [Pipe.life, reading, SourcePc.life] at dead
        rw [sleeping_taken run p (loops role) sleeps, if_neg fun both => running both.2]

theorem empty_stop (loops : ∀ p, config.prog p = .reader → config.arg p = 0) (empty : s.dev.kbFifo.nodes = [])
    (all : ∀ p, (s.pipes p).main = .exited ∨ ReaderSleeps config s p) :
    config.writers + (Finset.univ.filter fun p => (s.pipes p).main ≠ .exited).card = config.readers := by
  have sent : ∀ p, (sentBy p events).count terminatorText = config.share .writer p := by
    intro p
    cases role : config.prog p with
    | reader => simp [reader_sends_nothing p role run, Config.share, role]
    | writer =>
        have exited := (all p).resolve_right fun sleeps => by cases role.symm.trans sleeps.1
        simp [exited_sent run p role exited, Config.share, role]
  have law := terminator_law run
  rw [empty, Finset.sum_congr rfl fun p _ => sent p, ← writers_sum,
    Finset.sum_congr rfl fun p _ => taken_exited run p (loops p) (fun _ => all p), ← Finset.card_filter] at law
  have split := Finset.card_filter_add_card_filter_not (s := Finset.univ.filter (config.prog · = .reader))
    (fun p => (s.pipes p).main = .exited)
  rw [Finset.filter_filter, Finset.filter_filter] at split
  have rest : (Finset.univ.filter fun p => config.prog p = .reader ∧ ¬ (s.pipes p).main = .exited) =
      Finset.univ.filter fun p => (s.pipes p).main ≠ .exited := by
    refine Finset.filter_congr fun p _ => ⟨And.right, fun running => ⟨((all p).resolve_left running).1, running⟩⟩
  rw [rest] at split
  have total : config.readers = (Finset.univ.filter (config.prog · = .reader)).card := rfl
  simp only [List.count_nil, Nat.add_zero] at law
  omega

theorem taken_by_all (loops : ∀ p, config.prog p = .reader → config.arg p = 0)
    (all : ∀ p, config.prog p = .reader → (s.pipes p).main = .exited) :
    ∑ p, (takenBy p events).count terminatorText = config.readers := by
  rw [readers_sum]
  refine Finset.sum_congr rfl fun p _ => ?_
  rw [taken_exited run p (loops p) fun role => .inl (all p role), Config.share]
  by_cases role : config.prog p = .reader
  · rw [if_pos ⟨role, all p role⟩, if_pos role]
  · rw [if_neg fun both => role both.1, if_neg role]

theorem filled_stop (loops : ∀ p, config.prog p = .reader → config.arg p = 0) (filled : s.dev.kbFifo.nodes ≠ [])
    (all : ∀ p, config.prog p = .reader → (s.pipes p).main = .exited) : config.readers < config.writers := by
  have law := terminator_law run
  rw [taken_by_all run loops all] at law
  have most := Finset.sum_le_sum fun p (_ : p ∈ Finset.univ) => sent_share p run
  rw [← writers_sum] at most
  by_contra enough
  have done := all_sent run (by omega)
  have waiting := List.count_pos_iff.mpr (queue_ends run done filled)
  omega

theorem filled_account (loops : ∀ p, config.prog p = .reader → config.arg p = 0)
    (all : ∀ p, (s.pipes p).main = .exited ∨ WriterSleeps config s p) :
    (Finset.univ.filter fun p => config.prog p = .writer ∧ (s.pipes p).main = .exited).card =
      config.readers + s.dev.kbFifo.nodes.count terminatorText := by
  have sent : ∀ p, (sentBy p events).count terminatorText =
      if config.prog p = .writer ∧ (s.pipes p).main = .exited then 1 else 0 := by
    intro p
    cases role : config.prog p with
    | reader => simp [reader_sends_nothing p role run]
    | writer =>
        by_cases exited : (s.pipes p).main = .exited
        · simp [exited_sent run p role exited, exited]
        · simp [sleeping_sent run p ((all p).resolve_left exited), exited]
  have law := terminator_law run
  have taken := taken_by_all run loops fun p role => (all p).resolve_right fun sleeps => by cases role.symm.trans sleeps.1
  rw [Finset.sum_congr rfl fun p _ => sent p, ← Finset.card_filter, taken] at law
  exact law

end Accounts

theorem system_stops (loops : ∀ p, config.prog p = .reader → config.arg p = 0)
    (run : Run (system config) Steady (systemStart config) events s) :
    SysCanStep config s ∨
      (config.writers ≤ config.readers →
        s.dev.kbFifo.nodes = [] ∧ (∀ p, (s.pipes p).main = .exited ∨ ReaderSleeps config s p) ∧
          (Finset.univ.filter fun p => (s.pipes p).main ≠ .exited).card = config.readers - config.writers) ∧
      (config.readers < config.writers →
        s.dev.kbFifo.nodes ≠ [] ∧ (∀ p, (s.pipes p).main = .exited ∨ WriterSleeps config s p) ∧
          (Finset.univ.filter fun p => config.prog p = .writer ∧ (s.pipes p).main = .exited).card =
            config.readers + s.dev.kbFifo.nodes.count terminatorText) := by
  have plain := run.weaken steady_faultless
  by_cases goes : SysCanStep config s
  · exact .inl goes
  right
  obtain ⟨_, ⟨empty, all⟩ | ⟨filled, all⟩⟩ := one_kind_sleeps run goes
  · have count := empty_stop plain loops empty all
    exact ⟨fun _ => ⟨empty, all, by omega⟩, fun fewer => by omega⟩
  · have fewer := filled_stop plain loops filled fun p role =>
      (all p).resolve_right fun sleeps => by cases role.symm.trans sleeps.1
    exact ⟨fun enough => by omega, fun _ => ⟨filled, all, filled_account plain loops all⟩⟩

end Balanced

def steady {π κ : Type} (s : Sys π κ) (action : SysAction π κ) : Bool :=
  faultless s action &&
    match action with
    | .dev action => moderate s.dev action
    | _ => s.dev.kbFifo.count ≤ 21474835

theorem steady_sound {π κ : Type} (s : Sys π κ) (action : SysAction π κ) (checked : steady s action = true) : Steady s action := by
  cases action with
  | dev action =>
      simp only [steady, Bool.and_eq_true] at checked
      exact ⟨faultless_sound s (.dev action) checked.1, moderate_sound s.dev action checked.2⟩
  | _ =>
      simp only [steady, Bool.and_eq_true, decide_eq_true_eq] at checked
      exact ⟨faultless_sound s _ checked.1, checked.2⟩

section Halted

variable {prog : Prog} {s : Pipe}

def Pipe.Quiet (prog : Prog) (s : Pipe) (t : Tid) : Prop :=
  (∀ choice, goStep prog s t choice = none) ∧ s.request prog t = none

theorem stalled_quiet (t : Tid) (calm : s.hands t = none) (free : s.wants t = none) (stalled : Stalled s t) :
    s.Quiet prog t ∧ s.waiting t = none := by
  simp only [Pipe.Quiet, goStep, calm]
  cases stalled with
  | locked wanted => simp [wanted] at free
  | elaborator _ asleep => simp [threadStep, elaborateData, asleep, Pipe.request, Pipe.waiting]
  | sink _ asleep =>
      cases prog <;> simp [threadStep, writeDev, printData, sinkLoop, asleep, Pipe.request, Pipe.waiting, SinkPc.sending]
  | joins _ point more alive => simp [threadStep, mainStep, point, more, alive, Pipe.request, Pipe.waiting, MainPc.waiting]
  | @noSource i dead =>
      cases point : s.sources i <;> simp [point, SourcePc.life] at dead <;>
        cases prog <;> simp [threadStep, createData, readDev, sourceLoop, point, Pipe.request, Pipe.waiting, SourcePc.waiting]
  | @noElaborator i dead =>
      cases point : s.elaborators i <;> simp [point, ElaboratePc.life] at dead <;>
        simp [threadStep, elaborateData, point, Pipe.request, Pipe.waiting]
  | @noSink i dead =>
      cases point : s.sinks i <;> simp [point, SinkPc.life] at dead <;>
        cases prog <;> simp [threadStep, writeDev, printData, sinkLoop, point, Pipe.request, Pipe.waiting, SinkPc.sending]
  | ended ended =>
      rcases ended with point | point <;> simp [threadStep, mainStep, point, Pipe.request, Pipe.waiting, MainPc.waiting]

theorem reading_quiet (i : Nat) (calm : s.hands (.source i) = none) (point : s.sources i = .inRead) : s.Quiet prog (.source i) := by
  cases prog <;> simp [Pipe.Quiet, goStep, calm, threadStep, createData, readDev, sourceLoop, point, Pipe.request]

def Stage.tid : Stage → Nat → Tid
  | .source => .source
  | .elaborate => .elaborate
  | .sink => .sink

theorem dead_stalled (stage : Stage) (i : Nat) (dead : s.life i stage ≠ .live) :
    s.baseWants (stage.tid i) = none ∧ Stalled s (stage.tid i) := by
  cases stage with
  | source =>
      refine ⟨?_, .noSource dead⟩
      cases point : s.sources i <;> simp_all [Stage.tid, Pipe.baseWants, Pipe.life, SourcePc.life]
  | elaborate =>
      refine ⟨?_, .noElaborator dead⟩
      cases point : s.elaborators i <;> simp_all [Stage.tid, Pipe.baseWants, Pipe.life, ElaboratePc.life]
  | sink =>
      refine ⟨?_, .noSink dead⟩
      cases point : s.sinks i <;> simp_all [Stage.tid, Pipe.baseWants, Pipe.life, SinkPc.life]

theorem beyond_stalled (born : JoinInv s) (stage : Stage) (i : Nat) (beyond : ¬ i < s.count stage) :
    s.baseWants (stage.tid i) = none ∧ Stalled s (stage.tid i) :=
  dead_stalled stage i fun live => beyond (born.born stage i (by rw [live]; simp)).1

theorem exited_stalled (arg : Int) (events : List UserEvent) (run : Run (pipeline prog) NoSigint (programStart arg) events s)
    (exited : s.main = .exited) (t : Tid) : s.wants t = none ∧ Stalled s t := by
  have joined : ∀ stage i, s.life i stage ≠ .live := fun stage i =>
    (join_inv_run run).joined stage i (.inl (by rw [exited]; cases stage <;> decide))
  have calm := (calm_run run).hands t
  simp only [Pipe.wants, calm]
  cases t with
  | main => exact ⟨by simp [Pipe.baseWants, exited], .ended (.inl exited)⟩
  | source i => exact dead_stalled .source i (joined .source i)
  | elaborate i => exact dead_stalled .elaborate i (joined .elaborate i)
  | sink i => exact dead_stalled .sink i (joined .sink i)

-- A Reader whose source 0 is in my_read, with everybody else in pthread_cond_wait
-- or pthread_join.
structure Pipe.Reading (s : Pipe) : Prop where
  main : s.main = .join .source 0
  source : s.sources 0 = .inRead
  counts : s.nsrc = 1 ∧ s.nela = 4 ∧ s.nsnk = 2
  elaborators : ∀ i < 4, s.elaborators i = .wait
  sinks : ∀ i < 2, s.sinks i = .wait

theorem reading_stalled (arg : Int) (events : List UserEvent) (run : Run (pipeline prog) NoSigint (programStart arg) events s)
    (reading : s.Reading) (t : Tid) (other : t ≠ .source 0) : s.wants t = none ∧ Stalled s t := by
  obtain ⟨main, source, ⟨nsrc, nela, nsnk⟩, elaborators, sinks⟩ := reading
  have calm := (calm_run run).hands t
  have born := join_inv_run run
  simp only [Pipe.wants, calm]
  cases t with
  | main =>
      exact ⟨by simp [Pipe.baseWants, main], .joins calm main (by simp [Pipe.count, nsrc]) (by simp [Pipe.hasExited, source])⟩
  | source i =>
      refine beyond_stalled born .source i fun inside => ?_
      simp only [Pipe.count, nsrc, Int.toNat_one, Nat.lt_one_iff] at inside
      exact other (by rw [inside])
  | elaborate i =>
      by_cases inside : i < 4
      · exact ⟨by simp [Pipe.baseWants, elaborators i inside], .elaborator calm (elaborators i inside)⟩
      · exact beyond_stalled born .elaborate i (by simpa [Pipe.count, nela] using inside)
  | sink i =>
      by_cases inside : i < 2
      · exact ⟨by simp [Pipe.baseWants, sinks i inside], .sink calm (sinks i inside)⟩
      · exact beyond_stalled born .sink i (by simpa [Pipe.count, nsnk] using inside)

end Halted

section Stopped

variable {π : Type} [DecidableEq π] {config : Config π} {events : List (SysEvent π Empty)} {s : Sys π Empty}

theorem asleep_stays {ι : Type} [DecidableEq ι] (s : Dev ι) (t : ι) (env : Env) (queue : WaitQueue)
    (asleep : (s.tasks t).Asleep queue) : clientStep s t env = none := by
  obtain ⟨inside, interruptible⟩ := asleep
  rcases waiting_cases _ _ _ inside with ⟨_, _, point, _⟩ | ⟨_, point, _⟩ <;>
    simp [clientStep, point, waitLoop, interruptible]

theorem halted (free : s.dev.devMutex = none) (quiet : ∀ p t, (s.pipes p).Quiet (config.prog p) t)
    (tasks : ∀ p t, (s.dev.tasks (.inl (p, t))).pc = .user ∨ ∃ queue, (s.dev.tasks (.inl (p, t))).Asleep queue) :
    ¬ SysCanStep config s := by
  rintro ⟨action, next, out, ordinary, stepped⟩
  cases system_moves config s next action out stepped with
  | @user p action pipe out inside moved =>
      cases action with
      | go t choice =>
          rw [show (pipeline (config.prog p)).step (s.pipes p) (.go t choice) = none from (quiet p t).1 choice] at moved
          cases moved
      | call | ret => cases inside
      | spurious | sigint => cases ordinary
  | @call p t op pipe _ asked =>
      rw [(quiet p t).2] at asked
      cases asked
  | @ret p t res got pipe out point =>
      rcases tasks p t with idle | ⟨queue, asleep⟩
      · rw [idle] at point
        cases point
      · rcases waiting_cases _ _ _ asleep.1 with ⟨_, _, there, _⟩ | ⟨_, there, _⟩ <;> rw [there] at point <;> cases point
  | @dev action dev out unattended moved =>
      cases action with
      | go client env =>
          cases client with
          | inl pair =>
              have moved : clientStep s.dev (.inl pair) env = some (dev, out) := moved
              rcases tasks pair.1 pair.2 with idle | ⟨queue, asleep⟩
              · simp [clientStep, show (s.dev.tasks (.inl pair)).pc = .user from idle] at moved
              · rw [asleep_stays s.dev (.inl pair) env queue asleep] at moved
                cases moved
          | inr nobody => cases nobody
      | kt k env => simp [SysAction.ordinary, free] at ordinary
      | call | ret | signal | timer => cases ordinary

theorem stalled_halted (p : π) (t : Tid) (run : Run (system config) Steady (systemStart config) events s)
    (stalled : (s.pipes p).wants t = none ∧ Stalled (s.pipes p) t) :
    (s.pipes p).Quiet (config.prog p) t ∧ (s.dev.tasks (.inl (p, t))).pc = .user := by
  have calm := (calm_run (steady_calm p run)).hands t
  have halted : (s.pipes p).Quiet (config.prog p) t ∧ _ := stalled_quiet t calm stalled.1 stalled.2
  obtain ⟨quiet, outside⟩ := halted
  have linked := link_run run p t
  rw [outside] at linked
  exact ⟨quiet, linked⟩

end Stopped

-- One Writer and two Readers: one Reader gets the string and the terminator,
-- the other one is left asleep.
def surplus : Config (Fin 3) where
  prog p := if p = 0 then .writer else .reader
  arg p := if p = 0 then 1 else 0

def Pipe.reading (s : Pipe) : Bool :=
  s.main = .join .source 0 && s.sources 0 = .inRead && (s.nsrc, s.nela, s.nsnk) = (1, 4, 2) &&
    (List.range 4).all (fun i => s.elaborators i = .wait) && (List.range 2).all fun i => s.sinks i = .wait

theorem reading_sound (s : Pipe) (checked : s.reading = true) : s.Reading := by
  simp only [Pipe.reading, Bool.and_eq_true, decide_eq_true_eq, Prod.mk.injEq, List.all_eq_true, List.mem_range] at checked
  obtain ⟨⟨⟨⟨main, source⟩, counts⟩, elaborators⟩, sinks⟩ := checked
  exact ⟨main, source, counts, elaborators, sinks⟩

theorem surplus_stopped : ∃ (events : List (SysEvent (Fin 3) Empty)) (s : Sys (Fin 3) Empty),
    Run (system surplus) Steady (systemStart surplus) events s ∧ ¬ SysCanStep surplus s := by
  obtain ⟨events, s, run, seen⟩ := exec_reaches (system (κ := Empty) surplus) steady Steady steady_sound
    (systemStart surplus) (writerSchedule 0 ++ wholeCall 0 .main 7 ++ usersGo 0 .main 1 ++ wholeCall 0 .main 3 ++ readerTrip 1 ++
      wholeCall 1 .main 3 ++ usersGo 2 .main 2 ++ wholeCall 2 .main 3 ++ usersGo 2 .main 12 ++
      [0, 1, 2, 3].flatMap (fun i => usersGo 2 (.elaborate i) 2) ++ [0, 1].flatMap (fun i => usersGo 2 (.sink i) 2) ++
      usersGo 2 (.source 0) 2 ++ [SysAction.call 2 (.source 0)] ++
      List.replicate 10 (SysAction.dev (.go (.inl (2, .source 0)) {})))
    (fun s _ => decide ((s.pipes 0).main = .exited ∧ (s.pipes 1).main = .exited ∧ s.dev.devMutex = none ∧
      (s.pipes 2).reading = true ∧ (s.dev.tasks (.inl (2, .source 0))).Asleep .waitR)) (by decide +kernel)
  obtain ⟨writer, reader, free, reading, asleep⟩ := of_decide_eq_true seen
  have reading := reading_sound _ reading
  have exited : ∀ p t, (s.pipes p).main = .exited →
      (s.pipes p).Quiet (surplus.prog p) t ∧ (s.dev.tasks (.inl (p, t))).pc = .user := fun p t gone =>
    stalled_halted p t run (exited_stalled _ _ (steady_calm p run) gone t)
  have waits : ∀ t, t ≠ .source 0 → (s.pipes 2).Quiet (surplus.prog 2) t ∧ (s.dev.tasks (.inl (2, t))).pc = .user := fun t other =>
    stalled_halted 2 t run (reading_stalled _ _ (steady_calm 2 run) reading t other)
  have each : ∀ p t, (s.pipes p).Quiet (surplus.prog p) t ∧
      ((s.dev.tasks (.inl (p, t))).pc = .user ∨ ∃ queue, (s.dev.tasks (.inl (p, t))).Asleep queue) := by
    intro p t
    have three : ∀ p : Fin 3, p = 0 ∨ p = 1 ∨ p = 2 := by decide
    rcases three p with rfl | rfl | rfl
    · exact (exited 0 t writer).imp_right .inl
    · exact (exited 1 t reader).imp_right .inl
    · by_cases own : t = .source 0
      · subst own
        exact ⟨reading_quiet 0 ((calm_run (steady_calm 2 run)).hands _) reading.source, .inr ⟨.waitR, asleep⟩⟩
      · exact (waits t own).imp_right .inl
  exact ⟨events, s, run, halted free (fun p t => (each p t).1) fun p t => (each p t).2⟩

theorem system_stops_surplus : ∃ (events : List (SysEvent (Fin 3) Empty)) (s : Sys (Fin 3) Empty),
    Run (system surplus) Steady (systemStart surplus) events s ∧ ¬ SysCanStep surplus s ∧ s.dev.kbFifo.nodes = [] ∧
    (∀ p, (s.pipes p).main = .exited ∨ ReaderSleeps surplus s p) ∧
    (Finset.univ.filter fun p => (s.pipes p).main ≠ .exited).card = 1 := by
  obtain ⟨events, s, run, stuck⟩ := surplus_stopped
  exact ⟨events, s, run, stuck, ((system_stops (by decide) run).resolve_left stuck).1 (by decide)⟩

end MyDev
