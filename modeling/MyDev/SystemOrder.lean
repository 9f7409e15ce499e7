import MyDev.SystemLoss

set_option autoImplicit false

namespace MyDev

open Library

def SinkPc.unsent : SinkPc → Pc → List Item
  | .act item _, _ => [item]
  | .inWrite item _, pc => if pc.sent then [] else [item]
  | _, _ => []

theorem unsent_of_job (before after : SinkPc) (pc : Pc) (same : after.job = before.job) : after.unsent pc = before.unsent pc :=
  sink_of_job (fun sink => sink.unsent pc) [] (by intro sink jobless; cases sink <;> first | rfl | cases jobless) before after same

theorem unsent_of_sent (sink : SinkPc) (before after : Pc) (same : ∀ item failures, sink = .inWrite item failures →
    after.sent = before.sent) : sink.unsent after = sink.unsent before := by
  cases sink with
  | inWrite item failures => simp only [SinkPc.unsent, same item failures rfl]
  | _ => rfl

theorem pipe_sends (s next : Pipe) (action : UserAction) (out : List UserEvent) (pc : Pc) (join : JoinInv s)
    (single : ∀ i, s.life i .sink ≠ .off → i = 0) (unanswered : ∀ event ∈ out, event.answer = false)
    (move : PipeMove .writer s action next out) :
    ((next.sinks 0).unsent pc).Sublist ((s.sinks 0).unsent pc ++ out.flatMap UserEvent.picks) := by
  cases sink_effect .writer s next action out join move with
  | still same silent =>
      rw [unsent_of_job _ _ pc (same 0), flat_map_silent UserEvent.picks UserEvent.bySink
        (by intro event mine; cases event <;> first | rfl | cases mine) out silent, List.append_nil]
  | @works i sink after changes point updated =>
      have first : i = 0 := single i (by simp only [Pipe.life, point]; cases changes <;> simp [SinkPc.life])
      subst first
      rw [updated, Function.update_self, point]
      cases changes with
      | pick item => exact List.Sublist.refl [item]
      | call item failures =>
          simp only [SinkPc.unsent]
          split
          · exact List.nil_sublist _
          · exact List.Sublist.refl [item]
      | refused item => exact absurd (unanswered _ (List.mem_singleton_self _)) (by simp [UserEvent.answer])
      | written | giveUp | settle => exact List.nil_sublist _
      | print _ _ role => cases role

section Order

variable {π : Type} [DecidableEq π] {config : Config π} {ok : Sys π Empty → SysAction π Empty → Prop}
  {events : List (SysEvent π Empty)} {s : Sys π Empty}

def Sys.unsent (s : Sys π Empty) (p : π) : List Item :=
  ((s.pipes p).sinks 0).unsent (s.dev.tasks (.inl (p, .sink 0))).pc

section Sending

variable (p : π) (role : config.prog p = .writer) (before : Run (system config) ok (systemStart config) events s)

include role before

theorem sends_first (i : Nat) (alive : (s.pipes p).life i .sink ≠ .off) : i = 0 := by
  have inside := live_inside (system_pipe_any p before) .sink i alive
  rw [role] at inside
  exact Nat.lt_one_iff.mp inside

omit [DecidableEq π] role before in
theorem unsent_same (s next : Sys π Empty) (sink : (next.pipes p).sinks 0 = (s.pipes p).sinks 0)
    (task : (next.dev.tasks (.inl (p, .sink 0))).pc = (s.dev.tasks (.inl (p, .sink 0))).pc) : next.unsent p = s.unsent p := by
  unfold Sys.unsent
  rw [sink, task]

theorem send_call (q : π) (u : Tid) (op : Op) (pipe : Pipe) (call : CallMove (config.prog q) (s.pipes q) u op pipe) :
    (((s.setDev (s.dev.goto (.inl (q, u)) op.entry)).setPipe q pipe).unsent p).Sublist (s.unsent p) := by
  have elsewhere : u ≠ .sink 0 → (pipe.sinks 0 = (s.pipes q).sinks 0) →
      (((s.setDev (s.dev.goto (.inl (q, u)) op.entry)).setPipe q pipe).unsent p) = s.unsent p := by
    intro other sinks
    refine unsent_same p s _ ?_ ?_
    · by_cases mine : q = p
      · subst mine
        simpa [Sys.setPipe] using sinks
      · simp [Sys.setPipe, Sys.setDev, Ne.symm mine]
    · simp [Sys.setPipe, Sys.setDev, Ne.symm other]
  cases call with
  | openDev | done | closeDev | read => rw [elsewhere (by simp) rfl]
  | @write i failures item writer point =>
      by_cases mine : q = p
      · subst mine
        have first := sends_first q role before i (by simp [Pipe.life, point, SinkPc.life])
        subst first
        unfold Sys.unsent
        rw [point]
        simp [Sys.setPipe, Sys.setDev, Pipe.setSink, SinkPc.unsent, Op.entry, Pc.sent]
      · rw [unsent_same p s _ (by simp [Sys.setPipe, Sys.setDev, Ne.symm mine])
          (by simp [Sys.setPipe, Sys.setDev, Ne.symm mine])]

theorem send_ret (q : π) (u : Tid) (res : Int) (got : Bytes) (pipe : Pipe) (out : List UserEvent) (dev : Dev (Client π Empty))
    (point : (s.dev.tasks (.inl (q, u))).pc = .ret res got)
    (others : ∀ client, client ≠ .inl (q, u) → dev.tasks client = s.dev.tasks client)
    (ret : RetMove (s.pipes q) res got u pipe out) : (((s.setDev dev).setPipe q pipe).unsent p).Sublist (s.unsent p) := by
  by_cases mine : q = p
  · subst mine
    have elsewhere : u ≠ .sink 0 → (pipe.sinks 0 = (s.pipes q).sinks 0) → ((s.setDev dev).setPipe q pipe).unsent q = s.unsent q := by
      intro other sinks
      refine unsent_same q s _ (by simpa [Sys.setPipe] using sinks) ?_
      exact congrArg Task.pc (others _ (by simpa using Ne.symm other))
    cases ret with
    | openDev | done | closeDev | read => rw [elsewhere (by simp) rfl]
    | @written i failures item sending =>
        have first := sends_first q role before i (by simp [Pipe.life, sending, SinkPc.life])
        subst first
        simp [Sys.unsent, Sys.setPipe, Pipe.setSink, SinkPc.unsent]
    | @refused i failures item sending failure =>
        have first := sends_first q role before i (by simp [Pipe.life, sending, SinkPc.life])
        subst first
        simp [Sys.unsent, Sys.setPipe, Pipe.setSink, SinkPc.unsent, sending, point, Pc.sent, failure]
  · have different : (Sum.inl (p, .sink 0) : Client π Empty) ≠ .inl (q, u) := by
      intro same
      cases same
      exact mine rfl
    rw [unsent_same p s _ (by simp [Sys.setPipe, Sys.setDev, Ne.symm mine]) (congrArg Task.pc (others _ different))]

theorem send_dev (dev : Dev (Client π Empty)) (action : Action (Client π Empty)) (out : List (Event (Client π Empty)))
    (free : action.unattended = true) (stepped : (device (Client π Empty)).step s.dev action = some (dev, out)) :
    ((out.flatMap s.observe).flatMap (SysEvent.appendedItems p) ++ (s.setDev dev).unsent p).Sublist (s.unsent p) := by
  rw [appended_items_eq]
  cases append_effect config s _ _ p _ (link_run before) (.dev free stepped) with
  | nothing silent sent =>
      rw [silent]
      have kept : (s.setDev dev).unsent p = s.unsent p := by
        refine unsent_of_sent _ _ _ fun item failures (sending : (s.pipes p).sinks 0 = _) => ?_
        have waits : (s.pipes p).waiting (.sink 0) = some (.myWrite (item.data ++ [0])) :=
          sending_waits _ 0 item (by simp [Pipe.sending, sending, SinkPc.sending])
        exact sent (.sink 0) _ waits waits ⟨_, rfl⟩
      rw [kept]
      exact List.Sublist.refl _
  | @append t buf mem _ waits point moved others _ appended =>
      rw [appended]
      cases waits_cases _ t _ waits with
      | done main =>
          rw [unsent_same p s (s.setDev dev) rfl (others (.sink 0) (by simp))]
          exact List.Sublist.refl _
      | @write i failures item sending =>
          have first := sends_first p role before i (by simp [Pipe.life, sending, SinkPc.life])
          subst first
          have after : ((s.setDev dev).dev.tasks (.inl (p, .sink 0))).pc.sent = true := by rw [moved]; rfl
          simp [Sys.unsent, Sys.setDev, SinkPc.unsent, Pipe.sending, SinkPc.sending, sending, point, Pc.sent] at after ⊢
          simp [after]

theorem send_step (next : Sys π Empty) (action : SysAction π Empty) (out : List (SysEvent π Empty))
    (move : SysMove config s action next out) :
    (out.flatMap (SysEvent.appendedItems p) ++ next.unsent p).Sublist
      (s.unsent p ++ (out.flatMap (SysEvent.ofPipe p)).flatMap UserEvent.picks) := by
  cases move with
  | @user q action pipe out inside moved =>
      have move := pipe_moves _ _ _ _ _ moved
      rw [appended_items_eq, piped_appends, pipe_of_piped]
      by_cases mine : q = p
      · subst mine
        rw [if_pos rfl]
        rw [role] at move
        have step := pipe_sends (s.pipes q) pipe action out (s.dev.tasks (.inl (q, .sink 0))).pc
          (join_inv_run (system_pipe_any q before)) (sends_first q role before)
          (internal_unanswered _ _ _ _ _ inside move) move
        simpa [Sys.unsent, Sys.setPipe] using step
      · rw [if_neg mine, unsent_same p s (s.setPipe q pipe) (by simp [Sys.setPipe, Ne.symm mine]) rfl]
        exact List.sublist_append_left _ _
  | call _ asked =>
      exact (send_call p role before _ _ _ _ (request_moves _ _ _ _ _ asked)).trans (List.sublist_append_left _ _)
  | ret point returned =>
      rw [appended_items_eq, piped_appends]
      exact (send_ret p role before _ _ _ _ _ _ _ point (fun client other => by simp [other])
        (ret_moves _ _ _ _ _ _ returned)).trans (List.sublist_append_left _ _)
  | dev free stepped =>
      exact (send_dev p role before _ _ _ free stepped).trans (List.sublist_append_left _ _)

end Sending

theorem appended_order (p : π) (role : config.prog p = .writer) (run : Run (system config) ok (systemStart config) events s) :
    (events.flatMap (SysEvent.appendedItems p) ++ s.unsent p).Sublist
      ((events.flatMap (SysEvent.ofPipe p)).flatMap UserEvent.picks) := by
  refine Run.invariant (fun events s => (events.flatMap (SysEvent.appendedItems p) ++ s.unsent p).Sublist
    ((events.flatMap (SysEvent.ofPipe p)).flatMap UserEvent.picks)) (List.Sublist.refl _) ?_ run
  intro events s action next out before order _ stepped
  have step := send_step p role before next action out (system_moves config s next action out stepped)
  rw [List.flatMap_append, List.flatMap_append, List.flatMap_append, List.append_assoc]
  refine (step.append_left _).trans ?_
  rw [← List.append_assoc]
  exact order.append_right _

theorem order_preserved (w r : π) (writer : config.prog w = .writer) (alone : ∀ p, config.prog p = .writer → p = w)
    (reader : config.prog r = .reader) (run : Run (system config) Any (systemStart config) events s) :
    ((events.flatMap (SysEvent.ofPipe r)).flatMap UserEvent.putData).Sublist
      (((events.flatMap (SysEvent.ofPipe w)).flatMap UserEvent.inserts).map Item.data) := by
  have own : Run (pipeline .writer) Any (programStart (config.arg w)) (events.flatMap (SysEvent.ofPipe w)) (s.pipes w) :=
    writer ▸ system_pipe_any w run
  have taken : (takenBy r events).Sublist ((events.flatMap SysEvent.device).flatMap Event.pops) := by
    rw [← pop_log_data]
    exact (List.filter_sublist).map _
  have sent : sentBy w events = (events.flatMap SysEvent.device).flatMap Event.pushes := by
    rw [← push_log_data]
    exact of_key_all _ _ _ _ fun entry member => alone _ (pushed_by_writer run entry member)
  have queued : ((events.flatMap SysEvent.device).flatMap Event.pops).Sublist (sentBy w events) := by
    rw [sent, device_fifo_law (system_device_any run)]
    exact List.sublist_append_left _ _
  have texts : (sentBy w events).filter (· ≠ terminatorText) = (events.flatMap (SysEvent.appendedItems w)).map Item.data := by
    rw [sent_appended w run, log_texts _ (appended_text w writer run), appended_items_eq]
  refine (puts_taken r reader run).trans (((taken.trans queued).filter _).trans ?_)
  rw [texts]
  exact (((List.sublist_append_left _ _).trans (appended_order w writer run)).trans (picks_order own)).map _

end Order

-- The first of the Writer's two strings is refused and picked up again while
-- the second one is still in ebuffer.
def stubbornSchedule : List (SysAction Bool Empty) :=
  usersGo true .main 2 ++ wholeCall true .main 3 ++ usersGo true .main 8 ++ usersGo true (.source 0) 4 ++
    List.replicate 8 (.user true (.go (.source 0) { rand := fun _ => 1 })) ++ usersGo true .main 5 ++
    usersGo true (.elaborate 0) 17 ++ usersGo true (.sink 0) 2 ++ failingCall true (.sink 0) 1 ++ wholeCall true (.sink 0) 7 ++
    usersGo true (.sink 0) 5 ++ wholeCall true (.sink 0) 7 ++ usersGo false .main 2 ++ wholeCall false .main 3 ++ usersGo false .main 12 ++
    usersGo false (.source 0) 2 ++ wholeCall false (.source 0) 7 ++ usersGo false (.source 0) 5 ++ wholeCall false (.source 0) 7 ++
    usersGo false (.source 0) 3

theorem order_preserved_stubborn : ∃ (events : List (SysEvent Bool Empty)) (s : Sys Bool Empty),
    Run (system (onePair 2 0)) Any (systemStart (onePair 2 0)) events s ∧
    (events.flatMap (SysEvent.ofPipe false)).flatMap UserEvent.putData = [[97], [98, 98]] ∧
    ((events.flatMap (SysEvent.ofPipe false)).flatMap UserEvent.putData).Sublist
      (((events.flatMap (SysEvent.ofPipe true)).flatMap UserEvent.inserts).map Item.data) := by
  obtain ⟨events, s, run, seen⟩ := exec_reaches_any (system (onePair 2 0)) (systemStart (onePair 2 0)) stubbornSchedule
    (fun _ events => (events.flatMap (SysEvent.ofPipe false)).flatMap UserEvent.putData = [[97], [98, 98]]) (by decide +kernel)
  have heard : (events.flatMap (SysEvent.ofPipe false)).flatMap UserEvent.putData = [[97], [98, 98]] := by simpa using seen
  exact ⟨events, s, run, heard, order_preserved true false rfl (by decide) rfl run⟩

end MyDev
