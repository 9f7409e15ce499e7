import MyDev.Library.Channel
import MyDev.Library.Workers
import MyDev.PipelineJoin

set_option autoImplicit false

namespace MyDev

open Library

def NoSigint (_ : Pipe) : UserAction → Prop
  | .sigint _ => False
  | _ => True

def UserEvent.puts : UserEvent → List Item
  | .put item => [item]
  | _ => []

def UserEvent.takes : UserEvent → List Item
  | .taken item => [item]
  | _ => []

def UserEvent.inserts : UserEvent → List Item
  | .elaborated item => [item]
  | _ => []

def UserEvent.picks : UserEvent → List Item
  | .picked item => [item]
  | _ => []

def ElaboratePc.stopped : ElaboratePc → Bool
  | .unlockStop | .exited => true
  | _ => false

def SinkPc.stopped : SinkPc → Bool
  | .unlock true | .sleep true | .exited => true
  | _ => false

-- rbuffer between create_data or read_dev and elaborate_data, and ebuffer
-- between elaborate_data and write_dev or print_data. The producers of a buffer
-- are finished when main has joined them.
def rawChannel (s : Pipe) : Channel Item where
  items := s.rbuffer.items
  done := s.rbuffer.done = true
  finished := 4 < s.main.phase
  stopped := ∃ i, (s.elaborators i).stopped = true

def elaboratedChannel (s : Pipe) : Channel Item where
  items := s.ebuffer.items
  done := s.ebuffer.done = true
  finished := 6 < s.main.phase
  stopped := ∃ i, (s.sinks i).stopped = true

-- Without a signal no handler ever runs, and main finds the buffers as the
-- program text has them when it initialises them.
structure Calm (s : Pipe) : Prop where
  hands : ∀ t, s.hands t = none
  raw : s.main.phase = 0 → s.rbuffer.items = [] ∧ s.rbuffer.done = false
  elaborated : s.main.phase = 0 → s.ebuffer.items = [] ∧ s.ebuffer.done = false

theorem phase_mono (prog : Prog) (s next : Pipe) (goes : MainTo prog s next) : s.main.phase ≤ next.main.phase := by
  cases goes with
  | stay same => rw [same]
  | early zero => omega
  | @create stage _ point _ moved => rw [point, moved]; cases stage <;> simp [MainPc.phase]
  | @spawned stage _ point _ moved => rw [point, moved]; cases stage <;> simp [MainPc.phase, Stage.spawned]
  | @join stage _ point _ moved => rw [point, moved]; cases stage <;> simp [MainPc.phase]
  | @joined stage _ point _ moved => rw [point, moved]; cases stage <;> cases prog <;> simp [MainPc.phase, Stage.joined]
  | onward _ after => exact after

theorem live_spawned (s : Pipe) (stage : Stage) (i : Nat) (inv : JoinInv s) (alive : s.life i stage = .live) :
    0 < s.main.phase := by
  have spawned := (inv.born stage i (by rw [alive]; simp)).2
  by_contra zero
  exact spawned_not_early s.main stage i (.inl (by omega)) spawned

theorem live_not_joined (s : Pipe) (stage : Stage) (i : Nat) (inv : JoinInv s) (alive : s.life i stage = .live) :
    ¬ stage.joinPhase < s.main.phase := fun past => inv.joined stage i (.inl past) alive

structure Flow (s next : Pipe) (out : List UserEvent) : Prop where
  hands : next.hands = s.hands
  raw : s.rbuffer.items ++ out.flatMap UserEvent.puts = out.flatMap UserEvent.takes ++ next.rbuffer.items
  elaborated : s.ebuffer.items ++ out.flatMap UserEvent.inserts = out.flatMap UserEvent.picks ++ next.ebuffer.items

theorem flow_still (s next : Pipe) (hands : next.hands = s.hands) (raw : next.rbuffer.items = s.rbuffer.items)
    (elaborated : next.ebuffer.items = s.ebuffer.items) : Flow s next [] :=
  ⟨hands, by simp [raw], by simp [elaborated]⟩

theorem source_flow (prog : Prog) (s next : Pipe) (j : Nat) (out : List UserEvent) (move : SourceMove prog s j next out) :
    Flow s next out ∧ next.rbuffer.done = s.rbuffer.done ∧ out.flatMap UserEvent.takes = [] ∧
      out.flatMap UserEvent.inserts = [] := by
  cases move with
  | acquire | spent | ask | release | rest => exact ⟨flow_still s _ rfl rfl rfl, rfl, rfl, rfl⟩
  | failed _ _ _ signalled | last _ _ _ _ signalled =>
      obtain ⟨_, rfl, _⟩ := signal_r_spec _ _ _ signalled
      exact ⟨⟨rfl, by simp [UserEvent.puts, UserEvent.takes, Pipe.setSource, Pipe.endLoop],
        by simp [UserEvent.inserts, UserEvent.picks, Pipe.setSource, Pipe.endLoop]⟩, rfl, rfl, rfl⟩
  | create _ _ _ signalled | receive _ _ _ _ signalled =>
      obtain ⟨_, rfl, _⟩ := signal_r_spec _ _ _ signalled
      exact ⟨⟨rfl, by simp [UserEvent.puts, UserEvent.takes, Pipe.setSource, Pipe.putRaw, Pipe.drawn],
        by simp [UserEvent.inserts, UserEvent.picks, Pipe.setSource, Pipe.putRaw, Pipe.drawn]⟩, rfl, rfl, rfl⟩

theorem elaborate_flow (change : Bytes → Bytes) (s next : Pipe) (j : Nat) (out : List UserEvent)
    (move : ElaborateMove change s j next out) :
    Flow s next out ∧ next.rbuffer.done = s.rbuffer.done ∧ next.ebuffer.done = s.ebuffer.done ∧
      out.flatMap UserEvent.puts = [] ∧ out.flatMap UserEvent.picks = [] := by
  cases move with
  | take point found =>
      obtain ⟨items, done⟩ := wbuf_ext_some _ _ _ found
      exact ⟨⟨rfl, by simp [UserEvent.puts, UserEvent.takes, Pipe.setElaborator, items],
        by simp [UserEvent.inserts, UserEvent.picks, Pipe.setElaborator]⟩, done, rfl, rfl, rfl⟩
  | insert point signalled =>
      obtain ⟨_, rfl, _⟩ := signal_e_spec _ _ _ signalled
      exact ⟨⟨rfl, by simp [UserEvent.puts, UserEvent.takes, Pipe.setElaborator, Pipe.putElaborated],
        by simp [UserEvent.inserts, UserEvent.picks, Pipe.setElaborator, Pipe.putElaborated]⟩, rfl, rfl, rfl, rfl⟩
  | _ => exact ⟨flow_still s _ rfl rfl rfl, rfl, rfl, rfl, rfl⟩

theorem sink_flow (prog : Prog) (s next : Pipe) (j : Nat) (out : List UserEvent) (move : SinkMove prog s j next out) :
    Flow s next out ∧ next.ebuffer.done = s.ebuffer.done ∧ out.flatMap UserEvent.puts = [] ∧
      out.flatMap UserEvent.takes = [] ∧ out.flatMap UserEvent.inserts = [] := by
  cases move with
  | take point found =>
      obtain ⟨items, done⟩ := wbuf_ext_some _ _ _ found
      exact ⟨⟨rfl, by simp [UserEvent.puts, UserEvent.takes, Pipe.setSink],
        by simp [UserEvent.inserts, UserEvent.picks, Pipe.setSink, items]⟩, done, rfl, rfl, rfl⟩
  | settle | print =>
      exact ⟨⟨rfl, by simp [UserEvent.puts, UserEvent.takes, Pipe.setSink],
        by simp [UserEvent.inserts, UserEvent.picks, Pipe.setSink]⟩, rfl, rfl, rfl, rfl⟩
  | _ => exact ⟨flow_still s _ rfl rfl rfl, rfl, rfl, rfl, rfl⟩

theorem main_flow (prog : Prog) (s next : Pipe) (out : List UserEvent) (calm : Calm s) (move : MainMove prog s next out) :
    Flow s next out ∧ out.flatMap UserEvent.puts = [] ∧ out.flatMap UserEvent.inserts = [] ∧
      (next.rbuffer.done = s.rbuffer.done ∨ s.main = .relSet .raw ∧ next.rbuffer.done = true) ∧
      (next.ebuffer.done = s.ebuffer.done ∨ s.main = .relSet .elaborated ∧ next.ebuffer.done = true) := by
  cases move with
  | init point =>
      obtain ⟨rawEmpty, rawOpen⟩ := calm.raw (by rw [point]; rfl)
      obtain ⟨empty, unclosed⟩ := calm.elaborated (by rw [point]; rfl)
      refine ⟨flow_still s _ rfl ?_ ?_, rfl, rfl, .inl ?_, .inl ?_⟩ <;> simp [Pipe.setMain, rawEmpty, rawOpen, empty, unclosed]
  | @create stage => cases stage <;> exact ⟨flow_still s _ rfl rfl rfl, rfl, rfl, .inl rfl, .inl rfl⟩
  | relAcquire _ free =>
      rcases lock_main_spec _ _ _ _ free with rfl | rfl <;>
        exact ⟨flow_still s _ rfl rfl rfl, rfl, rfl, .inl rfl, .inl rfl⟩
  | @relSet buf point =>
      cases buf with
      | raw => exact ⟨flow_still s _ rfl rfl rfl, rfl, rfl, .inr ⟨point, rfl⟩, .inl rfl⟩
      | elaborated => exact ⟨flow_still s _ rfl rfl rfl, rfl, rfl, .inl rfl, .inr ⟨point, rfl⟩⟩
  | @relUnlock buf => cases buf <;> exact ⟨flow_still s _ rfl rfl rfl, rfl, rfl, .inl rfl, .inl rfl⟩
  | doneCheck =>
      exact ⟨⟨rfl, by simp [UserEvent.puts, UserEvent.takes, Pipe.setMain],
        by simp [UserEvent.inserts, UserEvent.picks, Pipe.setMain]⟩, rfl, rfl, .inl rfl, .inl rfl⟩
  | _ => exact ⟨flow_still s _ rfl rfl rfl, rfl, rfl, .inl rfl, .inl rfl⟩

theorem ret_flow (s next : Pipe) (t : Tid) (res : Int) (got : Bytes) (out : List UserEvent)
    (move : RetMove s res got t next out) :
    Flow s next out ∧ out.flatMap UserEvent.puts = [] ∧ out.flatMap UserEvent.inserts = [] ∧
      next.rbuffer = s.rbuffer ∧ next.ebuffer = s.ebuffer := by
  cases move with
  | openDev | done | closeDev => exact ⟨flow_still s _ rfl rfl rfl, rfl, rfl, rfl, rfl⟩
  | read | written | refused =>
      exact ⟨⟨rfl, by simp [UserEvent.puts, UserEvent.takes, Pipe.setSource, Pipe.setSink],
        by simp [UserEvent.inserts, UserEvent.picks, Pipe.setSource, Pipe.setSink]⟩, rfl, rfl, rfl, rfl⟩

structure CalmMove (s next : Pipe) (out : List UserEvent) : Prop where
  flow : Flow s next out
  puts : out.flatMap UserEvent.puts ≠ [] → ∃ i, s.life i .source = .live
  inserts : out.flatMap UserEvent.inserts ≠ [] → ∃ i, s.life i .elaborate = .live
  raw : next.rbuffer.done = s.rbuffer.done ∨ s.main = .relSet .raw ∧ next.rbuffer.done = true
  elaborated : next.ebuffer.done = s.ebuffer.done ∨ s.main = .relSet .elaborated ∧ next.ebuffer.done = true

theorem hand_absent (s next : Pipe) (t : Tid) (calm : Calm s) (move : HandMove s t next) : False := by
  have none := calm.hands t
  cases move with
  | load point | store point | check point | acquireR point | bodyR point | acquireE point | unlockR point | bodyE point
  | unlockE point => simp [point] at none

theorem calm_moves (prog : Prog) (s next : Pipe) (action : UserAction) (out : List UserEvent) (calm : Calm s)
    (quiet : NoSigint s action) (move : PipeMove prog s action next out) : CalmMove s next out := by
  cases move with
  | @source i _ _ _ move =>
      obtain ⟨flow, done, _, inserts⟩ := source_flow prog s next _ out move
      have alive := (source_step_life prog s next i out move).1
      exact ⟨flow, fun _ => ⟨i, alive⟩, fun some => absurd inserts some, .inl done,
        .inl (by rw [(source_frame prog s next i out move).ebuffer])⟩
  | @elaborate i _ _ _ move =>
      obtain ⟨flow, raw, elaborated, puts, _⟩ := elaborate_flow prog.change s next _ out move
      have alive := (elaborate_step_life prog.change s next i out move).1
      exact ⟨flow, fun some => absurd puts some, fun _ => ⟨i, alive⟩, .inl raw, .inl elaborated⟩
  | @sink i _ _ _ move =>
      obtain ⟨flow, done, puts, _, inserts⟩ := sink_flow prog s next _ out move
      exact ⟨flow, fun some => absurd puts some, fun some => absurd inserts some,
        .inl (by rw [(sink_frame prog s next i out move).rbuffer]), .inl done⟩
  | main move =>
      obtain ⟨flow, puts, inserts, raw, elaborated⟩ := main_flow prog s next out calm move
      exact ⟨flow, fun some => absurd puts some, fun some => absurd inserts some, raw, elaborated⟩
  | hand move => exact (hand_absent s next _ calm move).elim
  | call move =>
      have still : Flow s next [] ∧ next.rbuffer = s.rbuffer ∧ next.ebuffer = s.ebuffer := by
        cases move <;> exact ⟨flow_still s _ rfl rfl rfl, rfl, rfl⟩
      obtain ⟨flow, raw, elaborated⟩ := still
      exact ⟨flow, fun some => absurd rfl some, fun some => absurd rfl some, .inl (by rw [raw]), .inl (by rw [elaborated])⟩
  | ret move =>
      obtain ⟨flow, puts, inserts, raw, elaborated⟩ := ret_flow s next _ _ _ out move
      exact ⟨flow, fun some => absurd puts some, fun some => absurd inserts some, .inl (by rw [raw]),
        .inl (by rw [elaborated])⟩
  | spuriousR | spuriousE =>
      exact ⟨flow_still s _ rfl rfl rfl, fun some => absurd rfl some, fun some => absurd rfl some, .inl rfl, .inl rfl⟩
  | sigint => exact quiet.elim

theorem calm_kept (prog : Prog) (s next : Pipe) (action : UserAction) (out : List UserEvent) (inv : JoinInv s) (calm : Calm s)
    (quiet : NoSigint s action) (move : PipeMove prog s action next out) : Calm next := by
  have effect := calm_moves prog s next action out calm quiet move
  have later := phase_mono prog s next (pipe_main_to prog s next action out move)
  refine ⟨fun t => by rw [effect.flow.hands]; exact calm.hands t, ?_, ?_⟩
  · intro zero
    have early : s.main.phase = 0 := by omega
    obtain ⟨empty, unclosed⟩ := calm.raw early
    have nothing : out.flatMap UserEvent.puts = [] := by
      by_contra some
      obtain ⟨i, alive⟩ := effect.puts some
      have spawned := live_spawned s .source i inv alive
      omega
    have flow := effect.flow.raw
    rw [empty, nothing] at flow
    refine ⟨(List.append_eq_nil_iff.mp flow.symm).2, ?_⟩
    rcases effect.raw with same | ⟨point, _⟩
    · rw [same, unclosed]
    · rw [point] at early
      cases early
  · intro zero
    have early : s.main.phase = 0 := by omega
    obtain ⟨empty, unclosed⟩ := calm.elaborated early
    have nothing : out.flatMap UserEvent.inserts = [] := by
      by_contra some
      obtain ⟨i, alive⟩ := effect.inserts some
      have spawned := live_spawned s .elaborate i inv alive
      omega
    have flow := effect.flow.elaborated
    rw [empty, nothing] at flow
    refine ⟨(List.append_eq_nil_iff.mp flow.symm).2, ?_⟩
    rcases effect.elaborated with same | ⟨point, _⟩
    · rw [same, unclosed]
    · rw [point] at early
      cases early

theorem update_stopped {τ : Type} (stopped : τ → Bool) (threads : Nat → τ) (i j : Nat) (pc : τ)
    (own : stopped pc = true → stopped (threads j) = true) (after : stopped (Function.update threads j pc i) = true) :
    stopped (threads i) = true := by
  by_cases here : i = j
  · subst here
    rw [Function.update_self] at after
    exact own after
  · rwa [Function.update_of_ne here] at after

theorem elaborate_stops (change : Bytes → Bytes) (s next : Pipe) (i j : Nat) (out : List UserEvent)
    (move : ElaborateMove change s j next out) (after : (next.elaborators i).stopped = true) :
    (s.elaborators i).stopped = true ∨ next.rbuffer.done = true ∧ next.rbuffer.items = [] := by
  cases move with
  | stop point empty closed => exact .inr ⟨closed, empty⟩
  | insert point signalled =>
      obtain ⟨_, rfl, _⟩ := signal_e_spec _ _ _ signalled
      exact .inl (update_stopped ElaboratePc.stopped _ i j _ (fun stop => by cases stop) after)
  | leave point => exact .inl (update_stopped ElaboratePc.stopped _ i j _ (fun _ => by rw [point]; rfl) after)
  | _ => exact .inl (update_stopped ElaboratePc.stopped _ i j _ (fun stop => by cases stop) after)

theorem sink_stops (prog : Prog) (s next : Pipe) (i j : Nat) (out : List UserEvent) (move : SinkMove prog s j next out)
    (after : (next.sinks i).stopped = true) :
    (s.sinks i).stopped = true ∨ next.ebuffer.done = true ∧ next.ebuffer.items = [] := by
  cases move with
  | stop point empty closed => exact .inr ⟨closed, empty⟩
  | @release stop point | @rest stop point =>
      refine .inl (update_stopped SinkPc.stopped _ i j _ (fun stops => ?_) after)
      rw [point]
      cases stop with
      | true => rfl
      | false => cases stops
  | _ => exact .inl (update_stopped SinkPc.stopped _ i j _ (fun stop => by cases stop) after)

theorem main_elaborators_stop (prog : Prog) (s next : Pipe) (i : Nat) (out : List UserEvent) (move : MainMove prog s next out)
    (after : (next.elaborators i).stopped = true) : (s.elaborators i).stopped = true := by
  cases move with
  | @create stage =>
      cases stage with
      | elaborate => exact update_stopped ElaboratePc.stopped _ i _ _ (fun stop => by cases stop) after
      | _ => exact after
  | relAcquire _ free => rcases lock_main_spec _ _ _ _ free with rfl | rfl <;> exact after
  | @relSet buf =>
      cases buf with
      | raw =>
          have same := roused_same ElaboratePc.stopped _ _ _ _ (cond_broadcast_roused .wait .lock s.elaborators i) rfl
          exact same ▸ after
      | elaborated => exact after
  | @relUnlock buf => cases buf <;> exact after
  | _ => exact after

theorem main_sinks_stop (prog : Prog) (s next : Pipe) (i : Nat) (out : List UserEvent) (move : MainMove prog s next out)
    (after : (next.sinks i).stopped = true) : (s.sinks i).stopped = true := by
  cases move with
  | @create stage =>
      cases stage with
      | sink => exact update_stopped SinkPc.stopped _ i _ _ (fun stop => by cases stop) after
      | _ => exact after
  | relAcquire _ free => rcases lock_main_spec _ _ _ _ free with rfl | rfl <;> exact after
  | @relSet buf =>
      cases buf with
      | elaborated =>
          have same := roused_same SinkPc.stopped _ _ _ _ (cond_broadcast_roused .wait .lock s.sinks i) rfl
          exact same ▸ after
      | raw => exact after
  | @relUnlock buf => cases buf <;> exact after
  | _ => exact after

theorem elaborators_stop (prog : Prog) (s next : Pipe) (action : UserAction) (out : List UserEvent) (i : Nat)
    (move : PipeMove prog s action next out) (after : (next.elaborators i).stopped = true) :
    (s.elaborators i).stopped = true ∨ next.rbuffer.done = true ∧ next.rbuffer.items = [] := by
  cases move with
  | source move =>
      have same := roused_same ElaboratePc.stopped _ _ _ _ ((source_frame prog s next _ out move).roused i) rfl
      exact .inl (same ▸ after)
  | elaborate move => exact elaborate_stops prog.change s next i _ out move after
  | sink move => exact .inl ((sink_frame prog s next _ out move).elaborators ▸ after)
  | main move => exact .inl (main_elaborators_stop prog s next i out move after)
  | hand move => exact .inl ((hand_frame s next _ move).elaborators ▸ after)
  | call move => exact .inl (by cases move <;> exact after)
  | ret move => exact .inl (by cases move <;> exact after)
  | spuriousR => exact .inl (update_stopped ElaboratePc.stopped _ i _ _ (fun stop => by cases stop) after)
  | spuriousE | sigint => exact .inl after

theorem sinks_stop (prog : Prog) (s next : Pipe) (action : UserAction) (out : List UserEvent) (i : Nat)
    (move : PipeMove prog s action next out) (after : (next.sinks i).stopped = true) :
    (s.sinks i).stopped = true ∨ next.ebuffer.done = true ∧ next.ebuffer.items = [] := by
  cases move with
  | source move => exact .inl ((source_frame prog s next _ out move).sinks ▸ after)
  | elaborate move =>
      have same := roused_same SinkPc.stopped _ _ _ _ ((elaborate_frame prog.change s next _ out move).roused i) rfl
      exact .inl (same ▸ after)
  | sink move => exact sink_stops prog s next i _ out move after
  | main move => exact .inl (main_sinks_stop prog s next i out move after)
  | hand move => exact .inl ((hand_frame s next _ move).sinks ▸ after)
  | call move =>
      cases move with
      | write => exact .inl (update_stopped SinkPc.stopped _ i _ _ (fun stop => by cases stop) after)
      | _ => exact .inl after
  | ret move =>
      cases move with
      | written | refused => exact .inl (update_stopped SinkPc.stopped _ i _ _ (fun stop => by cases stop) after)
      | _ => exact .inl after
  | spuriousE => exact .inl (update_stopped SinkPc.stopped _ i _ _ (fun stop => by cases stop) after)
  | spuriousR | sigint => exact .inl after

theorem raw_channel_move (prog : Prog) (s next : Pipe) (action : UserAction) (out : List UserEvent) (inv : JoinInv s)
    (calm : Calm s) (quiet : NoSigint s action) (move : PipeMove prog s action next out) :
    ChannelMove (rawChannel s) (rawChannel next) (out.flatMap UserEvent.puts) (out.flatMap UserEvent.takes) := by
  have effect := calm_moves prog s next action out calm quiet move
  have later := phase_mono prog s next (pipe_main_to prog s next action out move)
  refine ⟨effect.flow.raw, ?_, ?_, ?_, fun finished => Nat.lt_of_lt_of_le finished later, ?_⟩
  · intro some
    obtain ⟨i, alive⟩ := effect.puts some
    exact live_not_joined s .source i inv alive
  · intro closed
    rcases effect.raw with same | ⟨point, _⟩
    · exact .inl (same.symm.trans closed)
    · exact .inr (by simp [rawChannel, point, MainPc.phase])
  · intro closed
    rcases effect.raw with same | ⟨_, now⟩
    · exact same.trans closed
    · exact now
  · rintro ⟨i, after⟩
    exact (elaborators_stop prog s next action out i move after).imp_left fun before => ⟨i, before⟩

theorem elaborated_channel_move (prog : Prog) (s next : Pipe) (action : UserAction) (out : List UserEvent) (inv : JoinInv s)
    (calm : Calm s) (quiet : NoSigint s action) (move : PipeMove prog s action next out) :
    ChannelMove (elaboratedChannel s) (elaboratedChannel next) (out.flatMap UserEvent.inserts)
      (out.flatMap UserEvent.picks) := by
  have effect := calm_moves prog s next action out calm quiet move
  have later := phase_mono prog s next (pipe_main_to prog s next action out move)
  refine ⟨effect.flow.elaborated, ?_, ?_, ?_, fun finished => Nat.lt_of_lt_of_le finished later, ?_⟩
  · intro some
    obtain ⟨i, alive⟩ := effect.inserts some
    exact live_not_joined s .elaborate i inv alive
  · intro closed
    rcases effect.elaborated with same | ⟨point, _⟩
    · exact .inl (same.symm.trans closed)
    · exact .inr (by simp [elaboratedChannel, point, MainPc.phase])
  · intro closed
    rcases effect.elaborated with same | ⟨_, now⟩
    · exact same.trans closed
    · exact now
  · rintro ⟨i, after⟩
    exact (sinks_stop prog s next action out i move after).imp_left fun before => ⟨i, before⟩

section Runs

variable {prog : Prog} {arg : Int} {events : List UserEvent} {start s : Pipe}

theorem calm_from (joins : JoinInv start) (initially : Calm start) (run : Run (pipeline prog) NoSigint start events s) :
    Calm s := by
  induction run with
  | nil => exact initially
  | snoc action before quiet stepped ih =>
      exact calm_kept prog _ _ action _ (join_inv_from joins before) ih quiet (pipe_moves prog _ _ action _ stepped)

theorem raw_channel_from (joins : JoinInv start) (calm : Calm start) (sound : (rawChannel start).Sound)
    (empty : start.rbuffer.items = []) (run : Run (pipeline prog) NoSigint start events s) :
    (rawChannel s).Sound ∧ events.flatMap UserEvent.puts = events.flatMap UserEvent.takes ++ s.rbuffer.items := by
  refine channel_run rawChannel UserEvent.puts UserEvent.takes sound empty ?_ run
  intro _ s action next out before quiet stepped
  exact raw_channel_move prog s next action out (join_inv_from joins before) (calm_from joins calm before) quiet
    (pipe_moves prog s next action out stepped)

theorem elaborated_channel_from (joins : JoinInv start) (calm : Calm start) (sound : (elaboratedChannel start).Sound)
    (empty : start.ebuffer.items = []) (run : Run (pipeline prog) NoSigint start events s) :
    (elaboratedChannel s).Sound ∧ events.flatMap UserEvent.inserts = events.flatMap UserEvent.picks ++ s.ebuffer.items := by
  refine channel_run elaboratedChannel UserEvent.inserts UserEvent.picks sound empty ?_ run
  intro _ s action next out before quiet stepped
  exact elaborated_channel_move prog s next action out (join_inv_from joins before) (calm_from joins calm before) quiet
    (pipe_moves prog s next action out stepped)

theorem calm_start (arg : Int) : Calm (programStart arg) := ⟨fun _ => rfl, fun _ => ⟨rfl, rfl⟩, fun _ => ⟨rfl, rfl⟩⟩

theorem calm_run (run : Run (pipeline prog) NoSigint (programStart arg) events s) : Calm s :=
  calm_from (join_inv_start arg) (calm_start arg) run

theorem raw_channel_run (run : Run (pipeline prog) NoSigint (programStart arg) events s) :
    (rawChannel s).Sound ∧ events.flatMap UserEvent.puts = events.flatMap UserEvent.takes ++ s.rbuffer.items := by
  refine raw_channel_from (join_inv_start arg) (calm_start arg) ?_ rfl run
  exact ⟨fun closed => (by cases closed), fun ⟨_, stop⟩ => (by cases stop)⟩

theorem elaborated_channel_run (run : Run (pipeline prog) NoSigint (programStart arg) events s) :
    (elaboratedChannel s).Sound ∧ events.flatMap UserEvent.inserts = events.flatMap UserEvent.picks ++ s.ebuffer.items := by
  refine elaborated_channel_from (join_inv_start arg) (calm_start arg) ?_ rfl run
  exact ⟨fun closed => (by cases closed), fun ⟨_, stop⟩ => (by cases stop)⟩

end Runs

end MyDev
