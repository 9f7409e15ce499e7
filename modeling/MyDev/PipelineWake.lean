import MyDev.PipelineClose

set_option autoImplicit false

namespace MyDev

open Library

def Buf.consumers : Buf → Stage
  | .raw => .elaborate
  | .elaborated => .sink

-- Blocked in pthread_cond_wait on the condition variable of the buffer. A woken
-- waiter has left this point.
def Pipe.asleep (s : Pipe) : Buf → Nat → Bool
  | .raw, i => s.elaborators i = .wait
  | .elaborated, i => s.sinks i = .wait

theorem update_wait {τ : Type} (wait pc : τ) (threads : Nat → τ) (i j : Nat) (own : pc ≠ wait)
    (after : Function.update threads j pc i = wait) : threads i = wait := by
  by_cases here : i = j
  · subst here
    rw [Function.update_self] at after
    exact absurd after own
  · rwa [Function.update_of_ne here] at after

theorem roused_wait {τ : Type} (wait lock before after : τ) (roused : Roused wait lock before after)
    (still : after = wait) : before = wait := by
  rcases roused with same | ⟨waiting, _⟩
  · exact same ▸ still
  · exact waiting

theorem elaborate_waits (change : Bytes → Bytes) (s next : Pipe) (i j : Nat) (out : List UserEvent)
    (move : ElaborateMove change s j next out) (after : next.elaborators i = .wait) :
    s.elaborators i = .wait ∨ s.rbuffer.items = [] ∧ next.rbuffer.done = false := by
  cases move with
  | wait point empty unclosed => exact .inr ⟨empty, unclosed⟩
  | insert point signalled =>
      obtain ⟨_, rfl, _⟩ := signal_e_spec _ _ _ signalled
      exact .inl (update_wait _ _ _ i j (by simp) after)
  | _ => exact .inl (update_wait _ _ _ i j (by simp) after)

theorem sink_waits (prog : Prog) (s next : Pipe) (i j : Nat) (out : List UserEvent) (move : SinkMove prog s j next out)
    (after : next.sinks i = .wait) : s.sinks i = .wait ∨ s.ebuffer.items = [] ∧ next.ebuffer.done = false := by
  cases move with
  | wait point empty unclosed => exact .inr ⟨empty, unclosed⟩
  | @rest stop point => exact .inl (update_wait _ _ _ i j (by cases stop <;> simp) after)
  | _ => exact .inl (update_wait _ _ _ i j (by simp) after)

theorem main_asleep (prog : Prog) (s next : Pipe) (buf : Buf) (i : Nat) (out : List UserEvent) (move : MainMove prog s next out)
    (after : next.asleep buf i = true) : s.asleep buf i = true ∧ s.main ≠ .relSet buf := by
  cases move with
  | @create stage j point =>
      refine ⟨?_, by simp [point]⟩
      cases buf with
      | raw =>
          cases stage with
          | elaborate => exact decide_eq_true (update_wait _ _ _ i j (by simp) (of_decide_eq_true after))
          | _ => exact after
      | elaborated =>
          cases stage with
          | sink => exact decide_eq_true (update_wait _ _ _ i j (by simp) (of_decide_eq_true after))
          | _ => exact after
  | relAcquire point free =>
      refine ⟨?_, by simp [point]⟩
      rcases lock_main_spec _ _ _ _ free with rfl | rfl <;> exact after
  | @relSet released point =>
      cases buf with
      | raw =>
          cases released with
          | raw => exact absurd (of_decide_eq_true after) (cond_broadcast_none _ _ s.elaborators i (by simp))
          | elaborated => exact ⟨after, by simp [point]⟩
      | elaborated =>
          cases released with
          | elaborated => exact absurd (of_decide_eq_true after) (cond_broadcast_none _ _ s.sinks i (by simp))
          | raw => exact ⟨after, by simp [point]⟩
  | @relUnlock released point => exact ⟨by cases released <;> exact after, by simp [point]⟩
  | boot point | ready point | counts point | init point | spawned point | join point | joined point | doneOver point
  | doneCheck point => exact ⟨after, by simp [point]⟩

theorem elaborator_asleep (prog : Prog) (s next : Pipe) (action : UserAction) (out : List UserEvent) (i : Nat) (calm : Calm s)
    (quiet : NoSigint s action) (move : PipeMove prog s action next out) (after : next.elaborators i = .wait) :
    s.elaborators i = .wait ∧ next.rbuffer.done = s.rbuffer.done ∨ s.rbuffer.items = [] ∧ next.rbuffer.done = false := by
  cases move with
  | source move =>
      exact .inl ⟨roused_wait _ _ _ _ ((source_frame prog s next _ out move).roused i) after,
        (source_flow prog s next _ out move).2.1⟩
  | elaborate move =>
      exact (elaborate_waits prog.change s next i _ out move after).imp_left fun before =>
        ⟨before, (elaborate_flow prog.change s next _ out move).2.1⟩
  | sink move =>
      have frame := sink_frame prog s next _ out move
      exact .inl ⟨frame.elaborators ▸ after, by rw [frame.rbuffer]⟩
  | main move =>
      obtain ⟨before, elsewhere⟩ := main_asleep prog s next .raw i out move (decide_eq_true after)
      obtain ⟨_, _, _, raw, _⟩ := main_flow prog s next out calm move
      exact .inl ⟨of_decide_eq_true before, raw.resolve_right fun ⟨point, _⟩ => elsewhere point⟩
  | hand move => exact (hand_absent s next _ calm move).elim
  | call move => exact .inl (by cases move <;> exact ⟨after, rfl⟩)
  | ret move => exact .inl (by cases move <;> exact ⟨after, rfl⟩)
  | @spuriousR j => exact .inl ⟨update_wait _ _ _ i j (by simp) after, rfl⟩
  | spuriousE => exact .inl ⟨after, rfl⟩
  | sigint => exact quiet.elim

theorem sink_asleep (prog : Prog) (s next : Pipe) (action : UserAction) (out : List UserEvent) (i : Nat) (calm : Calm s)
    (quiet : NoSigint s action) (move : PipeMove prog s action next out) (after : next.sinks i = .wait) :
    s.sinks i = .wait ∧ next.ebuffer.done = s.ebuffer.done ∨ s.ebuffer.items = [] ∧ next.ebuffer.done = false := by
  cases move with
  | source move =>
      have frame := source_frame prog s next _ out move
      exact .inl ⟨frame.sinks ▸ after, by rw [frame.ebuffer]⟩
  | elaborate move =>
      exact .inl ⟨roused_wait _ _ _ _ ((elaborate_frame prog.change s next _ out move).roused i) after,
        (elaborate_flow prog.change s next _ out move).2.2.1⟩
  | sink move =>
      exact (sink_waits prog s next i _ out move after).imp_left fun before =>
        ⟨before, (sink_flow prog s next _ out move).2.1⟩
  | main move =>
      obtain ⟨before, elsewhere⟩ := main_asleep prog s next .elaborated i out move (decide_eq_true after)
      obtain ⟨_, _, _, _, elaborated⟩ := main_flow prog s next out calm move
      exact .inl ⟨of_decide_eq_true before, elaborated.resolve_right fun ⟨point, _⟩ => elsewhere point⟩
  | hand move => exact (hand_absent s next _ calm move).elim
  | call move =>
      cases move with
      | @write j => exact .inl ⟨update_wait _ _ _ i j (by simp) after, rfl⟩
      | _ => exact .inl ⟨after, rfl⟩
  | ret move =>
      cases move with
      | @written j | @refused j => exact .inl ⟨update_wait _ _ _ i j (by simp) after, rfl⟩
      | _ => exact .inl ⟨after, rfl⟩
  | spuriousR => exact .inl ⟨after, rfl⟩
  | @spuriousE j => exact .inl ⟨update_wait _ _ _ i j (by simp) after, rfl⟩
  | sigint => exact quiet.elim

theorem asleep_back (prog : Prog) (s next : Pipe) (action : UserAction) (out : List UserEvent) (buf : Buf) (i : Nat)
    (calm : Calm s) (quiet : NoSigint s action) (move : PipeMove prog s action next out) (after : next.asleep buf i = true) :
    s.asleep buf i = true ∧ (next.buffer buf).done = (s.buffer buf).done ∨
      (s.buffer buf).items = [] ∧ (next.buffer buf).done = false := by
  cases buf with
  | raw =>
      have back := elaborator_asleep prog s next action out i calm quiet move (of_decide_eq_true after)
      exact back.imp_left fun ⟨before, same⟩ => ⟨decide_eq_true before, same⟩
  | elaborated =>
      have back := sink_asleep prog s next action out i calm quiet move (of_decide_eq_true after)
      exact back.imp_left fun ⟨before, same⟩ => ⟨decide_eq_true before, same⟩

def Pipe.up (s : Pipe) (buf : Buf) (i : Nat) : Prop := s.life i buf.consumers = .live ∧ s.asleep buf i = false

theorem signal_r_wakes (s woken : Pipe) (wake : Nat) (signalled : s.signalR wake = some woken) :
    woken.elaborators wake = .lock ∨ ∀ i < woken.count .elaborate, woken.elaborators i ≠ .wait := by
  obtain ⟨elaborators, chosen, rfl⟩ := Option.map_eq_some_iff.mp signalled
  exact (cond_signal_wakes _ _ _ _ _ wake chosen).imp_left And.right

theorem signal_e_wakes (s woken : Pipe) (wake : Nat) (signalled : s.signalE wake = some woken) :
    woken.sinks wake = .lock ∨ ∀ i < woken.count .sink, woken.sinks i ≠ .wait := by
  obtain ⟨sinks, chosen, rfl⟩ := Option.map_eq_some_iff.mp signalled
  exact (cond_signal_wakes _ _ _ _ _ wake chosen).imp_left And.right

theorem source_put_wakes (prog : Prog) (s next : Pipe) (j : Nat) (out : List UserEvent) (move : SourceMove prog s j next out)
    (put : out.flatMap UserEvent.puts ≠ []) :
    (∃ i, next.elaborators i = .lock) ∨ ∀ i < next.count .elaborate, next.elaborators i ≠ .wait := by
  cases move with
  | acquire | spent | ask | failed | last | release | rest => exact absurd rfl put
  | @create rand wake woken _ _ _ signalled => exact (signal_r_wakes _ woken wake signalled).imp_left fun now => ⟨wake, now⟩
  | @receive res tmp wake woken _ _ _ _ signalled => exact (signal_r_wakes _ woken wake signalled).imp_left fun now => ⟨wake, now⟩

theorem elaborate_insert_wakes (change : Bytes → Bytes) (s next : Pipe) (j : Nat) (out : List UserEvent)
    (move : ElaborateMove change s j next out) (inserted : out.flatMap UserEvent.inserts ≠ []) :
    (∃ i, next.sinks i = .lock) ∨ ∀ i < next.count .sink, next.sinks i ≠ .wait := by
  cases move with
  | acquire | stop | wait | take | release | convert | acquireE | releaseE | leave => exact absurd rfl inserted
  | @insert item wake woken _ signalled => exact (signal_e_wakes _ woken wake signalled).imp_left fun now => ⟨wake, now⟩

theorem insert_wakes (prog : Prog) (s next : Pipe) (action : UserAction) (out : List UserEvent) (buf : Buf)
    (move : PipeMove prog s action next out) (inserted : out.flatMap (UserEvent.inserted buf) ≠ []) :
    (∃ i, next.up buf i) ∨ ∀ i < next.count buf.consumers, next.asleep buf i = false := by
  cases buf with
  | raw =>
      have woken : (∃ i, next.elaborators i = .lock) ∨ ∀ i < next.count .elaborate, next.elaborators i ≠ .wait := by
        cases move with
        | source move => exact source_put_wakes prog s next _ out move inserted
        | elaborate move => exact absurd (elaborate_flow prog.change s next _ out move).2.2.2.1 inserted
        | sink move => exact absurd (sink_flow prog s next _ out move).2.2.1 inserted
        | main move => exact absurd (main_quiet prog s next out move).1 inserted
        | ret move => exact absurd (ret_flow s next _ _ _ out move).2.1 inserted
        | hand | call | spuriousR | spuriousE | sigint => exact absurd rfl inserted
      rcases woken with ⟨i, now⟩ | nobody
      · exact .inl ⟨i, by simp [Buf.consumers, Pipe.life, now, ElaboratePc.life], by simp [Pipe.asleep, now]⟩
      · exact .inr fun i inside => decide_eq_false (nobody i inside)
  | elaborated =>
      have woken : (∃ i, next.sinks i = .lock) ∨ ∀ i < next.count .sink, next.sinks i ≠ .wait := by
        cases move with
        | source move => exact absurd (source_flow prog s next _ out move).2.2.2 inserted
        | elaborate move => exact elaborate_insert_wakes prog.change s next _ out move inserted
        | sink move => exact absurd (sink_flow prog s next _ out move).2.2.2.2 inserted
        | main move => exact absurd (main_quiet prog s next out move).2 inserted
        | ret move => exact absurd (ret_flow s next _ _ _ out move).2.2.1 inserted
        | hand | call | spuriousR | spuriousE | sigint => exact absurd rfl inserted
      rcases woken with ⟨i, now⟩ | nobody
      · exact .inl ⟨i, by simp [Buf.consumers, Pipe.life, now, SinkPc.life], by simp [Pipe.asleep, now]⟩
      · exact .inr fun i inside => decide_eq_false (nobody i inside)

structure Awake (s : Pipe) : Prop where
  awake : ∀ buf j, (s.buffer buf).items ≠ [] → s.life j buf.consumers = .live → ∃ i, s.up buf i
  closed : ∀ buf, (s.buffer buf).done = true → ∀ i, s.asleep buf i = false

theorem calm_buffer (s : Pipe) (buf : Buf) (calm : Calm s) (early : s.main.phase = 0) :
    (s.buffer buf).items = [] ∧ (s.buffer buf).done = false := by
  cases buf with
  | raw => exact calm.raw early
  | elaborated => exact calm.elaborated early

theorem asleep_live (s : Pipe) (buf : Buf) (i : Nat) (down : s.asleep buf i = true) : s.life i buf.consumers = .live := by
  cases buf with
  | raw => simp [Buf.consumers, Pipe.life, of_decide_eq_true down, ElaboratePc.life]
  | elaborated => simp [Buf.consumers, Pipe.life, of_decide_eq_true down, SinkPc.life]

theorem not_asleep (s : Pipe) (buf : Buf) (i : Nat) (absent : s.life i buf.consumers ≠ .live) : s.asleep buf i = false := by
  cases down : s.asleep buf i with
  | false => rfl
  | true => exact absurd (asleep_live s buf i down) absent

theorem awake_stays (prog : Prog) (s next : Pipe) (action : UserAction) (out : List UserEvent) (buf : Buf) (i : Nat)
    (calm : Calm s) (quiet : NoSigint s action) (move : PipeMove prog s action next out) (items : (s.buffer buf).items ≠ [])
    (before : s.asleep buf i = false) : next.asleep buf i = false := by
  cases down : next.asleep buf i with
  | false => rfl
  | true =>
      rcases asleep_back prog s next action out buf i calm quiet move down with ⟨still, _⟩ | ⟨empty, _⟩
      · rw [before] at still
        cases still
      · exact absurd empty items

theorem up_stays (prog : Prog) (s next : Pipe) (action : UserAction) (out : List UserEvent) (buf : Buf) (j : Nat)
    (calm : Calm s) (quiet : NoSigint s action) (awake : Awake s) (move : PipeMove prog s action next out)
    (drained : ∀ i, next.life i buf.consumers = .exited → (next.buffer buf).items = [])
    (items : (s.buffer buf).items ≠ []) (left : (next.buffer buf).items ≠ []) (alive : next.life j buf.consumers = .live) :
    ∃ i, next.up buf i := by
  have stays := fun i => awake_stays prog s next action out buf i calm quiet move items
  by_cases before : s.life j buf.consumers = .live
  · obtain ⟨i, live, up⟩ := awake.awake buf j items before
    cases life_move prog s next action i buf.consumers out move with
    | same kept => exact ⟨i, kept.trans live, stays i up⟩
    | exits _ gone => exact absurd (drained i gone) left
    | starts _ _ _ now => exact ⟨i, now, stays i up⟩
  · -- j has just been created
    exact ⟨j, alive, stays j (not_asleep s buf j before)⟩

theorem awake_move (prog : Prog) (s next : Pipe) (action : UserAction) (out : List UserEvent) (after : JoinInv next)
    (drained : ∀ buf i, next.life i (Buf.consumers buf) = .exited → (next.buffer buf).items = [])
    (calm : Calm s) (quiet : NoSigint s action) (awake : Awake s) (move : PipeMove prog s action next out) : Awake next := by
  constructor
  · intro buf j items alive
    have kept := fun before => up_stays prog s next action out buf j calm quiet awake move (drained buf) before items alive
    cases buffer_change prog s next action out buf move with
    | flow order =>
        by_cases inserted : out.flatMap (UserEvent.inserted buf) = []
        · rw [inserted, List.append_nil] at order
          refine kept ?_
          rw [order]
          exact List.append_ne_nil_of_right_ne_nil _ items
        · rcases insert_wakes prog s next action out buf move inserted with up | nobody
          · exact up
          · have inside := (after.born buf.consumers j (by rw [alive]; simp)).1
            exact ⟨j, alive, nobody j inside⟩
    | init _ fresh => exact absurd (by rw [fresh]; rfl) items
    | close _ closed =>
        rw [closed] at items
        exact kept items
    | drop _ _ dropped => exact absurd (by rw [dropped]; rfl) items
  · intro buf done i
    cases down : next.asleep buf i with
    | false => rfl
    | true =>
        rcases asleep_back prog s next action out buf i calm quiet move down with ⟨before, same⟩ | ⟨_, unclosed⟩
        · rw [awake.closed buf (same.symm.trans done) i] at before
          cases before
        · rw [unclosed] at done
          cases done

def Pipe.hasReleased (s : Pipe) : Buf → Prop
  | .raw => 5 < s.main.phase
  | .elaborated => 7 < s.main.phase

theorem main_releases (prog : Prog) (s next : Pipe) (out : List UserEvent) (buf : Buf) (move : MainMove prog s next out)
    (after : next.main = .relUnlock buf ∨ next.hasReleased buf) :
    (s.main = .relUnlock buf ∨ s.hasReleased buf) ∨ (next.buffer buf).done = true := by
  cases move with
  | @relSet held point =>
      by_cases here : held = buf
      · subst here
        exact .inr (by cases held <;> rfl)
      · cases held <;> cases buf <;> simp_all [Pipe.hasReleased, Pipe.setMain, MainPc.phase]
  | @relUnlock held point =>
      cases held <;> cases buf <;> simp_all [Pipe.hasReleased, Pipe.setMain, MainPc.phase, Buf.released]
  | @relAcquire held locked point => cases held <;> cases buf <;> simp_all [Pipe.hasReleased, Pipe.setMain, MainPc.phase]
  | @create stage _ point | @join stage _ point => cases stage <;> cases buf <;> simp_all [Pipe.hasReleased, Pipe.setMain, MainPc.phase]
  | @spawned stage _ point => cases stage <;> cases buf <;> simp_all [Pipe.hasReleased, Pipe.setMain, MainPc.phase, Stage.spawned]
  | @joined stage _ point =>
      cases stage <;> cases buf <;> cases prog <;> simp_all [Pipe.hasReleased, Pipe.setMain, MainPc.phase, Stage.joined]
  | boot point | ready point | counts point | init point | doneOver point | doneCheck point =>
      cases buf <;> simp_all [Pipe.hasReleased, Pipe.setMain, MainPc.phase]

theorem releases_back (prog : Prog) (s next : Pipe) (action : UserAction) (out : List UserEvent) (buf : Buf)
    (move : PipeMove prog s action next out) (after : next.main = .relUnlock buf ∨ next.hasReleased buf) :
    (s.main = .relUnlock buf ∨ s.hasReleased buf) ∨ (next.buffer buf).done = true := by
  have stays : next.main = s.main → s.main = .relUnlock buf ∨ s.hasReleased buf := by
    intro same
    cases buf <;> simpa only [Pipe.hasReleased, same] using after
  cases move with
  | source move => exact .inl (stays (source_frame prog s next _ out move).main)
  | elaborate move => exact .inl (stays (elaborate_frame prog.change s next _ out move).main)
  | sink move => exact .inl (stays (sink_frame prog s next _ out move).main)
  | main move => exact main_releases prog s next out buf move after
  | hand move => exact .inl (stays (hand_frame s next _ move).main)
  | call move =>
      cases move with
      | openDev point | done point | closeDev point => cases buf <;> simp_all [Pipe.hasReleased, Pipe.setMain, MainPc.phase]
      | read | write => exact .inl (stays rfl)
  | @ret _ res _ _ _ move =>
      cases move with
      | openDev point | done point =>
          by_cases zero : res = 0 <;> cases buf <;> simp_all [Pipe.hasReleased, Pipe.setMain, MainPc.phase]
      | closeDev point => cases buf <;> simp_all [Pipe.hasReleased, Pipe.setMain, MainPc.phase]
      | read | written | refused => exact .inl (stays rfl)
  | spuriousR | spuriousE | sigint => exact .inl (stays rfl)

def ReleasedDone (s : Pipe) : Prop := ∀ buf, s.main = .relUnlock buf ∨ s.hasReleased buf → (s.buffer buf).done = true

theorem released_done_move (prog : Prog) (s next : Pipe) (action : UserAction) (out : List UserEvent) (released : ReleasedDone s)
    (move : PipeMove prog s action next out) : ReleasedDone next := by
  intro buf after
  rcases releases_back prog s next action out buf move after with before | now
  · have done := released buf before
    cases buffer_change prog s next action out buf move with
    | flow _ kept => exact kept.trans done
    | init point => cases buf <;> simp [point, Pipe.hasReleased, MainPc.phase] at before
    | close _ closed => rw [closed]; rfl
    | drop _ _ dropped => rw [dropped]; rfl
  · exact now

-- The program as it starts, or main with all numbers chosen and nothing
-- initialised yet.
def poolStart (todo : Int) (loop : Bool) (nsrc nela nsnk : Nat) : Pipe :=
  { programStart todo with loop := loop, nsrc := nsrc, nela := nela, nsnk := nsnk, main := .init }

inductive Starts : Pipe → Prop where
  | program (arg : Int) : Starts (programStart arg)
  | pool (todo : Int) (loop : Bool) (nsrc nela nsnk : Nat) : Starts (poolStart todo loop nsrc nela nsnk)

structure Fresh (start : Pipe) : Prop where
  early : start.main.phase = 0
  off : ∀ stage i, start.life i stage = .off
  calm : Calm start
  asleep : ∀ buf i, start.asleep buf i = false

theorem starts_fresh (start : Pipe) (starts : Starts start) : Fresh start := by
  cases starts with
  | program arg =>
      exact ⟨rfl, fun stage i => by cases stage <;> rfl, ⟨fun _ => rfl, fun _ => ⟨rfl, rfl⟩, fun _ => ⟨rfl, rfl⟩⟩,
        fun buf i => by cases buf <;> rfl⟩
  | pool todo loop nsrc nela nsnk =>
      exact ⟨rfl, fun stage i => by cases stage <;> rfl, ⟨fun _ => rfl, fun _ => ⟨rfl, rfl⟩, fun _ => ⟨rfl, rfl⟩⟩,
        fun buf i => by cases buf <;> rfl⟩

section Runs

variable {prog : Prog} {start s : Pipe} {events : List UserEvent}

theorem released_done_from (fresh : Fresh start) (run : Run (pipeline prog) NoSigint start events s) : ReleasedDone s := by
  induction run with
  | nil =>
      intro buf released
      have early := fresh.early
      cases buf with
      | raw =>
          rcases released with point | past
          · simp [point, MainPc.phase] at early
          · exact absurd early (Nat.ne_of_gt (Nat.lt_of_le_of_lt (Nat.zero_le 5) past))
      | elaborated =>
          rcases released with point | past
          · simp [point, MainPc.phase] at early
          · exact absurd early (Nat.ne_of_gt (Nat.lt_of_le_of_lt (Nat.zero_le 7) past))
  | snoc action before quiet stepped ih => exact released_done_move prog _ _ action _ ih (pipe_moves prog _ _ action _ stepped)

theorem raw_sound_from (fresh : Fresh start) (run : Run (pipeline prog) NoSigint start events s) : (rawChannel s).Sound := by
  obtain ⟨empty, unclosed⟩ := fresh.calm.raw fresh.early
  refine (raw_channel_from (join_inv_early start fresh.early fresh.off) fresh.calm ⟨?_, ?_⟩ empty run).1
  · intro closed
    cases unclosed.symm.trans closed
  · rintro ⟨i, stop⟩
    rw [life_elaborate_off start i (fresh.off .elaborate i)] at stop
    cases stop

theorem elaborated_sound_from (fresh : Fresh start) (run : Run (pipeline prog) NoSigint start events s) :
    (elaboratedChannel s).Sound := by
  obtain ⟨empty, unclosed⟩ := fresh.calm.elaborated fresh.early
  refine (elaborated_channel_from (join_inv_early start fresh.early fresh.off) fresh.calm ⟨?_, ?_⟩ empty run).1
  · intro closed
    cases unclosed.symm.trans closed
  · rintro ⟨i, stop⟩
    rw [life_sink_off start i (fresh.off .sink i)] at stop
    cases stop

theorem exited_drained (fresh : Fresh start) (run : Run (pipeline prog) NoSigint start events s) (buf : Buf) (i : Nat)
    (gone : s.life i buf.consumers = .exited) : (s.buffer buf).items = [] := by
  cases buf with
  | raw =>
      have stopped : (s.elaborators i).stopped = true := by
        cases point : s.elaborators i <;> simp_all [Buf.consumers, Pipe.life, ElaboratePc.life, ElaboratePc.stopped]
      exact ((raw_sound_from fresh run).drained ⟨i, stopped⟩).2
  | elaborated =>
      have stopped : (s.sinks i).stopped = true := by
        cases point : s.sinks i <;> simp_all [Buf.consumers, Pipe.life, SinkPc.life, SinkPc.stopped]
      exact ((elaborated_sound_from fresh run).drained ⟨i, stopped⟩).2

theorem awake_from (fresh : Fresh start) (run : Run (pipeline prog) NoSigint start events s) : Awake s := by
  have joins := join_inv_early start fresh.early fresh.off
  induction run with
  | nil =>
      refine ⟨fun buf _ items => absurd (calm_buffer start buf fresh.calm fresh.early).1 items, fun buf _ i => fresh.asleep buf i⟩
  | snoc action before quiet stepped ih =>
      have after := before.snoc action quiet stepped
      exact awake_move prog _ _ action _ (join_inv_from joins after) (exited_drained fresh after) (calm_from joins fresh.calm before)
        quiet ih (pipe_moves prog _ _ action _ stepped)

theorem released_later (buf : Buf) (released : start.hasReleased buf) (run : Run (pipeline prog) NoSigint start events s) :
    s.hasReleased buf := by
  induction run with
  | nil => exact released
  | @snoc _ out state next action before _ stepped ih =>
      have later := phase_mono prog state next (pipe_main_to prog state next action out (pipe_moves prog state next action out stepped))
      cases buf with
      | raw => exact Nat.lt_of_lt_of_le ih later
      | elaborated => exact Nat.lt_of_lt_of_le ih later

theorem born_up (fresh : Fresh start) (run : Run (pipeline prog) NoSigint start events s) (buf : Buf) (j : Nat)
    (items : (s.buffer buf).items ≠ []) (born : s.life j buf.consumers ≠ .off) :
    ∃ i < s.count buf.consumers, s.life i buf.consumers = .live ∧ s.asleep buf i = false := by
  have alive : s.life j buf.consumers = .live := by
    cases life : s.life j buf.consumers with
    | off => exact absurd life born
    | live => rfl
    | exited => exact absurd (exited_drained fresh run buf j life) items
  have joins := join_inv_from (join_inv_early start fresh.early fresh.off) run
  obtain ⟨i, live, awake⟩ := (awake_from fresh run).awake buf j items alive
  exact ⟨i, (joins.born buf.consumers i (by rw [live]; simp)).1, live, awake⟩

theorem no_lost_wakeup (starts : Starts start) (run : Run (pipeline prog) NoSigint start events s) (buf : Buf) :
    ((s.buffer buf).items ≠ [] → 0 < s.count buf.consumers →
      ∃ i < s.count buf.consumers, s.life i buf.consumers ≠ .exited ∧ s.asleep buf i = false) ∧
    ((s.buffer buf).items ≠ [] → (∃ j, s.life j buf.consumers ≠ .off) →
      ∃ i < s.count buf.consumers, s.life i buf.consumers = .live ∧ s.asleep buf i = false) ∧
    (s.hasReleased buf → ∀ later after, Run (pipeline prog) NoSigint s later after → ∀ i, after.asleep buf i = false) := by
  have fresh := starts_fresh start starts
  refine ⟨fun items some => ?_, ?_, fun released later after continued => ?_⟩
  · by_cases unborn : s.life 0 buf.consumers = .off
    · exact ⟨0, some, by rw [unborn]; simp, not_asleep s buf 0 (by rw [unborn]; simp)⟩
    · obtain ⟨i, inside, live, awake⟩ := born_up fresh run buf 0 items unborn
      exact ⟨i, inside, by rw [live]; simp, awake⟩
  · rintro items ⟨j, born⟩
    exact born_up fresh run buf j items born
  · have whole := run.trans continued
    have still := released_later buf released continued
    exact (awake_from fresh whole).closed buf (released_done_from fresh whole buf (.inr still))

end Runs

-- Two sources, three elaborators and two sinks: all elaborators sleep when the
-- first string arrives, and one of them is woken.
theorem no_lost_wakeup_three_asleep :
    ∃ events s, Run (pipeline .writer) NoSigint (poolStart 1 false 2 3 2) events s ∧ s.rbuffer.items.length = 1 ∧
      s.asleep .raw 1 = true ∧ s.asleep .raw 2 = true ∧ ∃ i < 3, s.life i .elaborate = .live ∧ s.asleep .raw i = false := by
  obtain ⟨events, s, run, seen⟩ := exec_reaches (pipeline .writer) noSigint NoSigint no_sigint_sound (poolStart 1 false 2 3 2)
    (steps .main 11 ++ steps (.elaborate 0) 2 ++ steps (.elaborate 1) 2 ++ steps (.elaborate 2) 2 ++ steps (.source 0) 2)
    (fun s _ => s.rbuffer.items.length = 1 && s.asleep .raw 1 && s.asleep .raw 2 && s.count .elaborate = 3) (by decide +kernel)
  simp only [Bool.and_eq_true, decide_eq_true_eq] at seen
  obtain ⟨⟨⟨one, second⟩, third⟩, count⟩ := seen
  have items : (s.buffer .raw).items ≠ [] := by
    intro empty
    rw [Pipe.buffer] at empty
    simp [empty] at one
  have found := (no_lost_wakeup (.pool 1 false 2 3 2) run .raw).2.1 items ⟨1, by rw [asleep_live s .raw 1 second]; simp⟩
  rw [Buf.consumers, count] at found
  exact ⟨events, s, run, one, second, third, found⟩

end MyDev
