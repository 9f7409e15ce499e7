import MyDev.PipelineLock
import MyDev.ReaderPipeline

set_option autoImplicit false

namespace MyDev

open Library

def SourcePc.reading : SourcePc → Bool
  | .read | .inRead | .took _ _ => true
  | _ => false

def ElaboratePc.carries : ElaboratePc → Bool
  | .unlockGot _ | .work _ | .lockE _ | .insert _ => true
  | _ => false

-- After catcher_SIGINT has cut the work off no source puts anything any more,
-- and rbuffer stays empty.
structure Ended (s : Pipe) : Prop where
  loop : s.loop = false
  todo : s.todo ≤ 0
  empty : s.rbuffer.items = []
  reading : ∀ i, (s.sources i).reading = false

structure Dry (s : Pipe) : Prop where
  ended : Ended s
  carries : ∀ i, (s.elaborators i).carries = false

-- When catcher_SIGINT closes ebuffer, no elaborator carries an item.
def EmptyHanded (s : Pipe) : UserAction → Prop
  | .go t _ => s.hands t = some .bodyE → ∀ i < s.count .elaborate, (s.elaborators i).carries = false
  | _ => True

theorem update_false {τ : Type} (test : τ → Bool) (threads : Nat → τ) (i j : Nat) (pc : τ) (before : ∀ i, test (threads i) = false)
    (own : test pc = false) : test (Function.update threads j pc i) = false := by
  by_cases here : i = j
  · subst here
    rw [Function.update_self, own]
  · rw [Function.update_of_ne here, before i]

theorem ended_spent (s : Pipe) (ended : Ended s) : ¬ 0 < s.tmpTodo := by
  have nothing := ended.todo
  simp only [Pipe.tmpTodo, ended.loop, Bool.false_eq_true, if_false]
  omega

theorem source_ended (prog : Prog) (s next : Pipe) (j : Nat) (out : List UserEvent) (ended : Ended s)
    (move : SourceMove prog s j next out) : Ended next ∧ out.flatMap UserEvent.puts = [] := by
  have reading := ended.reading j
  cases move with
  | acquire point | release point =>
      exact ⟨⟨ended.loop, ended.todo, ended.empty, fun i => update_false _ _ i j _ ended.reading rfl⟩, rfl⟩
  | @rest stop point =>
      exact ⟨⟨ended.loop, ended.todo, ended.empty,
        fun i => update_false _ _ i j _ ended.reading (by cases stop <;> rfl)⟩, rfl⟩
  | spent point =>
      refine ⟨⟨ended.loop, ?_, ended.empty, fun i => update_false _ _ i j _ ended.reading rfl⟩, rfl⟩
      have nothing := ended.todo
      simp only [Pipe.setSource, Pipe.drawn, ended.loop, Bool.false_eq_true, if_false]
      omega
  | create _ _ left | ask _ _ left => exact absurd left (ended_spent s ended)
  | failed _ point | last _ point | receive _ point => simp [point, SourcePc.reading] at reading

theorem elaborate_ended (change : Bytes → Bytes) (s next : Pipe) (j : Nat) (out : List UserEvent) (ended : Ended s)
    (move : ElaborateMove change s j next out) : Ended next ∧ out.flatMap UserEvent.puts = [] := by
  have frame := elaborate_frame change s next j out move
  obtain ⟨flow, _, _, puts, _⟩ := elaborate_flow change s next j out move
  have order := flow.raw
  rw [ended.empty, puts] at order
  refine ⟨⟨?_, ?_, (List.append_eq_nil_iff.mp order.symm).2, ?_⟩, puts⟩
  · rw [frame.loop, ended.loop]
  · rw [frame.todo]
    exact ended.todo
  · rw [frame.sources]
    exact ended.reading

theorem sink_ended (prog : Prog) (s next : Pipe) (j : Nat) (out : List UserEvent) (ended : Ended s)
    (move : SinkMove prog s j next out) : Ended next ∧ out.flatMap UserEvent.puts = [] := by
  have frame := sink_frame prog s next j out move
  refine ⟨⟨?_, ?_, ?_, ?_⟩, (sink_flow prog s next j out move).2.2.1⟩
  · rw [frame.loop, ended.loop]
  · rw [frame.todo]
    exact ended.todo
  · rw [frame.rbuffer, ended.empty]
  · rw [frame.sources]
    exact ended.reading

theorem main_quiet (prog : Prog) (s next : Pipe) (out : List UserEvent) (move : MainMove prog s next out) :
    out.flatMap UserEvent.puts = [] ∧ out.flatMap UserEvent.inserts = [] := by
  cases move <;> exact ⟨rfl, rfl⟩

theorem main_ended (prog : Prog) (s next : Pipe) (out : List UserEvent) (ended : Ended s) (move : MainMove prog s next out) :
    Ended next := by
  cases move with
  | @create stage j =>
      cases stage with
      | source => exact ⟨ended.loop, ended.todo, ended.empty, fun i => update_false _ _ i j _ ended.reading rfl⟩
      | _ => exact ⟨ended.loop, ended.todo, ended.empty, ended.reading⟩
  | init => exact ⟨ended.loop, ended.todo, rfl, ended.reading⟩
  | @relSet buf => cases buf <;> exact ⟨ended.loop, ended.todo, ended.empty, ended.reading⟩
  | relAcquire _ free =>
      rcases lock_main_spec _ _ _ _ free with rfl | rfl <;> exact ⟨ended.loop, ended.todo, ended.empty, ended.reading⟩
  | @relUnlock buf => cases buf <;> exact ⟨ended.loop, ended.todo, ended.empty, ended.reading⟩
  | _ => exact ⟨ended.loop, ended.todo, ended.empty, ended.reading⟩

theorem hand_ended (s next : Pipe) (t : Tid) (ended : Ended s) (move : HandMove s t next) : Ended next := by
  cases move with
  | bodyR => exact ⟨rfl, Int.le_refl 0, rfl, ended.reading⟩
  | _ => exact ⟨ended.loop, ended.todo, ended.empty, ended.reading⟩

theorem call_ended (prog : Prog) (s next : Pipe) (t : Tid) (op : Op) (ended : Ended s) (move : CallMove prog s t op next) :
    Ended next := by
  cases move with
  | @read i _ point =>
      have reading := ended.reading i
      simp [point, SourcePc.reading] at reading
  | _ => exact ⟨ended.loop, ended.todo, ended.empty, ended.reading⟩

theorem ret_ended (s next : Pipe) (t : Tid) (res : Int) (got : Bytes) (out : List UserEvent) (ended : Ended s)
    (move : RetMove s res got t next out) : Ended next := by
  cases move with
  | @read i point =>
      have reading := ended.reading i
      simp [point, SourcePc.reading] at reading
  | _ => exact ⟨ended.loop, ended.todo, ended.empty, ended.reading⟩

theorem ended_move (prog : Prog) (s next : Pipe) (action : UserAction) (out : List UserEvent) (ended : Ended s)
    (move : PipeMove prog s action next out) : Ended next ∧ out.flatMap UserEvent.puts = [] := by
  cases move with
  | source move => exact source_ended prog s next _ out ended move
  | elaborate move => exact elaborate_ended prog.change s next _ out ended move
  | sink move => exact sink_ended prog s next _ out ended move
  | main move => exact ⟨main_ended prog s next out ended move, (main_quiet prog s next out move).1⟩
  | hand move => exact ⟨hand_ended s next _ ended move, rfl⟩
  | call move => exact ⟨call_ended prog s next _ _ ended move, rfl⟩
  | ret move => exact ⟨ret_ended s next _ _ _ out ended move, (ret_flow s next _ _ _ out move).2.1⟩
  | spuriousR | spuriousE | sigint => exact ⟨⟨ended.loop, ended.todo, ended.empty, ended.reading⟩, rfl⟩

theorem elaborate_dry (change : Bytes → Bytes) (s next : Pipe) (j : Nat) (out : List UserEvent) (dry : Dry s)
    (move : ElaborateMove change s j next out) :
    (∀ i, (next.elaborators i).carries = false) ∧ out.flatMap UserEvent.inserts = [] := by
  have empty := dry.ended.empty
  have carries := dry.carries j
  cases move with
  | take point found =>
      rw [(wbuf_ext_some _ _ _ found).1] at empty
      cases empty
  | release point | convert point | acquireE point | insert point => simp [point, ElaboratePc.carries] at carries
  | acquire | stop | wait | releaseE | leave =>
      exact ⟨fun i => update_false _ _ i j _ dry.carries rfl, rfl⟩

theorem main_dry (prog : Prog) (s next : Pipe) (out : List UserEvent) (dry : Dry s) (move : MainMove prog s next out) (i : Nat) :
    (next.elaborators i).carries = false := by
  cases move with
  | @create stage j =>
      cases stage with
      | elaborate => exact update_false _ _ i j _ dry.carries rfl
      | _ => exact dry.carries i
  | @relSet buf =>
      cases buf with
      | raw =>
          have same := roused_same ElaboratePc.carries _ _ _ _ (cond_broadcast_roused .wait .lock s.elaborators i) rfl
          exact same.trans (dry.carries i)
      | elaborated => exact dry.carries i
  | relAcquire _ free => rcases lock_main_spec _ _ _ _ free with rfl | rfl <;> exact dry.carries i
  | @relUnlock buf => cases buf <;> exact dry.carries i
  | _ => exact dry.carries i

theorem dry_move (prog : Prog) (s next : Pipe) (action : UserAction) (out : List UserEvent) (dry : Dry s)
    (move : PipeMove prog s action next out) : Dry next ∧ out.flatMap UserEvent.inserts = [] := by
  have ended := (ended_move prog s next action out dry.ended move).1
  have woken : ∀ i, Roused ElaboratePc.wait .lock (s.elaborators i) (next.elaborators i) → (next.elaborators i).carries = false :=
    fun i roused => (roused_same ElaboratePc.carries _ _ _ _ roused rfl).trans (dry.carries i)
  cases move with
  | source move =>
      exact ⟨⟨ended, fun i => woken i ((source_frame prog s next _ out move).roused i)⟩,
        (source_flow prog s next _ out move).2.2.2⟩
  | elaborate move =>
      obtain ⟨carries, inserts⟩ := elaborate_dry prog.change s next _ out dry move
      exact ⟨⟨ended, carries⟩, inserts⟩
  | sink move =>
      refine ⟨⟨ended, ?_⟩, (sink_flow prog s next _ out move).2.2.2.2⟩
      rw [(sink_frame prog s next _ out move).elaborators]
      exact dry.carries
  | main move => exact ⟨⟨ended, main_dry prog s next out dry move⟩, (main_quiet prog s next out move).2⟩
  | hand move =>
      refine ⟨⟨ended, ?_⟩, rfl⟩
      rw [(hand_frame s next _ move).elaborators]
      exact dry.carries
  | call move =>
      refine ⟨⟨ended, ?_⟩, rfl⟩
      cases move <;> exact dry.carries
  | ret move =>
      refine ⟨⟨ended, ?_⟩, (ret_flow s next _ _ _ out move).2.2.1⟩
      cases move <;> exact dry.carries
  | @spuriousR j => exact ⟨⟨ended, fun i => update_false _ _ i j _ dry.carries rfl⟩, rfl⟩
  | spuriousE | sigint => exact ⟨⟨ended, dry.carries⟩, rfl⟩

def Pipe.buffer (s : Pipe) : Buf → Wbuf
  | .raw => s.rbuffer
  | .elaborated => s.ebuffer

def UserEvent.inserted : Buf → UserEvent → List Item
  | .raw => UserEvent.puts
  | .elaborated => UserEvent.inserts

def UserEvent.extracted : Buf → UserEvent → List Item
  | .raw => UserEvent.takes
  | .elaborated => UserEvent.picks

def Buf.body : Buf → HandPc
  | .raw => .bodyR
  | .elaborated => .bodyE

inductive BufferChange (s next : Pipe) (action : UserAction) (out : List UserEvent) (buf : Buf) : Prop where
  | flow (order : (s.buffer buf).items ++ out.flatMap (UserEvent.inserted buf) =
        out.flatMap (UserEvent.extracted buf) ++ (next.buffer buf).items)
      (kept : (next.buffer buf).done = (s.buffer buf).done)
  | init (point : s.main = .init) (fresh : next.buffer buf = wbufInit)
  | close (point : s.main = .relSet buf) (closed : next.buffer buf = (s.buffer buf).close)
  | drop {t : Tid} {choice : Choice} (mine : action = .go t choice) (point : s.hands t = some buf.body)
      (dropped : next.buffer buf = (s.buffer buf).drop)

theorem change_of_flow (s next : Pipe) (action : UserAction) (out : List UserEvent) (buf : Buf) (flow : Flow s next out)
    (raw : next.rbuffer.done = s.rbuffer.done) (elaborated : next.ebuffer.done = s.ebuffer.done) :
    BufferChange s next action out buf := by
  cases buf with
  | raw => exact .flow flow.raw raw
  | elaborated => exact .flow flow.elaborated elaborated

theorem change_none (s next : Pipe) (action : UserAction) (buf : Buf) (same : next.buffer buf = s.buffer buf) :
    BufferChange s next action [] buf :=
  .flow (by rw [same]; simp) (by rw [same])

theorem main_change (prog : Prog) (s next : Pipe) (action : UserAction) (out : List UserEvent) (buf : Buf)
    (move : MainMove prog s next out) : BufferChange s next action out buf := by
  cases move with
  | init point => exact .init point (by cases buf <;> rfl)
  | @create stage => exact change_none s _ action buf (by cases stage <;> cases buf <;> rfl)
  | relAcquire _ free =>
      rcases lock_main_spec _ _ _ _ free with rfl | rfl <;> exact change_none s _ action buf (by cases buf <;> rfl)
  | @relSet closed point =>
      by_cases here : closed = buf
      · subst here
        exact .close point (by cases closed <;> rfl)
      · exact change_none s _ action buf (by cases closed <;> cases buf <;> first | rfl | exact absurd rfl here)
  | @relUnlock held => exact change_none s _ action buf (by cases held <;> cases buf <;> rfl)
  | doneCheck => exact .flow (by cases buf <;> simp [Pipe.buffer, Pipe.setMain, UserEvent.inserted, UserEvent.extracted, UserEvent.puts,
      UserEvent.takes, UserEvent.inserts, UserEvent.picks]) (by cases buf <;> rfl)
  | _ => exact change_none s _ action buf (by cases buf <;> rfl)

theorem hand_change (s next : Pipe) (t : Tid) (choice : Choice) (buf : Buf) (move : HandMove s t next) :
    BufferChange s next (.go t choice) [] buf := by
  cases move with
  | bodyR point =>
      cases buf with
      | raw => exact .drop rfl point rfl
      | elaborated => exact change_none s _ _ .elaborated rfl
  | bodyE point =>
      cases buf with
      | raw => exact change_none s _ _ .raw rfl
      | elaborated => exact .drop rfl point rfl
  | _ => exact change_none s _ _ buf (by cases buf <;> rfl)

theorem buffer_change (prog : Prog) (s next : Pipe) (action : UserAction) (out : List UserEvent) (buf : Buf)
    (move : PipeMove prog s action next out) : BufferChange s next action out buf := by
  cases move with
  | source move =>
      obtain ⟨flow, done, _⟩ := source_flow prog s next _ out move
      exact change_of_flow s next _ out buf flow done (by rw [(source_frame prog s next _ out move).ebuffer])
  | elaborate move =>
      obtain ⟨flow, raw, elaborated, _⟩ := elaborate_flow prog.change s next _ out move
      exact change_of_flow s next _ out buf flow raw elaborated
  | sink move =>
      obtain ⟨flow, done, _⟩ := sink_flow prog s next _ out move
      exact change_of_flow s next _ out buf flow (by rw [(sink_frame prog s next _ out move).rbuffer]) done
  | main move => exact main_change prog s next _ out buf move
  | hand move => exact hand_change s next _ _ buf move
  | call move => exact change_none s next _ buf (by cases move <;> cases buf <;> rfl)
  | ret move =>
      obtain ⟨flow, _, _, raw, elaborated⟩ := ret_flow s next _ _ _ out move
      exact change_of_flow s next _ out buf flow (by rw [raw]) (by rw [elaborated])
  | spuriousR | spuriousE | sigint => exact change_none s _ _ buf (by cases buf <;> rfl)

theorem puts_live (prog : Prog) (s next : Pipe) (action : UserAction) (out : List UserEvent)
    (move : PipeMove prog s action next out) (some : out.flatMap UserEvent.puts ≠ []) : ∃ i, s.life i .source = .live := by
  cases move with
  | @source i _ _ _ move => exact ⟨i, (source_step_life prog s next i out move).1⟩
  | elaborate move => exact absurd (elaborate_flow prog.change s next _ out move).2.2.2.1 some
  | sink move => exact absurd (sink_flow prog s next _ out move).2.2.1 some
  | main move => exact absurd (main_quiet prog s next out move).1 some
  | ret move => exact absurd (ret_flow s next _ _ _ out move).2.1 some
  | hand | call | spuriousR | spuriousE | sigint => exact absurd rfl some

theorem inserts_live (prog : Prog) (s next : Pipe) (action : UserAction) (out : List UserEvent)
    (move : PipeMove prog s action next out) (some : out.flatMap UserEvent.inserts ≠ []) : ∃ i, s.life i .elaborate = .live := by
  cases move with
  | source move => exact absurd (source_flow prog s next _ out move).2.2.2 some
  | @elaborate i _ _ _ move => exact ⟨i, (elaborate_step_life prog.change s next i out move).1⟩
  | sink move => exact absurd (sink_flow prog s next _ out move).2.2.2.2 some
  | main move => exact absurd (main_quiet prog s next out move).2 some
  | ret move => exact absurd (ret_flow s next _ _ _ out move).2.2.1 some
  | hand | call | spuriousR | spuriousE | sigint => exact absurd rfl some

def Shut (s : Pipe) : Buf → Prop
  | .raw => Ended s ∨ 4 < s.main.phase
  | .elaborated => Dry s ∨ 6 < s.main.phase

theorem shut_move (prog : Prog) (s next : Pipe) (action : UserAction) (out : List UserEvent) (buf : Buf) (inv : JoinInv s)
    (shut : Shut s buf) (move : PipeMove prog s action next out) :
    Shut next buf ∧ out.flatMap (UserEvent.inserted buf) = [] := by
  have later := phase_mono prog s next (pipe_main_to prog s next action out move)
  cases buf with
  | raw =>
      rcases shut with ended | joined
      · obtain ⟨still, quiet⟩ := ended_move prog s next action out ended move
        exact ⟨.inl still, quiet⟩
      · refine ⟨.inr (by omega), ?_⟩
        by_contra some
        obtain ⟨i, alive⟩ := puts_live prog s next action out move some
        exact live_not_joined s .source i inv alive joined
  | elaborated =>
      rcases shut with dry | joined
      · obtain ⟨still, quiet⟩ := dry_move prog s next action out dry move
        exact ⟨.inl still, quiet⟩
      · refine ⟨.inr (by omega), ?_⟩
        by_contra some
        obtain ⟨i, alive⟩ := inserts_live prog s next action out move some
        exact live_not_joined s .elaborate i inv alive joined

def HandPc.closing : HandPc → Bool
  | .lockE | .unlockR | .bodyE | .unlockE => true
  | _ => false

structure CloseInv (s : Pipe) : Prop where
  shut : ∀ buf, (s.buffer buf).done = true → Shut s buf
  ended : ∀ t pc, s.hands t = some pc → pc.closing = true → Ended s

-- catcher_SIGINT holds rmutex when it cuts the work off, so no source is inside
-- with a ticket.
theorem body_ended (s : Pipe) (t : Tid) (locks : MutexInv s) (point : s.hands t = some .bodyR) :
    Ended ({ s with todo := 0, loop := false, rbuffer := s.rbuffer.drop }.setHand t (some .lockE)) := by
  refine ⟨rfl, Int.le_refl 0, rfl, fun i => ?_⟩
  have owned := (locks.exclusive .raw t).mp (by simp [Pipe.inside, point, HandPc.inside])
  by_contra reading
  have base : s.base .raw (.source i) = true := by
    cases at_ : s.sources i <;> simp_all [Pipe.setHand, SourcePc.reading, SourcePc.inside]
  have also := (locks.exclusive .raw (.source i)).mp (by simp [Pipe.inside, base])
  obtain rfl := Option.some.inj (owned.symm.trans also)
  rw [locks.apart _ _ .raw point rfl] at base
  cases base

theorem hand_ends (s next : Pipe) (t : Tid) (locks : MutexInv s) (point : s.hands t = some .bodyR) (move : HandMove s t next) :
    Ended next := by
  cases move with
  | bodyR => exact body_ended s t locks point
  | load was | store was | check was | acquireR was | acquireE was | unlockR was | bodyE was | unlockE was =>
      cases was.symm.trans point

theorem busy_moves (prog : Prog) (s next : Pipe) (t : Tid) (pc : HandPc) (choice : Choice) (out : List UserEvent)
    (point : s.hands t = some pc) (step : PipeStep prog s (.go t choice) next out) : HandMove s t next := by
  cases step with
  | base idle => simp [point] at idle
  | hand move => exact move

theorem carries_inside (s : Pipe) (inv : JoinInv s) (held : ∀ i < s.count .elaborate, (s.elaborators i).carries = false)
    (i : Nat) : (s.elaborators i).carries = false := by
  by_cases inside : i < s.count .elaborate
  · exact held i inside
  · have off : s.life i .elaborate = .off := by
      by_contra born
      exact inside (inv.born .elaborate i born).1
    rw [life_elaborate_off s i off]
    rfl

theorem dropped_shut (prog : Prog) (s next : Pipe) (t : Tid) (choice : Choice) (out : List UserEvent) (buf : Buf) (inv : JoinInv s)
    (locks : MutexInv s) (close : CloseInv s) (allowed : EmptyHanded s (.go t choice)) (point : s.hands t = some buf.body)
    (step : PipeStep prog s (.go t choice) next out) (move : PipeMove prog s (.go t choice) next out) : Shut next buf := by
  cases buf with
  | raw => exact .inl (hand_ends s next t locks point (busy_moves prog s next t _ choice out point step))
  | elaborated =>
      have dry : Dry s := ⟨close.ended t .bodyE point rfl, carries_inside s inv (allowed point)⟩
      exact .inl (dry_move prog s next _ out dry move).1

theorem closing_ended (prog : Prog) (s next : Pipe) (action : UserAction) (out : List UserEvent) (locks : MutexInv s)
    (close : CloseInv s) (step : PipeStep prog s action next out) (move : PipeMove prog s action next out) (u : Tid) (pc : HandPc)
    (point : next.hands u = some pc) (closing : pc.closing = true) : Ended next := by
  have stays : ∀ old, s.hands u = some old → old.closing = true → Ended next := fun old was still =>
    (ended_move prog s next action out (close.ended u old was still) move).1
  cases hand_to prog s next action out step u with
  | same same => exact stays pc (same ▸ point) closing
  | starts _ started =>
      cases started.symm.trans point
      cases closing
  | moves mine moved =>
      cases moved with
      | load | store | acquireR =>
          cases (Function.update_self ..).symm.trans point
          cases closing
      | check =>
          have now := (Function.update_self ..).symm.trans point
          by_cases again : 1 < s.control
          · rw [if_pos again] at now
            cases now
          · rw [if_neg again] at now
            cases now
            cases closing
      | bodyR was => exact body_ended s u locks was
      | acquireE was | unlockR was | bodyE was | unlockE was => exact stays _ was rfl

theorem close_inv_move (prog : Prog) (s next : Pipe) (action : UserAction) (out : List UserEvent) (inv : JoinInv s)
    (locks : MutexInv s) (close : CloseInv s) (allowed : EmptyHanded s action) (step : PipeStep prog s action next out)
    (move : PipeMove prog s action next out) : CloseInv next := by
  refine ⟨fun buf done => ?_, closing_ended prog s next action out locks close step move⟩
  have later := phase_mono prog s next (pipe_main_to prog s next action out move)
  cases buffer_change prog s next action out buf move with
  | flow _ kept => exact (shut_move prog s next action out buf inv (close.shut buf (kept ▸ done)) move).1
  | init _ fresh =>
      rw [fresh] at done
      cases done
  | close point =>
      rw [point] at later
      cases buf with
      | raw => exact .inr later
      | elaborated => exact .inr later
  | @drop t choice mine point =>
      subst mine
      exact dropped_shut prog s next t choice out buf inv locks close allowed point step move

def Pipe.hasStopped (s : Pipe) : Buf → Prop
  | .raw => ∃ i, (s.elaborators i).stopped = true
  | .elaborated => ∃ i, (s.sinks i).stopped = true

theorem buffer_stops (prog : Prog) (s next : Pipe) (action : UserAction) (out : List UserEvent) (buf : Buf)
    (move : PipeMove prog s action next out) (after : next.hasStopped buf) :
    s.hasStopped buf ∨ (next.buffer buf).done = true ∧ (next.buffer buf).items = [] := by
  cases buf with
  | raw =>
      obtain ⟨i, stopped⟩ := after
      exact (elaborators_stop prog s next action out i move stopped).imp_left fun before => ⟨i, before⟩
  | elaborated =>
      obtain ⟨i, stopped⟩ := after
      exact (sinks_stop prog s next action out i move stopped).imp_left fun before => ⟨i, before⟩

theorem stopped_spawned (s : Pipe) (buf : Buf) (inv : JoinInv s) (stopped : s.hasStopped buf) : s.main ≠ .init := by
  intro point
  have early : s.main.phase = 0 := by rw [point]; rfl
  have born : ∃ stage i, s.life i stage ≠ .off := by
    cases buf with
    | raw =>
        obtain ⟨i, stopped⟩ := stopped
        refine ⟨.elaborate, i, fun off => ?_⟩
        rw [life_elaborate_off s i off] at stopped
        cases stopped
    | elaborated =>
        obtain ⟨i, stopped⟩ := stopped
        refine ⟨.sink, i, fun off => ?_⟩
        rw [life_sink_off s i off] at stopped
        cases stopped
  obtain ⟨stage, i, born⟩ := born
  exact spawned_not_early s.main stage i (.inl early) (inv.born stage i born).2

def StopInv (s : Pipe) : Prop := ∀ buf, s.hasStopped buf → (s.buffer buf).done = true ∧ (s.buffer buf).items = []

theorem stop_inv_move (prog : Prog) (s next : Pipe) (action : UserAction) (out : List UserEvent) (inv : JoinInv s)
    (close : CloseInv s) (stops : StopInv s) (move : PipeMove prog s action next out) : StopInv next := by
  intro buf after
  rcases buffer_stops prog s next action out buf move after with before | now
  · obtain ⟨done, empty⟩ := stops buf before
    cases buffer_change prog s next action out buf move with
    | flow order kept =>
        rw [empty, (shut_move prog s next action out buf inv (close.shut buf done) move).2] at order
        exact ⟨kept.trans done, (List.append_eq_nil_iff.mp order.symm).2⟩
    | init point => exact absurd point (stopped_spawned s buf inv before)
    | close _ closed =>
        rw [closed]
        exact ⟨rfl, empty⟩
    | drop _ _ dropped =>
        rw [dropped]
        exact ⟨rfl, rfl⟩
  · exact now

theorem shut_carries (s : Pipe) (inv : JoinInv s) (shut : Shut s .elaborated) (i : Nat) : (s.elaborators i).carries = false := by
  rcases shut with dry | joined
  · exact dry.carries i
  · cases carrying : (s.elaborators i).carries with
    | false => rfl
    | true =>
        have alive : s.life i .elaborate = .live := by
          cases point : s.elaborators i <;> simp_all [ElaboratePc.carries, Pipe.life, ElaboratePc.life]
        exact absurd joined (live_not_joined s .elaborate i inv alive)

section Runs

variable {prog : Prog} {arg : Int} {events : List UserEvent} {s : Pipe}

theorem close_inv_run (run : Run (pipeline prog) EmptyHanded (programStart arg) events s) : CloseInv s := by
  induction run with
  | nil => exact ⟨fun buf done => (by cases buf <;> cases done), fun t pc point => (by cases point)⟩
  | snoc action before allowed stepped ih =>
      exact close_inv_move prog _ _ action _ (join_inv_run before) (mutex_inv_run before) ih allowed
        (pipe_steps prog _ _ action _ stepped) (pipe_moves prog _ _ action _ stepped)

theorem stop_inv_run (run : Run (pipeline prog) EmptyHanded (programStart arg) events s) : StopInv s := by
  induction run with
  | nil =>
      intro buf stopped
      cases buf <;> obtain ⟨_, stop⟩ := stopped <;> cases stop
  | snoc action before allowed stepped ih =>
      exact stop_inv_move prog _ _ action _ (join_inv_run before) (close_inv_run before) ih
        (pipe_moves prog _ _ action _ stepped)

theorem closed_silent (run : Run (pipeline prog) EmptyHanded (programStart arg) events s) (buf : Buf)
    (done : (s.buffer buf).done = true) (later : List UserEvent) (after : Pipe)
    (continued : Run (pipeline prog) EmptyHanded s later after) : later.flatMap (UserEvent.inserted buf) = [] := by
  refine (Run.silent_after (Shut · buf) (UserEvent.inserted buf) ?_ run ((close_inv_run run).shut buf done) continued).2
  intro _ state action next out before shut _ stepped
  exact shut_move prog state next action out buf (join_inv_run before) shut (pipe_moves prog state next action out stepped)

theorem closed_buffers_stay_shut (run : Run (pipeline prog) EmptyHanded (programStart arg) events s) :
    (∀ later after, Run (pipeline prog) EmptyHanded s later after →
      (s.rbuffer.done = true → later.flatMap UserEvent.puts = []) ∧
      (s.ebuffer.done = true → later.flatMap UserEvent.inserts = [])) ∧
    ((∃ i, s.elaborators i = .exited) → s.rbuffer.items = []) ∧
    ((∃ i, s.sinks i = .exited) → s.ebuffer.items = [] ∧ ∀ i, (s.elaborators i).carries = false) := by
  have stops := stop_inv_run run
  refine ⟨fun later after continued => ⟨?_, ?_⟩, ?_, ?_⟩
  · intro done
    exact closed_silent run .raw done later after continued
  · intro done
    exact closed_silent run .elaborated done later after continued
  · rintro ⟨i, gone⟩
    exact (stops .raw ⟨i, by rw [gone]; rfl⟩).2
  · rintro ⟨i, gone⟩
    obtain ⟨done, empty⟩ := stops .elaborated ⟨i, by rw [gone]; rfl⟩
    exact ⟨empty, shut_carries s (join_inv_run run) ((close_inv_run run).shut .elaborated done)⟩

end Runs

-- The Writer with N = 1: main has created its three threads, and the source has
-- put the one string into rbuffer.
def oneStringPut : List UserAction :=
  steps .main 2 ++ [UserAction.call .main, .ret .main 0 []] ++ steps .main 8 ++ steps (.source 0) 3

def wholeHandler (t : Tid) : List UserAction := .sigint t :: steps t 9

def emptyHanded (s : Pipe) : UserAction → Bool
  | .go t _ => s.hands t ≠ some .bodyE || (List.range (s.count .elaborate)).all fun i => !(s.elaborators i).carries
  | _ => true

theorem empty_handed_sound (s : Pipe) (action : UserAction) (checked : emptyHanded s action = true) : EmptyHanded s action := by
  cases action with
  | go t choice =>
      intro point
      simpa [emptyHanded, point] using checked
  | _ => trivial

theorem closed_buffers_stay_shut_interrupted :
    ∃ events s, Run (pipeline .writer) EmptyHanded (programStart 1) events s ∧ events.flatMap UserEvent.puts ≠ [] ∧
      s.ebuffer.done = true ∧ s.sinks 0 = .exited ∧ s.ebuffer.items = [] := by
  obtain ⟨events, s, run, seen⟩ := exec_reaches (pipeline .writer) emptyHanded EmptyHanded empty_handed_sound (programStart 1)
    (oneStringPut ++ wholeHandler .main ++ steps (.sink 0) 4)
    (fun s events => !(events.flatMap UserEvent.puts).isEmpty && s.ebuffer.done && s.sinks 0 = .exited) (by decide +kernel)
  simp only [Bool.and_eq_true, decide_eq_true_eq, Bool.not_eq_true', List.isEmpty_eq_false_iff] at seen
  obtain ⟨⟨put, done⟩, gone⟩ := seen
  exact ⟨events, s, run, put, done, gone, ((closed_buffers_stay_shut run).2.2 ⟨0, gone⟩).1⟩

-- The elaborator has the string in its hands when the handler closes ebuffer.
-- The one sink exits, then the string arrives.
theorem elaborated_after_close :
    ∃ events s later after, Run (pipeline .writer) Any (programStart 1) events s ∧ s.ebuffer.done = true ∧
      Run (pipeline .writer) Any s later after ∧ later.flatMap UserEvent.inserts ≠ [] ∧ after.count .sink = 1 ∧
      after.sinks 0 = .exited ∧ after.ebuffer.items ≠ [] := by
  obtain ⟨events, s, run, seen⟩ := exec_reaches_any (pipeline .writer)
    (programStart 1) (oneStringPut ++ steps (.elaborate 0) 3 ++ wholeHandler .main)
    (fun s _ => s.ebuffer.done &&
      ((pipeline .writer).exec (fun _ _ => true) s (steps (.sink 0) 4 ++ steps (.elaborate 0) 3)).any
        (fun result => !(result.2.flatMap UserEvent.inserts).isEmpty && result.1.count .sink = 1 &&
          result.1.sinks 0 = .exited && !result.1.ebuffer.items.isEmpty)) (by decide +kernel)
  simp only [Bool.and_eq_true] at seen
  obtain ⟨later, after, continued, observed⟩ := exec_reaches_any (pipeline .writer) s _
    (fun after later => !(later.flatMap UserEvent.inserts).isEmpty && after.count .sink = 1 &&
      after.sinks 0 = .exited && !after.ebuffer.items.isEmpty) seen.2
  simp only [Bool.and_eq_true, decide_eq_true_eq, Bool.not_eq_true', List.isEmpty_eq_false_iff] at observed
  obtain ⟨⟨⟨inserted, one⟩, gone⟩, stranded⟩ := observed
  exact ⟨events, s, later, after, run, seen.1, continued, inserted, one, gone, stranded⟩

end MyDev
