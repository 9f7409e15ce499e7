import MyDev.DeviceData
import MyDev.SystemWriter

set_option autoImplicit false

namespace MyDev

open Library

section Logs

variable {ι : Type}

def Event.pushLog : Event ι → List (ι × Bytes)
  | .pushed t data => [(t, data)]
  | _ => []

def Event.popLog : Event ι → List (ι × Bytes)
  | .popped t data => [(t, data)]
  | _ => []

theorem push_log_data (events : List (Event ι)) :
    (events.flatMap Event.pushLog).map Prod.snd = events.flatMap Event.pushes := by
  rw [List.map_flatMap]
  congr 1
  funext event
  cases event <;> rfl

theorem pop_log_data (events : List (Event ι)) : (events.flatMap Event.popLog).map Prod.snd = events.flatMap Event.pops := by
  rw [List.map_flatMap]
  congr 1
  funext event
  cases event <;> rfl

def LastPop (log before : List (ι × Bytes)) (t : ι) (text : Bytes) : Prop :=
  ∃ after, log = before ++ (t, text) :: after ∧ ∀ entry ∈ after, entry.1 ≠ t

theorem last_pop_later (log extra before : List (ι × Bytes)) (t : ι) (text : Bytes) (last : LastPop log before t text)
    (others : ∀ entry ∈ extra, entry.1 ≠ t) : LastPop (log ++ extra) before t text := by
  obtain ⟨after, split, later⟩ := last
  refine ⟨after ++ extra, by simp [split], fun entry member => ?_⟩
  rcases List.mem_append.mp member with old | new
  · exact later entry old
  · exact others entry new

theorem last_pop_now (log : List (ι × Bytes)) (t : ι) (text : Bytes) : LastPop (log ++ [(t, text)]) log t text :=
  ⟨[], rfl, by simp⟩

theorem pop_log_client (out : List (Event ι)) (entry : ι × Bytes) (member : entry ∈ out.flatMap Event.popLog) :
    .popped entry.1 entry.2 ∈ out := by
  obtain ⟨event, inside, logged⟩ := List.mem_flatMap.mp member
  cases event with
  | popped t data =>
      simp only [Event.popLog, List.mem_singleton] at logged
      rw [logged]
      exact inside
  | _ => cases logged

variable [DecidableEq ι]

theorem pop_point (s next : Dev ι) (action : Action ι) (out : List (Event ι)) (t : ι) (data : Bytes)
    (move : DevMove s action next out) (popped : .popped t data ∈ out) :
    ∃ env dim value, action = .go t env ∧ (s.tasks t).pc = .readPop dim value := by
  cases move with
  | @client u env _ _ move =>
      cases move with
      | popped point =>
          simp only [List.mem_singleton, Event.popped.injEq] at popped
          obtain ⟨rfl, _⟩ := popped
          exact ⟨env, _, _, rfl, point⟩
      | release left => cases pc : (s.tasks u).pc <;> simp [pc, doneEvents] at popped
      | _ => simp at popped
  | kt move => cases move <;> simp at popped
  | _ => simp at popped

end Logs

theorem request_good (prog : Prog) (s next : Pipe) (t : Tid) (op : Op) (data : prog = .writer → WriterData s)
    (asked : s.request prog t = some (op, next)) : op.Good := by
  cases request_moves prog s next t op asked with
  | openDev | closeDev => trivial
  | done => exact ⟨terminatorText, .inl rfl, rfl⟩
  | read => rfl
  | @write i _ item role point =>
      have spelt := (data role).sinks i
      rw [point] at spelt
      exact ⟨item.data, .inr spelt, rfl⟩

theorem took_kept (prog : Prog) (s next : Pipe) (action : UserAction) (out : List UserEvent) (i : Nat) (res : Int) (tmp : Bytes)
    (inside : action.internal = true) (move : PipeMove prog s action next out) (reached : next.sources i = .took res tmp) :
    s.sources i = .took res tmp := by
  have updated : ∀ j pc, (∀ res tmp, pc ≠ .took res tmp) → Function.update s.sources j pc i = .took res tmp →
      s.sources i = .took res tmp := by
    intro j pc other at_
    by_cases here : i = j
    · subst here
      rw [Function.update_self] at at_
      exact absurd at_ (other res tmp)
    · rwa [Function.update_of_ne here] at at_
  cases move with
  | @source j _ _ _ move =>
      cases move with
      | acquire | spent | ask | release => exact updated j _ (by simp) reached
      | create _ _ _ signalled | failed _ _ _ signalled | last _ _ _ _ signalled | receive _ _ _ _ signalled =>
          obtain ⟨_, rfl, _⟩ := signal_r_spec _ _ _ signalled
          exact updated j _ (by simp) reached
      | @rest stop => exact updated j _ (by cases stop <;> simp) reached
  | elaborate move => rwa [(elaborate_frame prog.change s next _ out move).sources] at reached
  | sink move => rwa [(sink_frame prog s next _ out move).sources] at reached
  | main move =>
      cases move with
      | @create stage j =>
          cases stage with
          | source => exact updated j .lock (by simp) reached
          | elaborate | sink => exact reached
      | relAcquire _ free => rcases lock_main_spec _ _ _ _ free with rfl | rfl <;> exact reached
      | @relSet buf | @relUnlock buf => cases buf <;> exact reached
      | _ => exact reached
  | hand move => rwa [(hand_frame s next _ move).sources] at reached
  | call | ret => cases inside
  | spuriousR | spuriousE | sigint => exact reached

section Data

variable {π : Type} [DecidableEq π] {config : Config π} {ok : Sys π Empty → SysAction π Empty → Prop}
  {events : List (SysEvent π Empty)} {s : Sys π Empty}

theorem system_writer_data (p : π) (role : config.prog p = .writer) (run : Run (system config) ok (systemStart config) events s) :
    WriterData (s.pipes p) := by
  have alone := system_pipe_any p run
  rw [role] at alone
  exact writer_data_run alone

theorem system_data (run : Run (system config) ok (systemStart config) events s) : DataInv s.dev := by
  refine data_run (system_device ?_ (fun _ _ => trivial) ?_ run)
  · intro events s p t op next before asked
    exact request_good _ _ next t op (fun role => system_writer_data p role before) asked
  · intro s action free _
    cases action with
    | call client op =>
        rcases client with _ | other
        · cases free
        · exact other.elim
    | _ => trivial

theorem push_origin (run : Run (system config) ok (systemStart config) events s) :
    ∀ entry ∈ (events.flatMap SysEvent.device).flatMap Event.pushLog,
      entry.2 = terminatorText → ∃ q, entry.1 = .inl (q, .main) ∧ config.prog q = .writer := by
  refine Run.invariant (fun events _ => ∀ entry ∈ (events.flatMap SysEvent.device).flatMap Event.pushLog,
    entry.2 = terminatorText → ∃ q, entry.1 = .inl (q, .main) ∧ config.prog q = .writer) (by simp) ?_ run
  intro events s action next out before earlier _ stepped entry member text
  rw [List.flatMap_append, List.flatMap_append] at member
  rcases List.mem_append.mp member with old | new
  · exact earlier entry old text
  cases system_moves config s next action out stepped with
  | user | ret => rw [device_of_piped] at new; cases new
  | call => cases new
  | @dev action dev out free moved =>
      rw [device_of_observed] at new
      obtain ⟨event, inside, logged⟩ := List.mem_flatMap.mp new
      cases event with
      | pushed client data =>
          simp only [Event.pushLog, List.mem_singleton] at logged
          subst logged
          obtain ⟨env, value, rfl, point, cut, _⟩ := push_point _ _ _ _ _ _ (device_moves _ _ _ _ moved) inside
          rcases client with ⟨q, t⟩ | other
          · have waits := push_waits s q t value (link_run before) point
            have role := (roles_run (system_pipe_any q before)).writes t value waits
            rcases push_text _ (system_writer_data q role before) t value env.mem waits with
              ⟨rfl, _⟩ | ⟨_, item, _, _, same, small⟩
            · exact ⟨q, rfl, role⟩
            · -- A word of small letters is not "00".
              have ended : item.data = terminatorText := same.symm.trans (cut.symm.trans text)
              exact absurd (small.letters 48 (by rw [ended]; decide)).1 (by decide)
          · exact other.elim
      | _ => cases logged

-- What a read_dev thread has got, or is about to get, is the last string its
-- task took out of the queue.
structure TakenInv (events : List (SysEvent π Empty)) (s : Sys π Empty) : Prop where
  carried : ∀ p i text, (s.pipes p).sources i = .inRead → (s.dev.tasks (.inl (p, .source i))).pc.carrying = some text →
    ∃ before, LastPop ((events.flatMap SysEvent.device).flatMap Event.popLog) before (.inl (p, .source i)) text
  took : ∀ p i tmp, (s.pipes p).sources i = .took 0 tmp →
    ∃ before, LastPop ((events.flatMap SysEvent.device).flatMap Event.popLog) before (.inl (p, .source i)) (cstr tmp)

theorem in_read_of_waiting (pc : SourcePc) (op : Op) (waits : pc.waiting = some op) : pc = .inRead := by
  cases pc <;> first | rfl | cases waits

theorem pops_by_others (s next : Dev (Client π Empty)) (action : Action (Client π Empty)) (out : List (Event (Client π Empty)))
    (client : Client π Empty) (move : DevMove s action next out) (other : action.client ≠ some client) :
    ∀ entry ∈ out.flatMap Event.popLog, entry.1 ≠ client := by
  intro entry member same
  obtain ⟨_, _, _, rfl, _⟩ := pop_point s next action out _ _ move (pop_log_client out entry member)
  exact other (congrArg some same)

theorem taken_dev (events : List (SysEvent π Empty)) (s : Sys π Empty) (dev : Dev (Client π Empty))
    (action : Action (Client π Empty)) (out : List (Event (Client π Empty))) (link : LinkInv s) (data : DataInv s.dev)
    (inv : TakenInv events s) (free : action.unattended = true) (move : DevMove s.dev action dev out) :
    TakenInv (events ++ out.flatMap s.observe) (s.setDev dev) := by
  have log : ((events ++ out.flatMap s.observe).flatMap SysEvent.device).flatMap Event.popLog =
      (events.flatMap SysEvent.device).flatMap Event.popLog ++ out.flatMap Event.popLog := by
    rw [List.flatMap_append, device_of_observed, List.flatMap_append]
  refine ⟨fun p i text reading carries => ?_, fun p i tmp reached => ?_⟩
  · rw [log]
    rcases unattended_move _ _ action out p (.source i) free move with ⟨env, _, own⟩ | ⟨other, same⟩
    · have linked := link p (.source i)
      have waits : (s.pipes p).waiting (.source i) = some (.myRead readByte) := congrArg SourcePc.waiting reading
      rw [waits] at linked
      cases read_step _ _ _ env out readByte own (data.tasks _) linked with
      | quiet same silent =>
          have still : out.flatMap Event.popLog = [] := by
            rw [← pop_log_data] at silent
            exact List.map_eq_nil_iff.mp silent
          rw [still, List.append_nil]
          exact inv.carried p i text reading (same ▸ carries)
      | @pop node _ carried popped =>
          cases carried.symm.trans carries
          rw [popped]
          exact ⟨_, last_pop_now _ _ text⟩
      | fault _ dropped => cases dropped.symm.trans carries
    · obtain ⟨front, last⟩ := inv.carried p i text reading (same ▸ carries)
      exact ⟨front, last_pop_later _ _ front _ text last (pops_by_others _ _ action out _ move other)⟩
  · rw [log]
    obtain ⟨front, last⟩ := inv.took p i tmp reached
    refine ⟨front, last_pop_later _ _ front _ _ last ?_⟩
    intro entry member same
    obtain ⟨_, _, _, _, point⟩ := pop_point _ _ action out _ _ move (pop_log_client out entry member)
    rw [same] at point
    have reading := in_read_of_waiting _ _ (pop_waits s p (.source i) _ _ link point)
    cases reached.symm.trans reading

theorem taken_run (run : Run (system config) ok (systemStart config) events s) : TakenInv events s := by
  refine Run.invariant TakenInv ⟨?_, ?_⟩ ?_ run
  · intro p i text reading
    cases reading
  · intro p i tmp reached
    cases reached
  intro events s action next out before inv _ stepped
  have link := link_run before
  cases system_moves config s next action out stepped with
  | @user q action pipe out inside moved =>
      have log : ((events ++ out.map (SysEvent.pipe q)).flatMap SysEvent.device) = events.flatMap SysEvent.device := by
        rw [List.flatMap_append, device_of_piped, List.append_nil]
      have move := pipe_moves _ _ _ _ _ moved
      have same := internal_same_calls _ _ _ _ _ (join_inv_run (system_pipe_any q before)) inside move
      refine ⟨fun p i text reading carries => ?_, fun p i tmp reached => ?_⟩
      · rw [log]
        refine inv.carried p i text ?_ carries
        by_cases mine : p = q
        · subst mine
          simp only [Sys.setPipe, Function.update_self] at reading
          exact in_read_of_waiting _ _ ((same.sources i).symm.trans (congrArg SourcePc.waiting reading))
        · simpa [Sys.setPipe, mine] using reading
      · rw [log]
        refine inv.took p i tmp ?_
        by_cases mine : p = q
        · subst mine
          simp only [Sys.setPipe, Function.update_self] at reached
          exact took_kept _ _ _ _ _ i 0 tmp inside move reached
        · simpa [Sys.setPipe, mine] using reached
  | @call q u op pipe _ asked idle =>
      have call := request_moves _ _ _ _ _ asked
      have fresh : op.entry.carrying = none := by cases op <;> rfl
      rw [List.append_nil]
      refine ⟨fun p i text reading carries => ?_, fun p i tmp reached => ?_⟩
      · by_cases here : (Sum.inl (p, .source i) : Client π Empty) = .inl (q, u)
        · simp [Sys.setPipe, Sys.setDev, here, fresh] at carries
        · refine inv.carried p i text ?_ (by simpa [Sys.setPipe, Sys.setDev, here] using carries)
          by_cases mine : p = q
          · subst mine
            simpa [Sys.setPipe, Sys.setDev, (call_only _ _ _ _ _ call).sources i fun same => here (by rw [same])] using reading
          · simpa [Sys.setPipe, Sys.setDev, mine] using reading
      · refine inv.took p i tmp ?_
        by_cases mine : p = q
        · subst mine
          by_cases here : Tid.source i = u
          · subst here
            have waits := (call_waits _ _ _ _ _ call).2
            simp [Sys.setPipe] at reached
            simp [Pipe.waiting, reached, SourcePc.waiting] at waits
          · simpa [Sys.setPipe, (call_only _ _ _ _ _ call).sources i here] using reached
        · simpa [Sys.setPipe, Sys.setDev, mine] using reached
  | @ret q u res got pipe out point returned =>
      have log : ((events ++ out.map (SysEvent.pipe q)).flatMap SysEvent.device) = events.flatMap SysEvent.device := by
        rw [List.flatMap_append, device_of_piped, List.append_nil]
      have ret := ret_moves _ _ _ _ _ _ returned
      refine ⟨fun p i text reading carries => ?_, fun p i tmp reached => ?_⟩
      · rw [log]
        by_cases here : (Sum.inl (p, .source i) : Client π Empty) = .inl (q, u)
        · simp [Sys.setPipe, Sys.setDev, here, Pc.carrying] at carries
        · refine inv.carried p i text ?_ (by simpa [Sys.setPipe, Sys.setDev, here] using carries)
          by_cases mine : p = q
          · subst mine
            simpa [Sys.setPipe, Sys.setDev, (ret_only _ _ _ _ _ _ ret).sources i fun same => here (by rw [same])] using reading
          · simpa [Sys.setPipe, Sys.setDev, mine] using reading
      · rw [log]
        by_cases mine : p = q
        · subst mine
          by_cases here : Tid.source i = u
          · -- The read returns here: what it carried is what read_dev gets.
            subst here
            cases ret with
            | read reading =>
                simp only [Sys.setPipe, Pipe.setSource, Function.update_self, SourcePc.took.injEq] at reached
                obtain ⟨rfl, rfl⟩ := reached
                exact inv.carried p i _ reading (by rw [point]; rfl)
          · refine inv.took p i tmp ?_
            simpa [Sys.setPipe, (ret_only _ _ _ _ _ _ ret).sources i here] using reached
        · refine inv.took p i tmp ?_
          simpa [Sys.setPipe, Sys.setDev, mine] using reached
  | dev free moved => exact taken_dev events s _ _ _ link (system_data before) inv free (device_moves _ _ _ _ moved)

theorem popped_origin (run : Run (system config) ok (systemStart config) events s) (before after : List (Client π Empty × Bytes))
    (client : Client π Empty)
    (split : (events.flatMap SysEvent.device).flatMap Event.popLog = before ++ (client, terminatorText) :: after) :
    ∃ q, ((events.flatMap SysEvent.device).flatMap Event.pushLog)[before.length]? = some (.inl (q, .main), terminatorText) ∧
      config.prog q = .writer := by
  have law := device_fifo_law (system_device_any run)
  rw [← push_log_data, ← pop_log_data, split] at law
  have there : (((events.flatMap SysEvent.device).flatMap Event.pushLog).map Prod.snd)[before.length]? = some terminatorText := by
    rw [law]
    simp
  rw [List.getElem?_map] at there
  obtain ⟨entry, found, text⟩ := Option.map_eq_some_iff.mp there
  obtain ⟨q, sender, role⟩ := push_origin run entry (List.mem_of_getElem? found) text
  exact ⟨q, by rw [found, ← sender, ← text], role⟩

theorem data_never_collides (run : Run (system config) Any (systemStart config) events s) :
    (∀ node ∈ s.dev.kbFifo.nodes, node = terminatorText ∨ Small node) ∧
      (∀ client buf, (s.dev.tasks client).pc.buffer = some buf → 0 ∈ buf) ∧
      (∀ client dim value, (s.dev.tasks client).pc = .readPop dim value → dim = readByte ∧ value.length = readByte ∧
        ∀ node rest, kbPop s.dev.kbFifo = some (node, rest) → node.length + 1 ≤ readByte) ∧
      (∀ p i tmp, (s.pipes p).sources i = .took 0 tmp → cstr tmp = terminatorText →
        ∃ before q, LastPop ((events.flatMap SysEvent.device).flatMap Event.popLog) before (.inl (p, .source i)) terminatorText ∧
          ((events.flatMap SysEvent.device).flatMap Event.pushLog)[before.length]? = some (.inl (q, .main), terminatorText) ∧
          config.prog q = .writer) := by
  have data := system_data run
  refine ⟨data.nodes, fun client buf writes => sound_buffer _ buf (data.tasks client) writes, ?_, ?_⟩
  · intro client dim value point
    have sound := data.tasks client
    rw [point] at sound
    obtain ⟨asked, length⟩ := sound
    refine ⟨asked, length.trans asked, fun node rest found => ?_⟩
    obtain ⟨nodes, _⟩ := kb_pop_some _ _ _ found
    exact good_text_fits node (data.nodes node (by rw [nodes]; exact List.mem_cons_self))
  · intro p i tmp reached text
    obtain ⟨before, last⟩ := (taken_run run).took p i tmp reached
    rw [text] at last
    obtain ⟨after, split, later⟩ := last
    obtain ⟨q, pushed, role⟩ := popped_origin run before after _ split
    exact ⟨before, q, ⟨after, split, later⟩, pushed, role⟩

end Data

def writerAndReader (arg : Int) : Config Prog where
  prog p := p
  arg
    | .writer => arg
    | .reader => 0

def readerStart : List (SysAction Prog Empty) :=
  usersGo Prog.reader .main 2 ++ wholeCall Prog.reader .main 3 ++ usersGo Prog.reader .main 12 ++ usersGo Prog.reader (.source 0) 2 ++
    wholeCall Prog.reader (.source 0) 7 ++ usersGo Prog.reader (.source 0) 5 ++ wholeCall Prog.reader (.source 0) 7

def SourcePc.tookTerminator : SourcePc → Bool
  | .took res tmp => decide (res = 0 ∧ cstr tmp = terminatorText)
  | _ => false

theorem data_never_collides_terminator_read : ∃ (events : List (SysEvent Prog Empty)) (s : Sys Prog Empty),
    Run (system (writerAndReader 1)) Any (systemStart (writerAndReader 1)) events s ∧
    (∃ tmp, (s.pipes .reader).sources 0 = .took 0 tmp ∧ cstr tmp = terminatorText) ∧
    ∃ before q, LastPop ((events.flatMap SysEvent.device).flatMap Event.popLog) before (.inl (.reader, .source 0)) terminatorText ∧
      ((events.flatMap SysEvent.device).flatMap Event.pushLog)[before.length]? = some (.inl (q, .main), terminatorText) ∧
      q = .writer := by
  obtain ⟨events, s, run, seen⟩ := exec_reaches (system (κ := Empty) (writerAndReader 1)) (fun _ _ => true) Any
    (fun _ _ _ => trivial) (systemStart (writerAndReader 1))
    (writerSchedule Prog.writer ++ wholeCall Prog.writer .main 7 ++ readerStart)
    (fun s _ => ((s.pipes .reader).sources 0).tookTerminator) (by decide +kernel)
  cases reached : (s.pipes .reader).sources 0 with
  | took res tmp =>
      rw [reached] at seen
      obtain ⟨rfl, text⟩ := of_decide_eq_true seen
      exact ⟨events, s, run, ⟨tmp, reached, text⟩, (data_never_collides run).2.2.2 .reader 0 tmp reached text⟩
  | _ => rw [reached] at seen; cases seen

end MyDev
