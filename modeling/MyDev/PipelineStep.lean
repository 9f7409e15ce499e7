import MyDev.Pipeline

set_option autoImplicit false

namespace MyDev

open Library

theorem signal_r_spec (s woken : Pipe) (wake : Nat) (signalled : s.signalR wake = some woken) :
    ∃ elaborators, woken = { s with elaborators := elaborators } ∧
      ∀ j, Roused .wait .lock (s.elaborators j) (elaborators j) := by
  unfold Pipe.signalR at signalled
  obtain ⟨elaborators, chosen, rfl⟩ := Option.map_eq_some_iff.mp signalled
  exact ⟨elaborators, rfl, cond_signal_roused _ _ _ _ _ wake chosen⟩

theorem signal_e_spec (s woken : Pipe) (wake : Nat) (signalled : s.signalE wake = some woken) :
    ∃ sinks, woken = { s with sinks := sinks } ∧ ∀ j, Roused .wait .lock (s.sinks j) (sinks j) := by
  unfold Pipe.signalE at signalled
  obtain ⟨sinks, chosen, rfl⟩ := Option.map_eq_some_iff.mp signalled
  exact ⟨sinks, rfl, cond_signal_roused _ _ _ _ _ wake chosen⟩

inductive SourceMove (prog : Prog) (s : Pipe) (i : Nat) : Pipe → List UserEvent → Prop where
  | acquire (point : s.sources i = .lock) (free : s.rmutex = none) :
      SourceMove prog s i ((s.setR (some (.source i))).setSource i .ticket) []
  | spent (point : s.sources i = .ticket) (empty : s.tmpTodo ≤ 0) :
      SourceMove prog s i (s.drawn.setSource i (.unlock true)) []
  | create {rand : Nat → Nat} {wake : Nat} {woken : Pipe} (role : prog = .writer) (point : s.sources i = .ticket)
      (left : 0 < s.tmpTodo) (signalled : (s.drawn.putRaw (cstr (genData rand))).signalR wake = some woken) :
      SourceMove prog s i (woken.setSource i (.unlock false)) [.put ⟨s.made, cstr (genData rand)⟩]
  | ask (role : prog = .reader) (point : s.sources i = .ticket) (left : 0 < s.tmpTodo) :
      SourceMove prog s i (s.drawn.setSource i .read) []
  | failed {res : Int} {tmp : Bytes} {wake : Nat} {woken : Pipe} (role : prog = .reader)
      (point : s.sources i = .took res tmp) (failure : res ≠ 0) (signalled : s.signalR wake = some woken) :
      SourceMove prog s i (woken.setSource i (.unlock false)) []
  | last {res : Int} {tmp : Bytes} {wake : Nat} {woken : Pipe} (role : prog = .reader)
      (point : s.sources i = .took res tmp) (success : res = 0) (found : cstr tmp = terminatorText)
      (signalled : s.endLoop.signalR wake = some woken) :
      SourceMove prog s i (woken.setSource i (.unlock true)) [.terminator i]
  | receive {res : Int} {tmp : Bytes} {wake : Nat} {woken : Pipe} (role : prog = .reader)
      (point : s.sources i = .took res tmp) (success : res = 0) (data : cstr tmp ≠ terminatorText)
      (signalled : (s.putRaw (cstr tmp)).signalR wake = some woken) :
      SourceMove prog s i (woken.setSource i (.unlock false)) [.put ⟨s.made, cstr tmp⟩]
  | release {stop : Bool} (point : s.sources i = .unlock stop) :
      SourceMove prog s i ((s.setR none).setSource i (.sleep stop)) []
  | rest {stop : Bool} (point : s.sources i = .sleep stop) :
      SourceMove prog s i (s.setSource i (if stop then .exited else .lock)) []

inductive ElaborateMove (change : Bytes → Bytes) (s : Pipe) (i : Nat) : Pipe → List UserEvent → Prop where
  | acquire (point : s.elaborators i = .lock) (free : s.rmutex = none) :
      ElaborateMove change s i ((s.setR (some (.elaborate i))).setElaborator i .test) []
  | stop (point : s.elaborators i = .test) (empty : s.rbuffer.items = []) (closed : s.rbuffer.done = true) :
      ElaborateMove change s i (s.setElaborator i .unlockStop) []
  | wait (point : s.elaborators i = .test) (empty : s.rbuffer.items = []) (unclosed : s.rbuffer.done = false) :
      ElaborateMove change s i ((s.setR none).setElaborator i .wait) []
  | take {item : Item} {rest : Wbuf} (point : s.elaborators i = .test) (found : wbufExt s.rbuffer = some (item, rest)) :
      ElaborateMove change s i ({ s with rbuffer := rest }.setElaborator i (.unlockGot item)) [.taken item]
  | release {item : Item} (point : s.elaborators i = .unlockGot item) :
      ElaborateMove change s i ((s.setR none).setElaborator i (.work item)) []
  | convert {item : Item} (point : s.elaborators i = .work item) :
      ElaborateMove change s i (s.setElaborator i (.lockE { item with data := inPlace change item.data })) []
  | acquireE {item : Item} (point : s.elaborators i = .lockE item) (free : s.emutex = none) :
      ElaborateMove change s i ((s.setE (some (.elaborate i))).setElaborator i (.insert item)) []
  | insert {item : Item} {wake : Nat} {woken : Pipe} (point : s.elaborators i = .insert item)
      (signalled : (s.putElaborated item).signalE wake = some woken) :
      ElaborateMove change s i (woken.setElaborator i .unlockE) [.elaborated item]
  | releaseE (point : s.elaborators i = .unlockE) :
      ElaborateMove change s i ((s.setE none).setElaborator i .lock) []
  | leave (point : s.elaborators i = .unlockStop) :
      ElaborateMove change s i ((s.setR none).setElaborator i .exited) []

inductive SinkMove (prog : Prog) (s : Pipe) (i : Nat) : Pipe → List UserEvent → Prop where
  | acquire (point : s.sinks i = .lock) (free : s.emutex = none) :
      SinkMove prog s i ((s.setE (some (.sink i))).setSink i .test) []
  | stop (point : s.sinks i = .test) (empty : s.ebuffer.items = []) (closed : s.ebuffer.done = true) :
      SinkMove prog s i (s.setSink i (.unlock true)) []
  | wait (point : s.sinks i = .test) (empty : s.ebuffer.items = []) (unclosed : s.ebuffer.done = false) :
      SinkMove prog s i ((s.setE none).setSink i .wait) []
  | take {item : Item} {rest : Wbuf} (point : s.sinks i = .test) (found : wbufExt s.ebuffer = some (item, rest)) :
      SinkMove prog s i ({ s with ebuffer := rest }.setSink i (.act item 0)) [.picked item]
  | giveUp {item : Item} {failures : Nat} (role : prog = .writer) (point : s.sinks i = .act item failures)
      (tried : maxRetry ≤ failures) : SinkMove prog s i (s.setSink i (.report item failures)) []
  | settle {item : Item} {failures : Nat} (role : prog = .writer) (point : s.sinks i = .report item failures) :
      SinkMove prog s i (s.setSink i (.unlock false)) [.settled item failures (failures == 5)]
  | print {item : Item} {failures : Nat} (role : prog = .reader) (point : s.sinks i = .act item failures) :
      SinkMove prog s i (s.setSink i (.unlock false)) [.printed item]
  | release {stop : Bool} (point : s.sinks i = .unlock stop) :
      SinkMove prog s i ((s.setE none).setSink i (.sleep stop)) []
  | rest {stop : Bool} (point : s.sinks i = .sleep stop) :
      SinkMove prog s i (s.setSink i (if stop then .exited else .lock)) []

inductive MainMove (prog : Prog) (s : Pipe) : Pipe → List UserEvent → Prop where
  | boot (point : s.main = .boot) : MainMove prog s (s.setMain .ready) []
  | ready (point : s.main = .ready) : MainMove prog s ({ s with control := 0 }.setMain .openDev) []
  | counts (point : s.main = .counts) :
      MainMove prog s ({ s with nsrc := prog.count s .source, nela := prog.count s .elaborate,
                                nsnk := prog.count s .sink }.setMain .init) []
  | init (point : s.main = .init) :
      MainMove prog s ({ s with rmutex := none, emutex := none, rbuffer := wbufInit,
                                ebuffer := wbufInit }.setMain (.spawn .source 0)) []
  | create {stage : Stage} {i : Nat} (point : s.main = .spawn stage i) (more : i < s.count stage) :
      MainMove prog s ((s.create i stage).setMain (.spawn stage (i + 1))) []
  | spawned {stage : Stage} {i : Nat} (point : s.main = .spawn stage i) (all : s.count stage ≤ i) :
      MainMove prog s (s.setMain stage.spawned) []
  | join {stage : Stage} {i : Nat} (point : s.main = .join stage i) (more : i < s.count stage)
      (gone : s.hasExited i stage = true) : MainMove prog s (s.setMain (.join stage (i + 1))) []
  | joined {stage : Stage} {i : Nat} (point : s.main = .join stage i) (all : s.count stage ≤ i) :
      MainMove prog s (s.setMain (stage.joined prog)) []
  | relAcquire {buf : Buf} {locked : Pipe} (point : s.main = .relLock buf) (free : s.lock .main buf = some locked) :
      MainMove prog s (locked.setMain (.relSet buf)) []
  | relSet {buf : Buf} (point : s.main = .relSet buf) :
      MainMove prog s ((s.release buf).setMain (.relUnlock buf)) []
  | relUnlock {buf : Buf} (point : s.main = .relUnlock buf) :
      MainMove prog s ((s.unlock buf).setMain buf.released) []
  | doneOver {i : Nat} (point : s.main = .done i) (tried : maxRetry < i) : MainMove prog s (s.setMain (.doneCheck i)) []
  | doneCheck {i : Nat} (point : s.main = .doneCheck i) :
      MainMove prog s (s.setMain .closeDev) [.doneReturned (if i = maxRetry then 1 else 0)]

inductive CallMove (prog : Prog) (s : Pipe) : Tid → Op → Pipe → Prop where
  | openDev (point : s.main = .openDev) : CallMove prog s .main .myOpen (s.setMain .inOpen)
  | done {i : Nat} (point : s.main = .done i) (left : i ≤ maxRetry) :
      CallMove prog s .main (.myWrite (terminatorText ++ [0])) (s.setMain (.inDone i))
  | closeDev (point : s.main = .closeDev) : CallMove prog s .main .myClose (s.setMain .inClose)
  | read {i : Nat} (role : prog = .reader) (point : s.sources i = .read) :
      CallMove prog s (.source i) (.myRead readByte) (s.setSource i .inRead)
  | write {i failures : Nat} {item : Item} (role : prog = .writer) (point : s.sinks i = .act item failures)
      (left : failures < maxRetry) :
      CallMove prog s (.sink i) (.myWrite (item.data ++ [0])) (s.setSink i (.inWrite item failures))

inductive RetMove (s : Pipe) (res : Int) (got : Bytes) : Tid → Pipe → List UserEvent → Prop where
  | openDev (point : s.main = .inOpen) : RetMove s res got .main (s.setMain (if res = 0 then .counts else .failed)) []
  | done {i : Nat} (point : s.main = .inDone i) :
      RetMove s res got .main (s.setMain (if res = 0 then .doneCheck i else .done (i + 1))) []
  | closeDev (point : s.main = .inClose) : RetMove s res got .main (s.setMain .exited) []
  | read {i : Nat} (point : s.sources i = .inRead) :
      RetMove s res got (.source i) (s.setSource i (.took res got)) [.outcome res got]
  | written {i failures : Nat} {item : Item} (point : s.sinks i = .inWrite item failures) (success : res = 0) :
      RetMove s res got (.sink i) (s.setSink i (.report item failures)) [.attempt item true]
  | refused {i failures : Nat} {item : Item} (point : s.sinks i = .inWrite item failures) (failure : res ≠ 0) :
      RetMove s res got (.sink i) (s.setSink i (.act item (failures + 1))) [.attempt item false]

inductive HandMove (s : Pipe) (t : Tid) : Pipe → Prop where
  | load (point : s.hands t = some .load) : HandMove s t (s.setHand t (some (.store s.control)))
  | store {value : Int} (point : s.hands t = some (.store value)) :
      HandMove s t ({ s with control := value + 1 }.setHand t (some .check))
  | check (point : s.hands t = some .check) : HandMove s t (s.setHand t (if 1 < s.control then none else some .lockR))
  | acquireR (point : s.hands t = some .lockR) (free : s.rmutex = none) :
      HandMove s t ((s.setR (some t)).setHand t (some .bodyR))
  | bodyR (point : s.hands t = some .bodyR) :
      HandMove s t ({ s with todo := 0, loop := false, rbuffer := s.rbuffer.drop }.setHand t (some .lockE))
  | acquireE (point : s.hands t = some .lockE) (free : s.emutex = none) :
      HandMove s t ((s.setE (some t)).setHand t (some .unlockR))
  | unlockR (point : s.hands t = some .unlockR) : HandMove s t ((s.setR none).setHand t (some .bodyE))
  | bodyE (point : s.hands t = some .bodyE) : HandMove s t ({ s with ebuffer := s.ebuffer.drop }.setHand t (some .unlockE))
  | unlockE (point : s.hands t = some .unlockE) : HandMove s t ((s.setE none).setHand t none)

inductive PipeMove (prog : Prog) (s : Pipe) : UserAction → Pipe → List UserEvent → Prop where
  | source {i : Nat} {choice : Choice} {next : Pipe} {out : List UserEvent} (move : SourceMove prog s i next out) :
      PipeMove prog s (.go (.source i) choice) next out
  | elaborate {i : Nat} {choice : Choice} {next : Pipe} {out : List UserEvent}
      (move : ElaborateMove prog.change s i next out) : PipeMove prog s (.go (.elaborate i) choice) next out
  | sink {i : Nat} {choice : Choice} {next : Pipe} {out : List UserEvent} (move : SinkMove prog s i next out) :
      PipeMove prog s (.go (.sink i) choice) next out
  | main {choice : Choice} {next : Pipe} {out : List UserEvent} (move : MainMove prog s next out) :
      PipeMove prog s (.go .main choice) next out
  | hand {t : Tid} {choice : Choice} {next : Pipe} (move : HandMove s t next) : PipeMove prog s (.go t choice) next []
  | call {t : Tid} {op : Op} {next : Pipe} (move : CallMove prog s t op next) : PipeMove prog s (.call t) next []
  | ret {t : Tid} {res : Int} {got : Bytes} {next : Pipe} {out : List UserEvent} (move : RetMove s res got t next out) :
      PipeMove prog s (.ret t res got) next out
  | spuriousR {i : Nat} (point : s.elaborators i = .wait) :
      PipeMove prog s (.spurious (.elaborate i)) (s.setElaborator i .lock) []
  | spuriousE {i : Nat} (point : s.sinks i = .wait) : PipeMove prog s (.spurious (.sink i)) (s.setSink i .lock) []
  | sigint {t : Tid} : PipeMove prog s (.sigint t) (s.setHand t (some .load)) []

theorem lock_r_spec (s locked : Pipe) (t : Tid) (acquired : s.lockR t = some locked) :
    s.rmutex = none ∧ locked = s.setR (some t) := by
  unfold Pipe.lockR at acquired
  split at acquired
  · rename_i free
    cases acquired
    exact ⟨by simpa using free, rfl⟩
  · cases acquired

theorem lock_e_spec (s locked : Pipe) (t : Tid) (acquired : s.lockE t = some locked) :
    s.emutex = none ∧ locked = s.setE (some t) := by
  unfold Pipe.lockE at acquired
  split at acquired
  · rename_i free
    cases acquired
    exact ⟨by simpa using free, rfl⟩
  · cases acquired

theorem source_loop_moves (prog : Prog) (s next : Pipe) (i : Nat) (out : List UserEvent)
    (stepped : sourceLoop s i (s.sources i) = some (next, out)) : SourceMove prog s i next out := by
  cases point : s.sources i with
  | lock =>
      simp only [point, sourceLoop, Option.map_eq_some_iff, Prod.mk.injEq] at stepped
      obtain ⟨_, acquired, rfl, rfl⟩ := stepped
      obtain ⟨free, rfl⟩ := lock_r_spec _ _ _ acquired
      exact .acquire point free
  | unlock stop =>
      rw [point] at stepped
      cases stepped
      exact .release point
  | sleep stop =>
      rw [point] at stepped
      cases stepped
      exact .rest point
  | _ => simp [point, sourceLoop] at stepped

theorem create_data_moves (s next : Pipe) (i : Nat) (choice : Choice) (out : List UserEvent)
    (stepped : createData s i choice = some (next, out)) : SourceMove .writer s i next out := by
  unfold createData at stepped
  split at stepped
  · rename_i point
    split at stepped
    · rename_i empty
      cases stepped
      exact .spent point empty
    · rename_i left
      simp only [Option.map_eq_some_iff, Prod.mk.injEq] at stepped
      obtain ⟨_, signalled, rfl, rfl⟩ := stepped
      exact .create rfl point (by omega) signalled
  · exact source_loop_moves .writer s next i out stepped

theorem read_dev_moves (s next : Pipe) (i : Nat) (choice : Choice) (out : List UserEvent)
    (stepped : readDev s i choice = some (next, out)) : SourceMove .reader s i next out := by
  unfold readDev at stepped
  split at stepped
  · rename_i point
    split at stepped
    · rename_i empty
      cases stepped
      exact .spent point empty
    · rename_i left
      cases stepped
      exact .ask rfl point (by omega)
  · rename_i res tmp point
    split at stepped
    · rename_i failure
      simp only [Option.map_eq_some_iff, Prod.mk.injEq] at stepped
      obtain ⟨_, signalled, rfl, rfl⟩ := stepped
      exact .failed rfl point failure signalled
    · rename_i success
      split at stepped
      · rename_i found
        simp only [Option.map_eq_some_iff, Prod.mk.injEq] at stepped
        obtain ⟨_, signalled, rfl, rfl⟩ := stepped
        exact .last rfl point (by simpa using success) found signalled
      · rename_i data
        simp only [Option.map_eq_some_iff, Prod.mk.injEq] at stepped
        obtain ⟨_, signalled, rfl, rfl⟩ := stepped
        exact .receive rfl point (by simpa using success) data signalled
  · exact source_loop_moves .reader s next i out stepped

theorem elaborate_data_moves (change : Bytes → Bytes) (s next : Pipe) (i : Nat) (choice : Choice) (out : List UserEvent)
    (stepped : elaborateData change s i choice = some (next, out)) : ElaborateMove change s i next out := by
  unfold elaborateData at stepped
  cases point : s.elaborators i with
  | off | wait | exited => simp [point] at stepped
  | lock =>
      simp only [point, Option.map_eq_some_iff, Prod.mk.injEq] at stepped
      obtain ⟨_, acquired, rfl, rfl⟩ := stepped
      obtain ⟨free, rfl⟩ := lock_r_spec _ _ _ acquired
      exact .acquire point free
  | test =>
      simp only [point] at stepped
      split at stepped
      · rename_i missing
        have empty := wbuf_ext_none _ missing
        split at stepped
        · rename_i closed
          cases stepped
          exact .stop point empty closed
        · rename_i unclosed
          cases stepped
          exact .wait point empty (by simpa using unclosed)
      · rename_i found
        cases stepped
        exact .take point found
  | unlockGot item =>
      simp only [point, Option.some.injEq, Prod.mk.injEq] at stepped
      obtain ⟨rfl, rfl⟩ := stepped
      exact .release point
  | work item =>
      simp only [point, Option.some.injEq, Prod.mk.injEq] at stepped
      obtain ⟨rfl, rfl⟩ := stepped
      exact .convert point
  | lockE item =>
      simp only [point, Option.map_eq_some_iff, Prod.mk.injEq] at stepped
      obtain ⟨_, acquired, rfl, rfl⟩ := stepped
      obtain ⟨free, rfl⟩ := lock_e_spec _ _ _ acquired
      exact .acquireE point free
  | insert item =>
      simp only [point, Option.map_eq_some_iff, Prod.mk.injEq] at stepped
      obtain ⟨_, signalled, rfl, rfl⟩ := stepped
      exact .insert point signalled
  | unlockE =>
      simp only [point, Option.some.injEq, Prod.mk.injEq] at stepped
      obtain ⟨rfl, rfl⟩ := stepped
      exact .releaseE point
  | unlockStop =>
      simp only [point, Option.some.injEq, Prod.mk.injEq] at stepped
      obtain ⟨rfl, rfl⟩ := stepped
      exact .leave point

theorem sink_loop_moves (prog : Prog) (s next : Pipe) (i : Nat) (out : List UserEvent)
    (stepped : sinkLoop s i (s.sinks i) = some (next, out)) : SinkMove prog s i next out := by
  cases point : s.sinks i with
  | lock =>
      simp only [point, sinkLoop, Option.map_eq_some_iff, Prod.mk.injEq] at stepped
      obtain ⟨_, acquired, rfl, rfl⟩ := stepped
      obtain ⟨free, rfl⟩ := lock_e_spec _ _ _ acquired
      exact .acquire point free
  | test =>
      simp only [point, sinkLoop] at stepped
      split at stepped
      · rename_i missing
        have empty := wbuf_ext_none _ missing
        split at stepped
        · rename_i closed
          cases stepped
          exact .stop point empty closed
        · rename_i unclosed
          cases stepped
          exact .wait point empty (by simpa using unclosed)
      · rename_i found
        cases stepped
        exact .take point found
  | unlock stop =>
      rw [point] at stepped
      cases stepped
      exact .release point
  | sleep stop =>
      rw [point] at stepped
      cases stepped
      exact .rest point
  | _ => simp [point, sinkLoop] at stepped

theorem write_dev_moves (s next : Pipe) (i : Nat) (out : List UserEvent) (stepped : writeDev s i = some (next, out)) :
    SinkMove .writer s i next out := by
  unfold writeDev at stepped
  split at stepped
  · rename_i point
    split at stepped
    · cases stepped
    · rename_i tried
      cases stepped
      exact .giveUp rfl point (by omega)
  · rename_i point
    cases stepped
    exact .settle rfl point
  · exact sink_loop_moves .writer s next i out stepped

theorem print_data_moves (s next : Pipe) (i : Nat) (out : List UserEvent) (stepped : printData s i = some (next, out)) :
    SinkMove .reader s i next out := by
  unfold printData at stepped
  split at stepped
  · rename_i point
    cases stepped
    exact .print rfl point
  · exact sink_loop_moves .reader s next i out stepped

theorem main_moves (prog : Prog) (s next : Pipe) (out : List UserEvent) (stepped : mainStep prog s = some (next, out)) :
    MainMove prog s next out := by
  unfold mainStep at stepped
  cases point : s.main with
  | openDev | inOpen | inDone | closeDev | inClose | exited | failed => simp [point] at stepped
  | boot =>
      simp only [point, Option.some.injEq, Prod.mk.injEq] at stepped
      obtain ⟨rfl, rfl⟩ := stepped
      exact .boot point
  | ready =>
      simp only [point, Option.some.injEq, Prod.mk.injEq] at stepped
      obtain ⟨rfl, rfl⟩ := stepped
      exact .ready point
  | counts =>
      simp only [point, Option.some.injEq, Prod.mk.injEq] at stepped
      obtain ⟨rfl, rfl⟩ := stepped
      exact .counts point
  | init =>
      simp only [point, Option.some.injEq, Prod.mk.injEq] at stepped
      obtain ⟨rfl, rfl⟩ := stepped
      exact .init point
  | spawn stage i =>
      simp only [point] at stepped
      split at stepped
      · rename_i more
        cases stepped
        exact .create point more
      · rename_i all
        cases stepped
        exact .spawned point (by omega)
  | join stage i =>
      simp only [point] at stepped
      split at stepped
      · rename_i more
        split at stepped
        · rename_i gone
          cases stepped
          exact .join point more gone
        · cases stepped
      · rename_i all
        cases stepped
        exact .joined point (by omega)
  | relLock buf =>
      simp only [point, Option.map_eq_some_iff, Prod.mk.injEq] at stepped
      obtain ⟨_, free, rfl, rfl⟩ := stepped
      exact .relAcquire point free
  | relSet buf =>
      simp only [point, Option.some.injEq, Prod.mk.injEq] at stepped
      obtain ⟨rfl, rfl⟩ := stepped
      exact .relSet point
  | relUnlock buf =>
      simp only [point, Option.some.injEq, Prod.mk.injEq] at stepped
      obtain ⟨rfl, rfl⟩ := stepped
      exact .relUnlock point
  | done i =>
      simp only [point] at stepped
      split at stepped
      · cases stepped
      · rename_i tried
        cases stepped
        exact .doneOver point (by omega)
  | doneCheck i =>
      simp only [point, Option.some.injEq, Prod.mk.injEq] at stepped
      obtain ⟨rfl, rfl⟩ := stepped
      exact .doneCheck point

theorem hand_moves (s next : Pipe) (t : Tid) (pc : HandPc) (out : List UserEvent) (point : s.hands t = some pc)
    (stepped : catcherSigint s t pc = some (next, out)) : HandMove s t next ∧ out = [] := by
  cases pc with
  | load => cases stepped; exact ⟨.load point, rfl⟩
  | store value => cases stepped; exact ⟨.store point, rfl⟩
  | check => cases stepped; exact ⟨.check point, rfl⟩
  | bodyR => cases stepped; exact ⟨.bodyR point, rfl⟩
  | unlockR => cases stepped; exact ⟨.unlockR point, rfl⟩
  | bodyE => cases stepped; exact ⟨.bodyE point, rfl⟩
  | unlockE => cases stepped; exact ⟨.unlockE point, rfl⟩
  | lockR =>
      simp only [catcherSigint, Option.map_eq_some_iff, Prod.mk.injEq] at stepped
      obtain ⟨_, acquired, rfl, rfl⟩ := stepped
      obtain ⟨free, rfl⟩ := lock_r_spec _ _ _ acquired
      exact ⟨.acquireR point free, rfl⟩
  | lockE =>
      simp only [catcherSigint, Option.map_eq_some_iff, Prod.mk.injEq] at stepped
      obtain ⟨_, acquired, rfl, rfl⟩ := stepped
      obtain ⟨free, rfl⟩ := lock_e_spec _ _ _ acquired
      exact ⟨.acquireE point free, rfl⟩

theorem request_moves (prog : Prog) (s next : Pipe) (t : Tid) (op : Op) (asked : s.request prog t = some (op, next)) :
    CallMove prog s t op next := by
  cases t with
  | main =>
      cases point : s.main <;> simp only [Pipe.request, point] at asked <;> try cases asked
      · exact .openDev point
      · split at asked
        · rename_i left
          cases asked
          exact .done point left
        · cases asked
      · exact .closeDev point
  | source i =>
      simp only [Pipe.request] at asked
      split at asked
      · rename_i point
        cases asked
        exact .read rfl point
      · cases asked
  | elaborate i => cases asked
  | sink i =>
      simp only [Pipe.request] at asked
      split at asked
      · rename_i point
        split at asked
        · rename_i left
          cases asked
          exact .write rfl point left
        · cases asked
      · cases asked

theorem ret_moves (s next : Pipe) (t : Tid) (res : Int) (got : Bytes) (out : List UserEvent)
    (stepped : userRet s t res got = some (next, out)) : RetMove s res got t next out := by
  cases t with
  | main =>
      cases point : s.main <;> simp only [userRet, point] at stepped <;> cases stepped
      · exact .openDev point
      · exact .done point
      · exact .closeDev point
  | source i =>
      cases point : s.sources i <;> simp only [userRet, point] at stepped <;> cases stepped
      exact .read point
  | elaborate i => cases stepped
  | sink i =>
      cases point : s.sinks i with
      | inWrite item failures =>
          simp only [userRet, point] at stepped
          split at stepped
          · rename_i success
            cases stepped
            exact .written point success
          · rename_i failure
            cases stepped
            exact .refused point failure
      | _ => simp [userRet, point] at stepped

inductive BaseMove (prog : Prog) (s : Pipe) : Tid → Pipe → List UserEvent → Prop where
  | source {i : Nat} {next : Pipe} {out : List UserEvent} (move : SourceMove prog s i next out) :
      BaseMove prog s (.source i) next out
  | elaborate {i : Nat} {next : Pipe} {out : List UserEvent} (move : ElaborateMove prog.change s i next out) :
      BaseMove prog s (.elaborate i) next out
  | sink {i : Nat} {next : Pipe} {out : List UserEvent} (move : SinkMove prog s i next out) :
      BaseMove prog s (.sink i) next out
  | main {next : Pipe} {out : List UserEvent} (move : MainMove prog s next out) : BaseMove prog s .main next out

-- The steps again, with what they need of the handlers: a thread goes on, or
-- calls the device, only when no handler runs on top of it.
inductive PipeStep (prog : Prog) (s : Pipe) : UserAction → Pipe → List UserEvent → Prop where
  | base {t : Tid} {choice : Choice} {next : Pipe} {out : List UserEvent} (idle : s.hands t = none)
      (move : BaseMove prog s t next out) : PipeStep prog s (.go t choice) next out
  | hand {t : Tid} {choice : Choice} {next : Pipe} (move : HandMove s t next) : PipeStep prog s (.go t choice) next []
  | call {t : Tid} {op : Op} {next : Pipe} (idle : s.hands t = none) (move : CallMove prog s t op next) :
      PipeStep prog s (.call t) next []
  | ret {t : Tid} {res : Int} {got : Bytes} {next : Pipe} {out : List UserEvent} (move : RetMove s res got t next out) :
      PipeStep prog s (.ret t res got) next out
  | spuriousR {i : Nat} (point : s.elaborators i = .wait) :
      PipeStep prog s (.spurious (.elaborate i)) (s.setElaborator i .lock) []
  | spuriousE {i : Nat} (point : s.sinks i = .wait) : PipeStep prog s (.spurious (.sink i)) (s.setSink i .lock) []
  | sigint {t : Tid} (idle : s.hands t = none) (alive : s.interruptible t = true) :
      PipeStep prog s (.sigint t) (s.setHand t (some .load)) []

theorem thread_moves (prog : Prog) (s next : Pipe) (t : Tid) (choice : Choice) (out : List UserEvent)
    (stepped : threadStep prog s choice t = some (next, out)) : BaseMove prog s t next out := by
  cases t with
  | main => exact .main (main_moves prog s next out stepped)
  | source i =>
      cases prog with
      | writer => exact .source (create_data_moves s next i choice out stepped)
      | reader => exact .source (read_dev_moves s next i choice out stepped)
  | elaborate i => exact .elaborate (elaborate_data_moves prog.change s next i choice out stepped)
  | sink i =>
      cases prog with
      | writer => exact .sink (write_dev_moves s next i out stepped)
      | reader => exact .sink (print_data_moves s next i out stepped)

theorem pipe_steps (prog : Prog) (s next : Pipe) (action : UserAction) (out : List UserEvent)
    (stepped : (pipeline prog).step s action = some (next, out)) : PipeStep prog s action next out := by
  cases action with
  | go t choice =>
      simp only [pipeline, goStep] at stepped
      split at stepped
      · rename_i pc point
        obtain ⟨move, rfl⟩ := hand_moves s next t pc out point stepped
        exact .hand move
      · rename_i idle
        exact .base idle (thread_moves prog s next t choice out stepped)
  | call t =>
      simp only [pipeline, userCall] at stepped
      split at stepped
      · cases stepped
      · rename_i idle
        simp only [Option.map_eq_some_iff, Prod.mk.injEq] at stepped
        obtain ⟨⟨op, _⟩, asked, rfl, rfl⟩ := stepped
        exact .call idle (request_moves prog s _ t op asked)
  | ret t res got => exact .ret (ret_moves s next t res got out stepped)
  | spurious t =>
      simp only [pipeline] at stepped
      cases t with
      | main | source => cases stepped
      | elaborate i =>
          simp only [spuriousStep] at stepped
          split at stepped
          · rename_i point
            cases stepped
            exact .spuriousR point
          · cases stepped
      | sink i =>
          simp only [spuriousStep] at stepped
          split at stepped
          · rename_i point
            cases stepped
            exact .spuriousE point
          · cases stepped
  | sigint t =>
      simp only [pipeline, sigintStep] at stepped
      split at stepped
      · rename_i allowed
        simp only [Bool.and_eq_true, Option.isNone_iff_eq_none] at allowed
        cases stepped
        exact .sigint allowed.2 allowed.1.2
      · cases stepped

theorem step_moves (prog : Prog) (s next : Pipe) (action : UserAction) (out : List UserEvent)
    (step : PipeStep prog s action next out) : PipeMove prog s action next out := by
  cases step with
  | base _ move =>
      cases move with
      | source move => exact .source move
      | elaborate move => exact .elaborate move
      | sink move => exact .sink move
      | main move => exact .main move
  | hand move => exact .hand move
  | call _ move => exact .call move
  | ret move => exact .ret move
  | spuriousR point => exact .spuriousR point
  | spuriousE point => exact .spuriousE point
  | sigint => exact .sigint

theorem pipe_moves (prog : Prog) (s next : Pipe) (action : UserAction) (out : List UserEvent)
    (stepped : (pipeline prog).step s action = some (next, out)) : PipeMove prog s action next out :=
  step_moves prog s next action out (pipe_steps prog s next action out stepped)

structure SourceFrame (s next : Pipe) (j : Nat) : Prop where
  mine : ∃ pc, next.sources = Function.update s.sources j pc
  roused : ∀ i, Roused .wait .lock (s.elaborators i) (next.elaborators i)
  sinks : next.sinks = s.sinks
  main : next.main = s.main
  ebuffer : next.ebuffer = s.ebuffer
  count : next.count = s.count

structure ElaborateFrame (s next : Pipe) (j : Nat) : Prop where
  mine : ∃ pc, next.elaborators = Function.update s.elaborators j pc
  roused : ∀ i, Roused .wait .lock (s.sinks i) (next.sinks i)
  sources : next.sources = s.sources
  main : next.main = s.main
  count : next.count = s.count
  todo : next.todo = s.todo
  loop : next.loop = s.loop
  made : next.made = s.made

structure SinkFrame (s next : Pipe) (j : Nat) : Prop where
  mine : ∃ pc, next.sinks = Function.update s.sinks j pc
  sources : next.sources = s.sources
  elaborators : next.elaborators = s.elaborators
  main : next.main = s.main
  rbuffer : next.rbuffer = s.rbuffer
  count : next.count = s.count
  todo : next.todo = s.todo
  loop : next.loop = s.loop
  made : next.made = s.made

structure HandFrame (s next : Pipe) : Prop where
  sources : next.sources = s.sources
  elaborators : next.elaborators = s.elaborators
  sinks : next.sinks = s.sinks
  main : next.main = s.main
  count : next.count = s.count
  made : next.made = s.made

theorem source_frame (prog : Prog) (s next : Pipe) (j : Nat) (out : List UserEvent) (move : SourceMove prog s j next out) :
    SourceFrame s next j := by
  have still : ∀ i, Roused ElaboratePc.wait .lock (s.elaborators i) (s.elaborators i) := fun _ => .inl rfl
  cases move with
  | acquire | spent | ask | release | rest => exact ⟨⟨_, rfl⟩, still, rfl, rfl, rfl, rfl⟩
  | create _ _ _ signalled | failed _ _ _ signalled | last _ _ _ _ signalled | receive _ _ _ _ signalled =>
      obtain ⟨_, rfl, roused⟩ := signal_r_spec _ _ _ signalled
      exact ⟨⟨_, rfl⟩, roused, rfl, rfl, rfl, rfl⟩

theorem elaborate_frame (change : Bytes → Bytes) (s next : Pipe) (j : Nat) (out : List UserEvent)
    (move : ElaborateMove change s j next out) : ElaborateFrame s next j := by
  have still : ∀ i, Roused SinkPc.wait .lock (s.sinks i) (s.sinks i) := fun _ => .inl rfl
  cases move with
  | insert _ signalled =>
      obtain ⟨_, rfl, roused⟩ := signal_e_spec _ _ _ signalled
      exact ⟨⟨_, rfl⟩, roused, rfl, rfl, rfl, rfl, rfl, rfl⟩
  | _ => exact ⟨⟨_, rfl⟩, still, rfl, rfl, rfl, rfl, rfl, rfl⟩

theorem sink_frame (prog : Prog) (s next : Pipe) (j : Nat) (out : List UserEvent) (move : SinkMove prog s j next out) :
    SinkFrame s next j := by
  cases move <;> exact ⟨⟨_, rfl⟩, rfl, rfl, rfl, rfl, rfl, rfl, rfl, rfl⟩

theorem hand_frame (s next : Pipe) (t : Tid) (move : HandMove s t next) : HandFrame s next := by
  cases move <;> exact ⟨rfl, rfl, rfl, rfl, rfl, rfl⟩

end MyDev
