import MyDev.Library.Potential
import MyDev.PipelineProgress

set_option autoImplicit false

namespace MyDev

open Library

-- How many steps a thread still has in it, counting what it will hand on. An
-- item in ebuffer pays for the sink's work on it (16), an item in rbuffer for
-- the elaborator's and for the insertion into ebuffer (27), a unit of todo for
-- the source's and for the insertion into rbuffer (37). Whoever signals pays
-- for the waiter to come back: 3 for an elaborator, 4 for a sink.
def SourcePc.effort : SourcePc → Nat
  | .exited => 0
  | .sleep true => 1
  | .unlock true => 2
  | .ticket => 3
  | .off | .lock => 4
  | .sleep false => 5
  | .unlock false => 6
  | .took _ _ => 37
  | .inRead => 38
  | .read => 39

-- The same for a read_dev whose strings are paid for when they come out of the
-- device: up to the return of my_read it only counts its way there.
def SourcePc.approach : SourcePc → Nat
  | .inRead => 1
  | .read => 2
  | point => point.effort

structure Pricing where
  source : SourcePc → Nat
  ticket : Nat

def counted : Pricing := ⟨SourcePc.effort, 37⟩

def perString : Pricing := ⟨SourcePc.approach, 0⟩

def ElaboratePc.effort : ElaboratePc → Nat
  | .exited | .wait => 0
  | .unlockStop => 1
  | .test => 2
  | .off | .lock => 3
  | .unlockE => 4
  | .insert _ => 25
  | .lockE _ => 26
  | .work _ => 27
  | .unlockGot _ => 28

def SinkPc.effort : SinkPc → Nat
  | .exited | .wait => 0
  | .sleep true => 1
  | .unlock true => 2
  | .test => 3
  | .off | .lock => 4
  | .sleep false => 5
  | .unlock false => 6
  | .report _ _ => 7
  | .act _ failures => 8 + 2 * (5 - failures)
  | .inWrite _ failures => 9 + 2 * (4 - failures)

-- No stage has more than ten threads; release_t wakes them all.
def MainPc.effort : MainPc → Nat
  | .exited | .failed => 0
  | .inClose => 1
  | .closeDev => 2
  | .doneCheck _ => 3
  | .done i => 4 + 2 * (6 - i)
  | .inDone i => 5 + 2 * (5 - i)
  | .join .sink i => 17 + (10 - i)
  | .relUnlock .elaborated => 28
  | .relSet .elaborated => 69
  | .relLock .elaborated => 70
  | .join .elaborate i => 71 + (10 - i)
  | .relUnlock .raw => 82
  | .relSet .raw => 113
  | .relLock .raw => 114
  | .join .source i => 115 + (10 - i)
  | .spawn .sink i => 126 + (10 - i)
  | .spawn .elaborate i => 137 + (10 - i)
  | .spawn .source i => 148 + (10 - i)
  | .init => 159
  | .counts => 160
  | .inOpen => 161
  | .openDev => 162
  | .ready => 163
  | .boot => 164

def handEffort : Option HandPc → Nat
  | none => 0
  | some .unlockE => 1
  | some .bodyE => 2
  | some .unlockR => 3
  | some .lockE => 4
  | some .bodyR => 5
  | some .lockR => 6
  | some .check => 7
  | some (.store _) => 8
  | some .load => 9

def Prog.pool (prog : Prog) (stage : Stage) : Finset Nat := Finset.range (prog.max stage).toNat

def Prog.tids (prog : Prog) : Finset Tid :=
  insert .main ((prog.pool .source).image Tid.source ∪ (prog.pool .elaborate).image Tid.elaborate ∪
    (prog.pool .sink).image Tid.sink)

def Pipe.effort (price : Pricing) (prog : Prog) (s : Pipe) : Nat :=
  s.main.effort + load (prog.pool .source) s.sources price.source +
    load (prog.pool .elaborate) s.elaborators ElaboratePc.effort + load (prog.pool .sink) s.sinks SinkPc.effort +
    load prog.tids s.hands handEffort + price.ticket * s.todo.toNat + 27 * s.rbuffer.items.length + 16 * s.ebuffer.items.length

-- What an action may add: a spurious wake-up sends a thread around its loop once
-- more, a signal starts a handler.
def UserAction.charge : UserAction → Nat
  | .go _ _ | .call _ | .ret _ _ _ => 0
  | .spurious _ => 5
  | .sigint _ => 10

theorem pool_card (prog : Prog) (stage : Stage) : (prog.pool stage).card ≤ 10 := by
  cases prog <;> cases stage <;> decide

theorem count_le_ten (prog : Prog) (s : Pipe) (bound : CountBound prog s) (stage : Stage) : s.count stage ≤ 10 := by
  refine Nat.le_trans (bound stage) ?_
  cases prog <;> cases stage <;> decide

theorem signal_r_effort (prog : Prog) (s woken : Pipe) (wake : Nat) (signalled : s.signalR wake = some woken) :
    ∃ elaborators, woken = { s with elaborators := elaborators } ∧
      load (prog.pool .elaborate) elaborators ElaboratePc.effort ≤
        load (prog.pool .elaborate) s.elaborators ElaboratePc.effort + 3 := by
  obtain ⟨elaborators, chosen, rfl⟩ := Option.map_eq_some_iff.mp signalled
  exact ⟨elaborators, rfl, load_signal _ _ _ _ _ _ wake _ 3 (by decide) chosen⟩

theorem signal_e_effort (prog : Prog) (s woken : Pipe) (wake : Nat) (signalled : s.signalE wake = some woken) :
    ∃ sinks, woken = { s with sinks := sinks } ∧
      load (prog.pool .sink) sinks SinkPc.effort ≤ load (prog.pool .sink) s.sinks SinkPc.effort + 4 := by
  obtain ⟨sinks, chosen, rfl⟩ := Option.map_eq_some_iff.mp signalled
  exact ⟨sinks, rfl, load_signal _ _ _ _ _ _ wake _ 4 (by decide) chosen⟩

section Effort

variable {price : Pricing}

theorem effort_source (prog : Prog) (s next : Pipe) (i wakes : Nat) (pc : SourcePc) (member : i ∈ prog.pool .source)
    (frame : SourceFrame s next i) (hands : next.hands = s.hands) (moved : next.sources = Function.update s.sources i pc)
    (woken : load (prog.pool .elaborate) next.elaborators ElaboratePc.effort ≤
      load (prog.pool .elaborate) s.elaborators ElaboratePc.effort + wakes)
    (cheaper : price.source pc + wakes + price.ticket * next.todo.toNat + 27 * next.rbuffer.items.length <
      price.source (s.sources i) + price.ticket * s.todo.toNat + 27 * s.rbuffer.items.length) :
    next.effort price prog < s.effort price prog := by
  have own := load_update (prog.pool .source) s.sources price.source i pc member
  rw [← moved] at own
  simp only [Pipe.effort, frame.main, frame.sinks, frame.ebuffer, hands]
  omega

theorem source_effort (prog : Prog) (s next : Pipe) (i : Nat) (out : List UserEvent) (member : i ∈ prog.pool .source)
    (off : s.loop = false) (move : SourceMove prog s i next out) : next.effort counted prog < s.effort counted prog := by
  have frame := source_frame prog s next i out move
  have hands := base_hands prog s next _ out (.source move)
  cases move with
  | acquire point =>
      exact effort_source prog s _ i 0 _ member frame hands rfl (Nat.le_refl _)
        (by simp [point, counted, SourcePc.effort, Pipe.setSource, Pipe.setR])
  | spent point empty =>
      refine effort_source prog s _ i 0 _ member frame hands rfl (Nat.le_refl _) ?_
      simp [point, counted, SourcePc.effort, Pipe.setSource, Pipe.drawn, off]
      omega
  | create _ point left signalled =>
      obtain ⟨_, rfl, woken⟩ := signal_r_effort prog _ _ _ signalled
      refine effort_source prog s _ i 3 _ member frame hands rfl woken ?_
      simp only [Pipe.tmpTodo, off] at left
      simp [point, counted, SourcePc.effort, Pipe.setSource, Pipe.drawn, Pipe.putRaw, off] at left ⊢
      omega
  | ask _ point left =>
      refine effort_source prog s _ i 0 _ member frame hands rfl (Nat.le_refl _) ?_
      simp [Pipe.tmpTodo, point, counted, SourcePc.effort, Pipe.setSource, Pipe.drawn, off] at left ⊢
      omega
  | failed _ point _ signalled =>
      obtain ⟨_, rfl, woken⟩ := signal_r_effort prog _ _ _ signalled
      exact effort_source prog s _ i 3 _ member frame hands rfl woken
        (by simp [point, counted, SourcePc.effort, Pipe.setSource])
  | last _ point _ _ signalled =>
      obtain ⟨_, rfl, woken⟩ := signal_r_effort prog _ _ _ signalled
      exact effort_source prog s _ i 3 _ member frame hands rfl woken
        (by simp [point, counted, SourcePc.effort, Pipe.setSource, Pipe.endLoop])
  | receive _ point _ _ signalled =>
      obtain ⟨_, rfl, woken⟩ := signal_r_effort prog _ _ _ signalled
      refine effort_source prog s _ i 3 _ member frame hands rfl woken ?_
      simp [point, counted, SourcePc.effort, Pipe.setSource, Pipe.putRaw]
      omega
  | @release stop point =>
      refine effort_source prog s _ i 0 _ member frame hands rfl (Nat.le_refl _) ?_
      cases stop <;> simp [point, counted, SourcePc.effort, Pipe.setSource, Pipe.setR]
  | @rest stop point =>
      refine effort_source prog s _ i 0 _ member frame hands rfl (Nat.le_refl _) ?_
      cases stop <;> simp [point, counted, SourcePc.effort, Pipe.setSource]

theorem approach_effort (prog : Prog) (s next : Pipe) (i : Nat) (out : List UserEvent) (member : i ∈ prog.pool .source)
    (role : prog = .reader) (move : SourceMove prog s i next out) : next.effort perString prog < s.effort perString prog := by
  have frame := source_frame prog s next i out move
  have hands := base_hands prog s next _ out (.source move)
  cases move with
  | create writer => exact absurd (role.symm.trans writer) (by decide)
  | acquire point | spent point | ask _ point =>
      exact effort_source prog s _ i 0 _ member frame hands rfl (Nat.le_refl _)
        (by simp [point, perString, SourcePc.approach, SourcePc.effort, Pipe.setSource, Pipe.setR, Pipe.drawn])
  | failed _ point _ signalled | last _ point _ _ signalled | receive _ point _ _ signalled =>
      obtain ⟨_, rfl, woken⟩ := signal_r_effort prog _ _ _ signalled
      refine effort_source prog s _ i 3 _ member frame hands rfl woken ?_
      simp [point, perString, SourcePc.approach, SourcePc.effort, Pipe.setSource, Pipe.endLoop, Pipe.putRaw] <;> omega
  | @release stop point | @rest stop point =>
      refine effort_source prog s _ i 0 _ member frame hands rfl (Nat.le_refl _) ?_
      cases stop <;> simp [point, perString, SourcePc.approach, SourcePc.effort, Pipe.setSource, Pipe.setR]

theorem effort_elaborator (prog : Prog) (s next : Pipe) (i wakes : Nat) (pc : ElaboratePc) (member : i ∈ prog.pool .elaborate)
    (frame : ElaborateFrame s next i) (hands : next.hands = s.hands)
    (moved : next.elaborators = Function.update s.elaborators i pc)
    (woken : load (prog.pool .sink) next.sinks SinkPc.effort ≤ load (prog.pool .sink) s.sinks SinkPc.effort + wakes)
    (cheaper : pc.effort + wakes + 27 * next.rbuffer.items.length + 16 * next.ebuffer.items.length <
      (s.elaborators i).effort + 27 * s.rbuffer.items.length + 16 * s.ebuffer.items.length) :
    next.effort price prog < s.effort price prog := by
  have own := load_update (prog.pool .elaborate) s.elaborators ElaboratePc.effort i pc member
  rw [← moved] at own
  simp only [Pipe.effort, frame.main, frame.sources, frame.todo, hands]
  omega

theorem elaborate_effort (prog : Prog) (s next : Pipe) (i : Nat) (out : List UserEvent) (member : i ∈ prog.pool .elaborate)
    (move : ElaborateMove prog.change s i next out) : next.effort price prog < s.effort price prog := by
  have frame := elaborate_frame prog.change s next i out move
  have hands := base_hands prog s next _ out (.elaborate move)
  have still := Nat.le_refl (load (prog.pool .sink) s.sinks SinkPc.effort)
  cases move with
  | take point found =>
      refine effort_elaborator prog s _ i 0 _ member frame hands rfl still ?_
      simp [point, ElaboratePc.effort, Pipe.setElaborator, (wbuf_ext_some _ _ _ found).1]
      omega
  | insert point signalled =>
      obtain ⟨_, rfl, woken⟩ := signal_e_effort prog _ _ _ signalled
      refine effort_elaborator prog s _ i 4 _ member frame hands rfl woken ?_
      simp [point, ElaboratePc.effort, Pipe.setElaborator, Pipe.putElaborated]
      omega
  | acquire point | stop point | wait point | release point | convert point | acquireE point | releaseE point | leave point =>
      exact effort_elaborator prog s _ i 0 _ member frame hands rfl still
        (by simp [point, ElaboratePc.effort, Pipe.setElaborator, Pipe.setR, Pipe.setE])

theorem effort_sink (prog : Prog) (s next : Pipe) (i : Nat) (pc : SinkPc) (member : i ∈ prog.pool .sink)
    (frame : SinkFrame s next i) (hands : next.hands = s.hands) (moved : next.sinks = Function.update s.sinks i pc)
    (cheaper : pc.effort + 16 * next.ebuffer.items.length < (s.sinks i).effort + 16 * s.ebuffer.items.length) :
    next.effort price prog < s.effort price prog := by
  have own := load_update (prog.pool .sink) s.sinks SinkPc.effort i pc member
  rw [← moved] at own
  simp only [Pipe.effort, frame.main, frame.sources, frame.elaborators, frame.rbuffer, frame.todo, hands]
  omega

theorem sink_effort_lt (prog : Prog) (s next : Pipe) (i : Nat) (out : List UserEvent) (member : i ∈ prog.pool .sink)
    (move : SinkMove prog s i next out) : next.effort price prog < s.effort price prog := by
  have frame := sink_frame prog s next i out move
  have hands := base_hands prog s next _ out (.sink move)
  cases move with
  | take point found =>
      refine effort_sink prog s _ i _ member frame hands rfl ?_
      simp [point, SinkPc.effort, Pipe.setSink, (wbuf_ext_some _ _ _ found).1]
      omega
  | acquire point | stop point | wait point | giveUp _ point | settle _ point | print _ point =>
      refine effort_sink prog s _ i _ member frame hands rfl ?_
      simp [point, SinkPc.effort, Pipe.setSink, Pipe.setE] <;> omega
  | @release stop point | @rest stop point =>
      refine effort_sink prog s _ i _ member frame hands rfl ?_
      cases stop <;> simp [point, SinkPc.effort, Pipe.setSink, Pipe.setE]

theorem effort_main (prog : Prog) (s : Pipe) (pc : MainPc) (cheaper : pc.effort < s.main.effort) :
    (s.setMain pc).effort price prog < s.effort price prog := by
  simp only [Pipe.effort, Pipe.setMain]
  omega

theorem spawned_effort (stage : Stage) (i : Nat) : stage.spawned.effort < (MainPc.spawn stage i).effort := by
  cases stage <;> simp [Stage.spawned, MainPc.effort] <;> omega

theorem joined_effort (prog : Prog) (stage : Stage) (i : Nat) :
    (stage.joined prog).effort < (MainPc.join stage i).effort := by
  cases stage <;> cases prog <;> simp [Stage.joined, MainPc.effort] <;> omega

theorem main_effort (prog : Prog) (s next : Pipe) (out : List UserEvent) (fresh : price.source .off = price.source .lock)
    (inv : JoinInv s) (bound : CountBound prog s)
    (move : MainMove prog s next out) : next.effort price prog < s.effort price prog := by
  cases move with
  | boot point | ready point | counts point | doneCheck point =>
      simp [Pipe.effort, Pipe.setMain, point, MainPc.effort]
  | init point =>
      simp [Pipe.effort, Pipe.setMain, point, MainPc.effort]
      omega
  | doneOver point => exact effort_main prog s _ (by simp [point, MainPc.effort]; omega)
  | @spawned stage i point => exact effort_main prog s _ (by rw [point]; exact spawned_effort stage i)
  | @joined stage i point => exact effort_main prog s _ (by rw [point]; exact joined_effort prog stage i)
  | @join stage i point more =>
      have few := count_le_ten prog s bound stage
      refine effort_main prog s _ ?_
      cases stage <;> simp [point, MainPc.effort] <;> omega
  | @create stage i point more =>
      have few := count_le_ten prog s bound stage
      have member : i ∈ prog.pool stage := Finset.mem_range.mpr (Nat.lt_of_lt_of_le more (bound stage))
      have off := spawn_off s stage i inv point
      cases stage with
      | source =>
          have own := load_update _ s.sources price.source i .lock member
          rw [life_source_off s i off] at own
          rw [fresh] at own
          simp only [Pipe.effort, Pipe.setMain, Pipe.create, Pipe.setSource, point, MainPc.effort]
          omega
      | elaborate =>
          have own := load_update _ s.elaborators ElaboratePc.effort i .lock member
          rw [life_elaborate_off s i off] at own
          simp only [Pipe.effort, Pipe.setMain, Pipe.create, Pipe.setElaborator, point, MainPc.effort, ElaboratePc.effort] at own ⊢
          omega
      | sink =>
          have own := load_update _ s.sinks SinkPc.effort i .lock member
          rw [life_sink_off s i off] at own
          simp only [Pipe.effort, Pipe.setMain, Pipe.create, Pipe.setSink, point, MainPc.effort, SinkPc.effort] at own ⊢
          omega
  | @relAcquire buf _ point free =>
      rcases lock_main_spec _ _ _ _ free with rfl | rfl <;> cases buf <;>
        simp [Pipe.effort, Pipe.setMain, Pipe.setR, Pipe.setE, point, MainPc.effort]
  | @relSet buf point =>
      cases buf with
      | raw =>
          have woken := load_broadcast (prog.pool .elaborate) .wait .lock s.elaborators ElaboratePc.effort 3 (by decide)
          have few := pool_card prog .elaborate
          simp only [Pipe.effort, Pipe.setMain, Pipe.release, point, MainPc.effort, wbuf_close_items]
          omega
      | elaborated =>
          have woken := load_broadcast (prog.pool .sink) .wait .lock s.sinks SinkPc.effort 4 (by decide)
          have few := pool_card prog .sink
          simp only [Pipe.effort, Pipe.setMain, Pipe.release, point, MainPc.effort, wbuf_close_items]
          omega
  | @relUnlock buf point =>
      cases buf <;> simp [Pipe.effort, Pipe.setMain, Pipe.unlock, Pipe.setR, Pipe.setE, point, MainPc.effort, Buf.released]

theorem effort_hand (prog : Prog) (s next : Pipe) (t : Tid) (pc : Option HandPc) (member : t ∈ prog.tids)
    (frame : HandFrame s next) (moved : next.hands = Function.update s.hands t pc) (todo : next.todo.toNat ≤ s.todo.toNat)
    (raw : next.rbuffer.items.length ≤ s.rbuffer.items.length)
    (elaborated : next.ebuffer.items.length ≤ s.ebuffer.items.length) (cheaper : handEffort pc < handEffort (s.hands t)) :
    next.effort price prog < s.effort price prog := by
  have own := load_update prog.tids s.hands handEffort t pc member
  rw [← moved] at own
  have tickets := Nat.mul_le_mul_left price.ticket todo
  simp only [Pipe.effort, frame.main, frame.sources, frame.elaborators, frame.sinks]
  omega

theorem hand_effort (prog : Prog) (s next : Pipe) (t : Tid) (member : t ∈ prog.tids) (move : HandMove s t next) :
    next.effort price prog < s.effort price prog := by
  have frame := hand_frame s next t move
  have todo := Nat.le_refl s.todo.toNat
  have raw := Nat.le_refl s.rbuffer.items.length
  have elaborated := Nat.le_refl s.ebuffer.items.length
  cases move with
  | check point =>
      refine effort_hand prog s _ t _ member frame rfl todo raw elaborated ?_
      rw [point]
      split <;> decide
  | bodyR point =>
      exact effort_hand prog s _ t _ member frame rfl (Nat.zero_le _) (Nat.zero_le _) elaborated (by rw [point]; decide)
  | bodyE point => exact effort_hand prog s _ t _ member frame rfl todo raw (Nat.zero_le _) (by rw [point]; decide)
  | load point | store point | acquireR point | acquireE point | unlockR point | unlockE point =>
      exact effort_hand prog s _ t _ member frame rfl todo raw elaborated (by simp [point, handEffort])

theorem call_effort (prog : Prog) (s next : Pipe) (t : Tid) (op : Op) (asks : price.source .inRead < price.source .read)
    (inside : ∀ stage i, s.life i stage ≠ .off → i ∈ prog.pool stage)
    (move : CallMove prog s t op next) : next.effort price prog < s.effort price prog := by
  cases move with
  | openDev point | closeDev point => exact effort_main prog s _ (by simp [point, MainPc.effort])
  | done point left =>
      simp only [maxRetry] at left
      exact effort_main prog s _ (by simp only [point, MainPc.effort]; omega)
  | @read i _ point =>
      have own := load_update _ s.sources price.source i .inRead (inside .source i (by simp [Pipe.life, point, SourcePc.life]))
      simp only [point, Pipe.effort, Pipe.setSource] at own ⊢
      omega
  | @write i failures item _ point left =>
      have own := load_update _ s.sinks SinkPc.effort i (.inWrite item failures)
        (inside .sink i (by simp [Pipe.life, point, SinkPc.life]))
      simp only [maxRetry] at left
      simp only [point, SinkPc.effort, Pipe.effort, Pipe.setSink] at own ⊢
      omega

variable (price) in
theorem took_effort (prog : Prog) (s : Pipe) (i : Nat) (res : Int) (got : Bytes) (member : i ∈ prog.pool .source)
    (point : s.sources i = .inRead) :
    (s.setSource i (.took res got)).effort price prog + price.source .inRead =
      s.effort price prog + price.source (.took res got) := by
  have own := load_update _ s.sources price.source i (.took res got) member
  simp only [point, Pipe.effort, Pipe.setSource] at own ⊢
  omega

theorem ret_effort (prog : Prog) (s next : Pipe) (t : Tid) (res : Int) (got : Bytes) (out : List UserEvent)
    (gets : ∀ i, t = .source i → price.source (.took res got) < price.source .inRead)
    (inside : ∀ stage i, s.life i stage ≠ .off → i ∈ prog.pool stage) (move : RetMove s res got t next out) :
    next.effort price prog < s.effort price prog := by
  cases move with
  | openDev point => exact effort_main prog s _ (by rw [point]; split <;> decide)
  | done point =>
      refine effort_main prog s _ ?_
      rw [point]
      split <;> simp only [MainPc.effort] <;> omega
  | closeDev point => exact effort_main prog s _ (by simp [point, MainPc.effort])
  | @read i point =>
      have own := took_effort price prog s i res got (inside .source i (by simp [Pipe.life, point, SourcePc.life])) point
      have less := gets i rfl
      omega
  | @written i failures item point =>
      have own := load_update _ s.sinks SinkPc.effort i (.report item failures)
        (inside .sink i (by simp [Pipe.life, point, SinkPc.life]))
      simp only [point, SinkPc.effort, Pipe.effort, Pipe.setSink] at own ⊢
      omega
  | @refused i failures item point =>
      have own := load_update _ s.sinks SinkPc.effort i (.act item (failures + 1))
        (inside .sink i (by simp [Pipe.life, point, SinkPc.life]))
      simp only [point, SinkPc.effort, Pipe.effort, Pipe.setSink] at own ⊢
      omega

theorem tids_mem (prog : Prog) (s : Pipe) (t : Tid) (inside : ∀ stage i, s.life i stage ≠ .off → i ∈ prog.pool stage)
    (alive : s.interruptible t = true) : t ∈ prog.tids := by
  cases t with
  | main => exact Finset.mem_insert_self _ _
  | source i =>
      have member := inside .source i (by
        cases point : s.sources i <;> simp_all [Pipe.life, SourcePc.life, Pipe.interruptible])
      simp [Prog.tids, member]
  | elaborate i =>
      have member := inside .elaborate i (by
        cases point : s.elaborators i <;> simp_all [Pipe.life, ElaboratePc.life, Pipe.interruptible])
      simp [Prog.tids, member]
  | sink i =>
      have member := inside .sink i (by
        cases point : s.sinks i <;> simp_all [Pipe.life, SinkPc.life, Pipe.interruptible])
      simp [Prog.tids, member]

theorem base_effort (prog : Prog) (s next : Pipe) (t : Tid) (out : List UserEvent) (fresh : price.source .off = price.source .lock)
    (inv : JoinInv s) (bound : CountBound prog s) (inside : ∀ stage i, s.life i stage ≠ .off → i ∈ prog.pool stage)
    (draws : ∀ i, i ∈ prog.pool .source → SourceMove prog s i next out → next.effort price prog < s.effort price prog)
    (move : BaseMove prog s t next out) : next.effort price prog < s.effort price prog := by
  cases move with
  | source move =>
      have live := (source_step_life prog s next _ out move).1
      exact draws _ (inside .source _ (by simp [Pipe.life, live])) move
  | elaborate move =>
      have live := (elaborate_step_life prog.change s next _ out move).1
      exact elaborate_effort prog s next _ out (inside .elaborate _ (by simp [Pipe.life, live])) move
  | sink move =>
      have live := (sink_step_life prog s next _ out move).1
      exact sink_effort_lt prog s next _ out (inside .sink _ (by simp [Pipe.life, live])) move
  | main move => exact main_effort prog s next out fresh inv bound move

theorem pool_inside (prog : Prog) (s : Pipe) (inv : JoinInv s) (bound : CountBound prog s) (stage : Stage) (i : Nat)
    (alive : s.life i stage ≠ .off) : i ∈ prog.pool stage :=
  Finset.mem_range.mpr (Nat.lt_of_lt_of_le (inv.born stage i alive).1 (bound stage))

theorem internal_effort (prog : Prog) (s next : Pipe) (action : UserAction) (out : List UserEvent)
    (fresh : price.source .off = price.source .lock) (inv : JoinInv s) (locks : MutexInv s) (bound : CountBound prog s)
    (draws : ∀ i, i ∈ prog.pool .source → SourceMove prog s i next out → next.effort price prog < s.effort price prog)
    (uncalled : ∀ t, action ≠ .call t) (unreturned : ∀ t res got, action ≠ .ret t res got)
    (step : PipeStep prog s action next out) : next.effort price prog < s.effort price prog + action.charge := by
  have inside := pool_inside prog s inv bound
  cases step with
  | base _ move => exact base_effort prog s next _ out fresh inv bound inside draws move
  | @hand t _ _ move =>
      have busy : s.hands t ≠ none := by cases move <;> simp_all
      exact hand_effort prog s next t (tids_mem prog s t inside (locks.alive t busy)) move
  | call => exact absurd rfl (uncalled _)
  | ret => exact absurd rfl (unreturned _ _ _)
  | @spuriousR i point =>
      have own := load_update _ s.elaborators ElaboratePc.effort i .lock
        (inside .elaborate i (by simp [Pipe.life, point, ElaboratePc.life]))
      simp only [point, ElaboratePc.effort, Pipe.effort, Pipe.setElaborator, UserAction.charge] at own ⊢
      omega
  | @spuriousE i point =>
      have own := load_update _ s.sinks SinkPc.effort i .lock
        (inside .sink i (by simp [Pipe.life, point, SinkPc.life]))
      simp only [point, SinkPc.effort, Pipe.effort, Pipe.setSink, UserAction.charge] at own ⊢
      omega
  | @sigint t idle alive =>
      have own := load_update _ s.hands handEffort t (some .load) (tids_mem prog s t inside alive)
      simp only [idle, handEffort, Pipe.effort, Pipe.setHand, UserAction.charge] at own ⊢
      omega

theorem step_effort (prog : Prog) (s next : Pipe) (action : UserAction) (out : List UserEvent) (inv : JoinInv s)
    (locks : MutexInv s) (bound : CountBound prog s) (off : s.loop = false) (step : PipeStep prog s action next out) :
    next.effort counted prog < s.effort counted prog + action.charge := by
  have inside := pool_inside prog s inv bound
  have draws : ∀ i, i ∈ prog.pool .source → SourceMove prog s i next out → next.effort counted prog < s.effort counted prog :=
    fun i member move => source_effort prog s next i out member off move
  cases action with
  | call =>
      cases step with
      | call _ move => exact call_effort prog s next _ _ (by decide) inside move
  | ret =>
      cases step with
      | ret move => exact ret_effort prog s next _ _ _ out (fun _ _ => by simp [counted, SourcePc.effort]) inside move
  | go | spurious | sigint => exact internal_effort prog s next _ out rfl inv locks bound draws (by simp) (by simp) step

end Effort

theorem loop_stays_off (prog : Prog) (s next : Pipe) (action : UserAction) (out : List UserEvent) (off : s.loop = false)
    (move : PipeMove prog s action next out) : next.loop = false := by
  cases move with
  | source move =>
      cases move with
      | create _ _ _ signalled | failed _ _ _ signalled | receive _ _ _ _ signalled =>
          obtain ⟨_, rfl, _⟩ := signal_r_spec _ _ _ signalled
          exact off
      | last _ _ _ _ signalled =>
          obtain ⟨_, rfl, _⟩ := signal_r_spec _ _ _ signalled
          rfl
      | _ => exact off
  | elaborate move => exact (elaborate_frame prog.change s next _ out move).loop.trans off
  | sink move => exact (sink_frame prog s next _ out move).loop.trans off
  | main move =>
      cases move with
      | @create stage => cases stage <;> exact off
      | relAcquire _ free => rcases lock_main_spec _ _ _ _ free with rfl | rfl <;> exact off
      | @relSet buf | @relUnlock buf => cases buf <;> exact off
      | _ => exact off
  | hand move =>
      cases move with
      | bodyR => rfl
      | _ => exact off
  | call move | ret move => cases move <;> exact off
  | spuriousR | spuriousE | sigint => exact off

theorem loop_off_run {prog : Prog} {arg : Int} {ok : Pipe → UserAction → Prop} {events : List UserEvent} {s : Pipe} (counts : arg ≠ 0)
    (run : Run (pipeline prog) ok (programStart arg) events s) : s.loop = false := by
  refine Run.invariant (fun _ s => s.loop = false) (by simp [programStart, counts]) ?_ run
  intro _ s action next out _ off _ stepped
  exact loop_stays_off prog s next action out off (pipe_moves prog s next action out stepped)

theorem effort_bounds {prog : Prog} {arg : Int} {events later : List UserEvent} {s final : Pipe} {schedule : List UserAction}
    (run : Run (pipeline prog) Any (programStart arg) events s) (off : s.loop = false)
    (done : (pipeline prog).exec (fun _ _ => true) s schedule = some (final, later)) :
    schedule.length + final.effort counted prog ≤ s.effort counted prog + total UserAction.charge schedule := by
  refine exec_length_le (pipeline prog) _ (fun s => s.loop = false ∧ ∃ events, Run (pipeline prog) Any (programStart arg) events s)
    (Pipe.effort counted prog) UserAction.charge ?_ ?_ s final schedule later ⟨off, events, run⟩ done
  · rintro s action next out ⟨off, events, before⟩ _ stepped
    exact ⟨loop_stays_off prog s next action out off (pipe_moves prog s next action out stepped),
      events ++ out, .snoc action before trivial stepped⟩
  · rintro s action next out ⟨off, events, before⟩ _ stepped
    exact step_effort prog s next action out (join_inv_run before) (mutex_inv_run before) (count_bound_run before) off
      (pipe_steps prog s next action out stepped)

theorem start_effort (prog : Prog) (arg : Int) : (programStart arg).effort counted prog ≤ 214 + 37 * arg.toNat := by
  simp only [Pipe.effort, counted, programStart, load_const, MainPc.effort, SourcePc.effort, ElaboratePc.effort, SinkPc.effort,
    handEffort, wbuf_init_items, List.length_nil]
  cases prog <;> simp [Prog.pool, Prog.max]

theorem program_terminates (prog : Prog) (arg : Int) :
    (arg ≠ 0 → ∀ schedule s events, (pipeline prog).exec (fun _ _ => true) (programStart arg) schedule = some (s, events) →
      schedule.length ≤ 214 + 37 * arg.toNat + total UserAction.charge schedule) ∧
    (∀ events s, Run (pipeline prog) Any (programStart arg) events s → s.loop = false →
      ∀ schedule final later, (pipeline prog).exec (fun _ _ => true) s schedule = some (final, later) →
        schedule.length ≤ s.effort counted prog + total UserAction.charge schedule) ∧
    ∀ events s, Run (pipeline prog) NoSigint (programStart arg) events s →
      s.main = .exited ∨ s.main = .failed ∨ CanStep prog s ∨ ∃ t, s.InCall t := by
  refine ⟨fun counted schedule s events done => ?_, fun events s run off schedule final later done => ?_, fun events s run => ?_⟩
  · have here : Run (pipeline prog) Any (programStart arg) [] (programStart arg) := .nil
    have bound := effort_bounds here (by simp [programStart, counted]) done
    have start := start_effort prog arg
    omega
  · have bound := effort_bounds run off done
    omega
  · by_cases exited : s.main = .exited
    · exact .inl exited
    · by_cases failed : s.main = .failed
      · exact .inr (.inl failed)
      · exact .inr (.inr (running_goes_on (calm_outside run) ⟨exited, failed⟩))

-- A Reader for one string whose source is inside my_read with rmutex: everybody
-- else waits for it.
theorem program_terminates_in_read :
    ∃ events s, Run (pipeline .reader) NoSigint (programStart 1) events s ∧ s.owner .raw = some (.source 0) ∧
      s.sources 0 = .inRead ∧ (s.main = .exited ∨ s.main = .failed ∨ CanStep .reader s ∨ ∃ t, s.InCall t) := by
  obtain ⟨events, s, run, seen⟩ := exec_reaches (pipeline .reader) noSigint NoSigint no_sigint_sound
    (programStart 1) (steps .main 2 ++ [UserAction.call .main, .ret .main 0 []] ++ steps .main 8 ++ steps (.source 0) 2 ++
      [UserAction.call (.source 0)] ++ steps (.sink 0) 2)
    (fun s _ => s.owner .raw = some (.source 0) && s.sources 0 = .inRead) (by decide +kernel)
  simp only [Bool.and_eq_true, decide_eq_true_eq] at seen
  exact ⟨events, s, run, seen.1, seen.2, (program_terminates .reader 1).2.2 events s run⟩

end MyDev
