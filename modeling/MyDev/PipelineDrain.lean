import MyDev.PipelineWork

set_option autoImplicit false

namespace MyDev

open Library

-- The number of threads main computes from its argument, when no signal has
-- changed todo or the loop flag before.
def startCount (prog : Prog) (arg : Int) (stage : Stage) : Nat := (prog.count (programStart arg) stage).toNat

-- What is known of todo and the loop flag up to the computation of the thread
-- numbers, and of the thread numbers from then on.
structure CountInv (early : Int → Bool → Prop) (late : Stage → Nat → Prop) (s : Pipe) : Prop where
  untouched : s.main.phase = 0 → early s.todo s.loop
  counted : s.main = .init ∨ 0 < s.main.phase → ∀ stage, late stage (s.count stage)

section Counts

variable {early : Int → Bool → Prop} {late : Stage → Nat → Prop}

theorem count_inv_keep (s next : Pipe) (inv : CountInv early late s) (main : next.main = s.main)
    (count : next.count = s.count) (same : s.main.phase = 0 → next.todo = s.todo ∧ next.loop = s.loop) :
    CountInv early late next := by
  constructor
  · intro zero
    rw [main] at zero
    obtain ⟨todo, loop⟩ := same zero
    rw [todo, loop]
    exact inv.untouched zero
  · intro later
    rw [main] at later
    rw [count]
    exact inv.counted later

theorem count_inv_main (prog : Prog) (s next : Pipe) (out : List UserEvent)
    (computed : early s.todo s.loop → ∀ stage, late stage (prog.count s stage).toNat) (inv : CountInv early late s)
    (move : MainMove prog s next out) : CountInv early late next := by
  cases move with
  | boot point | ready point =>
      exact ⟨fun _ => inv.untouched (by rw [point]; rfl), fun later => by simp [Pipe.setMain, MainPc.phase] at later⟩
  | counts point =>
      have known := inv.untouched (by rw [point]; rfl)
      refine ⟨fun _ => known, fun _ stage => ?_⟩
      have staffed := computed known stage
      cases stage <;> exact staffed
  | init point =>
      exact ⟨fun zero => by simp [Pipe.setMain, MainPc.phase] at zero, fun _ stage => inv.counted (.inl point) stage⟩
  | @create stage i point =>
      have later : 0 < s.main.phase := by rw [point]; cases stage <;> simp [MainPc.phase]
      refine ⟨fun zero => by cases stage <;> simp [Pipe.setMain, MainPc.phase] at zero, fun _ other => ?_⟩
      have known := inv.counted (.inr later) other
      cases stage <;> exact known
  | @spawned stage i point =>
      have later : 0 < s.main.phase := by rw [point]; cases stage <;> simp [MainPc.phase]
      exact ⟨fun zero => by cases stage <;> simp [Pipe.setMain, Stage.spawned, MainPc.phase] at zero,
        fun _ other => inv.counted (.inr later) other⟩
  | @join stage i point =>
      have later : 0 < s.main.phase := by rw [point]; cases stage <;> simp [MainPc.phase]
      exact ⟨fun zero => by cases stage <;> simp [Pipe.setMain, MainPc.phase] at zero,
        fun _ other => inv.counted (.inr later) other⟩
  | @joined stage i point =>
      have later : 0 < s.main.phase := by rw [point]; cases stage <;> simp [MainPc.phase]
      exact ⟨fun zero => by cases stage <;> cases prog <;> simp [Pipe.setMain, Stage.joined, MainPc.phase] at zero,
        fun _ other => inv.counted (.inr later) other⟩
  | @relAcquire buf _ point free =>
      have later : 0 < s.main.phase := by rw [point]; cases buf <;> simp [MainPc.phase]
      refine ⟨fun zero => by cases buf <;> simp [Pipe.setMain, MainPc.phase] at zero, fun _ other => ?_⟩
      have known := inv.counted (.inr later) other
      rcases lock_main_spec _ _ _ _ free with rfl | rfl <;> exact known
  | @relSet buf point | @relUnlock buf point =>
      have later : 0 < s.main.phase := by rw [point]; cases buf <;> simp [MainPc.phase]
      refine ⟨fun zero => by cases buf <;> simp [Pipe.setMain, Buf.released, MainPc.phase] at zero, fun _ other => ?_⟩
      have known := inv.counted (.inr later) other
      cases buf <;> exact known
  | doneOver point | doneCheck point =>
      exact ⟨fun zero => by simp [Pipe.setMain, MainPc.phase] at zero,
        fun _ other => inv.counted (.inr (by rw [point]; simp [MainPc.phase])) other⟩

theorem count_inv_hand (s next : Pipe) (t : Tid) (cleared : early 0 false) (inv : CountInv early late s)
    (move : HandMove s t next) : CountInv early late next := by
  cases move with
  | bodyR => exact ⟨fun _ => cleared, inv.counted⟩
  | _ => exact count_inv_keep s _ inv rfl rfl fun _ => ⟨rfl, rfl⟩

theorem count_inv_move (prog : Prog) (s next : Pipe) (action : UserAction) (out : List UserEvent)
    (computed : early s.todo s.loop → ∀ stage, late stage (prog.count s stage).toNat)
    (cleared : ∀ t next, HandMove s t next → early 0 false) (join : JoinInv s) (inv : CountInv early late s)
    (move : PipeMove prog s action next out) : CountInv early late next := by
  cases move with
  | @source i _ _ _ move =>
      have frame := source_frame prog s next i out move
      have alive := (source_step_life prog s next i out move).1
      refine count_inv_keep s next inv frame.main frame.count fun zero => ?_
      have spawned := live_spawned s .source i join alive
      omega
  | elaborate move =>
      have frame := elaborate_frame prog.change s next _ out move
      exact count_inv_keep s next inv frame.main frame.count fun _ => ⟨frame.todo, frame.loop⟩
  | sink move =>
      have frame := sink_frame prog s next _ out move
      exact count_inv_keep s next inv frame.main frame.count fun _ => ⟨frame.todo, frame.loop⟩
  | main move => exact count_inv_main prog s next out computed inv move
  | hand move => exact count_inv_hand s next _ (cleared _ _ move) inv move
  | call move =>
      cases move with
      | read | write => exact count_inv_keep s _ inv rfl rfl fun _ => ⟨rfl, rfl⟩
      | openDev point =>
          exact ⟨fun _ => inv.untouched (by rw [point]; rfl), fun later => by simp [Pipe.setMain, MainPc.phase] at later⟩
      | done point | closeDev point =>
          exact ⟨fun zero => by simp [Pipe.setMain, MainPc.phase] at zero,
            fun _ other => inv.counted (.inr (by rw [point]; simp [MainPc.phase])) other⟩
  | ret move =>
      cases move with
      | read | written | refused => exact count_inv_keep s _ inv rfl rfl fun _ => ⟨rfl, rfl⟩
      | openDev point =>
          refine ⟨fun _ => inv.untouched (by rw [point]; rfl), fun later => ?_⟩
          simp only [Pipe.setMain] at later
          split at later <;> simp [MainPc.phase] at later
      | done point =>
          refine ⟨fun zero => ?_, fun _ other => inv.counted (.inr (by rw [point]; simp [MainPc.phase])) other⟩
          simp only [Pipe.setMain] at zero
          split at zero <;> simp [MainPc.phase] at zero
      | closeDev point =>
          exact ⟨fun zero => by simp [Pipe.setMain, MainPc.phase] at zero,
            fun _ other => inv.counted (.inr (by rw [point]; simp [MainPc.phase])) other⟩
  | spuriousR | spuriousE => exact count_inv_keep s _ inv rfl rfl fun _ => ⟨rfl, rfl⟩
  | sigint => exact count_inv_keep s _ inv rfl rfl fun _ => ⟨rfl, rfl⟩

end Counts

theorem prog_count_pos (prog : Prog) (s : Pipe) (stage : Stage) (nonneg : 0 ≤ s.todo) (small : s.todo < intMax) :
    1 ≤ prog.count s stage := by
  have max : 1 ≤ prog.max stage := by cases prog <;> cases stage <;> decide
  have step : 1 ≤ prog.step stage := by cases prog <;> cases stage <;> decide
  have quotient : s.todo.tdiv (prog.step stage) = s.todo / prog.step stage := Int.tdiv_eq_ediv_of_nonneg nonneg
  have least : 0 ≤ s.todo / prog.step stage := Int.ediv_nonneg nonneg (by omega)
  have most : s.todo / prog.step stage ≤ s.todo := Int.ediv_le_self _ nonneg
  have fits : wrap (s.todo / prog.step stage + 1) = s.todo / prog.step stage + 1 :=
    wrap_of_fits _ ⟨by unfold intMin; omega, by omega⟩
  unfold Prog.count
  split
  · exact max
  · simp only [threadCount, quotient, fits]
    split <;> omega

theorem start_count_pos (prog : Prog) (arg : Int) (stage : Stage) (nonneg : 0 ≤ arg) (small : arg < intMax) :
    0 < startCount prog arg stage := by
  have positive := prog_count_pos prog (programStart arg) stage nonneg small
  unfold startCount
  omega

section Runs

variable {prog : Prog} {arg : Int} {events : List UserEvent} {s : Pipe}

theorem count_inv_run {ok : Pipe → UserAction → Prop} {early : Int → Bool → Prop} {late : Stage → Nat → Prop}
    (initially : early arg (decide (arg = 0)))
    (computed : ∀ s : Pipe, early s.todo s.loop → ∀ stage, late stage (prog.count s stage).toNat)
    (cleared : ∀ events s t next, Run (pipeline prog) ok (programStart arg) events s → HandMove s t next → early 0 false)
    (run : Run (pipeline prog) ok (programStart arg) events s) : CountInv early late s := by
  refine Run.invariant (fun _ s => CountInv early late s)
    ⟨fun _ => initially, fun later => by simp [programStart, MainPc.phase] at later⟩ ?_ run
  intro events s action next out before inv _ stepped
  exact count_inv_move prog s next action out (computed s) (fun t next => cleared events s t next before)
    (join_inv_run before) inv (pipe_moves prog s next action out stepped)

theorem counted_run (run : Run (pipeline prog) NoSigint (programStart arg) events s) :
    CountInv (fun todo loop => todo = arg ∧ loop = decide (arg = 0)) (fun stage count => count = startCount prog arg stage) s := by
  refine count_inv_run ⟨rfl, rfl⟩ ?_ ?_ run
  · rintro s ⟨todo, loop⟩ stage
    simp [Prog.count, programStart, startCount, todo, loop]
  · intro events s t next before move
    exact (hand_absent s next t (calm_run before) move).elim

theorem joined_exited (run : Run (pipeline prog) NoSigint (programStart arg) events s) (stage : Stage) (i : Nat)
    (past : stage.joinPhase < s.main.phase) (inside : i < startCount prog arg stage) : s.life i stage = .exited := by
  have inv := join_inv_run run
  have late : 3 < s.main.phase := by cases stage <;> simp only [Stage.joinPhase] at past <;> omega
  have created := inv.created stage i (spawned_late _ stage i late)
    (by rw [(counted_run run).counted (.inr (by omega)) stage]; exact inside)
  have dead := inv.joined stage i (.inl past)
  cases life : s.life i stage with
  | off => exact absurd life created
  | live => exact absurd life dead
  | exited => rfl

theorem elaborators_idle (run : Run (pipeline prog) NoSigint (programStart arg) events s) (past : 6 < s.main.phase) (i : Nat) :
    (s.elaborators i).hand prog.change = 0 := by
  have dead := (join_inv_run run).joined .elaborate i (.inl past)
  simp only [Pipe.life] at dead
  cases pc : s.elaborators i <;> simp_all [ElaboratePc.hand, ElaboratePc.life]

theorem sinks_jobless {ok : Pipe → UserAction → Prop} (run : Run (pipeline prog) ok (programStart arg) events s)
    (past : 8 < s.main.phase) (i : Nat) : (s.sinks i).job = none := by
  have dead := (join_inv_run run).joined .sink i (.inl past)
  simp only [Pipe.life] at dead
  cases pc : s.sinks i <;> simp_all [SinkPc.job, SinkPc.life]

theorem sinks_held_idle {β : Type} (hand : SinkPc → Multiset β) (idle : ∀ pc, pc.job = none → hand pc = 0)
    (run : Run (pipeline prog) NoSigint (programStart arg) events s) (past : 8 < s.main.phase) :
    held (prog.max .sink).toNat s.sinks hand = 0 :=
  held_idle _ _ _ fun i => idle _ (sinks_jobless run past i)

theorem pipeline_drained (run : Run (pipeline prog) NoSigint (programStart arg) events s) (nonneg : 0 ≤ arg)
    (small : arg < intMax) (past : 8 < s.main.phase) :
    ((events.flatMap (UserEvent.outputs prog) : List Item) : Multiset Item) =
      ((events.flatMap UserEvent.puts).map (Item.changed prog.change) : List Item) := by
  obtain ⟨rawSound, rawLaw⟩ := raw_channel_run run
  obtain ⟨sound, law⟩ := elaborated_channel_run run
  have elaboratorGone := joined_exited run .elaborate 0 (by simp only [Stage.joinPhase]; omega)
    (start_count_pos prog arg _ nonneg small)
  have sinkGone := joined_exited run .sink 0 past (start_count_pos prog arg _ nonneg small)
  have rawStopped : (rawChannel s).stopped := by
    refine ⟨0, ?_⟩
    simp only [Pipe.life] at elaboratorGone
    cases pc : s.elaborators 0 <;> simp_all [ElaboratePc.stopped, ElaboratePc.life]
  have stopped : (elaboratedChannel s).stopped := by
    refine ⟨0, ?_⟩
    simp only [Pipe.life] at sinkGone
    cases pc : s.sinks 0 <;> simp_all [SinkPc.stopped, SinkPc.life]
  have rawEmpty : s.rbuffer.items = [] := (rawSound.drained rawStopped).2
  have empty : s.ebuffer.items = [] := (sound.drained stopped).2
  rw [rawEmpty, List.append_nil] at rawLaw
  rw [empty, List.append_nil] at law
  have elaborated := elaborators_balance run
  have output := sinks_output_balance run
  rw [held_idle _ _ _ (elaborators_idle run (by omega)), zero_add, ← List.map_flatMap, ← rawLaw] at elaborated
  rw [sinks_held_idle SinkPc.hand (by intro pc jobless; cases pc <;> first | rfl | cases jobless) run past, zero_add,
    ← law] at output
  rw [← output, ← elaborated]

end Runs

end MyDev
