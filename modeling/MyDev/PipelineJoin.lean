import MyDev.PipelineStep

set_option autoImplicit false

namespace MyDev

open Library

inductive Life where
  | off
  | live
  | exited
deriving DecidableEq, Repr

def SourcePc.life : SourcePc → Life
  | .off => .off
  | .exited => .exited
  | _ => .live

def ElaboratePc.life : ElaboratePc → Life
  | .off => .off
  | .exited => .exited
  | _ => .live

def SinkPc.life : SinkPc → Life
  | .off => .off
  | .exited => .exited
  | _ => .live

def Pipe.life (s : Pipe) (i : Nat) : Stage → Life
  | .source => (s.sources i).life
  | .elaborate => (s.elaborators i).life
  | .sink => (s.sinks i).life

-- How far main has got. It is past its last wait_for from 9 on.
def MainPc.phase : MainPc → Nat
  | .boot | .ready | .openDev | .inOpen | .counts | .init | .failed => 0
  | .spawn .source _ => 1
  | .spawn .elaborate _ => 2
  | .spawn .sink _ => 3
  | .join .source _ => 4
  | .relLock .raw | .relSet .raw | .relUnlock .raw => 5
  | .join .elaborate _ => 6
  | .relLock .elaborated | .relSet .elaborated | .relUnlock .elaborated => 7
  | .join .sink _ => 8
  | .done _ | .inDone _ | .doneCheck _ => 9
  | .closeDev | .inClose => 10
  | .exited => 11

def Stage.spawnPhase : Stage → Nat
  | .source => 1
  | .elaborate => 2
  | .sink => 3

def Stage.joinPhase : Stage → Nat
  | .source => 4
  | .elaborate => 6
  | .sink => 8

def MainPc.HasSpawned (pc : MainPc) (stage : Stage) (i : Nat) : Prop :=
  stage.spawnPhase < pc.phase ∨ ∃ k, pc = .spawn stage k ∧ i < k

def MainPc.HasJoined (pc : MainPc) (stage : Stage) (i : Nat) : Prop :=
  stage.joinPhase < pc.phase ∨ ∃ k, pc = .join stage k ∧ i < k

inductive LifeMove (s next : Pipe) (stage : Stage) (i : Nat) : Prop where
  | same (kept : next.life i stage = s.life i stage)
  | exits (alive : s.life i stage = .live) (gone : next.life i stage = .exited)
  | starts (point : s.main = .spawn stage i) (more : i < s.count stage) (moved : next.main = .spawn stage (i + 1))
      (alive : next.life i stage = .live)

theorem source_step_life (prog : Prog) (s next : Pipe) (j : Nat) (out : List UserEvent) (move : SourceMove prog s j next out) :
    (s.sources j).life = .live ∧ ((next.sources j).life = .live ∨ (next.sources j).life = .exited) := by
  cases move with
  | acquire point | spent point | ask _ point | release point =>
      rw [point]
      exact ⟨rfl, .inl (by simp [Pipe.setSource, SourcePc.life])⟩
  | create _ point | failed _ point | last _ point | receive _ point =>
      rw [point]
      exact ⟨rfl, .inl (by simp [Pipe.setSource, SourcePc.life])⟩
  | @rest stop point =>
      rw [point]
      exact ⟨rfl, by cases stop <;> simp [Pipe.setSource, SourcePc.life]⟩

theorem elaborate_step_life (change : Bytes → Bytes) (s next : Pipe) (j : Nat) (out : List UserEvent)
    (move : ElaborateMove change s j next out) :
    (s.elaborators j).life = .live ∧ ((next.elaborators j).life = .live ∨ (next.elaborators j).life = .exited) := by
  cases move with
  | leave point =>
      rw [point]
      exact ⟨rfl, .inr (by simp [Pipe.setElaborator, ElaboratePc.life])⟩
  | acquire point | stop point | wait point | take point | release point | convert point | acquireE point | insert point
  | releaseE point =>
      rw [point]
      exact ⟨rfl, .inl (by simp [Pipe.setElaborator, ElaboratePc.life])⟩

theorem sink_step_life (prog : Prog) (s next : Pipe) (j : Nat) (out : List UserEvent) (move : SinkMove prog s j next out) :
    (s.sinks j).life = .live ∧ ((next.sinks j).life = .live ∨ (next.sinks j).life = .exited) := by
  cases move with
  | acquire point | stop point | wait point | take point | giveUp _ point | settle _ point | print _ point | release point =>
      rw [point]
      exact ⟨rfl, .inl (by simp [Pipe.setSink, SinkPc.life])⟩
  | @rest stop point =>
      rw [point]
      exact ⟨rfl, by cases stop <;> simp [Pipe.setSink, SinkPc.life]⟩

theorem life_own (s next : Pipe) (stage : Stage) (i : Nat) (alive : s.life i stage = .live)
    (after : next.life i stage = .live ∨ next.life i stage = .exited) : LifeMove s next stage i := by
  rcases after with still | gone
  · exact .same (still.trans alive.symm)
  · exact .exits alive gone

theorem source_life (prog : Prog) (s next : Pipe) (j i : Nat) (stage : Stage) (out : List UserEvent)
    (move : SourceMove prog s j next out) : LifeMove s next stage i := by
  have frame := source_frame prog s next j out move
  cases stage with
  | source =>
      by_cases here : i = j
      · subst here
        obtain ⟨alive, after⟩ := source_step_life prog s next i out move
        exact life_own s next .source i alive after
      · obtain ⟨pc, updated⟩ := frame.mine
        exact .same (by simp only [Pipe.life, updated, Function.update_of_ne here])
  | elaborate => exact .same (roused_same ElaboratePc.life _ _ _ _ (frame.roused i) rfl)
  | sink => exact .same (by simp only [Pipe.life, frame.sinks])

theorem elaborate_life (change : Bytes → Bytes) (s next : Pipe) (j i : Nat) (stage : Stage) (out : List UserEvent)
    (move : ElaborateMove change s j next out) : LifeMove s next stage i := by
  have frame := elaborate_frame change s next j out move
  cases stage with
  | source => exact .same (by simp only [Pipe.life, frame.sources])
  | elaborate =>
      by_cases here : i = j
      · subst here
        obtain ⟨alive, after⟩ := elaborate_step_life change s next i out move
        exact life_own s next .elaborate i alive after
      · obtain ⟨pc, updated⟩ := frame.mine
        exact .same (by simp only [Pipe.life, updated, Function.update_of_ne here])
  | sink => exact .same (roused_same SinkPc.life _ _ _ _ (frame.roused i) rfl)

theorem sink_life (prog : Prog) (s next : Pipe) (j i : Nat) (stage : Stage) (out : List UserEvent)
    (move : SinkMove prog s j next out) : LifeMove s next stage i := by
  have frame := sink_frame prog s next j out move
  cases stage with
  | source => exact .same (by simp only [Pipe.life, frame.sources])
  | elaborate => exact .same (by simp only [Pipe.life, frame.elaborators])
  | sink =>
      by_cases here : i = j
      · subst here
        obtain ⟨alive, after⟩ := sink_step_life prog s next i out move
        exact life_own s next .sink i alive after
      · obtain ⟨pc, updated⟩ := frame.mine
        exact .same (by simp only [Pipe.life, updated, Function.update_of_ne here])

theorem create_life (s : Pipe) (started stage : Stage) (j i : Nat) (point : s.main = .spawn started j)
    (more : j < s.count started) : LifeMove s ((s.create j started).setMain (.spawn started (j + 1))) stage i := by
  by_cases here : started = stage ∧ j = i
  · obtain ⟨rfl, rfl⟩ := here
    have live : (s.create j started).life j started = .live := by
      cases started <;> simp [Pipe.create, Pipe.life, Pipe.setSource, Pipe.setElaborator, Pipe.setSink, SourcePc.life,
        ElaboratePc.life, SinkPc.life]
    exact .starts point more rfl live
  · refine .same ?_
    cases started <;> cases stage <;>
      simp only [Pipe.create, Pipe.life, Pipe.setMain, Pipe.setSource, Pipe.setElaborator, Pipe.setSink]
    all_goals
      rw [Function.update_of_ne]
      rintro rfl
      exact here ⟨rfl, rfl⟩

theorem release_life (s : Pipe) (buf : Buf) (i : Nat) (stage : Stage) : (s.release buf).life i stage = s.life i stage := by
  cases buf with
  | raw =>
      cases stage with
      | elaborate => exact roused_same ElaboratePc.life _ _ _ _ (cond_broadcast_roused _ _ s.elaborators i) rfl
      | _ => rfl
  | elaborated =>
      cases stage with
      | sink => exact roused_same SinkPc.life _ _ _ _ (cond_broadcast_roused _ _ s.sinks i) rfl
      | _ => rfl

theorem lock_main_spec (s locked : Pipe) (buf : Buf) (t : Tid) (free : s.lock t buf = some locked) :
    locked = s.setR (some t) ∨ locked = s.setE (some t) := by
  cases buf with
  | raw => exact .inl (lock_r_spec _ _ _ free).2
  | elaborated => exact .inr (lock_e_spec _ _ _ free).2

theorem main_life (prog : Prog) (s next : Pipe) (i : Nat) (stage : Stage) (out : List UserEvent)
    (move : MainMove prog s next out) : LifeMove s next stage i := by
  cases move with
  | create point more => exact create_life s _ stage _ i point more
  | relSet => exact .same (release_life s _ i stage)
  | relAcquire _ free =>
      refine .same ?_
      rcases lock_main_spec _ _ _ _ free with rfl | rfl <;> cases stage <;> rfl
  | @relUnlock buf => exact .same (by cases buf <;> cases stage <;> rfl)
  | _ => exact .same (by cases stage <;> rfl)

theorem set_source_life (s : Pipe) (j i : Nat) (pc : SourcePc) (stage : Stage) (same : pc.life = (s.sources j).life) :
    (s.setSource j pc).life i stage = s.life i stage := by
  cases stage with
  | source =>
      by_cases here : i = j
      · subst here
        simp [Pipe.life, Pipe.setSource, same]
      · simp [Pipe.life, Pipe.setSource, here]
  | _ => rfl

theorem set_elaborator_life (s : Pipe) (j i : Nat) (pc : ElaboratePc) (stage : Stage)
    (same : pc.life = (s.elaborators j).life) : (s.setElaborator j pc).life i stage = s.life i stage := by
  cases stage with
  | elaborate =>
      by_cases here : i = j
      · subst here
        simp [Pipe.life, Pipe.setElaborator, same]
      · simp [Pipe.life, Pipe.setElaborator, here]
  | _ => rfl

theorem set_sink_life (s : Pipe) (j i : Nat) (pc : SinkPc) (stage : Stage) (same : pc.life = (s.sinks j).life) :
    (s.setSink j pc).life i stage = s.life i stage := by
  cases stage with
  | sink =>
      by_cases here : i = j
      · subst here
        simp [Pipe.life, Pipe.setSink, same]
      · simp [Pipe.life, Pipe.setSink, here]
  | _ => rfl

theorem call_life (prog : Prog) (s next : Pipe) (t : Tid) (op : Op) (i : Nat) (stage : Stage)
    (move : CallMove prog s t op next) : LifeMove s next stage i := by
  refine .same ?_
  cases move with
  | openDev | done | closeDev => cases stage <;> rfl
  | read _ point => exact set_source_life s _ i _ stage (by rw [point]; rfl)
  | write _ point => exact set_sink_life s _ i _ stage (by rw [point]; rfl)

theorem ret_life (s next : Pipe) (t : Tid) (res : Int) (got : Bytes) (i : Nat) (stage : Stage) (out : List UserEvent)
    (move : RetMove s res got t next out) : LifeMove s next stage i := by
  refine .same ?_
  cases move with
  | openDev | done | closeDev => cases stage <;> rfl
  | read point => exact set_source_life s _ i _ stage (by rw [point]; rfl)
  | written point | refused point => exact set_sink_life s _ i _ stage (by rw [point]; rfl)

theorem life_move (prog : Prog) (s next : Pipe) (action : UserAction) (i : Nat) (stage : Stage) (out : List UserEvent)
    (move : PipeMove prog s action next out) : LifeMove s next stage i := by
  cases move with
  | source move => exact source_life prog s next _ i stage out move
  | elaborate move => exact elaborate_life prog.change s next _ i stage out move
  | sink move => exact sink_life prog s next _ i stage out move
  | main move => exact main_life prog s next i stage out move
  | hand move =>
      have frame := hand_frame s next _ move
      exact .same
        (by cases stage <;> simp only [Pipe.life, frame.sources, frame.elaborators, frame.sinks])
  | call move => exact call_life prog s next _ _ i stage move
  | ret move => exact ret_life s next _ _ _ i stage out move
  | spuriousR point => exact .same (set_elaborator_life s _ i _ stage (by rw [point]; rfl))
  | spuriousE point => exact .same (set_sink_life s _ i _ stage (by rw [point]; rfl))
  | sigint => exact .same (by cases stage <;> rfl)

inductive MainTo (prog : Prog) (s next : Pipe) : Prop where
  | stay (same : next.main = s.main)
  | early (before : s.main.phase = 0) (after : next.main.phase = 0 ∨ next.main = .spawn .source 0)
  | create {stage : Stage} {i : Nat} (point : s.main = .spawn stage i) (more : i < s.count stage)
      (moved : next.main = .spawn stage (i + 1)) (alive : next.life i stage = .live)
  | spawned {stage : Stage} {i : Nat} (point : s.main = .spawn stage i) (all : s.count stage ≤ i)
      (moved : next.main = stage.spawned)
  | join {stage : Stage} {i : Nat} (point : s.main = .join stage i) (gone : s.hasExited i stage = true)
      (moved : next.main = .join stage (i + 1))
  | joined {stage : Stage} {i : Nat} (point : s.main = .join stage i) (all : s.count stage ≤ i)
      (moved : next.main = stage.joined prog)
  | onward (before : 4 < s.main.phase) (after : s.main.phase ≤ next.main.phase)
      (nobody : ∀ stage i, next.main.HasJoined stage i → s.main.HasJoined stage i)

theorem main_to (prog : Prog) (s next : Pipe) (out : List UserEvent) (move : MainMove prog s next out) :
    MainTo prog s next := by
  cases move with
  | boot point | ready point | counts point => exact .early (by rw [point]; rfl) (.inl rfl)
  | init point => exact .early (by rw [point]; rfl) (.inr rfl)
  | @create stage i point more =>
      refine .create point more rfl ?_
      cases stage <;> simp [Pipe.create, Pipe.life, Pipe.setMain, Pipe.setSource, Pipe.setElaborator, Pipe.setSink,
        SourcePc.life, ElaboratePc.life, SinkPc.life]
  | spawned point all => exact .spawned point all rfl
  | join point more gone => exact .join point gone rfl
  | joined point all => exact .joined point all rfl
  | @relAcquire buf _ point | @relSet buf point | @relUnlock buf point =>
      cases buf <;>
        refine .onward (by simp [point, MainPc.phase]) (by simp [point, MainPc.phase, Pipe.setMain, Buf.released]) ?_ <;>
        intro stage i later <;>
        cases stage <;>
        simp_all [MainPc.HasJoined, MainPc.phase, Stage.joinPhase, Pipe.setMain, Buf.released]
  | doneOver point | doneCheck point =>
      refine .onward (by simp [point, MainPc.phase]) (by simp [point, MainPc.phase, Pipe.setMain]) ?_
      intro stage i later
      cases stage <;> simp [MainPc.HasJoined, MainPc.phase, Stage.joinPhase, point]

theorem call_main_to (prog : Prog) (s next : Pipe) (t : Tid) (op : Op) (move : CallMove prog s t op next) :
    MainTo prog s next := by
  cases move with
  | openDev point => exact .early (by rw [point]; rfl) (.inl rfl)
  | done point | closeDev point =>
      refine .onward (by simp [point, MainPc.phase]) (by simp [point, MainPc.phase, Pipe.setMain]) ?_
      intro stage i later
      cases stage <;> simp [MainPc.HasJoined, MainPc.phase, Stage.joinPhase, point]
  | read | write => exact .stay rfl

theorem ret_main_to (prog : Prog) (s next : Pipe) (t : Tid) (res : Int) (got : Bytes) (out : List UserEvent)
    (move : RetMove s res got t next out) : MainTo prog s next := by
  cases move with
  | openDev point =>
      refine .early (by rw [point]; rfl) (.inl ?_)
      simp only [Pipe.setMain]
      split <;> rfl
  | done point =>
      refine .onward (by simp [point, MainPc.phase]) ?_ ?_
      · simp only [Pipe.setMain]
        split <;> simp [point, MainPc.phase]
      · intro stage i later
        cases stage <;> simp [MainPc.HasJoined, MainPc.phase, Stage.joinPhase, point]
  | closeDev point =>
      refine .onward (by simp [point, MainPc.phase]) (by simp [point, MainPc.phase, Pipe.setMain]) ?_
      intro stage i later
      cases stage <;> simp [MainPc.HasJoined, MainPc.phase, Stage.joinPhase, point]
  | read | written | refused => exact .stay rfl

theorem pipe_main_to (prog : Prog) (s next : Pipe) (action : UserAction) (out : List UserEvent)
    (move : PipeMove prog s action next out) : MainTo prog s next := by
  cases move with
  | source move => exact .stay (source_frame prog s next _ out move).main
  | elaborate move => exact .stay (elaborate_frame prog.change s next _ out move).main
  | sink move => exact .stay (sink_frame prog s next _ out move).main
  | main move => exact main_to prog s next out move
  | hand move => exact .stay (hand_frame s next _ move).main
  | call move => exact call_main_to prog s next _ _ move
  | ret move => exact ret_main_to prog s next _ _ _ out move
  | spuriousR | spuriousE | sigint => exact .stay rfl

theorem count_move (prog : Prog) (s next : Pipe) (action : UserAction) (out : List UserEvent)
    (move : PipeMove prog s action next out) : next.count = s.count ∨ s.main = .counts := by
  cases move with
  | source move => exact .inl (source_frame prog s next _ out move).count
  | elaborate move => exact .inl (elaborate_frame prog.change s next _ out move).count
  | sink move => exact .inl (sink_frame prog s next _ out move).count
  | main move =>
      cases move with
      | counts point => exact .inr point
      | @create stage _ _ _ => exact .inl (by cases stage <;> rfl)
      | relAcquire _ free => exact .inl (by rcases lock_main_spec _ _ _ _ free with rfl | rfl <;> rfl)
      | @relSet buf _ => exact .inl (by cases buf <;> rfl)
      | @relUnlock buf _ => exact .inl (by cases buf <;> rfl)
      | _ => exact .inl rfl
  | hand move => exact .inl (hand_frame s next _ move).count
  | call move => exact .inl (by cases move <;> rfl)
  | ret move => exact .inl (by cases move <;> rfl)
  | spuriousR | spuriousE | sigint => exact .inl rfl

theorem spawned_late (pc : MainPc) (stage : Stage) (i : Nat) (late : 3 < pc.phase) : pc.HasSpawned stage i :=
  .inl (by cases stage <;> simp only [Stage.spawnPhase] <;> omega)

theorem spawned_not_early (pc : MainPc) (stage : Stage) (i : Nat) (early : pc.phase = 0 ∨ pc = .spawn .source 0) :
    ¬ pc.HasSpawned stage i := by
  rintro (past | ⟨k, rfl, less⟩)
  · rcases early with zero | rfl
    · omega
    · cases stage <;> simp [MainPc.phase, Stage.spawnPhase] at past
  · rcases early with zero | same
    · cases stage <;> simp [MainPc.phase] at zero
    · cases same
      omega

theorem has_spawned_spawn (stage other : Stage) (i k : Nat) :
    (MainPc.spawn stage k).HasSpawned other i ↔ other.spawnPhase < stage.spawnPhase ∨ other = stage ∧ i < k := by
  cases stage <;> cases other <;> simp [MainPc.HasSpawned, MainPc.phase, Stage.spawnPhase]

theorem has_spawned_next (stage other : Stage) (i : Nat) :
    stage.spawned.HasSpawned other i ↔ other.spawnPhase ≤ stage.spawnPhase := by
  cases stage <;> cases other <;> simp [MainPc.HasSpawned, MainPc.phase, Stage.spawnPhase, Stage.spawned]

theorem joined_late (prog : Prog) (stage : Stage) : 3 < (stage.joined prog).phase := by
  cases stage <;> cases prog <;> simp [Stage.joined, MainPc.phase]

theorem join_late (stage : Stage) (i : Nat) : 3 < (MainPc.join stage i).phase := by
  cases stage <;> simp [MainPc.phase]

theorem spawned_mono (prog : Prog) (s next : Pipe) (stage : Stage) (i : Nat) (goes : MainTo prog s next)
    (before : s.main.HasSpawned stage i) : next.main.HasSpawned stage i := by
  cases goes with
  | stay same => rw [same]; exact before
  | early zero => exact absurd before (spawned_not_early _ stage i (.inl zero))
  | create point more moved =>
      rw [point, has_spawned_spawn] at before
      rw [moved, has_spawned_spawn]
      exact before.imp_right fun ⟨same, less⟩ => ⟨same, by omega⟩
  | spawned point all moved =>
      rw [point, has_spawned_spawn] at before
      rw [moved, has_spawned_next]
      rcases before with less | ⟨rfl, _⟩
      · omega
      · exact Nat.le_refl _
  | join point gone moved => rw [moved]; exact spawned_late _ stage i (join_late _ _)
  | joined point all moved => rw [moved]; exact spawned_late _ stage i (joined_late prog _)
  | onward late after => exact spawned_late _ stage i (by omega)

theorem spawned_back (prog : Prog) (s next : Pipe) (stage : Stage) (i : Nat) (goes : MainTo prog s next)
    (after : next.main.HasSpawned stage i) (inside : i < s.count stage) :
    s.main.HasSpawned stage i ∨ next.life i stage = .live := by
  cases goes with
  | stay same => rw [same] at after; exact .inl after
  | early _ still => exact absurd after (spawned_not_early _ stage i still)
  | @create started k point more moved alive =>
      rw [moved, has_spawned_spawn] at after
      rw [point, has_spawned_spawn]
      rcases after with less | ⟨rfl, less⟩
      · exact .inl (.inl less)
      · by_cases here : i = k
        · subst here
          exact .inr alive
        · exact .inl (.inr ⟨rfl, by omega⟩)
  | @spawned started k point all moved =>
      rw [moved, has_spawned_next] at after
      rw [point, has_spawned_spawn]
      by_cases here : stage = started
      · subst here
        exact .inl (.inr ⟨rfl, by omega⟩)
      · have less : stage.spawnPhase < started.spawnPhase := by
          cases stage <;> cases started <;> simp_all [Stage.spawnPhase]
        exact .inl (.inl less)
  | join point => exact .inl (by rw [point]; exact spawned_late _ stage i (join_late _ _))
  | joined point => exact .inl (by rw [point]; exact spawned_late _ stage i (join_late _ _))
  | onward late => exact .inl (spawned_late _ stage i (by omega))

theorem spawn_not_joined (stage other : Stage) (i k : Nat) : ¬ (MainPc.spawn stage k).HasJoined other i := by
  cases stage <;> cases other <;> simp [MainPc.HasJoined, MainPc.phase, Stage.joinPhase]

theorem joined_back (prog : Prog) (s next : Pipe) (stage : Stage) (i : Nat) (goes : MainTo prog s next)
    (after : next.main.HasJoined stage i) : s.main.HasJoined stage i ∨ s.hasExited i stage = true ∨ s.count stage ≤ i := by
  cases goes with
  | stay same => rw [same] at after; exact .inl after
  | early _ still =>
      rcases still with zero | same
      · rcases after with past | ⟨k, same, less⟩
        · omega
        · rw [same] at zero
          cases stage <;> simp [MainPc.phase] at zero
      · rw [same] at after
        cases stage <;> simp [MainPc.HasJoined, MainPc.phase, Stage.joinPhase] at after
  | @create started k point more moved =>
      rw [moved] at after
      exact absurd after (spawn_not_joined started stage i (k + 1))
  | @spawned started k point all moved =>
      cases started <;> cases stage <;> simp [MainPc.HasJoined, MainPc.phase, Stage.joinPhase, moved, Stage.spawned] at after
  | @join joining k point gone moved =>
      rw [moved] at after
      rw [point]
      rcases after with past | ⟨j, same, less⟩
      · exact .inl (.inl (by cases joining <;> exact past))
      · cases same
        by_cases here : i = k
        · subst here
          exact .inr (.inl gone)
        · exact .inl (.inr ⟨k, rfl, by omega⟩)
  | @joined joining k point all moved =>
      rw [point]
      by_cases here : stage = joining
      · subst here
        by_cases less : i < k
        · exact .inl (.inr ⟨k, rfl, less⟩)
        · exact .inr (.inr (by omega))
      · refine .inl (.inl ?_)
        rw [moved] at after
        cases prog <;> cases stage <;> cases joining <;>
          simp_all [MainPc.HasJoined, MainPc.phase, Stage.joinPhase, Stage.joined]
  | onward _ _ nobody => exact .inl (nobody stage i after)

theorem main_to_early (prog : Prog) (s next : Pipe) (goes : MainTo prog s next) (point : s.main = .counts) :
    next.main.phase = 0 ∨ next.main = .spawn .source 0 := by
  cases goes with
  | stay same => exact .inl (by rw [same, point]; rfl)
  | early _ after => exact after
  | create there | spawned there | join there | joined there => simp [point] at there
  | onward late => simp [point, MainPc.phase] at late

structure JoinInv (s : Pipe) : Prop where
  born : ∀ stage i, s.life i stage ≠ .off → i < s.count stage ∧ s.main.HasSpawned stage i
  created : ∀ stage i, s.main.HasSpawned stage i → i < s.count stage → s.life i stage ≠ .off
  joined : ∀ stage i, s.main.HasJoined stage i → s.life i stage ≠ .live

theorem has_exited_life (s : Pipe) (i : Nat) (stage : Stage) (gone : s.hasExited i stage = true) :
    s.life i stage = .exited := by
  cases stage <;> simp only [Pipe.hasExited, decide_eq_true_eq] at gone <;> simp only [Pipe.life, gone] <;> rfl

theorem join_inv_move (prog : Prog) (s next : Pipe) (action : UserAction) (out : List UserEvent) (inv : JoinInv s)
    (move : PipeMove prog s action next out) : JoinInv next := by
  have goes := pipe_main_to prog s next action out move
  have counted := count_move prog s next action out move
  have kept : ∀ stage i, s.main.HasSpawned stage i → next.count = s.count := by
    intro stage i spawned
    refine counted.resolve_right fun point => ?_
    exact spawned_not_early s.main stage i (.inl (by rw [point]; rfl)) spawned
  refine ⟨?_, ?_, ?_⟩
  · intro stage i alive
    cases life_move prog s next action i stage out move with
    | same same =>
        rw [same] at alive
        obtain ⟨inside, spawned⟩ := inv.born stage i alive
        exact ⟨by rw [kept stage i spawned]; exact inside, spawned_mono prog s next stage i goes spawned⟩
    | exits was =>
        obtain ⟨inside, spawned⟩ := inv.born stage i (by rw [was]; simp)
        exact ⟨by rw [kept stage i spawned]; exact inside, spawned_mono prog s next stage i goes spawned⟩
    | starts point more moved =>
        have still : next.count = s.count := counted.resolve_right (by rw [point]; simp)
        rw [still, moved, has_spawned_spawn]
        exact ⟨more, .inr ⟨rfl, by omega⟩⟩
  · intro stage i spawned inside
    by_cases early : s.main = .counts
    · exact absurd spawned (spawned_not_early _ stage i (main_to_early prog s next goes early))
    · rw [counted.resolve_right early] at inside
      rcases spawned_back prog s next stage i goes spawned inside with before | alive
      · have was := inv.created stage i before inside
        cases life_move prog s next action i stage out move with
        | same same => rw [same]; exact was
        | exits _ gone => rw [gone]; simp
        | starts _ _ _ alive => rw [alive]; simp
      · rw [alive]
        simp
  · intro stage i joined
    have stays : s.life i stage ≠ .live → next.life i stage ≠ .live := by
      intro dead
      cases life_move prog s next action i stage out move with
      | same same => rw [same]; exact dead
      | exits alive => exact absurd alive dead
      | starts _ _ moved =>
          rw [moved] at joined
          exact absurd joined (spawn_not_joined stage stage i (i + 1))
    rcases joined_back prog s next stage i goes joined with before | gone | outside
    · exact stays (inv.joined stage i before)
    · exact stays (by rw [has_exited_life s i stage gone]; simp)
    · refine stays fun alive => ?_
      have inside := (inv.born stage i (by rw [alive]; simp)).1
      omega

theorem join_inv_early (s : Pipe) (early : s.main.phase = 0) (off : ∀ stage i, s.life i stage = .off) : JoinInv s := by
  refine ⟨fun stage i alive => absurd (off stage i) alive, fun stage i spawned => ?_, fun stage i _ alive => ?_⟩
  · exact absurd spawned (spawned_not_early _ stage i (.inl early))
  · rw [off stage i] at alive
    cases alive

theorem join_inv_start (arg : Int) : JoinInv (programStart arg) := by
  apply join_inv_early _ rfl
  intro stage i
  cases stage <;> rfl

section Runs

variable {prog : Prog} {ok : Pipe → UserAction → Prop} {start s : Pipe} {arg : Int} {events : List UserEvent}

theorem join_inv_from (initially : JoinInv start) (run : Run (pipeline prog) ok start events s) : JoinInv s := by
  induction run with
  | nil => exact initially
  | snoc action _ _ stepped ih => exact join_inv_move prog _ _ action _ ih (pipe_moves prog _ _ action _ stepped)

theorem join_inv_run (run : Run (pipeline prog) ok (programStart arg) events s) : JoinInv s :=
  join_inv_from (join_inv_start arg) run

end Runs

end MyDev
