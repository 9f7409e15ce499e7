import MyDev.PipelineFlow

set_option autoImplicit false

namespace MyDev

open Library

def Item.changed (change : Bytes → Bytes) (item : Item) : Item := { item with data := inPlace change item.data }

def ElaboratePc.job : ElaboratePc → Option ElaboratePc
  | .unlockGot item => some (.unlockGot item)
  | .work item => some (.work item)
  | .lockE item => some (.lockE item)
  | .insert item => some (.insert item)
  | _ => none

def SinkPc.job : SinkPc → Option SinkPc
  | .act item i => some (.act item i)
  | .inWrite item i => some (.inWrite item i)
  | .report item i => some (.report item i)
  | _ => none

def UserEvent.byElaborator : UserEvent → Bool
  | .taken _ | .elaborated _ => true
  | _ => false

def UserEvent.bySink : UserEvent → Bool
  | .picked _ | .attempt _ _ | .settled _ _ _ | .printed _ => true
  | _ => false

inductive ElaborateChange (change : Bytes → Bytes) : ElaboratePc → ElaboratePc → List UserEvent → Prop where
  | take (item : Item) : ElaborateChange change .test (.unlockGot item) [.taken item]
  | release (item : Item) : ElaborateChange change (.unlockGot item) (.work item) []
  | convert (item : Item) : ElaborateChange change (.work item) (.lockE (item.changed change)) []
  | acquire (item : Item) : ElaborateChange change (.lockE item) (.insert item) []
  | insert (item : Item) : ElaborateChange change (.insert item) .unlockE [.elaborated item]

inductive SinkChange (prog : Prog) : SinkPc → SinkPc → List UserEvent → Prop where
  | pick (item : Item) : SinkChange prog .test (.act item 0) [.picked item]
  | call (item : Item) (i : Nat) (left : i < maxRetry) : SinkChange prog (.act item i) (.inWrite item i) []
  | written (item : Item) (i : Nat) : SinkChange prog (.inWrite item i) (.report item i) [.attempt item true]
  | refused (item : Item) (i : Nat) : SinkChange prog (.inWrite item i) (.act item (i + 1)) [.attempt item false]
  | giveUp (item : Item) (i : Nat) (tried : maxRetry ≤ i) : SinkChange prog (.act item i) (.report item i) []
  | settle (item : Item) (i : Nat) (role : prog = .writer) :
      SinkChange prog (.report item i) (.unlock false) [.settled item i (i == 5)]
  | print (item : Item) (i : Nat) (role : prog = .reader) : SinkChange prog (.act item i) (.unlock false) [.printed item]

inductive ElaborateEffect (change : Bytes → Bytes) (s next : Pipe) (out : List UserEvent) : Prop where
  | still (same : ∀ i, (next.elaborators i).job = (s.elaborators i).job) (silent : ∀ event ∈ out, event.byElaborator = false)
  | works {i : Nat} {before after : ElaboratePc} (changes : ElaborateChange change before after out)
      (point : s.elaborators i = before) (updated : next.elaborators = Function.update s.elaborators i after)

inductive SinkEffect (prog : Prog) (s next : Pipe) (out : List UserEvent) : Prop where
  | still (same : ∀ i, (next.sinks i).job = (s.sinks i).job) (silent : ∀ event ∈ out, event.bySink = false)
  | works {i : Nat} {before after : SinkPc} (changes : SinkChange prog before after out) (point : s.sinks i = before)
      (updated : next.sinks = Function.update s.sinks i after)

theorem update_job {τ β : Type} (job : τ → β) (threads : Nat → τ) (i j : Nat) (pc : τ) (same : job pc = job (threads j)) :
    job (Function.update threads j pc i) = job (threads i) := by
  by_cases here : i = j
  · subst here
    rw [Function.update_self, same]
  · rw [Function.update_of_ne here]

theorem elaborate_effect_own (change : Bytes → Bytes) (s next : Pipe) (j : Nat) (out : List UserEvent)
    (move : ElaborateMove change s j next out) : ElaborateEffect change s next out := by
  cases move with
  | take point => exact .works (.take _) point rfl
  | release point => exact .works (.release _) point rfl
  | convert point => exact .works (.convert _) point rfl
  | acquireE point => exact .works (.acquire _) point rfl
  | insert point signalled =>
      obtain ⟨_, rfl, _⟩ := signal_e_spec _ _ _ signalled
      exact .works (.insert _) point rfl
  | acquire point | stop point | wait point | releaseE point | leave point =>
      exact .still (fun i => update_job ElaboratePc.job s.elaborators i j _ (congrArg ElaboratePc.job point).symm) (by simp)

theorem sink_effect_own (prog : Prog) (s next : Pipe) (j : Nat) (out : List UserEvent) (move : SinkMove prog s j next out) :
    SinkEffect prog s next out := by
  cases move with
  | take point => exact .works (.pick _) point rfl
  | giveUp _ point tried => exact .works (.giveUp _ _ tried) point rfl
  | settle role point => exact .works (.settle _ _ role) point rfl
  | print role point => exact .works (.print _ _ role) point rfl
  | acquire point | stop point | wait point | release point =>
      exact .still (fun i => update_job SinkPc.job s.sinks i j _ (congrArg SinkPc.job point).symm) (by simp)
  | @rest stop point =>
      have same : (if stop then SinkPc.exited else .lock).job = (s.sinks j).job := by
        rw [point]
        cases stop <;> rfl
      exact .still (fun i => update_job SinkPc.job s.sinks i j _ same) (by simp)

theorem unborn_off (s : Pipe) (stage : Stage) (j : Nat) (inv : JoinInv s) (point : s.main = .spawn stage j) :
    s.life j stage = .off := by
  by_contra alive
  have spawned := (inv.born stage j alive).2
  rw [point, has_spawned_spawn] at spawned
  omega

theorem main_jobs (prog : Prog) (s next : Pipe) (out : List UserEvent) (inv : JoinInv s) (move : MainMove prog s next out) :
    (∀ i, (next.elaborators i).job = (s.elaborators i).job) ∧ (∀ i, (next.sinks i).job = (s.sinks i).job) ∧
      (∀ event ∈ out, event.byElaborator = false ∧ event.bySink = false) := by
  cases move with
  | @create stage j point more =>
      have unborn := unborn_off s stage j inv point
      cases stage with
      | source => exact ⟨fun _ => rfl, fun _ => rfl, by simp⟩
      | elaborate =>
          have jobless : (s.elaborators j).job = none := by
            simp only [Pipe.life] at unborn
            cases pc : s.elaborators j <;> rw [pc] at unborn <;> first | rfl | cases unborn
          exact ⟨fun i => update_job ElaboratePc.job s.elaborators i j .lock jobless.symm, fun _ => rfl, by simp⟩
      | sink =>
          have jobless : (s.sinks j).job = none := by
            simp only [Pipe.life] at unborn
            cases pc : s.sinks j <;> rw [pc] at unborn <;> first | rfl | cases unborn
          exact ⟨fun _ => rfl, fun i => update_job SinkPc.job s.sinks i j .lock jobless.symm, by simp⟩
  | relAcquire _ free =>
      rcases lock_main_spec _ _ _ _ free with rfl | rfl <;> exact ⟨fun _ => rfl, fun _ => rfl, by simp⟩
  | @relSet buf =>
      cases buf with
      | raw =>
          exact ⟨fun i => roused_same ElaboratePc.job .wait .lock _ _ (cond_broadcast_roused .wait .lock s.elaborators i) rfl,
            fun _ => rfl, by simp⟩
      | elaborated =>
          exact ⟨fun _ => rfl, fun i => roused_same SinkPc.job .wait .lock _ _ (cond_broadcast_roused .wait .lock s.sinks i) rfl,
            by simp⟩
  | @relUnlock buf => cases buf <;> exact ⟨fun _ => rfl, fun _ => rfl, by simp⟩
  | doneCheck => exact ⟨fun _ => rfl, fun _ => rfl, by simp [UserEvent.byElaborator, UserEvent.bySink]⟩
  | _ => exact ⟨fun _ => rfl, fun _ => rfl, by simp⟩

theorem elaborate_effect (prog : Prog) (s next : Pipe) (action : UserAction) (out : List UserEvent) (inv : JoinInv s)
    (move : PipeMove prog s action next out) : ElaborateEffect prog.change s next out := by
  cases move with
  | source move =>
      refine .still (fun i => roused_same ElaboratePc.job _ _ _ _ ((source_frame prog s next _ out move).roused i) rfl) ?_
      cases move <;> simp [UserEvent.byElaborator]
  | elaborate move => exact elaborate_effect_own prog.change s next _ out move
  | sink move =>
      refine .still (fun i => by rw [(sink_frame prog s next _ out move).elaborators]) ?_
      cases move <;> simp [UserEvent.byElaborator]
  | main move =>
      obtain ⟨jobs, _, silent⟩ := main_jobs prog s next out inv move
      exact .still jobs fun event member => (silent event member).1
  | hand move => exact .still (fun i => by rw [(hand_frame s next _ move).elaborators]) (by simp)
  | call move => exact .still (fun i => by cases move <;> rfl) (by simp)
  | ret move => cases move <;> exact .still (fun i => rfl) (by simp [UserEvent.byElaborator])
  | @spuriousR j point =>
      exact .still (fun i => update_job ElaboratePc.job s.elaborators i j _ (congrArg ElaboratePc.job point).symm) (by simp)
  | spuriousE | sigint => exact .still (fun _ => rfl) (by simp)

theorem sink_effect (prog : Prog) (s next : Pipe) (action : UserAction) (out : List UserEvent) (inv : JoinInv s)
    (move : PipeMove prog s action next out) : SinkEffect prog s next out := by
  cases move with
  | source move =>
      refine .still (fun i => by rw [(source_frame prog s next _ out move).sinks]) ?_
      cases move <;> simp [UserEvent.bySink]
  | elaborate move =>
      refine .still (fun i => roused_same SinkPc.job _ _ _ _ ((elaborate_frame prog.change s next _ out move).roused i) rfl) ?_
      cases move <;> simp [UserEvent.bySink]
  | sink move => exact sink_effect_own prog s next _ out move
  | main move =>
      obtain ⟨_, jobs, silent⟩ := main_jobs prog s next out inv move
      exact .still jobs fun event member => (silent event member).2
  | hand move => exact .still (fun i => by rw [(hand_frame s next _ move).sinks]) (by simp)
  | call move =>
      cases move with
      | write _ point left => exact .works (.call _ _ left) point rfl
      | _ => exact .still (fun _ => rfl) (by simp)
  | ret move =>
      cases move with
      | written point => exact .works (.written _ _) point rfl
      | refused point => exact .works (.refused _ _) point rfl
      | _ => exact .still (fun _ => rfl) (by simp [UserEvent.bySink])
  | @spuriousE j point =>
      exact .still (fun i => update_job SinkPc.job s.sinks i j _ (congrArg SinkPc.job point).symm) (by simp)
  | spuriousR | sigint => exact .still (fun _ => rfl) (by simp)

-- Between rbuffer and ebuffer a string is in the hands of an elaborator, and
-- counted as if it were already converted.
def ElaboratePc.hand (change : Bytes → Bytes) : ElaboratePc → Multiset Item
  | .unlockGot item | .work item => {item.changed change}
  | .lockE item | .insert item => {item}
  | _ => 0

def SinkPc.hand : SinkPc → Multiset Item
  | .act item _ | .inWrite item _ | .report item _ => {item}
  | _ => 0

-- write_dev is done with a string when it has settled it, print_data when it
-- has printed it.
def UserEvent.outputs : Prog → UserEvent → List Item
  | .writer, .settled item _ _ => [item]
  | .reader, .printed item => [item]
  | _, _ => []

theorem hand_of_job (change : Bytes → Bytes) (before after : ElaboratePc) (same : after.job = before.job) :
    after.hand change = before.hand change := by
  cases before <;> cases after <;> simp_all [ElaboratePc.job, ElaboratePc.hand]

theorem sink_of_job {β : Type} (hand : SinkPc → β) (default : β) (idle : ∀ pc, pc.job = none → hand pc = default)
    (before after : SinkPc) (same : after.job = before.job) : hand after = hand before := by
  cases job : before.job with
  | none => rw [idle before job, idle after (same.trans job)]
  | some pc =>
      have itself : ∀ other : SinkPc, other.job = some pc → other = pc := by
        intro other there
        cases other <;> simp_all [SinkPc.job]
      rw [itself before job, itself after (same.trans job)]

theorem flat_map_silent {β : Type} (f : UserEvent → List β) (mine : UserEvent → Bool)
    (vanishes : ∀ event, mine event = false → f event = []) (out : List UserEvent)
    (silent : ∀ event ∈ out, mine event = false) : out.flatMap f = [] :=
  List.flatMap_eq_nil_iff.mpr fun event member => vanishes event (silent event member)

theorem thread_count_le (todo step max : Int) : threadCount todo step max ≤ max := by
  simp only [threadCount]
  split <;> omega

theorem prog_count_le (prog : Prog) (s : Pipe) (stage : Stage) : prog.count s stage ≤ prog.max stage := by
  unfold Prog.count
  split
  · exact Int.le_refl _
  · exact thread_count_le _ _ _

def SinkPc.Bounded : SinkPc → Prop
  | .act _ i | .report _ i => i ≤ maxRetry
  | .inWrite _ i => i < maxRetry
  | _ => True

theorem bounded_of_job (before after : SinkPc) (same : after.job = before.job) (bounded : before.Bounded) : after.Bounded := by
  cases before <;> cases after <;> simp_all [SinkPc.job, SinkPc.Bounded]

theorem sink_change_bounded (prog : Prog) (before after : SinkPc) (out : List UserEvent)
    (changes : SinkChange prog before after out) (bounded : before.Bounded) : after.Bounded := by
  cases changes with
  | pick | settle | print => simp [SinkPc.Bounded]
  | call _ _ left => exact left
  | written => exact Nat.le_of_lt bounded
  | refused => exact bounded
  | giveUp => exact bounded

def CountBound (prog : Prog) (s : Pipe) : Prop := ∀ stage, s.count stage ≤ (prog.max stage).toNat

theorem count_bound_move (prog : Prog) (s next : Pipe) (action : UserAction) (out : List UserEvent) (bound : CountBound prog s)
    (move : PipeMove prog s action next out) : CountBound prog next := by
  intro stage
  rcases count_move prog s next action out move with same | point
  · rw [same]
    exact bound stage
  · cases move with
    | main move =>
        cases move with
        | counts => cases stage <;> exact Int.toNat_le_toNat (prog_count_le prog s _)
        | create there | spawned there | join there | joined there | relAcquire there | relSet there | relUnlock there =>
            simp [point] at there
        | _ => exact bound stage
    | source move => rw [(source_frame prog s next _ out move).count]; exact bound stage
    | elaborate move => rw [(elaborate_frame prog.change s next _ out move).count]; exact bound stage
    | sink move => rw [(sink_frame prog s next _ out move).count]; exact bound stage
    | hand move => rw [(hand_frame s next _ move).count]; exact bound stage
    | call move => cases move <;> exact bound stage
    | ret move => cases move <;> exact bound stage
    | spuriousR | spuriousE | sigint => exact bound stage

section Runs

variable {prog : Prog} {ok : Pipe → UserAction → Prop} {arg : Int} {events : List UserEvent} {s : Pipe}

theorem count_bound_run (run : Run (pipeline prog) ok (programStart arg) events s) : CountBound prog s := by
  refine Run.invariant (fun _ s => CountBound prog s) (fun stage => by cases stage <;> exact Nat.zero_le _) ?_ run
  intro _ s action next out _ bound _ stepped
  exact count_bound_move prog s next action out bound (pipe_moves prog s next action out stepped)

theorem live_inside (run : Run (pipeline prog) ok (programStart arg) events s) (stage : Stage) (i : Nat)
    (alive : s.life i stage ≠ .off) : i < (prog.max stage).toNat :=
  Nat.lt_of_lt_of_le ((join_inv_run run).born stage i alive).1 (count_bound_run run stage)

theorem elaborators_balance (run : Run (pipeline prog) ok (programStart arg) events s) :
    ((events.flatMap fun event => event.takes.map (Item.changed prog.change) : List Item) : Multiset Item) =
      held (prog.max .elaborate).toNat s.elaborators (ElaboratePc.hand prog.change) +
        (events.flatMap UserEvent.inserts : List Item) := by
  refine workers_run _ Pipe.elaborators (ElaboratePc.hand prog.change) _ UserEvent.inserts (fun _ => rfl) ?_ run
  intro _ s action next out before _ stepped
  cases elaborate_effect prog s next action out (join_inv_run before) (pipe_moves prog s next action out stepped) with
  | still same silent =>
      refine .idle (fun i => hand_of_job prog.change _ _ (same i)) ?_
      rw [flat_map_silent _ UserEvent.byElaborator (by intro event quiet; cases event <;> first | rfl | cases quiet) out silent,
        flat_map_silent _ UserEvent.byElaborator (by intro event quiet; cases event <;> first | rfl | cases quiet) out silent]
  | @works i _ after changes point updated =>
      have inside : i < (prog.max .elaborate).toNat := by
        refine live_inside before .elaborate i ?_
        simp only [Pipe.life, point]
        cases changes <;> simp [ElaboratePc.life]
      refine .trade inside updated ?_
      rw [point]
      cases changes <;> simp [ElaboratePc.hand, UserEvent.takes, UserEvent.inserts]

theorem sinks_bounded (run : Run (pipeline prog) ok (programStart arg) events s) : ∀ i, (s.sinks i).Bounded := by
  refine Run.invariant (fun _ s => ∀ i, (s.sinks i).Bounded) (fun _ => trivial) ?_ run
  intro _ s action next out before bounded _ stepped i
  cases sink_effect prog s next action out (join_inv_run before) (pipe_moves prog s next action out stepped) with
  | still same => exact bounded_of_job _ _ (same i) (bounded i)
  | @works j _ after changes point updated =>
      rw [updated]
      by_cases here : i = j
      · subst here
        rw [Function.update_self]
        exact sink_change_bounded prog _ after out changes (point ▸ bounded i)
      · rw [Function.update_of_ne here]
        exact bounded i

theorem sinks_balance {β : Type} (hand : SinkPc → Multiset β) (gained given : UserEvent → List β)
    (idle : ∀ pc, pc.job = none → hand pc = 0)
    (quiet : ∀ event, event.bySink = false → gained event = [] ∧ given event = [])
    (trades : ∀ before after out, SinkChange prog before after out → before.Bounded →
      hand before + (out.flatMap gained : List β) = hand after + (out.flatMap given : List β))
    (run : Run (pipeline prog) ok (programStart arg) events s) :
    ((events.flatMap gained : List β) : Multiset β) =
      held (prog.max .sink).toNat s.sinks hand + (events.flatMap given : List β) := by
  refine workers_run _ Pipe.sinks hand gained given (fun _ => idle _ rfl) ?_ run
  intro _ s action next out before _ stepped
  cases sink_effect prog s next action out (join_inv_run before) (pipe_moves prog s next action out stepped) with
  | still same silent =>
      refine .idle (fun i => sink_of_job hand 0 idle _ _ (same i)) ?_
      rw [flat_map_silent gained UserEvent.bySink (fun event mine => (quiet event mine).1) out silent,
        flat_map_silent given UserEvent.bySink (fun event mine => (quiet event mine).2) out silent]
  | @works i _ after changes point updated =>
      have inside : i < (prog.max .sink).toNat := by
        refine live_inside before .sink i ?_
        simp only [Pipe.life, point]
        cases changes <;> simp [SinkPc.life]
      refine .trade inside updated ?_
      have bounded := sinks_bounded before i
      rw [point] at bounded ⊢
      exact trades _ after out changes bounded

theorem sinks_output_balance (run : Run (pipeline prog) ok (programStart arg) events s) :
    ((events.flatMap UserEvent.picks : List Item) : Multiset Item) =
      held (prog.max .sink).toNat s.sinks SinkPc.hand + (events.flatMap (UserEvent.outputs prog) : List Item) := by
  refine sinks_balance SinkPc.hand UserEvent.picks (UserEvent.outputs prog) ?_ ?_ ?_ run
  · intro pc jobless
    cases pc <;> first | rfl | cases jobless
  · intro event mine
    cases event <;> cases prog <;> first | exact ⟨rfl, rfl⟩ | cases mine
  · intro before after out changes _
    cases changes with
    | settle _ _ role | print _ _ role => subst role; simp [SinkPc.hand, UserEvent.picks, UserEvent.outputs]
    | _ => simp [SinkPc.hand, UserEvent.picks, UserEvent.outputs]

end Runs

def UserEvent.successes : UserEvent → List Item
  | .attempt item true => [item]
  | _ => []

def UserEvent.failures : UserEvent → List Item
  | .attempt item false => [item]
  | _ => []

def UserEvent.settlements : UserEvent → List (Item × Nat)
  | .settled item failures _ => [(item, failures)]
  | _ => []

def SinkPc.succeeded : SinkPc → Multiset Item
  | .report item i => if i = maxRetry then 0 else {item}
  | _ => 0

def SinkPc.failed : SinkPc → Multiset Item
  | .act item i | .inWrite item i | .report item i => Multiset.replicate i item
  | _ => 0

section Writer

variable {ok : Pipe → UserAction → Prop} {arg : Int} {events : List UserEvent} {s : Pipe}

theorem successes_balance (run : Run (pipeline .writer) ok (programStart arg) events s) :
    ((events.flatMap UserEvent.successes : List Item) : Multiset Item) =
      held (Prog.writer.max .sink).toNat s.sinks SinkPc.succeeded +
        (events.flatMap fun event => event.settlements.flatMap fun (item, failures) =>
          if failures = maxRetry then [] else [item] : List Item) := by
  refine sinks_balance SinkPc.succeeded UserEvent.successes _ ?_ ?_ ?_ run
  · intro pc jobless
    cases pc <;> first | rfl | cases jobless
  · intro event mine
    cases event <;> first | exact ⟨rfl, rfl⟩ | cases mine
  · intro before after out changes bounded
    cases changes with
    | print _ _ role => cases role
    | pick | call | refused => simp [SinkPc.succeeded, UserEvent.successes, UserEvent.settlements]
    | written item i =>
        have early : i ≠ maxRetry := Nat.ne_of_lt bounded
        simp [SinkPc.succeeded, UserEvent.successes, UserEvent.settlements, early]
    | giveUp item i tried =>
        have last : i = maxRetry := Nat.le_antisymm bounded tried
        simp [SinkPc.succeeded, last]
    | settle item i => by_cases last : i = maxRetry <;> simp [SinkPc.succeeded, UserEvent.successes, UserEvent.settlements, last]

theorem failures_balance (run : Run (pipeline .writer) ok (programStart arg) events s) :
    ((events.flatMap UserEvent.failures : List Item) : Multiset Item) =
      held (Prog.writer.max .sink).toNat s.sinks SinkPc.failed +
        (events.flatMap fun event => event.settlements.flatMap fun (item, failures) =>
          List.replicate failures item : List Item) := by
  refine sinks_balance SinkPc.failed UserEvent.failures _ ?_ ?_ ?_ run
  · intro pc jobless
    cases pc <;> first | rfl | cases jobless
  · intro event mine
    cases event <;> first | exact ⟨rfl, rfl⟩ | cases mine
  · intro before after out changes _
    cases changes with
    | print _ _ role => cases role
    | refused item i =>
        simp only [SinkPc.failed, UserEvent.failures, UserEvent.settlements, List.flatMap_cons, List.flatMap_nil,
          List.append_nil, Multiset.replicate_succ, Multiset.coe_singleton, Multiset.coe_nil, add_zero]
        rw [add_comm, Multiset.singleton_add]
    | pick | call | written | giveUp => simp [SinkPc.failed, UserEvent.failures, UserEvent.settlements]
    | settle => simp [SinkPc.failed, UserEvent.failures, UserEvent.settlements, Multiset.coe_replicate]

end Writer

end MyDev
