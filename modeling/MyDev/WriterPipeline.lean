import MyDev.PipelineSource

set_option autoImplicit false

namespace MyDev

open Library

def ElaboratePc.WellSpelt : ElaboratePc → Prop
  | .unlockGot item | .work item => Capital item.data
  | .lockE item | .insert item => Small item.data
  | _ => True

def SinkPc.WellSpelt : SinkPc → Prop
  | .act item _ | .inWrite item _ | .report item _ => Small item.data
  | _ => True

structure WriterData (s : Pipe) : Prop where
  raw : ∀ item ∈ s.rbuffer.items, Capital item.data
  elaborators : ∀ i, (s.elaborators i).WellSpelt
  elaborated : ∀ item ∈ s.ebuffer.items, Small item.data
  sinks : ∀ i, (s.sinks i).WellSpelt

theorem update_all {τ : Type} (good : τ → Prop) (threads : Nat → τ) (j : Nat) (pc : τ) (old : ∀ i, good (threads i))
    (new : good pc) (i : Nat) : good (Function.update threads j pc i) := by
  by_cases here : i = j
  · subst here
    rwa [Function.update_self]
  · rw [Function.update_of_ne here]
    exact old i

theorem roused_good {τ : Type} (good : τ → Prop) (wait lock before after : τ) (roused : Roused wait lock before after)
    (awake : good lock) (old : good before) : good after := by
  rcases roused with rfl | ⟨_, rfl⟩
  · exact old
  · exact awake

theorem writer_data_source (s next : Pipe) (i : Nat) (out : List UserEvent) (data : WriterData s)
    (move : SourceMove .writer s i next out) : WriterData next := by
  have frame := source_frame .writer s next i out move
  refine ⟨?_, fun j => roused_good ElaboratePc.WellSpelt _ _ _ _ (frame.roused j) trivial (data.elaborators j),
    by rw [frame.ebuffer]; exact data.elaborated, by rw [frame.sinks]; exact data.sinks⟩
  cases move with
  | @create rand _ _ _ _ _ signalled =>
      obtain ⟨_, rfl, _⟩ := signal_r_spec _ _ _ signalled
      intro item member
      rcases List.mem_append.mp member with old | new
      · exact data.raw item old
      · cases List.mem_singleton.mp new
        exact gen_data_capital rand
  | ask role | failed role | last role | receive role => cases role
  | acquire | spent | release | rest => exact data.raw

theorem writer_data_elaborate (s next : Pipe) (i : Nat) (out : List UserEvent) (data : WriterData s)
    (move : ElaborateMove toLower s i next out) : WriterData next := by
  have mine := data.elaborators i
  have set := fun pc => update_all ElaboratePc.WellSpelt s.elaborators i pc data.elaborators
  cases move with
  | acquire | stop | wait | releaseE | leave => exact ⟨data.raw, set _ trivial, data.elaborated, data.sinks⟩
  | @take item rest point found =>
      obtain ⟨items, _⟩ := wbuf_ext_some _ _ _ found
      have capital : ∀ other ∈ item :: rest.items, Capital other.data := items ▸ data.raw
      exact ⟨fun other member => capital other (List.mem_cons_of_mem _ member), set _ (capital item List.mem_cons_self),
        data.elaborated, data.sinks⟩
  | release point =>
      rw [point] at mine
      exact ⟨data.raw, set _ mine, data.elaborated, data.sinks⟩
  | convert point =>
      rw [point] at mine
      exact ⟨data.raw, set _ (to_lower_small _ mine), data.elaborated, data.sinks⟩
  | acquireE point =>
      rw [point] at mine
      exact ⟨data.raw, set _ mine, data.elaborated, data.sinks⟩
  | insert point signalled =>
      rw [point] at mine
      obtain ⟨sinks, rfl, roused⟩ := signal_e_spec _ _ _ signalled
      refine ⟨data.raw, set _ trivial, fun other member => ?_,
        fun j => roused_good SinkPc.WellSpelt _ _ _ _ (roused j) trivial (data.sinks j)⟩
      rcases List.mem_append.mp member with old | new
      · exact data.elaborated other old
      · cases List.mem_singleton.mp new
        exact mine

theorem writer_data_sink (s next : Pipe) (i : Nat) (out : List UserEvent) (data : WriterData s)
    (move : SinkMove .writer s i next out) : WriterData next := by
  have mine := data.sinks i
  have set := fun pc => update_all SinkPc.WellSpelt s.sinks i pc data.sinks
  cases move with
  | acquire | stop | wait | settle | print | release =>
      exact ⟨data.raw, data.elaborators, data.elaborated, set _ trivial⟩
  | @rest stop => exact ⟨data.raw, data.elaborators, data.elaborated, set _ (by cases stop <;> trivial)⟩
  | giveUp _ point =>
      rw [point] at mine
      exact ⟨data.raw, data.elaborators, data.elaborated, set _ mine⟩
  | @take item rest point found =>
      obtain ⟨items, _⟩ := wbuf_ext_some _ _ _ found
      have small : ∀ other ∈ item :: rest.items, Small other.data := items ▸ data.elaborated
      exact ⟨data.raw, data.elaborators, fun other member => small other (List.mem_cons_of_mem _ member),
        set _ (small item List.mem_cons_self)⟩

theorem writer_data_main (s next : Pipe) (out : List UserEvent) (data : WriterData s) (move : MainMove .writer s next out) :
    WriterData next := by
  cases move with
  | init => exact ⟨by simp [Pipe.setMain], data.elaborators, by simp [Pipe.setMain], data.sinks⟩
  | @create stage j =>
      cases stage with
      | source => exact ⟨data.raw, data.elaborators, data.elaborated, data.sinks⟩
      | elaborate =>
          exact ⟨data.raw, update_all ElaboratePc.WellSpelt s.elaborators j .lock data.elaborators trivial, data.elaborated,
            data.sinks⟩
      | sink =>
          exact ⟨data.raw, data.elaborators, data.elaborated,
            update_all SinkPc.WellSpelt s.sinks j .lock data.sinks trivial⟩
  | relAcquire _ free =>
      rcases lock_main_spec _ _ _ _ free with rfl | rfl <;> exact ⟨data.raw, data.elaborators, data.elaborated, data.sinks⟩
  | @relSet buf =>
      cases buf with
      | raw =>
          exact ⟨data.raw, fun j => roused_good ElaboratePc.WellSpelt .wait .lock _ _
            (cond_broadcast_roused .wait .lock s.elaborators j) trivial (data.elaborators j), data.elaborated, data.sinks⟩
      | elaborated =>
          exact ⟨data.raw, data.elaborators, data.elaborated, fun j => roused_good SinkPc.WellSpelt .wait .lock _ _
            (cond_broadcast_roused .wait .lock s.sinks j) trivial (data.sinks j)⟩
  | @relUnlock buf => cases buf <;> exact ⟨data.raw, data.elaborators, data.elaborated, data.sinks⟩
  | _ => exact ⟨data.raw, data.elaborators, data.elaborated, data.sinks⟩

theorem writer_data_move (s next : Pipe) (action : UserAction) (out : List UserEvent) (data : WriterData s)
    (move : PipeMove .writer s action next out) : WriterData next := by
  cases move with
  | source move => exact writer_data_source s next _ out data move
  | elaborate move => exact writer_data_elaborate s next _ out data move
  | sink move => exact writer_data_sink s next _ out data move
  | main move => exact writer_data_main s next out data move
  | hand move =>
      cases move with
      | bodyR => exact ⟨by simp [Pipe.setHand], data.elaborators, data.elaborated, data.sinks⟩
      | bodyE => exact ⟨data.raw, data.elaborators, by simp [Pipe.setHand], data.sinks⟩
      | _ => exact ⟨data.raw, data.elaborators, data.elaborated, data.sinks⟩
  | call move =>
      cases move with
      | @write i _ _ _ point =>
          have mine := data.sinks i
          rw [point] at mine
          exact ⟨data.raw, data.elaborators, data.elaborated, update_all SinkPc.WellSpelt s.sinks _ _ data.sinks mine⟩
      | _ => exact ⟨data.raw, data.elaborators, data.elaborated, data.sinks⟩
  | ret move =>
      cases move with
      | @written i _ _ point | @refused i _ _ point =>
          have mine := data.sinks i
          rw [point] at mine
          exact ⟨data.raw, data.elaborators, data.elaborated, update_all SinkPc.WellSpelt s.sinks _ _ data.sinks mine⟩
      | _ => exact ⟨data.raw, data.elaborators, data.elaborated, data.sinks⟩
  | spuriousR =>
      exact ⟨data.raw, update_all ElaboratePc.WellSpelt s.elaborators _ .lock data.elaborators trivial, data.elaborated, data.sinks⟩
  | spuriousE =>
      exact ⟨data.raw, data.elaborators, data.elaborated, update_all SinkPc.WellSpelt s.sinks _ .lock data.sinks trivial⟩
  | sigint => exact ⟨data.raw, data.elaborators, data.elaborated, data.sinks⟩

theorem writer_data_start (arg : Int) : WriterData (programStart arg) := by
  refine ⟨?_, fun _ => trivial, ?_, fun _ => trivial⟩ <;> simp [programStart]

theorem writer_data_run {ok : Pipe → UserAction → Prop} {arg : Int} {events : List UserEvent} {s : Pipe}
    (run : Run (pipeline .writer) ok (programStart arg) events s) : WriterData s := by
  refine Run.invariant (fun _ s => WriterData s) (writer_data_start arg) ?_ run
  intro _ s action next out _ data _ stepped
  exact writer_data_move s next action out data (pipe_moves .writer s next action out stepped)

-- The shared count of create_data: what is still to do and what has been made
-- add up to the argument, until a thread finds nothing left.
structure MadeInv (arg : Int) (puts : List Item) (s : Pipe) : Prop where
  numbered : puts.map Item.id = List.range s.made
  generated : ∀ item ∈ puts, ∃ rand, item.data = cstr (genData rand)
  counted : s.loop = false
  left : 0 ≤ s.todo → s.made + s.todo = arg
  spent : s.todo < 0 → (s.made : Int) = arg
  stopped : ∀ i, (s.sources i).stopped = true → s.todo < 0

theorem made_inv_keep (arg : Int) (puts : List Item) (s next : Pipe) (inv : MadeInv arg puts s) (todo : next.todo = s.todo)
    (loop : next.loop = s.loop) (made : next.made = s.made)
    (stopped : ∀ i, (next.sources i).stopped = true → (s.sources i).stopped = true) : MadeInv arg puts next := by
  refine ⟨by rw [made]; exact inv.numbered, inv.generated, loop.trans inv.counted, ?_, ?_, ?_⟩
  · rw [todo, made]
    exact inv.left
  · rw [todo, made]
    exact inv.spent
  · intro i halted
    rw [todo]
    exact inv.stopped i (stopped i halted)

theorem made_inv_source (arg : Int) (puts : List Item) (s next : Pipe) (i : Nat) (out : List UserEvent)
    (inv : MadeInv arg puts s) (move : SourceMove .writer s i next out) :
    MadeInv arg (puts ++ out.flatMap UserEvent.puts) next := by
  cases move with
  | ask role | failed role | last role | receive role => cases role
  | acquire point =>
      rw [List.flatMap_nil, List.append_nil]
      exact made_inv_keep arg puts s _ inv rfl rfl rfl
        fun j => update_stopped SourcePc.stopped s.sources j i .ticket (fun stop => by cases stop)
  | @release stop point =>
      rw [List.flatMap_nil, List.append_nil]
      exact made_inv_keep arg puts s _ inv rfl rfl rfl
        fun j => update_stopped SourcePc.stopped s.sources j i (.sleep stop) (fun stops => by rw [point]; cases stop <;> exact stops)
  | @rest stop point =>
      rw [List.flatMap_nil, List.append_nil]
      exact made_inv_keep arg puts s _ inv rfl rfl rfl
        fun j => update_stopped SourcePc.stopped s.sources j i _ (fun stops => by rw [point, ← rest_stopped stop]; exact stops)
  | spent point empty =>
      have counted := inv.counted
      simp only [Pipe.tmpTodo, counted, Bool.false_eq_true, if_false] at empty
      have drawn : s.drawn.todo = s.todo - 1 := by simp [Pipe.drawn, counted]
      have all : (s.made : Int) = arg := by
        by_cases zero : 0 ≤ s.todo
        · have total := inv.left zero
          omega
        · exact inv.spent (by omega)
      rw [List.flatMap_nil, List.append_nil]
      refine ⟨inv.numbered, inv.generated, counted, fun positive => ?_, fun _ => all, fun _ _ => ?_⟩
      · change 0 ≤ s.drawn.todo at positive
        omega
      · change s.drawn.todo < 0
        omega
  | @create rand _ _ _ point left signalled =>
      have counted := inv.counted
      simp only [Pipe.tmpTodo, counted, Bool.false_eq_true, if_false] at left
      have drawn : s.drawn.todo = s.todo - 1 := by simp [Pipe.drawn, counted]
      have total := inv.left (by omega)
      obtain ⟨_, rfl, _⟩ := signal_r_spec _ _ _ signalled
      refine ⟨?_, ?_, counted, fun _ => ?_, fun negative => ?_, fun j halted => ?_⟩
      · simp [UserEvent.puts, inv.numbered, Pipe.setSource, Pipe.putRaw, Pipe.drawn, List.range_succ]
      · intro item member
        rcases List.mem_append.mp member with old | new
        · exact inv.generated item old
        · cases List.mem_singleton.mp new
          exact ⟨rand, rfl⟩
      · change ((s.made + 1 : Nat) : Int) + s.drawn.todo = arg
        omega
      · change s.drawn.todo < 0 at negative
        omega
      · -- A thread that had stopped before would have left todo negative.
        have negative := inv.stopped j (update_stopped SourcePc.stopped s.sources j i (.unlock false) (fun stop => by cases stop) halted)
        omega

section Runs

variable {arg : Int} {events : List UserEvent} {s : Pipe}

theorem made_inv_run (positive : 1 ≤ arg) (run : Run (pipeline .writer) NoSigint (programStart arg) events s) :
    MadeInv arg (events.flatMap UserEvent.puts) s := by
  refine Run.invariant (fun events s => MadeInv arg (events.flatMap UserEvent.puts) s) ?_ ?_ run
  · refine ⟨rfl, by simp, by simp [programStart]; omega, fun _ => by simp [programStart], fun negative => ?_, ?_⟩
    · simp only [programStart] at negative
      omega
    · simp [programStart, SourcePc.stopped]
  intro events s action next out before inv quiet stepped
  rw [List.flatMap_append]
  have move := pipe_moves .writer s next action out stepped
  cases source_effect .writer s next action out (join_inv_run before) (calm_run before) quiet move with
  | still sources todo loop made silent =>
      have unput : out.flatMap UserEvent.puts = [] :=
        flat_map_silent _ UserEvent.bySource (by intro event mine; cases event <;> first | rfl | cases mine) out silent
      rw [unput, List.append_nil]
      exact made_inv_keep arg _ s next inv todo loop made (by rw [sources]; exact fun _ halted => halted)
  | @born i unborn created silent =>
      subst created silent
      rw [List.flatMap_nil, List.append_nil]
      exact made_inv_keep arg _ s _ inv rfl rfl rfl
        fun j => update_stopped SourcePc.stopped s.sources j i .lock (fun stop => by cases stop)
  | works move => exact made_inv_source arg _ s next _ out inv move
  | asks role => cases role
  | @hears i res got point heard observed =>
      subst heard observed
      have unput : [UserEvent.outcome res got].flatMap UserEvent.puts = [] := rfl
      rw [unput, List.append_nil]
      exact made_inv_keep arg _ s _ inv rfl rfl rfl
        fun j => update_stopped SourcePc.stopped s.sources j i _ (fun stop => by cases stop)

theorem writer_made_all (positive : 1 ≤ arg) (small : arg < intMax)
    (run : Run (pipeline .writer) NoSigint (programStart arg) events s) (past : 8 < s.main.phase) :
    ((events.flatMap UserEvent.puts).length : Int) = arg := by
  have inv := made_inv_run positive run
  have halted := source_stopped (by omega) small run (by simp only [Stage.joinPhase]; omega)
  have length : (events.flatMap UserEvent.puts).length = s.made := by
    simpa using congrArg List.length inv.numbered
  rw [length]
  exact inv.spent (inv.stopped 0 halted)

end Runs

def UserEvent.lostReports : UserEvent → List Item
  | .settled item _ true => [item]
  | _ => []

theorem lost_reports_balance {ok : Pipe → UserAction → Prop} {arg : Int} {events : List UserEvent} {s : Pipe}
    (run : Run (pipeline .writer) ok (programStart arg) events s) :
    ((events.flatMap UserEvent.lostReports : List Item) : Multiset Item) =
      (events.flatMap fun event => event.settlements.flatMap fun (item, failures) =>
        if failures = maxRetry then [item] else [] : List Item) := by
  have balance := sinks_balance (fun _ => 0) UserEvent.lostReports (fun event => event.settlements.flatMap fun (item, failures) =>
    if failures = maxRetry then [item] else []) (fun _ _ => rfl) ?_ ?_ run
  · rwa [held_idle _ s.sinks (fun _ => 0) (fun _ => rfl), zero_add] at balance
  · intro event mine
    cases event <;> first | exact ⟨rfl, rfl⟩ | cases mine
  · intro before after out changes _
    cases changes with
    | settle item failures =>
        by_cases last : failures = 5 <;> simp [UserEvent.lostReports, UserEvent.settlements, maxRetry, last]
    | _ => simp [UserEvent.lostReports, UserEvent.settlements]

theorem failures_settled {arg : Int} {events : List UserEvent} {s : Pipe}
    (run : Run (pipeline .writer) NoSigint (programStart arg) events s) (past : 8 < s.main.phase) :
    (events.flatMap UserEvent.failures).Perm
      ((events.flatMap UserEvent.settlements).flatMap fun (item, failures) => List.replicate failures item) := by
  have balance := failures_balance run
  rw [sinks_held_idle _ (by intro pc jobless; cases pc <;> first | rfl | cases jobless) run past, zero_add,
    ← List.flatMap_assoc] at balance
  exact Multiset.coe_eq_coe.mp balance

theorem successes_settled {arg : Int} {events : List UserEvent} {s : Pipe}
    (run : Run (pipeline .writer) NoSigint (programStart arg) events s) (past : 8 < s.main.phase) :
    (events.flatMap UserEvent.successes).Perm
      ((events.flatMap UserEvent.settlements).flatMap fun (item, failures) => if failures = maxRetry then [] else [item]) := by
  have balance := successes_balance run
  rw [sinks_held_idle _ (by intro pc jobless; cases pc <;> first | rfl | cases jobless) run past, zero_add,
    ← List.flatMap_assoc] at balance
  exact Multiset.coe_eq_coe.mp balance

theorem settled_items (events : List UserEvent) :
    (events.flatMap UserEvent.settlements).map Prod.fst = events.flatMap (UserEvent.outputs .writer) := by
  rw [List.map_flatMap]
  congr 1
  funext event
  cases event <;> rfl

theorem unfailed_settled (events : List UserEvent) (unfailed : ∀ entry ∈ events.flatMap UserEvent.settlements, entry.2 = 0) :
    ((events.flatMap UserEvent.settlements).flatMap fun (item, failures) => if failures = maxRetry then [] else [item]) =
      events.flatMap (UserEvent.outputs .writer) := by
  rw [← settled_items, List.map_eq_flatMap]
  refine List.flatMap_congr fun entry member => ?_
  simp [unfailed entry member, maxRetry]

structure Settled (events : List UserEvent) (sent : Item) (failures : Nat) : Prop where
  attempts : (events.flatMap UserEvent.failures).count sent = failures
  success : (events.flatMap UserEvent.successes).count sent = if failures = maxRetry then 0 else 1
  report : (events.flatMap UserEvent.lostReports).count sent = if failures = maxRetry then 1 else 0

theorem writer_settles {arg : Int} {events : List UserEvent} {s : Pipe} (positive : 1 ≤ arg) (small : arg < intMax)
    (run : Run (pipeline .writer) NoSigint (programStart arg) events s) (past : 8 < s.main.phase) (item : Item)
    (made : item ∈ events.flatMap UserEvent.puts) : ∃ failures, Settled events (item.changed toLower) failures := by
  have drained := pipeline_drained run (by omega) small past
  have numbers : ((events.flatMap (UserEvent.outputs .writer)).map Item.id).Nodup := by
    have same := congrArg (Multiset.map Item.id) drained
    simp only [Multiset.map_coe, List.map_map] at same
    have ids : (events.flatMap UserEvent.puts).map (Item.id ∘ Item.changed Prog.writer.change) = List.range s.made :=
      (made_inv_run positive run).numbered
    rw [ids] at same
    exact (Multiset.coe_eq_coe.mp same).nodup_iff.mpr List.nodup_range
  have unique : ((events.flatMap UserEvent.settlements).map Prod.fst).Nodup := by
    rw [settled_items]
    exact numbers.of_map
  have settled : item.changed toLower ∈ (events.flatMap UserEvent.settlements).map Prod.fst := by
    rw [settled_items, (Multiset.coe_eq_coe.mp drained).mem_iff]
    exact List.mem_map_of_mem made
  obtain ⟨⟨sent, failures⟩, entry, rfl⟩ := List.mem_map.mp settled
  have count := fun gives own => count_flat_map_own (events.flatMap UserEvent.settlements) gives own unique (_, failures) entry
  have reported := lost_reports_balance run
  rw [← List.flatMap_assoc] at reported
  refine ⟨failures, ?_, ?_, ?_⟩
  · rw [(failures_settled run past).count_eq, count _ (by simp)]
    simp
  · rw [(successes_settled run past).count_eq, count]
    · by_cases last : failures = maxRetry <;> simp [last]
    · intro entry key given
      split at given
      simp_all
  · rw [(Multiset.coe_eq_coe.mp reported).count_eq, count]
    · by_cases last : failures = maxRetry <;> simp [last]
    · intro entry key given
      split at given
      simp_all

end MyDev
