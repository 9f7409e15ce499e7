import MyDev.PipelineClose
import MyDev.WriterPipeline

set_option autoImplicit false

namespace MyDev

open Library

theorem flow_order (s next : Pipe) (out : List UserEvent) (buf : Buf) (flow : Flow s next out) :
    out.flatMap (UserEvent.extracted buf) ++ (next.buffer buf).items =
      (s.buffer buf).items ++ out.flatMap (UserEvent.inserted buf) := by
  cases buf with
  | raw => exact flow.raw.symm
  | elaborated => exact flow.elaborated.symm

theorem change_order (s next : Pipe) (action : UserAction) (out : List UserEvent) (buf : Buf)
    (change : BufferChange s next action out buf) (silent : out.flatMap (UserEvent.extracted buf) = []) :
    (out.flatMap (UserEvent.extracted buf) ++ (next.buffer buf).items).Sublist
      ((s.buffer buf).items ++ out.flatMap (UserEvent.inserted buf)) := by
  cases change with
  | flow order =>
      rw [order]
  | init _ fresh =>
      rw [silent, fresh]
      exact List.nil_sublist _
  | close _ closed =>
      rw [silent, closed]
      exact List.sublist_append_left _ _
  | drop _ _ dropped =>
      rw [silent, dropped]
      exact List.nil_sublist _

theorem buffer_order_move (prog : Prog) (s next : Pipe) (action : UserAction) (out : List UserEvent) (buf : Buf)
    (join : JoinInv s) (move : PipeMove prog s action next out) :
    (out.flatMap (UserEvent.extracted buf) ++ (next.buffer buf).items).Sublist
      ((s.buffer buf).items ++ out.flatMap (UserEvent.inserted buf)) := by
  have change := buffer_change prog s next action out buf move
  cases move with
  | source move => exact flow_order s next out buf (source_flow prog s next _ out move).1 ▸ List.Sublist.refl _
  | elaborate move => exact flow_order s next out buf (elaborate_flow prog.change s next _ out move).1 ▸ List.Sublist.refl _
  | sink move => exact flow_order s next out buf (sink_flow prog s next _ out move).1 ▸ List.Sublist.refl _
  | ret move => exact flow_order s next out buf (ret_flow s next _ _ _ out move).1 ▸ List.Sublist.refl _
  | main move =>
      refine change_order s next _ out buf change ?_
      obtain ⟨_, _, silent⟩ := main_jobs prog s next out join move
      cases buf with
      | raw =>
          exact flat_map_silent UserEvent.takes UserEvent.byElaborator
            (by intro event mine; cases event <;> first | rfl | cases mine) out fun event member => (silent event member).1
      | elaborated =>
          exact flat_map_silent UserEvent.picks UserEvent.bySink
            (by intro event mine; cases event <;> first | rfl | cases mine) out fun event member => (silent event member).2
  | hand | call | spuriousR | spuriousE | sigint => exact change_order s _ _ [] buf change rfl

section Runs

variable {prog : Prog} {ok : Pipe → UserAction → Prop} {arg : Int} {events : List UserEvent} {s : Pipe}

theorem buffer_order (buf : Buf) (run : Run (pipeline prog) ok (programStart arg) events s) :
    (events.flatMap (UserEvent.extracted buf) ++ (s.buffer buf).items).Sublist (events.flatMap (UserEvent.inserted buf)) := by
  refine Run.invariant (fun events s => (events.flatMap (UserEvent.extracted buf) ++ (s.buffer buf).items).Sublist
    (events.flatMap (UserEvent.inserted buf))) ?_ ?_ run
  · cases buf <;> exact List.Sublist.refl _
  · intro events s action next out before order _ stepped
    have moved := buffer_order_move prog s next action out buf (join_inv_run before) (pipe_moves prog s next action out stepped)
    rw [List.flatMap_append, List.flatMap_append, List.append_assoc]
    refine (moved.append_left _).trans ?_
    rw [← List.append_assoc]
    exact order.append_right _

theorem picks_order (run : Run (pipeline prog) ok (programStart arg) events s) :
    (events.flatMap UserEvent.picks).Sublist (events.flatMap UserEvent.inserts) :=
  (List.sublist_append_left _ _).trans (buffer_order .elaborated run)

theorem picks_account (run : Run (pipeline prog) ok (programStart arg) events s) :
    ((events.flatMap UserEvent.picks : List Item) : Multiset Item) ≤
      ((events.flatMap UserEvent.puts).map (Item.changed prog.change) : List Item) := by
  have taken : ((events.flatMap UserEvent.takes : List Item) : Multiset Item) ≤ (events.flatMap UserEvent.puts : List Item) :=
    Multiset.coe_le.mpr ((List.sublist_append_left _ _).trans (buffer_order .raw run)).subperm
  calc ((events.flatMap UserEvent.picks : List Item) : Multiset Item)
      ≤ (events.flatMap UserEvent.inserts : List Item) := Multiset.coe_le.mpr (picks_order run).subperm
    _ ≤ (events.flatMap fun event => event.takes.map (Item.changed prog.change) : List Item) := by
        rw [elaborators_balance run]
        exact Multiset.le_add_left _ _
    _ = Multiset.map (Item.changed prog.change) (events.flatMap UserEvent.takes : List Item) := by
        rw [← List.map_flatMap, Multiset.map_coe]
    _ ≤ Multiset.map (Item.changed prog.change) (events.flatMap UserEvent.puts : List Item) := Multiset.map_le_map taken
    _ = _ := Multiset.map_coe _ _

end Runs

def SinkPc.unsettled : SinkPc → Multiset Item
  | .act item _ | .inWrite item _ => {item}
  | .report item i => if i = maxRetry then {item} else 0
  | _ => 0

theorem attempts_balance {ok : Pipe → UserAction → Prop} {arg : Int} {events : List UserEvent} {s : Pipe}
    (run : Run (pipeline .writer) ok (programStart arg) events s) :
    ((events.flatMap UserEvent.picks : List Item) : Multiset Item) =
      held (Prog.writer.max .sink).toNat s.sinks SinkPc.unsettled +
        (events.flatMap fun event => event.successes ++ event.lostReports : List Item) := by
  refine sinks_balance SinkPc.unsettled UserEvent.picks _ ?_ ?_ ?_ run
  · intro pc jobless
    cases pc <;> first | rfl | cases jobless
  · intro event mine
    cases event <;> first | exact ⟨rfl, rfl⟩ | cases mine
  · intro before after out changes bounded
    cases changes with
    | pick | call | refused => simp [SinkPc.unsettled, UserEvent.picks, UserEvent.successes, UserEvent.lostReports]
    | written item i =>
        have left : i ≠ maxRetry := Nat.ne_of_lt bounded
        simp [SinkPc.unsettled, UserEvent.picks, UserEvent.successes, UserEvent.lostReports, left]
    | giveUp item i tried =>
        have last : i = maxRetry := Nat.le_antisymm bounded tried
        simp [SinkPc.unsettled, last]
    | settle item i =>
        by_cases last : i = 5 <;>
          simp [SinkPc.unsettled, UserEvent.picks, UserEvent.successes, UserEvent.lostReports, maxRetry, last]
    | print _ _ role => cases role

theorem put_data_eq (events : List UserEvent) : events.flatMap UserEvent.putData = (events.flatMap UserEvent.puts).map Item.data := by
  rw [List.map_flatMap]
  rfl

theorem prints_account {ok : Pipe → UserAction → Prop} {arg : Int} {events : List UserEvent} {s : Pipe}
    (run : Run (pipeline .reader) ok (programStart arg) events s) :
    ((events.flatMap UserEvent.prints : List Bytes) : Multiset Bytes) ≤
      ((events.flatMap UserEvent.putData).map (inPlace toUpper) : List Bytes) := by
  have printed : ((events.flatMap (UserEvent.outputs .reader) : List Item) : Multiset Item) ≤
      ((events.flatMap UserEvent.puts).map (Item.changed toUpper) : List Item) := by
    refine le_trans ?_ (picks_account run)
    rw [sinks_output_balance run]
    exact Multiset.le_add_left _ _
  have texts := Multiset.map_le_map (f := Item.data) printed
  rw [Multiset.map_coe, Multiset.map_coe, List.map_map] at texts
  rw [prints_eq, put_data_eq, List.map_map]
  exact texts

def SourcePc.unput : SourcePc → List Bytes
  | .took res tmp => (outcomeOf res tmp).data.toList
  | _ => []

def UserEvent.texts (event : UserEvent) : List Bytes := event.outcomes.filterMap Outcome.data

theorem puts_turn (s next : Pipe) (i : Nat) (out : List UserEvent) (move : SourceMove .reader s i next out) :
    ∃ pc, next.sources = Function.update s.sources i pc ∧
      (s.sources i).unput ++ out.flatMap UserEvent.texts = out.flatMap UserEvent.putData ++ pc.unput := by
  cases move with
  | acquire point | spent point | ask _ point | release point =>
      refine ⟨_, rfl, ?_⟩
      rw [point]
      rfl
  | create role => cases role
  | failed _ point failure signalled =>
      obtain ⟨_, rfl, _⟩ := signal_r_spec _ _ _ signalled
      refine ⟨.unlock false, rfl, ?_⟩
      simp [point, SourcePc.unput, outcomeOf, failure, Outcome.data]
  | last _ point success found signalled =>
      obtain ⟨_, rfl, _⟩ := signal_r_spec _ _ _ signalled
      refine ⟨.unlock true, rfl, ?_⟩
      simp [point, SourcePc.unput, outcomeOf, success, found, Outcome.data, UserEvent.texts, UserEvent.outcomes,
        UserEvent.putData, UserEvent.puts]
  | receive _ point success data signalled =>
      obtain ⟨_, rfl, _⟩ := signal_r_spec _ _ _ signalled
      refine ⟨.unlock false, rfl, ?_⟩
      simp [point, SourcePc.unput, outcomeOf, success, data, Outcome.data, UserEvent.texts, UserEvent.outcomes,
        UserEvent.putData, UserEvent.puts]
  | @rest stop point =>
      refine ⟨_, rfl, ?_⟩
      rw [point]
      cases stop <;> rfl

theorem effect_turn (s next : Pipe) (out : List UserEvent) (single : ∀ i, s.sources i ≠ .off → i = 0)
    (effect : SourceEffect .reader s next out) :
    (s.sources 0).unput ++ out.flatMap UserEvent.texts = out.flatMap UserEvent.putData ++ (next.sources 0).unput := by
  cases effect with
  | still sources _ _ _ silent =>
      rw [sources, flat_map_silent UserEvent.texts UserEvent.bySource
          (by intro event mine; cases event <;> first | rfl | cases mine) out silent,
        flat_map_silent UserEvent.putData UserEvent.bySource
          (by intro event mine; cases event <;> first | rfl | cases mine) out silent]
      exact List.append_nil _
  | @born j unborn created silent =>
      subst created silent
      have kept : (Function.update s.sources j .lock 0).unput = (s.sources 0).unput :=
        update_job SourcePc.unput s.sources 0 j .lock (by rw [unborn]; rfl)
      exact (List.append_nil _).trans kept.symm
  | @works i move =>
      have first : i = 0 := single i (by cases move <;> simp_all)
      subst first
      obtain ⟨pc, updated, turn⟩ := puts_turn s next 0 out move
      rw [updated, Function.update_self]
      exact turn
  | @asks i _ point asked silent =>
      subst asked silent
      have kept : (Function.update s.sources i .inRead 0).unput = (s.sources 0).unput :=
        update_job SourcePc.unput s.sources 0 i .inRead (by rw [point]; rfl)
      exact (List.append_nil _).trans kept.symm
  | @hears i res got point heard observed =>
      have first : i = 0 := single i (by simp [point])
      subst first heard observed
      have told : (s.setSource 0 (.took res got)).sources 0 = .took res got := by simp [Pipe.setSource]
      rw [point, told]
      cases found : outcomeOf res got <;>
        simp [SourcePc.unput, UserEvent.texts, UserEvent.outcomes, UserEvent.putData, UserEvent.puts, Outcome.data, found]

-- A SIGINT and its handler do not touch the sources, so what a step does to
-- them is the same as in a run without one.
theorem source_effect_any (prog : Prog) (s next : Pipe) (action : UserAction) (out : List UserEvent) (join : JoinInv s)
    (move : PipeMove prog s action next out) : SourceEffect prog s next out ∨ next.sources = s.sources ∧ out = [] := by
  cases move with
  | source move => exact .inl (.works move)
  | elaborate move =>
      have frame := elaborate_frame prog.change s next _ out move
      refine .inl (.still frame.sources frame.todo frame.loop frame.made ?_)
      cases move <;> simp [UserEvent.bySource]
  | sink move =>
      have frame := sink_frame prog s next _ out move
      refine .inl (.still frame.sources frame.todo frame.loop frame.made ?_)
      cases move <;> simp [UserEvent.bySource]
  | main move => exact .inl (source_effect_main prog s next out join move)
  | hand move => exact .inr ⟨by cases move <;> rfl, rfl⟩
  | call move =>
      cases move with
      | read role point => exact .inl (.asks role point rfl rfl)
      | _ => exact .inr ⟨rfl, rfl⟩
  | ret move =>
      cases move with
      | read point => exact .inl (.hears point rfl rfl)
      | _ => exact .inl (.still rfl rfl rfl rfl (by simp [UserEvent.bySource]))
  | spuriousR | spuriousE | sigint => exact .inr ⟨rfl, rfl⟩

theorem puts_given {ok : Pipe → UserAction → Prop} {arg : Int} {events : List UserEvent} {s : Pipe}
    (run : Run (pipeline .reader) ok (programStart arg) events s) :
    events.flatMap UserEvent.texts = events.flatMap UserEvent.putData ++ (s.sources 0).unput := by
  refine Run.invariant (fun events s =>
    events.flatMap UserEvent.texts = events.flatMap UserEvent.putData ++ (s.sources 0).unput) rfl ?_ run
  intro events s action next out before given _ stepped
  have single : ∀ i, s.sources i ≠ .off → i = 0 := by
    intro i alive
    have inside : i < (Prog.reader.max .source).toNat := by
      refine live_inside before .source i ?_
      simp only [Pipe.life]
      cases pc : s.sources i <;> simp_all [SourcePc.life]
    exact Nat.lt_one_iff.mp inside
  rw [List.flatMap_append, List.flatMap_append, given, List.append_assoc, List.append_assoc]
  congr 1
  rcases source_effect_any .reader s next action out (join_inv_run before) (pipe_moves .reader s next action out stepped) with
    effect | ⟨same, rfl⟩
  · exact effect_turn s next out single effect
  · rw [same]
    exact List.append_nil _

theorem puts_capital {ok : Pipe → UserAction → Prop} {arg : Int} {events : List UserEvent} {s : Pipe}
    (run : Run (pipeline .writer) ok (programStart arg) events s) : ∀ item ∈ events.flatMap UserEvent.puts, Capital item.data := by
  refine Run.invariant (fun events _ => ∀ item ∈ events.flatMap UserEvent.puts, Capital item.data) (by simp) ?_ run
  intro events s action next out before earlier _ stepped item member
  rw [List.flatMap_append, List.mem_append] at member
  rcases member with old | new
  · exact earlier item old
  rcases source_effect_any .writer s next action out (join_inv_run before) (pipe_moves .writer s next action out stepped) with
    effect | ⟨_, rfl⟩
  · cases effect with
    | still _ _ _ _ silent =>
        rw [flat_map_silent UserEvent.puts UserEvent.bySource (by intro event mine; cases event <;> first | rfl | cases mine) out
          silent] at new
        cases new
    | born _ _ silent => rw [silent] at new; cases new
    | works move =>
        cases move with
        | @create rand =>
            rw [List.flatMap_singleton, UserEvent.puts, List.mem_singleton] at new
            rw [new]
            exact gen_data_capital rand
        | receive role | last role | failed role | ask role => cases role
        | _ => cases new
    | asks role => cases role
    | hears _ _ observed => rw [observed] at new; cases new
  · cases new

def Item.upper (item : Item) : Bytes := inPlace toUpper item.data

theorem made_upper {ok : Pipe → UserAction → Prop} {arg : Int} {events : List UserEvent} {s : Pipe}
    (run : Run (pipeline .writer) ok (programStart arg) events s) :
    ((events.flatMap UserEvent.puts).map (Item.changed toLower)).map Item.upper =
      events.flatMap UserEvent.putData := by
  rw [put_data_eq, List.map_map]
  refine List.map_congr_left fun item member => ?_
  exact to_upper_to_lower item.data (puts_capital run item member)

end MyDev
