import MyDev.PipelineSource

set_option autoImplicit false

namespace MyDev

open Library

inductive Outcome where
  | failure
  | text (data : Bytes)
  | terminator
deriving DecidableEq, Repr

def outcomeOf (res : Int) (tmp : Bytes) : Outcome :=
  if res ≠ 0 then .failure else if cstr tmp = terminatorText then .terminator else .text (cstr tmp)

def Outcome.data : Outcome → Option Bytes
  | .text data => some data
  | _ => none

def UserEvent.outcomes : UserEvent → List Outcome
  | .outcome res tmp => [outcomeOf res tmp]
  | _ => []

def UserEvent.putData (event : UserEvent) : List Bytes := event.puts.map Item.data

def UserEvent.prints : UserEvent → List Bytes
  | .printed item => [item.data]
  | _ => []

-- What a Reader started with `arg` is meant to take out of a stream of
-- outcomes: with 0 all strings up to the terminator, otherwise those among
-- the first `arg` reads.
def readerTakes (arg : Int) (stream : List Outcome) : List Bytes :=
  ((if arg = 0 then stream else stream.take arg.toNat).takeWhile (· ≠ .terminator)).filterMap Outcome.data

-- The read whose outcome read_dev has not handled yet, and the reads it has
-- drawn from todo and not handled.
def SourcePc.pending : SourcePc → List Outcome
  | .took res tmp => [outcomeOf res tmp]
  | _ => []

def SourcePc.ahead : SourcePc → Int
  | .read | .inRead | .took _ _ => 1
  | _ => 0

structure Budget (arg : Int) (handled : List Outcome) (s : Pipe) : Prop where
  looping : arg = 0 → s.loop = true
  counting : 0 < arg → s.loop = false ∧ 0 ≤ s.todo ∧ (handled.length : Int) + (s.sources 0).ahead + s.todo = arg

structure Finished (arg : Int) (handled : List Outcome) : Prop where
  within : 0 < arg → (handled.length : Int) ≤ arg
  ended : (∃ before, handled = before ++ [Outcome.terminator] ∧ .terminator ∉ before) ∨
    (.terminator ∉ handled ∧ 0 < arg ∧ (handled.length : Int) = arg)

inductive ReadState (arg : Int) (handled : List Outcome) (s : Pipe) : Prop where
  | reading (going : (s.sources 0).stopped = false) (clean : .terminator ∉ handled) (budget : Budget arg handled s)
  | finished (halted : (s.sources 0).stopped = true) (finish : Finished arg handled)

def ReadInv (arg : Int) (outs : List Outcome) (texts : List Bytes) (s : Pipe) : Prop :=
  ∃ handled, outs = handled ++ (s.sources 0).pending ∧ texts = handled.filterMap Outcome.data ∧ ReadState arg handled s

theorem stopped_pending (pc : SourcePc) (halted : pc.stopped = true) : pc.pending = [] := by
  cases pc <;> first | rfl | cases halted

theorem read_state_keep (arg : Int) (handled : List Outcome) (s next : Pipe) (todo : next.todo = s.todo)
    (loop : next.loop = s.loop) (stopped : (next.sources 0).stopped = (s.sources 0).stopped)
    (ahead : (next.sources 0).ahead = (s.sources 0).ahead) (state : ReadState arg handled s) : ReadState arg handled next := by
  cases state with
  | reading going clean budget =>
      refine .reading (stopped.trans going) clean ⟨fun zero => loop.trans (budget.looping zero), fun positive => ?_⟩
      rw [todo, loop, ahead]
      exact budget.counting positive
  | finished halted finish => exact .finished (stopped.trans halted) finish

theorem going_budget (arg : Int) (handled : List Outcome) (s : Pipe) (state : ReadState arg handled s)
    (going : (s.sources 0).stopped = false) : .terminator ∉ handled ∧ Budget arg handled s := by
  cases state with
  | reading _ clean budget => exact ⟨clean, budget⟩
  | finished halted => rw [going] at halted; cases halted

theorem read_state_handled (arg : Int) (handled : List Outcome) (outcome : Outcome) (s next : Pipe)
    (todo : next.todo = s.todo) (loop : next.loop = s.loop) (going : (next.sources 0).stopped = false)
    (before : (s.sources 0).ahead = 1) (after : (next.sources 0).ahead = 0) (other : outcome ≠ .terminator)
    (clean : .terminator ∉ handled) (budget : Budget arg handled s) : ReadState arg (handled ++ [outcome]) next := by
  refine .reading going (by simp [clean, other.symm]) ⟨fun zero => loop.trans (budget.looping zero), fun positive => ?_⟩
  obtain ⟨counted, left, total⟩ := budget.counting positive
  rw [loop, todo, after]
  refine ⟨counted, left, ?_⟩
  rw [before] at total
  simp only [List.length_append, List.length_cons, List.length_nil]
  omega

theorem read_inv_source (arg : Int) (outs : List Outcome) (texts : List Bytes) (s next : Pipe) (out : List UserEvent)
    (nonneg : 0 ≤ arg) (inv : ReadInv arg outs texts s) (move : SourceMove .reader s 0 next out) :
    ReadInv arg (outs ++ out.flatMap UserEvent.outcomes) (texts ++ out.flatMap UserEvent.putData) next := by
  obtain ⟨handled, rfl, rfl, state⟩ := inv
  cases move with
  | acquire point =>
      exact ⟨handled, by simp [Pipe.setSource, point, SourcePc.pending], by simp,
        read_state_keep arg handled s _ rfl rfl (by simp [Pipe.setSource, point, SourcePc.stopped])
          (by simp [Pipe.setSource, point, SourcePc.ahead]) state⟩
  | @release stop point =>
      exact ⟨handled, by simp [Pipe.setSource, point, SourcePc.pending], by simp,
        read_state_keep arg handled s _ rfl rfl (by cases stop <;> simp [Pipe.setSource, point, SourcePc.stopped])
          (by simp [Pipe.setSource, point, SourcePc.ahead]) state⟩
  | @rest stop point =>
      exact ⟨handled, by cases stop <;> simp [Pipe.setSource, point, SourcePc.pending], by simp,
        read_state_keep arg handled s _ rfl rfl (by simp [Pipe.setSource, point, rest_stopped])
          (by cases stop <;> simp [Pipe.setSource, point, SourcePc.ahead]) state⟩
  | create role => cases role
  | spent point empty =>
      obtain ⟨clean, budget⟩ := going_budget arg handled s state (by rw [point]; rfl)
      refine ⟨handled, by simp [Pipe.setSource, Pipe.drawn, point, SourcePc.pending], by simp, .finished ?_ ?_⟩
      · simp [Pipe.setSource, SourcePc.stopped]
      have positive : 0 < arg := by
        rcases Int.lt_or_eq_of_le nonneg with positive | zero
        · exact positive
        · simp [Pipe.tmpTodo, budget.looping zero.symm] at empty
      obtain ⟨counted, left, total⟩ := budget.counting positive
      simp only [Pipe.tmpTodo, counted, Bool.false_eq_true, if_false] at empty
      simp only [point, SourcePc.ahead] at total
      exact ⟨fun _ => by omega, .inr ⟨clean, positive, by omega⟩⟩
  | ask _ point left =>
      obtain ⟨clean, budget⟩ := going_budget arg handled s state (by rw [point]; rfl)
      refine ⟨handled, by simp [Pipe.setSource, Pipe.drawn, point, SourcePc.pending], by simp, .reading ?_ clean ?_⟩
      · simp [Pipe.setSource, SourcePc.stopped]
      refine ⟨budget.looping, fun positive => ?_⟩
      obtain ⟨counted, _, total⟩ := budget.counting positive
      simp only [Pipe.tmpTodo, counted, Bool.false_eq_true, if_false] at left
      simp only [point, SourcePc.ahead] at total
      simp only [Pipe.setSource, Pipe.drawn, Function.update_self, counted, Bool.false_eq_true, if_false, SourcePc.ahead]
      exact ⟨trivial, by omega, by omega⟩
  | @failed res tmp _ _ _ point failure signalled =>
      obtain ⟨clean, budget⟩ := going_budget arg handled s state (by rw [point]; rfl)
      obtain ⟨_, rfl, _⟩ := signal_r_spec _ _ _ signalled
      refine ⟨handled ++ [outcomeOf res tmp], by simp [Pipe.setSource, point, SourcePc.pending],
        by simp [outcomeOf, failure, Outcome.data], ?_⟩
      exact read_state_handled arg handled _ s _ rfl rfl (by simp [Pipe.setSource, SourcePc.stopped])
        (by rw [point]; rfl) (by simp [Pipe.setSource, SourcePc.ahead]) (by simp [outcomeOf, failure]) clean budget
  | @last res tmp _ _ _ point success found signalled =>
      obtain ⟨clean, budget⟩ := going_budget arg handled s state (by rw [point]; rfl)
      obtain ⟨_, rfl, _⟩ := signal_r_spec _ _ _ signalled
      have heard : outcomeOf res tmp = .terminator := by simp [outcomeOf, success, found]
      refine ⟨handled ++ [.terminator], by simp [Pipe.setSource, point, SourcePc.pending, heard, UserEvent.outcomes],
        by simp [Outcome.data, UserEvent.putData, UserEvent.puts], .finished ?_ ?_⟩
      · simp [Pipe.setSource, SourcePc.stopped]
      refine ⟨fun positive => ?_, .inl ⟨handled, rfl, clean⟩⟩
      obtain ⟨_, left, total⟩ := budget.counting positive
      simp only [point, SourcePc.ahead] at total
      simp only [List.length_append, List.length_cons, List.length_nil]
      omega
  | @receive res tmp _ _ _ point success data signalled =>
      obtain ⟨clean, budget⟩ := going_budget arg handled s state (by rw [point]; rfl)
      obtain ⟨_, rfl, _⟩ := signal_r_spec _ _ _ signalled
      have heard : outcomeOf res tmp = .text (cstr tmp) := by simp [outcomeOf, success, data]
      refine ⟨handled ++ [.text (cstr tmp)], by simp [Pipe.setSource, point, SourcePc.pending, heard, UserEvent.outcomes],
        by simp [Outcome.data, UserEvent.putData, UserEvent.puts], ?_⟩
      exact read_state_handled arg handled _ s _ rfl rfl (by simp [Pipe.setSource, SourcePc.stopped])
        (by rw [point]; rfl) (by simp [Pipe.setSource, SourcePc.ahead]) (by simp) clean budget

theorem finished_takes (arg : Int) (handled later : List Outcome) (nonneg : 0 ≤ arg) (finish : Finished arg handled) :
    readerTakes arg (handled ++ later) = handled.filterMap Outcome.data := by
  have prefixed : ∃ rest, (if arg = 0 then handled ++ later else (handled ++ later).take arg.toNat) = handled ++ rest := by
    split
    · exact ⟨later, rfl⟩
    · have within := finish.within (by omega)
      refine ⟨later.take (arg.toNat - handled.length), ?_⟩
      rw [List.take_append, List.take_of_length_le (by omega)]
  obtain ⟨rest, cut⟩ := prefixed
  have passes : ∀ outs : List Outcome, .terminator ∉ outs → ∀ outcome ∈ outs, decide (outcome ≠ .terminator) = true := by
    intro outs clean outcome member
    have other : outcome ≠ .terminator := fun same => clean (same ▸ member)
    simpa using other
  unfold readerTakes
  rcases finish.ended with ⟨before, rfl, clean⟩ | ⟨clean, positive, full⟩
  · rw [cut, List.append_assoc, List.takeWhile_append_of_pos (passes before clean)]
    simp [Outcome.data]
  · have whole : (handled ++ later).take arg.toNat = handled := by
      rw [List.take_append_of_le_length (by omega), List.take_of_length_le (by omega)]
    rw [if_neg (by omega), whole, List.takeWhile_eq_self_iff.mpr (passes handled clean)]

theorem finished_last (arg : Int) (handled before after : List Outcome) (finish : Finished arg handled)
    (split : handled = before ++ .terminator :: after) : after = [] := by
  rcases finish.ended with ⟨early, same, clean⟩ | ⟨clean, _, _⟩
  · exact only_last (· = .terminator) early before after _ _ (fun outcome member same => clean (same ▸ member)) rfl
      (same.symm.trans split)
  · simp [split] at clean

section Runs

variable {arg : Int} {events : List UserEvent} {s : Pipe}

theorem reader_single (run : Run (pipeline .reader) NoSigint (programStart arg) events s) (i : Nat)
    (alive : s.sources i ≠ .off) : i = 0 := by
  have inside : i < 1 := by
    refine live_inside run .source i ?_
    simp only [Pipe.life]
    cases pc : s.sources i <;> simp_all [SourcePc.life]
  omega

theorem read_inv_run (nonneg : 0 ≤ arg) (run : Run (pipeline .reader) NoSigint (programStart arg) events s) :
    ReadInv arg (events.flatMap UserEvent.outcomes) (events.flatMap UserEvent.putData) s := by
  refine Run.invariant (fun events s => ReadInv arg (events.flatMap UserEvent.outcomes) (events.flatMap UserEvent.putData) s)
    ⟨[], rfl, rfl, .reading rfl (by simp) ⟨fun zero => by simp [programStart, zero], fun positive => ?_⟩⟩ ?_ run
  · refine ⟨by simp [programStart]; omega, nonneg, ?_⟩
    simp [programStart, SourcePc.ahead]
  intro events s action next out before inv quiet stepped
  rw [List.flatMap_append, List.flatMap_append]
  have move := pipe_moves .reader s next action out stepped
  cases source_effect .reader s next action out (join_inv_run before) (calm_run before) quiet move with
  | still sources todo loop _ silent =>
      have unheard : out.flatMap UserEvent.outcomes = [] :=
        flat_map_silent _ UserEvent.bySource (by intro event mine; cases event <;> first | rfl | cases mine) out silent
      have unput : out.flatMap UserEvent.putData = [] :=
        flat_map_silent _ UserEvent.bySource (by intro event mine; cases event <;> first | rfl | cases mine) out silent
      obtain ⟨handled, outs, texts, state⟩ := inv
      rw [unheard, unput, List.append_nil, List.append_nil]
      exact ⟨handled, by rw [sources, outs], texts, read_state_keep arg handled s next todo loop (by rw [sources])
        (by rw [sources]) state⟩
  | @born i unborn created silent =>
      obtain ⟨handled, outs, texts, state⟩ := inv
      subst created silent
      simp only [List.flatMap_nil, List.append_nil]
      by_cases here : i = 0
      · subst here
        exact ⟨handled, by simp [Pipe.setSource, Pipe.setMain, outs, unborn, SourcePc.pending], texts,
          read_state_keep arg handled s _ rfl rfl (by simp [Pipe.setSource, Pipe.setMain, unborn, SourcePc.stopped])
            (by simp [Pipe.setSource, Pipe.setMain, unborn, SourcePc.ahead]) state⟩
      · have same : ((s.setSource i .lock).setMain (.spawn .source (i + 1))).sources 0 = s.sources 0 := by
          simp [Pipe.setSource, Pipe.setMain, Ne.symm here]
        exact ⟨handled, by rw [same, outs], texts, read_state_keep arg handled s _ rfl rfl (by rw [same]) (by rw [same]) state⟩
  | @works i move =>
      have here := reader_single before i (by cases move <;> simp [*])
      subst here
      exact read_inv_source arg _ _ s next out nonneg inv move
  | @asks i _ point asked silent =>
      have here := reader_single before i (by simp [point])
      obtain ⟨handled, outs, texts, state⟩ := inv
      subst here asked silent
      exact ⟨handled, by simp [Pipe.setSource, outs, point, SourcePc.pending], by simp [texts],
        read_state_keep arg handled s _ rfl rfl (by simp [Pipe.setSource, point, SourcePc.stopped])
          (by simp [Pipe.setSource, point, SourcePc.ahead]) state⟩
  | @hears i res got point heard observed =>
      have here := reader_single before i (by simp [point])
      obtain ⟨handled, outs, texts, state⟩ := inv
      subst here heard observed
      exact ⟨handled, by simp [Pipe.setSource, outs, point, SourcePc.pending, UserEvent.outcomes],
        by simp [texts, UserEvent.putData, UserEvent.puts],
        read_state_keep arg handled s _ rfl rfl (by simp [Pipe.setSource, point, SourcePc.stopped])
          (by simp [Pipe.setSource, point, SourcePc.ahead]) state⟩

theorem terminator_silences (nonneg : 0 ≤ arg) (run : Run (pipeline .reader) NoSigint (programStart arg) events s)
    (heard : .terminator ∈ events.flatMap UserEvent.outcomes) (t : Tid) (dim : Nat) (next : Pipe) :
    s.request .reader t ≠ some (.myRead dim, next) := by
  intro asked
  cases request_moves .reader s next t _ asked with
  | @read i _ point =>
      have here := reader_single run i (by simp [point])
      subst here
      obtain ⟨handled, outs, _, state⟩ := read_inv_run nonneg run
      have clean := (going_budget arg handled s state (by rw [point]; rfl)).1
      rw [outs, point] at heard
      simp [SourcePc.pending, clean] at heard

theorem reader_finished (nonneg : 0 ≤ arg) (small : arg < intMax)
    (run : Run (pipeline .reader) NoSigint (programStart arg) events s) (past : 8 < s.main.phase) :
    Finished arg (events.flatMap UserEvent.outcomes) ∧
      events.flatMap UserEvent.putData = (events.flatMap UserEvent.outcomes).filterMap Outcome.data := by
  have halted := source_stopped nonneg small run (by simp only [Stage.joinPhase]; omega)
  obtain ⟨handled, outs, texts, state⟩ := read_inv_run nonneg run
  rw [stopped_pending _ halted, List.append_nil] at outs
  rw [outs]
  cases state with
  | reading going => rw [halted] at going; cases going
  | finished _ finish => exact ⟨finish, texts⟩

theorem prints_eq (events : List UserEvent) :
    events.flatMap UserEvent.prints = (events.flatMap (UserEvent.outputs .reader)).map Item.data := by
  rw [List.map_flatMap]
  congr 1
  funext event
  cases event <;> rfl

theorem printed_multiset (nonneg : 0 ≤ arg) (small : arg < intMax)
    (run : Run (pipeline .reader) NoSigint (programStart arg) events s) (past : 8 < s.main.phase) :
    ((events.flatMap UserEvent.prints : List Bytes) : Multiset Bytes) =
      ((events.flatMap UserEvent.putData).map (inPlace toUpper) : List Bytes) := by
  have drained := congrArg (Multiset.map Item.data) (pipeline_drained run nonneg small past)
  simp only [Multiset.map_coe, List.map_map] at drained
  rw [prints_eq, drained]
  unfold UserEvent.putData
  rw [← List.map_flatMap, List.map_map]
  rfl

theorem reader_prints_what_it_took (nonneg : 0 ≤ arg) (small : arg < intMax)
    (run : Run (pipeline .reader) NoSigint (programStart arg) events s) (past : Stage.sink.joinPhase < s.main.phase) :
    (∀ later, events.flatMap UserEvent.putData = readerTakes arg (events.flatMap UserEvent.outcomes ++ later)) ∧
      (0 < arg → ((events.flatMap UserEvent.outcomes).length : Int) ≤ arg) ∧
      (∀ before after, events.flatMap UserEvent.outcomes = before ++ .terminator :: after →
        after = [] ∧ ∀ t dim next, s.request .reader t ≠ some (.myRead dim, next)) ∧
      ((events.flatMap UserEvent.prints : List Bytes) : Multiset Bytes) =
        ((events.flatMap UserEvent.putData).map (inPlace toUpper) : List Bytes) := by
  obtain ⟨finish, texts⟩ := reader_finished nonneg small run past
  refine ⟨fun later => ?_, finish.within, fun before after split => ⟨finished_last arg _ before after finish split, ?_⟩,
    printed_multiset nonneg small run past⟩
  · rw [finished_takes arg _ later nonneg finish, texts]
  · exact terminator_silences nonneg run (by simp [split])

end Runs

def steps (t : Tid) (n : Nat) : List UserAction := List.replicate n (.go t {})

def readSchedule (res : Int) (got : Bytes) : List UserAction :=
  steps (.source 0) 2 ++ [UserAction.call (.source 0), .ret (.source 0) res got] ++ steps (.source 0) 3

def readerSchedule : List UserAction :=
  steps .main 2 ++ [UserAction.call .main, .ret .main 0 []] ++ steps .main 8 ++ readSchedule 0 [97, 98, 0] ++ readSchedule 1 [] ++
    readSchedule 0 [48, 48, 0] ++ steps .main 5 ++ steps (.elaborate 0) 10 ++ steps .main 5 ++ steps (.sink 0) 9 ++ steps .main 2

def noSigint (_ : Pipe) : UserAction → Bool
  | .sigint _ => false
  | _ => true

theorem no_sigint_sound (s : Pipe) (action : UserAction) (quiet : noSigint s action = true) : NoSigint s action := by
  cases action <;> trivial

theorem reader_prints_what_it_took_one_string : ∃ events s, Run (pipeline .reader) NoSigint (programStart 3) events s ∧
    Stage.sink.joinPhase < s.main.phase ∧
    events.flatMap UserEvent.outcomes = [.text [97, 98], .failure, .terminator] ∧
    events.flatMap UserEvent.prints = [[65, 66]] ∧
    ((events.flatMap UserEvent.prints : List Bytes) : Multiset Bytes) =
      ((events.flatMap UserEvent.putData).map (inPlace toUpper) : List Bytes) := by
  obtain ⟨events, s, run, seen⟩ := exec_reaches (pipeline .reader) noSigint NoSigint no_sigint_sound (programStart 3)
    readerSchedule
    (fun s events => decide (Stage.sink.joinPhase < s.main.phase) &&
      decide (events.flatMap UserEvent.outcomes = [.text [97, 98], .failure, .terminator]) &&
      decide (events.flatMap UserEvent.prints = [[65, 66]])) (by decide +kernel)
  simp only [Bool.and_eq_true, decide_eq_true_eq] at seen
  obtain ⟨⟨past, outs⟩, prints⟩ := seen
  exact ⟨events, s, run, past, outs, prints, (reader_prints_what_it_took (by decide) (by decide) run past).2.2.2⟩

end MyDev
