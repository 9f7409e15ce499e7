import Mathlib.Tactic.Abel
import MyDev.SystemMany

set_option autoImplicit false

namespace MyDev

open Library

def printable : Multiset Bytes →+ Multiset Bytes where
  toFun strings := (strings.filter (· ≠ terminatorText)).map (inPlace toUpper)
  map_zero' := rfl
  map_add' before after := by rw [Multiset.filter_add, Multiset.map_add]

theorem printable_mono (fewer more : Multiset Bytes) (among : fewer ≤ more) : printable fewer ≤ printable more :=
  Multiset.map_le_map (Multiset.filter_le_filter _ among)

theorem texts_heard (events : List UserEvent) :
    events.flatMap UserEvent.texts = (events.flatMap UserEvent.heard).filter (· ≠ terminatorText) := by
  induction events with
  | nil => rfl
  | cons event events ih =>
      rw [List.flatMap_cons, List.flatMap_cons, List.filter_append, ih]
      congr 1
      cases event with
      | outcome res tmp =>
          by_cases failure : res = 0 <;> by_cases found : cstr tmp = terminatorText <;>
            simp [UserEvent.texts, UserEvent.outcomes, UserEvent.heard, outcomeOf, Outcome.data, failure, found]
      | _ => rfl

theorem log_texts (log : List (Option Item × Bytes))
    (entries : ∀ entry ∈ log, entry = (none, terminatorText) ∨ ∃ item, entry = (some item, item.data) ∧ Small item.data) :
    (log.map Prod.snd).filter (· ≠ terminatorText) = (log.filterMap Prod.fst).map Item.data := by
  induction log with
  | nil => rfl
  | cons entry log ih =>
      have rest := ih fun other member => entries other (List.mem_cons_of_mem _ member)
      rcases entries entry List.mem_cons_self with rfl | ⟨item, rfl, small⟩
      · simpa using rest
      · simpa [small_not_terminator item.data small] using rest

-- A string that a my_write has linked into the queue and not answered for is
-- still in the hands of the write_dev that sent it.
theorem flying_unsettled (pc : SinkPc) (task : Pc) : flying (pc.sending, task) ≤ pc.unsettled := by
  cases pc with
  | inWrite item failures =>
      simp only [SinkPc.sending, flying, SinkPc.unsettled]
      split
      · exact le_refl ({item} : Multiset Item)
      · exact Multiset.zero_le _
  | _ => exact Multiset.zero_le _

section Loss

variable {π : Type} [DecidableEq π] {config : Config π} {ok : Sys π Empty → SysAction π Empty → Prop}
  {events : List (SysEvent π Empty)} {s : Sys π Empty}

theorem heard_sublist (p : π) (role : config.prog p = .reader) (run : Run (system config) ok (systemStart config) events s) :
    (heardBy p events ++ s.inHand p).Sublist (takenBy p events) := by
  refine Run.invariant (fun events s => (heardBy p events ++ s.inHand p).Sublist (takenBy p events)) ?_ ?_ run
  · rw [in_hand_elsewhere _ p (by simp [systemStart, programStart])]
    exact List.Sublist.refl _
  · intro events s action next out before earlier _ stepped
    obtain ⟨lost, step, _, _⟩ := hear_step p role before next action out (system_moves config s next action out stepped)
    have kept : (heardBy p out ++ next.inHand p).Sublist (s.inHand p ++ takenBy p out) := by
      rw [step]
      exact (List.sublist_append_right lost _).append_left _
    rw [taken_append, heard_append, List.append_assoc]
    refine (kept.append_left (heardBy p events)).trans ?_
    rw [← List.append_assoc]
    exact earlier.append_right (takenBy p out)

theorem puts_taken (p : π) (role : config.prog p = .reader) (run : Run (system config) ok (systemStart config) events s) :
    ((events.flatMap (SysEvent.ofPipe p)).flatMap UserEvent.putData).Sublist ((takenBy p events).filter (· ≠ terminatorText)) := by
  have own : Run (pipeline .reader) Any (programStart (config.arg p)) (events.flatMap (SysEvent.ofPipe p)) (s.pipes p) :=
    role ▸ system_pipe_any p run
  have given : ((events.flatMap (SysEvent.ofPipe p)).flatMap UserEvent.putData).Sublist
      ((events.flatMap (SysEvent.ofPipe p)).flatMap UserEvent.texts) := puts_given own ▸ List.sublist_append_left _ _
  refine given.trans ?_
  rw [texts_heard]
  exact ((List.sublist_append_left _ _).trans (heard_sublist p role run)).filter _

theorem reader_prints (p : π) (role : config.prog p = .reader) (run : Run (system config) ok (systemStart config) events s) :
    ((events.flatMap (SysEvent.ofPipe p)).flatMap UserEvent.prints : Multiset Bytes) ≤ printable (takenBy p events) := by
  have own : Run (pipeline .reader) Any (programStart (config.arg p)) (events.flatMap (SysEvent.ofPipe p)) (s.pipes p) :=
    role ▸ system_pipe_any p run
  exact (prints_account own).trans (Multiset.map_le_map (Multiset.coe_le.mpr (puts_taken p role run).subperm))

theorem appended_account (p : π) (role : config.prog p = .writer) (run : Run (system config) ok (systemStart config) events s) :
    ((events.flatMap (SysEvent.appendedItems p) : List Item) : Multiset Item) ≤
      (((events.flatMap (SysEvent.ofPipe p)).flatMap UserEvent.puts).map (Item.changed toLower) : List Item) := by
  have own : Run (pipeline .writer) Any (programStart (config.arg p)) (events.flatMap (SysEvent.ofPipe p)) (s.pipes p) :=
    role ▸ system_pipe_any p run
  refine le_trans ?_ (picks_account own)
  rw [appended_balance p run, attempts_balance own, role]
  refine add_le_add (Finset.sum_le_sum fun i _ => flying_unsettled ((s.pipes p).sinks i) _) ?_
  refine Multiset.coe_le.mpr (List.Sublist.subperm (List.Sublist.flatMap_right _ fun event _ => ?_))
  exact List.sublist_append_left _ _

theorem sent_texts (p : π) (role : config.prog p = .writer) (run : Run (system config) ok (systemStart config) events s) :
    printable (sentBy p events) = Multiset.map Item.upper (events.flatMap (SysEvent.appendedItems p) : List Item) := by
  have texts : (sentBy p events).filter (· ≠ terminatorText) = (events.flatMap (SysEvent.appendedItems p)).map Item.data := by
    rw [sent_appended p run, log_texts _ (appended_text p role run), appended_items_eq]
  change Multiset.map (inPlace toUpper) (Multiset.filter (· ≠ terminatorText) (sentBy p events : Multiset Bytes)) = _
  rw [Multiset.filter_coe, texts, Multiset.map_coe, Multiset.map_coe, List.map_map]
  rfl

theorem writer_sends (p : π) (role : config.prog p = .writer) (run : Run (system config) ok (systemStart config) events s) :
    printable (sentBy p events) ≤ ((events.flatMap (SysEvent.ofPipe p)).flatMap UserEvent.putData : Multiset Bytes) := by
  have own : Run (pipeline .writer) Any (programStart (config.arg p)) (events.flatMap (SysEvent.ofPipe p)) (s.pipes p) :=
    role ▸ system_pipe_any p run
  rw [sent_texts p role run, ← made_upper own, ← Multiset.map_coe]
  exact Multiset.map_le_map (appended_account p role run)

section Fleet

variable [Fintype π]

theorem sent_printable (run : Run (system config) ok (systemStart config) events s) :
    printable (∑ p, (sentBy p events : Multiset Bytes)) =
      ∑ p ∈ Finset.univ.filter (config.prog · = .writer), printable (sentBy p events) := by
  rw [map_sum]
  refine (Finset.sum_filter_of_ne fun p _ sends => ?_).symm
  cases role : config.prog p with
  | writer => rfl
  | reader => exact absurd (by rw [reader_sends_nothing p role run]; rfl) sends

theorem taken_printable (run : Run (system config) ok (systemStart config) events s) :
    printable (∑ p, (takenBy p events : Multiset Bytes)) =
      ∑ p ∈ Finset.univ.filter (config.prog · = .reader), printable (takenBy p events) := by
  rw [map_sum]
  refine (Finset.sum_filter_of_ne fun p _ takes => ?_).symm
  cases role : config.prog p with
  | reader => rfl
  | writer => exact absurd (by rw [writer_takes_nothing p role run]; rfl) takes

theorem printed_at_most_once (run : Run (system config) Any (systemStart config) events s) :
    ∑ p ∈ Finset.univ.filter (config.prog · = .reader),
        ((events.flatMap (SysEvent.ofPipe p)).flatMap UserEvent.prints : Multiset Bytes) ≤
      ∑ p ∈ Finset.univ.filter (config.prog · = .writer),
        ((events.flatMap (SysEvent.ofPipe p)).flatMap UserEvent.putData : Multiset Bytes) := by
  calc ∑ p ∈ Finset.univ.filter (config.prog · = .reader),
        ((events.flatMap (SysEvent.ofPipe p)).flatMap UserEvent.prints : Multiset Bytes)
      ≤ ∑ p ∈ Finset.univ.filter (config.prog · = .reader), printable (takenBy p events) :=
        Finset.sum_le_sum fun p member => reader_prints p (Finset.mem_filter.mp member).2 run
    _ = printable (∑ p, (takenBy p events : Multiset Bytes)) := (taken_printable run).symm
    _ ≤ printable (∑ p, (sentBy p events : Multiset Bytes)) := by
        rw [queue_law run]
        exact printable_mono _ _ (Multiset.le_add_right _ _)
    _ = ∑ p ∈ Finset.univ.filter (config.prog · = .writer), printable (sentBy p events) := sent_printable run
    _ ≤ _ := Finset.sum_le_sum fun p member => writer_sends p (Finset.mem_filter.mp member).2 run

end Fleet

theorem taken_account (p : π) (role : config.prog p = .reader) (run : Run (system config) ok (systemStart config) events s) :
    (takenBy p events : Multiset Bytes) = (heardBy p events : Multiset Bytes) + lostBy p events + (s.inHand p + s.failing p) := by
  refine Run.invariant (fun events s => (takenBy p events : Multiset Bytes) =
    (heardBy p events : Multiset Bytes) + lostBy p events + (s.inHand p + s.failing p)) ?_ ?_ run
  · rw [in_hand_elsewhere _ p (by simp [systemStart, programStart])]
    rfl
  · intro events s action next out before earlier _ stepped
    obtain ⟨lost, step, failed, _⟩ := hear_step p role before next action out (system_moves config s next action out stepped)
    have moved := congrArg (fun log : List Bytes => (log : Multiset Bytes)) step
    have answered := congrArg (fun log : List Bytes => (log : Multiset Bytes)) failed
    simp only [← Multiset.coe_add] at moved answered
    rw [taken_append, heard_append, lost_append, ← Multiset.coe_add, ← Multiset.coe_add, ← Multiset.coe_add, earlier]
    calc (heardBy p events : Multiset Bytes) + lostBy p events + (s.inHand p + s.failing p) + takenBy p out
        = (heardBy p events : Multiset Bytes) + lostBy p events + (s.inHand p + takenBy p out) + s.failing p := by abel
      _ = (heardBy p events : Multiset Bytes) + lostBy p events + (heardBy p out + next.inHand p) + (lost + s.failing p) := by
          rw [moved]
          abel
      _ = _ := by
          rw [answered]
          abel

section Uninterrupted

variable (run : Run (system config) (fun s action => ∀ p, NoSigintOf p s action) (systemStart config) events s)
  (small : ∀ p, 0 ≤ config.arg p ∧ config.arg p < intMax) (past : ∀ p, 8 < (s.pipes p).main.phase)

include run small past

theorem reader_gone (p : π) (role : config.prog p = .reader) : s.inHand p = [] ∧ s.failing p = [] := by
  have calm := system_pipe_calm p role rfl (fun _ _ quiet => quiet p) run
  have stopped := source_stopped (small p).1 (small p).2 calm (Nat.lt_trans (by decide) (past p))
  have elsewhere : (s.pipes p).sources 0 ≠ .inRead := fun reading => by rw [reading] at stopped; cases stopped
  refine ⟨in_hand_elsewhere s p elsewhere, ?_⟩
  have linked := link_run run p (.source 0)
  cases asked : ((s.pipes p).sources 0).waiting with
  | some op => exact absurd (in_read_of_waiting _ op asked) elsewhere
  | none =>
      rw [show (s.pipes p).waiting (.source 0) = none from asked] at linked
      have idle : (s.dev.tasks (.inl (p, .source 0))).pc = .user := linked
      unfold Sys.failing
      rw [idle]
      rfl

theorem reader_accounts (p : π) (role : config.prog p = .reader) :
    printable (takenBy p events) =
      ((events.flatMap (SysEvent.ofPipe p)).flatMap UserEvent.prints : Multiset Bytes) + printable (lostBy p events) := by
  have calm := system_pipe_calm p role rfl (fun _ _ quiet => quiet p) run
  obtain ⟨idle, unfailing⟩ := reader_gone run small past p role
  have heard : printable (heardBy p events) = ((events.flatMap (SysEvent.ofPipe p)).flatMap UserEvent.prints : Multiset Bytes) := by
    have texts : (heardBy p events).filter (· ≠ terminatorText) = (events.flatMap (SysEvent.ofPipe p)).flatMap UserEvent.putData := by
      rw [heardBy, ← texts_heard, (reader_finished (small p).1 (small p).2 calm (past p)).2, List.filterMap_flatMap]
      rfl
    rw [printed_multiset (small p).1 (small p).2 calm (past p), ← texts]
    change Multiset.map (inPlace toUpper) (Multiset.filter (· ≠ terminatorText) (heardBy p events : Multiset Bytes)) = _
    rw [Multiset.filter_coe, Multiset.map_coe]
  rw [taken_account p role run, idle, unfailing, Multiset.coe_nil, add_zero, add_zero, map_add, heard]

theorem writer_answers (p : π) (role : config.prog p = .writer) :
    ((events.flatMap (SysEvent.ofPipe p)).flatMap UserEvent.putData : Multiset Bytes) =
      printable (sentBy p events) +
        (((events.flatMap (SysEvent.ofPipe p)).flatMap UserEvent.lostReports).map Item.upper : List Bytes) := by
  have calm := system_pipe_calm p role rfl (fun _ _ quiet => quiet p) run
  have drained := pipeline_drained calm (small p).1 (small p).2 (past p)
  have picked := sinks_output_balance calm
  have tried := attempts_balance calm
  rw [sinks_held_idle _ (by intro pc jobless; cases pc <;> first | rfl | cases jobless) calm (past p), zero_add] at picked tried
  have settled := Multiset.coe_eq_coe.mpr (List.flatMap_append_perm (events.flatMap (SysEvent.ofPipe p)) UserEvent.successes
    UserEvent.lostReports)
  have appended := appended_successes p (run.weaken fun _ _ quiet => quiet p) (past p)
  have items : (((events.flatMap (SysEvent.ofPipe p)).flatMap UserEvent.puts).map (Item.changed toLower) : Multiset Item) =
      (events.flatMap (SysEvent.appendedItems p) : List Item) +
        ((events.flatMap (SysEvent.ofPipe p)).flatMap UserEvent.lostReports : List Item) := by
    rw [appended, Multiset.coe_add, settled, ← tried, picked, drained]
    rfl
  have texts := congrArg (Multiset.map Item.upper) items
  rw [Multiset.map_add, Multiset.map_coe, made_upper calm] at texts
  rw [sent_texts p role run]
  exact texts

end Uninterrupted

theorem nothing_vanishes [Fintype π] (small : ∀ p, 0 ≤ config.arg p ∧ config.arg p < intMax)
    (run : Run (system config) (fun s action => ∀ p, NoSigintOf p s action) (systemStart config) events s)
    (past : ∀ p, Stage.sink.joinPhase < (s.pipes p).main.phase) :
    ∑ p ∈ Finset.univ.filter (config.prog · = .writer),
        ((events.flatMap (SysEvent.ofPipe p)).flatMap UserEvent.putData : Multiset Bytes) =
      ∑ p ∈ Finset.univ.filter (config.prog · = .reader),
          ((events.flatMap (SysEvent.ofPipe p)).flatMap UserEvent.prints : Multiset Bytes) +
        ∑ p ∈ Finset.univ.filter (config.prog · = .writer),
          (((events.flatMap (SysEvent.ofPipe p)).flatMap UserEvent.lostReports).map Item.upper : Multiset Bytes) +
        ∑ p ∈ Finset.univ.filter (config.prog · = .reader), printable (lostBy p events) +
        printable s.dev.kbFifo.nodes := by
  have written : ∑ p ∈ Finset.univ.filter (config.prog · = .writer), printable (sentBy p events) =
      ∑ p ∈ Finset.univ.filter (config.prog · = .reader), printable (takenBy p events) + printable s.dev.kbFifo.nodes := by
    rw [← sent_printable run, ← taken_printable run, ← map_add, queue_law run]
  rw [Finset.sum_congr rfl fun p member => writer_answers run small past p (Finset.mem_filter.mp member).2,
    Finset.sum_add_distrib, written,
    Finset.sum_congr rfl fun p member => reader_accounts run small past p (Finset.mem_filter.mp member).2,
    Finset.sum_add_distrib]
  abel

end Loss

-- The Writer is interrupted when one of its two strings is in the queue of
-- the device and the other one still in rbuffer.
def cutSchedule : List (SysAction Bool Empty) :=
  usersGo true .main 2 ++ wholeCall true .main 3 ++ usersGo true .main 8 ++ usersGo true (.source 0) 4 ++ usersGo true (.elaborate 0) 7 ++
    usersGo true (.sink 0) 2 ++ wholeCall true (.sink 0) 7 ++ usersGo true (.sink 0) 2 ++ usersGo true (.source 0) 4 ++
    [SysAction.user true (.sigint .main)] ++ usersGo true .main 9 ++ usersGo false .main 2 ++ wholeCall false .main 3 ++ usersGo false .main 12 ++
    usersGo false (.source 0) 2 ++ wholeCall false (.source 0) 7 ++ usersGo false (.source 0) 2 ++ usersGo false (.elaborate 0) 7 ++
    usersGo false (.sink 0) 3

theorem printed_at_most_once_cut_short : ∃ (events : List (SysEvent Bool Empty)) (s : Sys Bool Empty),
    Run (system (onePair 2 0)) Any (systemStart (onePair 2 0)) events s ∧
    (events.flatMap (SysEvent.ofPipe false)).flatMap UserEvent.prints = [[65]] ∧
    (events.flatMap (SysEvent.ofPipe true)).flatMap UserEvent.putData = [[65], [65]] ∧
    ∑ p ∈ Finset.univ.filter ((onePair 2 0).prog · = .reader),
        ((events.flatMap (SysEvent.ofPipe p)).flatMap UserEvent.prints : Multiset Bytes) ≤
      ∑ p ∈ Finset.univ.filter ((onePair 2 0).prog · = .writer),
        ((events.flatMap (SysEvent.ofPipe p)).flatMap UserEvent.putData : Multiset Bytes) := by
  obtain ⟨events, s, run, seen⟩ := exec_reaches_any (system (onePair 2 0)) (systemStart (onePair 2 0)) cutSchedule
    (fun _ events => (events.flatMap (SysEvent.ofPipe false)).flatMap UserEvent.prints = [[65]] ∧
      (events.flatMap (SysEvent.ofPipe true)).flatMap UserEvent.putData = [[65], [65]]) (by decide +kernel)
  obtain ⟨printed, made⟩ : (events.flatMap (SysEvent.ofPipe false)).flatMap UserEvent.prints = [[65]] ∧
      (events.flatMap (SysEvent.ofPipe true)).flatMap UserEvent.putData = [[65], [65]] := by simpa using seen
  exact ⟨events, s, run, printed, made, printed_at_most_once run⟩

-- The Writer gets its first string into the queue and gives the second one
-- up; the Reader is refused the first one.
def unluckySchedule : List (SysAction Bool Empty) :=
  usersGo true .main 2 ++ wholeCall true .main 3 ++ usersGo true .main 8 ++ usersGo true (.source 0) 12 ++ usersGo true .main 5 ++
    usersGo true (.elaborate 0) 17 ++ usersGo true .main 5 ++ usersGo true (.sink 0) 2 ++ wholeCall true (.sink 0) 7 ++
    usersGo true (.sink 0) 5 ++ (List.replicate 5 (failingCall true (.sink 0) 1)).flatten ++ usersGo true (.sink 0) 8 ++
    usersGo true .main 2 ++ wholeCall true .main 7 ++ usersGo false .main 2 ++ wholeCall false .main 3 ++ usersGo false .main 8 ++
    usersGo false (.source 0) 2 ++ failingCall false (.source 0) 4 ++ usersGo false (.source 0) 5 ++ wholeCall false (.source 0) 7 ++
    usersGo false (.source 0) 3 ++ usersGo false .main 5 ++ usersGo false (.elaborate 0) 3 ++ usersGo false .main 5 ++ usersGo false (.sink 0) 4 ++
    usersGo false .main 2

theorem nothing_vanishes_unlucky : ∃ (events : List (SysEvent Bool Empty)) (s : Sys Bool Empty),
    Run (system (onePair 2 2)) (fun s action => ∀ p, NoSigintOf p s action) (systemStart (onePair 2 2)) events s ∧
    ((events.flatMap (SysEvent.ofPipe true)).flatMap UserEvent.lostReports).map Item.upper = [[65]] ∧ lostBy false events = [[97]] ∧
    ∑ p ∈ Finset.univ.filter ((onePair 2 2).prog · = .writer),
        ((events.flatMap (SysEvent.ofPipe p)).flatMap UserEvent.putData : Multiset Bytes) =
      ∑ p ∈ Finset.univ.filter ((onePair 2 2).prog · = .reader),
          ((events.flatMap (SysEvent.ofPipe p)).flatMap UserEvent.prints : Multiset Bytes) +
        ∑ p ∈ Finset.univ.filter ((onePair 2 2).prog · = .writer),
          (((events.flatMap (SysEvent.ofPipe p)).flatMap UserEvent.lostReports).map Item.upper : Multiset Bytes) +
        ∑ p ∈ Finset.univ.filter ((onePair 2 2).prog · = .reader), printable (lostBy p events) +
        printable s.dev.kbFifo.nodes := by
  obtain ⟨events, s, run, seen⟩ := exec_reaches (system (onePair 2 2)) noSigintOf (fun s action => ∀ p, NoSigintOf p s action)
    (fun s action quiet p => no_sigint_of_sound p s action quiet) (systemStart (onePair 2 2)) unluckySchedule
    (fun s events => ((events.flatMap (SysEvent.ofPipe true)).flatMap UserEvent.lostReports).map Item.upper = [[65]] ∧
      lostBy false events = [[97]] ∧ ∀ p, Stage.sink.joinPhase < (s.pipes p).main.phase) (by decide +kernel)
  obtain ⟨given, refused, past⟩ :
      ((events.flatMap (SysEvent.ofPipe true)).flatMap UserEvent.lostReports).map Item.upper = [[65]] ∧ lostBy false events = [[97]] ∧
      ∀ p, Stage.sink.joinPhase < (s.pipes p).main.phase := of_decide_eq_true seen
  exact ⟨events, s, run, given, refused, nothing_vanishes (by decide) run past⟩

end MyDev
