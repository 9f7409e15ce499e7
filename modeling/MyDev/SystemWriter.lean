import MyDev.SystemAppend

set_option autoImplicit false

namespace MyDev

open Library

theorem push_text (pipe : Pipe) (data : WriterData pipe) (t : Tid) (buf mem : Bytes)
    (waits : pipe.waiting t = some (.myWrite buf)) :
    (t = .main ∧ pipe.sending t = none ∧ cstr (buf ++ mem) = terminatorText) ∨
      ∃ i item, t = .sink i ∧ pipe.sending t = some item ∧ cstr (buf ++ mem) = item.data ∧ Small item.data := by
  cases waits_cases pipe t _ waits with
  | done =>
      refine .inl ⟨rfl, rfl, ?_⟩
      rw [List.append_assoc]
      exact cstr_append_nul terminatorText mem (by decide)
  | @write i failures item point =>
      have small : Small item.data := by
        have spelt := data.sinks i
        rwa [point] at spelt
      refine .inr ⟨i, item, rfl, by simp [Pipe.sending, point, SinkPc.sending], ?_, small⟩
      rw [List.append_assoc]
      exact cstr_append_nul item.data mem (letters_clean 97 121 _ small (by decide))

def MainPc.closing : MainPc → Bool
  | .doneCheck _ | .closeDev | .inClose | .exited => true
  | _ => false

theorem closing_kept (prog : Prog) (s next : Pipe) (action : UserAction) (out : List UserEvent)
    (move : PipeMove prog s action next out) (closing : s.main.closing = true) : next.main.closing = true := by
  cases move with
  | source move => rwa [(source_frame prog s next _ out move).main]
  | elaborate move => rwa [(elaborate_frame prog.change s next _ out move).main]
  | sink move => rwa [(sink_frame prog s next _ out move).main]
  | main move =>
      cases move with
      | doneCheck => rfl
      | boot point | ready point | counts point | init point | create point | spawned point | join point | joined point
      | relAcquire point | relSet point | relUnlock point | doneOver point =>
          rw [point] at closing
          cases closing
  | hand move => rwa [(hand_frame s next _ move).main]
  | call move =>
      cases move with
      | openDev point | done point => rw [point] at closing; cases closing
      | closeDev => rfl
      | read | write => exact closing
  | ret move =>
      cases move with
      | openDev point | done point => rw [point] at closing; cases closing
      | closeDev => rfl
      | read | written | refused => exact closing
  | spuriousR | spuriousE | sigint => exact closing

theorem closing_past (pc : MainPc) (closing : pc.closing = true) : 8 < pc.phase := by
  cases pc <;> simp_all [MainPc.closing, MainPc.phase]

section Writer

variable {π κ : Type} [DecidableEq π] [DecidableEq κ] {config : Config π} {ok : Sys π κ → SysAction π κ → Prop}
  {events : List (SysEvent π κ)} {s : Sys π κ}

theorem appended_text (p : π) (role : config.prog p = .writer) (run : Run (system config) ok (systemStart config) events s) :
    ∀ entry ∈ events.flatMap (SysEvent.appends p),
      entry = (none, terminatorText) ∨ ∃ item, entry = (some item, item.data) ∧ Small item.data := by
  refine Run.invariant (fun events _ => ∀ entry ∈ events.flatMap (SysEvent.appends p),
    entry = (none, terminatorText) ∨ ∃ item, entry = (some item, item.data) ∧ Small item.data) (by simp) ?_ run
  intro events s action next out before earlier _ stepped entry member
  rw [List.flatMap_append] at member
  rcases List.mem_append.mp member with old | new
  · exact earlier entry old
  cases append_effect config s next action p out (link_run before) (system_moves config s next action out stepped) with
  | nothing silent => rw [silent] at new; cases new
  | append mem _ waits _ _ _ _ appended =>
      have data : WriterData (s.pipes p) := by
        have run := system_pipe_any p before
        rw [role] at run
        exact writer_data_run run
      rw [appended, List.mem_singleton] at new
      rcases push_text _ data _ _ mem waits with ⟨_, none, text⟩ | ⟨_, item, _, sends, text, small⟩
      · exact .inl (by rw [new, none, text])
      · exact .inr ⟨item, by rw [new, sends, text], small⟩

-- Once the terminator is in the queue main is on its way out, or still in the
-- my_write that put it there.
def Sealed (s : Sys π κ) (p : π) : Prop :=
  (s.pipes p).main.closing = true ∨
    (s.pipes p).waiting .main = some (.myWrite (terminatorText ++ [0])) ∧ (s.dev.tasks (.inl (p, .main))).pc.sent = true

omit [DecidableEq π] [DecidableEq κ] in
theorem sealed_past (s : Sys π κ) (p : π) (done : Sealed s p) : 8 < (s.pipes p).main.phase := by
  rcases done with closing | ⟨waits, _⟩
  · exact closing_past _ closing
  · cases waits_cases _ _ _ waits with
    | done point => simp [point, MainPc.phase]

theorem sealed_kept (s next : Sys π κ) (action : SysAction π κ) (p : π) (out : List (SysEvent π κ))
    (joins : JoinInv (s.pipes p)) (move : SysMove config s action next out)
    (sent : ∀ t op, (s.pipes p).waiting t = some op → (next.pipes p).waiting t = some op → (∃ buf, op = .myWrite buf) →
      (next.dev.tasks (.inl (p, t))).pc.sent = (s.dev.tasks (.inl (p, t))).pc.sent)
    (done : Sealed s p) : Sealed next p := by
  rcases done with closing | ⟨waits, pushed⟩
  · left
    cases move with
    | @user q action pipe _ _ stepped =>
        by_cases mine : p = q
        · subst mine
          simpa [Sys.setPipe] using closing_kept _ _ _ _ _ (pipe_moves _ _ _ _ _ stepped) closing
        · simpa [Sys.setPipe, mine] using closing
    | @call q t op pipe _ asked =>
        by_cases mine : p = q
        · subst mine
          simpa [Sys.setPipe] using closing_kept _ _ _ _ _ (.call (request_moves _ _ _ _ _ asked)) closing
        · simpa [Sys.setPipe, Sys.setDev, mine] using closing
    | @ret q t res got pipe _ _ returned =>
        by_cases mine : p = q
        · subst mine
          simpa [Sys.setPipe] using closing_kept (config.prog p) _ _ _ _ (.ret (ret_moves _ _ _ _ _ _ returned)) closing
        · simpa [Sys.setPipe, Sys.setDev, mine] using closing
    | dev => exact closing
  · have keeps : (next.pipes p).waiting .main = some (.myWrite (terminatorText ++ [0])) → Sealed next p := fun still =>
      .inr ⟨still, (sent .main _ waits still ⟨_, rfl⟩).trans pushed⟩
    cases move with
    | @user q action pipe _ inside stepped =>
        apply keeps
        by_cases mine : p = q
        · subst mine
          have same := internal_same_calls _ _ _ _ _ joins inside (pipe_moves _ _ _ _ _ stepped)
          simpa [Sys.setPipe, same_calls_waiting _ _ same] using waits
        · simpa [Sys.setPipe, mine] using waits
    | @call q t op pipe _ asked =>
        apply keeps
        have call := request_moves _ _ _ _ _ asked
        by_cases mine : p = q
        · subst mine
          have other : Tid.main ≠ t := by
            rintro rfl
            rw [(call_waits _ _ _ _ _ call).1] at waits
            cases waits
          simpa [Sys.setPipe, (call_only _ _ _ _ _ call).waiting _ other] using waits
        · simpa [Sys.setPipe, Sys.setDev, mine] using waits
    | @ret q t res got pipe _ point returned =>
        have ret := ret_moves _ _ _ _ _ _ returned
        by_cases mine : p = q
        · subst mine
          by_cases here : Tid.main = t
          · -- The my_write that pushed returns 0, so dev_done leaves its loop.
            subst here
            left
            simp only [point, Pc.sent, decide_eq_true_eq] at pushed
            cases ret with
            | done => simp [Sys.setPipe, Pipe.setMain, pushed, MainPc.closing]
            | openDev there | closeDev there => simp [Pipe.waiting, there, MainPc.waiting] at waits
          · apply keeps
            simpa [Sys.setPipe, (ret_only _ _ _ _ _ _ ret).waiting _ here] using waits
        · apply keeps
          simpa [Sys.setPipe, Sys.setDev, mine] using waits
    | dev => exact keeps waits

structure SealInv (p : π) (events : List (SysEvent π κ)) (s : Sys π κ) : Prop where
  done : ∀ data, (none, data) ∈ events.flatMap (SysEvent.appends p) → Sealed s p
  last : ∀ before after data, events.flatMap (SysEvent.appends p) = before ++ (none, data) :: after → after = []

theorem seal_run (p : π) (run : Run (system config) ok (systemStart config) events s) : SealInv p events s := by
  refine Run.invariant (SealInv p) ⟨by simp, by simp⟩ ?_ run
  intro events s action next out before inv _ stepped
  have joins := join_inv_run (system_pipe_any p before)
  have move := system_moves config s next action out stepped
  cases append_effect config s next action p out (link_run before) move with
  | nothing silent sent =>
      have same : (events ++ out).flatMap (SysEvent.appends p) = events.flatMap (SysEvent.appends p) := by
        rw [List.flatMap_append, silent, List.append_nil]
      refine ⟨fun data member => ?_, fun front after data split => inv.last front after data (same ▸ split)⟩
      exact sealed_kept s next action p out joins move sent (inv.done data (same ▸ member))
  | @append t buf mem pipes waits point moved others _ appended =>
      have same : (events ++ out).flatMap (SysEvent.appends p) =
          events.flatMap (SysEvent.appends p) ++ [((s.pipes p).sending t, cstr (buf ++ mem))] := by
        rw [List.flatMap_append, appended]
      -- A thread that can push is alive, or is main before its push.
      have unsealed : ¬ Sealed s p := by
        intro done
        cases waits_cases _ t _ waits with
        | done there =>
            rcases done with closing | ⟨_, pushed⟩
            · rw [there] at closing
              cases closing
            · simp [point, Pc.sent] at pushed
        | @write i _ _ there =>
            refine live_not_joined _ .sink i joins ?_ (sealed_past s p done)
            simp [Pipe.life, there, SinkPc.life]
      have clean : ∀ entry ∈ events.flatMap (SysEvent.appends p), ¬ entry.1 = none := by
        rintro ⟨sent, data⟩ member rfl
        exact unsealed (inv.done data member)
      refine ⟨fun data member => ?_, fun front after data split => ?_⟩
      · rw [same, List.mem_append, List.mem_singleton] at member
        rcases member with old | new
        · exact (clean _ old rfl).elim
        · have terminator : (s.pipes p).sending t = none := (congrArg Prod.fst new).symm
          cases waits_cases _ t _ waits with
          | done => exact .inr ⟨by rw [pipes]; exact waits, by rw [moved]; rfl⟩
          | write there => simp [Pipe.sending, there, SinkPc.sending] at terminator
      · exact only_last (fun entry => entry.1 = none) _ front after _ _ clean rfl (same.symm.trans split)

def NoSigintOf (p : π) (_ : Sys π κ) : SysAction π κ → Prop
  | .user q (.sigint _) => q ≠ p
  | _ => True

theorem system_pipe_calm {prog : Prog} {arg : Int} (p : π) (role : config.prog p = prog) (start : config.arg p = arg)
    (quiet : ∀ s action, ok s action → NoSigintOf p s action)
    (run : Run (system config) ok (systemStart config) events s) :
    Run (pipeline prog) NoSigint (programStart arg) (events.flatMap (SysEvent.ofPipe p)) (s.pipes p) := by
  subst role start
  refine system_pipe p ?_ (fun _ _ => trivial) (fun _ _ _ _ => trivial) run
  intro s action allowed
  have calm := quiet s _ allowed
  cases action with
  | sigint => exact absurd rfl calm
  | _ => trivial

def appendedFor (log : List (Option Item × Bytes)) (sent : Item) : List (Option Item × Bytes) :=
  log.filter fun entry => entry.1 = some sent

omit [DecidableEq π] [DecidableEq κ] in
theorem appended_for_count (log : List (Option Item × Bytes)) (sent : Item)
    (texts : ∀ entry ∈ log, entry = (none, terminatorText) ∨ ∃ item, entry = (some item, item.data) ∧ Small item.data) :
    appendedFor log sent = List.replicate ((log.filterMap Prod.fst).count sent) (some sent, sent.data) := by
  induction log with
  | nil => rfl
  | cons entry rest ih =>
      have later := ih fun other member => texts other (List.mem_cons_of_mem _ member)
      rcases texts entry List.mem_cons_self with rfl | ⟨item, rfl, _⟩
      · simpa [appendedFor] using later
      · by_cases same : item = sent
        · subst same
          simpa [appendedFor, List.replicate_succ] using later
        · simpa [appendedFor, same, List.count_cons] using later

theorem appended_successes (p : π) (run : Run (system config) (NoSigintOf p) (systemStart config) events s)
    (past : 8 < (s.pipes p).main.phase) :
    ((events.flatMap (SysEvent.appendedItems p) : List Item) : Multiset Item) =
      ((events.flatMap (SysEvent.ofPipe p)).flatMap UserEvent.successes : List Item) := by
  rw [appended_balance p run, held_idle, zero_add]
  intro i
  refine flying_unsent _ (.inl ?_)
  have jobless := sinks_jobless (system_pipe_any p run) past i
  cases pc : (s.pipes p).sinks i <;> simp_all [Sys.writers, Pipe.sending, SinkPc.sending, SinkPc.job]

theorem writer_accounts (p : π) (role : config.prog p = .writer) (positive : 1 ≤ config.arg p) (small : config.arg p < intMax)
    (run : Run (system config) (NoSigintOf p) (systemStart config) events s) (past : 8 < (s.pipes p).main.phase) (item : Item)
    (made : item ∈ (events.flatMap (SysEvent.ofPipe p)).flatMap UserEvent.puts) :
    ∃ failures, Settled (events.flatMap (SysEvent.ofPipe p)) (item.changed toLower) failures ∧
      appendedFor (events.flatMap (SysEvent.appends p)) (item.changed toLower) =
        List.replicate (if failures = maxRetry then 0 else 1) (some (item.changed toLower), (item.changed toLower).data) := by
  have calm := system_pipe_calm p role rfl (fun _ _ allowed => allowed) run
  obtain ⟨failures, settled⟩ := writer_settles positive small calm past item made
  refine ⟨failures, settled, ?_⟩
  rw [appended_for_count _ _ (appended_text p role run), ← appended_items_eq,
    (Multiset.coe_eq_coe.mp (appended_successes p run past)).count_eq, settled.success]

end Writer

theorem writer_exactly_once_or_lost {π κ : Type} [DecidableEq π] [DecidableEq κ] (config : Config π) (p : π)
    (role : config.prog p = .writer) :
    (∀ (events : List (SysEvent π κ)) s, Run (system config) (NoSigintOf p) (systemStart config) events s →
      1 ≤ config.arg p → config.arg p < intMax → Stage.sink.joinPhase < (s.pipes p).main.phase →
        let user := events.flatMap (SysEvent.ofPipe p)
        let log := events.flatMap (SysEvent.appends p)
        ((user.flatMap UserEvent.puts).length : Int) = config.arg p ∧ ((user.flatMap UserEvent.puts).map Item.id).Nodup ∧
          ∀ item ∈ user.flatMap UserEvent.puts, let sent := item.changed toLower
            (appendedFor log sent = [(some sent, sent.data)] ∧ (user.flatMap UserEvent.lostReports).count sent = 0) ∨
            (appendedFor log sent = [] ∧ (user.flatMap UserEvent.lostReports).count sent = 1 ∧
              (user.flatMap UserEvent.failures).count sent = maxRetry)) ∧
    (∀ (events : List (SysEvent π κ)) s, Run (system config) Any (systemStart config) events s →
      ∀ before after data, events.flatMap (SysEvent.appends p) = before ++ (none, data) :: after →
        after = [] ∧ data = terminatorText) := by
  constructor
  · intro events s run positive small past
    have calm := system_pipe_calm p role rfl (fun _ _ allowed => allowed) run
    refine ⟨writer_made_all positive small calm past, ?_, ?_⟩
    · rw [(made_inv_run positive calm).numbered]
      exact List.nodup_range
    · intro item made
      obtain ⟨failures, settled, log⟩ := writer_accounts p role positive small run past item made
      by_cases lost : failures = maxRetry
      · rw [if_pos lost] at log
        exact .inr ⟨log, settled.report.trans (if_pos lost), settled.attempts.trans lost⟩
      · rw [if_neg lost] at log
        exact .inl ⟨log, settled.report.trans (if_neg lost)⟩
  · intro events s run before after data split
    refine ⟨(seal_run p run).last before after data split, ?_⟩
    rcases appended_text p role run (none, data) (by rw [split]; simp) with same | ⟨_, same, _⟩ <;> cases same
    rfl

section Schedules

variable {π κ : Type}

def usersGo (p : π) (t : Tid) (n : Nat) : List (SysAction π κ) := List.replicate n (.user p (.go t {}))

-- A call that finds the device free and meets no obstacle takes three
-- statements for an open and seven for a read or a write.
def wholeCall (p : π) (t : Tid) (n : Nat) : List (SysAction π κ) :=
  [SysAction.call p t] ++ List.replicate n (SysAction.dev (.go (.inl (p, t)) {})) ++ [SysAction.ret p t]

-- A call in which the allocation or copy after `before` statements fails.
def failingCall (p : π) (t : Tid) (before : Nat) : List (SysAction π κ) :=
  [SysAction.call p t] ++ List.replicate before (.dev (.go (.inl (p, t)) {})) ++ [.dev (.go (.inl (p, t)) { ok := false })] ++
    [.dev (.go (.inl (p, t)) {})] ++ [.ret p t]

-- A Writer for one string, up to the end of its last wait_for.
def writerSchedule (p : π) : List (SysAction π κ) :=
  usersGo p .main 2 ++ wholeCall p .main 3 ++ usersGo p .main 8 ++ usersGo p (.source 0) 8 ++ usersGo p .main 5 ++
    usersGo p (.elaborate 0) 10 ++ usersGo p .main 5 ++ usersGo p (.sink 0) 2 ++ wholeCall p (.sink 0) 7 ++
    usersGo p (.sink 0) 7 ++ usersGo p .main 2

end Schedules

def oneWriter : Config Unit where
  prog _ := .writer
  arg _ := 1

def noSigintOf {π κ : Type} (_ : Sys π κ) : SysAction π κ → Bool
  | .user _ (.sigint _) => false
  | _ => true

theorem no_sigint_of_sound {π κ : Type} (p : π) (s : Sys π κ) (action : SysAction π κ) (quiet : noSigintOf s action = true) :
    NoSigintOf p s action := by
  cases action with
  | user q action => cases action <;> trivial
  | _ => trivial

def threeStrings : Config Unit where
  prog _ := .writer
  arg _ := 3

-- The first string is written at the second attempt, the second one is given
-- up, the third one is written at once.
def retrySchedule : List (SysAction Unit Empty) :=
  usersGo () .main 2 ++ wholeCall () .main 3 ++ usersGo () .main 8 ++ usersGo () (.source 0) 4 ++
    List.replicate 4 (.user () (.go (.source 0) { rand := fun _ => 1 })) ++
    List.replicate 8 (.user () (.go (.source 0) { rand := fun _ => 2 })) ++ usersGo () .main 5 ++ usersGo () (.elaborate 0) 24 ++
    usersGo () .main 5 ++ usersGo () (.sink 0) 2 ++ failingCall () (.sink 0) 1 ++ wholeCall () (.sink 0) 7 ++
    usersGo () (.sink 0) 5 ++ (List.replicate 5 (failingCall () (.sink 0) 1)).flatten ++ usersGo () (.sink 0) 6 ++
    wholeCall () (.sink 0) 7 ++ usersGo () (.sink 0) 7 ++ usersGo () .main 2 ++ wholeCall () .main 7

theorem writer_exactly_once_or_lost_retry : threeStrings.prog () = .writer ∧
    ∃ (events : List (SysEvent Unit Empty)) (s : Sys Unit Empty),
      Run (system threeStrings) (NoSigintOf ()) (systemStart threeStrings) events s ∧
      Stage.sink.joinPhase < (s.pipes ()).main.phase ∧
      events.flatMap (SysEvent.appends ()) = [(some ⟨0, [97]⟩, [97]), (some ⟨2, [99, 99, 99]⟩, [99, 99, 99]), (none, terminatorText)] ∧
      ((events.flatMap (SysEvent.ofPipe ())).flatMap UserEvent.failures).count ⟨0, [97]⟩ = 1 ∧
      (((events.flatMap (SysEvent.ofPipe ())).flatMap UserEvent.puts).length : Int) = 3 ∧
      ∀ item ∈ (events.flatMap (SysEvent.ofPipe ())).flatMap UserEvent.puts, let sent := item.changed toLower
        (appendedFor (events.flatMap (SysEvent.appends ())) sent = [(some sent, sent.data)] ∧
          ((events.flatMap (SysEvent.ofPipe ())).flatMap UserEvent.lostReports).count sent = 0) ∨
        (appendedFor (events.flatMap (SysEvent.appends ())) sent = [] ∧
          ((events.flatMap (SysEvent.ofPipe ())).flatMap UserEvent.lostReports).count sent = 1 ∧
          ((events.flatMap (SysEvent.ofPipe ())).flatMap UserEvent.failures).count sent = maxRetry) := by
  refine ⟨rfl, ?_⟩
  obtain ⟨events, s, run, seen⟩ := exec_reaches (system (κ := Empty) threeStrings) noSigintOf (NoSigintOf ())
    (no_sigint_of_sound ()) (systemStart threeStrings) retrySchedule
    (fun s events => decide (Stage.sink.joinPhase < (s.pipes ()).main.phase) &&
      decide (events.flatMap (SysEvent.appends ()) =
        [(some ⟨0, [97]⟩, [97]), (some ⟨2, [99, 99, 99]⟩, [99, 99, 99]), (none, terminatorText)]) &&
      decide (((events.flatMap (SysEvent.ofPipe ())).flatMap UserEvent.failures).count ⟨0, [97]⟩ = 1)) (by decide +kernel)
  simp only [Bool.and_eq_true, decide_eq_true_eq] at seen
  obtain ⟨⟨past, appended⟩, retried⟩ := seen
  obtain ⟨made, _, each⟩ := (writer_exactly_once_or_lost threeStrings () rfl).1 events s run (by decide) (by decide) past
  exact ⟨events, s, run, past, appended, retried, made, each⟩

end MyDev
