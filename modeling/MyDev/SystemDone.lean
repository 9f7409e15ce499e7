import MyDev.SystemWriter

set_option autoImplicit false

namespace MyDev

open Library

def terminatorOp : Op := .myWrite (terminatorText ++ [0])

section Attempt

variable {ι : Type} [DecidableEq ι]

def Event.results (t : ι) : Event ι → List Int
  | .writeDone u res => if u = t then [res] else []
  | _ => []

def Event.sends (t : ι) : Event ι → List Bytes
  | .pushed u data => if u = t then [data] else []
  | _ => []

def Pc.result : Pc → Option Int
  | .ret res _ => some res
  | _ => none

inductive AttemptStep (s next : Dev ι) (t : ι) (buf : Bytes) (out : List (Event ι)) : Prop where
  | quiet (kept : (next.tasks t).pc.result = (s.tasks t).pc.result) (same : (next.tasks t).pc.sent = (s.tasks t).pc.sent)
      (results : out.flatMap (Event.results t) = []) (sends : out.flatMap (Event.sends t) = [])
  | push (mem : Bytes) (fresh : (s.tasks t).pc = .writePush buf) (moved : (next.tasks t).pc = .writeWake 0)
      (results : out.flatMap (Event.results t) = []) (sends : out.flatMap (Event.sends t) = [cstr (buf ++ mem)])
  | done {res : Int} (last : (s.tasks t).pc = .writeUnlock res) (moved : (next.tasks t).pc = .ret res [])
      (results : out.flatMap (Event.results t) = [res]) (sends : out.flatMap (Event.sends t) = [])

omit [DecidableEq ι] in
theorem local_result {s : Dev ι} {env : Env} {pc next : Pc} (step : LocalPc s env pc next) :
    pc.result = none ∧ next.result = none := by
  cases step <;> exact ⟨rfl, rfl⟩

theorem locked_result (pc next : Pc) (entered : pc.locked = some next) : pc.result = none ∧ next.result = none := by
  unfold Pc.locked at entered
  split at entered <;> cases entered <;> exact ⟨rfl, rfl⟩

theorem unlocked_write (pc next : Pc) (buf : Bytes) (left : pc.unlocked = some next) (serves : pc.Serves (.myWrite buf)) :
    (∃ given, pc = .writeWait given .unlock ∧ next = .writeWait given .cond) ∨ ∃ res, pc = .writeUnlock res ∧ next = .ret res [] := by
  unfold Pc.unlocked at left
  split at left <;> cases left <;> first | exact serves.elim | exact .inl ⟨_, rfl, rfl⟩ | exact .inr ⟨_, rfl, rfl⟩

theorem attempt_step (s next : Dev ι) (t : ι) (env : Env) (out : List (Event ι)) (buf : Bytes)
    (move : ClientMove s t env next out) (serves : (s.tasks t).pc.Serves (.myWrite buf)) : AttemptStep s next t buf out := by
  cases move with
  | «local» move =>
      have step := local_move_pc s env _ _ move
      have kept := local_result step
      exact .quiet (by simp [kept.1, kept.2]) (by simpa using local_sent step serves) rfl rfl
  | acquire _ entered =>
      have kept := locked_result _ _ entered
      exact .quiet (by simp [kept.1, kept.2]) (by simpa using locked_sent _ _ entered) rfl rfl
  | release left =>
      rcases unlocked_write _ _ _ left serves with ⟨given, point, rfl⟩ | ⟨res, point, rfl⟩
      · exact .quiet (by simp [point, Pc.result]) (by simp [point, Pc.sent]) (by simp [point, doneEvents])
          (by simp [point, doneEvents])
      · exact .done point (by simp) (by simp [point, doneEvents, Event.results]) (by simp [point, doneEvents, Event.sends])
  | pushed point success =>
      rw [point] at serves
      subst serves
      exact .push env.mem point (by simp) rfl (by simp [Event.sends])
  | wakeReaders point => exact .quiet (by simp [point, Pc.result]) (by simp [point, Pc.sent]) rfl rfl
  | opened point | closed point | popped point | wakeWriters point =>
      rw [point] at serves
      exact serves.elim

theorem others_silent (s next : Dev ι) (t : ι) (action : Action ι) (out : List (Event ι)) (move : DevMove s action next out)
    (other : action.client ≠ some t) : out.flatMap (Event.results t) = [] ∧ out.flatMap (Event.sends t) = [] := by
  cases move with
  | @client u env _ _ move =>
      have different : u ≠ t := fun same => other (congrArg some same)
      cases move with
      | release =>
          unfold doneEvents
          split <;> simp [Event.results, Event.sends, different]
      | _ => simp [Event.results, Event.sends, different]
  | kt move => cases move <;> simp [Event.results, Event.sends]
  | _ => exact ⟨rfl, rfl⟩

theorem close_silent (s next : Dev ι) (t : ι) (env : Env) (out : List (Event ι)) (move : ClientMove s t env next out)
    (serves : (s.tasks t).pc.Serves .myClose) :
    out.flatMap (Event.results t) = [] ∧ out.flatMap (Event.sends t) = [] := by
  cases move with
  | release =>
      unfold doneEvents
      split <;> rename_i point <;> first | exact ⟨rfl, rfl⟩ | (rw [point] at serves; exact serves.elim)
  | popped point | pushed point =>
      rw [point] at serves
      exact serves.elim
  | _ => exact ⟨rfl, rfl⟩

end Attempt

structure Tries (i : Nat) (results : List Int) : Prop where
  count : results.length = i
  failed : ∀ res ∈ results, res ≠ 0

def LoopEnded (i : Nat) (results : List Int) (sends : List Bytes) : Prop :=
  (i ≤ maxRetry ∧ sends = [terminatorText] ∧ ∃ failed, Tries i failed ∧ results = failed ++ [0]) ∨
    (i = maxRetry + 1 ∧ sends = [] ∧ Tries i results)

def verdictOf (i : Nat) : Int := if i = maxRetry then 1 else 0

def DoneInv (main : MainPc) (pc : Pc) (results : List Int) (sends : List Bytes) (verdicts : List Int) : Prop :=
  match main with
  | .done i => pc = .user ∧ i ≤ maxRetry + 1 ∧ Tries i results ∧ sends = [] ∧ verdicts = []
  | .inDone i => pc.Serves terminatorOp ∧ i ≤ maxRetry ∧ sends = (if pc.sent then [terminatorText] else []) ∧
      verdicts = [] ∧ ∃ failed, Tries i failed ∧ results = failed ++ pc.result.toList
  | .doneCheck i => pc = .user ∧ LoopEnded i results sends ∧ verdicts = []
  | .closeDev | .exited => pc = .user ∧ ∃ i, LoopEnded i results sends ∧ verdicts = [verdictOf i]
  | .inClose => pc.Serves .myClose ∧ ∃ i, LoopEnded i results sends ∧ verdicts = [verdictOf i]
  | _ => False

def UserEvent.verdicts : UserEvent → List Int
  | .doneReturned res => [res]
  | _ => []

section Moves

variable {results : List Int} {sends : List Bytes} {verdicts : List Int} {pc : Pc}

theorem done_inv_main (prog : Prog) (s next : Pipe) (out : List UserEvent) (move : MainMove prog s next out)
    (inv : DoneInv s.main pc results sends verdicts) :
    DoneInv next.main pc results sends (verdicts ++ out.flatMap UserEvent.verdicts) := by
  cases move with
  | @doneOver i point tried =>
      rw [point] at inv
      obtain ⟨idle, bound, tries, none, quiet⟩ := inv
      have all : i = maxRetry + 1 := by omega
      exact ⟨idle, .inr ⟨all, none, tries⟩, by simp [quiet]⟩
  | @doneCheck i point =>
      rw [point] at inv
      obtain ⟨idle, settled, rfl⟩ := inv
      exact ⟨idle, i, settled, rfl⟩
  | boot point | ready point | counts point | init point | create point | spawned point | join point | joined point
  | relAcquire point | relSet point | relUnlock point =>
      rw [point] at inv
      exact inv.elim

theorem done_inv_call (prog : Prog) (s next : Pipe) (op : Op) (move : CallMove prog s .main op next)
    (inv : DoneInv s.main pc results sends verdicts) : DoneInv next.main op.entry results sends verdicts := by
  cases move with
  | openDev point =>
      rw [point] at inv
      exact inv.elim
  | done point left =>
      rw [point] at inv
      obtain ⟨_, _, tries, none, quiet⟩ := inv
      exact ⟨entry_serves terminatorOp, left, none, quiet, results, tries, (List.append_nil results).symm⟩
  | closeDev point =>
      rw [point] at inv
      exact ⟨entry_serves .myClose, inv.2⟩

theorem done_inv_ret (s next : Pipe) (res : Int) (got : Bytes) (out : List UserEvent) (move : RetMove s res got .main next out)
    (inv : DoneInv s.main (.ret res got) results sends verdicts) :
    DoneInv next.main .user results sends (verdicts ++ out.flatMap UserEvent.verdicts) := by
  cases move with
  | openDev point =>
      rw [point] at inv
      exact inv.elim
  | @done i point =>
      rw [point] at inv
      obtain ⟨_, left, sent, quiet, failed, tries, shown⟩ := inv
      have unheard : verdicts ++ [].flatMap UserEvent.verdicts = [] := by simp [quiet]
      by_cases success : res = 0
      · rw [success] at shown
        simp only [Pipe.setMain, success, if_true]
        exact ⟨rfl, .inl ⟨left, by simpa [Pc.sent, success] using sent, failed, tries, shown⟩, unheard⟩
      · simp only [Pipe.setMain, success, if_false]
        refine ⟨rfl, by omega, ⟨?_, ?_⟩, by simpa [Pc.sent, success] using sent, unheard⟩
        · simp [shown, Pc.result, tries.count]
        · intro other member
          rw [shown, List.mem_append] at member
          rcases member with old | new
          · exact tries.failed other old
          · simp only [Pc.result, Option.toList_some, List.mem_singleton] at new
            rw [new]
            exact success
  | closeDev point =>
      rw [point] at inv
      obtain ⟨_, i, settled, said⟩ := inv
      exact ⟨rfl, i, settled, by simp [said]⟩

theorem call_main (prog : Prog) (s next : Pipe) (t : Tid) (op : Op) (move : CallMove prog s t op next) (other : t ≠ .main) :
    next.main = s.main := by
  cases move with
  | openDev | done | closeDev => exact absurd rfl other
  | read | write => rfl

theorem ret_main (s next : Pipe) (t : Tid) (res : Int) (got : Bytes) (out : List UserEvent) (move : RetMove s res got t next out)
    (other : t ≠ .main) : next.main = s.main ∧ out.flatMap UserEvent.verdicts = [] := by
  cases move with
  | openDev | done | closeDev => exact absurd rfl other
  | read | written | refused => exact ⟨rfl, rfl⟩

theorem internal_verdict (prog : Prog) (s next : Pipe) (action : UserAction) (out : List UserEvent)
    (inside : action.internal = true) (move : PipeMove prog s action next out) :
    MainMove prog s next out ∨ next.main = s.main ∧ out.flatMap UserEvent.verdicts = [] := by
  cases move with
  | source move => exact .inr ⟨(source_frame prog s next _ out move).main, by cases move <;> rfl⟩
  | elaborate move => exact .inr ⟨(elaborate_frame prog.change s next _ out move).main, by cases move <;> rfl⟩
  | sink move => exact .inr ⟨(sink_frame prog s next _ out move).main, by cases move <;> rfl⟩
  | main move => exact .inl move
  | hand move => exact .inr ⟨(hand_frame s next _ move).main, rfl⟩
  | call | ret => cases inside
  | spuriousR | spuriousE | sigint => exact .inr ⟨rfl, rfl⟩

theorem done_inv_busy {main : MainPc} (inv : DoneInv main pc results sends verdicts) (busy : pc ≠ .user) :
    (∃ i, main = .inDone i) ∨ main = .inClose := by
  cases main with
  | inDone i => exact .inl ⟨i, rfl⟩
  | inClose => exact .inr rfl
  | done | doneCheck | closeDev | exited => exact absurd inv.1 busy
  | _ => exact inv.elim

theorem done_inv_go {ι : Type} [DecidableEq ι] (s next : Dev ι) (t : ι) (env : Env) (out : List (Event ι)) (main : MainPc)
    (move : ClientMove s t env next out) (inv : DoneInv main (s.tasks t).pc results sends verdicts) :
    DoneInv main (next.tasks t).pc (results ++ out.flatMap (Event.results t)) (sends ++ out.flatMap (Event.sends t)) verdicts := by
  rcases done_inv_busy inv (client_not_user s next t env out move) with ⟨i, rfl⟩ | rfl
  · obtain ⟨serves, left, sent, quiet, failed, tries, shown⟩ := inv
    have after := client_serves s next t env out terminatorOp move serves
    cases attempt_step s next t env out _ move serves with
    | quiet kept same noResult noSend =>
        rw [noResult, noSend, List.append_nil, List.append_nil]
        exact ⟨after, left, by rw [same]; exact sent, quiet, failed, tries, by rw [kept]; exact shown⟩
    | push mem fresh moved noResult pushed =>
        have text : cstr (terminatorText ++ [0] ++ mem) = terminatorText := by
          rw [List.append_assoc]
          exact cstr_append_nul terminatorText mem (by decide)
        rw [fresh] at sent shown
        rw [moved] at after ⊢
        rw [noResult, List.append_nil, pushed, text]
        exact ⟨after, left, by rw [sent]; rfl, quiet, failed, tries, shown⟩
    | done last moved shownNow noSend =>
        rw [last] at sent shown
        rw [moved] at after ⊢
        rw [noSend, List.append_nil, shownNow]
        exact ⟨after, left, sent, quiet, failed, tries, by simp [shown, Pc.result]⟩
  · obtain ⟨serves, ended⟩ := inv
    obtain ⟨noResult, noSend⟩ := close_silent s next t env out move serves
    rw [noResult, noSend, List.append_nil, List.append_nil]
    exact ⟨client_serves s next t env out .myClose move serves, ended⟩

end Moves

section System

variable {π κ : Type} [DecidableEq π] [DecidableEq κ]

def attemptResults (p : π) (events : List (SysEvent π κ)) : List Int :=
  (events.flatMap SysEvent.device).flatMap (Event.results (.inl (p, .main)))

def terminatorsSent (p : π) (events : List (SysEvent π κ)) : List Bytes :=
  (events.flatMap SysEvent.device).flatMap (Event.sends (.inl (p, .main)))

def doneVerdicts (p : π) (events : List (SysEvent π κ)) : List Int :=
  (events.flatMap (SysEvent.ofPipe p)).flatMap UserEvent.verdicts

def SysDone (p : π) (events : List (SysEvent π κ)) (s : Sys π κ) : Prop :=
  DoneInv (s.pipes p).main (s.dev.tasks (.inl (p, .main))).pc (attemptResults p events) (terminatorsSent p events)
    (doneVerdicts p events)

theorem done_inv_move (config : Config π) (p : π) (events out : List (SysEvent π κ)) (s next : Sys π κ) (action : SysAction π κ)
    (inv : SysDone p events s) (move : SysMove config s action next out) : SysDone p (events ++ out) next := by
  unfold SysDone attemptResults terminatorsSent doneVerdicts at inv ⊢
  simp only [List.flatMap_append]
  cases move with
  | @user q action pipe out inside stepped =>
      rw [device_of_piped, pipe_of_piped]
      by_cases mine : q = p
      · subst mine
        rcases internal_verdict _ _ pipe action out inside (pipe_moves _ _ _ _ _ stepped) with main | ⟨same, silent⟩
        · simpa [Sys.setPipe] using done_inv_main _ _ pipe out main inv
        · simpa [Sys.setPipe, same, silent] using inv
      · simpa [Sys.setPipe, Ne.symm mine, mine] using inv
  | @call q t op pipe calm asked idle =>
      have move := request_moves _ _ _ _ _ asked
      by_cases mine : q = p
      · subst mine
        by_cases here : t = .main
        · subst here
          simpa [Sys.setPipe, Sys.setDev] using done_inv_call _ _ pipe op move inv
        · have same : pipe.main = (s.pipes q).main := call_main _ _ _ _ _ move here
          simpa [Sys.setPipe, Sys.setDev, same, Ne.symm here] using inv
      · simpa [Sys.setPipe, Sys.setDev, Ne.symm mine] using inv
  | @ret q t res got pipe out point returned =>
      have move := ret_moves _ _ _ _ _ _ returned
      rw [device_of_piped, pipe_of_piped]
      by_cases mine : q = p
      · subst mine
        by_cases here : t = .main
        · subst here
          rw [point] at inv
          simpa [Sys.setPipe, Sys.setDev] using done_inv_ret _ pipe res got out move inv
        · obtain ⟨same, silent⟩ := ret_main _ _ _ _ _ _ move here
          simpa [Sys.setPipe, Sys.setDev, same, silent, Ne.symm here] using inv
      · simpa [Sys.setPipe, Sys.setDev, Ne.symm mine, mine] using inv
  | @dev action dev out free stepped =>
      have move := device_moves _ _ _ _ stepped
      rw [device_of_observed, pipe_of_observed]
      rcases unattended_move _ _ action out p .main free move with ⟨env, _, own⟩ | ⟨other, same⟩
      · simpa [Sys.setDev] using done_inv_go _ _ _ env out _ own inv
      · obtain ⟨noResult, noSend⟩ := others_silent _ _ _ action out move other
        simpa [Sys.setDev, noResult, noSend, same] using inv

-- dev_done starts from any state at all: of main only that it is about to make
-- its first attempt, of the device nothing.
theorem done_inv_run {config : Config π} (p : π) {start s : Sys π κ} {events : List (SysEvent π κ)}
    (point : (start.pipes p).main = .done 0) (idle : (start.dev.tasks (.inl (p, .main))).pc = .user)
    (run : Run (system config) Any start events s) : SysDone p events s := by
  refine Run.invariant (SysDone p) ?_ ?_ run
  · unfold SysDone
    rw [point]
    exact ⟨idle, Nat.zero_le _, ⟨rfl, by simp [attemptResults]⟩, rfl, rfl⟩
  · intro events s action next out _ inv _ stepped
    exact done_inv_move config p events out s next action inv (system_moves config s next action out stepped)

theorem returned_ended {main : MainPc} {pc : Pc} {results : List Int} {sends : List Bytes} {verdicts : List Int} {res : Int}
    (inv : DoneInv main pc results sends verdicts) (returned : res ∈ verdicts) :
    ∃ i, LoopEnded i results sends ∧ verdicts = [verdictOf i] := by
  cases main with
  | closeDev | exited | inClose => exact inv.2
  | done => simp [inv.2.2.2.2] at returned
  | inDone => simp [inv.2.2.2.1] at returned
  | doneCheck => simp [inv.2.2] at returned
  | _ => exact inv.elim

end System

theorem tries_failures {i : Nat} {results : List Int} (tries : Tries i results) :
    results.filter (fun res => res ≠ 0) = results := by
  refine List.filter_eq_self.mpr fun res member => ?_
  simpa using tries.failed res member

-- The counter counts the failures: it is MAX_RETRY for a success after
-- MAX_RETRY of them, and MAX_RETRY + 1 when every attempt failed.
theorem ended_failures {i : Nat} {results : List Int} {sends : List Bytes} (ended : LoopEnded i results sends) :
    (results.filter fun res => res ≠ 0).length = i := by
  rcases ended with ⟨_, _, failed, tries, rfl⟩ | ⟨_, _, tries⟩
  · rw [List.filter_append, tries_failures tries, List.length_append, tries.count]
    rfl
  · rw [tries_failures tries, tries.count]

theorem terminator_verdict_iff {π κ : Type} [DecidableEq π] [DecidableEq κ] (config : Config π) (p : π) (start s : Sys π κ)
    (events : List (SysEvent π κ)) (res : Int) (point : (start.pipes p).main = .done 0)
    (idle : (start.dev.tasks (.inl (p, .main))).pc = .user) (run : Run (system config) Any start events s)
    (returned : res ∈ doneVerdicts p events) :
    let results := attemptResults p events
    let sent := terminatorsSent p events
    let failures := results.filter fun res => res ≠ 0
    results.length ≤ maxRetry + 1 ∧ (sent = [terminatorText] ∨ sent = []) ∧
      (((res = 0 ↔ sent = [terminatorText]) ∧ (res = 1 ↔ sent = []) ∧ results.length ≤ maxRetry) ↔
        failures.length < maxRetry) := by
  intro results sent failures
  obtain ⟨i, ended, said⟩ := returned_ended (done_inv_run p point idle run) returned
  rw [said, List.mem_singleton] at returned
  have failed : failures.length = i := ended_failures ended
  rw [failed, returned]
  rcases ended with ⟨left, once, failed, tries, shown⟩ | ⟨all, never, tries⟩
  · have attempts : results.length = i + 1 := by simp [results, shown, tries.count]
    have sent : sent = [terminatorText] := once
    refine ⟨by omega, .inl sent, ?_⟩
    by_cases late : i = maxRetry
    · simp [verdictOf, late, sent]
    · have early : i < maxRetry := by omega
      have few : i + 1 ≤ maxRetry := early
      simp [verdictOf, late, sent, attempts, early, few]
  · have attempts : results.length = i := tries.count
    have sent : sent = [] := never
    refine ⟨by omega, .inr sent, ?_⟩
    simp [verdictOf, all, sent]

def mainGo (n : Nat) : List (SysAction Unit Empty) := List.replicate n (.dev (.go (.inl ((), .main)) {}))

def refusedCall : List (SysAction Unit Empty) :=
  [SysAction.call () .main] ++ mainGo 1 ++ [SysAction.dev (.go (.inl ((), .main)) { ok := false })] ++ mainGo 1 ++
    [SysAction.ret () .main]

def refusedCalls (n : Nat) : List (SysAction Unit Empty) := (List.replicate n refusedCall).flatten

def doneSeen (events : List (SysEvent Unit Empty)) : List Int × List Bytes × Nat :=
  (doneVerdicts () events, terminatorsSent () events, (attemptResults () events).length)

theorem terminator_verdict_iff_first_attempt : ∃ (start s : Sys Unit Empty) (events : List (SysEvent Unit Empty)),
    (start.pipes ()).main = .done 0 ∧ (start.dev.tasks (.inl ((), .main))).pc = .user ∧
      Run (system oneWriter) Any start events s ∧ 0 ∈ doneVerdicts () events ∧ terminatorsSent () events = [terminatorText] := by
  obtain ⟨_, start, _, seen⟩ := exec_reaches_any (system (κ := Empty) oneWriter) (systemStart oneWriter) (writerSchedule ())
    (fun start _ => decide ((start.pipes ()).main = .done 0) && decide ((start.dev.tasks (.inl ((), .main))).pc = .user) &&
      (((system oneWriter).exec (fun _ _ => true) start (wholeCall () .main 7 ++ usersGo () .main 1)).any
        fun result => decide (0 ∈ doneVerdicts () result.2) && decide (attemptResults () result.2 = [0]))) (by decide +kernel)
  simp only [Bool.and_eq_true, decide_eq_true_eq] at seen
  obtain ⟨⟨point, idle⟩, found⟩ := seen
  obtain ⟨events, s, run, seen⟩ := exec_reaches_any (system oneWriter) start _
    (fun _ events => decide (0 ∈ doneVerdicts () events) && decide (attemptResults () events = [0])) found
  simp only [Bool.and_eq_true, decide_eq_true_eq] at seen
  obtain ⟨returned, results⟩ := seen
  have verdict := (terminator_verdict_iff oneWriter () start s events 0 point idle run returned).2.2.mpr (by simp [results, maxRetry])
  exact ⟨start, s, events, point, idle, run, returned, verdict.1.mp rfl⟩

theorem terminator_verdict_wrong : ∃ (before lost sent : List (SysEvent Unit Empty)) (start unsent late : Sys Unit Empty),
    Run (system oneWriter) Any (systemStart oneWriter) before start ∧ (start.pipes ()).main = .done 0 ∧
      Run (system oneWriter) Any start lost unsent ∧ doneSeen lost = ([0], [], maxRetry + 1) ∧
      Run (system oneWriter) Any start sent late ∧ doneSeen sent = ([1], [terminatorText], maxRetry + 1) := by
  obtain ⟨before, start, reached, seen⟩ := exec_reaches_any (system (κ := Empty) oneWriter) (systemStart oneWriter)
    (writerSchedule ())
    (fun start _ => decide ((start.pipes ()).main = .done 0) &&
      (((system oneWriter).exec (fun _ _ => true) start (refusedCalls 6 ++ usersGo () .main 2)).any
        fun result => decide (doneSeen result.2 = ([0], [], maxRetry + 1))) &&
      (((system oneWriter).exec (fun _ _ => true) start (refusedCalls 5 ++ wholeCall () .main 7 ++ usersGo () .main 1)).any
        fun result => decide (doneSeen result.2 = ([1], [terminatorText], maxRetry + 1)))) (by decide +kernel)
  simp only [Bool.and_eq_true, decide_eq_true_eq] at seen
  obtain ⟨⟨point, never⟩, once⟩ := seen
  obtain ⟨lost, unsent, first, none⟩ := exec_reaches_any (system oneWriter) start _
    (fun _ events => decide (doneSeen events = ([0], [], maxRetry + 1))) never
  obtain ⟨sent, late, second, one⟩ := exec_reaches_any (system oneWriter) start _
    (fun _ events => decide (doneSeen events = ([1], [terminatorText], maxRetry + 1))) once
  exact ⟨before, lost, sent, start, unsent, late, reached, point, first, of_decide_eq_true none, second, of_decide_eq_true one⟩

end MyDev
