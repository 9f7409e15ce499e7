import MyDev.PipelineDeadlock
import MyDev.PipelineWake

set_option autoImplicit false

namespace MyDev

open Library

-- The steps the threads take of their own accord. The return of a device call
-- is the device's, and nobody may count on spurious wake-ups and signals.
def UserAction.own : UserAction → Bool
  | .go _ _ | .call _ => true
  | .ret _ _ _ | .spurious _ | .sigint _ => false

def CanStep (prog : Prog) (s : Pipe) : Prop :=
  ∃ action next out, action.own = true ∧ (pipeline prog).step s action = some (next, out)

def Pipe.InCall (s : Pipe) (t : Tid) : Prop := ∃ res got next out, userRet s t res got = some (next, out)

def GoesOn (prog : Prog) (s : Pipe) : Prop := CanStep prog s ∨ ∃ t, s.InCall t

def SinkPc.writing : SinkPc → Bool
  | .inWrite _ _ | .report _ _ => true
  | _ => false

structure Duties (prog : Prog) (s : Pipe) : Prop where
  sources : prog = .writer → ∀ i, (s.sources i).reading = false
  sinks : prog = .reader → ∀ i, (s.sinks i).writing = false

theorem duties_source (prog : Prog) (s next : Pipe) (j : Nat) (out : List UserEvent) (duties : Duties prog s)
    (move : SourceMove prog s j next out) : Duties prog next := by
  have frame := source_frame prog s next j out move
  refine ⟨fun writer i => ?_, fun reader => frame.sinks ▸ duties.sinks reader⟩
  have quiet := duties.sources writer
  cases move with
  | acquire | spent | release => exact update_false _ _ i j _ quiet rfl
  | @rest stop => exact update_false _ _ i j _ quiet (by cases stop <;> rfl)
  | create _ _ _ signalled =>
      obtain ⟨_, rfl, _⟩ := signal_r_spec _ _ _ signalled
      exact update_false _ _ i j _ quiet rfl
  | ask role | failed role | last role | receive role => cases writer.symm.trans role

theorem duties_sink (prog : Prog) (s next : Pipe) (j : Nat) (out : List UserEvent) (duties : Duties prog s)
    (move : SinkMove prog s j next out) : Duties prog next := by
  have frame := sink_frame prog s next j out move
  refine ⟨fun writer => frame.sources ▸ duties.sources writer, fun reader i => ?_⟩
  have quiet := duties.sinks reader
  cases move with
  | acquire | stop | wait | take | print | release => exact update_false _ _ i j _ quiet rfl
  | @rest stop => exact update_false _ _ i j _ quiet (by cases stop <;> rfl)
  | giveUp role | settle role => cases reader.symm.trans role

theorem roused_writing (before after : SinkPc) (roused : Roused .wait .lock before after) : after.writing = before.writing :=
  roused_same SinkPc.writing _ _ _ _ roused rfl

theorem duties_main (prog : Prog) (s next : Pipe) (out : List UserEvent) (duties : Duties prog s)
    (move : MainMove prog s next out) : Duties prog next := by
  cases move with
  | @create stage j =>
      cases stage with
      | source => exact ⟨fun writer i => update_false _ _ i j _ (duties.sources writer) rfl, duties.sinks⟩
      | elaborate => exact ⟨duties.sources, duties.sinks⟩
      | sink => exact ⟨duties.sources, fun reader i => update_false _ _ i j _ (duties.sinks reader) rfl⟩
  | relAcquire _ free => rcases lock_main_spec _ _ _ _ free with rfl | rfl <;> exact ⟨duties.sources, duties.sinks⟩
  | @relSet buf =>
      cases buf with
      | raw => exact ⟨duties.sources, duties.sinks⟩
      | elaborated =>
          refine ⟨duties.sources, fun reader i => ?_⟩
          exact (roused_writing _ _ (cond_broadcast_roused _ _ _ i)).trans (duties.sinks reader i)
  | @relUnlock buf => cases buf <;> exact ⟨duties.sources, duties.sinks⟩
  | _ => exact ⟨duties.sources, duties.sinks⟩

theorem duties_move (prog : Prog) (s next : Pipe) (action : UserAction) (out : List UserEvent) (duties : Duties prog s)
    (move : PipeMove prog s action next out) : Duties prog next := by
  cases move with
  | source move => exact duties_source prog s next _ out duties move
  | elaborate move =>
      have frame := elaborate_frame prog.change s next _ out move
      exact ⟨fun writer => frame.sources ▸ duties.sources writer, fun reader i =>
        (roused_writing _ _ (frame.roused i)).trans (duties.sinks reader i)⟩
  | sink move => exact duties_sink prog s next _ out duties move
  | main move => exact duties_main prog s next out duties move
  | hand move =>
      have frame := hand_frame s next _ move
      exact ⟨frame.sources ▸ duties.sources, frame.sinks ▸ duties.sinks⟩
  | call move =>
      cases move with
      | openDev | done | closeDev => exact ⟨duties.sources, duties.sinks⟩
      | read role =>
          refine ⟨fun writer => ?_, duties.sinks⟩
          cases writer.symm.trans role
      | write role =>
          refine ⟨duties.sources, fun reader => ?_⟩
          cases reader.symm.trans role
  | ret move =>
      cases move with
      | openDev | done | closeDev => exact ⟨duties.sources, duties.sinks⟩
      | @read j point =>
          refine ⟨fun writer => ?_, duties.sinks⟩
          have reading := duties.sources writer j
          simp [point, SourcePc.reading] at reading
      | @written j _ _ point | @refused j _ _ point =>
          refine ⟨duties.sources, fun reader => ?_⟩
          have writing := duties.sinks reader j
          simp [point, SinkPc.writing] at writing
  | spuriousR => exact ⟨duties.sources, duties.sinks⟩
  | @spuriousE j => exact ⟨duties.sources, fun reader i => update_false _ _ i j _ (duties.sinks reader) rfl⟩
  | sigint => exact ⟨duties.sources, duties.sinks⟩

-- A thread that cannot take a step: it waits for a mutex that somebody holds,
-- sleeps in pthread_cond_wait, joins a thread that is not over, or is itself
-- not there.
inductive Stalled (s : Pipe) : Tid → Prop where
  | locked {t owner : Tid} {buf : Buf} (wanted : s.wants t = some buf) (held : s.owner buf = some owner) : Stalled s t
  | elaborator {i : Nat} (idle : s.hands (.elaborate i) = none) (asleep : s.elaborators i = .wait) : Stalled s (.elaborate i)
  | sink {i : Nat} (idle : s.hands (.sink i) = none) (asleep : s.sinks i = .wait) : Stalled s (.sink i)
  | joins {stage : Stage} {i : Nat} (idle : s.hands .main = none) (point : s.main = .join stage i) (more : i < s.count stage)
      (alive : s.hasExited i stage = false) : Stalled s .main
  | noSource {i : Nat} (dead : (s.sources i).life ≠ .live) : Stalled s (.source i)
  | noElaborator {i : Nat} (dead : (s.elaborators i).life ≠ .live) : Stalled s (.elaborate i)
  | noSink {i : Nat} (dead : (s.sinks i).life ≠ .live) : Stalled s (.sink i)
  | ended (ended : s.main = .exited ∨ s.main = .failed) : Stalled s .main

section Ready

variable {prog : Prog} {s : Pipe}

theorem step_hand (t : Tid) (pc : HandPc) (point : s.hands t = some pc) (moved : (catcherSigint s t pc).isSome = true) :
    GoesOn prog s := by
  obtain ⟨⟨next, out⟩, stepped⟩ := Option.isSome_iff_exists.mp moved
  exact .inl ⟨.go t {}, next, out, rfl, by simpa [pipeline, goStep, point] using stepped⟩

theorem step_go (t : Tid) (choice : Choice) (idle : s.hands t = none) (moved : (threadStep prog s choice t).isSome = true) :
    GoesOn prog s := by
  obtain ⟨⟨next, out⟩, stepped⟩ := Option.isSome_iff_exists.mp moved
  exact .inl ⟨.go t choice, next, out, rfl, by simpa [pipeline, goStep, idle] using stepped⟩

theorem step_call (t : Tid) (idle : s.hands t = none) (asked : (s.request prog t).isSome = true) : GoesOn prog s := by
  obtain ⟨⟨op, next⟩, requested⟩ := Option.isSome_iff_exists.mp asked
  exact .inl ⟨.call t, next, [], rfl, by simp [pipeline, userCall, idle, requested]⟩

theorem step_ret (t : Tid) (moved : (userRet s t 0 []).isSome = true) : GoesOn prog s := by
  obtain ⟨⟨next, out⟩, returned⟩ := Option.isSome_iff_exists.mp moved
  exact .inr ⟨t, 0, [], next, out, returned⟩

theorem lock_or_stall (t : Tid) (buf : Buf) (wanted : s.wants t = some buf) :
    (s.lock t buf).isSome = true ∨ Stalled s t := by
  cases held : s.owner buf with
  | some owner => exact .inr (.locked wanted held)
  | none => cases buf <;> exact .inl (by simp_all [Pipe.lock, Pipe.lockR, Pipe.lockE, Pipe.owner])

theorem signal_r_possible (s : Pipe) : ∃ wake, (s.signalR wake).isSome = true := by
  obtain ⟨wake, woken, signalled⟩ := cond_signal_possible ElaboratePc.wait .lock s.nela.toNat s.elaborators
  exact ⟨wake, by simp [Pipe.signalR, signalled]⟩

theorem signal_e_possible (s : Pipe) : ∃ wake, (s.signalE wake).isSome = true := by
  obtain ⟨wake, woken, signalled⟩ := cond_signal_possible SinkPc.wait .lock s.nsnk.toNat s.sinks
  exact ⟨wake, by simp [Pipe.signalE, signalled]⟩

theorem hand_ready (t : Tid) (pc : HandPc) (point : s.hands t = some pc) : GoesOn prog s ∨ Stalled s t := by
  cases pc with
  | lockR =>
      refine (lock_or_stall t .raw (by simp [Pipe.wants, point])).imp_left fun free => ?_
      exact step_hand t _ point (by simpa [catcherSigint, Pipe.lock] using free)
  | lockE =>
      refine (lock_or_stall t .elaborated (by simp [Pipe.wants, point])).imp_left fun free => ?_
      exact step_hand t _ point (by simpa [catcherSigint, Pipe.lock] using free)
  | _ => exact .inl (step_hand t _ point rfl)

theorem source_ready (i : Nat) (duties : Duties prog s) (idle : s.hands (.source i) = none) :
    GoesOn prog s ∨ Stalled s (.source i) := by
  cases point : s.sources i with
  | off | exited => exact .inr (.noSource (by simp [point, SourcePc.life]))
  | lock =>
      refine (lock_or_stall (.source i) .raw (by simp [Pipe.wants, Pipe.baseWants, idle, point])).imp_left fun free => ?_
      refine step_go _ {} idle ?_
      cases prog <;> simpa [threadStep, createData, readDev, sourceLoop, point, Pipe.lock] using free
  | ticket =>
      refine .inl ?_
      by_cases spent : s.tmpTodo ≤ 0
      · exact step_go _ {} idle (by cases prog <;> simp [threadStep, createData, readDev, point, spent])
      · cases prog with
        | writer =>
            obtain ⟨wake, possible⟩ := signal_r_possible (s.drawn.putRaw (cstr (genData fun _ => 0)))
            exact step_go _ { wake := wake } idle (by simpa [threadStep, createData, point, spent] using possible)
        | reader => exact step_go _ {} idle (by simp [threadStep, readDev, point, spent])
  | read =>
      cases prog with
      | writer => simpa [point, SourcePc.reading] using duties.sources rfl i
      | reader => exact .inl (step_call _ idle (by simp [Pipe.request, point]))
  | inRead => exact .inl (step_ret (.source i) (by simp [userRet, point]))
  | took res tmp =>
      cases prog with
      | writer => simpa [point, SourcePc.reading] using duties.sources rfl i
      | reader =>
          refine .inl ?_
          by_cases failure : res = 0
          · by_cases last : cstr tmp = terminatorText
            · obtain ⟨wake, possible⟩ := signal_r_possible s.endLoop
              exact step_go _ { wake := wake } idle (by simpa [threadStep, readDev, point, failure, last] using possible)
            · obtain ⟨wake, possible⟩ := signal_r_possible (s.putRaw (cstr tmp))
              exact step_go _ { wake := wake } idle (by simpa [threadStep, readDev, point, failure, last] using possible)
          · obtain ⟨wake, possible⟩ := signal_r_possible s
            exact step_go _ { wake := wake } idle (by simpa [threadStep, readDev, point, failure] using possible)
  | unlock stop | sleep stop =>
      exact .inl (step_go _ {} idle (by cases prog <;> simp [threadStep, createData, readDev, sourceLoop, point]))

theorem elaborator_ready (i : Nat) (idle : s.hands (.elaborate i) = none) : GoesOn prog s ∨ Stalled s (.elaborate i) := by
  cases point : s.elaborators i with
  | off | exited => exact .inr (.noElaborator (by simp [point, ElaboratePc.life]))
  | wait => exact .inr (.elaborator idle point)
  | lock =>
      refine (lock_or_stall (.elaborate i) .raw (by simp [Pipe.wants, Pipe.baseWants, idle, point])).imp_left fun free => ?_
      exact step_go _ {} idle (by simpa [threadStep, elaborateData, point, Pipe.lock] using free)
  | lockE item =>
      refine (lock_or_stall (.elaborate i) .elaborated (by simp [Pipe.wants, Pipe.baseWants, idle, point])).imp_left fun free => ?_
      exact step_go _ {} idle (by simpa [threadStep, elaborateData, point, Pipe.lock] using free)
  | test =>
      refine .inl (step_go _ {} idle ?_)
      simp only [threadStep, elaborateData, point]
      split
      · split <;> rfl
      · rfl
  | insert item =>
      obtain ⟨wake, possible⟩ := signal_e_possible (s.putElaborated item)
      exact .inl (step_go _ { wake := wake } idle (by simpa [threadStep, elaborateData, point] using possible))
  | unlockGot | work | unlockE | unlockStop => exact .inl (step_go _ {} idle (by simp [threadStep, elaborateData, point]))

theorem sink_ready (i : Nat) (duties : Duties prog s) (idle : s.hands (.sink i) = none) :
    GoesOn prog s ∨ Stalled s (.sink i) := by
  cases point : s.sinks i with
  | off | exited => exact .inr (.noSink (by simp [point, SinkPc.life]))
  | wait => exact .inr (.sink idle point)
  | lock =>
      refine (lock_or_stall (.sink i) .elaborated (by simp [Pipe.wants, Pipe.baseWants, idle, point])).imp_left fun free => ?_
      refine step_go _ {} idle ?_
      cases prog <;> simpa [threadStep, writeDev, printData, sinkLoop, point, Pipe.lock] using free
  | test =>
      refine .inl (step_go _ {} idle ?_)
      cases prog <;> simp only [threadStep, writeDev, printData, sinkLoop, point] <;> split <;> try split
      all_goals rfl
  | act item failures =>
      refine .inl ?_
      cases prog with
      | writer =>
          by_cases left : failures < maxRetry
          · exact step_call _ idle (by simp [Pipe.request, point, left])
          · exact step_go _ {} idle (by simp [threadStep, writeDev, point, left])
      | reader => exact step_go _ {} idle (by simp [threadStep, printData, point])
  | inWrite item failures => exact .inl (step_ret (.sink i) (by simp [userRet, point]))
  | report item failures =>
      cases prog with
      | writer => exact .inl (step_go _ {} idle (by simp [threadStep, writeDev, point]))
      | reader => simpa [point, SinkPc.writing] using duties.sinks rfl i
  | unlock stop | sleep stop =>
      exact .inl (step_go _ {} idle (by cases prog <;> simp [threadStep, writeDev, printData, sinkLoop, point]))

theorem main_ready (idle : s.hands .main = none) : GoesOn prog s ∨ Stalled s .main := by
  cases point : s.main with
  | exited => exact .inr (.ended (.inl point))
  | failed => exact .inr (.ended (.inr point))
  | openDev | closeDev => exact .inl (step_call .main idle (by simp [Pipe.request, point]))
  | inOpen | inDone | inClose => exact .inl (step_ret .main (by simp [userRet, point]))
  | done i =>
      refine .inl ?_
      by_cases left : i ≤ maxRetry
      · exact step_call .main idle (by simp [Pipe.request, point, left])
      · exact step_go .main {} idle (by simp [threadStep, mainStep, point, left])
  | spawn stage i =>
      refine .inl (step_go .main {} idle ?_)
      by_cases more : i < s.count stage <;> simp [threadStep, mainStep, point, more]
  | join stage i =>
      by_cases more : i < s.count stage
      · cases gone : s.hasExited i stage with
        | true => exact .inl (step_go .main {} idle (by simp [threadStep, mainStep, point, more, gone]))
        | false => exact .inr (.joins idle point more gone)
      · exact .inl (step_go .main {} idle (by simp [threadStep, mainStep, point, more]))
  | relLock buf =>
      refine (lock_or_stall .main buf (by simp [Pipe.wants, Pipe.baseWants, idle, point])).imp_left fun free => ?_
      exact step_go .main {} idle (by simpa [threadStep, mainStep, point] using free)
  | boot | ready | counts | init | relSet | relUnlock | doneCheck =>
      exact .inl (step_go .main {} idle (by simp [threadStep, mainStep, point]))

theorem ready_or_stalled (duties : Duties prog s) (t : Tid) : GoesOn prog s ∨ Stalled s t := by
  cases point : s.hands t with
  | some pc => exact hand_ready t pc point
  | none =>
      cases t with
      | main => exact main_ready point
      | source i => exact source_ready i duties point
      | elaborate i => exact elaborator_ready i point
      | sink i => exact sink_ready i duties point

theorem inside_stalled (t : Tid) (buf : Buf) (locks : MutexInv s) (running : s.main ≠ .exited ∧ s.main ≠ .failed)
    (inside : s.inside buf t = true) (stalled : Stalled s t) :
    ∃ other owner, s.wants t = some other ∧ s.owner other = some owner := by
  have alive : s.hands t ≠ none → s.interruptible t = true := locks.alive t
  cases stalled with
  | locked wanted held => exact ⟨_, _, wanted, held⟩
  | elaborator idle asleep => simp [inside_idle _ _ _ idle, Pipe.base, asleep, ElaboratePc.inside] at inside
  | sink idle asleep => simp [inside_idle _ _ _ idle, Pipe.base, asleep, SinkPc.inside] at inside
  | joins idle point => simp [inside_idle _ _ _ idle, Pipe.base, point, MainPc.inside] at inside
  | @noSource i dead =>
      cases point : s.sources i <;>
        simp_all [Pipe.inside, Pipe.base, SourcePc.inside, SourcePc.life, Pipe.interruptible]
  | @noElaborator i dead =>
      cases point : s.elaborators i <;>
        simp_all [Pipe.inside, Pipe.base, ElaboratePc.inside, ElaboratePc.life, Pipe.interruptible]
  | @noSink i dead =>
      cases point : s.sinks i <;>
        simp_all [Pipe.inside, Pipe.base, SinkPc.inside, SinkPc.life, Pipe.interruptible]
  | ended ended => exact (ended.elim running.1 running.2).elim

theorem owner_ready (duties : Duties prog s) (locks : MutexInv s) (clear : Clear s)
    (running : s.main ≠ .exited ∧ s.main ≠ .failed) (buf : Buf) (t : Tid) (held : s.owner buf = some t) : GoesOn prog s := by
  have last : ∀ u, s.owner .elaborated = some u → GoesOn prog s := by
    intro u owned
    have inside := (locks.exclusive .elaborated u).mpr owned
    refine (ready_or_stalled duties u).elim id fun stalled => ?_
    obtain ⟨other, owner, wanted, _⟩ := inside_stalled u .elaborated locks running inside stalled
    have nothing := owner_wants s u .elaborated clear inside
    simp [wanted] at nothing
  have inside := (locks.exclusive buf t).mpr held
  refine (ready_or_stalled duties t).elim id fun stalled => ?_
  obtain ⟨other, owner, wanted, owned⟩ := inside_stalled t buf locks running inside stalled
  rcases owner_wants s t buf clear inside with nothing | ⟨_, second⟩
  · simp [wanted] at nothing
  · cases wanted.symm.trans second
    exact last owner owned

end Ready

theorem elaborator_sleeps (prog : Prog) (s next : Pipe) (action : UserAction) (out : List UserEvent) (i : Nat)
    (move : PipeMove prog s action next out) (after : next.elaborators i = .wait) :
    s.elaborators i = .wait ∨ next.rbuffer.done = false := by
  cases move with
  | source move => exact .inl (roused_wait _ _ _ _ ((source_frame prog s next _ out move).roused i) after)
  | elaborate move => exact (elaborate_waits prog.change s next i _ out move after).imp_right And.right
  | sink move => exact .inl ((sink_frame prog s next _ out move).elaborators ▸ after)
  | main move => exact .inl (of_decide_eq_true (main_asleep prog s next .raw i out move (decide_eq_true after)).1)
  | hand move => exact .inl ((hand_frame s next _ move).elaborators ▸ after)
  | call move | ret move => exact .inl (by cases move <;> exact after)
  | @spuriousR j => exact .inl (update_wait _ _ _ i j (by simp) after)
  | spuriousE | sigint => exact .inl after

theorem sink_sleeps (prog : Prog) (s next : Pipe) (action : UserAction) (out : List UserEvent) (i : Nat)
    (move : PipeMove prog s action next out) (after : next.sinks i = .wait) :
    s.sinks i = .wait ∨ next.ebuffer.done = false := by
  cases move with
  | source move => exact .inl ((source_frame prog s next _ out move).sinks ▸ after)
  | elaborate move => exact .inl (roused_wait _ _ _ _ ((elaborate_frame prog.change s next _ out move).roused i) after)
  | sink move => exact (sink_waits prog s next i _ out move after).imp_right And.right
  | main move => exact .inl (of_decide_eq_true (main_asleep prog s next .elaborated i out move (decide_eq_true after)).1)
  | hand move => exact .inl ((hand_frame s next _ move).sinks ▸ after)
  | call move =>
      cases move with
      | @write j => exact .inl (update_wait _ _ _ i j (by simp) after)
      | _ => exact .inl after
  | ret move =>
      cases move with
      | @written j | @refused j => exact .inl (update_wait _ _ _ i j (by simp) after)
      | _ => exact .inl after
  | @spuriousE j => exact .inl (update_wait _ _ _ i j (by simp) after)
  | spuriousR | sigint => exact .inl after

def Pipe.pastRelease (s : Pipe) (buf : Buf) : Prop := s.main = .relUnlock buf ∨ s.hasReleased buf

theorem main_release_point (prog : Prog) (s next : Pipe) (out : List UserEvent) (buf : Buf) (move : MainMove prog s next out)
    (after : next.pastRelease buf) : s.pastRelease buf ∨ s.main = .relSet buf := by
  cases move with
  | @relSet held point | @relAcquire held _ point =>
      cases held <;> cases buf <;> simp_all [Pipe.pastRelease, Pipe.hasReleased, Pipe.setMain, MainPc.phase]
  | @relUnlock held point =>
      cases held <;> cases buf <;> simp_all [Pipe.pastRelease, Pipe.hasReleased, Pipe.setMain, MainPc.phase, Buf.released]
  | @create stage _ point | @join stage _ point =>
      cases stage <;> cases buf <;> simp_all [Pipe.pastRelease, Pipe.hasReleased, Pipe.setMain, MainPc.phase]
  | @spawned stage _ point =>
      cases stage <;> cases buf <;> simp_all [Pipe.pastRelease, Pipe.hasReleased, Pipe.setMain, MainPc.phase, Stage.spawned]
  | @joined stage _ point =>
      cases stage <;> cases buf <;> cases prog <;>
        simp_all [Pipe.pastRelease, Pipe.hasReleased, Pipe.setMain, MainPc.phase, Stage.joined]
  | boot point | ready point | counts point | init point | doneOver point | doneCheck point =>
      cases buf <;> simp_all [Pipe.pastRelease, Pipe.hasReleased, Pipe.setMain, MainPc.phase]

theorem release_point (prog : Prog) (s next : Pipe) (action : UserAction) (out : List UserEvent) (buf : Buf)
    (move : PipeMove prog s action next out) (after : next.pastRelease buf) :
    s.pastRelease buf ∨ s.main = .relSet buf ∧ MainMove prog s next out := by
  have stays : next.main = s.main → s.pastRelease buf := by
    intro same
    cases buf <;> simpa only [Pipe.pastRelease, Pipe.hasReleased, same] using after
  cases move with
  | source move => exact .inl (stays (source_frame prog s next _ out move).main)
  | elaborate move => exact .inl (stays (elaborate_frame prog.change s next _ out move).main)
  | sink move => exact .inl (stays (sink_frame prog s next _ out move).main)
  | main move => exact (main_release_point prog s next out buf move after).imp_right fun point => ⟨point, move⟩
  | hand move => exact .inl (stays (hand_frame s next _ move).main)
  | call move =>
      cases move with
      | openDev point | done point | closeDev point =>
          cases buf <;> simp_all [Pipe.pastRelease, Pipe.hasReleased, Pipe.setMain, MainPc.phase]
      | read | write => exact .inl (stays rfl)
  | @ret _ res _ _ _ move =>
      cases move with
      | openDev point | done point =>
          by_cases zero : res = 0 <;> cases buf <;>
            simp_all [Pipe.pastRelease, Pipe.hasReleased, Pipe.setMain, MainPc.phase]
      | closeDev point => cases buf <;> simp_all [Pipe.pastRelease, Pipe.hasReleased, Pipe.setMain, MainPc.phase]
      | read | written | refused => exact .inl (stays rfl)
  | spuriousR | spuriousE | sigint => exact .inl (stays rfl)

structure ReleasedAwake (s : Pipe) : Prop where
  done : ReleasedDone s
  awake : ∀ buf, s.pastRelease buf → ∀ i, s.asleep buf i = false

theorem released_awake_move (prog : Prog) (s next : Pipe) (action : UserAction) (out : List UserEvent) (inv : ReleasedAwake s)
    (move : PipeMove prog s action next out) : ReleasedAwake next := by
  have done := released_done_move prog s next action out inv.done move
  refine ⟨done, fun buf past i => ?_⟩
  by_contra sleeps
  have after : next.asleep buf i = true := by simpa using sleeps
  have before : s.asleep buf i = true := by
    have closed := done buf past
    cases buf with
    | raw =>
        have back := elaborator_sleeps prog s next action out i move (of_decide_eq_true after)
        exact decide_eq_true (back.resolve_right (by simpa [Pipe.buffer] using closed))
    | elaborated =>
        have back := sink_sleeps prog s next action out i move (of_decide_eq_true after)
        exact decide_eq_true (back.resolve_right (by simpa [Pipe.buffer] using closed))
  rcases release_point prog s next action out buf move past with already | ⟨point, own⟩
  · simp [inv.awake buf already i] at before
  · exact (main_asleep prog s next buf i out own after).2 point

section Runs

variable {prog : Prog} {ok : Pipe → UserAction → Prop} {arg : Int} {events : List UserEvent} {s : Pipe}

theorem duties_run (run : Run (pipeline prog) ok (programStart arg) events s) : Duties prog s := by
  induction run with
  | nil => exact ⟨fun _ _ => rfl, fun _ _ => rfl⟩
  | snoc action _ _ stepped ih => exact duties_move prog _ _ action _ ih (pipe_moves prog _ _ action _ stepped)

theorem released_awake_run (run : Run (pipeline prog) ok (programStart arg) events s) : ReleasedAwake s := by
  induction run with
  | nil =>
      have early : ∀ buf, ¬ (programStart arg).pastRelease buf := by
        intro buf past
        cases buf <;> simp [Pipe.pastRelease, Pipe.hasReleased, programStart, MainPc.phase] at past
      exact ⟨fun buf past => absurd past (early buf), fun buf past => absurd past (early buf)⟩
  | snoc action _ _ stepped ih => exact released_awake_move prog _ _ action _ ih (pipe_moves prog _ _ action _ stepped)

theorem joined_ready (run : Run (pipeline prog) ok (programStart arg) events s) (stage : Stage) (i : Nat)
    (point : s.main = .join stage i) (more : i < s.count stage) (alive : s.hasExited i stage = false) :
    GoesOn prog s ∨ ∃ t owner buf, s.wants t = some buf ∧ s.owner buf = some owner := by
  have duties := duties_run run
  have live : s.life i stage = .live := by
    have spawned := (join_inv_run run).created stage i (spawned_late _ _ _ (by simp [point, join_late])) more
    cases stage <;> simp only [Pipe.hasExited, decide_eq_false_iff_not, Pipe.life] at alive spawned ⊢
    · cases at_ : s.sources i <;> simp_all [SourcePc.life]
    · cases at_ : s.elaborators i <;> simp_all [ElaboratePc.life]
    · cases at_ : s.sinks i <;> simp_all [SinkPc.life]
  cases stage with
  | source =>
      refine (ready_or_stalled duties (.source i)).imp_right fun stalled => ?_
      cases stalled with
      | locked wanted held => exact ⟨_, _, _, wanted, held⟩
      | noSource dead => exact (dead live).elim
  | elaborate =>
      refine (ready_or_stalled duties (.elaborate i)).imp_right fun stalled => ?_
      cases stalled with
      | locked wanted held => exact ⟨_, _, _, wanted, held⟩
      | elaborator _ asleep =>
          have awake := (released_awake_run run).awake .raw (.inr (by simp [Pipe.hasReleased, point, MainPc.phase])) i
          simp [Pipe.asleep, asleep] at awake
      | noElaborator dead => exact (dead live).elim
  | sink =>
      refine (ready_or_stalled duties (.sink i)).imp_right fun stalled => ?_
      cases stalled with
      | locked wanted held => exact ⟨_, _, _, wanted, held⟩
      | sink _ asleep =>
          have awake := (released_awake_run run).awake .elaborated (.inr (by simp [Pipe.hasReleased, point, MainPc.phase])) i
          simp [Pipe.asleep, asleep] at awake
      | noSink dead => exact (dead live).elim

theorem running_goes_on (run : Run (pipeline prog) InterruptsOutside (programStart arg) events s)
    (running : s.main ≠ .exited ∧ s.main ≠ .failed) : GoesOn prog s := by
  have duties := duties_run run
  have owners : ∀ buf owner, s.owner buf = some owner → GoesOn prog s := fun buf owner held =>
    owner_ready duties (mutex_inv_run run) (clear_run run) running buf owner held
  refine (ready_or_stalled duties .main).elim id fun stalled => ?_
  cases stalled with
  | locked _ held => exact owners _ _ held
  | @joins stage i _ point more alive =>
      rcases joined_ready run stage i point more alive with ready | ⟨_, owner, buf, _, held⟩
      · exact ready
      · exact owners buf owner held
  | ended ended => exact (ended.elim running.1 running.2).elim

theorem calm_outside (run : Run (pipeline prog) NoSigint (programStart arg) events s) :
    Run (pipeline prog) InterruptsOutside (programStart arg) events s := by
  induction run with
  | nil => exact .nil
  | snoc action before quiet stepped ih =>
      refine .snoc action ih ?_ stepped
      cases action with
      | go t choice => exact fun handling => absurd ((calm_run before).hands t) (by rw [handling]; simp)
      | _ => trivial

end Runs

end MyDev
