import MyDev.Library.Potential
import MyDev.ModuleInit
import MyDev.SystemProgress

set_option autoImplicit false

namespace MyDev

open Library

-- Whether main has the device open. Inside open and close it is the statement
-- on dev_run that decides.
def MainPc.opened : MainPc → Pc → Bool
  | .boot, _ | .ready, _ | .openDev, _ | .exited, _ | .failed, _ => false
  | .inOpen, .openUnlock | .inOpen, .ret _ _ => true
  | .inOpen, _ => false
  | .inClose, .closeLock | .inClose, .closeRun => true
  | .inClose, _ => false
  | _, _ => true

def MainPc.share (point : MainPc × Pc) : Nat := if point.1.opened point.2 then 1 else 0

theorem main_share (prog : Prog) (s next : Pipe) (out : List UserEvent) (pc : Pc) (move : MainMove prog s next out) :
    MainPc.share (next.main, pc) = MainPc.share (s.main, pc) := by
  cases move with
  | @spawned stage _ point => cases stage <;> simp [MainPc.share, MainPc.opened, Pipe.setMain, point, Stage.spawned]
  | @joined stage _ point => cases stage <;> cases prog <;> simp [MainPc.share, MainPc.opened, Pipe.setMain, point, Stage.joined]
  | @relUnlock buf point => cases buf <;> simp [MainPc.share, MainPc.opened, Pipe.setMain, point, Buf.released]
  | boot point | ready point | counts point | init point | create point | join point | relAcquire point | relSet point
  | doneOver point | doneCheck point => simp [MainPc.share, MainPc.opened, Pipe.setMain, point]

theorem call_share (prog : Prog) (s next : Pipe) (op : Op) (pc : Pc) (move : CallMove prog s .main op next) :
    MainPc.share (next.main, op.entry) = MainPc.share (s.main, pc) := by
  cases move with
  | openDev point | done point | closeDev point => simp [MainPc.share, MainPc.opened, Pipe.setMain, point, Op.entry]

theorem ret_share (s next : Pipe) (res : Int) (got : Bytes) (out : List UserEvent) (success : s.main = .inOpen → res = 0)
    (move : RetMove s res got .main next out) :
    MainPc.share (next.main, .user) = MainPc.share (s.main, .ret res got) := by
  cases move with
  | openDev point => simp [MainPc.share, MainPc.opened, Pipe.setMain, point, success point]
  | done point =>
      simp only [MainPc.share, Pipe.setMain, point]
      split <;> rfl
  | closeDev point => simp [MainPc.share, MainPc.opened, Pipe.setMain, point]

section Call

variable {ι : Type} [DecidableEq ι]

@[simp] theorem put_run (s : Dev ι) (t : ι) (task : Task) : (s.put t task).devRun = s.devRun := rfl

@[simp] theorem goto_run (s : Dev ι) (t : ι) (pc : Pc) : (s.goto t pc).devRun = s.devRun := rfl

theorem client_share (s next : Dev ι) (t : ι) (env : Env) (out : List (Event ι)) (main : MainPc)
    (move : ClientMove s t env next out) (linked : Linked (fun op pc => pc.Serves op) main.waiting (s.tasks t).pc) :
    next.devRun + MainPc.share (main, (s.tasks t).pc) = s.devRun + MainPc.share (main, (next.tasks t).pc) := by
  cases main with
  | inOpen | inClose =>
      cases move with
      | «local» move => exact (local_not_brief s env _ _ _ (by simp) (local_move_pc s env _ _ move) linked).elim
      | acquire _ entered =>
          simp only [goto_tasks, if_true]
          unfold Pc.locked at entered
          split at entered <;> cases entered <;> simp_all [MainPc.waiting, Linked, Pc.Serves]
          rfl
      | release left =>
          simp only [goto_tasks, if_true]
          unfold Pc.unlocked at left
          split at left <;> cases left <;> simp_all [MainPc.waiting, Linked, Pc.Serves]
          rfl
      | opened point | closed point =>
          simp only [goto_tasks, if_true, goto_run, my_open_run, myClose]
          rw [point] at linked ⊢
          first | exact linked.elim | simp [MainPc.share, MainPc.opened]
      | popped point | wakeWriters point | pushed point | wakeReaders point =>
          rw [point] at linked
          exact linked.elim
  | inDone =>
      have same : next.devRun = s.devRun := by
        refine client_move_run s next t env out ?_ ?_ move <;> intro point <;> rw [point] at linked <;> exact linked
      rw [same]
      rfl
  | _ => exact (client_not_user s next t env out move linked).elim

-- A kernel thread at work has seen dev_run at something else than 0 and holds
-- dev_mutex, which my_open and my_close need.
theorem work_open {events : List (Event ι)} {s : Dev ι} (run : Run (device ι) Any (myModuleInit ι) events s) :
    ∀ k, (s.kts k).pc = .work → s.devRun ≠ 0 := by
  refine Run.invariant (fun _ s => ∀ k, (s.kts k).pc = .work → s.devRun ≠ 0) ?_ ?_ run
  · intro k working
    cases working
  · intro _ s action next out before inv _ stepped k working
    cases device_moves s next action out stepped with
    | client move =>
        have locks := lock_inv_run before
        cases move with
        | opened point | closed point =>
            have working : (s.kts k).pc = .work := by simpa [myClose] using working
            have held := (locks.kernel k).mp (by rw [working]; rfl)
            have mine := (locks.clients _).mp (by rw [point]; rfl)
            cases held.symm.trans mine
        | _ => exact inv k working
    | @kt j _ _ _ move =>
        rw [kt_move_run s next j out move]
        by_cases here : k = j
        · subst here
          cases move with
          | test =>
              simp only [goto_kt_kts, if_true] at working
              split at working
              · assumption
              · cases working
          | proceed =>
              simp only [goto_kt_kts, if_true] at working
              split at working <;> cases working
          | setState => simp at working
          | acquire | sampled | statOops | resized | reallocOops | release | wake => simp at working
        · exact inv k (by cases move <;> simpa [here] using working)
    | @timer j =>
        by_cases here : k = j
        · subst here
          exact inv k (by simpa using working)
        · exact inv k (by simpa [here] using working)
    | _ => exact inv k working

end Call

section Count

variable {π : Type} [DecidableEq π] {config : Config π} {ok : Sys π Empty → SysAction π Empty → Prop}
  {events : List (SysEvent π Empty)} {s : Sys π Empty}

def Sys.opened (s : Sys π Empty) (p : π) : Bool := (s.pipes p).main.opened (s.dev.tasks (.inl (p, .main))).pc

def Sys.mains (s : Sys π Empty) (p : π) : MainPc × Pc := ((s.pipes p).main, (s.dev.tasks (.inl (p, .main))).pc)

inductive OpenTurn (s next : Sys π Empty) : Prop where
  | still (same : next.mains = s.mains) (run : next.dev.devRun = s.dev.devRun)
  | turn {p : π} {point : MainPc × Pc} (changed : next.mains = Function.update s.mains p point)
      (run : next.dev.devRun + MainPc.share (s.mains p) = s.dev.devRun + MainPc.share point)

theorem mains_update (s next : Sys π Empty) (p : π) (others : ∀ q, q ≠ p → next.mains q = s.mains q) :
    next.mains = Function.update s.mains p (next.mains p) := by
  funext q
  by_cases here : q = p
  · rw [here, Function.update_self]
  · rw [Function.update_of_ne here, others q here]

theorem pipe_share (prog : Prog) (s next : Pipe) (action : UserAction) (out : List UserEvent) (pc : Pc)
    (inside : action.internal = true) (move : PipeMove prog s action next out) :
    MainPc.share (next.main, pc) = MainPc.share (s.main, pc) := by
  cases move with
  | main move => exact main_share prog s next out pc move
  | source move => rw [(source_frame _ _ _ _ _ move).main]
  | elaborate move => rw [(elaborate_frame _ _ _ _ _ move).main]
  | sink move => rw [(sink_frame _ _ _ _ _ move).main]
  | hand move => rw [(hand_frame _ _ _ move).main]
  | call | ret => cases inside
  | spuriousR | spuriousE | sigint => rfl

theorem open_turn_dev (dev : Dev (Client π Empty)) (action : Action (Client π Empty)) (out : List (Event (Client π Empty)))
    (link : LinkInv s) (free : action.unattended = true) (move : DevMove s.dev action dev out) : OpenTurn s (s.setDev dev) := by
  by_cases own : ∃ q, action.client = some (.inl (q, .main))
  · obtain ⟨q, own⟩ := own
    refine .turn (mains_update s _ q fun p other => ?_) ?_
    · rcases unattended_move _ _ action out p .main free move with ⟨_, rfl, _⟩ | ⟨_, same⟩
      · cases own
        exact absurd rfl other
      · exact Prod.ext rfl same
    · rcases unattended_move _ _ action out q .main free move with ⟨env, _, going⟩ | ⟨other, _⟩
      · exact client_share _ _ _ env out (s.pipes q).main going (link q .main)
      · exact absurd own other
  · refine .still (funext fun p => ?_) ?_
    · rcases unattended_move _ _ action out p .main free move with ⟨_, rfl, _⟩ | ⟨_, same⟩
      · exact absurd ⟨p, rfl⟩ own
      · exact Prod.ext rfl same
    · cases move with
      | call | ret | signal | timer => rfl
      | kt move => exact kt_move_run _ _ _ _ move
      | @client t env _ _ move =>
          rcases t with ⟨q, u⟩ | other
          · have linked := link q u
            have elsewhere : u ≠ .main := fun main => own ⟨q, by rw [main]; rfl⟩
            refine client_move_run _ _ _ env out ?_ ?_ move <;> intro point <;> rw [point] at linked
            all_goals
              cases waits : (s.pipes q).waiting u with
              | none => rw [waits] at linked; cases linked
              | some op =>
                  rw [waits] at linked
                  cases waits_cases _ u op waits with
                  | openDev | done | closeDev => exact elsewhere rfl
                  | read | write => exact linked
          · exact other.elim

theorem open_turn (next : Sys π Empty) (action : SysAction π Empty) (out : List (SysEvent π Empty))
    (before : Run (system config) ok (systemStart config) events s) (move : SysMove config s action next out) :
    OpenTurn s next := by
  cases move with
  | @user q action pipe out inside moved =>
      refine .turn (mains_update s _ q fun p other => by simp [Sys.mains, Sys.setPipe, other]) ?_
      have same := pipe_share _ _ _ _ _ (s.dev.tasks (.inl (q, .main))).pc inside (pipe_moves _ _ _ _ _ moved)
      simp [Sys.mains, Sys.setPipe, same]
  | @call q u op pipe calm asked idle =>
      have call := request_moves _ _ _ _ _ asked
      by_cases main : u = .main
      · subst main
        refine .turn (mains_update s _ q fun p other => by simp [Sys.mains, Sys.setPipe, Sys.setDev, other]) ?_
        have same := call_share _ _ _ _ (s.dev.tasks (.inl (q, .main))).pc call
        simp [Sys.mains, Sys.setPipe, Sys.setDev, same]
      · refine .still (funext fun p => ?_) rfl
        have same := call_main _ _ _ _ _ call main
        by_cases mine : p = q
        · subst mine
          simp [Sys.mains, Sys.setPipe, Sys.setDev, Ne.symm main, same]
        · simp [Sys.mains, Sys.setPipe, Sys.setDev, mine]
  | @ret q u res got pipe out point returned =>
      have ret := ret_moves _ _ _ _ _ _ returned
      by_cases main : u = .main
      · subst main
        refine .turn (mains_update s _ q fun p other => by simp [Sys.mains, Sys.setPipe, Sys.setDev, other]) ?_
        have success : (s.pipes q).main = .inOpen → res = 0 := by
          intro there
          have opened := opens_run before q .main
          rw [show (s.pipes q).waiting .main = some .myOpen by simp [Pipe.waiting, there, MainPc.waiting], point] at opened
          exact opened.2 rfl
        have same := ret_share _ _ _ _ _ success ret
        simp [Sys.mains, Sys.setPipe, Sys.setDev, same, point]
      · refine .still (funext fun p => ?_) rfl
        have same := (ret_main _ _ _ _ _ _ ret main).1
        by_cases mine : p = q
        · subst mine
          simp [Sys.mains, Sys.setPipe, Sys.setDev, Ne.symm main, same]
        · simp [Sys.mains, Sys.setPipe, Sys.setDev, mine]
  | @dev action dev out free stepped =>
      exact open_turn_dev dev action out (link_run before) free (device_moves _ _ _ _ stepped)

variable [Fintype π]

theorem open_run (run : Run (system config) ok (systemStart config) events s) :
    s.dev.devRun = load Finset.univ s.mains MainPc.share := by
  refine Run.invariant (fun _ s => s.dev.devRun = (load Finset.univ s.mains MainPc.share : Int)) ?_ ?_ run
  · exact (congrArg Nat.cast (load_const Finset.univ MainPc.share (MainPc.boot, Pc.user))).symm
  · intro events s action next out before law _ stepped
    cases open_turn next action out before (system_moves config s next action out stepped) with
    | still same run => rw [run, same, law]
    | @turn p point changed run =>
        have counted := load_update Finset.univ s.mains MainPc.share p point (Finset.mem_univ p)
        rw [changed]
        omega

omit [DecidableEq π] in
theorem opened_load (s : Sys π Empty) :
    load Finset.univ s.mains MainPc.share = (Finset.univ.filter (s.opened · = true)).card := by
  rw [Finset.card_filter]
  rfl

theorem dev_run_counts_openers (run : Run (system config) Any (systemStart config) events s) :
    s.dev.devRun = (Finset.univ.filter (s.opened · = true)).card ∧ ((∀ p, s.ended p) → s.dev.devRun = 0) ∧
      ∀ k, (s.dev.kts k).pc = .work → ∃ p, s.opened p = true := by
  have counted : s.dev.devRun = (Finset.univ.filter (s.opened · = true)).card := by
    rw [open_run run, opened_load]
  refine ⟨counted, fun gone => ?_, fun k working => ?_⟩
  · rw [counted, Finset.filter_false_of_mem]
    · rfl
    · intro p _
      rcases gone p with ended | ended <;> simp [Sys.opened, ended, MainPc.opened]
  · by_contra nobody
    refine work_open (system_device_any run) k working ?_
    rw [counted, Finset.filter_false_of_mem fun p _ opened => nobody ⟨p, opened⟩]
    rfl

end Count

-- kt_stat works for the Writer while the Reader is still on its way in.
def openingSchedule : List (SysAction Bool Empty) :=
  usersGo true .main 2 ++ wholeCall true .main 3 ++ usersGo false .main 2 ++ [SysAction.call false .main] ++
    List.replicate 4 (.dev (.kt .ktStat {}))

theorem dev_run_counts_openers_opening : ∃ (events : List (SysEvent Bool Empty)) (s : Sys Bool Empty),
    Run (system (onePair 1 0)) Any (systemStart (onePair 1 0)) events s ∧ (s.dev.kts .ktStat).pc = .work ∧
    (s.pipes false).main = .inOpen ∧ s.dev.devRun = 1 ∧ (Finset.univ.filter (s.opened · = true)).card = 1 ∧
    ∃ p, s.opened p = true := by
  obtain ⟨events, s, run, seen⟩ := exec_reaches_any (system (onePair 1 0)) (systemStart (onePair 1 0)) openingSchedule
    (fun s _ => (s.dev.kts .ktStat).pc = .work ∧ (s.pipes false).main = .inOpen ∧ s.dev.devRun = 1) (by decide +kernel)
  obtain ⟨working, entering, opened⟩ :
      (s.dev.kts .ktStat).pc = .work ∧ (s.pipes false).main = .inOpen ∧ s.dev.devRun = 1 := by simpa using seen
  obtain ⟨counted, _, someone⟩ := dev_run_counts_openers run
  rw [opened] at counted
  exact ⟨events, s, run, working, entering, opened, by exact_mod_cast counted.symm, someone .ktStat working⟩

end MyDev
