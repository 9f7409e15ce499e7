import MyDev.Library.Lists
import MyDev.PipelineDrain

set_option autoImplicit false

namespace MyDev

open Library

def UserEvent.bySource : UserEvent → Bool
  | .put _ | .outcome _ _ | .terminator _ => true
  | _ => false

inductive SourceEffect (prog : Prog) (s next : Pipe) (out : List UserEvent) : Prop where
  | still (sources : next.sources = s.sources) (todo : next.todo = s.todo) (loop : next.loop = s.loop)
      (made : next.made = s.made) (silent : ∀ event ∈ out, event.bySource = false)
  | born {i : Nat} (unborn : s.sources i = .off) (created : next = (s.setSource i .lock).setMain (.spawn .source (i + 1)))
      (silent : out = [])
  | works {i : Nat} (move : SourceMove prog s i next out)
  | asks {i : Nat} (role : prog = .reader) (point : s.sources i = .read) (asked : next = s.setSource i .inRead)
      (silent : out = [])
  | hears {i : Nat} {res : Int} {got : Bytes} (point : s.sources i = .inRead) (heard : next = s.setSource i (.took res got))
      (observed : out = [.outcome res got])

theorem source_effect_main (prog : Prog) (s next : Pipe) (out : List UserEvent) (join : JoinInv s)
    (move : MainMove prog s next out) : SourceEffect prog s next out := by
  cases move with
  | @create stage i point more =>
      cases stage with
      | source =>
          have unborn := unborn_off s .source i join point
          refine .born (i := i) ?_ rfl rfl
          simp only [Pipe.life] at unborn
          cases pc : s.sources i <;> rw [pc] at unborn <;> first | rfl | cases unborn
      | elaborate | sink => exact .still rfl rfl rfl rfl (by simp)
  | relAcquire _ free =>
      rcases lock_main_spec _ _ _ _ free with rfl | rfl <;> exact .still rfl rfl rfl rfl (by simp)
  | @relSet buf | @relUnlock buf => cases buf <;> exact .still rfl rfl rfl rfl (by simp)
  | doneCheck => exact .still rfl rfl rfl rfl (by simp [UserEvent.bySource])
  | _ => exact .still rfl rfl rfl rfl (by simp)

theorem source_effect (prog : Prog) (s next : Pipe) (action : UserAction) (out : List UserEvent) (join : JoinInv s)
    (calm : Calm s) (quiet : NoSigint s action) (move : PipeMove prog s action next out) : SourceEffect prog s next out := by
  cases move with
  | source move => exact .works move
  | elaborate move =>
      have frame := elaborate_frame prog.change s next _ out move
      refine .still frame.sources frame.todo frame.loop frame.made ?_
      cases move <;> simp [UserEvent.bySource]
  | sink move =>
      have frame := sink_frame prog s next _ out move
      refine .still frame.sources frame.todo frame.loop frame.made ?_
      cases move <;> simp [UserEvent.bySource]
  | main move => exact source_effect_main prog s next out join move
  | hand move => exact (hand_absent s next _ calm move).elim
  | call move =>
      cases move with
      | read role point => exact .asks role point rfl rfl
      | _ => exact .still rfl rfl rfl rfl (by simp)
  | ret move =>
      cases move with
      | read point => exact .hears point rfl rfl
      | _ => exact .still rfl rfl rfl rfl (by simp [UserEvent.bySource])
  | spuriousR | spuriousE => exact .still rfl rfl rfl rfl (by simp)
  | sigint => exact quiet.elim

def SourcePc.stopped : SourcePc → Bool
  | .unlock true | .sleep true | .exited => true
  | _ => false

theorem source_stopped {prog : Prog} {arg : Int} {events : List UserEvent} {s : Pipe} (nonneg : 0 ≤ arg) (small : arg < intMax)
    (run : Run (pipeline prog) NoSigint (programStart arg) events s) (past : Stage.source.joinPhase < s.main.phase) :
    (s.sources 0).stopped = true := by
  have gone := joined_exited run .source 0 past (start_count_pos prog arg _ nonneg small)
  simp only [Pipe.life] at gone
  cases pc : s.sources 0 <;> simp_all [SourcePc.stopped, SourcePc.life]

theorem rest_stopped (stop : Bool) :
    (if stop then SourcePc.exited else .lock).stopped = (SourcePc.sleep stop).stopped := by
  cases stop <;> rfl

end MyDev
