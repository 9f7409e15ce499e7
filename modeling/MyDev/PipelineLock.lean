import MyDev.Library.Mutex
import MyDev.PipelineFlow

set_option autoImplicit false

namespace MyDev

open Library

def SourcePc.inside : SourcePc → Bool
  | .ticket | .read | .inRead | .took _ _ | .unlock _ => true
  | .off | .lock | .sleep _ | .exited => false

def ElaboratePc.inside : Buf → ElaboratePc → Bool
  | .raw, .test | .raw, .unlockGot _ | .raw, .unlockStop => true
  | .elaborated, .insert _ | .elaborated, .unlockE => true
  | _, _ => false

def SinkPc.inside : SinkPc → Bool
  | .test | .act _ _ | .inWrite _ _ | .report _ _ | .unlock _ => true
  | .off | .lock | .wait | .sleep _ | .exited => false

def MainPc.inside (buf : Buf) : MainPc → Bool
  | .relSet held | .relUnlock held => held = buf
  | _ => false

def HandPc.inside : Buf → HandPc → Bool
  | .raw, .bodyR | .raw, .lockE | .raw, .unlockR => true
  | .elaborated, .unlockR | .elaborated, .bodyE | .elaborated, .unlockE => true
  | _, _ => false

def Pipe.base (s : Pipe) (buf : Buf) : Tid → Bool
  | .main => s.main.inside buf
  | .source i => buf = .raw && (s.sources i).inside
  | .elaborate i => (s.elaborators i).inside buf
  | .sink i => buf = .elaborated && (s.sinks i).inside

def Pipe.inside (s : Pipe) (buf : Buf) (t : Tid) : Bool := s.base buf t || (s.hands t).any (HandPc.inside buf)

def Pipe.owner (s : Pipe) : Buf → Option Tid
  | .raw => s.rmutex
  | .elaborated => s.emutex

def SourcePc.alive : SourcePc → Bool
  | .off | .exited | .inRead => false
  | _ => true

def ElaboratePc.alive : ElaboratePc → Bool
  | .off | .exited => false
  | _ => true

def SinkPc.alive : SinkPc → Bool
  | .off | .exited | .inWrite _ _ => false
  | _ => true

theorem interruptible_source (s : Pipe) (i : Nat) : s.interruptible (.source i) = (s.sources i).alive := by
  simp only [Pipe.interruptible]
  cases s.sources i <;> rfl

theorem interruptible_elaborate (s : Pipe) (i : Nat) : s.interruptible (.elaborate i) = (s.elaborators i).alive := by
  simp only [Pipe.interruptible]
  cases s.elaborators i <;> rfl

theorem interruptible_sink (s : Pipe) (i : Nat) : s.interruptible (.sink i) = (s.sinks i).alive := by
  simp only [Pipe.interruptible]
  cases s.sinks i <;> rfl

structure Others (s next : Pipe) (t : Tid) : Prop where
  base : ∀ buf u, u ≠ t → next.base buf u = s.base buf u
  alive : ∀ u, u ≠ t → s.interruptible u = true → next.interruptible u = true

theorem others_of (s next : Pipe) (t : Tid) (sources : ∀ i, .source i ≠ t → next.sources i = s.sources i)
    (elaborators : ∀ i, .elaborate i ≠ t → Roused .wait .lock (s.elaborators i) (next.elaborators i))
    (sinks : ∀ i, .sink i ≠ t → Roused .wait .lock (s.sinks i) (next.sinks i)) (main : .main ≠ t → next.main = s.main) :
    Others s next t := by
  refine ⟨fun buf u different => ?_, fun u different alive => ?_⟩
  · cases u with
    | main => simp only [Pipe.base, main different]
    | source i => simp only [Pipe.base, sources i different]
    | elaborate i => exact roused_same (ElaboratePc.inside buf) _ _ _ _ (elaborators i different) (by cases buf <;> rfl)
    | sink i =>
        have same := roused_same SinkPc.inside _ _ _ _ (sinks i different) rfl
        simp only [Pipe.base, same]
  · cases u with
    | main => simpa only [Pipe.interruptible, main different] using alive
    | source i => simpa only [Pipe.interruptible, sources i different] using alive
    | elaborate i =>
        rw [interruptible_elaborate] at alive ⊢
        exact (roused_same ElaboratePc.alive _ _ _ _ (elaborators i different) rfl).trans alive
    | sink i =>
        rw [interruptible_sink] at alive ⊢
        exact (roused_same SinkPc.alive _ _ _ _ (sinks i different) rfl).trans alive

theorem roused_refl {τ : Type} (wait lock pc : τ) : Roused wait lock pc pc := .inl rfl

theorem source_others (prog : Prog) (s next : Pipe) (j : Nat) (out : List UserEvent) (move : SourceMove prog s j next out) :
    Others s next (.source j) := by
  have frame := source_frame prog s next j out move
  obtain ⟨pc, updated⟩ := frame.mine
  apply others_of
  · intro i different
    rw [updated, Function.update_of_ne fun same => different (congrArg Tid.source same)]
  · intro i _
    exact frame.roused i
  · intro i _
    rw [frame.sinks]
    exact roused_refl _ _ _
  · intro _
    exact frame.main

theorem elaborate_others (change : Bytes → Bytes) (s next : Pipe) (j : Nat) (out : List UserEvent)
    (move : ElaborateMove change s j next out) : Others s next (.elaborate j) := by
  have frame := elaborate_frame change s next j out move
  obtain ⟨pc, updated⟩ := frame.mine
  apply others_of
  · intro i _
    rw [frame.sources]
  · intro i different
    rw [updated, Function.update_of_ne fun same => different (congrArg Tid.elaborate same)]
    exact roused_refl _ _ _
  · intro i _
    exact frame.roused i
  · intro _
    exact frame.main

theorem sink_others (prog : Prog) (s next : Pipe) (j : Nat) (out : List UserEvent) (move : SinkMove prog s j next out) :
    Others s next (.sink j) := by
  have frame := sink_frame prog s next j out move
  obtain ⟨pc, updated⟩ := frame.mine
  apply others_of
  · intro i _
    rw [frame.sources]
  · intro i _
    rw [frame.elaborators]
    exact roused_refl _ _ _
  · intro i different
    rw [updated, Function.update_of_ne fun same => different (congrArg Tid.sink same)]
    exact roused_refl _ _ _
  · intro _
    exact frame.main

theorem spawn_off (s : Pipe) (stage : Stage) (i : Nat) (inv : JoinInv s) (point : s.main = .spawn stage i) :
    s.life i stage = .off := by
  by_contra born
  have spawned := (inv.born stage i born).2
  rw [point, has_spawned_spawn] at spawned
  rcases spawned with less | ⟨_, less⟩ <;> omega

theorem life_source_off (s : Pipe) (i : Nat) (off : s.life i .source = .off) : s.sources i = .off := by
  cases point : s.sources i <;> simp [Pipe.life, point, SourcePc.life] at off
  rfl

theorem life_elaborate_off (s : Pipe) (i : Nat) (off : s.life i .elaborate = .off) : s.elaborators i = .off := by
  cases point : s.elaborators i <;> simp [Pipe.life, point, ElaboratePc.life] at off
  rfl

theorem life_sink_off (s : Pipe) (i : Nat) (off : s.life i .sink = .off) : s.sinks i = .off := by
  cases point : s.sinks i <;> simp [Pipe.life, point, SinkPc.life] at off
  rfl

theorem update_off {τ : Type} (threads : Nat → τ) (off pc : τ) (i j : Nat) (inside alive : τ → Bool) (was : threads j = off)
    (out : inside off = inside pc) (dead : alive off = false) :
    inside (Function.update threads j pc i) = inside (threads i) ∧
      (alive (threads i) = true → alive (Function.update threads j pc i) = true) := by
  by_cases here : i = j
  · subst here
    rw [Function.update_self, was, out]
    exact ⟨rfl, fun lives => by simp [dead] at lives⟩
  · rw [Function.update_of_ne here]
    exact ⟨rfl, id⟩

theorem create_others (s : Pipe) (stage : Stage) (j : Nat) (pc : MainPc) (off : s.life j stage = .off) :
    Others s ((s.create j stage).setMain pc) .main := by
  cases stage with
  | source =>
      have was := life_source_off s j off
      have kept := fun i => update_off s.sources .off .lock i j SourcePc.inside SourcePc.alive was rfl rfl
      refine ⟨fun buf u different => ?_, fun u different => ?_⟩
      · cases u with
        | source i => exact congrArg (decide (buf = .raw) && ·) (kept i).1
        | main => exact absurd rfl different
        | _ => rfl
      · cases u with
        | source i => rw [interruptible_source, interruptible_source]; exact (kept i).2
        | main => exact absurd rfl different
        | _ => exact id
  | elaborate =>
      have was := life_elaborate_off s j off
      have kept := fun buf i => update_off s.elaborators .off .lock i j (ElaboratePc.inside buf) ElaboratePc.alive was
        (by cases buf <;> rfl) rfl
      refine ⟨fun buf u different => ?_, fun u different => ?_⟩
      · cases u with
        | elaborate i => exact (kept buf i).1
        | main => exact absurd rfl different
        | _ => rfl
      · cases u with
        | elaborate i => rw [interruptible_elaborate, interruptible_elaborate]; exact (kept .raw i).2
        | main => exact absurd rfl different
        | _ => exact id
  | sink =>
      have was := life_sink_off s j off
      have kept := fun i => update_off s.sinks .off .lock i j SinkPc.inside SinkPc.alive was rfl rfl
      refine ⟨fun buf u different => ?_, fun u different => ?_⟩
      · cases u with
        | sink i => exact congrArg (decide (buf = .elaborated) && ·) (kept i).1
        | main => exact absurd rfl different
        | _ => rfl
      · cases u with
        | sink i => rw [interruptible_sink, interruptible_sink]; exact (kept i).2
        | main => exact absurd rfl different
        | _ => exact id

theorem main_others (prog : Prog) (s next : Pipe) (out : List UserEvent) (inv : JoinInv s) (move : MainMove prog s next out) :
    Others s next .main := by
  have still : ∀ i, Roused SinkPc.wait .lock (s.sinks i) (s.sinks i) := fun _ => roused_refl _ _ _
  have idle : ∀ i, Roused ElaboratePc.wait .lock (s.elaborators i) (s.elaborators i) := fun _ => roused_refl _ _ _
  cases move with
  | @create stage j point more => exact create_others s stage j _ (spawn_off s stage j inv point)
  | @relSet buf =>
      cases buf with
      | raw =>
          exact others_of s _ .main (fun _ _ => rfl) (fun i _ => cond_broadcast_roused _ _ s.elaborators i) (fun i _ => still i)
            (fun different => absurd rfl different)
      | elaborated =>
          exact others_of s _ .main (fun _ _ => rfl) (fun i _ => idle i) (fun i _ => cond_broadcast_roused _ _ s.sinks i)
            (fun different => absurd rfl different)
  | relAcquire _ free =>
      rcases lock_main_spec _ _ _ _ free with rfl | rfl <;>
        exact others_of s _ .main (fun _ _ => rfl) (fun i _ => idle i) (fun i _ => still i) (fun different => absurd rfl different)
  | @relUnlock buf =>
      cases buf <;>
        exact others_of s _ .main (fun _ _ => rfl) (fun i _ => idle i) (fun i _ => still i) (fun different => absurd rfl different)
  | _ => exact others_of s _ .main (fun _ _ => rfl) (fun i _ => idle i) (fun i _ => still i) (fun different => absurd rfl different)

theorem base_others (prog : Prog) (s next : Pipe) (t : Tid) (out : List UserEvent) (inv : JoinInv s)
    (move : BaseMove prog s t next out) : Others s next t := by
  cases move with
  | source move => exact source_others prog s next _ out move
  | elaborate move => exact elaborate_others prog.change s next _ out move
  | sink move => exact sink_others prog s next _ out move
  | main move => exact main_others prog s next out inv move

theorem main_hands (prog : Prog) (s next : Pipe) (out : List UserEvent) (move : MainMove prog s next out) :
    next.hands = s.hands := by
  cases move with
  | @create stage => cases stage <;> rfl
  | @relSet buf => cases buf <;> rfl
  | relAcquire _ free => rcases lock_main_spec _ _ _ _ free with rfl | rfl <;> rfl
  | @relUnlock buf => cases buf <;> rfl
  | _ => rfl

theorem base_hands (prog : Prog) (s next : Pipe) (t : Tid) (out : List UserEvent) (move : BaseMove prog s t next out) :
    next.hands = s.hands := by
  cases move with
  | source move => exact (source_flow prog s next _ out move).1.hands
  | elaborate move => exact (elaborate_flow prog.change s next _ out move).1.hands
  | sink move => exact (sink_flow prog s next _ out move).1.hands
  | main move => exact main_hands prog s next out move

@[simp] theorem base_source (s : Pipe) (buf : Buf) (i : Nat) : s.base buf (.source i) = (buf = .raw && (s.sources i).inside) := rfl
@[simp] theorem base_elaborate (s : Pipe) (buf : Buf) (i : Nat) : s.base buf (.elaborate i) = (s.elaborators i).inside buf := rfl
@[simp] theorem base_sink (s : Pipe) (buf : Buf) (i : Nat) : s.base buf (.sink i) = (buf = .elaborated && (s.sinks i).inside) := rfl
@[simp] theorem base_main (s : Pipe) (buf : Buf) : s.base buf .main = s.main.inside buf := rfl

theorem source_mutex (prog : Prog) (s next : Pipe) (i : Nat) (out : List UserEvent) (buf : Buf)
    (move : SourceMove prog s i next out) :
    MutexMove (.source i) (s.owner buf) (next.owner buf) (s.base buf (.source i)) (next.base buf (.source i)) := by
  cases buf with
  | elaborated =>
      cases move with
      | create _ _ _ signalled | failed _ _ _ signalled | last _ _ _ _ signalled | receive _ _ _ _ signalled =>
          obtain ⟨_, rfl, _⟩ := signal_r_spec _ _ _ signalled
          exact .keep rfl rfl
      | _ => exact .keep rfl rfl
  | raw =>
      cases move with
      | acquire point free => exact .acquire free rfl (by simp [Pipe.setSource, SourcePc.inside])
      | spent point => exact .keep rfl (by simp [Pipe.setSource, point, SourcePc.inside])
      | ask _ point => exact .keep rfl (by simp [Pipe.setSource, point, SourcePc.inside])
      | create _ point _ signalled | failed _ point _ signalled | last _ point _ _ signalled | receive _ point _ _ signalled =>
          obtain ⟨_, rfl, _⟩ := signal_r_spec _ _ _ signalled
          exact .keep rfl (by simp [Pipe.setSource, point, SourcePc.inside])
      | release point => exact .release (by simp [point, SourcePc.inside]) rfl (by simp [Pipe.setSource, SourcePc.inside])
      | @rest stop point => exact .keep rfl (by cases stop <;> simp [Pipe.setSource, point, SourcePc.inside])

theorem elaborate_mutex (change : Bytes → Bytes) (s next : Pipe) (i : Nat) (out : List UserEvent) (buf : Buf)
    (move : ElaborateMove change s i next out) :
    MutexMove (.elaborate i) (s.owner buf) (next.owner buf) (s.base buf (.elaborate i)) (next.base buf (.elaborate i)) := by
  cases buf with
  | raw =>
      cases move with
      | acquire point free => exact .acquire free rfl (by simp [Pipe.setElaborator, ElaboratePc.inside])
      | wait point | release point | leave point =>
          exact .release (by simp [point, ElaboratePc.inside]) rfl (by simp [Pipe.setElaborator, ElaboratePc.inside])
      | insert point signalled =>
          obtain ⟨_, rfl, _⟩ := signal_e_spec _ _ _ signalled
          exact .keep rfl (by simp [Pipe.setElaborator, point, ElaboratePc.inside])
      | stop point | take point | convert point | acquireE point | releaseE point =>
          exact .keep rfl (by simp [Pipe.setElaborator, point, ElaboratePc.inside])
  | elaborated =>
      cases move with
      | acquireE point free => exact .acquire free rfl (by simp [Pipe.setElaborator, ElaboratePc.inside])
      | releaseE point =>
          exact .release (by simp [point, ElaboratePc.inside]) rfl (by simp [Pipe.setElaborator, ElaboratePc.inside])
      | insert point signalled =>
          obtain ⟨_, rfl, _⟩ := signal_e_spec _ _ _ signalled
          exact .keep rfl (by simp [Pipe.setElaborator, point, ElaboratePc.inside])
      | acquire point | stop point | wait point | take point | release point | convert point | leave point =>
          exact .keep rfl (by simp [Pipe.setElaborator, point, ElaboratePc.inside])

theorem sink_mutex (prog : Prog) (s next : Pipe) (i : Nat) (out : List UserEvent) (buf : Buf) (move : SinkMove prog s i next out) :
    MutexMove (.sink i) (s.owner buf) (next.owner buf) (s.base buf (.sink i)) (next.base buf (.sink i)) := by
  cases buf with
  | raw => cases move <;> exact .keep rfl rfl
  | elaborated =>
      cases move with
      | acquire point free => exact .acquire free rfl (by simp [Pipe.setSink, SinkPc.inside])
      | wait point | release point =>
          exact .release (by simp [point, SinkPc.inside]) rfl (by simp [Pipe.setSink, SinkPc.inside])
      | stop point | take point | giveUp _ point | settle _ point | print _ point =>
          exact .keep rfl (by simp [Pipe.setSink, point, SinkPc.inside])
      | @rest stop point => exact .keep rfl (by cases stop <;> simp [Pipe.setSink, point, SinkPc.inside])

theorem main_mutex (prog : Prog) (s next : Pipe) (out : List UserEvent) (buf : Buf)
    (unused : s.main = .init → s.owner buf = none) (move : MainMove prog s next out) :
    MutexMove .main (s.owner buf) (next.owner buf) (s.base buf .main) (next.base buf .main) := by
  cases move with
  | boot point | ready point | counts point | doneOver point | doneCheck point =>
      exact .keep (by cases buf <;> rfl) (by simp [Pipe.setMain, point, MainPc.inside])
  | init point =>
      refine .keep ?_ (by simp [Pipe.setMain, point, MainPc.inside])
      rw [unused point]
      cases buf <;> rfl
  | @create stage _ point => exact .keep (by cases buf <;> cases stage <;> rfl) (by simp [Pipe.setMain, point, MainPc.inside])
  | @spawned stage _ point =>
      exact .keep (by cases buf <;> rfl) (by cases stage <;> simp [Pipe.setMain, point, MainPc.inside, Stage.spawned])
  | join point => exact .keep (by cases buf <;> rfl) (by simp [Pipe.setMain, point, MainPc.inside])
  | @joined stage _ point =>
      exact .keep (by cases buf <;> rfl)
        (by cases stage <;> cases prog <;> simp [Pipe.setMain, point, MainPc.inside, Stage.joined])
  | @relAcquire held locked point free =>
      cases held <;> cases buf
      · obtain ⟨empty, rfl⟩ := lock_r_spec _ _ _ free
        exact .acquire empty rfl (by simp [Pipe.setMain, MainPc.inside])
      · obtain ⟨_, rfl⟩ := lock_r_spec _ _ _ free
        exact .keep rfl (by simp [Pipe.setMain, point, MainPc.inside])
      · obtain ⟨_, rfl⟩ := lock_e_spec _ _ _ free
        exact .keep rfl (by simp [Pipe.setMain, point, MainPc.inside])
      · obtain ⟨empty, rfl⟩ := lock_e_spec _ _ _ free
        exact .acquire empty rfl (by simp [Pipe.setMain, MainPc.inside])
  | @relSet held point =>
      exact .keep (by cases held <;> cases buf <;> rfl) (by simp [Pipe.setMain, point, MainPc.inside])
  | @relUnlock held point =>
      cases held <;> cases buf
      · exact .release (by simp [point, MainPc.inside]) rfl (by simp [Pipe.setMain, MainPc.inside, Buf.released])
      · exact .keep rfl (by simp [Pipe.setMain, point, MainPc.inside, Buf.released])
      · exact .keep rfl (by simp [Pipe.setMain, point, MainPc.inside, Buf.released])
      · exact .release (by simp [point, MainPc.inside]) rfl (by simp [Pipe.setMain, MainPc.inside, Buf.released])

theorem base_mutex (prog : Prog) (s next : Pipe) (t : Tid) (out : List UserEvent) (buf : Buf)
    (unused : s.main = .init → s.owner buf = none ∨ t ≠ .main) (move : BaseMove prog s t next out) :
    MutexMove t (s.owner buf) (next.owner buf) (s.base buf t) (next.base buf t) := by
  cases move with
  | source move => exact source_mutex prog s next _ out buf move
  | elaborate move => exact elaborate_mutex prog.change s next _ out buf move
  | sink move => exact sink_mutex prog s next _ out buf move
  | main move => exact main_mutex prog s next out buf (fun point => (unused point).resolve_right (fun different => different rfl)) move

theorem call_same (prog : Prog) (s next : Pipe) (t : Tid) (op : Op) (buf : Buf) (move : CallMove prog s t op next) :
    next.hands = s.hands ∧ next.owner buf = s.owner buf ∧ next.base buf t = s.base buf t := by
  cases move with
  | openDev point | done point | closeDev point =>
      exact ⟨rfl, by cases buf <;> rfl, by simp [Pipe.setMain, point, MainPc.inside]⟩
  | read _ point => exact ⟨rfl, by cases buf <;> rfl, by simp [Pipe.setSource, point, SourcePc.inside]⟩
  | write _ point => exact ⟨rfl, by cases buf <;> rfl, by simp [Pipe.setSink, point, SinkPc.inside]⟩

theorem ret_same (s next : Pipe) (t : Tid) (res : Int) (got : Bytes) (out : List UserEvent) (buf : Buf)
    (move : RetMove s res got t next out) :
    next.hands = s.hands ∧ next.owner buf = s.owner buf ∧ next.base buf t = s.base buf t := by
  cases move with
  | openDev point => exact ⟨rfl, by cases buf <;> rfl, by by_cases zero : res = 0 <;> simp [Pipe.setMain, point, MainPc.inside, zero]⟩
  | done point => exact ⟨rfl, by cases buf <;> rfl, by by_cases zero : res = 0 <;> simp [Pipe.setMain, point, MainPc.inside, zero]⟩
  | closeDev point => exact ⟨rfl, by cases buf <;> rfl, by simp [Pipe.setMain, point, MainPc.inside]⟩
  | read point => exact ⟨rfl, by cases buf <;> rfl, by simp [Pipe.setSource, point, SourcePc.inside]⟩
  | written point | refused point => exact ⟨rfl, by cases buf <;> rfl, by simp [Pipe.setSink, point, SinkPc.inside]⟩

theorem call_others (prog : Prog) (s next : Pipe) (t : Tid) (op : Op) (move : CallMove prog s t op next) : Others s next t := by
  have still : ∀ i, Roused SinkPc.wait .lock (s.sinks i) (s.sinks i) := fun _ => roused_refl _ _ _
  have idle : ∀ i, Roused ElaboratePc.wait .lock (s.elaborators i) (s.elaborators i) := fun _ => roused_refl _ _ _
  cases move with
  | openDev | done | closeDev =>
      exact others_of s _ .main (fun _ _ => rfl) (fun i _ => idle i) (fun i _ => still i) (fun different => absurd rfl different)
  | read =>
      refine others_of s _ _ (fun i different => ?_) (fun i _ => idle i) (fun i _ => still i) (fun _ => rfl)
      exact Function.update_of_ne (fun same => different (congrArg Tid.source same)) ..
  | write =>
      refine others_of s _ _ (fun _ _ => rfl) (fun i _ => idle i) (fun i different => .inl ?_) (fun _ => rfl)
      exact Function.update_of_ne (fun same => different (congrArg Tid.sink same)) ..

theorem ret_others (s next : Pipe) (t : Tid) (res : Int) (got : Bytes) (out : List UserEvent)
    (move : RetMove s res got t next out) : Others s next t ∧ s.interruptible t = false := by
  have still : ∀ i, Roused SinkPc.wait .lock (s.sinks i) (s.sinks i) := fun _ => roused_refl _ _ _
  have idle : ∀ i, Roused ElaboratePc.wait .lock (s.elaborators i) (s.elaborators i) := fun _ => roused_refl _ _ _
  cases move with
  | openDev point | done point | closeDev point =>
      refine ⟨?_, by simp [Pipe.interruptible, point]⟩
      exact others_of s _ .main (fun _ _ => rfl) (fun i _ => idle i) (fun i _ => still i) (fun different => absurd rfl different)
  | read point =>
      refine ⟨?_, by simp [Pipe.interruptible, point]⟩
      refine others_of s _ _ (fun i different => ?_) (fun i _ => idle i) (fun i _ => still i) (fun _ => rfl)
      exact Function.update_of_ne (fun same => different (congrArg Tid.source same)) ..
  | written point | refused point =>
      refine ⟨?_, by simp [Pipe.interruptible, point]⟩
      refine others_of s _ _ (fun _ _ => rfl) (fun i _ => idle i) (fun i different => .inl ?_) (fun _ => rfl)
      exact Function.update_of_ne (fun same => different (congrArg Tid.sink same)) ..

-- Each mutex is held by the thread inside its critical section, be it the thread
-- itself or the handler on top of it, never both; and handlers run only on
-- threads that can be interrupted.
structure MutexInv (s : Pipe) : Prop where
  exclusive : ∀ buf, Exclusive (s.owner buf) (s.inside buf)
  apart : ∀ t pc buf, s.hands t = some pc → pc.inside buf = true → s.base buf t = false
  alive : ∀ t, s.hands t ≠ none → s.interruptible t = true

theorem inside_idle (s : Pipe) (buf : Buf) (t : Tid) (idle : s.hands t = none) : s.inside buf t = s.base buf t := by
  simp [Pipe.inside, idle]

theorem mutex_inv_thread (s next : Pipe) (t : Tid) (inv : MutexInv s) (idle : s.hands t = none) (hands : next.hands = s.hands)
    (others : Others s next t)
    (move : ∀ buf, MutexMove t (s.owner buf) (next.owner buf) (s.base buf t) (next.base buf t)) : MutexInv next := by
  have apart : ∀ u, s.hands u ≠ none → u ≠ t := by
    rintro u busy rfl
    exact busy idle
  refine ⟨fun buf => ?_, fun u pc buf point held => ?_, fun u busy => ?_⟩
  · apply exclusive_move t (s.owner buf) (next.owner buf) (s.inside buf) (next.inside buf) (inv.exclusive buf)
    · rw [inside_idle s buf t idle, inside_idle next buf t (by rw [hands]; exact idle)]
      exact move buf
    · intro u different
      simp only [Pipe.inside, hands, others.base buf u different]
  · rw [hands] at point
    rw [others.base buf u (apart u (by simp [point]))]
    exact inv.apart u pc buf point held
  · rw [hands] at busy
    exact others.alive u (apart u busy) (inv.alive u busy)

theorem hand_mutex (s next : Pipe) (t : Tid) (buf : Buf) (move : HandMove s t next) :
    ∃ pc, s.hands t = some pc ∧
      MutexMove t (s.owner buf) (next.owner buf) (pc.inside buf) ((next.hands t).any (HandPc.inside buf)) := by
  cases move with
  | load point | store point | bodyR point | bodyE point =>
      exact ⟨_, point, .keep (by cases buf <;> rfl) (by cases buf <;> simp [Pipe.setHand, HandPc.inside])⟩
  | check point =>
      refine ⟨_, point, .keep (by cases buf <;> rfl) ?_⟩
      by_cases again : 1 < s.control <;> cases buf <;> simp [Pipe.setHand, HandPc.inside, again]
  | acquireR point free =>
      refine ⟨_, point, ?_⟩
      cases buf with
      | raw => exact .acquire free rfl (by simp [Pipe.setHand, HandPc.inside])
      | elaborated => exact .keep rfl (by simp [Pipe.setHand, HandPc.inside])
  | acquireE point free =>
      refine ⟨_, point, ?_⟩
      cases buf with
      | raw => exact .keep rfl (by simp [Pipe.setHand, HandPc.inside])
      | elaborated => exact .acquire free rfl (by simp [Pipe.setHand, HandPc.inside])
  | unlockR point =>
      refine ⟨_, point, ?_⟩
      cases buf with
      | raw => exact .release rfl rfl (by simp [Pipe.setHand, HandPc.inside])
      | elaborated => exact .keep rfl (by simp [Pipe.setHand, HandPc.inside])
  | unlockE point =>
      refine ⟨_, point, ?_⟩
      cases buf with
      | raw => exact .keep rfl (by simp [Pipe.setHand, HandPc.inside])
      | elaborated => exact .release rfl rfl (by simp [Pipe.setHand])

theorem hand_elsewhere (s next : Pipe) (t u : Tid) (move : HandMove s t next) (different : u ≠ t) :
    next.hands u = s.hands u := by
  cases move <;> exact Function.update_of_ne different ..

theorem frame_base (s next : Pipe) (buf : Buf) (u : Tid) (frame : HandFrame s next) :
    next.base buf u = s.base buf u ∧ next.interruptible u = s.interruptible u := by
  cases u <;>
    simp only [Pipe.base, Pipe.interruptible, frame.sources, frame.elaborators, frame.sinks, frame.main, and_self]

theorem mutex_inv_hand (s next : Pipe) (t : Tid) (inv : MutexInv s) (move : HandMove s t next) : MutexInv next := by
  have frame := hand_frame s next t move
  have same := fun buf u => (frame_base s next buf u frame).1
  -- The handler enters only when nobody is inside, and stays apart from the
  -- thread below it, which does not move meanwhile.
  have clear : ∀ buf pc, s.hands t = some pc → pc.inside buf = true ∨ s.owner buf = none → s.base buf t = false := by
    intro buf pc point entering
    rcases entering with held | free
    · exact inv.apart t pc buf point held
    · have outside := exclusive_free _ _ (inv.exclusive buf) free t
      simp only [Pipe.inside, Bool.or_eq_false_iff] at outside
      exact outside.1
  refine ⟨fun buf => ?_, fun u pc buf point held => ?_, fun u busy => ?_⟩
  · obtain ⟨pc, point, moved⟩ := hand_mutex s next t buf move
    apply exclusive_move t (s.owner buf) (next.owner buf) (s.inside buf) (next.inside buf) (inv.exclusive buf)
    · simp only [Pipe.inside, same buf t, point, Option.any_some]
      cases moved with
      | keep kept still => exact .keep kept (by rw [still])
      | acquire free taken entered => exact .acquire free taken (by rw [entered, Bool.or_true])
      | release held given left =>
          have apart := clear buf pc point (.inl held)
          exact .release (by rw [held, Bool.or_true]) given (by rw [left, apart]; rfl)
    · intro u different
      simp only [Pipe.inside, same buf u, hand_elsewhere s next t u move different]
  · rw [same buf u]
    by_cases here : u = t
    · subst here
      obtain ⟨old, before, moved⟩ := hand_mutex s next u buf move
      rw [point, Option.any_some, held] at moved
      cases moved with
      | keep _ still => exact clear buf old before (.inl still.symm)
      | acquire free => exact clear buf old before (.inr free)
      | release _ _ left => cases left
    · rw [hand_elsewhere s next t u move here] at point
      exact inv.apart u pc buf point held
  · rw [(frame_base s next .raw u frame).2]
    by_cases here : u = t
    · subst here
      obtain ⟨old, before, _⟩ := hand_mutex s next u .raw move
      exact inv.alive u (by simp [before])
    · rw [hand_elsewhere s next t u move here] at busy
      exact inv.alive u busy

theorem mutex_inv_still (s next : Pipe) (inv : MutexInv s) (hands : next.hands = s.hands) (owner : ∀ buf, next.owner buf = s.owner buf)
    (base : ∀ buf u, next.base buf u = s.base buf u)
    (alive : ∀ u, s.interruptible u = true → next.interruptible u = true) : MutexInv next := by
  refine ⟨fun buf t => ?_, fun t pc buf point held => ?_, fun t busy => ?_⟩
  · rw [owner buf, Pipe.inside, base buf t, hands]
    exact inv.exclusive buf t
  · rw [hands] at point
    rw [base buf t]
    exact inv.apart t pc buf point held
  · rw [hands] at busy
    exact alive t (inv.alive t busy)

theorem mutex_inv_sigint (s : Pipe) (t : Tid) (inv : MutexInv s) (idle : s.hands t = none) (alive : s.interruptible t = true) :
    MutexInv (s.setHand t (some .load)) := by
  have hands : ∀ u, u ≠ t → (s.setHand t (some .load)).hands u = s.hands u := fun u different =>
    Function.update_of_ne different ..
  have mine : (s.setHand t (some .load)).hands t = some .load := Function.update_self ..
  have frame : HandFrame s (s.setHand t (some .load)) := ⟨rfl, rfl, rfl, rfl, rfl, rfl⟩
  have base := fun buf u => frame_base s _ buf u frame
  refine ⟨fun buf u => ?_, fun u pc buf point held => ?_, fun u busy => ?_⟩
  · have same : (s.setHand t (some .load)).inside buf u = s.inside buf u := by
      by_cases here : u = t
      · subst here
        rw [inside_idle s buf u idle, Pipe.inside, (base buf u).1, mine]
        cases buf <;> simp [HandPc.inside]
      · rw [Pipe.inside, (base buf u).1, hands u here]
        rfl
    rw [same]
    have kept := inv.exclusive buf u
    cases buf <;> exact kept
  · rw [(base buf u).1]
    by_cases here : u = t
    · subst here
      cases mine.symm.trans point
      cases buf <;> cases held
    · exact inv.apart u pc buf ((hands u here).symm.trans point) held
  · rw [(base .raw u).2]
    by_cases here : u = t
    · rw [here]
      exact alive
    · exact inv.alive u (by rw [← hands u here]; exact busy)

theorem early_alone (s : Pipe) (t : Tid) (buf : Buf) (inv : JoinInv s) (early : s.main.phase = 0) (other : t ≠ .main) :
    s.base buf t = false ∧ s.interruptible t = false := by
  have off : ∀ stage i, s.life i stage = .off := by
    intro stage i
    by_contra born
    exact spawned_not_early s.main stage i (.inl early) (inv.born stage i born).2
  cases t with
  | main => exact absurd rfl other
  | source i =>
      have point := life_source_off s i (off .source i)
      rw [base_source, interruptible_source, point]
      exact ⟨Bool.and_false _, rfl⟩
  | elaborate i =>
      have point := life_elaborate_off s i (off .elaborate i)
      rw [base_elaborate, interruptible_elaborate, point]
      exact ⟨by cases buf <;> rfl, rfl⟩
  | sink i =>
      have point := life_sink_off s i (off .sink i)
      rw [base_sink, interruptible_sink, point]
      exact ⟨Bool.and_false _, rfl⟩

theorem init_unused (s : Pipe) (buf : Buf) (inv : JoinInv s) (locks : MutexInv s) (idle : s.hands .main = none)
    (point : s.main = .init) : s.owner buf = none := by
  cases owned : s.owner buf with
  | none => rfl
  | some t =>
      have inside := (locks.exclusive buf t).mpr owned
      have quiet : s.hands t = none := by
        by_contra busy
        by_cases here : t = .main
        · exact busy (here ▸ idle)
        · have alone := (early_alone s t buf inv (by rw [point]; rfl) here).2
          rw [locks.alive t busy] at alone
          cases alone
      rw [inside_idle s buf t quiet] at inside
      by_cases here : t = .main
      · subst here
        rw [base_main, point] at inside
        cases inside
      · rw [(early_alone s t buf inv (by rw [point]; rfl) here).1] at inside
        cases inside

theorem mutex_inv_woken (s next : Pipe) (locks : MutexInv s) (hands : next.hands = s.hands)
    (owner : ∀ buf, next.owner buf = s.owner buf) (sources : next.sources = s.sources) (main : next.main = s.main)
    (elaborators : ∀ i, Roused .wait .lock (s.elaborators i) (next.elaborators i))
    (sinks : ∀ i, Roused .wait .lock (s.sinks i) (next.sinks i)) : MutexInv next := by
  have others := others_of s next .main (fun i _ => by rw [sources]) (fun i _ => elaborators i) (fun i _ => sinks i)
    (fun _ => main)
  apply mutex_inv_still s next locks hands owner
  · intro buf u
    by_cases here : u = .main
    · rw [here, base_main, base_main, main]
    · exact others.base buf u here
  · intro u alive
    by_cases here : u = .main
    · rw [here] at alive ⊢
      simpa only [Pipe.interruptible, main] using alive
    · exact others.alive u here alive

theorem update_roused {τ : Type} (wait lock : τ) (threads : Nat → τ) (i j : Nat) (point : threads i = wait) :
    Roused wait lock (threads j) (Function.update threads i lock j) := by
  by_cases here : j = i
  · subst here
    exact .inr ⟨point, Function.update_self ..⟩
  · exact .inl (Function.update_of_ne here ..)

theorem mutex_inv_move (prog : Prog) (s next : Pipe) (action : UserAction) (out : List UserEvent) (inv : JoinInv s)
    (locks : MutexInv s) (step : PipeStep prog s action next out) : MutexInv next := by
  cases step with
  | @base t choice next out idle move =>
      apply mutex_inv_thread s next t locks idle (base_hands prog s next t out move) (base_others prog s next t out inv move)
      intro buf
      apply base_mutex prog s next t out buf _ move
      intro point
      by_cases here : t = .main
      · subst here
        exact .inl (init_unused s buf inv locks idle point)
      · exact .inr here
  | hand move => exact mutex_inv_hand s next _ locks move
  | @call t op next idle move =>
      have same := fun buf => call_same prog s next t op buf move
      apply mutex_inv_thread s next t locks idle (same .raw).1 (call_others prog s next t op move)
      intro buf
      exact .keep (same buf).2.1 (same buf).2.2
  | @ret t res got next out move =>
      have same := fun buf => ret_same s next t res got out buf move
      obtain ⟨others, away⟩ := ret_others s next t res got out move
      have idle : s.hands t = none := by
        by_contra busy
        rw [locks.alive t busy] at away
        cases away
      apply mutex_inv_thread s next t locks idle (same .raw).1 others
      intro buf
      exact .keep (same buf).2.1 (same buf).2.2
  | @spuriousR i point =>
      exact mutex_inv_woken s _ locks rfl (fun buf => by cases buf <;> rfl) rfl rfl
        (fun j => update_roused .wait .lock s.elaborators i j point) (fun _ => roused_refl _ _ _)
  | @spuriousE i point =>
      exact mutex_inv_woken s _ locks rfl (fun buf => by cases buf <;> rfl) rfl rfl (fun _ => roused_refl _ _ _)
        (fun j => update_roused .wait .lock s.sinks i j point)
  | sigint idle alive => exact mutex_inv_sigint s _ locks idle alive

theorem busy_base (prog : Prog) (s next : Pipe) (action : UserAction) (out : List UserEvent) (inv : JoinInv s)
    (locks : MutexInv s) (step : PipeStep prog s action next out) (u : Tid) (buf : Buf) (busy : s.hands u ≠ none) :
    next.base buf u = s.base buf u := by
  cases step with
  | @base t choice next out idle move =>
      have different : u ≠ t := fun same => busy (same ▸ idle)
      exact (base_others prog s next t out inv move).base buf u different
  | hand move => exact (frame_base s next buf u (hand_frame s next _ move)).1
  | @call t op next idle move =>
      have different : u ≠ t := fun same => busy (same ▸ idle)
      exact (call_others prog s next t op move).base buf u different
  | @ret t res got next out move =>
      obtain ⟨others, away⟩ := ret_others s next t res got out move
      have different : u ≠ t := by
        rintro rfl
        rw [locks.alive u busy] at away
        cases away
      exact others.base buf u different
  | @spuriousR i point =>
      cases u with
      | elaborate j =>
          exact roused_same (ElaboratePc.inside buf) _ _ _ _ (update_roused .wait .lock s.elaborators i j point)
            (by cases buf <;> rfl)
      | _ => rfl
  | @spuriousE i point =>
      cases u with
      | sink j =>
          have same := roused_same SinkPc.inside _ _ _ _ (update_roused .wait .lock s.sinks i j point) rfl
          exact congrArg (decide (buf = .elaborated) && ·) same
      | _ => rfl
  | sigint => cases u <;> rfl

inductive HandTo (s next : Pipe) (u : Tid) (action : UserAction) : Prop where
  | same (kept : next.hands u = s.hands u)
  | moves {choice : Choice} (mine : action = .go u choice) (move : HandMove s u next)
  | starts (idle : s.hands u = none) (started : next.hands u = some .load)

theorem hand_to (prog : Prog) (s next : Pipe) (action : UserAction) (out : List UserEvent)
    (step : PipeStep prog s action next out) (u : Tid) : HandTo s next u action := by
  cases step with
  | base _ move => exact .same (by rw [base_hands prog s next _ out move])
  | @hand t choice next move =>
      by_cases here : u = t
      · subst here
        exact .moves rfl move
      · exact .same (hand_elsewhere s next t u move here)
  | call _ move => exact .same (by rw [(call_same prog s next _ _ .raw move).1])
  | ret move => exact .same (by rw [(ret_same s next _ _ _ out .raw move).1])
  | spuriousR | spuriousE => exact .same rfl
  | @sigint t idle alive =>
      by_cases here : u = t
      · subst here
        exact .starts idle (Function.update_self ..)
      · exact .same (Function.update_of_ne here ..)

section Runs

variable {prog : Prog} {ok : Pipe → UserAction → Prop} {arg : Int} {events : List UserEvent} {s : Pipe}

theorem mutex_inv_run (run : Run (pipeline prog) ok (programStart arg) events s) : MutexInv s := by
  refine Run.invariant (fun _ s => MutexInv s) ?_ ?_ run
  · refine ⟨fun buf t => ?_, fun t pc buf point => (by cases point), fun t busy => absurd rfl busy⟩
    cases buf <;> cases t <;> simp [programStart, Pipe.inside, Pipe.base, Pipe.owner, MainPc.inside, SourcePc.inside,
      ElaboratePc.inside, SinkPc.inside]
  · intro _ s action next out before locks _ stepped
    exact mutex_inv_move prog s next action out (join_inv_run before) locks (pipe_steps prog s next action out stepped)

end Runs

end MyDev
