import MyDev.DeviceStep
import MyDev.PipelineStep

set_option autoImplicit false

namespace MyDev

open Library

structure Config (π : Type) where
  prog : π → Prog
  arg : π → Int

-- The tasks that call the device are the threads of the processes and any
-- other clients `κ`, which may do as they like.
abbrev Client (π κ : Type) := (π × Tid) ⊕ κ

structure Sys (π κ : Type) where
  dev : Dev (Client π κ)
  pipes : π → Pipe

inductive SysAction (π κ : Type) where
  | user (p : π) (action : UserAction)
  | call (p : π) (t : Tid)
  | ret (p : π) (t : Tid)
  | dev (action : Action (Client π κ))

-- `appended` says for which string of the process a push happened; there is
-- none when main sent its terminator.
inductive SysEvent (π κ : Type) where
  | dev (event : Event (Client π κ))
  | pipe (p : π) (event : UserEvent)
  | appended (p : π) (sent : Option Item) (data : Bytes)

def UserAction.internal : UserAction → Bool
  | .go _ _ | .spurious _ | .sigint _ => true
  | .call _ | .ret _ _ _ => false

-- The calls and returns of the processes' threads are made with the threads.
def Action.unattended {π κ : Type} : Action (Client π κ) → Bool
  | .call (.inl _) _ | .ret (.inl _) => false
  | _ => true

def SinkPc.sending : SinkPc → Option Item
  | .inWrite item _ => some item
  | _ => none

def Pipe.sending (s : Pipe) : Tid → Option Item
  | .sink i => (s.sinks i).sending
  | _ => none

section System

variable {π κ : Type} [DecidableEq π] [DecidableEq κ]

def Sys.observe (s : Sys π κ) : Event (Client π κ) → List (SysEvent π κ)
  | .pushed (.inl (p, t)) data => [.dev (.pushed (.inl (p, t)) data), .appended p ((s.pipes p).sending t) data]
  | event => [.dev event]

def Sys.setPipe (s : Sys π κ) (p : π) (pipe : Pipe) : Sys π κ := { s with pipes := Function.update s.pipes p pipe }

def Sys.setDev (s : Sys π κ) (dev : Dev (Client π κ)) : Sys π κ := { s with dev := dev }

def sysCall (config : Config π) (s : Sys π κ) (p : π) (t : Tid) : Option (Sys π κ × List (SysEvent π κ)) :=
  match (s.pipes p).hands t, (s.pipes p).request (config.prog p) t with
  | none, some (op, next) => (callStep s.dev (.inl (p, t)) op).map fun (dev, _) => ((s.setDev dev).setPipe p next, [])
  | _, _ => none

def sysRet (s : Sys π κ) (p : π) (t : Tid) : Option (Sys π κ × List (SysEvent π κ)) :=
  match (s.dev.tasks (.inl (p, t))).pc with
  | .ret res got =>
      match retStep s.dev (.inl (p, t)), userRet (s.pipes p) t res got with
      | some (dev, _), some (next, out) => some ((s.setDev dev).setPipe p next, out.map (.pipe p))
      | _, _ => none
  | _ => none

def system (config : Config π) : Machine (Sys π κ) (SysAction π κ) (SysEvent π κ) where
  step
    | s, .user p action =>
        if action.internal then
          ((pipeline (config.prog p)).step (s.pipes p) action).map fun (next, out) => (s.setPipe p next, out.map (.pipe p))
        else none
    | s, .call p t => sysCall config s p t
    | s, .ret p t => sysRet s p t
    | s, .dev action =>
        if action.unattended then
          ((device (Client π κ)).step s.dev action).map fun (dev, out) => (s.setDev dev, out.flatMap s.observe)
        else none

def systemStart (config : Config π) : Sys π κ where
  dev := myModuleInit (Client π κ)
  pipes p := programStart (config.arg p)

inductive SysMove (config : Config π) (s : Sys π κ) : SysAction π κ → Sys π κ → List (SysEvent π κ) → Prop where
  | user {p : π} {action : UserAction} {next : Pipe} {out : List UserEvent} (inside : action.internal = true)
      (stepped : (pipeline (config.prog p)).step (s.pipes p) action = some (next, out)) :
      SysMove config s (.user p action) (s.setPipe p next) (out.map (.pipe p))
  | call {p : π} {t : Tid} {op : Op} {next : Pipe} (calm : (s.pipes p).hands t = none)
      (asked : (s.pipes p).request (config.prog p) t = some (op, next)) (idle : (s.dev.tasks (.inl (p, t))).pc = .user) :
      SysMove config s (.call p t) ((s.setDev (s.dev.goto (.inl (p, t)) op.entry)).setPipe p next) []
  | ret {p : π} {t : Tid} {res : Int} {got : Bytes} {next : Pipe} {out : List UserEvent}
      (point : (s.dev.tasks (.inl (p, t))).pc = .ret res got) (returned : userRet (s.pipes p) t res got = some (next, out)) :
      SysMove config s (.ret p t)
        ((s.setDev (s.dev.put (.inl (p, t)) { s.dev.tasks (.inl (p, t)) with pc := .user, signal := false })).setPipe p next)
        (out.map (.pipe p))
  | dev {action : Action (Client π κ)} {dev : Dev (Client π κ)} {out : List (Event (Client π κ))}
      (free : action.unattended = true) (stepped : (device (Client π κ)).step s.dev action = some (dev, out)) :
      SysMove config s (.dev action) (s.setDev dev) (out.flatMap s.observe)

theorem system_moves (config : Config π) (s next : Sys π κ) (action : SysAction π κ) (out : List (SysEvent π κ))
    (stepped : (system config).step s action = some (next, out)) : SysMove config s action next out := by
  cases action with
  | user p action =>
      simp only [system] at stepped
      split at stepped
      · rename_i inside
        simp only [Option.map_eq_some_iff, Prod.mk.injEq] at stepped
        obtain ⟨_, moved, rfl, rfl⟩ := stepped
        exact .user inside moved
      · cases stepped
  | call p t =>
      simp only [system, sysCall] at stepped
      split at stepped
      · rename_i calm asked
        simp only [Option.map_eq_some_iff, Prod.mk.injEq] at stepped
        obtain ⟨_, called, rfl, rfl⟩ := stepped
        unfold callStep at called
        split at called
        · rename_i idle
          cases called
          exact .call calm asked idle
        · cases called
      · cases stepped
  | ret p t =>
      simp only [system, sysRet] at stepped
      split at stepped
      · rename_i point
        split at stepped
        · rename_i left returned
          cases stepped
          simp only [retStep, point, Option.some.injEq, Prod.mk.injEq] at left
          obtain ⟨rfl, _⟩ := left
          exact .ret point returned
        · cases stepped
      · cases stepped
  | dev action =>
      simp only [system] at stepped
      split at stepped
      · rename_i free
        simp only [Option.map_eq_some_iff, Prod.mk.injEq] at stepped
        obtain ⟨_, moved, rfl, rfl⟩ := stepped
        exact .dev free moved
      · cases stepped

def SysEvent.device : SysEvent π κ → List (Event (Client π κ))
  | .dev event => [event]
  | _ => []

def SysEvent.ofPipe (p : π) : SysEvent π κ → List UserEvent
  | .pipe q event => if q = p then [event] else []
  | _ => []

omit [DecidableEq π] [DecidableEq κ] in
theorem observe_device (s : Sys π κ) (event : Event (Client π κ)) : (s.observe event).flatMap SysEvent.device = [event] := by
  unfold Sys.observe
  split <;> rfl

omit [DecidableEq κ] in
theorem observe_pipe (s : Sys π κ) (p : π) (event : Event (Client π κ)) : (s.observe event).flatMap (SysEvent.ofPipe p) = [] := by
  unfold Sys.observe
  split <;> rfl

omit [DecidableEq π] [DecidableEq κ] in
theorem device_of_observed (s : Sys π κ) (out : List (Event (Client π κ))) :
    (out.flatMap s.observe).flatMap SysEvent.device = out := by
  rw [List.flatMap_assoc]
  simp [observe_device]

omit [DecidableEq κ] in
theorem pipe_of_observed (s : Sys π κ) (p : π) (out : List (Event (Client π κ))) :
    (out.flatMap s.observe).flatMap (SysEvent.ofPipe p) = [] := by
  rw [List.flatMap_assoc]
  simp [observe_pipe]

omit [DecidableEq π] [DecidableEq κ] in
theorem device_of_piped (p : π) (out : List UserEvent) :
    (out.map (SysEvent.pipe (κ := κ) p)).flatMap SysEvent.device = [] := by
  simp [List.flatMap_map, SysEvent.device]

omit [DecidableEq κ] in
theorem pipe_of_piped (p q : π) (out : List UserEvent) :
    (out.map (SysEvent.pipe (κ := κ) q)).flatMap (SysEvent.ofPipe p) = if q = p then out else [] := by
  by_cases mine : q = p <;> simp [List.flatMap_map, SysEvent.ofPipe, mine]

section Runs

variable {config : Config π} {ok : Sys π κ → SysAction π κ → Prop} {events : List (SysEvent π κ)} {s : Sys π κ}

theorem system_device {okDev : Dev (Client π κ) → Action (Client π κ) → Prop}
    (calls : ∀ events s p t op next, Run (system config) ok (systemStart config) events s →
      (s.pipes p).request (config.prog p) t = some (op, next) → okDev s.dev (.call (.inl (p, t)) op))
    (rets : ∀ dev t, okDev dev (.ret t))
    (others : ∀ s action, action.unattended = true → ok s (.dev action) → okDev s.dev action)
    (run : Run (system config) ok (systemStart config) events s) :
    Run (device (Client π κ)) okDev (myModuleInit (Client π κ)) (events.flatMap SysEvent.device) s.dev := by
  refine run.project Sys.dev SysEvent.device ?_
  intro events s action next out before allowed stepped
  cases system_moves config s next action out stepped with
  | user => exact .inl ⟨rfl, device_of_piped _ _⟩
  | @call p t op _ _ asked idle =>
      refine .inr ⟨.call (.inl (p, t)) op, calls events s p t op _ before asked, ?_⟩
      simp [device, callStep, idle, Sys.setDev, Sys.setPipe]
  | @ret p t res got _ out point =>
      refine .inr ⟨.ret (.inl (p, t)), rets _ _, ?_⟩
      simp [device, retStep, point, Sys.setDev, Sys.setPipe, device_of_piped]
  | dev free moved => exact .inr ⟨_, others s _ free allowed, by rw [device_of_observed]; exact moved⟩

theorem system_pipe {okPipe : Pipe → UserAction → Prop} (p : π)
    (internal : ∀ s action, ok s (.user p action) → okPipe (s.pipes p) action)
    (calls : ∀ pipe t, okPipe pipe (.call t)) (rets : ∀ pipe t res got, okPipe pipe (.ret t res got))
    (run : Run (system config) ok (systemStart config) events s) :
    Run (pipeline (config.prog p)) okPipe (programStart (config.arg p)) (events.flatMap (SysEvent.ofPipe p)) (s.pipes p) := by
  refine run.project (fun s => s.pipes p) (SysEvent.ofPipe p) ?_
  intro events s action next out before allowed stepped
  cases system_moves config s next action out stepped with
  | @user q action pipe out _ moved =>
      rw [pipe_of_piped]
      by_cases mine : q = p
      · subst mine
        exact .inr ⟨action, internal s action allowed, by simpa [Sys.setPipe] using moved⟩
      · exact .inl ⟨by simp [Sys.setPipe, Ne.symm mine], if_neg mine⟩
  | @call q t op pipe calm asked _ =>
      by_cases mine : q = p
      · subst mine
        exact .inr ⟨.call t, calls _ t, by simp [pipeline, userCall, calm, asked, Sys.setPipe]⟩
      · exact .inl ⟨by simp [Sys.setPipe, Sys.setDev, Ne.symm mine], rfl⟩
  | @ret q t res got pipe out _ returned =>
      rw [pipe_of_piped]
      by_cases mine : q = p
      · subst mine
        exact .inr ⟨.ret t res got, rets _ t res got, by simpa [Sys.setPipe, pipeline] using returned⟩
      · exact .inl ⟨by simp [Sys.setPipe, Sys.setDev, Ne.symm mine], if_neg mine⟩
  | dev => exact .inl ⟨rfl, pipe_of_observed s p _⟩

theorem system_device_any (run : Run (system config) ok (systemStart config) events s) :
    Run (device (Client π κ)) Any (myModuleInit (Client π κ)) (events.flatMap SysEvent.device) s.dev :=
  system_device (fun _ _ _ _ _ _ _ _ => trivial) (fun _ _ => trivial) (fun _ _ _ _ => trivial) run

theorem system_pipe_any (p : π) (run : Run (system config) ok (systemStart config) events s) :
    Run (pipeline (config.prog p)) Any (programStart (config.arg p)) (events.flatMap (SysEvent.ofPipe p)) (s.pipes p) :=
  system_pipe p (fun _ _ _ => trivial) (fun _ _ => trivial) (fun _ _ _ _ => trivial) run

end Runs

end System

end MyDev
