import MyDev.DeviceFifo

set_option autoImplicit false

namespace MyDev

open Library

section Delivery

variable {ι : Type}

def Event.delivered : Event ι → List Bytes
  | .readDone _ res taken => if res = 0 then taken.toList else []
  | _ => []

def Pc.inHand : Pc → List Bytes
  | .readCopy _ _ taken | .readWake _ taken => [taken]
  | .readUnlock _ _ taken => taken.toList
  | _ => []

def Dev.inHand (s : Dev ι) : List Bytes :=
  match s.devMutex with
  | some (.client t) => (s.tasks t).pc.inHand
  | _ => []

def NoCopyFault (s : Dev ι) : Action ι → Prop
  | .go t env => ∀ dim value taken, (s.tasks t).pc = .readCopy dim value taken → env.ok = true
  | _ => True

def FailsEmptyHanded (s : Dev ι) : Prop :=
  ∀ t res got taken, (s.tasks t).pc = .readUnlock res got taken → (res = 0 ↔ taken ≠ none)

theorem local_enters_unlock {s : Dev ι} {env : Env} {pc : Pc} {res : Int} {got : Bytes} {taken : Option Bytes}
    (clean : ∀ dim value taken, pc = .readCopy dim value taken → env.ok = true)
    (step : LocalPc s env pc (.readUnlock res got taken)) : res = 0 ↔ taken ≠ none := by
  cases step with
  | readNoMemory | readNothing => simp
  | readFault failure =>
      rw [clean _ _ _ rfl] at failure
      cases failure

theorem in_hand_keep (s next : Dev ι) (mutex : next.devMutex = s.devMutex)
    (hands : ∀ t, s.devMutex = some (.client t) → (next.tasks t).pc.inHand = (s.tasks t).pc.inHand) :
    next.inHand = s.inHand := by
  unfold Dev.inHand
  rw [mutex]
  split
  · rename_i t owner
    exact hands t owner
  · rfl

theorem in_hand_free (s : Dev ι) (free : s.devMutex = none) : s.inHand = [] := by
  unfold Dev.inHand
  rw [free]

theorem in_hand_holder (s : Dev ι) (t : ι) (owner : s.devMutex = some (.client t)) : s.inHand = (s.tasks t).pc.inHand := by
  unfold Dev.inHand
  rw [owner]

theorem local_in_hand {s : Dev ι} {env : Env} {pc next : Pc} (step : LocalPc s env pc next) : next.inHand = pc.inHand := by
  cases step <;> rfl

theorem done_events_delivered (s : Dev ι) (t : ι) (pc : Pc) (fails : FailsEmptyHanded s) (left : (s.tasks t).pc.unlocked = some pc) :
    (doneEvents t (s.tasks t).pc).flatMap Event.delivered = (s.tasks t).pc.inHand := by
  cases point : (s.tasks t).pc with
  | readUnlock res got taken =>
      have outcome := fails t res got taken point
      by_cases zero : res = 0
      · simp [doneEvents, Event.delivered, Pc.inHand, zero]
      · have nothing : taken = none := by simpa [zero] using outcome
        simp [doneEvents, Event.delivered, Pc.inHand, nothing]
  | readCopy | readWake => simp [point, Pc.unlocked] at left
  | _ => rfl

theorem done_events_pushes (t : ι) (pc : Pc) : (doneEvents t pc).flatMap Event.pushes = [] := by
  unfold doneEvents
  split <;> rfl

-- Every string pushed so far has been delivered, is in the hand of the task
-- inside its critical section, or is queued, in this order.
def Ledger (events : List (Event ι)) (s : Dev ι) : Prop :=
  events.flatMap Event.pushes = events.flatMap Event.delivered ++ s.inHand ++ s.kbFifo.nodes

theorem ledger_quiet (events out : List (Event ι)) (s next : Dev ι) (ledger : Ledger events s)
    (pushes : out.flatMap Event.pushes = []) (delivered : out.flatMap Event.delivered = [])
    (hand : next.inHand = s.inHand) (nodes : next.kbFifo.nodes = s.kbFifo.nodes) : Ledger (events ++ out) next := by
  unfold Ledger at ledger ⊢
  rw [List.flatMap_append, List.flatMap_append, pushes, delivered, hand, nodes, List.append_nil, List.append_nil]
  exact ledger

variable [DecidableEq ι] {events : List (Event ι)} {s : Dev ι}

theorem enters_unlock (s next : Dev ι) (t : ι) (env : Env) (out : List (Event ι)) (res : Int) (got : Bytes)
    (taken : Option Bytes) (clean : NoCopyFault s (.go t env)) (move : ClientMove s t env next out)
    (reached : (next.tasks t).pc = .readUnlock res got taken) : res = 0 ↔ taken ≠ none := by
  cases move with
  | «local» move =>
      simp only [put_tasks, if_true] at reached
      have step := local_move_pc s env _ _ move
      rw [reached] at step
      exact local_enters_unlock clean step
  | acquire free entered =>
      simp only [goto_tasks, if_true] at reached
      rw [reached] at entered
      unfold Pc.locked at entered
      split at entered <;> cases entered
  | release left =>
      simp only [goto_tasks, if_true] at reached
      rw [reached] at left
      unfold Pc.unlocked at left
      split at left <;> cases left
  | wakeWriters =>
      simp only [goto_tasks, if_true, Pc.readUnlock.injEq] at reached
      obtain ⟨rfl, _, rfl⟩ := reached
      simp
  | _ => simp at reached

theorem fails_empty_handed_move (s next : Dev ι) (action : Action ι) (out : List (Event ι)) (fails : FailsEmptyHanded s)
    (clean : NoCopyFault s action) (move : DevMove s action next out) : FailsEmptyHanded next := by
  intro u res got taken reached
  cases task_move s next u action out move with
  | @call op _ entered =>
      rw [entered] at reached
      cases op <;> cases reached
  | go own => exact enters_unlock s next u _ out res got taken clean own reached
  | ret _ left =>
      rw [left] at reached
      cases reached
  | other _ same =>
      rw [same] at reached
      exact fails u res got taken reached

theorem in_hand_goto (s next : Dev ι) (t : ι) (mutex : next.devMutex = s.devMutex)
    (same : (next.tasks t).pc.inHand = (s.tasks t).pc.inHand)
    (others : ∀ u, u ≠ t → (next.tasks u).pc = (s.tasks u).pc) : next.inHand = s.inHand := by
  apply in_hand_keep s next mutex
  intro u _
  by_cases here : u = t
  · rw [here, same]
  · rw [others u here]

theorem ledger_client (events out : List (Event ι)) (s next : Dev ι) (t : ι) (env : Env) (inv : LockInv s)
    (fails : FailsEmptyHanded s) (ledger : Ledger events s) (move : ClientMove s t env next out) :
    Ledger (events ++ out) next := by
  have others := fun u => other_client_pc s next t u env out move
  cases move with
  | «local» move =>
      have same := local_in_hand (local_move_pc s env _ _ move)
      exact ledger_quiet events [] s _ ledger rfl rfl (in_hand_goto s _ t rfl (by simpa using same) others) rfl
  | @acquire pc free entered =>
      have empty : pc.inHand = [] := by
        unfold Pc.locked at entered
        split at entered <;> cases entered <;> rfl
      have hand : (((s.setMutex (some (.client t))).goto t pc)).inHand = s.inHand := by
        rw [in_hand_free s free, in_hand_holder _ t rfl]
        simpa using empty
      exact ledger_quiet events [] s _ ledger rfl rfl hand rfl
  | @release pc left =>
      have owner := (inv.clients t).mp (unlocked_holds _ _ left).1
      have delivered := done_events_delivered s t pc fails left
      have hand : ((s.setMutex none).goto t pc).inHand = [] := in_hand_free _ rfl
      unfold Ledger at ledger ⊢
      rw [List.flatMap_append, List.flatMap_append, done_events_pushes, delivered, hand, List.append_nil, List.append_nil,
        ledger, in_hand_holder s t owner]
      rfl
  | opened point | closed point | wakeWriters point | wakeReaders point =>
      refine ledger_quiet events [] s _ ledger rfl rfl (in_hand_goto s _ t ?_ ?_ others) ?_
      · simp [myClose]
      · simp [point, Pc.inHand]
      · simp [myClose]
  | @popped dim value node rest point found =>
      obtain ⟨nodes, _⟩ := kb_pop_some _ _ _ found
      have owner := (inv.clients t).mp (by rw [point]; rfl)
      have before : s.inHand = [] := by
        rw [in_hand_holder s t owner, point]
        rfl
      have after : ({ s with kbFifo := rest }.goto t (.readCopy dim (strcpy value (node ++ [0])) node)).inHand = [node] := by
        simp [Dev.inHand, owner, Pc.inHand]
      unfold Ledger at ledger ⊢
      rw [before, nodes] at ledger
      rw [after]
      simpa [Event.pushes, Event.delivered] using ledger
  | @pushed value point success =>
      have owner := (inv.clients t).mp (by rw [point]; rfl)
      have hand : ({ s with kbFifo := kbPush (value ++ env.mem) s.kbFifo }.goto t (.writeWake 0)).inHand = s.inHand := by
        rw [in_hand_holder s t owner, point]
        simp [Dev.inHand, owner, Pc.inHand]
      unfold Ledger at ledger ⊢
      rw [hand]
      simp [Event.pushes, Event.delivered, ledger]

omit [DecidableEq ι] in
theorem ledger_kt (events out : List (Event ι)) (s next : Dev ι) (k : Kt) (inv : LockInv s) (ledger : Ledger events s)
    (move : KtMove s k next out) : Ledger (events ++ out) next := by
  have hand : next.inHand = s.inHand := by
    cases move with
    | acquire point free => rw [in_hand_free s free]; rfl
    | release point =>
        have owner := (inv.kernel k).mp (by rw [point]; rfl)
        simp [Dev.inHand, owner]
    | _ => rfl
  cases move <;> exact ledger_quiet events _ s _ ledger rfl rfl hand rfl

theorem ledger_move (events out : List (Event ι)) (s next : Dev ι) (action : Action ι) (inv : LockInv s)
    (fails : FailsEmptyHanded s) (ledger : Ledger events s) (move : DevMove s action next out) :
    Ledger (events ++ out) next := by
  cases move with
  | client move => exact ledger_client events out s next _ _ inv fails ledger move
  | kt move => exact ledger_kt events out s next _ inv ledger move
  | @call t op idle =>
      have empty : op.entry.inHand = [] := by cases op <;> rfl
      refine ledger_quiet events [] s _ ledger rfl rfl (in_hand_goto s _ t rfl ?_ ?_) rfl
      · simpa [idle, Pc.inHand] using empty
      · intro u other
        simp [other]
  | @ret t res got point =>
      refine ledger_quiet events [] s _ ledger rfl rfl (in_hand_goto s _ t rfl ?_ ?_) rfl
      · simp [point, Pc.inHand]
      · intro u other
        simp [other]
  | @signal t =>
      refine ledger_quiet events [] s _ ledger rfl rfl (in_hand_goto s _ t rfl ?_ ?_) rfl
      · simp [signalStep]
      · intro u other
        simp [signalStep, other]
  | timer => exact ledger_quiet events [] s _ ledger rfl rfl rfl rfl

theorem fails_empty_handed_run (run : Run (device ι) NoCopyFault (myModuleInit ι) events s) : FailsEmptyHanded s := by
  refine Run.invariant (fun _ s => FailsEmptyHanded s) (by simp [FailsEmptyHanded, myModuleInit]) ?_ run
  intro _ s action next out _ fails clean stepped
  exact fails_empty_handed_move s next action out fails clean (device_moves s next action out stepped)

theorem ledger_run (run : Run (device ι) NoCopyFault (myModuleInit ι) events s) : Ledger events s := by
  refine Run.invariant Ledger (by simp [Ledger, Dev.inHand, myModuleInit, kbInit]) ?_ run
  intro events s action next out before ledger _ stepped
  exact ledger_move events out s next action (lock_inv_run before) (fails_empty_handed_run before) ledger
    (device_moves s next action out stepped)

theorem read_done_point (s next : Dev ι) (action : Action ι) (out : List (Event ι)) (t : ι) (res : Int)
    (taken : Option Bytes) (move : DevMove s action next out) (done : .readDone t res taken ∈ out) :
    ∃ got, (s.tasks t).pc = .readUnlock res got taken := by
  cases move with
  | @client u env _ _ move =>
      cases move with
      | @release pc left =>
          cases point : (s.tasks u).pc <;> simp [doneEvents, point] at done
          obtain ⟨rfl, rfl, rfl⟩ := done
          exact ⟨_, point⟩
      | _ => simp at done
  | kt move => cases move <;> simp at done
  | _ => cases done

theorem failed_read_took_nothing (run : Run (device ι) NoCopyFault (myModuleInit ι) events s) :
    ∀ t res taken, .readDone t res taken ∈ events → res ≠ 0 → taken = none := by
  refine Run.invariant (fun events _ => ∀ t res taken, .readDone t res taken ∈ events → res ≠ 0 → taken = none)
    (by simp) ?_ run
  intro events s action next out before earlier _ stepped t res taken member failed
  rcases List.mem_append.mp member with old | new
  · exact earlier t res taken old failed
  · obtain ⟨got, point⟩ := read_done_point s next action out t res taken (device_moves s next action out stepped) new
    have outcome := fails_empty_handed_run before t res got taken point
    simpa [failed] using outcome

theorem failed_read_loses_nothing (run : Run (device ι) NoCopyFault (myModuleInit ι) events s) :
    (∀ t res taken, .readDone t res taken ∈ events → res ≠ 0 → taken = none) ∧
      (s.devMutex = none → events.flatMap Event.pushes = events.flatMap Event.delivered ++ s.kbFifo.nodes) := by
  refine ⟨failed_read_took_nothing run, ?_⟩
  intro free
  have ledger := ledger_run run
  rwa [Ledger, in_hand_free s free, List.append_nil] at ledger

def Pc.copiesOut : Pc → Bool
  | .readCopy _ _ _ => true
  | _ => false

def noCopyFault (s : Dev ι) : Action ι → Bool
  | .go t env => env.ok || !(s.tasks t).pc.copiesOut
  | _ => true

omit [DecidableEq ι] in
theorem no_copy_fault_sound (s : Dev ι) (action : Action ι) (checked : noCopyFault s action = true) :
    NoCopyFault s action := by
  cases action with
  | go t env =>
      intro dim value taken point
      simpa [noCopyFault, point, Pc.copiesOut] using checked
  | _ => trivial

end Delivery

-- The queue holds "a" and "b". The reader whose copy_to_user faults returns
-- -EFAULT and "a" is gone: the next reader gets "b".
theorem failed_read_loses_a_string : ∃ events s, Run (device Bool) Any (myModuleInit Bool) events s ∧
    s.devMutex = none ∧ events.flatMap Event.pushes = [[97], [98]] ∧ .readDone true (-eFault) (some [97]) ∈ events ∧
    events.flatMap Event.delivered = [[98]] ∧ s.kbFifo.nodes = [] := by
  obtain ⟨events, s, run, seen⟩ := exec_reaches_any (device Bool)
    (myModuleInit Bool)
    ([Action.call false (.myWrite [97, 0])] ++ alone false 7 ++ [Action.ret false, Action.call false (.myWrite [98, 0])] ++ alone false 7 ++
      [Action.ret false, Action.call true (.myRead 2)] ++ alone true 4 ++ [Action.go true { ok := false }] ++ alone true 1 ++
      [Action.ret true, Action.call true (.myRead 2)] ++ alone true 7)
    (fun s events => s.devMutex = none ∧ events.flatMap Event.pushes = [[97], [98]] ∧
      .readDone true (-eFault) (some [97]) ∈ events ∧ events.flatMap Event.delivered = [[98]] ∧ s.kbFifo.nodes = [])
    (by decide +kernel)
  exact ⟨events, s, run, by simpa using seen⟩

theorem failed_read_loses_nothing_two_writes : ∃ events s, Run (device Bool) NoCopyFault (myModuleInit Bool) events s ∧
    s.devMutex = none ∧ .readDone false 1 none ∈ events ∧
    events.flatMap Event.pushes = events.flatMap Event.delivered ++ s.kbFifo.nodes ∧
    events.flatMap Event.delivered = [[97]] ∧ s.kbFifo.nodes = [[98]] := by
  obtain ⟨events, s, run, seen⟩ := exec_reaches (device Bool) noCopyFault NoCopyFault no_copy_fault_sound
    (myModuleInit Bool)
    ([Action.call false (.myWrite [97, 0])] ++ alone false 7 ++ [Action.ret false, Action.call false (.myWrite [98, 0])] ++ alone false 7 ++
      [Action.ret false, Action.call false (.myRead 2)] ++ alone false 1 ++ [Action.go false { ok := false }] ++ alone false 1 ++
      [Action.call true (.myRead 2)] ++ alone true 7)
    (fun s events => s.devMutex = none ∧ .readDone false 1 none ∈ events ∧ events.flatMap Event.delivered = [[97]] ∧
      s.kbFifo.nodes = [[98]]) (by decide +kernel)
  obtain ⟨free, failed, delivered, nodes⟩ : s.devMutex = none ∧ .readDone false 1 none ∈ events ∧
      events.flatMap Event.delivered = [[97]] ∧ s.kbFifo.nodes = [[98]] := by simpa using seen
  obtain ⟨_, balanced⟩ := failed_read_loses_nothing run
  exact ⟨events, s, run, free, failed, balanced free, delivered, nodes⟩

end MyDev
