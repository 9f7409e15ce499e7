import MyDev.DeviceDelivery
import MyDev.DeviceLimit
import MyDev.DeviceWake
import MyDev.Library.Potential
import MyDev.StatSnapshot

set_option autoImplicit false

namespace MyDev

open Library

def Pc.tenure : Pc → Nat
  | .readAlloc _ | .writeAlloc _ => 6
  | .readWait _ _ .test | .writeWait _ .test => 5
  | .readPop _ _ | .writeCopy _ => 4
  | .readCopy _ _ _ | .writePush _ => 3
  | .openRun | .closeRun | .readWake _ _ | .writeWake _ => 2
  | .openUnlock | .closeUnlock | .readUnlock _ _ _ | .writeUnlock _ => 1
  | .readWait _ _ .unlock | .writeWait _ .unlock => 1
  | _ => 0

def KtPc.tenure : KtPc → Nat
  | .setState => 4
  | .test => 3
  | .work => 2
  | .unlock _ => 1
  | _ => 0

section Tenure

variable {ι : Type}

def Dev.tenure (s : Dev ι) : Holder ι → Nat
  | .client t => (s.tasks t).pc.tenure
  | .kt k => (s.kts k).pc.tenure

-- A task killed inside the call keeps what it holds.
def Dev.dead (s : Dev ι) : Holder ι → Prop
  | .client t => (s.tasks t).pc = .oops
  | .kt k => (s.kts k).pc = .oops

def Action.of [DecidableEq ι] (holder : Holder ι) : Action ι → Bool
  | .go t _ => holder = .client t
  | .kt k _ => holder = .kt k
  | _ => false

-- Anybody may act as long as the mutex is the holder's.
def holding [DecidableEq ι] (holder : Holder ι) (s : Dev ι) (_ : Action ι) : Bool := s.devMutex = some holder

theorem tenure_le (s : Dev ι) (holder : Holder ι) : s.tenure holder ≤ 6 := by
  cases holder with
  | client t =>
      simp only [Dev.tenure]
      unfold Pc.tenure
      split <;> decide
  | kt k =>
      simp only [Dev.tenure]
      cases (s.kts k).pc <;> simp [KtPc.tenure]

theorem outside_tenure (pc : Pc) (outside : pc.holds = false) : pc.tenure = 0 := by
  cases pc with
  | readWait _ _ point | writeWait _ point => cases point <;> first | rfl | cases outside
  | _ => first | rfl | cases outside

theorem local_tenure (s : Dev ι) (env : Env) (task next : Task) (move : LocalMove s env task next)
    (held : task.pc.holds = true) : next.pc.tenure < task.pc.tenure := by
  cases move with
  | pass point | block point =>
      rcases waiting_cases _ _ _ point with ⟨_, _, pc, _⟩ | ⟨_, pc, _⟩ <;> simp [pc, Pc.passed, Pc.moved, Pc.tenure]
  | load point | enter point | skip point | prepare point | reload point | commit point | satisfied point | interrupted point
  | sleep point | resume point | finish point =>
      rw [waiting_holds _ _ _ point] at held
      cases held
  | readAlloc point | readNoMemory point | readNothing point | readCopied point | readFault point | writeAlloc point
  | writeNoMemory point | writeCopied point | writeFault point | writeOops point =>
      simp [point, Pc.tenure]

variable [DecidableEq ι]

theorem client_tenure (s next : Dev ι) (t : ι) (env : Env) (out : List (Event ι)) (move : ClientMove s t env next out)
    (held : (s.tasks t).pc.holds = true) : (next.tasks t).pc.tenure < (s.tasks t).pc.tenure := by
  cases move with
  | «local» move => simpa using local_tenure s env _ _ move held
  | acquire _ entered =>
      rw [(locked_holds _ _ entered).1] at held
      cases held
  | release left =>
      have out := outside_tenure _ (unlocked_holds _ _ left).2
      simp only [goto_tasks, if_true, out]
      unfold Pc.unlocked at left
      split at left <;> cases left <;> simp_all [Pc.tenure]
  | opened point | closed point | popped point | pushed point | wakeWriters point | wakeReaders point =>
      simp [point, Pc.tenure]

omit [DecidableEq ι] in
theorem kt_tenure (s next : Dev ι) (k : Kt) (out : List (Event ι)) (move : KtMove s k next out)
    (held : (s.kts k).pc.holds = true) : (next.kts k).pc.tenure < (s.kts k).pc.tenure := by
  cases move with
  | proceed point | acquire point | wake point =>
      rw [point] at held
      cases held
  | setState point | sampled point | statOops point | resized point | reallocOops point | release point =>
      simp [point, KtPc.tenure]
  | test point =>
      simp only [goto_kt_kts, if_true, point]
      split <;> decide

theorem kt_alone (s next : Dev ι) (k : Kt) (action : Action ι) (out : List (Event ι)) (move : DevMove s action next out) :
    (∃ env, action = .kt k env) ∨ (next.kts k).pc = (s.kts k).pc := by
  cases move with
  | client move => exact .inr (by cases move <;> simp [myClose])
  | @kt mover env _ _ move =>
      by_cases same : k = mover
      · exact .inl ⟨env, by rw [same]⟩
      · refine .inr ?_
        cases move with
        | sampled | statOops | resized | reallocOops => cases k <;> simp_all
        | _ => simp [same]
  | @timer mover point => exact .inr (by by_cases same : k = mover <;> simp [same])
  | _ => exact .inr (by simp [signalStep])

theorem own_tenure (s next : Dev ι) (holder : Holder ι) (action : Action ι) (out : List (Event ι)) (inv : LockInv s)
    (held : s.devMutex = some holder) (mine : action.of holder = true) (move : DevMove s action next out) :
    next.tenure holder < s.tenure holder := by
  cases move with
  | call | ret | signal | timer => cases mine
  | client move =>
      cases of_decide_eq_true mine
      exact client_tenure s next _ _ out move ((inv.clients _).mpr held)
  | kt move =>
      cases of_decide_eq_true mine
      exact kt_tenure s next _ out move ((inv.kernel _).mpr held)

theorem other_tenure (s next : Dev ι) (holder : Holder ι) (action : Action ι) (out : List (Event ι)) (inv : LockInv s)
    (held : s.devMutex = some holder) (foreign : action.of holder = false) (move : DevMove s action next out) :
    next.tenure holder = s.tenure holder := by
  cases holder with
  | client t =>
      have holds := (inv.clients t).mpr held
      cases task_move s next t action out move with
      | call idle | ret idle =>
          rw [idle] at holds
          cases holds
      | go own => simp [Action.of] at foreign
      | other _ same => exact congrArg Pc.tenure same
  | kt k =>
      rcases kt_alone s next k action out move with ⟨env, rfl⟩ | same
      · simp [Action.of] at foreign
      · exact congrArg KtPc.tenure same

inductive Resting (s : Dev ι) (t : ι) : Prop where
  | user (point : (s.tasks t).pc = .user)
  | returned {res : Int} {got : Bytes} (point : (s.tasks t).pc = .ret res got)
  | killed (point : (s.tasks t).pc = .oops)
  | locked (outside : (s.tasks t).pc.holds = false) (held : s.devMutex ≠ none)
  | asleep {queue : WaitQueue} (asleep : (s.tasks t).Asleep queue)

omit [DecidableEq ι] in
theorem free_or_resting (s : Dev ι) (t : ι) (outside : (s.tasks t).pc.holds = false) :
    s.devMutex = none ∨ Resting s t := by
  cases held : s.devMutex with
  | none => exact .inl rfl
  | some holder => exact .inr (.locked outside (by simp [held]))

theorem wait_loop_ready (s : Dev ι) (t : ι) (queue : WaitQueue) (arg : Int) (blocked : Int → Bool) (stay : WaitPc → Pc) (leave : Pc)
    (point : WaitPc) (inside : (s.tasks t).pc.waiting = some (queue, point)) :
    (waitLoop s t queue arg blocked stay leave point).isSome = true ∨ Resting s t := by
  cases point with
  | sched =>
      cases state : (s.tasks t).state with
      | running => exact .inl (by simp [waitLoop, state])
      | interruptible => exact .inr (.asleep ⟨inside, state⟩)
  | relock =>
      refine (free_or_resting s t (waiting_holds _ _ _ inside)).imp_left fun free => ?_
      simp [waitLoop, free]
  | test | unlock | cond | condCall | prepare | recheck | recheckCall | pending | finish => exact .inl rfl

theorem client_ready (s : Dev ι) (t : ι) : (clientStep s t {}).isSome = true ∨ Resting s t := by
  cases point : (s.tasks t).pc with
  | user => exact .inr (.user point)
  | ret => exact .inr (.returned point)
  | oops => exact .inr (.killed point)
  | openLock | closeLock | readLock | writeLock =>
      refine (free_or_resting s t (by rw [point]; rfl)).imp_left fun free => ?_
      simp [clientStep, mutexLock, point, free]
  | readWait dim value inner =>
      refine (wait_loop_ready s t .waitR 0 (fun _ => kbIsempty s.kbFifo) (.readWait dim value) (.readPop dim value) inner
        (by rw [point]; rfl)).imp_left fun ready => ?_
      simpa [clientStep, point] using ready
  | writeWait buf inner =>
      refine (wait_loop_ready s t .waitW s.devStat.dsKbMax (kbIsfull s.kbFifo) (.writeWait buf) (.writeCopy buf) inner
        (by rw [point]; rfl)).imp_left fun ready => ?_
      simpa [clientStep, point] using ready
  | readPop =>
      refine .inl ?_
      simp only [clientStep, point]
      split <;> rfl
  | openRun | openUnlock | closeRun | closeUnlock | readAlloc | readCopy | readWake | readUnlock | writeAlloc | writeCopy
  | writePush | writeWake | writeUnlock => exact .inl (by simp [clientStep, point])

omit [DecidableEq ι] in
theorem kt_ready (s : Dev ι) (k : Kt) (held : (s.kts k).pc.holds = true) (alive : (s.kts k).pc ≠ .oops) :
    (ktStep s k {}).isSome = true := by
  cases point : (s.kts k).pc with
  | oops => exact (alive point).elim
  | check | lock | sched | exited =>
      rw [point] at held
      cases held
  | setState | test | unlock => simp [ktStep, point]
  | work =>
      simp only [ktStep, point]
      cases k <;> simp only <;> split <;> rfl

theorem holder_ready (s : Dev ι) (holder : Holder ι) (inv : LockInv s) (held : s.devMutex = some holder) :
    s.dead holder ∨ ∃ action next out, action.of holder = true ∧ (device ι).step s action = some (next, out) := by
  cases holder with
  | client t =>
      have holds := (inv.clients t).mpr held
      rcases client_ready s t with ready | resting
      · obtain ⟨⟨next, out⟩, stepped⟩ := Option.isSome_iff_exists.mp ready
        exact .inr ⟨.go t {}, next, out, by simp [Action.of], stepped⟩
      · cases resting with
        | killed point => exact .inl point
        | user point | returned point => simp [point, Pc.holds] at holds
        | locked outside => simp [outside] at holds
        | asleep asleep =>
            rw [waiting_holds _ _ _ asleep.1] at holds
            cases holds
  | kt k =>
      by_cases dead : (s.kts k).pc = .oops
      · exact .inl dead
      · obtain ⟨⟨next, out⟩, stepped⟩ := Option.isSome_iff_exists.mp (kt_ready s k ((inv.kernel k).mpr held) dead)
        exact .inr ⟨.kt k {}, next, out, by simp [Action.of], stepped⟩

theorem dev_mutex_given_back {events : List (Event ι)} {s : Dev ι} (run : Run (device ι) Any (myModuleInit ι) events s)
    (holder : Holder ι) (held : s.devMutex = some holder) :
    (s.dead holder ∨ ∃ action next out, action.of holder = true ∧ (device ι).step s action = some (next, out)) ∧
      ∀ schedule final later, (device ι).exec (holding holder) s schedule = some (final, later) →
        schedule.countP (Action.of holder) ≤ 6 := by
  refine ⟨holder_ready s holder (lock_inv_run run) held, fun schedule final later done => ?_⟩
  have bound := exec_count_le (device ι) (holding holder) LockInv (fun s _ => s.tenure holder) (fun _ => 0) (Action.of holder)
    (fun s action next out inv _ stepped => lock_inv_move s next action out inv (device_moves s next action out stepped))
    (fun s action next out _ inv holds stepped mine =>
      own_tenure s next holder action out inv (of_decide_eq_true holds) mine (device_moves s next action out stepped))
    (fun s action next out _ inv holds stepped foreign =>
      Nat.le_of_eq (other_tenure s next holder action out inv (of_decide_eq_true holds) foreign (device_moves s next action out stepped)))
    s final schedule later (lock_inv_run run) done
  rw [total_zero] at bound
  have few := tenure_le s holder
  omega

end Tenure

-- A my_write has got the mutex; a second client that wants it and kt_stat stand
-- in front of it while the first one goes on.
theorem dev_mutex_given_back_to_writer :
    ∃ events s, Run (device Bool) Any (myModuleInit Bool) events s ∧ s.devMutex = some (.client true) ∧
      ((device Bool).exec (holding (.client true)) s
        (alone true 2 ++ [Action.call false (.myRead 2), Action.kt .ktStat {}, Action.signal true] ++ alone true 4)).isSome = true ∧
      (s.dead (.client true) ∨ ∃ action next out, action.of (.client true) = true ∧ (device Bool).step s action = some (next, out)) ∧
      ∀ schedule final later, (device Bool).exec (holding (.client true)) s schedule = some (final, later) →
        schedule.countP (Action.of (.client true)) ≤ 6 := by
  obtain ⟨events, s, run, seen⟩ := exec_reaches_any (device Bool) (myModuleInit Bool)
    ([Action.call true (.myWrite [97, 0])] ++ alone true 1)
    (fun s _ => s.devMutex = some (.client true) ∧ ((device Bool).exec (holding (.client true)) s
      (alone true 2 ++ [Action.call false (.myRead 2), Action.kt .ktStat {}, Action.signal true] ++ alone true 4)).isSome = true)
    (by decide +kernel)
  obtain ⟨held, goes⟩ := of_decide_eq_true seen
  exact ⟨events, s, run, held, goes, dev_mutex_given_back run (.client true) held⟩

section Stock

variable {ι : Type} [DecidableEq ι]

-- A writer that has gone to sleep has left strings for the readers to take, or
-- its wake-up is on the way. No limit it may have loaded is below two.
def Stocked (s : Dev ι) : Prop :=
  ∀ t, (s.tasks t).Committed .waitW 2 → s.kbFifo.nodes ≠ [] ∨ ∃ u, (s.tasks u).pc.waking = some .waitW

def Orderly (s : Dev ι) (action : Action ι) : Prop := Moderate s action ∧ NoCopyFault s action

omit [DecidableEq ι] in
theorem full_nodes (s : Dev ι) (full : s.blockedAt .waitW 2 = true) : s.kbFifo.nodes ≠ [] := by
  intro empty
  have most := (kb_isfull_iff _ _).mp full
  simp only [s.kbFifo.counted, empty, List.length_nil] at most
  omega

theorem nodes_move (s next : Dev ι) (action : Action ι) (out : List (Event ι)) (move : DevMove s action next out)
    (nodes : s.kbFifo.nodes ≠ []) : next.kbFifo.nodes ≠ [] ∨ ∃ u, (next.tasks u).pc.waking = some .waitW := by
  cases move with
  | @client t _ _ _ move =>
      cases move with
      | popped => exact .inr ⟨t, by simp [Pc.waking]⟩
      | pushed => exact .inl (by simp)
      | _ => exact .inl (by simpa [myClose] using nodes)
  | kt move => exact .inl (by cases move <;> exact nodes)
  | call | ret | signal | timer => exact .inl nodes

theorem stocked_move (s next : Dev ι) (action : Action ι) (out : List (Event ι)) (inv : QueueInv s) (stocked : Stocked s)
    (limit : 2 ≤ s.devStat.dsKbMax) (clean : NoCopyFault s action) (move : DevMove s action next out) : Stocked next := by
  intro t committed
  rcases committed_still s next t action out .waitW 2 move limit committed with before | shut
  · rcases stocked t before with nodes | ⟨u, waking⟩
    · exact nodes_move s next action out move nodes
    · cases task_move s next u action out move with
      | call idle | ret idle =>
          rw [idle] at waking
          cases waking
      | @go env own =>
          rcases waking_client s next u env out .waitW inv own waking with still | woken | ⟨_, _, failure, dim, value, taken, point⟩
          · exact .inr ⟨u, still⟩
          · exact absurd committed (woken t 2)
          · exact absurd (clean dim value taken point) (by simp [failure])
      | other _ same => exact .inr ⟨u, by rw [same]; exact waking⟩
  · exact .inl (full_nodes next shut)

theorem stocked_run {events : List (Event ι)} {s : Dev ι} (run : Run (device ι) Orderly (myModuleInit ι) events s) : Stocked s := by
  refine Run.invariant (fun _ s => Stocked s) ?_ ?_ run
  · intro t committed
    exact absurd committed (not_committed_outside _ .waitW 2 rfl)
  · intro _ s action next out before stocked allowed stepped
    have moderate := before.weaken fun _ _ (both : Orderly _ _) => both.1
    exact stocked_move s next action out (queue_inv_run before) stocked (stat_inv_run moderate).limit allowed.2
      (device_moves s next action out stepped)

theorem asleep_stocked {events : List (Event ι)} {s : Dev ι} (run : Run (device ι) Orderly (myModuleInit ι) events s)
    (free : s.devMutex = none) (t : ι) (asleep : (s.tasks t).Asleep .waitW) : s.kbFifo.nodes ≠ [] := by
  rcases stocked_run run t (asleep_committed _ _ _ asleep) with nodes | ⟨u, waking⟩
  · exact nodes
  · have owner := ((lock_inv_run run).clients u).mp (waking_holds _ _ waking)
    rw [free] at owner
    cases owner

theorem never_both_asleep {events : List (Event ι)} {s : Dev ι} (run : Run (device ι) Orderly (myModuleInit ι) events s)
    (free : s.devMutex = none) (t : ι) (asleep : (s.tasks t).Asleep .waitW) :
    s.kbFifo.nodes ≠ [] ∧ ∀ u, ¬ (s.tasks u).Asleep .waitR := by
  have nodes := asleep_stocked run free t asleep
  refine ⟨nodes, fun u reader => nodes ?_⟩
  have empty := asleep_blocked .waitR (fun _ _ _ other => by cases other) run free u reader
  exact (kb_isempty_iff _).mp empty

end Stock

def orderly {ι : Type} (s : Dev ι) (action : Action ι) : Bool := moderate s action && noCopyFault s action

theorem orderly_sound {ι : Type} (s : Dev ι) (action : Action ι) (checked : orderly s action = true) : Orderly s action := by
  simp only [orderly, Bool.and_eq_true] at checked
  exact ⟨moderate_sound s action checked.1, no_copy_fault_sound s action checked.2⟩

theorem never_both_asleep_sixth_writer : ∃ events s, Run (device Bool) Orderly (myModuleInit Bool) events s ∧
    s.devMutex = none ∧ (s.tasks true).Asleep .waitW ∧ s.kbFifo.nodes ≠ [] ∧ ∀ u, ¬ (s.tasks u).Asleep .waitR := by
  obtain ⟨events, s, run, seen⟩ := exec_reaches (device Bool) orderly Orderly orderly_sound
    (myModuleInit Bool) fillAndSleep (fun s _ => s.devMutex = none ∧ (s.tasks true).Asleep .waitW) (by decide +kernel)
  obtain ⟨free, asleep⟩ : s.devMutex = none ∧ (s.tasks true).Asleep .waitW := by simpa using seen
  exact ⟨events, s, run, free, asleep, never_both_asleep run free true asleep⟩

section Alive

variable {ι : Type} [DecidableEq ι]

def Supplied (_ : Dev ι) : Action ι → Prop
  | .go _ env | .kt _ env => env.ok = true
  | _ => True

def Healthy (s : Dev ι) (action : Action ι) : Prop := Moderate s action ∧ Supplied s action

omit [DecidableEq ι] in
theorem healthy_orderly (s : Dev ι) (action : Action ι) (healthy : Healthy s action) : Orderly s action := by
  refine ⟨healthy.1, ?_⟩
  cases action with
  | go t env => exact fun _ _ _ _ => healthy.2
  | _ => trivial

omit [DecidableEq ι] in
theorem local_pc_survives (s : Dev ι) (env : Env) (before after : Pc) (healthy : env.ok = true) (step : LocalPc s env before after) :
    after ≠ .oops := by
  cases step with
  | writeOops failure => simp [healthy] at failure
  | _ => simp

theorem client_survives (s next : Dev ι) (t : ι) (env : Env) (out : List (Event ι)) (healthy : env.ok = true)
    (move : ClientMove s t env next out) : (next.tasks t).pc ≠ .oops := by
  cases move with
  | «local» move =>
      simpa only [put_tasks, if_true] using local_pc_survives s env _ _ healthy (local_move_pc s env _ _ move)
  | acquire _ entered =>
      unfold Pc.locked at entered
      split at entered <;> cases entered <;> simp
  | release left =>
      unfold Pc.unlocked at left
      split at left <;> cases left <;> simp
  | _ => simp

omit [DecidableEq ι] in
theorem kt_stat_survives (s next : Dev ι) (env : Env) (out : List (Event ι)) (healthy : env.ok = true)
    (stepped : ktStep s .ktStat env = some (next, out)) : (next.kts .ktStat).pc ≠ .oops := by
  cases point : (s.kts .ktStat).pc with
  | work =>
      obtain ⟨after, emitted, moved, _, _, dies, _⟩ := kt_stat_step s env point
      cases moved.symm.trans stepped
      rw [Ne, dies]
      simp [healthy]
  | oops | exited => simp [ktStep, point] at stepped
  | check | test =>
      simp only [ktStep, point, Option.some.injEq, Prod.mk.injEq] at stepped
      obtain ⟨rfl, _⟩ := stepped
      simp only [goto_kt_kts, if_true]
      split <;> simp
  | setState | unlock =>
      simp only [ktStep, point, Option.some.injEq, Prod.mk.injEq] at stepped
      obtain ⟨rfl, _⟩ := stepped
      simp
  | lock | sched =>
      simp only [ktStep, point] at stepped
      split at stepped <;> cases stepped
      simp

theorem survives (s next : Dev ι) (action : Action ι) (out : List (Event ι)) (stat : StatInv s.devStat)
    (healthy : Healthy s action) (alive : ∀ holder, ¬ s.dead holder) (stepped : (device ι).step s action = some (next, out)) :
    ∀ holder, ¬ next.dead holder := by
  have move := device_moves s next action out stepped
  intro holder dead
  cases holder with
  | client t =>
      cases task_move s next t action out move with
      | @call op _ entered => cases op <;> simp [Dev.dead, entered, Op.entry] at dead
      | go own => exact client_survives s next t _ out healthy.2 own dead
      | ret _ left => simp [Dev.dead, left] at dead
      | other _ same => exact alive (.client t) (same.symm.trans dead)
  | kt k =>
      cases k with
      | ktStat =>
          rcases kt_alone s next .ktStat action out move with ⟨env, rfl⟩ | same
          · exact kt_stat_survives s next env out healthy.2 stepped dead
          · exact alive (.kt .ktStat) (same.symm.trans dead)
      | ktRealloc =>
          rcases kt_realloc_dies s next action out move dead with before | ⟨env, rfl, point, trapped, _⟩
          · exact alive (.kt .ktRealloc) before
          · have sampled := healthy.1.2 point
            obtain ⟨ds, work, _⟩ := kt_realloc_work_spec s.devStat sampled (by have := stat.limit; omega)
              ⟨by have := stat.nonneg; unfold intMin; omega, stat.fits⟩ stat.mean
            simp [trapped] at work

theorem alive_run {events : List (Event ι)} {s : Dev ι} (run : Run (device ι) Healthy (myModuleInit ι) events s) :
    ∀ holder, ¬ s.dead holder := by
  suffices both : StatInv s.devStat ∧ ∀ holder, ¬ s.dead holder from both.2
  refine Run.invariant (fun _ s => StatInv s.devStat ∧ ∀ holder, ¬ s.dead holder) ⟨stat_inv_run (.nil), ?_⟩ ?_ run
  · intro holder
    cases holder <;> simp [Dev.dead, myModuleInit]
  · intro _ s action next out _ inv healthy stepped
    exact ⟨stat_inv_move s next action out inv.1 healthy.1 (device_moves s next action out stepped),
      survives s next action out inv.1 healthy inv.2 stepped⟩

end Alive

end MyDev
