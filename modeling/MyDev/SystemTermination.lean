import MyDev.DeviceToll
import MyDev.PipelineTermination
import MyDev.SystemMany

set_option autoImplicit false

namespace MyDev

open Library

def Prog.pricing : Prog → Pricing
  | .writer => counted
  | .reader => perString

section Budget

variable {π : Type} [DecidableEq π] [Fintype π]

def Config.threads (config : Config π) : Finset (Client π Empty) :=
  Finset.univ.biUnion fun p => (config.prog p).tids.image fun t => .inl (p, t)

-- What a step of a program is worth in statements of device calls. A my_read
-- is paid for by the string it returns, a my_write pays for the string it
-- leaves.
def Config.rate (config : Config π) (p : π) : Nat :=
  match config.prog p with
  | .reader => 11
  | .writer => 416 + 32 * config.threads.card

def Sys.work (config : Config π) (s : Sys π Empty) : Nat :=
  load Finset.univ (fun p => (p, s.pipes p)) fun entry =>
    config.rate entry.1 * entry.2.effort (config.prog entry.1).pricing (config.prog entry.1)

def Sys.hands (s : Sys π Empty) : Nat := ∑ p, (s.inHand p).length

def Sys.potential (config : Config π) (s : Sys π Empty) : Nat :=
  s.work config + s.dev.owed config.threads + handPrice * s.hands

-- A limit that kt_realloc changes may send every writer around its loop once
-- more.
def Sys.foreseen (config : Config π) (s : Sys π Empty) (later : List (SysEvent π Empty)) : Nat :=
  s.potential config + config.threads.card * 9 * limitChanges s.dev.devStat.dsKbMax (later.flatMap SysEvent.device)

def SysAction.charge (config : Config π) : SysAction π Empty → Nat
  | .user p action => config.rate p * action.charge
  | _ => 0

-- The steps of the programs, those inside their device calls too. The kernel
-- threads and their timers run for ever.
def SysAction.ofProgram : SysAction π Empty → Bool
  | .dev (.kt _ _) | .dev (.timer _) => false
  | _ => true

def Quiet (s : Sys π Empty) : SysAction π Empty → Prop
  | .dev (.signal _) => False
  | action => Faultless s action

def Config.budget (config : Config π) : Nat :=
  ∑ p, config.rate p * (214 + if config.prog p = .writer then 37 * (config.arg p).toNat else 0)

omit [DecidableEq π] [Fintype π] in
theorem quiet_faultless (s : Sys π Empty) (action : SysAction π Empty) (quiet : Quiet s action) : Faultless s action := by
  unfold Quiet at quiet
  split at quiet
  · exact quiet.elim
  · exact quiet

theorem rate_pos (config : Config π) (p : π) : 11 ≤ config.rate p := by
  unfold Config.rate
  split <;> omega

omit [Fintype π] in
@[simp] theorem set_pipe_dev (s : Sys π Empty) (p : π) (pipe : Pipe) : (s.setPipe p pipe).dev = s.dev := rfl
omit [DecidableEq π] [Fintype π] in
@[simp] theorem set_dev_pipes (s : Sys π Empty) (dev : Dev (Client π Empty)) : (s.setDev dev).pipes = s.pipes := rfl
omit [DecidableEq π] [Fintype π] in
@[simp] theorem set_dev_dev (s : Sys π Empty) (dev : Dev (Client π Empty)) : (s.setDev dev).dev = dev := rfl
@[simp] theorem set_dev_work (config : Config π) (s : Sys π Empty) (dev : Dev (Client π Empty)) :
    (s.setDev dev).work config = s.work config := rfl

theorem work_set (config : Config π) (s : Sys π Empty) (p : π) (pipe : Pipe) :
    (s.setPipe p pipe).work config + config.rate p * (s.pipes p).effort (config.prog p).pricing (config.prog p) =
      s.work config + config.rate p * pipe.effort (config.prog p).pricing (config.prog p) := by
  have changed : (fun q => (q, (s.setPipe p pipe).pipes q)) = Function.update (fun q => (q, s.pipes q)) p (p, pipe) := by
    funext q
    by_cases here : q = p
    · subst here
      simp [Sys.setPipe]
    · simp [Sys.setPipe, here]
  unfold Sys.work
  rw [changed]
  exact load_update Finset.univ _ _ p (p, pipe) (Finset.mem_univ p)

theorem work_lower (config : Config π) (s : Sys π Empty) (p : π) (pipe : Pipe) (charge : Nat)
    (lower : pipe.effort (config.prog p).pricing (config.prog p) <
      (s.pipes p).effort (config.prog p).pricing (config.prog p) + charge) :
    (s.setPipe p pipe).work config + config.rate p ≤ s.work config + config.rate p * charge := by
  have changed := work_set config s p pipe
  have scaled := Nat.mul_le_mul_left (config.rate p) (Nat.succ_le_of_lt lower)
  rw [Nat.mul_succ, Nat.mul_add] at scaled
  omega

variable {config : Config π} {events : List (SysEvent π Empty)} {s : Sys π Empty}

theorem tid_inside (p : π) (t : Tid) (member : t ∈ (config.prog p).tids) : .inl (p, t) ∈ config.threads :=
  Finset.mem_biUnion.mpr ⟨p, Finset.mem_univ p, Finset.mem_image_of_mem _ member⟩

section Steps

variable (before : Run (system config) Quiet (systemStart config) events s)

include before

omit [Fintype π] in
theorem quiet_device : Run (device (Client π Empty)) Unsignalled (myModuleInit (Client π Empty)) (events.flatMap SysEvent.device) s.dev := by
  refine system_device (fun _ _ _ _ _ _ _ _ => trivial) (fun _ _ => trivial) (fun s action _ quiet => ?_) before
  cases action with
  | signal => exact quiet.elim
  | go | kt => exact quiet
  | _ => trivial

omit [Fintype π] in
theorem quiet_pool (p : π) (stage : Stage) (i : Nat) (alive : (s.pipes p).life i stage ≠ .off) : i ∈ (config.prog p).pool stage :=
  pool_inside (config.prog p) (s.pipes p) (join_inv_run (system_pipe_any p before)) (count_bound_run (system_pipe_any p before))
    stage i alive

theorem waiting_inside (p : π) (t : Tid) (op : Op) (waits : (s.pipes p).waiting t = some op) : .inl (p, t) ∈ config.threads := by
  refine tid_inside p t ?_
  cases waits_cases _ t op waits with
  | openDev | done | closeDev => exact Finset.mem_insert_self _ _
  | @read i point =>
      have member := quiet_pool before p .source i (by simp [Pipe.life, point, SourcePc.life])
      simp [Prog.tids, member]
  | @write i failures item point =>
      have member := quiet_pool before p .sink i (by simp [Pipe.life, point, SinkPc.life])
      simp [Prog.tids, member]

omit [Fintype π] in
theorem writer_hands (p : π) (role : config.prog p = .writer) : s.inHand p = [] := by
  refine in_hand_elsewhere s p fun reading => ?_
  have waits : (s.pipes p).waiting (.source 0) = some (.myRead readByte) := congrArg SourcePc.waiting reading
  have reader := (roles_run (system_pipe_any p before)).reads _ _ waits
  rw [role] at reader
  cases reader

omit [Fintype π] in
theorem hand_le (p : π) (next : Sys π Empty) (action : SysAction π Empty) (out : List (SysEvent π Empty)) (quiet : Quiet s action)
    (stepped : (system config).step s action = some (next, out)) :
    (next.inHand p).length ≤ (s.inHand p).length + (takenBy p out).length := by
  cases role : config.prog p with
  | writer =>
      rw [writer_hands (before.snoc action quiet stepped) p role]
      exact Nat.zero_le _
  | reader =>
      have step := congrArg List.length (hear_faultless p role (before.weaken quiet_faultless) next action out (quiet_faultless _ _ quiet)
        (system_moves config s next action out stepped))
      simp only [List.length_append] at step
      omega

theorem hands_le (next : Sys π Empty) (action : SysAction π Empty) (out : List (SysEvent π Empty)) (quiet : Quiet s action)
    (stepped : (system config).step s action = some (next, out)) :
    next.hands ≤ s.hands + ((out.flatMap SysEvent.device).flatMap Event.pops).length := by
  have total := congrArg Multiset.card (log_sum (fun entry : Client π Empty × Bytes => clientProcess entry.1) Prod.snd
    ((out.flatMap SysEvent.device).flatMap Event.popLog))
  rw [pop_log_data, Multiset.card_sum] at total
  have each := Finset.sum_le_sum fun p (_ : p ∈ Finset.univ) => hand_le before p next action out quiet stepped
  rw [Finset.sum_add_distrib] at each
  simp only [Multiset.coe_card] at total
  unfold Sys.hands
  rw [total]
  exact each

theorem user_potential (p : π) (action : UserAction) (pipe : Pipe) (out : List UserEvent)
    (counts : ∀ p, config.prog p = .writer → (s.pipes p).loop = false) (quiet : Quiet s (.user p action))
    (inside : action.internal = true) (stepped : (pipeline (config.prog p)).step (s.pipes p) action = some (pipe, out)) :
    (s.setPipe p pipe).potential config < s.potential config + SysAction.charge config (.user p action) := by
  have run := system_pipe_any p before
  have draws : ∀ i, i ∈ (config.prog p).pool .source → SourceMove (config.prog p) (s.pipes p) i pipe out →
      pipe.effort (config.prog p).pricing (config.prog p) < (s.pipes p).effort (config.prog p).pricing (config.prog p) := by
    intro i member move
    cases role : config.prog p with
    | writer =>
        rw [role] at member move
        exact source_effort .writer (s.pipes p) pipe i out member (counts p role) move
    | reader =>
        rw [role] at member move
        exact approach_effort .reader (s.pipes p) pipe i out member rfl move
  have lower := internal_effort (config.prog p) (s.pipes p) pipe action out (by cases config.prog p <;> rfl) (join_inv_run run)
    (mutex_inv_run run) (count_bound_run run) draws (by rintro t rfl; cases inside) (by rintro t res got rfl; cases inside)
    (pipe_steps _ _ _ _ _ stepped)
  have work := work_lower config s p pipe action.charge lower
  have rate := rate_pos config p
  have hands := hands_le before (s.setPipe p pipe) (.user p action) (out.map (.pipe p)) quiet
    (by simp [system, inside, stepped])
  rw [device_of_piped] at hands
  have held := Nat.mul_le_mul_left handPrice hands
  simp only [List.flatMap_nil, List.length_nil, Nat.add_zero] at held
  simp only [Sys.potential, SysAction.charge, set_pipe_dev]
  omega

theorem call_affordable (p : π) (t : Tid) (op : Op) (pipe : Pipe) (call : CallMove (config.prog p) (s.pipes p) t op pipe) :
    op.toll config.threads.card < config.rate p := by
  have roles := roles_run (system_pipe_any p before)
  have rate := rate_pos config p
  cases call with
  | openDev | closeDev | read =>
      simp only [Op.toll]
      omega
  | done point =>
      simp only [Config.rate, roles.done _ point, Op.toll, stringPrice, handPrice]
      omega
  | write role =>
      simp only [Config.rate, role, Op.toll, stringPrice, handPrice]
      omega

theorem call_potential (p : π) (t : Tid) (op : Op) (pipe : Pipe) (calm : (s.pipes p).hands t = none)
    (asked : (s.pipes p).request (config.prog p) t = some (op, pipe)) (idle : (s.dev.tasks (.inl (p, t))).pc = .user) :
    ((s.setDev (s.dev.goto (.inl (p, t)) op.entry)).setPipe p pipe).potential config < s.potential config := by
  have call := request_moves _ _ _ _ _ asked
  have stepped : (system config).step s (.call p t) =
      some ((s.setDev (s.dev.goto (.inl (p, t)) op.entry)).setPipe p pipe, []) := by
    simp [system, sysCall, calm, asked, callStep, idle]
  have quiet : Quiet s (.call p t) := trivial
  have after := before.snoc (.call p t) quiet stepped
  have lower : pipe.effort (config.prog p).pricing (config.prog p) < (s.pipes p).effort (config.prog p).pricing (config.prog p) :=
    call_effort (config.prog p) (s.pipes p) pipe t op (by cases config.prog p <;> decide) (quiet_pool before p) call
  have work := work_lower config (s.setDev (s.dev.goto (.inl (p, t)) op.entry)) p pipe 0 lower
  have member := waiting_inside after p t op (by simpa [Sys.setPipe] using (call_waits _ _ _ _ _ call).2)
  have toll := call_affordable before p t op pipe call
  have owed := call_owed config.threads s.dev (.inl (p, t)) op member idle
  have held := Nat.mul_le_mul_left handPrice (hands_le before _ (.call p t) [] quiet stepped)
  simp only [List.flatMap_nil, List.length_nil, Nat.add_zero] at held
  simp only [set_dev_work] at work
  simp only [Sys.potential, set_pipe_dev, set_dev_dev]
  omega

theorem hands_heard (p : π) (res : Int) (got : Bytes) (next : Sys π Empty) (pipe : Pipe) (out : List UserEvent)
    (role : config.prog p = .reader) (point : (s.dev.tasks (.inl (p, .source 0))).pc = .ret res got) (ret : RetMove (s.pipes p) res got (.source 0) pipe out)
    (stepped : (system config).step s (.ret p (.source 0)) = some (next, out.map (.pipe p))) : next.hands < s.hands := by
  have quiet : Quiet s (.ret p (.source 0)) := trivial
  have success : res = 0 := by
    have fine := succeeds_run (quiet_device before) (.inl (p, .source 0))
    rwa [point] at fine
  refine Finset.sum_lt_sum (fun q _ => ?_) ⟨p, Finset.mem_univ p, ?_⟩
  · have less := hand_le before q next _ _ quiet stepped
    rwa [taken_piped] at less
  · have step := congrArg List.length (hear_faultless p role (before.weaken quiet_faultless) next _ _ (quiet_faultless _ _ quiet)
      (system_moves config s next _ _ stepped))
    rw [taken_piped, heard_piped, if_pos rfl] at step
    cases ret with
    | read =>
        simp only [List.append_nil, List.length_append, List.flatMap_cons, List.flatMap_nil, UserEvent.heard, if_pos success,
          List.length_cons, List.length_nil] at step
        omega

-- A my_read that returns hands its string over, which pays for what read_dev
-- and the threads after it do with it.
theorem read_potential (p : π) (res : Int) (got : Bytes) (task : Task) (pipe : Pipe) (out : List UserEvent) (i : Nat)
    (point : (s.dev.tasks (.inl (p, .source i))).pc = .ret res got) (ret : RetMove (s.pipes p) res got (.source i) pipe out)
    (owed : (s.dev.put (.inl (p, .source i)) task).owed config.threads = s.dev.owed config.threads)
    (stepped : (system config).step s (.ret p (.source i)) =
      some ((s.setDev (s.dev.put (.inl (p, .source i)) task)).setPipe p pipe, out.map (.pipe p))) :
    ((s.setDev (s.dev.put (.inl (p, .source i)) task)).setPipe p pipe).potential config < s.potential config := by
  cases ret with
  | read reading =>
      have waits : (s.pipes p).waiting (.source i) = some (.myRead readByte) := congrArg SourcePc.waiting reading
      have role := (roles_run (system_pipe_any p before)).reads _ _ waits
      have first := reads_first p role (before.weaken quiet_faultless) i reading
      subst first
      have hands := hands_heard before p res got _ _ _ role point (.read reading) stepped
      have member := quiet_pool before p .source 0 (by simp [Pipe.life, reading, SourcePc.life])
      have took := took_effort perString (config.prog p) (s.pipes p) 0 res got member reading
      have work := work_set config (s.setDev (s.dev.put (.inl (p, .source 0)) task)) p ((s.pipes p).setSource 0 (.took res got))
      simp only [role, Prog.pricing, Config.rate, set_dev_work, set_dev_pipes, perString, SourcePc.approach, SourcePc.effort] at took work
      simp only [Sys.potential, set_pipe_dev, set_dev_dev, handPrice]
      omega

theorem ret_potential (p : π) (t : Tid) (res : Int) (got : Bytes) (task : Task) (pipe : Pipe) (out : List UserEvent)
    (point : (s.dev.tasks (.inl (p, t))).pc = .ret res got) (left : task.pc = .user)
    (ret : RetMove (s.pipes p) res got t pipe out)
    (stepped : (system config).step s (.ret p t) =
      some ((s.setDev (s.dev.put (.inl (p, t)) task)).setPipe p pipe, out.map (.pipe p))) :
    ((s.setDev (s.dev.put (.inl (p, t)) task)).setPipe p pipe).potential config < s.potential config := by
  have quiet : Quiet s (.ret p t) := trivial
  obtain ⟨op, waits⟩ := (ret_waits _ _ _ _ _ _ ret).1
  have owed := ret_owed config.threads s.dev (.inl (p, t)) res got task (waiting_inside before p t op waits) point left
  by_cases reads : ∃ i, t = .source i
  · obtain ⟨i, rfl⟩ := reads
    exact read_potential before p res got task pipe out i point ret owed stepped
  · have lower : pipe.effort (config.prog p).pricing (config.prog p) < (s.pipes p).effort (config.prog p).pricing (config.prog p) :=
      ret_effort (config.prog p) (s.pipes p) pipe t res got out (fun i here => absurd ⟨i, here⟩ reads) (quiet_pool before p) ret
    have work := work_lower config (s.setDev (s.dev.put (.inl (p, t)) task)) p pipe 0 lower
    have rate := rate_pos config p
    have held := Nat.mul_le_mul_left handPrice (hands_le before _ (.ret p t) _ quiet stepped)
    simp only [device_of_piped, List.flatMap_nil, List.length_nil, Nat.add_zero] at held
    simp only [set_dev_work] at work
    simp only [Sys.potential, set_pipe_dev, set_dev_dev]
    omega

theorem dev_potential (action : Action (Client π Empty)) (dev : Dev (Client π Empty)) (out : List (Event (Client π Empty)))
    (quiet : Quiet s (.dev action)) (free : action.unattended = true)
    (moved : (device (Client π Empty)).step s.dev action = some (dev, out)) :
    (s.setDev dev).potential config + (if (SysAction.dev action : SysAction π Empty).ofProgram then 1 else 0) ≤
      s.potential config + config.threads.card * 9 * (if dev.devStat.dsKbMax = s.dev.devStat.dsKbMax then 0 else 1) := by
  have stepped : (system config).step s (.dev action) = some (s.setDev dev, out.flatMap s.observe) := by simp [system, free, moved]
  have held := Nat.mul_le_mul_left handPrice (hands_le before _ (.dev action) _ quiet stepped)
  rw [device_of_observed, Nat.mul_add] at held
  have device := quiet_device before
  simp only [Sys.potential, set_dev_dev, set_dev_work]
  cases device_moves _ _ _ _ moved with
  | @client client env _ _ move =>
      have member : client ∈ config.threads := by
        rcases client with ⟨p, t⟩ | other
        · have linked := link_run before p t
          cases waits : (s.pipes p).waiting t with
          | none =>
              rw [waits] at linked
              exact absurd linked (client_not_user _ _ _ env out move)
          | some op => exact waiting_inside before p t op waits
        · exact other.elim
      have lower := client_toll config.threads s.dev dev client env out member quiet (unsignalled_run device client)
        (pop_found device client) move
      simp only [SysAction.ofProgram, if_true]
      omega
  | kt move =>
      have owed := kt_owed config.threads s.dev dev _ out move
      rw [(kt_move_quiet _ _ _ _ move).2.2] at held
      simp only [SysAction.ofProgram, Bool.false_eq_true, if_false, List.length_nil] at held ⊢
      omega
  | timer =>
      simp only [SysAction.ofProgram, Bool.false_eq_true, if_false, List.flatMap_nil, List.length_nil] at held ⊢
      change _ + s.dev.owed config.threads + _ + _ ≤ _
      omega
  | signal => exact quiet.elim
  | @call client => 
      rcases client with ⟨p, t⟩ | other
      · cases free
      · exact other.elim
  | @ret client =>
      rcases client with ⟨p, t⟩ | other
      · cases free
      · exact other.elim

end Steps

theorem step_foreseen (counts : ∀ p, config.prog p = .writer → config.arg p ≠ 0)
    (before : Run (system config) Quiet (systemStart config) events s) (next : Sys π Empty) (action : SysAction π Empty)
    (out later : List (SysEvent π Empty)) (quiet : Quiet s action) (stepped : (system config).step s action = some (next, out)) :
    next.foreseen config later + (if action.ofProgram then 1 else 0) ≤ s.foreseen config (out ++ later) + action.charge config := by
  unfold Sys.foreseen
  rw [List.flatMap_append]
  cases system_moves config s next action out stepped with
  | user inside moved =>
      have off : ∀ p, config.prog p = .writer → (s.pipes p).loop = false := fun p role =>
        loop_off_run (counts p role) (system_pipe_any p before)
      have lower := user_potential before _ _ _ _ off quiet inside moved
      rw [device_of_piped, List.nil_append, set_pipe_dev]
      simp only [SysAction.ofProgram, if_true]
      omega
  | call calm asked idle =>
      have lower := call_potential before _ _ _ _ calm asked idle
      simp only [SysAction.ofProgram, if_true, List.flatMap_nil, List.nil_append, set_pipe_dev, set_dev_dev, goto_stat]
      omega
  | ret point returned =>
      have lower := ret_potential before _ _ _ _ _ _ _ point rfl (ret_moves _ _ _ _ _ _ returned) stepped
      rw [device_of_piped, List.nil_append, set_pipe_dev, set_dev_dev, put_stat]
      simp only [SysAction.ofProgram, if_true] at lower ⊢
      omega
  | dev free moved =>
      have lower := dev_potential before _ _ _ quiet free moved
      rw [device_of_observed, limit_changes_step _ _ _ _ _ (device_moves _ _ _ _ moved), Nat.mul_add, set_dev_dev]
      simp only [SysAction.charge]
      omega

theorem start_potential (config : Config π) : (systemStart config : Sys π Empty).potential config ≤ config.budget := by
  have owed : (systemStart config : Sys π Empty).dev.owed config.threads = 0 := by
    simp only [systemStart, Dev.owed, Dev.due, myModuleInit, load_const, Task.toll]
    rfl
  have hands : (systemStart config : Sys π Empty).hands = 0 :=
    Finset.sum_eq_zero fun p _ => by rw [in_hand_elsewhere _ p (by simp [systemStart, programStart])]; rfl
  rw [Sys.potential, owed, hands]
  refine Finset.sum_le_sum fun p _ => Nat.mul_le_mul_left _ ?_
  cases role : config.prog p with
  | writer => simpa [systemStart, Prog.pricing] using start_effort .writer (config.arg p)
  | reader =>
      simp only [Prog.pricing, systemStart, Pipe.effort, perString, programStart, load_const, MainPc.effort, SourcePc.approach,
        SourcePc.effort, ElaboratePc.effort, SinkPc.effort, handEffort, wbuf_init_items, List.length_nil]
      simp [Prog.pool, Prog.max]

def quiet (s : Sys π Empty) : SysAction π Empty → Bool
  | .dev (.signal _) => false
  | action => faultless s action

omit [DecidableEq π] [Fintype π] in
theorem quiet_sound (s : Sys π Empty) (action : SysAction π Empty) (checked : quiet s action = true) : Quiet s action := by
  unfold quiet at checked
  split at checked
  · cases checked
  · rename_i other
    unfold Quiet
    split
    · exact absurd rfl (other _)
    · exact faultless_sound s action checked

theorem system_terminates (counts : ∀ p, config.prog p = .writer → config.arg p ≠ 0) (schedule : List (SysAction π Empty))
    (done : (system config).exec quiet (systemStart config) schedule = some (s, events)) :
    schedule.countP SysAction.ofProgram ≤ config.budget + total (SysAction.charge config) schedule +
      config.threads.card * 9 * limitChanges startKbDim (events.flatMap SysEvent.device) := by
  have bound := exec_count_le (system config) quiet (fun s => ∃ events, Run (system config) Quiet (systemStart config) events s)
    (Sys.foreseen config) (SysAction.charge config) SysAction.ofProgram ?_ ?_ ?_ (systemStart config) s schedule events ⟨[], .nil⟩ done
  · have start := start_potential config
    have foreseen : (systemStart config).foreseen config events = (systemStart config).potential config +
        config.threads.card * 9 * limitChanges startKbDim (events.flatMap SysEvent.device) := rfl
    omega
  · rintro s action next out ⟨events, before⟩ permitted stepped
    exact ⟨events ++ out, .snoc action before (quiet_sound s action permitted) stepped⟩
  · rintro s action next out later ⟨events, before⟩ permitted stepped mine
    have lower := step_foreseen counts before next action out later (quiet_sound s action permitted) stepped
    rw [mine, if_pos rfl] at lower
    omega
  · rintro s action next out later ⟨events, before⟩ permitted stepped foreign
    have kept := step_foreseen counts before next action out later (quiet_sound s action permitted) stepped
    rw [foreign] at kept
    exact kept

end Budget

-- Two Writers and two Readers up to the last wait_for of each, and then one
-- iteration of each kernel thread, which takes the limit from 5 to 2.
def pairsThenRealloc : List (SysAction (Fin 4) Empty) :=
  pairsSchedule ++ List.replicate 6 (SysAction.dev (.kt .ktStat {})) ++ List.replicate 6 (SysAction.dev (.kt .ktRealloc {}))

theorem system_terminates_two_pairs :
    ∃ schedule s events, (system (κ := Empty) twoPairs).exec quiet (systemStart twoPairs) schedule = some (s, events) ∧
      (∀ p, Stage.sink.joinPhase < (s.pipes p).main.phase) ∧ limitChanges startKbDim (events.flatMap SysEvent.device) = 1 ∧
      schedule.countP SysAction.ofProgram ≤ twoPairs.budget + total (SysAction.charge twoPairs) schedule +
        twoPairs.threads.card * 9 * limitChanges startKbDim (events.flatMap SysEvent.device) := by
  have done : ∃ s events, (system (κ := Empty) twoPairs).exec quiet (systemStart twoPairs) pairsThenRealloc = some (s, events) ∧
      (∀ p, Stage.sink.joinPhase < (s.pipes p).main.phase) ∧ limitChanges startKbDim (events.flatMap SysEvent.device) = 1 := by
    have seen : ((system (κ := Empty) twoPairs).exec quiet (systemStart twoPairs) pairsThenRealloc).any
        (fun entry => decide ((∀ p, Stage.sink.joinPhase < (entry.1.pipes p).main.phase) ∧
          limitChanges startKbDim (entry.2.flatMap SysEvent.device) = 1)) = true := by decide +kernel
    obtain ⟨⟨s, events⟩, ended, past⟩ := (Option.any_eq_true _ _).mp seen
    exact ⟨s, events, ended, of_decide_eq_true past⟩
  obtain ⟨s, events, ended, past, changed⟩ := done
  exact ⟨pairsThenRealloc, s, events, ended, past, changed, system_terminates (by decide) pairsThenRealloc ended⟩

end MyDev
