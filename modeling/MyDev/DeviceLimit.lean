import MyDev.DeviceFifo

set_option autoImplicit false

namespace MyDev

open Library

theorem kt_realloc_work_spec (ds : Ds) (sampled : 1 ≤ ds.dsKbDim) (limited : 1 ≤ ds.dsKbMax) (fits : Fits ds.dsKbSum)
    (small : ds.dsKbSum ≤ 21474835 * ds.dsKbDim) :
    ∃ next, ktReallocWork ds = some next ∧ next.dsKbDim = 0 ∧ next.dsKbSum = 0 ∧
      (next.dsKbMax = ds.dsKbMax ∨ 2 ≤ next.dsKbMax) := by
  obtain ⟨mean, divided, bound⟩ := my_div_le ds.dsKbSum ds.dsKbDim 21474835 fits (by omega) (by omega) (by omega) (by decide)
  obtain ⟨per, percent⟩ := my_div_isSome (wrap (mean * 100)) ds.dsKbMax (by omega)
  have set := ds_set_kb_occupation_target ds mean (by unfold intMax; omega)
  simp only [ktReallocWork, dsGetKbOccupation, calculatePer, divided, percent, set, Option.bind_eq_bind, Option.bind_some,
    Option.pure_def]
  split
  · exact ⟨_, rfl, rfl, rfl, .inr (target_limit_least mean)⟩
  · exact ⟨_, rfl, rfl, rfl, .inl rfl⟩

section Limit

variable {ι : Type}

-- A task between the test of the wait loop and its push has seen room, and
-- nobody can take it away.
def PushReady (s : Dev ι) : Prop :=
  ∀ t buf, (s.tasks t).pc = .writeCopy buf ∨ (s.tasks t).pc = .writePush buf → s.kbFifo.count < s.devStat.dsKbMax

theorem local_enters_push {s : Dev ι} {env : Env} {pc next : Pc} {buf : Bytes} (step : LocalPc s env pc next)
    (reached : next = .writeCopy buf ∨ next = .writePush buf) :
    s.kbFifo.count < s.devStat.dsKbMax ∨ pc = .writeCopy buf := by
  cases step with
  | writePass room => exact .inl ((kb_isfull_false_iff _ _).mp room)
  | writeCopied =>
      right
      simpa using reached
  | _ => simp at reached

variable [DecidableEq ι] {ok : Dev ι → Action ι → Prop} {events : List (Event ι)} {s : Dev ι}

theorem enters_push (s next : Dev ι) (t : ι) (env : Env) (out : List (Event ι)) (buf : Bytes) (ready : PushReady s)
    (move : ClientMove s t env next out) (reached : (next.tasks t).pc = .writeCopy buf ∨ (next.tasks t).pc = .writePush buf) :
    next.kbFifo.count < next.devStat.dsKbMax := by
  cases move with
  | «local» move =>
      rcases local_enters_push (local_move_pc s env _ _ move) (by simpa using reached) with room | before
      · exact room
      · exact ready t buf (.inl before)
  | @acquire pc free entered =>
      simp only [goto_tasks, if_true] at reached
      unfold Pc.locked at entered
      split at entered <;> cases entered <;> simp at reached
  | @release pc left =>
      simp only [goto_tasks, if_true] at reached
      unfold Pc.unlocked at left
      split at left <;> cases left <;> simp at reached
  | _ => simp at reached

theorem push_ready_move (s next : Dev ι) (action : Action ι) (out : List (Event ι)) (inv : LockInv s) (ready : PushReady s)
    (move : DevMove s action next out) : PushReady next := by
  intro u buf reached
  cases task_move s next u action out move with
  | @call op _ entered =>
      rw [entered] at reached
      cases op <;> simp [Op.entry] at reached
  | go own => exact enters_push s next u _ out buf ready own reached
  | ret _ left =>
      rw [left] at reached
      simp at reached
  | other other same =>
      rw [same] at reached
      have held : (s.tasks u).pc.holds = true := by rcases reached with there | there <;> rw [there] <;> rfl
      obtain ⟨fifo, stat⟩ := holder_alone s next u action out inv move held other
      rw [fifo, stat]
      exact ready u buf reached

theorem push_ready_run (run : Run (device ι) ok (myModuleInit ι) events s) : PushReady s := by
  refine Run.invariant (fun _ s => PushReady s) (by simp [PushReady, myModuleInit]) ?_ run
  intro _ s action next out before ready _ stepped
  exact push_ready_move s next action out (lock_inv_run before) ready (device_moves s next action out stepped)

def Event.kernel : Event ι → Bool
  | .sampled _ | .realloc _ _ | .limit _ => true
  | _ => false

inductive Effect (s next : Dev ι) (action : Action ι) (out : List (Event ι)) : Prop where
  | quiet (stat : next.devStat = s.devStat) (count : next.kbFifo.count ≤ s.kbFifo.count)
      (silent : ∀ event ∈ out, event.kernel = false)
  | push {t : ι} {value : Bytes} (point : (s.tasks t).pc = .writePush value) (stat : next.devStat = s.devStat)
      (count : next.kbFifo.count = s.kbFifo.count + 1) (silent : ∀ event ∈ out, event.kernel = false)
  | sample {taken env : Env} (acts : action = .kt .ktStat taken) (point : (s.kts .ktStat).pc = .work)
      (work : ktStatWork s.devStat s.kbFifo env = some next.devStat) (fifo : next.kbFifo = s.kbFifo)
      (emits : out = [.sampled s.kbFifo.count])
  | resize {taken : Env} (acts : action = .kt .ktRealloc taken) (point : (s.kts .ktRealloc).pc = .work)
      (work : ktReallocWork s.devStat = some next.devStat) (fifo : next.kbFifo = s.kbFifo)
      (emits : out = [.realloc s.devStat.dsKbDim s.devStat.dsKbMax, .limit next.devStat.dsKbMax])
  | trap {taken : Env} (acts : action = .kt .ktRealloc taken) (point : (s.kts .ktRealloc).pc = .work)
      (work : ktReallocWork s.devStat = none) (stat : next.devStat = s.devStat) (fifo : next.kbFifo = s.kbFifo)
      (emits : out = [.realloc s.devStat.dsKbDim s.devStat.dsKbMax])

theorem client_effect (s next : Dev ι) (t : ι) (env : Env) (out : List (Event ι)) (move : ClientMove s t env next out) :
    Effect s next (.go t env) out := by
  cases move with
  | release left =>
      refine .quiet rfl (by simp) ?_
      unfold doneEvents
      split <;> simp [Event.kernel]
  | popped point found =>
      have fewer := (kb_pop_some _ _ _ found).2
      refine .quiet rfl ?_ (by simp [Event.kernel])
      simp only [goto_fifo, fewer]
      omega
  | pushed point => exact .push point rfl rfl (by simp [Event.kernel])
  | _ => exact .quiet (by simp [myClose]) (by simp [myClose]) (by simp)

theorem device_effect (s next : Dev ι) (action : Action ι) (out : List (Event ι)) (move : DevMove s action next out) :
    Effect s next action out := by
  cases move with
  | client move => exact client_effect s next _ _ out move
  | kt move =>
      cases move with
      | sampled point done => exact .sample rfl point done rfl rfl
      | resized point done => exact .resize rfl point done rfl rfl
      | reallocOops point trapped => exact .trap rfl point trapped rfl rfl rfl
      | _ => exact .quiet rfl (by simp) (by simp)
  | _ => exact .quiet rfl (by simp [signalStep]) (by simp)

def Event.raise (best : Int) : Event ι → Int
  | .limit max => Max.max best max
  | _ => best

def largestLimit (events : List (Event ι)) : Int := events.foldl Event.raise startKbDim

omit [DecidableEq ι] in
theorem foldl_silent {α : Type} (f : α → Event ι → α) (keeps : ∀ value event, event.kernel = false → f value event = value)
    (out : List (Event ι)) (silent : ∀ event ∈ out, event.kernel = false) (value : α) : out.foldl f value = value := by
  induction out with
  | nil => rfl
  | cons event rest ih =>
      rw [List.foldl_cons, keeps value event (silent event (by simp))]
      exact ih (fun other member => silent other (by simp [member]))

omit [DecidableEq ι] in
theorem largest_limit_silent (events out : List (Event ι)) (silent : ∀ event ∈ out, event.kernel = false) :
    largestLimit (events ++ out) = largestLimit events := by
  unfold largestLimit
  rw [List.foldl_append]
  exact foldl_silent Event.raise (by rintro _ (_ | _) quiet <;> first | rfl | cases quiet) out silent _

-- The device is used within what its int arithmetic can hold, and kt_realloc
-- never runs without a sample.
def Moderate (s : Dev ι) (action : Action ι) : Prop :=
  s.kbFifo.count ≤ 21474835 ∧
    match action with
    | .kt .ktStat _ =>
        (s.kts .ktStat).pc = .work → s.devStat.dsKbSum + s.kbFifo.count ≤ intMax ∧ s.devStat.dsKbDim < intMax
    | .kt .ktRealloc _ => (s.kts .ktRealloc).pc = .work → 1 ≤ s.devStat.dsKbDim
    | _ => True

structure StatInv (ds : Ds) : Prop where
  samples : 0 ≤ ds.dsKbDim
  nonneg : 0 ≤ ds.dsKbSum
  fits : ds.dsKbSum ≤ intMax
  mean : ds.dsKbSum ≤ 21474835 * ds.dsKbDim
  limit : 2 ≤ ds.dsKbMax

theorem stat_inv_move (s next : Dev ι) (action : Action ι) (out : List (Event ι)) (inv : StatInv s.devStat)
    (moderate : Moderate s action) (move : DevMove s action next out) : StatInv next.devStat := by
  have count := kb_count_nonneg s.kbFifo
  obtain ⟨samples, nonneg, fits, mean, limit⟩ := inv
  cases device_effect s next action out move with
  | quiet stat | push _ stat | trap _ _ _ stat =>
      rw [stat]
      exact ⟨samples, nonneg, fits, mean, limit⟩
  | sample acts point work =>
      obtain ⟨few, room⟩ := moderate
      subst acts
      obtain ⟨total, more⟩ := room point
      obtain ⟨dim, max, sum⟩ := kt_stat_work_spec _ _ _ _ work
      rw [wrap_of_fits _ ⟨by unfold intMin; omega, total⟩] at sum
      rw [wrap_of_fits _ ⟨by unfold intMin; omega, more⟩] at dim
      exact ⟨by omega, by omega, by omega, by omega, by omega⟩
  | resize acts point work =>
      obtain ⟨_, sampled⟩ := moderate
      subst acts
      obtain ⟨resized, done, dim, sum, max⟩ := kt_realloc_work_spec s.devStat (sampled point) (by omega)
        ⟨by unfold intMin; omega, fits⟩ mean
      rw [work] at done
      cases done
      exact ⟨by omega, by omega, by rw [sum]; decide, by omega, by omega⟩

theorem stat_inv_run (run : Run (device ι) Moderate (myModuleInit ι) events s) : StatInv s.devStat := by
  have start : StatInv (dsInitAlloc ⟨0, [], 0, 0, 0⟩ startKbDim) := by constructor <;> decide
  refine Run.invariant (fun _ s => StatInv s.devStat) start ?_ run
  intro _ s action next out _ inv moderate stepped
  exact stat_inv_move s next action out inv moderate (device_moves s next action out stepped)

theorem within_largest_limit (run : Run (device ι) ok (myModuleInit ι) events s) :
    s.devStat.dsKbMax ≤ largestLimit events ∧ s.kbFifo.count ≤ largestLimit events := by
  refine Run.invariant (fun events s => s.devStat.dsKbMax ≤ largestLimit events ∧ s.kbFifo.count ≤ largestLimit events)
    ⟨Int.le_refl startKbDim, by simp [myModuleInit, kbInit, largestLimit, startKbDim]⟩ ?_ run
  rintro events s action next out before ⟨limit, count⟩ _ stepped
  cases device_effect s next action out (device_moves s next action out stepped) with
  | quiet stat fewer silent =>
      rw [largest_limit_silent events out silent, stat]
      omega
  | push point stat more silent =>
      have room := push_ready_run before _ _ (.inr point)
      rw [largest_limit_silent events out silent, stat]
      omega
  | sample acts point work fifo emits =>
      have same := (kt_stat_work_spec _ _ _ _ work).2.1
      subst emits
      rw [fifo, same]
      simpa [largestLimit, Event.raise] using And.intro limit count
  | resize acts point work fifo emits =>
      subst emits
      rw [fifo]
      simp only [largestLimit, List.foldl_append, List.foldl_cons, List.foldl_nil, Event.raise] at count ⊢
      omega
  | trap acts point work stat fifo emits =>
      subst emits
      rw [fifo, stat]
      simpa [largestLimit, Event.raise] using And.intro limit count

theorem no_growth_when_full (s next : Dev ι) (action : Action ι) (out : List (Event ι)) (ready : PushReady s)
    (move : DevMove s action next out) (full : s.devStat.dsKbMax ≤ s.kbFifo.count) :
    next.kbFifo.count ≤ s.kbFifo.count := by
  cases device_effect s next action out move with
  | quiet _ fewer => exact fewer
  | push point =>
      have room := ready _ _ (.inr point)
      omega
  | sample _ _ _ fifo | resize _ _ _ fifo | trap _ _ _ _ fifo => exact Int.le_of_eq (by rw [fifo])

theorem overfull_only_by_resize (s next : Dev ι) (action : Action ι) (out : List (Event ι)) (ready : PushReady s)
    (move : DevMove s action next out) (within : s.kbFifo.count ≤ s.devStat.dsKbMax)
    (overfull : next.devStat.dsKbMax < next.kbFifo.count) :
    (∃ env, action = .kt .ktRealloc env) ∧ next.devStat.dsKbMax < s.devStat.dsKbMax := by
  cases device_effect s next action out move with
  | quiet stat fewer =>
      rw [stat] at overfull
      omega
  | push point stat more =>
      have room := ready _ _ (.inr point)
      rw [stat] at overfull
      omega
  | sample _ _ work fifo =>
      have same := (kt_stat_work_spec _ _ _ _ work).2.1
      rw [fifo, same] at overfull
      omega
  | resize acts _ _ fifo =>
      rw [fifo] at overfull
      exact ⟨⟨_, acts⟩, by omega⟩
  | trap _ _ _ stat fifo =>
      rw [stat, fifo] at overfull
      omega

theorem admission_control (run : Run (device ι) Moderate (myModuleInit ι) events s) :
    2 ≤ s.devStat.dsKbMax ∧
      (∀ t value, (s.tasks t).pc = .writePush value → s.kbFifo.count < s.devStat.dsKbMax) ∧
      s.kbFifo.count ≤ largestLimit events ∧
      ∀ action next out, (device ι).step s action = some (next, out) →
        (s.devStat.dsKbMax ≤ s.kbFifo.count → next.kbFifo.count ≤ s.kbFifo.count) ∧
        (s.kbFifo.count ≤ s.devStat.dsKbMax → next.devStat.dsKbMax < next.kbFifo.count →
          (∃ env, action = .kt .ktRealloc env) ∧ next.devStat.dsKbMax < s.devStat.dsKbMax) := by
  have ready := push_ready_run run
  refine ⟨(stat_inv_run run).limit, fun t value point => ready t value (.inr point), (within_largest_limit run).2, ?_⟩
  intro action next out stepped
  have move := device_moves s next action out stepped
  exact ⟨no_growth_when_full s next action out ready move, overfull_only_by_resize s next action out ready move⟩

def moderate (s : Dev ι) : Action ι → Bool
  | .kt .ktStat _ =>
      s.kbFifo.count ≤ 21474835 ∧ s.devStat.dsKbSum + s.kbFifo.count ≤ intMax ∧ s.devStat.dsKbDim < intMax
  | .kt .ktRealloc _ => s.kbFifo.count ≤ 21474835 ∧ ((s.kts .ktRealloc).pc = .work → 1 ≤ s.devStat.dsKbDim)
  | _ => s.kbFifo.count ≤ 21474835

omit [DecidableEq ι] in
theorem moderate_sound (s : Dev ι) (action : Action ι) (checked : moderate s action = true) : Moderate s action := by
  cases action with
  | kt k env =>
      cases k with
      | ktStat =>
          obtain ⟨few, fits⟩ := of_decide_eq_true checked
          exact ⟨few, fun _ => fits⟩
      | ktRealloc =>
          obtain ⟨few, sampled⟩ := of_decide_eq_true checked
          exact ⟨few, sampled⟩
  | _ => exact ⟨of_decide_eq_true checked, trivial⟩

-- kt_stat samples an empty queue, five strings are written, and kt_realloc
-- shrinks the limit from 5 to 2 below them.
theorem admission_control_after_shrink : ∃ events s, Run (device Bool) Moderate (myModuleInit Bool) events s ∧
    s.kbFifo.count = 5 ∧ s.devStat.dsKbMax = 2 ∧ s.kbFifo.count ≤ largestLimit events ∧
    ∀ action next out, (device Bool).step s action = some (next, out) → next.kbFifo.count ≤ s.kbFifo.count := by
  obtain ⟨events, s, run, seen⟩ := exec_reaches (device Bool) moderate Moderate moderate_sound
    (myModuleInit Bool)
    ([Action.call false .myOpen] ++ alone false 3 ++ [Action.ret false] ++ List.replicate 6 (Action.kt .ktStat {}) ++
      (List.replicate 5 ([Action.call false (.myWrite [97, 0])] ++ alone false 7 ++ [Action.ret false])).flatten ++
      List.replicate 6 (Action.kt .ktRealloc {}))
    (fun s _ => s.kbFifo.count = 5 ∧ s.devStat.dsKbMax = 2) (by decide +kernel)
  obtain ⟨count, limit⟩ : s.kbFifo.count = 5 ∧ s.devStat.dsKbMax = 2 := by simpa using seen
  obtain ⟨_, _, largest, steps⟩ := admission_control run
  refine ⟨events, s, run, count, limit, largest, ?_⟩
  intro action next out stepped
  exact (steps action next out stepped).1 (by omega)

def Event.collect (samples : List Int) : Event ι → List Int
  | .sampled dim => samples ++ [dim]
  | .limit _ => []
  | _ => samples

def samplesSince (events : List (Event ι)) : List Int := events.foldl Event.collect []

def StatFirst (events : List (Event ι)) : Prop :=
  ∀ before after dim max, events = before ++ Event.realloc dim max :: after →
    1 ≤ (samplesSince before).length ∧ (samplesSince before).length < 2147483648

def MeanFits (s : Dev ι) : Action ι → Prop
  | .kt .ktRealloc _ => (s.kts .ktRealloc).pc = .work → s.devStat.dsKbSum ≤ 21474835 * s.devStat.dsKbDim
  | _ => True

omit [DecidableEq ι] in
theorem samples_since_silent (events out : List (Event ι)) (silent : ∀ event ∈ out, event.kernel = false) :
    samplesSince (events ++ out) = samplesSince events := by
  unfold samplesSince
  rw [List.foldl_append]
  exact foldl_silent Event.collect (by rintro _ (_ | _) quiet <;> first | rfl | cases quiet) out silent _

omit [DecidableEq ι] in
theorem stat_first_earlier (events out : List (Event ι)) (order : StatFirst (events ++ out)) : StatFirst events := by
  intro before after dim max split
  exact order before (after ++ out) dim max (by simp [split])

structure SampleInv (events : List (Event ι)) (s : Dev ι) : Prop where
  samples : s.devStat.dsKbDim = wrap (samplesSince events).length
  fits : Fits s.devStat.dsKbSum
  limit : 1 ≤ s.devStat.dsKbMax
  found : ∀ dim max, .realloc dim max ∈ events → 1 ≤ dim ∧ 1 ≤ max
  alive : (s.kts .ktRealloc).pc ≠ .oops

theorem kt_realloc_dies (s next : Dev ι) (action : Action ι) (out : List (Event ι)) (move : DevMove s action next out)
    (dead : (next.kts .ktRealloc).pc = .oops) :
    (s.kts .ktRealloc).pc = .oops ∨ ∃ env, action = .kt .ktRealloc env ∧ (s.kts .ktRealloc).pc = .work ∧
      ktReallocWork s.devStat = none ∧ out = [.realloc s.devStat.dsKbDim s.devStat.dsKbMax] := by
  cases move with
  | client move => exact .inl (by cases move <;> simpa [myClose] using dead)
  | @kt k env _ _ move =>
      cases move with
      | reallocOops point trapped => exact .inr ⟨env, rfl, point, trapped, rfl⟩
      | proceed | test =>
          cases k <;> simp only [goto_kt_kts, reduceCtorEq, if_true, if_false] at dead
          · exact .inl dead
          · split at dead <;> cases dead
      | setState | acquire | release | wake =>
          cases k with
          | ktStat => exact .inl (by simpa using dead)
          | ktRealloc => simp at dead
      | sampled | statOops => exact .inl (by simpa using dead)
      | resized => simp at dead
  | @timer k point => cases k <;> exact .inl (by simpa using dead)
  | _ => exact .inl (by simpa [signalStep] using dead)

omit [DecidableEq ι] in
theorem sample_inv_resize (events out : List (Event ι)) (s : Dev ι) (env : Env) (inv : SampleInv events s)
    (order : StatFirst (events ++ .realloc s.devStat.dsKbDim s.devStat.dsKbMax :: out))
    (mean : MeanFits s (.kt .ktRealloc env)) (point : (s.kts .ktRealloc).pc = .work) :
    1 ≤ s.devStat.dsKbDim ∧ ∃ ds, ktReallocWork s.devStat = some ds ∧ ds.dsKbDim = 0 ∧ ds.dsKbSum = 0 ∧ 1 ≤ ds.dsKbMax := by
  obtain ⟨some, few⟩ := order events out _ _ rfl
  have sampled : 1 ≤ s.devStat.dsKbDim := by
    rw [inv.samples, wrap_of_fits _ ⟨by unfold intMin; omega, by unfold intMax; omega⟩]
    omega
  obtain ⟨ds, done, dim, sum, limit⟩ := kt_realloc_work_spec s.devStat sampled inv.limit inv.fits (mean point)
  have positive := inv.limit
  exact ⟨sampled, ds, done, dim, sum, by omega⟩

theorem sample_inv_move (events out : List (Event ι)) (s next : Dev ι) (action : Action ι) (inv : SampleInv events s)
    (order : StatFirst (events ++ out)) (mean : MeanFits s action) (move : DevMove s action next out) :
    SampleInv (events ++ out) next := by
  have alive : (next.kts .ktRealloc).pc ≠ .oops := by
    intro dead
    rcases kt_realloc_dies s next action out move dead with before | ⟨env, rfl, point, trapped, rfl⟩
    · exact inv.alive before
    · obtain ⟨_, _, done, _⟩ := sample_inv_resize events [] s env inv order mean point
      rw [trapped] at done
      cases done
  cases device_effect s next action out move with
  | quiet stat _ silent | push _ stat _ silent =>
      have since := samples_since_silent events out silent
      refine ⟨by rw [stat, since, inv.samples], stat ▸ inv.fits, stat ▸ inv.limit, ?_, alive⟩
      intro dim max member
      rcases List.mem_append.mp member with old | new
      · exact inv.found dim max old
      · cases silent _ new
  | sample acts point work fifo emits =>
      obtain ⟨dim, limit, sum⟩ := kt_stat_work_spec _ _ _ _ work
      refine ⟨?_, sum ▸ wrap_fits _, limit ▸ inv.limit, by simpa [emits] using inv.found, alive⟩
      rw [dim, inv.samples, wrap_add, emits]
      simp [samplesSince, Event.collect]
  | resize acts point work fifo emits =>
      subst acts emits
      obtain ⟨sampled, ds, done, dim, sum, limit⟩ := sample_inv_resize events _ s _ inv order mean point
      rw [work] at done
      cases done
      refine ⟨?_, sum ▸ ⟨by decide, by decide⟩, limit, ?_, alive⟩
      · rw [dim]
        simp [samplesSince, Event.collect, wrap]
      · intro dim max member
        simp only [List.mem_append, List.mem_cons, Event.realloc.injEq, List.not_mem_nil, reduceCtorEq, or_false] at member
        rcases member with old | ⟨rfl, rfl⟩
        · exact inv.found dim max old
        · exact ⟨sampled, inv.limit⟩
  | trap acts point work stat fifo emits =>
      subst acts emits
      obtain ⟨_, _, done, _⟩ := sample_inv_resize events _ s _ inv order mean point
      rw [work] at done
      cases done

theorem sample_inv_run (run : Run (device ι) MeanFits (myModuleInit ι) events s) (order : StatFirst events) :
    SampleInv events s := by
  refine Run.invariant (fun events s => StatFirst events → SampleInv events s) ?_ ?_ run order
  · intro _
    constructor <;> simp [myModuleInit, dsInitAlloc, startKbDim, samplesSince, wrap, Fits, intMin, intMax]
  · intro events s action next out _ inv mean stepped order
    exact sample_inv_move events out s next action (inv (stat_first_earlier events out order)) order mean
      (device_moves s next action out stepped)

theorem kt_realloc_divides_safely (run : Run (device ι) MeanFits (myModuleInit ι) events s) (order : StatFirst events) :
    (∀ dim max, .realloc dim max ∈ events → 1 ≤ dim ∧ 1 ≤ max) ∧ (s.kts .ktRealloc).pc ≠ .oops :=
  ⟨(sample_inv_run run order).found, (sample_inv_run run order).alive⟩

def meanFits (s : Dev ι) : Action ι → Bool
  | .kt .ktRealloc _ => s.devStat.dsKbSum ≤ 21474835 * s.devStat.dsKbDim
  | _ => true

omit [DecidableEq ι] in
theorem mean_fits_sound (s : Dev ι) (action : Action ι) (checked : meanFits s action = true) : MeanFits s action := by
  cases action with
  | kt k env =>
      cases k with
      | ktStat => trivial
      | ktRealloc => exact fun _ => of_decide_eq_true checked
  | _ => trivial

end Limit

theorem kt_realloc_divides_safely_after_stat : ∃ events s, Run (device Bool) MeanFits (myModuleInit Bool) events s ∧
    StatFirst events ∧ .realloc 1 5 ∈ events ∧ (s.kts .ktRealloc).pc ≠ .oops := by
  obtain ⟨events, s, run, seen⟩ := exec_reaches (device Bool) meanFits MeanFits mean_fits_sound
    (myModuleInit Bool)
    ([Action.call false .myOpen] ++ alone false 3 ++ [Action.ret false] ++ List.replicate 6 (Action.kt .ktStat {}) ++
      List.replicate 6 (Action.kt .ktRealloc {}))
    (fun _ events => events = [.sampled 0, .realloc 1 5, .limit 2]) (by decide +kernel)
  have emitted : events = [.sampled 0, .realloc 1 5, .limit 2] := of_decide_eq_true seen
  have order : StatFirst events := by
    rintro (_ | ⟨first, _ | ⟨second, _ | ⟨third, rest⟩⟩⟩) after dim max split <;> simp [emitted] at split
    rw [← split.1]
    exact ⟨by decide, by decide⟩
  exact ⟨events, s, run, order, by simp [emitted], (kt_realloc_divides_safely run order).2⟩

-- The device is opened and kt_realloc is scheduled before kt_stat: it finds no
-- sample, and is killed with dev_mutex held.
theorem kt_realloc_divides_by_zero : ∃ events s, Run (device Bool) Any (myModuleInit Bool) events s ∧
    .realloc 0 5 ∈ events ∧ (s.kts .ktRealloc).pc = .oops ∧ s.devMutex = some (.kt .ktRealloc) := by
  obtain ⟨events, s, run, seen⟩ := exec_reaches_any (device Bool)
    (myModuleInit Bool) ([Action.call false .myOpen] ++ alone false 3 ++ [Action.ret false] ++ List.replicate 5 (Action.kt .ktRealloc {}))
    (fun s events => .realloc 0 5 ∈ events ∧ (s.kts .ktRealloc).pc = .oops ∧ s.devMutex = some (.kt .ktRealloc))
    (by decide +kernel)
  exact ⟨events, s, run, by simpa using seen⟩

end MyDev
