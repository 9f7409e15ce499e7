import MyDev.DeviceFifo

set_option autoImplicit false

namespace MyDev

open Library

-- A string operation of kbuf.c made on behalf of a call. kb_push reads the
-- string that starts in `value`, in front of whatever `mem` follows it there;
-- kb_pop writes `node` and its NUL into a block of `dim` bytes.
inductive Access where
  | push (value mem : Bytes) (linked : Bool)
  | pop (dim : Nat) (node : Bytes)
deriving DecidableEq, Repr

def Access.InBounds : Access → Prop
  | .push value mem _ => (cstr (value ++ mem)).length + 1 ≤ value.length
  | .pop dim node => node.length + 1 ≤ dim

inductive Note where
  | access (op : Access)
  | returned (res : Int) (used : Option Access)
deriving DecidableEq, Repr

def Note.Fits : Note → Prop
  | .access op => op.InBounds
  | .returned res used => used = none → res ≠ 0

def Note.buffers : Note → List Bytes
  | .access (.push value _ _) => [value]
  | _ => []

def Note.linked : Note → List (Bytes × Bytes)
  | .access (.push value mem true) => [(value, mem)]
  | _ => []

def Note.taken : Note → List (Nat × Bytes)
  | .access (.pop dim node) => [(dim, node)]
  | _ => []

-- The device with each client's current call watched: `used` is the string
-- operation that call has made.
structure Watched (ι : Type) where
  dev : Dev ι
  used : ι → Option Access

section Watching

variable {ι : Type}

-- kb_push takes strlen before it looks for memory, so that a push that fails
-- has read its string all the same.
def stringAccess (s : Dev ι) (t : ι) (env : Env) : Option Access :=
  match (s.tasks t).pc with
  | .writePush value => some (.push value env.mem env.ok)
  | .readPop dim _ => (kbPop s.kbFifo).map fun popped => .pop dim popped.1
  | _ => none

def Event.returns (used : ι → Option Access) : Event ι → List Note
  | .readDone t res _ | .writeDone t res => [.returned res (used t)]
  | _ => []

variable [DecidableEq ι]

def Watched.track (s : Watched ι) : Action ι → ι → Option Access
  | .call t _ => Function.update s.used t none
  | .go t env => Function.update s.used t ((stringAccess s.dev t env).or (s.used t))
  | _ => s.used

def Watched.made (s : Watched ι) : Action ι → List Note
  | .go t env => (stringAccess s.dev t env).toList.map .access
  | _ => []

def watchedDevice (ι : Type) [DecidableEq ι] : Machine (Watched ι) (Action ι) Note where
  step s action := ((device ι).step s.dev action).map fun moved =>
    (⟨moved.1, s.track action⟩, s.made action ++ moved.2.flatMap (Event.returns s.used))

def watchedInit (ι : Type) : Watched ι := ⟨myModuleInit ι, fun _ => none⟩

omit [DecidableEq ι] in
theorem access_at (s : Dev ι) (t : ι) (env : Env) (access : Access) (found : stringAccess s t env = some access) :
    (∃ value, (s.tasks t).pc = .writePush value ∧ access = .push value env.mem env.ok) ∨
      ∃ dim value node rest, (s.tasks t).pc = .readPop dim value ∧ kbPop s.kbFifo = some (node, rest) ∧
        access = .pop dim node := by
  unfold stringAccess at found
  split at found
  · rename_i value point
    cases found
    exact .inl ⟨value, point, rfl⟩
  · rename_i dim value point
    obtain ⟨⟨node, rest⟩, popped, rfl⟩ := Option.map_eq_some_iff.mp found
    exact .inr ⟨dim, value, node, rest, point, popped, rfl⟩
  · cases found

theorem access_queue (s next : Dev ι) (t : ι) (env : Env) (out : List (Event ι))
    (stepped : clientStep s t env = some (next, out)) :
    (stringAccess s t env = none ∧ next.kbFifo = s.kbFifo) ∨
      (∃ value, stringAccess s t env = some (.push value env.mem env.ok) ∧
        next.kbFifo.nodes = s.kbFifo.nodes ++ if env.ok then [cstr (value ++ env.mem)] else []) ∨
      ∃ dim node, stringAccess s t env = some (.pop dim node) ∧ s.kbFifo.nodes = node :: next.kbFifo.nodes := by
  cases found : stringAccess s t env with
  | none =>
      refine .inl ⟨rfl, ?_⟩
      cases client_step_moves s next t env out stepped with
      | popped point popped => simp [stringAccess, point, popped] at found
      | pushed point => simp [stringAccess, point] at found
      | _ => simp [myClose]
  | some access =>
      right
      rcases access_at s t env access found with ⟨value, point, rfl⟩ | ⟨dim, value, node, rest, point, popped, rfl⟩
      · refine .inl ⟨value, rfl, ?_⟩
        simp only [clientStep, point] at stepped
        split at stepped <;> rename_i linked <;> cases stepped <;> simp [linked]
      · refine .inr ⟨dim, node, rfl, ?_⟩
        simp only [clientStep, point, popped] at stepped
        cases stepped
        exact (kb_pop_some _ _ _ popped).1

theorem device_watched {events : List (Event ι)} {d : Dev ι} (run : Run (device ι) Any (myModuleInit ι) events d) :
    ∃ log s, Run (watchedDevice ι) Any (watchedInit ι) log s ∧ s.dev = d := by
  refine Run.observe Watched.dev (watchedInit ι) ?_ run
  intro s action next out stepped
  exact ⟨⟨next, s.track action⟩, _, by simp only [watchedDevice, stepped]; rfl, rfl⟩

def Pc.Owes (used : Option Access) : Pc → Prop
  | .readCopy _ _ _ | .readWake _ _ | .writeWake _ => used ≠ none
  | .readUnlock res _ _ | .writeUnlock res => used = none → res ≠ 0
  | _ => True

theorem owes_more (pc : Pc) (used made : Option Access) (owes : pc.Owes used) : pc.Owes (made.or used) := by
  cases made with
  | none => exact owes
  | some op => cases pc <;> simp [Pc.Owes]

omit [DecidableEq ι] in
theorem local_owes {s : Dev ι} {env : Env} {pc next : Pc} {used : Option Access} (step : LocalPc s env pc next)
    (owes : pc.Owes used) : next.Owes used := by
  cases step with
  | readCopied => exact owes
  | readNoMemory | readNothing | readFault | writeNoMemory | writeFault => intro _; decide
  | _ => trivial

theorem locked_owes (pc next : Pc) (used : Option Access) (entered : pc.locked = some next) : next.Owes used := by
  unfold Pc.locked at entered
  split at entered <;> cases entered <;> trivial

theorem unlocked_owes (pc next : Pc) (used : Option Access) (left : pc.unlocked = some next) : next.Owes used := by
  unfold Pc.unlocked at left
  split at left <;> cases left <;> trivial

theorem client_owes (s next : Dev ι) (t : ι) (env : Env) (out : List (Event ι)) (used : Option Access)
    (move : ClientMove s t env next out) (owes : (s.tasks t).pc.Owes used) :
    (next.tasks t).pc.Owes ((stringAccess s t env).or used) := by
  cases move with
  | «local» move =>
      apply owes_more
      simpa using local_owes (local_move_pc s env _ _ move) owes
  | acquire _ entered =>
      apply owes_more
      simpa using locked_owes _ _ used entered
  | release left =>
      apply owes_more
      simpa using unlocked_owes _ _ used left
  | popped point popped => simp [stringAccess, point, popped, Pc.Owes]
  | pushed point => simp [stringAccess, point, Pc.Owes]
  | opened point | closed point => simp [Pc.Owes]
  | wakeWriters point | wakeReaders point =>
      apply owes_more
      rw [point] at owes
      rw [goto_tasks, if_pos rfl]
      intro nothing
      exact absurd nothing owes

theorem watched_owes_move (s : Watched ι) (next : Dev ι) (action : Action ι) (out : List (Event ι))
    (inv : ∀ t, (s.dev.tasks t).pc.Owes (s.used t)) (move : DevMove s.dev action next out) (u : ι) :
    (next.tasks u).pc.Owes (s.track action u) := by
  cases task_move s.dev next u action out move with
  | @call op _ entered =>
      rw [entered]
      cases op <;> trivial
  | go own => simpa [Watched.track] using client_owes s.dev next u _ out _ own (inv u)
  | ret _ left =>
      rw [left]
      trivial
  | other other same =>
      have kept : s.track action u = s.used u := by
        cases action with
        | call t op | go t env =>
            have different : u ≠ t := fun here => other (by rw [here]; rfl)
            simp [Watched.track, different]
        | _ => rfl
      rw [same, kept]
      exact inv u

theorem watched_steps (s next : Watched ι) (action : Action ι) (log : List Note)
    (stepped : (watchedDevice ι).step s action = some (next, log)) :
    ∃ out, (device ι).step s.dev action = some (next.dev, out) ∧ next.used = s.track action ∧
      log = s.made action ++ out.flatMap (Event.returns s.used) := by
  simp only [watchedDevice, Option.map_eq_some_iff, Prod.mk.injEq] at stepped
  obtain ⟨⟨dev, out⟩, moved, rfl, rfl⟩ := stepped
  exact ⟨out, moved, rfl, rfl⟩

theorem returns_fit (s next : Dev ι) (action : Action ι) (out : List (Event ι)) (used : ι → Option Access)
    (inv : ∀ t, (s.tasks t).pc.Owes (used t)) (move : DevMove s action next out) :
    ∀ note ∈ out.flatMap (Event.returns used), note.Fits := by
  cases move with
  | @client t env _ _ move =>
      cases move with
      | release left =>
          have owes := inv t
          cases point : (s.tasks t).pc with
          | readUnlock | writeUnlock =>
              rw [point] at owes
              simpa [doneEvents, Event.returns, Note.Fits, Pc.Owes] using owes
          | _ => simp [doneEvents]
      | _ => simp [Event.returns]
  | kt move => cases move <;> simp [Event.returns]
  | _ => simp

def Note.text (pair : Bytes × Bytes) : Bytes := cstr (pair.1 ++ pair.2)

def Note.fifo : Note → List (FifoEvent Bytes)
  | .access (.push value mem true) => [.pushed (Note.text (value, mem))]
  | .access (.pop _ node) => [.popped node]
  | _ => []

theorem note_pushes (note : Note) : note.fifo.flatMap FifoEvent.pushes = note.linked.map Note.text := by
  unfold Note.fifo Note.linked
  split <;> simp_all [FifoEvent.pushes]

theorem note_pops (note : Note) : note.fifo.flatMap FifoEvent.pops = note.taken.map Prod.snd := by
  unfold Note.fifo Note.taken
  split <;> simp_all [FifoEvent.pops]

omit [DecidableEq ι] in
theorem returns_silent (used : ι → Option Access) (out : List (Event ι)) :
    (out.flatMap (Event.returns used)).flatMap Note.fifo = [] := by
  rw [List.flatMap_assoc, List.flatMap_eq_nil_iff]
  intro event _
  cases event <;> rfl

theorem queue_elsewhere (s next : Dev ι) (action : Action ι) (out : List (Event ι))
    (other : ∀ t env, action ≠ .go t env) (move : DevMove s action next out) : next.kbFifo = s.kbFifo := by
  cases move with
  | @client t env _ _ move => exact absurd rfl (other t env)
  | kt move => cases move <;> rfl
  | _ => rfl

variable {log : List Note} {s : Watched ι}

theorem watched_refines_fifo (run : Run (watchedDevice ι) Any (watchedInit ι) log s) :
    Run (fifo Bytes) Any [] (log.flatMap Note.fifo) s.dev.kbFifo.nodes := by
  refine run.project (fun s => s.dev.kbFifo.nodes) Note.fifo ?_
  intro _ s action next made _ _ stepped
  obtain ⟨out, moved, _, rfl⟩ := watched_steps s next action made stepped
  rw [List.flatMap_append, returns_silent, List.append_nil]
  cases action with
  | go t env =>
      rcases access_queue s.dev next.dev t env out moved with ⟨none, same⟩ | ⟨value, found, linked⟩ | ⟨dim, node, found, nodes⟩
      · exact .inl ⟨by rw [same], by simp [Watched.made, none]⟩
      · cases success : env.ok with
        | false => exact .inl ⟨by simpa [success] using linked, by simp [Watched.made, found, success, Note.fifo]⟩
        | true =>
            refine .inr ⟨.push (cstr (value ++ env.mem)), trivial, ?_⟩
            simp [Library.fifo, Watched.made, found, success, Note.fifo, Note.text, linked]
      · exact .inr ⟨.pop, trivial, by simp [Library.fifo, nodes, Watched.made, found, Note.fifo]⟩
  | _ =>
      refine .inl ⟨?_, rfl⟩
      rw [queue_elsewhere s.dev next.dev _ out (by simp) (device_moves s.dev next.dev _ out moved)]

theorem watched_fifo_law (run : Run (watchedDevice ι) Any (watchedInit ι) log s) :
    (log.flatMap Note.linked).map Note.text = (log.flatMap Note.taken).map Prod.snd ++ s.dev.kbFifo.nodes := by
  have law := fifo_law (watched_refines_fifo run)
  simpa only [List.flatMap_assoc, note_pushes, note_pops, List.map_flatMap] using law

theorem watched_owes (run : Run (watchedDevice ι) Any (watchedInit ι) log s) (t : ι) :
    (s.dev.tasks t).pc.Owes (s.used t) := by
  revert t
  refine Run.invariant (fun _ s => ∀ t, (s.dev.tasks t).pc.Owes (s.used t)) (fun _ => trivial) ?_ run
  intro _ s action next made _ inv _ stepped u
  obtain ⟨out, moved, tracked, _⟩ := watched_steps s next action made stepped
  rw [tracked]
  exact watched_owes_move s next.dev action out inv (device_moves s.dev next.dev action out moved) u

theorem watched_returns (run : Run (watchedDevice ι) Any (watchedInit ι) log s) :
    ∀ res used, .returned res used ∈ log → used = none → res ≠ 0 := by
  refine Run.invariant (fun log _ => ∀ res used, .returned res used ∈ log → used = none → res ≠ 0) (by simp) ?_ run
  intro _ s action next made before earlier _ stepped res used member
  rcases List.mem_append.mp member with old | new
  · exact earlier res used old
  · obtain ⟨out, moved, _, rfl⟩ := watched_steps s next action made stepped
    rcases List.mem_append.mp new with operation | returned
    · cases action <;> simp [Watched.made] at operation
    · exact returns_fit s.dev next.dev action out s.used (watched_owes before) (device_moves _ _ _ _ moved) _ returned

end Watching

theorem room_iff (linked : List (Bytes × Bytes)) (taken : List (Nat × Bytes)) (nodes : List Bytes)
    (terminated : ∀ pair ∈ linked, 0 ∈ pair.1) (law : linked.map Note.text = taken.map Prod.snd ++ nodes) :
    (∀ pair ∈ taken, pair.2.length < pair.1) ↔
      ∀ pair ∈ (linked.map Prod.fst).zip (taken.map Prod.fst), (cstr pair.1).length < pair.2 := by
  induction taken generalizing linked with
  | nil => simp
  | cons first others ih =>
      cases linked with
      | nil => simp at law
      | cons head rest =>
          simp only [List.map_cons, List.cons_append, List.cons.injEq] at law
          have later := ih rest (fun pair member => terminated pair (by simp [member])) law.2
          have text : Note.text head = cstr head.1 := cstr_append_of_nul _ _ (terminated head (by simp))
          rw [law.1] at text
          simp only [List.map_cons, List.zip_cons_cons, List.forall_mem_cons, later, text]

-- What the clients would have to agree on among themselves: every buffer that
-- gets to kb_push holds a NUL, and the my_read that takes the k-th string comes
-- with more room than the string in the k-th buffer is long.
structure ClientsAgree (log : List Note) : Prop where
  terminated : ∀ buf ∈ log.flatMap Note.buffers, 0 ∈ buf
  room : ∀ pair ∈ ((log.flatMap Note.linked).map Prod.fst).zip ((log.flatMap Note.taken).map Prod.fst),
    (cstr pair.1).length < pair.2

theorem mem_buffers (log : List Note) (buf : Bytes) :
    buf ∈ log.flatMap Note.buffers ↔ ∃ mem linked, .access (.push buf mem linked) ∈ log := by
  rw [List.mem_flatMap]
  constructor
  · rintro ⟨note, there, member⟩
    unfold Note.buffers at member
    split at member
    · cases List.mem_singleton.mp member
      exact ⟨_, _, there⟩
    · cases member
  · rintro ⟨mem, linked, there⟩
    exact ⟨_, there, List.mem_singleton.mpr rfl⟩

theorem mem_taken (log : List Note) (dim : Nat) (node : Bytes) :
    (dim, node) ∈ log.flatMap Note.taken ↔ .access (.pop dim node) ∈ log := by
  rw [List.mem_flatMap]
  constructor
  · rintro ⟨note, there, member⟩
    unfold Note.taken at member
    split at member
    · cases List.mem_singleton.mp member
      exact there
    · cases member
  · intro there
    exact ⟨_, there, List.mem_singleton.mpr rfl⟩

theorem mem_linked (log : List Note) (pair : Bytes × Bytes) (member : pair ∈ log.flatMap Note.linked) :
    pair.1 ∈ log.flatMap Note.buffers := by
  obtain ⟨note, there, linked⟩ := List.mem_flatMap.mp member
  unfold Note.linked at linked
  split at linked
  · cases List.mem_singleton.mp linked
    exact (mem_buffers log _).mpr ⟨_, _, there⟩
  · cases linked

theorem agreed_in_bounds {ι : Type} [DecidableEq ι] {log : List Note} {s : Watched ι}
    (run : Run (watchedDevice ι) Any (watchedInit ι) log s) (agree : ClientsAgree log) (op : Access) (there : .access op ∈ log) :
    op.InBounds := by
  cases op with
  | push value mem linked =>
      have terminated := agree.terminated value ((mem_buffers log value).mpr ⟨mem, linked, there⟩)
      exact (cstr_inside_iff value mem).mpr terminated
  | pop dim node =>
      have room := (room_iff _ _ _ (fun pair member => agree.terminated _ (mem_linked log pair member))
        (watched_fifo_law run)).mpr agree.room
      exact room (dim, node) ((mem_taken log dim node).mpr there)

theorem string_bounds_iff {ι : Type} [DecidableEq ι] {log : List Note} {s : Watched ι}
    (run : Run (watchedDevice ι) Any (watchedInit ι) log s) :
    ((∀ note ∈ log, note.Fits) ↔ ClientsAgree log) ∧
      ∀ t env next out, (device ι).step s.dev (.go t env) = some (next, out) → stringAccess s.dev t env = none →
        next.kbFifo = s.dev.kbFifo := by
  constructor
  · constructor
    · intro fits
      have terminated : ∀ buf ∈ log.flatMap Note.buffers, 0 ∈ buf := by
        intro buf member
        obtain ⟨mem, linked, there⟩ := (mem_buffers log buf).mp member
        exact (cstr_inside_iff buf mem).mp (fits _ there)
      refine ⟨terminated, (room_iff _ _ _ ?_ (watched_fifo_law run)).mp ?_⟩
      · intro pair member
        exact terminated pair.1 (mem_linked log pair member)
      · intro pair member
        exact fits _ ((mem_taken log pair.1 pair.2).mp member)
    · intro agree note there
      cases note with
      | returned res used => exact watched_returns run res used there
      | access op => exact agreed_in_bounds run agree op there
  · intro t env next out moved none
    rcases access_queue s.dev next t env out moved with ⟨_, same⟩ | ⟨_, found, _⟩ | ⟨_, _, found, _⟩
    · exact same
    · rw [none] at found
      cases found
    · rw [none] at found
      cases found

def agreedLog : List Note :=
  [.access (.push [97, 0] [] true), .returned 0 (some (.push [97, 0] [] true)), .access (.pop 2 [97]),
    .returned 0 (some (.pop 2 [97])), .returned 1 none]

theorem string_bounds_iff_agreed : ∃ s, Run (watchedDevice Bool) Any (watchedInit Bool) agreedLog s ∧
    ∀ note ∈ agreedLog, note.Fits := by
  obtain ⟨log, s, run, seen⟩ := exec_reaches_any (watchedDevice Bool)
    (watchedInit Bool)
    ([Action.call false (.myWrite [97, 0])] ++ alone false 7 ++ [Action.call true (.myRead 2)] ++ alone true 7 ++
      [Action.ret true, Action.call true (.myRead 5)] ++ alone true 1 ++ [Action.go true { ok := false }] ++ alone true 1)
    (fun _ log => log = agreedLog) (by decide +kernel)
  have logged : log = agreedLog := by simpa using seen
  subst logged
  exact ⟨s, run, (string_bounds_iff run).1.mpr ⟨by decide, by decide⟩⟩

-- A my_write of one byte that is not NUL returns 0 after kb_push has read on
-- behind it, and a my_read of one byte returns 0 after kb_pop has written the
-- two bytes of "a" into its block.
theorem string_bounds_broken :
    (∃ log s, Run (watchedDevice Bool) Any (watchedInit Bool) log s ∧ s.dev.kbFifo.nodes = [[97, 98]] ∧
      .returned 0 (some (.push [97] [98, 0] true)) ∈ log ∧ ¬ (Access.push [97] [98, 0] true).InBounds) ∧
    (∃ log s, Run (watchedDevice Bool) Any (watchedInit Bool) log s ∧ s.dev.kbFifo.nodes = [] ∧
      .returned 0 (some (.pop 1 [97])) ∈ log ∧ ¬ (Access.pop 1 [97]).InBounds) := by
  constructor
  · obtain ⟨log, s, run, seen⟩ := exec_reaches_any (watchedDevice Bool)
      (watchedInit Bool) ([Action.call true (.myWrite [97])] ++ alone true 4 ++ [Action.go true { mem := [98, 0] }] ++ alone true 2)
      (fun s log => s.dev.kbFifo.nodes = [[97, 98]] ∧ .returned 0 (some (.push [97] [98, 0] true)) ∈ log)
      (by decide +kernel)
    obtain ⟨nodes, returned⟩ : s.dev.kbFifo.nodes = [[97, 98]] ∧ .returned 0 (some (.push [97] [98, 0] true)) ∈ log := by
      simpa using seen
    exact ⟨log, s, run, nodes, returned, by simp [Access.InBounds, cstr]⟩
  · obtain ⟨log, s, run, seen⟩ := exec_reaches_any (watchedDevice Bool)
      (watchedInit Bool)
      ([Action.call false (.myWrite [97, 0])] ++ alone false 7 ++ [Action.call true (.myRead 1)] ++ alone true 7)
      (fun s log => s.dev.kbFifo.nodes = [] ∧ .returned 0 (some (.pop 1 [97])) ∈ log) (by decide +kernel)
    obtain ⟨nodes, returned⟩ : s.dev.kbFifo.nodes = [] ∧ .returned 0 (some (.pop 1 [97])) ∈ log := by simpa using seen
    exact ⟨log, s, run, nodes, returned, by simp [Access.InBounds]⟩

end MyDev
