import Mathlib.Algebra.Order.BigOperators.Group.Finset
import MyDev.EndToEnd
import MyDev.Library.Keyed
import MyDev.PipelineLoss

set_option autoImplicit false

namespace MyDev

open Library

theorem small_not_terminator (text : Bytes) (small : Small text) : text ≠ terminatorText := by
  intro same
  exact absurd (small.letters 48 (by rw [same]; decide)).1 (by decide)

def Pc.failing : Pc → Option Bytes
  | .readUnlock res _ taken => if res = 0 then none else taken
  | _ => none

theorem locked_failing (pc next : Pc) (entered : pc.locked = some next) : pc.failing = none ∧ next.failing = none := by
  unfold Pc.locked at entered
  split at entered <;> cases entered <;> exact ⟨rfl, rfl⟩

section Reading

variable {ι : Type}

theorem local_turn {s : Dev ι} {env : Env} {pc next : Pc} {dim : Nat} (step : LocalPc s env pc next)
    (serves : pc.Serves (.myRead dim)) :
    ∃ lost, pc.carrying.toList = lost ++ next.carrying.toList ∧ lost ++ pc.failing.toList = next.failing.toList ∧
      (env.ok = true → lost = []) := by
  cases step with
  | @readFault _ _ taken failure => exact ⟨[taken], rfl, rfl, fun success => absurd (success.symm.trans failure) (by decide)⟩
  | writeLoop | writePass | writeAlloc | writeNoMemory | writeCopied | writeFault | writeOops => exact serves.elim
  | _ => exact ⟨[], rfl, rfl, fun _ => rfl⟩

variable [DecidableEq ι]

def Event.drops (t : ι) : Event ι → List Bytes
  | .readDone u res taken => if u = t ∧ res ≠ 0 then taken.toList else []
  | _ => []

theorem unlocked_turn (t : ι) (pc next : Pc) (dim : Nat) (left : pc.unlocked = some next) (serves : pc.Serves (.myRead dim)) :
    next.carrying = pc.carrying ∧ pc.failing.toList = (doneEvents t pc).flatMap (Event.drops t) ++ next.failing.toList := by
  unfold Pc.unlocked at left
  split at left <;> cases left <;> try exact serves.elim
  · rename_i res got taken
    by_cases success : res = 0 <;> simp [Pc.carrying, Pc.failing, doneEvents, Event.drops, success]
  · exact ⟨rfl, rfl⟩

theorem read_turn (s next : Dev ι) (t : ι) (env : Env) (out : List (Event ι)) (dim : Nat) (move : ClientMove s t env next out)
    (sound : (s.tasks t).pc.Sound) (serves : (s.tasks t).pc.Serves (.myRead dim)) :
    ∃ lost, (s.tasks t).pc.carrying.toList ++ out.flatMap Event.pops = lost ++ (next.tasks t).pc.carrying.toList ∧
      lost ++ (s.tasks t).pc.failing.toList = out.flatMap (Event.drops t) ++ (next.tasks t).pc.failing.toList ∧
      (env.ok = true → lost = []) := by
  cases move with
  | «local» move =>
      obtain ⟨lost, carried, failed, healthy⟩ := local_turn (local_move_pc s env _ _ move) serves
      exact ⟨lost, by simpa using carried, by simpa using failed, healthy⟩
  | acquire _ entered =>
      obtain ⟨before, after⟩ := locked_failing _ _ entered
      exact ⟨[], by simp [locked_carrying _ _ entered], by simp [before, after], fun _ => rfl⟩
  | release left =>
      obtain ⟨carried, failed⟩ := unlocked_turn t _ _ dim left serves
      exact ⟨[], by simp [carried, done_events_pops], by simpa using failed, fun _ => rfl⟩
  | popped point =>
      exact ⟨[], by simp [point, Pc.carrying, Event.pops], by simp [point, Pc.failing, Event.drops], fun _ => rfl⟩
  | wakeWriters point =>
      rw [point] at sound
      have text : cstr _ = _ := sound
      exact ⟨[], by simp [point, Pc.carrying, text], by simp [point, Pc.failing], fun _ => rfl⟩
  | opened point | closed point | pushed point | wakeReaders point =>
      rw [point] at serves
      exact serves.elim

theorem own_pops (s next : Dev ι) (t : ι) (env : Env) (out : List (Event ι)) (move : ClientMove s t env next out) :
    out.flatMap Event.popLog = (out.flatMap Event.pops).map (t, ·) := by
  cases move with
  | release =>
      unfold doneEvents
      split <;> rfl
  | _ => rfl

theorem others_drop_nothing (s next : Dev ι) (action : Action ι) (out : List (Event ι)) (t : ι) (move : DevMove s action next out)
    (other : action.client ≠ some t) : out.flatMap (Event.drops t) = [] := by
  cases move with
  | @client u _ _ _ move =>
      have different : u ≠ t := fun same => other (congrArg some same)
      cases move with
      | release =>
          unfold doneEvents
          split <;> simp [Event.drops, different]
      | _ => rfl
  | kt move => cases move <;> rfl
  | _ => rfl

end Reading

section Many

variable {π : Type} [DecidableEq π]

def clientProcess : Client π Empty → π
  | .inl (p, _) => p
  | .inr other => other.elim

def sentBy (p : π) (events : List (SysEvent π Empty)) : List Bytes :=
  ofKey (fun entry => clientProcess entry.1) Prod.snd p ((events.flatMap SysEvent.device).flatMap Event.pushLog)

def takenBy (p : π) (events : List (SysEvent π Empty)) : List Bytes :=
  ofKey (fun entry => clientProcess entry.1) Prod.snd p ((events.flatMap SysEvent.device).flatMap Event.popLog)

theorem sent_append (p : π) (events out : List (SysEvent π Empty)) : sentBy p (events ++ out) = sentBy p events ++ sentBy p out := by
  simp only [sentBy, List.flatMap_append, of_key_append]

theorem taken_append (p : π) (events out : List (SysEvent π Empty)) :
    takenBy p (events ++ out) = takenBy p events ++ takenBy p out := by
  simp only [takenBy, List.flatMap_append, of_key_append]

variable {config : Config π} {ok : Sys π Empty → SysAction π Empty → Prop} {events : List (SysEvent π Empty)} {s : Sys π Empty}

theorem device_events {good : Event (Client π Empty) → Prop}
    (each : ∀ events s dev action out, Run (system config) ok (systemStart config) events s → DevMove s.dev action dev out →
      ∀ event ∈ out, good event)
    (run : Run (system config) ok (systemStart config) events s) : ∀ event ∈ events.flatMap SysEvent.device, good event := by
  refine Run.invariant (fun events _ => ∀ event ∈ events.flatMap SysEvent.device, good event) (by simp) ?_ run
  intro events s action next out before earlier _ stepped event member
  rw [List.flatMap_append] at member
  rcases List.mem_append.mp member with old | new
  · exact earlier event old
  cases system_moves config s next action out stepped with
  | user | ret => rw [device_of_piped] at new; cases new
  | call => cases new
  | dev free moved =>
      rw [device_of_observed] at new
      exact each events s _ _ _ before (device_moves _ _ _ _ moved) event new

def Event.pushedBy (good : π → Prop) : Event (Client π Empty) → Prop
  | .pushed client _ => good (clientProcess client)
  | _ => True

def Event.poppedBy (good : π → Prop) : Event (Client π Empty) → Prop
  | .popped client _ => good (clientProcess client)
  | _ => True

theorem writers_push (run : Run (system config) ok (systemStart config) events s) :
    ∀ event ∈ events.flatMap SysEvent.device, event.pushedBy (config.prog · = .writer) := by
  refine device_events ?_ run
  intro events s dev action out before move event member
  cases event with
  | pushed client data =>
      obtain ⟨_, value, _, point, _⟩ := push_point _ _ _ _ _ _ move member
      rcases client with ⟨q, t⟩ | other
      · exact (roles_run (system_pipe_any q before)).writes t value (push_waits s q t value (link_run before) point)
      · exact other.elim
  | _ => trivial

theorem readers_pop (run : Run (system config) ok (systemStart config) events s) :
    ∀ event ∈ events.flatMap SysEvent.device, event.poppedBy (config.prog · = .reader) := by
  refine device_events ?_ run
  intro events s dev action out before move event member
  cases event with
  | popped client data =>
      obtain ⟨_, dim, value, _, point⟩ := pop_point _ _ _ _ _ _ move member
      rcases client with ⟨q, t⟩ | other
      · exact (roles_run (system_pipe_any q before)).reads t dim (pop_waits s q t dim value (link_run before) point)
      · exact other.elim
  | _ => trivial

theorem pushed_by_writer (run : Run (system config) ok (systemStart config) events s) (entry : Client π Empty × Bytes)
    (member : entry ∈ (events.flatMap SysEvent.device).flatMap Event.pushLog) : config.prog (clientProcess entry.1) = .writer := by
  obtain ⟨event, inside, logged⟩ := List.mem_flatMap.mp member
  cases event with
  | pushed client data =>
      rw [Event.pushLog, List.mem_singleton] at logged
      rw [logged]
      exact writers_push run _ inside
  | _ => cases logged

theorem popped_by_reader (run : Run (system config) ok (systemStart config) events s) (entry : Client π Empty × Bytes)
    (member : entry ∈ (events.flatMap SysEvent.device).flatMap Event.popLog) : config.prog (clientProcess entry.1) = .reader := by
  obtain ⟨event, inside, logged⟩ := List.mem_flatMap.mp member
  cases event with
  | popped client data =>
      rw [Event.popLog, List.mem_singleton] at logged
      rw [logged]
      exact readers_pop run _ inside
  | _ => cases logged

theorem reader_sends_nothing (p : π) (role : config.prog p = .reader) (run : Run (system config) ok (systemStart config) events s) :
    sentBy p events = [] := by
  refine of_key_none _ _ _ _ fun entry member mine => ?_
  have writer := pushed_by_writer run entry member
  rw [mine, role] at writer
  cases writer

theorem writer_takes_nothing (p : π) (role : config.prog p = .writer) (run : Run (system config) ok (systemStart config) events s) :
    takenBy p events = [] := by
  refine of_key_none _ _ _ _ fun entry member mine => ?_
  have reader := popped_by_reader run entry member
  rw [mine, role] at reader
  cases reader

theorem sent_observed (p : π) (s : Sys π Empty) (out : List (Event (Client π Empty))) :
    sentBy p (out.flatMap s.observe) = ((out.flatMap s.observe).flatMap (SysEvent.appends p)).map Prod.snd := by
  unfold sentBy
  rw [device_of_observed]
  induction out with
  | nil => rfl
  | cons event out ih =>
      rw [List.flatMap_cons, List.flatMap_cons, of_key_append, ih, List.flatMap_append, List.map_append]
      congr 1
      cases event with
      | pushed client data =>
          rcases client with ⟨q, t⟩ | other
          · by_cases mine : q = p <;>
              simp [Event.pushLog, Sys.observe, SysEvent.appends, clientProcess, mine, ofKey]
          · exact other.elim
      | _ => rfl

theorem sent_appended (p : π) (run : Run (system config) ok (systemStart config) events s) :
    sentBy p events = (events.flatMap (SysEvent.appends p)).map Prod.snd := by
  refine Run.invariant (fun events _ => sentBy p events = (events.flatMap (SysEvent.appends p)).map Prod.snd) rfl ?_ run
  intro events s action next out before earlier _ stepped
  rw [sent_append, earlier, List.flatMap_append, List.map_append]
  congr 1
  cases system_moves config s next action out stepped with
  | user | ret =>
      rw [piped_appends]
      unfold sentBy
      rw [device_of_piped]
      rfl
  | call => rfl
  | dev => exact sent_observed p s _

def Sys.inHand (s : Sys π Empty) (p : π) : List Bytes :=
  if (s.pipes p).sources 0 = .inRead then (s.dev.tasks (.inl (p, .source 0))).pc.carrying.toList else []

def heardBy (p : π) (events : List (SysEvent π Empty)) : List Bytes :=
  (events.flatMap (SysEvent.ofPipe p)).flatMap UserEvent.heard

def lostBy (p : π) (events : List (SysEvent π Empty)) : List Bytes :=
  (events.flatMap SysEvent.device).flatMap (Event.drops (.inl (p, .source 0)))

def Sys.failing (s : Sys π Empty) (p : π) : List Bytes := (s.dev.tasks (.inl (p, .source 0))).pc.failing.toList

omit [DecidableEq π] in
theorem in_hand_reading (s : Sys π Empty) (p : π) (reading : (s.pipes p).sources 0 = .inRead) :
    s.inHand p = (s.dev.tasks (.inl (p, .source 0))).pc.carrying.toList := if_pos reading

omit [DecidableEq π] in
theorem in_hand_elsewhere (s : Sys π Empty) (p : π) (elsewhere : (s.pipes p).sources 0 ≠ .inRead) : s.inHand p = [] :=
  if_neg elsewhere

omit [DecidableEq π] in
theorem in_hand_same (s next : Sys π Empty) (p : π)
    (reading : (next.pipes p).sources 0 = .inRead ↔ (s.pipes p).sources 0 = .inRead)
    (task : (next.dev.tasks (.inl (p, .source 0))).pc = (s.dev.tasks (.inl (p, .source 0))).pc) :
    next.inHand p = s.inHand p := by
  unfold Sys.inHand
  rw [task]
  simp only [reading]

theorem failing_others (s : Sys π Empty) (p q : π) (u : Tid) (pipe : Pipe) (dev : Dev (Client π Empty))
    (before : (s.dev.tasks (.inl (q, u))).pc.failing = none) (after : (dev.tasks (.inl (q, u))).pc.failing = none)
    (tasks : ∀ client, client ≠ .inl (q, u) → dev.tasks client = s.dev.tasks client) :
    ((s.setDev dev).setPipe q pipe).failing p = s.failing p := by
  change (dev.tasks (.inl (p, .source 0))).pc.failing.toList = (s.dev.tasks (.inl (p, .source 0))).pc.failing.toList
  by_cases here : (Sum.inl (p, .source 0) : Client π Empty) = .inl (q, u)
  · rw [here, before, after]
  · rw [tasks _ here]

theorem in_hand_others (s : Sys π Empty) (p q : π) (u : Tid) (pipe : Pipe) (dev : Dev (Client π Empty))
    (other : ¬ (q = p ∧ u = .source 0)) (only : OnlyCalls (s.pipes q) pipe u)
    (tasks : ∀ client, client ≠ .inl (q, u) → dev.tasks client = s.dev.tasks client) :
    ((s.setDev dev).setPipe q pipe).inHand p = s.inHand p := by
  refine in_hand_same s _ p ?_ ?_
  · by_cases mine : q = p
    · subst mine
      have kept := only.sources 0 fun same => other ⟨rfl, same.symm⟩
      simp [Sys.setPipe, kept]
    · simp [Sys.setPipe, Sys.setDev, Ne.symm mine]
  · have different : (Sum.inl (p, .source 0) : Client π Empty) ≠ .inl (q, u) := by
      rintro same
      cases same
      exact other ⟨rfl, rfl⟩
    simp [Sys.setPipe, Sys.setDev, tasks _ different]

theorem taken_piped (p q : π) (out : List UserEvent) : takenBy p (out.map (SysEvent.pipe q)) = [] := by
  unfold takenBy
  rw [device_of_piped]
  rfl

theorem lost_piped (p q : π) (out : List UserEvent) : lostBy p (out.map (SysEvent.pipe q)) = [] := by
  unfold lostBy
  rw [device_of_piped]
  rfl

theorem heard_piped (p q : π) (out : List UserEvent) :
    heardBy p (out.map (SysEvent.pipe q)) = if q = p then out.flatMap UserEvent.heard else [] := by
  unfold heardBy
  rw [pipe_of_piped]
  split <;> rfl

theorem heard_observed (p : π) (s : Sys π Empty) (out : List (Event (Client π Empty))) : heardBy p (out.flatMap s.observe) = [] := by
  unfold heardBy
  rw [pipe_of_observed]
  rfl

theorem heard_append (p : π) (events out : List (SysEvent π Empty)) :
    heardBy p (events ++ out) = heardBy p events ++ heardBy p out := by
  simp only [heardBy, List.flatMap_append]

theorem lost_append (p : π) (events out : List (SysEvent π Empty)) : lostBy p (events ++ out) = lostBy p events ++ lostBy p out := by
  simp only [lostBy, List.flatMap_append]

theorem hear_call (prog : Prog) (p q : π) (u : Tid) (op : Op) (pipe : Pipe) (call : CallMove prog (s.pipes q) u op pipe) :
    ((s.setDev (s.dev.goto (.inl (q, u)) op.entry)).setPipe q pipe).inHand p = s.inHand p := by
  have waits := call_waits _ _ _ _ _ call
  have fresh : op.entry.carrying = none := by cases op <;> rfl
  by_cases here : q = p ∧ u = .source 0
  · obtain ⟨rfl, rfl⟩ := here
    have outside : (s.pipes q).sources 0 ≠ .inRead := by
      intro reading
      rw [show (s.pipes q).waiting (.source 0) = some (.myRead readByte) from congrArg SourcePc.waiting reading] at waits
      cases waits.1
    have inside : pipe.sources 0 = .inRead := in_read_of_waiting _ _ waits.2
    rw [in_hand_elsewhere s q outside, in_hand_reading _ q (by simpa [Sys.setPipe] using inside)]
    simp [Sys.setPipe, Sys.setDev, fresh]
  · exact in_hand_others s p q u pipe _ here (call_only _ _ _ _ _ call) fun client other => by simp [other]

section Hearing

variable (p : π) (role : config.prog p = .reader) (before : Run (system config) ok (systemStart config) events s)

include role before

theorem reads_first (i : Nat) (reading : (s.pipes p).sources i = .inRead) : i = 0 := by
  have inside := live_inside (system_pipe_any p before) .source i (by simp [Pipe.life, reading, SourcePc.life])
  rw [role] at inside
  exact Nat.lt_one_iff.mp inside

theorem taken_own (dev : Dev (Client π Empty)) (action : Action (Client π Empty)) (out : List (Event (Client π Empty)))
    (move : DevMove s.dev action dev out) (idle : action.client ≠ some (.inl (p, .source 0))) :
    ofKey (fun entry => clientProcess entry.1) Prod.snd p (out.flatMap Event.popLog) = [] := by
  refine of_key_none _ _ _ _ fun entry member mine => ?_
  obtain ⟨_, dim, value, rfl, point⟩ := pop_point _ _ _ _ _ _ move (pop_log_client out entry member)
  obtain ⟨⟨q, t⟩ | other, data⟩ := entry
  · have same : q = p := mine
    subst same
    have waits := pop_waits s q t dim value (link_run before) point
    cases waits_cases _ t _ waits with
    | @read i reading =>
        have first := reads_first q role before i reading
        subst first
        exact idle rfl
  · exact other.elim

theorem hear_dev (dev : Dev (Client π Empty)) (action : Action (Client π Empty)) (out : List (Event (Client π Empty)))
    (free : action.unattended = true) (move : DevMove s.dev action dev out) :
    ∃ lost, s.inHand p ++ takenBy p (out.flatMap s.observe) = lost ++ (s.setDev dev).inHand p ∧
      lost ++ s.failing p = lostBy p (out.flatMap s.observe) ++ (s.setDev dev).failing p ∧
      (Faultless s (.dev action) → lost = []) := by
  unfold takenBy lostBy
  rw [device_of_observed]
  rcases unattended_move _ _ action out p (.source 0) free move with ⟨env, rfl, own⟩ | ⟨other, same⟩
  · have reading : (s.pipes p).sources 0 = .inRead := by
      by_contra elsewhere
      have linked := link_run before p (.source 0)
      cases asked : ((s.pipes p).sources 0).waiting with
      | some op => exact elsewhere (in_read_of_waiting _ op asked)
      | none =>
          rw [show (s.pipes p).waiting (.source 0) = none from asked] at linked
          exact client_not_user _ _ _ _ _ own linked
    have linked := link_run before p (.source 0)
    rw [show (s.pipes p).waiting (.source 0) = some (.myRead readByte) from congrArg SourcePc.waiting reading] at linked
    obtain ⟨lost, carried, failed, healthy⟩ := read_turn _ _ _ env out readByte own ((system_data before).tasks _) linked
    refine ⟨lost, ?_, failed, healthy⟩
    have mine : ofKey (fun entry => clientProcess entry.1) Prod.snd p (out.flatMap Event.popLog) = out.flatMap Event.pops := by
      have each : ∀ entry ∈ (out.flatMap Event.pops).map (Sum.inl (p, Tid.source 0), ·), clientProcess entry.1 = p := by
        intro entry member
        obtain ⟨_, _, rfl⟩ := List.mem_map.mp member
        rfl
      rw [own_pops _ _ _ env out own, of_key_all _ _ _ _ each, List.map_map]
      exact List.map_id _
    rw [in_hand_reading s p reading, in_hand_reading (s.setDev dev) p reading, mine]
    exact carried
  · refine ⟨[], ?_, ?_, fun _ => rfl⟩
    · rw [taken_own p role before dev action out move other, List.append_nil]
      exact (in_hand_same s (s.setDev dev) p Iff.rfl same).symm
    · rw [others_drop_nothing _ _ action out _ move other]
      unfold Sys.failing
      rw [← same]
      rfl

theorem hear_ret (q : π) (u : Tid) (res : Int) (got : Bytes) (pipe : Pipe) (out : List UserEvent) (dev : Dev (Client π Empty))
    (point : (s.dev.tasks (.inl (q, u))).pc = .ret res got)
    (others : ∀ client, client ≠ .inl (q, u) → dev.tasks client = s.dev.tasks client)
    (ret : RetMove (s.pipes q) res got u pipe out) :
    s.inHand p = heardBy p (out.map (.pipe q)) ++ ((s.setDev dev).setPipe q pipe).inHand p := by
  rw [heard_piped]
  by_cases here : q = p ∧ u = .source 0
  · obtain ⟨rfl, rfl⟩ := here
    cases ret with
    | read reading =>
        have left := in_hand_elsewhere ((s.setDev dev).setPipe q ((s.pipes q).setSource 0 (.took res got))) q
          (by simp [Sys.setPipe, Pipe.setSource])
        rw [in_hand_reading s q reading, point, left, if_pos rfl]
        by_cases success : res = 0 <;> simp [Pc.carrying, UserEvent.heard, success]
  · rw [in_hand_others s p q u pipe dev here (ret_only _ _ _ _ _ _ ret) others]
    split
    · rename_i mine
      subst mine
      cases ret with
      | @read i reading => exact absurd ⟨rfl, by rw [reads_first q role before i reading]⟩ here
      | _ => rfl
    · rfl

theorem hear_step (next : Sys π Empty) (action : SysAction π Empty) (out : List (SysEvent π Empty))
    (move : SysMove config s action next out) :
    ∃ lost, s.inHand p ++ takenBy p out = heardBy p out ++ (lost ++ next.inHand p) ∧
      lost ++ s.failing p = lostBy p out ++ next.failing p ∧ (Faultless s action → lost = []) := by
  cases move with
  | @user q action pipe out inside moved =>
      have move := pipe_moves _ _ _ _ _ moved
      have same := internal_same_calls _ _ _ _ _ (join_inv_run (system_pipe_any q before)) inside move
      have silent : out.flatMap UserEvent.heard = [] :=
        flat_map_silent _ UserEvent.answer (by intro event mine; cases event <;> first | rfl | cases mine) out
          (internal_unanswered _ _ _ _ _ inside move)
      refine ⟨[], ?_, by rw [lost_piped]; rfl, fun _ => rfl⟩
      rw [taken_piped, heard_piped, silent, ite_self, List.append_nil, List.nil_append, List.nil_append]
      refine (in_hand_same s (s.setPipe q pipe) p ?_ rfl).symm
      by_cases mine : q = p
      · subst mine
        have kept := same.sources 0
        simp only [Sys.setPipe, Function.update_self]
        constructor
        · exact fun reading => in_read_of_waiting _ _ (kept.symm.trans (congrArg SourcePc.waiting reading))
        · exact fun reading => in_read_of_waiting _ _ (kept.trans (congrArg SourcePc.waiting reading))
      · simp [Sys.setPipe, Ne.symm mine]
  | @call _ _ op _ _ asked idle =>
      have kept := hear_call _ p _ _ _ _ (request_moves _ _ _ _ _ asked)
      have fresh : op.entry.failing = none := by cases op <;> rfl
      refine ⟨[], ?_, ?_, fun _ => rfl⟩
      · rw [kept]
        exact List.append_nil _
      · rw [failing_others s p _ _ _ _ (by rw [idle]; rfl) (by simpa using fresh) (fun client other => by simp [other])]
        rfl
  | ret point returned =>
      refine ⟨[], ?_, ?_, fun _ => rfl⟩
      · rw [taken_piped, List.append_nil]
        exact hear_ret p role before _ _ _ _ _ _ _ point (fun client other => by simp [other]) (ret_moves _ _ _ _ _ _ returned)
      · rw [lost_piped, failing_others s p _ _ _ _ (by rw [point]; rfl) (by simp [Pc.failing]) (fun client other => by simp [other])]
  | dev free moved =>
      rw [heard_observed]
      exact hear_dev p role before _ _ _ free (device_moves _ _ _ _ moved)

theorem hear_faultless (next : Sys π Empty) (action : SysAction π Empty) (out : List (SysEvent π Empty))
    (allowed : Faultless s action) (move : SysMove config s action next out) :
    s.inHand p ++ takenBy p out = heardBy p out ++ next.inHand p := by
  obtain ⟨lost, step, _, kept⟩ := hear_step p role before next action out move
  rw [step, kept allowed]
  rfl

end Hearing

theorem heard_run (p : π) (role : config.prog p = .reader) (run : Run (system config) Faultless (systemStart config) events s) :
    takenBy p events = heardBy p events ++ s.inHand p := by
  refine Run.invariant (fun events s => takenBy p events = heardBy p events ++ s.inHand p) ?_ ?_ run
  · rw [in_hand_elsewhere _ p (by simp [systemStart, programStart])]
    rfl
  · intro events s action next out before earlier allowed stepped
    have step := hear_faultless p role before next action out allowed (system_moves config s next action out stepped)
    rw [taken_append, heard_append, earlier, List.append_assoc, step, List.append_assoc]

theorem heard_terminators (events : List UserEvent) :
    (events.flatMap UserEvent.heard).count terminatorText = (events.flatMap UserEvent.outcomes).count .terminator := by
  rw [List.count_flatMap, List.count_flatMap]
  congr 1
  refine List.map_congr_left fun event _ => ?_
  cases event with
  | outcome res tmp =>
      by_cases success : res = 0
      · by_cases last : cstr tmp = terminatorText <;> simp [UserEvent.heard, UserEvent.outcomes, outcomeOf, success, last]
      · simp [UserEvent.heard, UserEvent.outcomes, outcomeOf, success]
  | _ => rfl

section Accounts

variable (p : π) (run : Run (system config) Faultless (systemStart config) events s)

include run

theorem reader_account (role : config.prog p = .reader) (loops : config.arg p = 0) (past : 8 < (s.pipes p).main.phase) :
    takenBy p events = (events.flatMap (SysEvent.ofPipe p)).flatMap UserEvent.putData ++ [terminatorText] ∧
      (takenBy p events).count terminatorText = 1 := by
  have calm := system_pipe_calm p role loops (faultless_calm p) run
  obtain ⟨finish, texts⟩ := reader_finished (by decide) (by decide) calm past
  have outside : (s.pipes p).sources 0 ≠ .inRead := by
    intro reading
    have dead := (join_inv_run calm).joined .source 0 (.inl (by simp only [Stage.joinPhase]; omega))
    simp [Pipe.life, reading, SourcePc.life] at dead
  have taken := heard_run p role run
  rw [in_hand_elsewhere s p outside, List.append_nil] at taken
  rcases finish.ended with ⟨early, outs, clean⟩ | ⟨_, positive, _⟩
  · refine ⟨?_, ?_⟩
    · rw [taken, heardBy, heard_received, texts, outs, List.filterMap_append, List.filterMap_append, received_texts early clean]
      simp [Outcome.received, Outcome.data]
    · rw [taken, heardBy, heard_terminators, outs, List.count_append, List.count_eq_zero.mpr clean]
      rfl
  · exact absurd positive (by decide)

theorem waiting_account (role : config.prog p = .reader) (loops : config.arg p = 0) (reading : (s.pipes p).sources 0 = .inRead)
    (empty : (s.dev.tasks (.inl (p, .source 0))).pc.carrying = none) : (takenBy p events).count terminatorText = 0 := by
  have calm := system_pipe_calm p role loops (faultless_calm p) run
  obtain ⟨handled, outs, _, state⟩ := read_inv_run (by decide) calm
  have taken := heard_run p role run
  rw [in_hand_reading s p reading, empty] at taken
  rw [reading] at outs
  have clean := (going_budget _ handled _ state (by rw [reading]; rfl)).1
  rw [taken, Option.toList_none, List.append_nil, heardBy, heard_terminators, outs]
  exact List.count_eq_zero.mpr (by simpa [SourcePc.pending] using clean)

theorem unsent_account (role : config.prog p = .writer) (unsent : ∀ data, (none, data) ∉ events.flatMap (SysEvent.appends p)) :
    (sentBy p events).count terminatorText = 0 := by
  rw [sent_appended p run, List.count_eq_zero]
  intro member
  obtain ⟨entry, inside, text⟩ := List.mem_map.mp member
  rcases appended_text p role run entry inside with rfl | ⟨item, rfl, small⟩
  · exact unsent _ inside
  · exact small_not_terminator item.data small text

theorem sealed_account (role : config.prog p = .writer) (done : ∃ data, (none, data) ∈ events.flatMap (SysEvent.appends p)) :
    sentBy p events = (events.flatMap (SysEvent.appendedItems p)).map Item.data ++ [terminatorText] ∧
      (sentBy p events).count terminatorText = 1 := by
  have entries := appended_text p role run
  obtain ⟨data, inside⟩ := done
  have text : data = terminatorText := by
    rcases entries _ inside with same | ⟨item, same, _⟩
    · exact congrArg Prod.snd same
    · cases congrArg Prod.fst same
  obtain ⟨front, back, split⟩ := List.append_of_mem inside
  obtain ⟨rest, texts⟩ := log_cut _ (front.map Prod.snd) (back.map Prod.snd) entries (seal_run p run).last
    (by rw [split, text]; simp)
  have sent : sentBy p events = (events.flatMap (SysEvent.appendedItems p)).map Item.data ++ [terminatorText] := by
    rw [sent_appended p run, appended_items_eq, ← texts, split, List.map_append, List.map_cons, rest, text]
  refine ⟨sent, ?_⟩
  have clean : terminatorText ∉ (events.flatMap (SysEvent.appendedItems p)).map Item.data := by
    intro member
    obtain ⟨item, appended, same⟩ := List.mem_map.mp member
    rw [appended_items_eq] at appended
    obtain ⟨entry, logged, first⟩ := List.mem_filterMap.mp appended
    rcases entries _ logged with rfl | ⟨other, rfl, small⟩
    · cases first
    · cases first
      exact small_not_terminator _ small same
  rw [sent, List.count_append, List.count_eq_zero.mpr clean]
  rfl

end Accounts

section Fleet

variable [Fintype π]

def Config.writers (config : Config π) : Nat := (Finset.univ.filter (config.prog · = .writer)).card

def Config.readers (config : Config π) : Nat := (Finset.univ.filter (config.prog · = .reader)).card

def Config.share (config : Config π) (role : Prog) (p : π) : Nat := if config.prog p = role then 1 else 0

omit [DecidableEq π] in
theorem writers_sum (config : Config π) : config.writers = ∑ p, config.share .writer p := Finset.card_filter _ _

omit [DecidableEq π] in
theorem readers_sum (config : Config π) : config.readers = ∑ p, config.share .reader p := Finset.card_filter _ _

theorem queue_law (run : Run (system config) ok (systemStart config) events s) :
    (∑ p, (sentBy p events : Multiset Bytes)) = ∑ p, (takenBy p events : Multiset Bytes) + s.dev.kbFifo.nodes := by
  have law := congrArg (fun log : List Bytes => (log : Multiset Bytes)) (device_fifo_law (system_device_any run))
  simp only [← push_log_data, ← pop_log_data, ← Multiset.coe_add,
    log_sum fun entry : Client π Empty × Bytes => clientProcess entry.1] at law
  exact law

theorem terminator_law (run : Run (system config) ok (systemStart config) events s) :
    ∑ p, (sentBy p events).count terminatorText =
      ∑ p, (takenBy p events).count terminatorText + s.dev.kbFifo.nodes.count terminatorText := by
  have law := congrArg (List.count terminatorText) (device_fifo_law (system_device_any run))
  rw [List.count_append, ← push_log_data, ← pop_log_data, count_sum (fun entry => clientProcess entry.1),
    count_sum (fun entry => clientProcess entry.1)] at law
  exact law

omit [Fintype π] in
theorem sent_share (p : π) (run : Run (system config) Faultless (systemStart config) events s) :
    (sentBy p events).count terminatorText ≤ config.share .writer p := by
  cases role : config.prog p with
  | reader => simp [reader_sends_nothing p role run]
  | writer =>
      by_cases done : ∃ data, (none, data) ∈ events.flatMap (SysEvent.appends p)
      · rw [(sealed_account p run role done).2]
        simp [Config.share, role]
      · rw [unsent_account p run role (not_exists.mp done)]
        exact Nat.zero_le _

theorem all_sent (run : Run (system config) Faultless (systemStart config) events s)
    (total : config.writers ≤ ∑ p, (sentBy p events).count terminatorText) (p : π) (role : config.prog p = .writer) :
    ∃ data, (none, data) ∈ events.flatMap (SysEvent.appends p) := by
  have most := Finset.sum_le_sum fun p (_ : p ∈ Finset.univ) => sent_share p run
  rw [writers_sum] at total
  have share := (Finset.sum_eq_sum_iff_of_le fun p _ => sent_share p run).mp (Nat.le_antisymm most total) p (Finset.mem_univ p)
  by_contra undone
  rw [unsent_account p run role (not_exists.mp undone)] at share
  simp [Config.share, role] at share

omit [Fintype π] in
theorem queue_ends (run : Run (system config) Faultless (systemStart config) events s)
    (done : ∀ p, config.prog p = .writer → ∃ data, (none, data) ∈ events.flatMap (SysEvent.appends p))
    (filled : s.dev.kbFifo.nodes ≠ []) : terminatorText ∈ s.dev.kbFifo.nodes := by
  have law := device_fifo_law (system_device_any run)
  rw [← push_log_data] at law
  rcases List.eq_nil_or_concat ((events.flatMap SysEvent.device).flatMap Event.pushLog) with none | ⟨front, entry, split⟩
  · rw [none] at law
    exact absurd (List.append_eq_nil_iff.mp law.symm).2 filled
  have writer := pushed_by_writer run entry (by simp [split])
  have sent := (sealed_account _ run writer (done _ writer)).1
  rw [sentBy, split, List.concat_eq_append, of_key_append, of_key_cons, if_pos rfl] at sent
  have text : entry.2 = terminatorText := by
    simpa [ofKey] using congrArg List.getLast? sent
  obtain ⟨init, last, same⟩ := (List.eq_nil_or_concat s.dev.kbFifo.nodes).resolve_left filled
  rw [split, same] at law
  have ends : entry.2 = last := by simpa using congrArg List.getLast? law
  rw [same, ← text, ends]
  simp

omit [DecidableEq π] in
theorem role_sum (config : Config π) (role : Prog) (log strings : π → List Bytes)
    (mine : ∀ p, config.prog p = role → log p = strings p ++ [terminatorText]) (others : ∀ p, config.prog p ≠ role → log p = []) :
    (∑ p, (log p : Multiset Bytes)) =
      (∑ p ∈ Finset.univ.filter (config.prog · = role), (strings p : Multiset Bytes)) +
        (Finset.univ.filter (config.prog · = role)).card • {terminatorText} := by
  have each : ∀ p, (log p : Multiset Bytes) = if config.prog p = role then (strings p : Multiset Bytes) + {terminatorText} else 0 := by
    intro p
    split
    · rename_i same
      rw [mine p same]
      rfl
    · rename_i other
      rw [others p other]
      rfl
  rw [Finset.sum_congr rfl fun p _ => each p, ← Finset.sum_filter, Finset.sum_add_distrib, Finset.sum_const]

section Delivery

variable (balanced : config.readers = config.writers) (loops : ∀ p, config.prog p = .reader → config.arg p = 0)
  (run : Run (system config) Faultless (systemStart config) events s)
  (past : ∀ p, 8 < (s.pipes p).main.phase)

include balanced loops run past

theorem terminators_settled : (∀ p, config.prog p = .writer → ∃ data, (none, data) ∈ events.flatMap (SysEvent.appends p)) ∧
    s.dev.kbFifo.nodes.count terminatorText = 0 := by
  have taken : ∀ p, (takenBy p events).count terminatorText = config.share .reader p := by
    intro p
    cases role : config.prog p with
    | writer => simp [writer_takes_nothing p role run, Config.share, role]
    | reader => simp [(reader_account p run role (loops p role) (past p)).2, Config.share, role]
  have law := terminator_law run
  rw [Finset.sum_congr rfl fun p _ => taken p, ← readers_sum, balanced] at law
  have most := Finset.sum_le_sum fun p (_ : p ∈ Finset.univ) => sent_share p run
  rw [← writers_sum] at most
  exact ⟨all_sent run (by omega), by omega⟩

theorem queue_empty : s.dev.kbFifo.nodes = [] := by
  obtain ⟨done, none⟩ := terminators_settled balanced loops run past
  by_contra filled
  exact List.count_eq_zero.mp none (queue_ends run done filled)

theorem strings_settled :
    ∑ p ∈ Finset.univ.filter (config.prog · = .reader),
        ((events.flatMap (SysEvent.ofPipe p)).flatMap UserEvent.putData : Multiset Bytes) =
      ∑ p ∈ Finset.univ.filter (config.prog · = .writer),
        ((events.flatMap (SysEvent.appendedItems p)).map Item.data : Multiset Bytes) := by
  have done := (terminators_settled balanced loops run past).1
  have sums := queue_law run
  rw [queue_empty balanced loops run past, Multiset.coe_nil, add_zero] at sums
  rw [role_sum config .writer (fun p => sentBy p events) (fun p => (events.flatMap (SysEvent.appendedItems p)).map Item.data)
      (fun p role => (sealed_account p run role (done p role)).1)
      (fun p other => reader_sends_nothing p (by cases role : config.prog p <;> simp_all) run),
    role_sum config .reader (fun p => takenBy p events) (fun p => (events.flatMap (SysEvent.ofPipe p)).flatMap UserEvent.putData)
      (fun p role => (reader_account p run role (loops p role) (past p)).1)
      (fun p other => writer_takes_nothing p (by cases role : config.prog p <;> simp_all) run)] at sums
  change _ + config.writers • _ = _ + config.readers • _ at sums
  rw [balanced] at sums
  exact (add_right_cancel sums).symm

end Delivery

omit [Fintype π] in
theorem sent_upper (p : π) (role : config.prog p = .writer) (positive : 1 ≤ config.arg p) (small : config.arg p < intMax)
    (run : Run (system config) Faultless (systemStart config) events s) (past : 8 < (s.pipes p).main.phase) :
    Multiset.map (inPlace toUpper) ((events.flatMap (SysEvent.appendedItems p)).map Item.data : List Bytes) =
      ((events.flatMap (SysEvent.ofPipe p)).flatMap UserEvent.putData : List Bytes) := by
  have appended := congrArg (Multiset.map Item.upper) (writer_appends_all p role positive small run past)
  rw [Multiset.map_coe, Multiset.map_coe, made_upper (system_pipe_calm p role rfl (faultless_calm p) run)] at appended
  rw [Multiset.map_coe, List.map_map]
  exact appended

theorem many_to_many (balanced : config.readers = config.writers) (loops : ∀ p, config.prog p = .reader → config.arg p = 0)
    (numbers : ∀ p, config.prog p = .writer → 1 ≤ config.arg p ∧ config.arg p < intMax)
    (run : Run (system config) Faultless (systemStart config) events s)
    (past : ∀ p, Stage.sink.joinPhase < (s.pipes p).main.phase) :
    ∑ p ∈ Finset.univ.filter (config.prog · = .reader),
        ((events.flatMap (SysEvent.ofPipe p)).flatMap UserEvent.prints : Multiset Bytes) =
      ∑ p ∈ Finset.univ.filter (config.prog · = .writer),
        ((events.flatMap (SysEvent.ofPipe p)).flatMap UserEvent.putData : Multiset Bytes) ∧
      s.dev.kbFifo.nodes = [] := by
  refine ⟨?_, queue_empty balanced loops run past⟩
  have settled := congrArg (Multiset.mapAddMonoidHom (inPlace toUpper)) (strings_settled balanced loops run past)
  rw [map_sum, map_sum] at settled
  calc _ = _ := Finset.sum_congr rfl fun p member => ?_
    _ = _ := settled
    _ = _ := Finset.sum_congr rfl fun p member => ?_
  · have role := (Finset.mem_filter.mp member).2
    have calm := system_pipe_calm p role (loops p role) (faultless_calm p) run
    exact printed_multiset (by decide) (by decide) calm (past p)
  · have role := (Finset.mem_filter.mp member).2
    exact sent_upper p role (numbers p role).1 (numbers p role).2 run (past p)

end Fleet

end Many

def readerTrip {π : Type} (p : π) : List (SysAction π Empty) :=
  usersGo p .main 2 ++ wholeCall p .main 3 ++ usersGo p .main 12 ++ usersGo p (.source 0) 2 ++ wholeCall p (.source 0) 7 ++
    usersGo p (.source 0) 5 ++ wholeCall p (.source 0) 7 ++ usersGo p (.source 0) 3 ++ usersGo p .main 5 ++
    usersGo p (.elaborate 0) 10 ++ [1, 2, 3].flatMap (fun i => usersGo p (.elaborate i) 3) ++ usersGo p .main 8 ++
    usersGo p (.sink 0) 9 ++ usersGo p (.sink 1) 4 ++ usersGo p .main 3

def onePair (made asked : Int) : Config Bool where
  prog p := if p then .writer else .reader
  arg p := if p then made else asked

def twoPairs : Config (Fin 4) where
  prog p := if p < 2 then .writer else .reader
  arg p := if p < 2 then 1 else 0

def pairsSchedule : List (SysAction (Fin 4) Empty) :=
  [0, 1].flatMap (fun p => writerSchedule p ++ wholeCall p .main 7) ++ [2, 3].flatMap readerTrip

theorem many_to_many_two_pairs : ∃ (events : List (SysEvent (Fin 4) Empty)) (s : Sys (Fin 4) Empty),
    Run (system twoPairs) Faultless (systemStart twoPairs) events s ∧
    (∀ p : Fin 4, 2 ≤ p → (events.flatMap (SysEvent.ofPipe p)).flatMap UserEvent.prints = [[65]]) ∧
    ∑ p ∈ Finset.univ.filter (twoPairs.prog · = .reader),
        ((events.flatMap (SysEvent.ofPipe p)).flatMap UserEvent.prints : Multiset Bytes) =
      ∑ p ∈ Finset.univ.filter (twoPairs.prog · = .writer),
        ((events.flatMap (SysEvent.ofPipe p)).flatMap UserEvent.putData : Multiset Bytes) ∧
      s.dev.kbFifo.nodes = [] := by
  obtain ⟨events, s, run, seen⟩ := exec_reaches (system (κ := Empty) twoPairs) faultless Faultless faultless_sound
    (systemStart twoPairs) pairsSchedule
    (fun s events => decide ((∀ p, Stage.sink.joinPhase < (s.pipes p).main.phase) ∧
      ∀ p : Fin 4, 2 ≤ p → (events.flatMap (SysEvent.ofPipe p)).flatMap UserEvent.prints = [[65]])) (by decide +kernel)
  obtain ⟨past, prints⟩ := of_decide_eq_true seen
  exact ⟨events, s, run, prints, many_to_many (by decide) (by decide) (by decide) run past⟩

end MyDev
