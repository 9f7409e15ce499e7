import MyDev.ReaderPipeline
import MyDev.SystemData

set_option autoImplicit false

namespace MyDev

open Library

def Pc.Unfailed : Pc → Prop
  | .writeWake res | .writeUnlock res | .ret res _ => res = 0
  | _ => True

theorem local_unfailed {ι : Type} {s : Dev ι} {env : Env} {pc next : Pc} (healthy : env.ok = true)
    (step : LocalPc s env pc next) : next.Unfailed := by
  cases step with
  | readNoMemory failure | readFault failure | writeNoMemory failure | writeFault failure | writeOops failure =>
      simp [healthy] at failure
  | _ => trivial

theorem client_unfailed {ι : Type} [DecidableEq ι] (s next : Dev ι) (t : ι) (env : Env) (out : List (Event ι)) (buf : Bytes)
    (healthy : env.ok = true) (move : ClientMove s t env next out) (serves : (s.tasks t).pc.Serves (.myWrite buf))
    (unfailed : (s.tasks t).pc.Unfailed) : (next.tasks t).pc.Unfailed := by
  cases move with
  | «local» move => simpa using local_unfailed healthy (local_move_pc s env _ _ move)
  | acquire _ entered =>
      simp only [goto_tasks, if_true]
      unfold Pc.locked at entered
      split at entered <;> cases entered <;> trivial
  | release left =>
      simp only [goto_tasks, if_true]
      unfold Pc.unlocked at left
      split at left <;> cases left <;> simp_all [Pc.Unfailed, Pc.Serves]
  | wakeReaders point => simpa [point, Pc.Unfailed] using unfailed
  | _ => simp [Pc.Unfailed]

def UserEvent.heard : UserEvent → List Bytes
  | .outcome res tmp => if res = 0 then [cstr tmp] else []
  | _ => []

def Outcome.received : Outcome → Option Bytes
  | .failure => none
  | .text data => some data
  | .terminator => some terminatorText

theorem heard_received (events : List UserEvent) :
    events.flatMap UserEvent.heard = (events.flatMap UserEvent.outcomes).filterMap Outcome.received := by
  rw [List.filterMap_flatMap]
  congr 1
  funext event
  cases event with
  | outcome res tmp =>
      by_cases success : res = 0
      · by_cases last : cstr tmp = terminatorText <;>
          simp [UserEvent.heard, UserEvent.outcomes, outcomeOf, success, last, Outcome.received]
      · simp [UserEvent.heard, UserEvent.outcomes, outcomeOf, success, Outcome.received]
  | _ => rfl

theorem received_texts (outs : List Outcome) (clean : .terminator ∉ outs) :
    outs.filterMap Outcome.received = outs.filterMap Outcome.data := by
  refine List.filterMap_congr fun outcome member => ?_
  cases outcome with
  | terminator => exact absurd member clean
  | _ => rfl

-- No signal, and every kmalloc and every user copy succeeds.
def Faultless {π κ : Type} (_ : Sys π κ) : SysAction π κ → Prop
  | .user _ (.sigint _) => False
  | .dev (.go _ env) | .dev (.kt _ env) => env.ok = true
  | _ => True

theorem faultless_calm {π κ : Type} (p : π) (s : Sys π κ) (action : SysAction π κ) (faultless : Faultless s action) :
    NoSigintOf p s action := by
  cases action with
  | user q action =>
      cases action with
      | sigint => exact faultless.elim
      | _ => trivial
  | _ => trivial

section Faultless

variable {π κ : Type} [DecidableEq π] [DecidableEq κ] {config : Config π} {events : List (SysEvent π κ)} {s : Sys π κ}

theorem unfailed_run (run : Run (system config) Faultless (systemStart config) events s) :
    CallInv (fun op pc => pc.Serves op ∧ ∀ buf, op = .myWrite buf → pc.Unfailed) s := by
  refine call_inv_run _ (fun op => ⟨entry_serves op, ?_⟩) ?_ run
  · rintro buf rfl
    trivial
  · rintro s client env dev out op healthy move ⟨serves, unfailed⟩
    refine ⟨client_serves _ _ _ env out op move serves, ?_⟩
    rintro buf rfl
    exact client_unfailed _ _ _ env out buf healthy move serves (unfailed buf rfl)

theorem no_failures (p : π) (run : Run (system config) Faultless (systemStart config) events s) :
    (events.flatMap (SysEvent.ofPipe p)).flatMap UserEvent.failures = [] := by
  refine Run.invariant (fun events _ => (events.flatMap (SysEvent.ofPipe p)).flatMap UserEvent.failures = []) rfl ?_ run
  intro events s action next out before earlier _ stepped
  rw [List.flatMap_append, List.flatMap_append, earlier, List.nil_append]
  cases system_moves config s next action out stepped with
  | @user q action pipe out inside moved =>
      rw [pipe_of_piped]
      split
      · exact flat_map_silent _ UserEvent.answer (by intro event mine; cases event <;> first | rfl | cases mine) out
          (internal_unanswered _ _ _ _ _ inside (pipe_moves _ _ _ _ _ moved))
      · rfl
  | call => rfl
  | @ret q t res got pipe out point returned =>
      rw [pipe_of_piped]
      split
      · cases ret_moves _ _ _ _ _ _ returned with
        | @refused i failures item there failure =>
            have serving := unfailed_run before q (.sink i)
            have waits : (s.pipes q).waiting (.sink i) = some (.myWrite (item.data ++ [0])) := by
              simp [Pipe.waiting, there, SinkPc.sending]
            rw [waits, point] at serving
            exact absurd (serving.2 _ rfl) failure
        | _ => rfl
      · rfl
  | dev => rw [pipe_of_observed]; rfl

theorem writer_appends_all (p : π) (role : config.prog p = .writer) (positive : 1 ≤ config.arg p) (small : config.arg p < intMax)
    (run : Run (system config) Faultless (systemStart config) events s) (past : 8 < (s.pipes p).main.phase) :
    ((events.flatMap (SysEvent.appendedItems p) : List Item) : Multiset Item) =
      (((events.flatMap (SysEvent.ofPipe p)).flatMap UserEvent.puts).map (Item.changed toLower) : List Item) := by
  have quiet := run.weaken (faultless_calm p)
  have calm := system_pipe_calm p role rfl (fun _ _ allowed => allowed) quiet
  have failed := failures_settled calm past
  rw [no_failures p run] at failed
  have untried : ∀ entry ∈ (events.flatMap (SysEvent.ofPipe p)).flatMap UserEvent.settlements, entry.2 = 0 := by
    intro entry member
    have none := List.flatMap_eq_nil_iff.mp (List.nil_perm.mp failed) entry member
    simpa using none
  rw [appended_successes p quiet past, Multiset.coe_eq_coe.mpr (successes_settled calm past), unfailed_settled _ untried]
  exact pipeline_drained calm (by omega) small past

end Faultless

section Duo

variable {arg : Int} {events : List (SysEvent Prog Empty)} {s : Sys Prog Empty}

def Sys.handed (s : Sys Prog Empty) : Option Bytes :=
  if (s.pipes .reader).sources 0 = .inRead then (s.dev.tasks (.inl (.reader, .source 0))).pc.carrying else none

theorem reader_calm (run : Run (system (writerAndReader arg)) Faultless (systemStart (writerAndReader arg)) events s) :
    Run (pipeline .reader) NoSigint (programStart 0) (events.flatMap (SysEvent.ofPipe .reader)) (s.pipes .reader) :=
  system_pipe_calm Prog.reader rfl rfl (faultless_calm Prog.reader) run

theorem pop_client (dev : Dev (Client Prog Empty)) (action : Action (Client Prog Empty)) (out : List (Event (Client Prog Empty)))
    (client : Client Prog Empty) (data : Bytes)
    (before : Run (system (writerAndReader arg)) Faultless (systemStart (writerAndReader arg)) events s)
    (move : DevMove s.dev action dev out) (popped : .popped client data ∈ out) :
    client = .inl (.reader, .source 0) ∧ action.client = some client ∧ (s.pipes .reader).sources 0 = .inRead := by
  obtain ⟨_, dim, value, rfl, point⟩ := pop_point _ _ _ _ _ _ move popped
  rcases client with ⟨q, t⟩ | other
  · have waits := pop_waits s q t dim value (link_run before) point
    have roles : Roles ((writerAndReader arg).prog q) (s.pipes q) := roles_run (system_pipe_any q before)
    have role : q = .reader := roles.reads t dim waits
    subst role
    cases waits_cases _ t _ waits with
    | @read i reading =>
        have first := reader_single (reader_calm before) i (by rw [reading]; simp)
        subst first
        exact ⟨rfl, rfl, reading⟩
  · exact other.elim

theorem no_pops (out : List (Event (Client Prog Empty))) (silent : ∀ client data, .popped client data ∉ out) :
    out.flatMap Event.pops = [] := by
  refine List.flatMap_eq_nil_iff.mpr fun event member => ?_
  cases event with
  | popped client data => exact absurd member (silent client data)
  | _ => rfl

theorem handed_reading (s : Sys Prog Empty) (reading : (s.pipes .reader).sources 0 = .inRead) :
    s.handed = (s.dev.tasks (.inl (.reader, .source 0))).pc.carrying := if_pos reading

theorem handed_elsewhere (s : Sys Prog Empty) (elsewhere : (s.pipes .reader).sources 0 ≠ .inRead) : s.handed = none :=
  if_neg elsewhere

theorem handed_same (s next : Sys Prog Empty)
    (reading : (next.pipes .reader).sources 0 = .inRead ↔ (s.pipes .reader).sources 0 = .inRead)
    (task : (next.dev.tasks (.inl (.reader, .source 0))).pc = (s.dev.tasks (.inl (.reader, .source 0))).pc) :
    next.handed = s.handed := by
  unfold Sys.handed
  rw [task]
  simp only [reading]

theorem handed_others (s : Sys Prog Empty) (q : Prog) (u : Tid) (pipe : Pipe) (dev : Dev (Client Prog Empty))
    (other : ¬ (q = .reader ∧ u = .source 0)) (only : OnlyCalls (s.pipes q) pipe u)
    (tasks : ∀ client, client ≠ .inl (q, u) → dev.tasks client = s.dev.tasks client) :
    ((s.setDev dev).setPipe q pipe).handed = s.handed := by
  refine handed_same s _ ?_ ?_
  · by_cases mine : q = .reader
    · subst mine
      have kept := only.sources 0 fun same => other ⟨rfl, same.symm⟩
      simp [Sys.setPipe, kept]
    · simp [Sys.setPipe, Sys.setDev, Ne.symm mine]
  · have different : (Sum.inl (.reader, .source 0) : Client Prog Empty) ≠ .inl (q, u) := by
      rintro same
      cases same
      exact other ⟨rfl, rfl⟩
    simp [Sys.setPipe, Sys.setDev, tasks _ different]

theorem reading_serves (s : Sys Prog Empty) (link : LinkInv s) (reading : (s.pipes .reader).sources 0 = .inRead) :
    (s.dev.tasks (.inl (.reader, .source 0))).pc.Serves (.myRead readByte) := by
  have linked := link .reader (.source 0)
  have waits : (s.pipes .reader).waiting (.source 0) = some (.myRead readByte) := congrArg SourcePc.waiting reading
  rwa [waits] at linked

def PopsHeard (events : List (SysEvent Prog Empty)) (s : Sys Prog Empty) : Prop :=
  (events.flatMap SysEvent.device).flatMap Event.pops =
    (events.flatMap (SysEvent.ofPipe .reader)).flatMap UserEvent.heard ++ s.handed.toList

theorem pops_heard_quiet (events out : List (SysEvent Prog Empty)) (s next : Sys Prog Empty) (heard : PopsHeard events s)
    (unpopped : (out.flatMap SysEvent.device).flatMap Event.pops = [])
    (unheard : (out.flatMap (SysEvent.ofPipe .reader)).flatMap UserEvent.heard = []) (same : next.handed = s.handed) :
    PopsHeard (events ++ out) next := by
  unfold PopsHeard at heard ⊢
  simp only [List.flatMap_append]
  rw [unpopped, unheard, same, List.append_nil, List.append_nil]
  exact heard

theorem pops_heard_dev (dev : Dev (Client Prog Empty)) (action : Action (Client Prog Empty))
    (out : List (Event (Client Prog Empty)))
    (before : Run (system (writerAndReader arg)) Faultless (systemStart (writerAndReader arg)) events s)
    (heard : PopsHeard events s) (healthy : Faultless s (.dev action)) (free : action.unattended = true)
    (move : DevMove s.dev action dev out) : PopsHeard (events ++ out.flatMap s.observe) (s.setDev dev) := by
  have unheard : ((out.flatMap s.observe).flatMap (SysEvent.ofPipe .reader)).flatMap UserEvent.heard = [] := by
    rw [pipe_of_observed]
    rfl
  by_cases pops : ∃ client data, .popped client data ∈ out
  · obtain ⟨client, data, popped⟩ := pops
    obtain ⟨rfl, mine, reading⟩ := pop_client dev action out client data before move popped
    rcases unattended_move _ _ action out .reader (.source 0) free move with ⟨env, _, own⟩ | ⟨other, _⟩
    · have serves := reading_serves s (link_run before) reading
      cases read_step _ _ _ env out readByte own ((system_data before).tasks _) serves with
      | @pop node empty carried only =>
          have before := (handed_reading s reading).trans empty
          have after := (handed_reading (s.setDev dev) reading).trans carried
          unfold PopsHeard at heard ⊢
          rw [before] at heard
          simp only [List.flatMap_append]
          rw [device_of_observed, unheard, heard, after, only]
          simp [Event.pops]
      | quiet _ silent | fault _ _ silent =>
          have mine := List.flatMap_eq_nil_iff.mp silent _ popped
          cases mine
    · exact absurd mine other
  · simp only [not_exists] at pops
    refine pops_heard_quiet events _ s _ heard (by rw [device_of_observed]; exact no_pops out pops) unheard ?_
    rcases unattended_move _ _ action out .reader (.source 0) free move with ⟨env, rfl, own⟩ | ⟨_, same⟩
    · by_cases reading : (s.pipes .reader).sources 0 = .inRead
      · have serves := reading_serves s (link_run before) reading
        rw [handed_reading s reading, handed_reading (s.setDev dev) reading]
        cases read_step _ _ _ env out readByte own ((system_data before).tasks _) serves with
        | quiet same => exact same
        | pop _ _ popped => exact absurd (by rw [popped]; exact List.mem_singleton_self _) (pops _ _)
        | fault failure => exact absurd (healthy.symm.trans failure) (by decide)
      · rw [handed_elsewhere s reading, handed_elsewhere (s.setDev dev) reading]
    · exact handed_same s _ Iff.rfl same

theorem pops_heard_call (q : Prog) (u : Tid) (op : Op) (pipe : Pipe) (heard : PopsHeard events s)
    (call : CallMove ((writerAndReader arg).prog q) (s.pipes q) u op pipe) :
    PopsHeard (events ++ []) ((s.setDev (s.dev.goto (.inl (q, u)) op.entry)).setPipe q pipe) := by
  refine pops_heard_quiet events [] s _ heard rfl rfl ?_
  have waits := call_waits _ _ _ _ _ call
  have fresh : op.entry.carrying = none := by cases op <;> rfl
  by_cases here : q = .reader ∧ u = .source 0
  · obtain ⟨rfl, rfl⟩ := here
    have outside : (s.pipes .reader).sources 0 ≠ .inRead := by
      intro reading
      rw [show (s.pipes .reader).waiting (.source 0) = some (.myRead readByte) from congrArg SourcePc.waiting reading] at waits
      cases waits.1
    have inside : pipe.sources 0 = .inRead := in_read_of_waiting _ _ waits.2
    rw [handed_elsewhere s outside, handed_reading _ (by simpa [Sys.setPipe] using inside)]
    simpa [Sys.setPipe, Sys.setDev] using fresh
  · exact handed_others s q u pipe _ here (call_only _ _ _ _ _ call) fun client other => by simp [other]

theorem pops_heard_ret (q : Prog) (u : Tid) (res : Int) (got : Bytes) (pipe : Pipe) (out : List UserEvent) (dev : Dev (Client Prog Empty))
    (before : Run (system (writerAndReader arg)) Faultless (systemStart (writerAndReader arg)) events s)
    (heard : PopsHeard events s) (point : (s.dev.tasks (.inl (q, u))).pc = .ret res got)
    (others : ∀ client, client ≠ .inl (q, u) → dev.tasks client = s.dev.tasks client)
    (ret : RetMove (s.pipes q) res got u pipe out) :
    PopsHeard (events ++ out.map (.pipe q)) ((s.setDev dev).setPipe q pipe) := by
  by_cases here : q = .reader ∧ u = .source 0
  · obtain ⟨rfl, rfl⟩ := here
    cases ret with
    | read reading =>
        have held := handed_reading s reading
        have left := handed_elsewhere ((s.setDev dev).setPipe .reader ((s.pipes .reader).setSource 0 (.took res got)))
          (by simp [Sys.setPipe, Pipe.setSource])
        unfold PopsHeard at heard ⊢
        rw [held, point] at heard
        simp only [List.flatMap_append]
        rw [device_of_piped, pipe_of_piped, if_pos rfl, left, heard]
        by_cases success : res = 0 <;> simp [Pc.carrying, UserEvent.heard, success]
  · have unheard : ((out.map (SysEvent.pipe (κ := Empty) q)).flatMap (SysEvent.ofPipe .reader)).flatMap UserEvent.heard = [] := by
      rw [pipe_of_piped]
      split
      · rename_i mine
        subst mine
        cases ret with
        | @read i reading =>
            have first := reader_single (reader_calm before) i (by rw [reading]; simp)
            exact absurd ⟨rfl, by rw [first]⟩ here
        | _ => rfl
      · rfl
    exact pops_heard_quiet events _ s _ heard (by rw [device_of_piped]; rfl) unheard
      (handed_others s q u pipe dev here (ret_only _ _ _ _ _ _ ret) others)

theorem pops_heard_run (run : Run (system (writerAndReader arg)) Faultless (systemStart (writerAndReader arg)) events s) :
    PopsHeard events s := by
  refine Run.invariant PopsHeard (by simp [PopsHeard, Sys.handed, systemStart, programStart]) ?_ run
  intro events s action next out before heard allowed stepped
  cases system_moves (writerAndReader arg) s next action out stepped with
  | @user q action pipe out inside moved =>
      have move := pipe_moves _ _ _ _ _ moved
      have same := internal_same_calls _ _ _ _ _ (join_inv_run (system_pipe_any q before)) inside move
      refine pops_heard_quiet events _ s _ heard (by rw [device_of_piped]; rfl) ?_ (handed_same s _ ?_ rfl)
      · rw [pipe_of_piped]
        split
        · exact flat_map_silent _ UserEvent.answer (by intro event mine; cases event <;> first | rfl | cases mine) out
            (internal_unanswered _ _ _ _ _ inside move)
        · rfl
      · by_cases mine : q = .reader
        · subst mine
          have kept := same.sources 0
          simp only [Sys.setPipe, Function.update_self]
          constructor
          · exact fun reading => in_read_of_waiting _ _ (kept.symm.trans (congrArg SourcePc.waiting reading))
          · exact fun reading => in_read_of_waiting _ _ (kept.trans (congrArg SourcePc.waiting reading))
        · simp [Sys.setPipe, Ne.symm mine]
  | call _ asked => exact pops_heard_call _ _ _ _ heard (request_moves _ _ _ _ _ asked)
  | ret point returned =>
      exact pops_heard_ret _ _ _ _ _ _ _ before heard point (fun client other => by simp [other]) (ret_moves _ _ _ _ _ _ returned)
  | dev free moved => exact pops_heard_dev _ _ _ before heard allowed free (device_moves _ _ _ _ moved)

theorem pushes_appended (run : Run (system (writerAndReader arg)) Faultless (systemStart (writerAndReader arg)) events s) :
    (events.flatMap SysEvent.device).flatMap Event.pushes = (events.flatMap (SysEvent.appends .writer)).map Prod.snd := by
  refine Run.invariant (fun events _ => (events.flatMap SysEvent.device).flatMap Event.pushes =
    (events.flatMap (SysEvent.appends .writer)).map Prod.snd) rfl ?_ run
  intro events s action next out before earlier _ stepped
  simp only [List.flatMap_append, List.map_append]
  rw [earlier]
  congr 1
  cases system_moves (writerAndReader arg) s next action out stepped with
  | user | ret => rw [device_of_piped, piped_appends]; rfl
  | call => rfl
  | @dev action dev out _ moved =>
      rw [device_of_observed, List.flatMap_assoc, List.map_flatMap]
      refine List.flatMap_congr fun event member => ?_
      cases event with
      | pushed client data =>
          obtain ⟨_, value, rfl, point, _, _⟩ := push_point _ _ _ _ _ _ (device_moves _ _ _ _ moved) member
          rcases client with ⟨q, t⟩ | other
          · have waits := push_waits s q t value (link_run before) point
            have roles : Roles ((writerAndReader arg).prog q) (s.pipes q) := roles_run (system_pipe_any q before)
            have role : q = .writer := roles.writes t value waits
            subst role
            simp [Sys.observe, SysEvent.appends, Event.pushes]
          · exact other.elim
      | _ => rfl

theorem reader_took (run : Run (system (writerAndReader arg)) Faultless (systemStart (writerAndReader arg)) events s)
    (past : 8 < (s.pipes .reader).main.phase) :
    (events.flatMap SysEvent.device).flatMap Event.pops =
      (events.flatMap (SysEvent.ofPipe .reader)).flatMap UserEvent.putData ++ [terminatorText] := by
  have calm := reader_calm run
  obtain ⟨finish, texts⟩ := reader_finished (by decide) (by decide) calm past
  have outside : (s.pipes .reader).sources 0 ≠ .inRead := by
    intro reading
    have dead := (join_inv_run calm).joined .source 0 (.inl (by simp only [Stage.joinPhase]; omega))
    simp [Pipe.life, reading, SourcePc.life] at dead
  have popped := pops_heard_run run
  unfold PopsHeard at popped
  rw [popped, handed_elsewhere s outside, heard_received, texts]
  rcases finish.ended with ⟨early, outs, clean⟩ | ⟨_, positive, _⟩
  · rw [outs, List.filterMap_append, List.filterMap_append, received_texts early clean]
    simp [Outcome.received, Outcome.data]
  · exact absurd positive (by decide)

theorem log_cut (log : List (Option Item × Bytes)) (texts nodes : List Bytes)
    (entries : ∀ entry ∈ log, entry = (none, terminatorText) ∨ ∃ item, entry = (some item, item.data) ∧ Small item.data)
    (last : ∀ before after data, log = before ++ (none, data) :: after → after = [])
    (split : log.map Prod.snd = texts ++ [terminatorText] ++ nodes) :
    nodes = [] ∧ texts = (log.filterMap Prod.fst).map Item.data := by
  rw [List.append_assoc] at split
  obtain ⟨front, rest, rfl, frontTexts, restTexts⟩ := List.map_eq_append_iff.mp split
  obtain ⟨entry, back, rfl, ended, backTexts⟩ := List.map_eq_cons_iff.mp restTexts
  have mark : entry = (none, terminatorText) := by
    rcases entries entry (by simp) with same | ⟨item, rfl, small⟩
    · exact same
    · exact absurd (small.letters 48 (by rw [show item.data = terminatorText from ended]; decide)).1 (by decide)
  subst mark
  have ends : back = [] := last front back _ rfl
  subst ends
  refine ⟨backTexts.symm, ?_⟩
  have data : ∀ entry ∈ front, ∃ item, entry = (some item, item.data) := by
    intro entry member
    rcases entries entry (by simp [member]) with rfl | ⟨item, same, _⟩
    · obtain ⟨early, later, rfl⟩ := List.append_of_mem member
      have beyond := last early (later ++ [(none, terminatorText)]) terminatorText (by simp)
      simp at beyond
    · exact ⟨item, same⟩
  rw [← frontTexts, List.filterMap_append]
  simp only [List.filterMap_cons_none, List.filterMap_nil, List.append_nil]
  clear split restTexts last entries frontTexts
  induction front with
  | nil => rfl
  | cons entry rest ih =>
      obtain ⟨item, rfl⟩ := data entry List.mem_cons_self
      simpa using ih fun other member => data other (List.mem_cons_of_mem _ member)

theorem end_to_end (positive : 1 ≤ arg) (small : arg < intMax)
    (run : Run (system (writerAndReader arg)) Faultless (systemStart (writerAndReader arg)) events s)
    (writerPast : Stage.sink.joinPhase < (s.pipes .writer).main.phase)
    (readerPast : Stage.sink.joinPhase < (s.pipes .reader).main.phase) :
    (((events.flatMap (SysEvent.ofPipe .writer)).flatMap UserEvent.putData).length : Int) = arg ∧
      (((events.flatMap (SysEvent.ofPipe .reader)).flatMap UserEvent.prints : List Bytes) : Multiset Bytes) =
        ((events.flatMap (SysEvent.ofPipe .writer)).flatMap UserEvent.putData : List Bytes) ∧
      s.dev.kbFifo.nodes = [] := by
  have writerCalm : Run (pipeline .writer) NoSigint (programStart arg) (events.flatMap (SysEvent.ofPipe .writer))
      (s.pipes .writer) := system_pipe_calm Prog.writer rfl rfl (faultless_calm Prog.writer) run
  have law := device_fifo_law (system_device_any run)
  rw [pushes_appended run, reader_took run readerPast] at law
  obtain ⟨empty, texts⟩ := log_cut _ _ _ (appended_text Prog.writer rfl run) (seal_run Prog.writer run).last law
  have made : (events.flatMap (SysEvent.ofPipe .writer)).flatMap UserEvent.putData =
      ((events.flatMap (SysEvent.ofPipe .writer)).flatMap UserEvent.puts).map Item.data := by
    rw [List.map_flatMap]
    rfl
  refine ⟨?_, ?_, empty⟩
  · rw [made, List.length_map]
    exact writer_made_all positive small writerCalm writerPast
  · have appended := congrArg (Multiset.map fun item => inPlace toUpper item.data)
      (writer_appends_all Prog.writer rfl positive small run writerPast)
    rw [printed_multiset (by decide) (by decide) (reader_calm run) readerPast, texts, ← appended_items_eq, List.map_map, made]
    simp only [Multiset.map_coe, List.map_map] at appended
    refine appended.trans (congrArg _ (List.map_congr_left fun item member => ?_))
    -- to_upper undoes to_lower on what gen_data made.
    obtain ⟨rand, data⟩ := (made_inv_run positive writerCalm).generated item member
    exact to_upper_to_lower item.data (data ▸ gen_data_capital rand)

end Duo

-- Two strings; the Reader takes the first one before the Writer has sent the
-- second, and the elaborator that has the first is overtaken.
def twoStringsSchedule : List (SysAction Prog Empty) :=
  usersGo Prog.writer .main 2 ++ wholeCall Prog.writer .main 3 ++ usersGo Prog.writer .main 8 ++ usersGo Prog.writer (.source 0) 4 ++
    List.replicate 8 (.user Prog.writer (.go (.source 0) { rand := fun _ => 1 })) ++ usersGo Prog.writer .main 5 ++
    usersGo Prog.writer (.elaborate 0) 17 ++ usersGo Prog.writer .main 5 ++ usersGo Prog.writer (.sink 0) 2 ++
    wholeCall Prog.writer (.sink 0) 7 ++ usersGo Prog.reader .main 2 ++ wholeCall Prog.reader .main 3 ++ usersGo Prog.reader .main 12 ++
    usersGo Prog.reader (.source 0) 2 ++ wholeCall Prog.reader (.source 0) 7 ++ usersGo Prog.writer (.sink 0) 5 ++
    wholeCall Prog.writer (.sink 0) 7 ++ usersGo Prog.reader (.source 0) 3 ++ usersGo Prog.reader (.elaborate 0) 3 ++
    usersGo Prog.reader (.source 0) 2 ++ wholeCall Prog.reader (.source 0) 7 ++ usersGo Prog.writer (.sink 0) 7 ++
    usersGo Prog.writer .main 2 ++ wholeCall Prog.writer .main 7 ++ usersGo Prog.reader (.source 0) 5 ++
    wholeCall Prog.reader (.source 0) 7 ++ usersGo Prog.reader (.source 0) 3 ++ usersGo Prog.reader .main 5 ++
    usersGo Prog.reader (.elaborate 1) 10 ++ usersGo Prog.reader (.elaborate 0) 7 ++
    [2, 3].flatMap (fun i => usersGo Prog.reader (.elaborate i) 3) ++ usersGo Prog.reader .main 8 ++ usersGo Prog.reader (.sink 1) 5 ++
    usersGo Prog.reader (.sink 0) 9 ++ usersGo Prog.reader (.sink 1) 4 ++ usersGo Prog.reader .main 3

def faultless {π κ : Type} (_ : Sys π κ) : SysAction π κ → Bool
  | .user _ (.sigint _) => false
  | .dev (.go _ env) | .dev (.kt _ env) => env.ok
  | _ => true

theorem faultless_sound {π κ : Type} (s : Sys π κ) (action : SysAction π κ) (checked : faultless s action = true) :
    Faultless s action := by
  cases action with
  | user p action => cases action <;> trivial
  | dev action => cases action <;> first | exact checked | trivial
  | _ => trivial

theorem end_to_end_two_strings : ∃ (events : List (SysEvent Prog Empty)) (s : Sys Prog Empty),
    Run (system (writerAndReader 2)) Faultless (systemStart (writerAndReader 2)) events s ∧
    Stage.sink.joinPhase < (s.pipes .writer).main.phase ∧ Stage.sink.joinPhase < (s.pipes .reader).main.phase ∧
    (events.flatMap (SysEvent.ofPipe .reader)).flatMap UserEvent.prints = [[66, 66], [65]] ∧
    (((events.flatMap (SysEvent.ofPipe .writer)).flatMap UserEvent.putData).length : Int) = 2 ∧
    (((events.flatMap (SysEvent.ofPipe .reader)).flatMap UserEvent.prints : List Bytes) : Multiset Bytes) =
      ((events.flatMap (SysEvent.ofPipe .writer)).flatMap UserEvent.putData : List Bytes) ∧
    s.dev.kbFifo.nodes = [] := by
  obtain ⟨events, s, run, seen⟩ := exec_reaches (system (κ := Empty) (writerAndReader 2)) faultless Faultless faultless_sound
    (systemStart (writerAndReader 2)) twoStringsSchedule
    (fun s events => decide (Stage.sink.joinPhase < (s.pipes .writer).main.phase) &&
      decide (Stage.sink.joinPhase < (s.pipes .reader).main.phase) &&
      decide ((events.flatMap (SysEvent.ofPipe .reader)).flatMap UserEvent.prints = [[66, 66], [65]])) (by decide +kernel)
  simp only [Bool.and_eq_true, decide_eq_true_eq] at seen
  obtain ⟨⟨writerPast, readerPast⟩, prints⟩ := seen
  exact ⟨events, s, run, writerPast, readerPast, prints, end_to_end (by decide) (by decide) run writerPast readerPast⟩

end MyDev
