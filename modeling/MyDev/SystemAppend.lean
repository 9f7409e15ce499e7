import MyDev.SystemLink
import MyDev.WriterPipeline

set_option autoImplicit false

namespace MyDev

open Library

-- From the push on, a my_write is bound to return 0; one that has not pushed
-- returns something else.
def Pc.sent : Pc → Bool
  | .writeWake res | .writeUnlock res | .ret res _ => res = 0
  | _ => false

section Push

variable {ι : Type}

theorem locked_sent (pc next : Pc) (entered : pc.locked = some next) : next.sent = pc.sent := by
  unfold Pc.locked at entered
  split at entered <;> cases entered <;> rfl

theorem unlocked_sent (pc next : Pc) (buf : Bytes) (left : pc.unlocked = some next) (serves : pc.Serves (.myWrite buf)) :
    next.sent = pc.sent := by
  unfold Pc.unlocked at left
  split at left <;> cases left <;> first | rfl | exact serves.elim

theorem local_sent {s : Dev ι} {env : Env} {pc next : Pc} {buf : Bytes} (step : LocalPc s env pc next)
    (serves : pc.Serves (.myWrite buf)) : next.sent = pc.sent := by
  cases step with
  | readLoop | readPass | readAlloc | readNoMemory | readNothing | readCopied | readFault => exact serves.elim
  | _ => rfl

variable [DecidableEq ι]

inductive WriteStep (s next : Dev ι) (t : ι) (buf : Bytes) (out : List (Event ι)) : Prop where
  | quiet (same : (next.tasks t).pc.sent = (s.tasks t).pc.sent) (silent : ∀ data, .pushed t data ∉ out)
  | push {mem : Bytes} (point : (s.tasks t).pc = .writePush buf) (moved : (next.tasks t).pc = .writeWake 0)
      (pushed : out = [.pushed t (cstr (buf ++ mem))])

theorem write_step (s next : Dev ι) (t : ι) (env : Env) (out : List (Event ι)) (buf : Bytes)
    (move : ClientMove s t env next out) (serves : (s.tasks t).pc.Serves (.myWrite buf)) : WriteStep s next t buf out := by
  cases move with
  | «local» move => exact .quiet (by simpa using local_sent (local_move_pc s env _ _ move) serves) (by simp)
  | acquire _ entered => exact .quiet (by simpa using locked_sent _ _ entered) (by simp)
  | release left =>
      refine .quiet (by simpa using unlocked_sent _ _ buf left serves) ?_
      cases pc : (s.tasks t).pc <;> simp [doneEvents]
  | pushed point success =>
      rw [point] at serves
      subst serves
      exact .push point (by simp) rfl
  | opened point | closed point | popped point | wakeWriters point =>
      rw [point] at serves
      exact serves.elim
  | wakeReaders point => exact .quiet (by simp [point, Pc.sent]) (by simp)

theorem push_point (s next : Dev ι) (action : Action ι) (out : List (Event ι)) (t : ι) (data : Bytes)
    (move : DevMove s action next out) (pushed : .pushed t data ∈ out) :
    ∃ env value, action = .go t env ∧ (s.tasks t).pc = .writePush value ∧ data = cstr (value ++ env.mem) ∧
      ClientMove s t env next out := by
  cases move with
  | @client u env _ _ move =>
      have same : u = t ∧ ∃ value, (s.tasks u).pc = .writePush value ∧ data = cstr (value ++ env.mem) := by
        cases move with
        | pushed point =>
            simp only [List.mem_singleton, Event.pushed.injEq] at pushed
            exact ⟨pushed.1.symm, _, point, pushed.2⟩
        | release left => cases pc : (s.tasks u).pc <;> simp [pc, doneEvents] at pushed
        | _ => simp at pushed
      obtain ⟨rfl, value, point, text⟩ := same
      exact ⟨env, value, rfl, point, text, move⟩
  | kt move => cases move <;> simp at pushed
  | _ => simp at pushed

end Push

section Append

variable {π κ : Type} [DecidableEq π] [DecidableEq κ]

def SysEvent.appends (p : π) : SysEvent π κ → List (Option Item × Bytes)
  | .appended q sent data => if q = p then [(sent, data)] else []
  | _ => []

omit [DecidableEq κ] in
theorem piped_appends (p q : π) (out : List UserEvent) :
    (out.map (SysEvent.pipe (κ := κ) q)).flatMap (SysEvent.appends p) = [] := by
  simp [List.flatMap_map, SysEvent.appends]

omit [DecidableEq κ] in
theorem observed_appends_silent (s : Sys π κ) (p : π) (out : List (Event (Client π κ)))
    (silent : ∀ t data, .pushed (.inl (p, t)) data ∉ out) : (out.flatMap s.observe).flatMap (SysEvent.appends p) = [] := by
  rw [List.flatMap_assoc]
  refine List.flatMap_eq_nil_iff.mpr fun event member => ?_
  unfold Sys.observe
  split
  · rename_i q t data
    have other : q ≠ p := fun same => silent t data (same ▸ member)
    simp [SysEvent.appends, other]
  · rfl

inductive AppendEffect (s next : Sys π κ) (p : π) (out : List (SysEvent π κ)) : Prop where
  | nothing (silent : out.flatMap (SysEvent.appends p) = [])
      (sent : ∀ t op, (s.pipes p).waiting t = some op → (next.pipes p).waiting t = some op →
        (∃ buf, op = .myWrite buf) →
        (next.dev.tasks (.inl (p, t))).pc.sent = (s.dev.tasks (.inl (p, t))).pc.sent)
  | append {t : Tid} {buf : Bytes} (mem : Bytes) (pipes : next.pipes = s.pipes) (waits : (s.pipes p).waiting t = some (.myWrite buf))
      (point : (s.dev.tasks (.inl (p, t))).pc = .writePush buf) (moved : (next.dev.tasks (.inl (p, t))).pc = .writeWake 0)
      (others : ∀ u, u ≠ t → (next.dev.tasks (.inl (p, u))).pc = (s.dev.tasks (.inl (p, u))).pc)
      (unreturned : out.flatMap (SysEvent.ofPipe p) = [])
      (appended : out.flatMap (SysEvent.appends p) = [((s.pipes p).sending t, cstr (buf ++ mem))])

theorem append_effect (config : Config π) (s next : Sys π κ) (action : SysAction π κ) (p : π) (out : List (SysEvent π κ))
    (link : LinkInv s) (move : SysMove config s action next out) : AppendEffect s next p out := by
  cases move with
  | user => exact .nothing (piped_appends _ _ _) (fun _ _ _ _ _ => rfl)
  | @call q u op pipe _ asked idle =>
      refine .nothing rfl ?_
      intro t op' before _ _
      have waits := (call_waits _ _ _ _ _ (request_moves _ _ _ _ _ asked)).1
      have other : (Sum.inl (p, t) : Client π κ) ≠ .inl (q, u) := by
        rintro same
        cases same
        rw [waits] at before
        cases before
      simp [Sys.setPipe, Sys.setDev, other]
  | @ret q u res got pipe _ point returned =>
      refine .nothing (piped_appends _ _ _) ?_
      intro t op' _ after _
      have left := (ret_waits _ _ _ _ _ _ (ret_moves _ _ _ _ _ _ returned)).2
      have other : (Sum.inl (p, t) : Client π κ) ≠ .inl (q, u) := by
        rintro same
        cases same
        simp [Sys.setPipe, left] at after
      simp [Sys.setPipe, Sys.setDev, other]
  | @dev action dev out free stepped =>
      have move := device_moves _ _ _ _ stepped
      by_cases pushes : ∃ t data, .pushed (.inl (p, t)) data ∈ out
      · obtain ⟨t, data, member⟩ := pushes
        obtain ⟨env, value, rfl, point, _, client⟩ := push_point _ _ _ _ _ _ move member
        have waits := push_waits s p t value link point
        cases write_step _ _ _ env out value client (by rw [point]; rfl) with
        | quiet _ silent => exact (silent data member).elim
        | @push mem _ moved pushed =>
            refine .append mem rfl waits point moved ?_ (pipe_of_observed s p out) ?_
            · intro u other
              refine other_client_pc _ _ _ _ env out client fun same => other ?_
              cases same
              rfl
            · simp [pushed, Sys.observe, SysEvent.appends]
      · simp only [not_exists] at pushes
        refine .nothing (observed_appends_silent s p out pushes) ?_
        rintro t _ waits _ ⟨buf, rfl⟩
        rcases unattended_move _ _ action out p t free move with ⟨env, _, own⟩ | ⟨_, same⟩
        · have linked := link p t
          rw [waits] at linked
          cases write_step _ _ _ env out buf own linked with
          | quiet same => exact same
          | push _ _ pushed => exact (pushes t _ (by rw [pushed]; exact List.mem_singleton_self _)).elim
        · change (dev.tasks (.inl (p, t))).pc.sent = _
          rw [same]

variable {config : Config π} {ok : Sys π κ → SysAction π κ → Prop} {events : List (SysEvent π κ)} {s : Sys π κ}

def SysEvent.appendedItems (p : π) (event : SysEvent π κ) : List Item := (event.appends p).filterMap Prod.fst

def SysEvent.successes (p : π) (event : SysEvent π κ) : List Item := (event.ofPipe p).flatMap UserEvent.successes

def flying : Option Item × Pc → Multiset Item
  | (some item, pc) => if pc.sent then {item} else 0
  | (none, _) => 0

def Sys.writers (s : Sys π κ) (p : π) (i : Nat) : Option Item × Pc :=
  ((s.pipes p).sending (.sink i), (s.dev.tasks (.inl (p, .sink i))).pc)

theorem sending_waits (s : Pipe) (i : Nat) (item : Item) (sends : s.sending (.sink i) = some item) :
    s.waiting (.sink i) = some (.myWrite (item.data ++ [0])) := by
  simp only [Pipe.sending] at sends
  simp [Pipe.waiting, sends]

theorem idle_sending (s : Pipe) (i : Nat) (idle : s.waiting (.sink i) = none) : s.sending (.sink i) = none := by
  simpa [Pipe.waiting, Pipe.sending] using idle

theorem flying_congr (before after : Option Item × Pc) (same : after.1 = before.1)
    (sent : ∀ item, before.1 = some item → after.2.sent = before.2.sent) : flying after = flying before := by
  obtain ⟨sending, pc⟩ := before
  obtain ⟨_, next⟩ := after
  cases same
  cases sending with
  | none => rfl
  | some item => simp only [flying, sent item rfl]

theorem flying_unsent (worker : Option Item × Pc) (unsent : worker.1 = none ∨ worker.2.sent = false) : flying worker = 0 := by
  obtain ⟨sending, pc⟩ := worker
  rcases unsent with none | unsent
  · cases none
    rfl
  · cases sending with
    | none => rfl
    | some item => simp_all [flying]

def UserEvent.answer : UserEvent → Bool
  | .attempt _ _ | .outcome _ _ => true
  | _ => false

theorem internal_unanswered (prog : Prog) (s next : Pipe) (action : UserAction) (out : List UserEvent)
    (inside : action.internal = true) (move : PipeMove prog s action next out) : ∀ event ∈ out, event.answer = false := by
  cases move with
  | source move => cases move <;> simp [UserEvent.answer]
  | elaborate move => cases move <;> simp [UserEvent.answer]
  | sink move => cases move <;> simp [UserEvent.answer]
  | main move => cases move <;> simp [UserEvent.answer]
  | call | ret => cases inside
  | hand | spuriousR | spuriousE | sigint => simp

omit [DecidableEq κ] in
theorem piped_successes (p q : π) (out : List UserEvent) :
    (out.map (SysEvent.pipe (κ := κ) q)).flatMap (SysEvent.successes p) = if q = p then out.flatMap UserEvent.successes else [] := by
  unfold SysEvent.successes
  rw [← List.flatMap_assoc, pipe_of_piped]
  split <;> rfl

omit [DecidableEq κ] in
theorem appended_items_eq (p : π) (out : List (SysEvent π κ)) :
    out.flatMap (SysEvent.appendedItems p) = (out.flatMap (SysEvent.appends p)).filterMap Prod.fst := by
  unfold SysEvent.appendedItems
  rw [List.filterMap_flatMap]

omit [DecidableEq κ] in
theorem observed_successes (s : Sys π κ) (p : π) (out : List (Event (Client π κ))) :
    (out.flatMap s.observe).flatMap (SysEvent.successes p) = [] := by
  unfold SysEvent.successes
  rw [← List.flatMap_assoc, pipe_of_observed]
  rfl

omit [DecidableEq κ] in
theorem writers_ret (s : Sys π κ) (dev : Dev (Client π κ)) (p : π) (u : Tid) (n : Nat) (res : Int) (got : Bytes) (pipe : Pipe)
    (out : List UserEvent) (others : ∀ t, t ≠ u → dev.tasks (.inl (p, t)) = s.dev.tasks (.inl (p, t)))
    (mine : (dev.tasks (.inl (p, u))).pc = .user) (point : (s.dev.tasks (.inl (p, u))).pc = .ret res got)
    (inside : ∀ i item, (s.pipes p).sending (.sink i) = some item → i < n) (move : RetMove (s.pipes p) res got u pipe out) :
    WorkMove n flying (s.writers p) (((s.setDev dev).setPipe p pipe).writers p) 0 (out.flatMap UserEvent.successes : List Item) := by
  have only := ret_only _ _ _ _ _ _ move
  have elsewhere : ∀ i, u ≠ .sink i → ((s.setDev dev).setPipe p pipe).writers p i = s.writers p i := by
    intro i other
    simp [Sys.writers, Sys.setPipe, Sys.setDev, only.sending _ (Ne.symm other), others _ (Ne.symm other)]
  cases move with
  | openDev | done | closeDev => exact .idle (fun i => by rw [elsewhere i (by simp)]) rfl
  | read => exact .idle (fun i => by rw [elsewhere i (by simp)]) rfl
  | @written i failures item there success | @refused i failures item there failure =>
      have before : s.writers p i = (some item, .ret res got) := by
        simp [Sys.writers, Pipe.sending, there, SinkPc.sending, point]
      have after : ∀ pc : SinkPc, pc.sending = none → ((s.setDev dev).setPipe p ((s.pipes p).setSink i pc)).writers p =
          Function.update (s.writers p) i (none, .user) := by
        intro pc none
        funext j
        by_cases here : j = i
        · subst here
          simp [Sys.writers, Sys.setPipe, Sys.setDev, Pipe.sending, Pipe.setSink, none, mine]
        · rw [Function.update_of_ne here]
          simp [Sys.writers, Sys.setPipe, Sys.setDev, Pipe.sending, Pipe.setSink, here, others (.sink j) (by simp [here])]
      refine .trade (inside i item (by simp [Pipe.sending, there, SinkPc.sending])) (after _ rfl) ?_
      simp_all [flying, Pc.sent, UserEvent.successes]

theorem writers_move (s next : Sys π κ) (action : SysAction π κ) (p : π) (out : List (SysEvent π κ))
    (before : Run (system config) ok (systemStart config) events s) (move : SysMove config s action next out) :
    WorkMove ((config.prog p).max .sink).toNat flying (s.writers p) (next.writers p)
      (out.flatMap (SysEvent.appendedItems p) : List Item) (out.flatMap (SysEvent.successes p) : List Item) := by
  have link := link_run before
  have inside : ∀ i item, (s.pipes p).sending (.sink i) = some item → i < ((config.prog p).max .sink).toNat := by
    intro i item sends
    refine live_inside (system_pipe_any p before) .sink i ?_
    simp only [Pipe.sending] at sends
    cases pc : (s.pipes p).sinks i <;> simp_all [SinkPc.sending, Pipe.life, SinkPc.life]
  rw [appended_items_eq]
  cases append_effect config s next action p out link move with
  | @append t buf mem pipes waits point moved others unreturned appended =>
      have silent : out.flatMap (SysEvent.successes p) = [] := by
        unfold SysEvent.successes
        rw [← List.flatMap_assoc, unreturned]
        rfl
      rw [appended, silent]
      have same : ∀ i, t ≠ .sink i → next.writers p i = s.writers p i := by
        intro i other
        simp [Sys.writers, pipes, others _ (Ne.symm other)]
      cases t with
      | sink i =>
          cases sends : (s.pipes p).sending (.sink i) with
          | none =>
              simp only [Pipe.sending] at sends
              simp [Pipe.waiting, sends] at waits
          | some item =>
              have updated : next.writers p = Function.update (s.writers p) i (some item, .writeWake 0) := by
                funext j
                by_cases here : j = i
                · subst here
                  simp [Sys.writers, pipes, sends, moved]
                · rw [Function.update_of_ne here]
                  exact same j (by simp [Ne.symm here])
              refine .trade (inside i item sends) updated ?_
              simp [Sys.writers, sends, point, flying, Pc.sent]
      | main | source | elaborate => exact .idle (fun i => by rw [same i (by simp)]) rfl
  | nothing silent sent =>
      rw [silent]
      cases move with
      | @user q action pipe out inner stepped =>
          have moved := pipe_moves _ _ _ _ _ stepped
          rw [piped_successes]
          by_cases mine : q = p
          · subst mine
            have same := internal_same_calls _ _ _ _ _ (join_inv_run (system_pipe_any q before)) inner moved
            have silent : out.flatMap UserEvent.successes = [] :=
              flat_map_silent _ UserEvent.answer (by intro event mine; cases event <;> first | rfl | cases mine) out
                (internal_unanswered _ _ _ _ _ inner moved)
            rw [if_pos rfl, silent]
            refine .idle (fun i => ?_) rfl
            simp [Sys.writers, Sys.setPipe, same_calls_sending _ _ same]
          · rw [if_neg mine]
            exact .idle (fun i => by simp [Sys.writers, Sys.setPipe, Ne.symm mine]) rfl
      | @call q u op pipe _ asked idle =>
          refine .idle (fun i => ?_) rfl
          by_cases mine : q = p
          · subst mine
            have moved := request_moves _ _ _ _ _ asked
            by_cases here : u = .sink i
            · subst here
              have unsent : op.entry.sent = false := by cases op <;> rfl
              rw [flying_unsent (s.writers q i) (.inl (idle_sending _ i (call_waits _ _ _ _ _ moved).1)),
                flying_unsent _ (.inr (by simpa [Sys.writers, Sys.setPipe, Sys.setDev] using unsent))]
            · simp [Sys.writers, Sys.setPipe, Sys.setDev, (call_only _ _ _ _ _ moved).sending _ (Ne.symm here), Ne.symm here]
          · simp [Sys.writers, Sys.setPipe, Sys.setDev, Ne.symm mine]
      | @ret q u res got pipe out point returned =>
          rw [piped_successes]
          by_cases mine : q = p
          · subst mine
            rw [if_pos rfl]
            exact writers_ret s _ q u _ res got pipe out (fun t other => by simp [other]) (by simp) point inside
              (ret_moves _ _ _ _ _ _ returned)
          · rw [if_neg mine]
            exact .idle (fun i => by simp [Sys.writers, Sys.setPipe, Sys.setDev, Ne.symm mine]) rfl
      | dev =>
          rw [observed_successes]
          refine .idle (fun i => flying_congr _ _ rfl fun item sends => ?_) rfl
          have waits := sending_waits _ i item sends
          exact sent (.sink i) _ waits waits ⟨_, rfl⟩

theorem appended_balance (p : π) (run : Run (system config) ok (systemStart config) events s) :
    ((events.flatMap (SysEvent.appendedItems p) : List Item) : Multiset Item) =
      held ((config.prog p).max .sink).toNat (s.writers p) flying +
        ((events.flatMap (SysEvent.ofPipe p)).flatMap UserEvent.successes : List Item) := by
  have balance := workers_run _ (fun s => s.writers p) flying (SysEvent.appendedItems p) (SysEvent.successes p) (fun _ => rfl)
    (fun events s action next out before _ stepped =>
      writers_move s next action p out before (system_moves config s next action out stepped)) run
  rw [balance, List.flatMap_assoc]
  rfl

end Append

end MyDev
