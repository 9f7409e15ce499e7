import MyDev.DeviceFifo
import MyDev.Fun
import MyDev.SystemLink

set_option autoImplicit false

namespace MyDev

open Library

-- What the user programs agree to send: words of small letters that fit the
-- readers' buffers, and the terminator.
def GoodText (text : Bytes) : Prop := text = terminatorText ∨ Small text

def GoodBuf (buf : Bytes) : Prop := ∃ text, GoodText text ∧ buf = text ++ [0]

def Op.Good : Op → Prop
  | .myOpen | .myClose => True
  | .myRead dim => dim = readByte
  | .myWrite buf => GoodBuf buf

theorem good_text_clean (text : Bytes) (good : GoodText text) : 0 ∉ text := by
  rcases good with rfl | small
  · decide
  · exact letters_clean 97 121 text small (by decide)

theorem good_text_fits (text : Bytes) (good : GoodText text) : text.length + 1 ≤ readByte := by
  rcases good with rfl | small
  · decide
  · exact small.short

theorem good_buf_text (buf mem : Bytes) (good : GoodBuf buf) : GoodText (cstr (buf ++ mem)) := by
  obtain ⟨text, valid, rfl⟩ := good
  rw [List.append_assoc]
  have same : cstr (text ++ ([0] ++ mem)) = text := cstr_append_nul text mem (good_text_clean text valid)
  rwa [same]

theorem good_buf_nul (buf : Bytes) (good : GoodBuf buf) : 0 ∈ buf := by
  obtain ⟨text, _, rfl⟩ := good
  simp

theorem popped_text (value node : Bytes) (clean : 0 ∉ node) (fits : node.length + 1 ≤ value.length) :
    (strcpy value (node ++ [0])).length = value.length ∧
      cstr ((strcpy value (node ++ [0])).take value.length) = node := by
  have text : cstr (node ++ [0]) = node := cstr_append_nul node [] clean
  have length : (strcpy value (node ++ [0])).length = value.length := by
    simp only [strcpy, text, List.length_append, List.length_cons, List.length_drop]
    omega
  refine ⟨length, ?_⟩
  rw [← length, List.take_length, cstr_strcpy, text]

def Pc.Sound : Pc → Prop
  | .readLock dim | .readAlloc dim => dim = readByte
  | .readWait dim value _ | .readPop dim value => dim = readByte ∧ value.length = dim
  | .readCopy dim value taken => cstr (value.take dim) = taken
  | .readWake got taken => cstr got = taken
  | .readUnlock res got taken => res = 0 → taken = some (cstr got)
  | .writeLock buf | .writeAlloc buf | .writeWait buf _ | .writeCopy buf | .writePush buf => GoodBuf buf
  | _ => True

theorem entry_sound (op : Op) (good : op.Good) : op.entry.Sound := by
  cases op <;> exact good

theorem locked_data (pc next : Pc) (entered : pc.locked = some next) (sound : pc.Sound) : next.Sound := by
  unfold Pc.locked at entered
  split at entered <;> cases entered <;> exact sound

theorem unlocked_data (pc next : Pc) (left : pc.unlocked = some next) (sound : pc.Sound) : next.Sound := by
  unfold Pc.unlocked at left
  split at left <;> cases left <;> trivial

def Pc.buffer : Pc → Option Bytes
  | .writeLock buf | .writeAlloc buf | .writeWait buf _ | .writeCopy buf | .writePush buf => some buf
  | _ => none

theorem sound_buffer (pc : Pc) (buf : Bytes) (sound : pc.Sound) (writes : pc.buffer = some buf) : 0 ∈ buf := by
  cases pc <;> cases writes <;> exact good_buf_nul buf sound

def Pc.carrying : Pc → Option Bytes
  | .readCopy _ _ taken | .readWake _ taken => some taken
  | .readUnlock res got _ | .ret res got => if res = 0 then some (cstr got) else none
  | _ => none

theorem locked_carrying (pc next : Pc) (entered : pc.locked = some next) : next.carrying = pc.carrying := by
  unfold Pc.locked at entered
  split at entered <;> cases entered <;> rfl

theorem unlocked_carrying (pc next : Pc) (dim : Nat) (left : pc.unlocked = some next) (serves : pc.Serves (.myRead dim)) :
    next.carrying = pc.carrying := by
  unfold Pc.unlocked at left
  split at left <;> cases left <;> first | rfl | exact serves.elim

section Data

variable {ι : Type}

theorem local_data {s : Dev ι} {env : Env} {pc next : Pc} (step : LocalPc s env pc next) (sound : pc.Sound) : next.Sound := by
  cases step with
  | readLoop | writeLoop | readPass | writePass | readCopied | writeAlloc | writeCopied => exact sound
  | readAlloc => exact ⟨sound, kmalloc_length _ _⟩
  | readNoMemory | readNothing | readFault => exact fun zero => by cases zero
  | writeNoMemory | writeFault | writeOops => trivial

structure DataInv (s : Dev ι) : Prop where
  nodes : ∀ node ∈ s.kbFifo.nodes, GoodText node
  tasks : ∀ t, (s.tasks t).pc.Sound

theorem data_init : DataInv (myModuleInit ι) := ⟨by simp [myModuleInit, kbInit], fun _ => trivial⟩

def Agreed (_ : Dev ι) : Action ι → Prop
  | .call _ op => op.Good
  | _ => True

variable [DecidableEq ι]

theorem data_client (s next : Dev ι) (t : ι) (env : Env) (out : List (Event ι)) (inv : DataInv s)
    (move : ClientMove s t env next out) : DataInv next := by
  have mine := inv.tasks t
  have set : (next.tasks t).pc.Sound → ∀ u, (next.tasks u).pc.Sound := by
    intro new u
    by_cases here : u = t
    · rw [here]
      exact new
    · rw [other_client_pc s next t u env out move here]
      exact inv.tasks u
  cases move with
  | «local» move => exact ⟨inv.nodes, set (by simpa using local_data (local_move_pc s env _ _ move) mine)⟩
  | acquire _ entered => exact ⟨inv.nodes, set (by simpa using locked_data _ _ entered mine)⟩
  | release left => exact ⟨inv.nodes, set (by simpa using unlocked_data _ _ left mine)⟩
  | opened => exact ⟨by simpa using inv.nodes, set (by simp [Pc.Sound])⟩
  | closed => exact ⟨inv.nodes, set (by simp [Pc.Sound])⟩
  | @popped dim value node rest point found =>
      obtain ⟨nodes, _⟩ := kb_pop_some _ _ _ found
      have good : ∀ other ∈ node :: rest.nodes, GoodText other := nodes ▸ inv.nodes
      have valid := good node List.mem_cons_self
      rw [point] at mine
      obtain ⟨asked, length⟩ := mine
      have copied := (popped_text value node (good_text_clean node valid)
        (by rw [length, asked]; exact good_text_fits node valid)).2
      rw [length] at copied
      exact ⟨fun other member => good other (List.mem_cons_of_mem _ member), set (by simpa [Pc.Sound] using copied)⟩
  | @pushed value point success =>
      rw [point] at mine
      refine ⟨?_, set (by simp [Pc.Sound])⟩
      intro node member
      rcases List.mem_append.mp member with old | new
      · exact inv.nodes node old
      · rw [List.mem_singleton.mp new]
        exact good_buf_text value env.mem mine
  | wakeWriters point =>
      rw [point] at mine
      exact ⟨inv.nodes, set (by simpa [Pc.Sound] using mine.symm)⟩
  | wakeReaders => exact ⟨inv.nodes, set (by simp [Pc.Sound])⟩

theorem data_move (s next : Dev ι) (action : Action ι) (out : List (Event ι)) (inv : DataInv s) (agreed : Agreed s action)
    (move : DevMove s action next out) : DataInv next := by
  cases move with
  | @call t op idle =>
      refine ⟨inv.nodes, fun u => ?_⟩
      by_cases here : u = t
      · subst here
        simpa using entry_sound op agreed
      · simpa [here] using inv.tasks u
  | client move => exact data_client s next _ _ out inv move
  | @ret t res got point =>
      refine ⟨inv.nodes, fun u => ?_⟩
      by_cases here : u = t
      · subst here
        simp [Pc.Sound]
      · simpa [here] using inv.tasks u
  | @signal t =>
      refine ⟨inv.nodes, fun u => ?_⟩
      by_cases here : u = t
      · subst here
        simpa [signalStep] using inv.tasks u
      · simpa [signalStep, here] using inv.tasks u
  | kt move => cases move <;> exact ⟨inv.nodes, inv.tasks⟩
  | timer => exact ⟨inv.nodes, inv.tasks⟩

theorem data_run {events : List (Event ι)} {s : Dev ι} (run : Run (device ι) Agreed (myModuleInit ι) events s) : DataInv s := by
  refine Run.invariant (fun _ s => DataInv s) data_init ?_ run
  intro _ s action next out _ inv agreed stepped
  exact data_move s next action out inv agreed (device_moves s next action out stepped)

inductive ReadStep (s next : Dev ι) (t : ι) (env : Env) (out : List (Event ι)) : Prop where
  | quiet (same : (next.tasks t).pc.carrying = (s.tasks t).pc.carrying) (silent : out.flatMap Event.pops = [])
  | pop {node : Bytes} (empty : (s.tasks t).pc.carrying = none) (carried : (next.tasks t).pc.carrying = some node)
      (popped : out = [.popped t node])
  | fault (failure : env.ok = false) (dropped : (next.tasks t).pc.carrying = none) (silent : out.flatMap Event.pops = [])

omit [DecidableEq ι] in
theorem done_events_pops (t : ι) (pc : Pc) : (doneEvents t pc).flatMap Event.pops = [] := by
  unfold doneEvents
  split <;> rfl

omit [DecidableEq ι] in
theorem local_carrying {s : Dev ι} {env : Env} {pc next : Pc} {dim : Nat} (step : LocalPc s env pc next)
    (serves : pc.Serves (.myRead dim)) : next.carrying = pc.carrying ∨ env.ok = false ∧ next.carrying = none := by
  cases step with
  | readFault failure => exact .inr ⟨failure, rfl⟩
  | writeLoop | writePass | writeAlloc | writeNoMemory | writeCopied | writeFault | writeOops => exact serves.elim
  | _ => exact .inl rfl

theorem read_step (s next : Dev ι) (t : ι) (env : Env) (out : List (Event ι)) (dim : Nat) (move : ClientMove s t env next out)
    (sound : (s.tasks t).pc.Sound) (serves : (s.tasks t).pc.Serves (.myRead dim)) : ReadStep s next t env out := by
  cases move with
  | «local» move =>
      rcases local_carrying (local_move_pc s env _ _ move) serves with same | ⟨failure, dropped⟩
      · exact .quiet (by simpa using same) rfl
      · exact .fault failure (by simpa using dropped) rfl
  | acquire _ entered => exact .quiet (by simpa using locked_carrying _ _ entered) rfl
  | release left => exact .quiet (by simpa using unlocked_carrying _ _ dim left serves) (done_events_pops _ _)
  | @popped _ _ node _ point => exact .pop (by rw [point]; rfl) (by simp [Pc.carrying]) rfl
  | wakeWriters point =>
      rw [point] at sound
      exact .quiet (by simpa [point, Pc.carrying, Pc.Sound] using sound) rfl
  | opened point | closed point | pushed point | wakeReaders point =>
      rw [point] at serves
      exact serves.elim

end Data

end MyDev
