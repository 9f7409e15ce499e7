import MyDev.Buffer
import MyDev.Device
import MyDev.Fun
import MyDev.Library.Condvar

set_option autoImplicit false

namespace MyDev

open Library

-- Writer and Reader are the same three-stage pipeline: sources fill rbuffer,
-- elaborators move strings from rbuffer to ebuffer, sinks empty ebuffer.
inductive Prog where
  | writer
  | reader
deriving DecidableEq, Repr

inductive Stage where
  | source
  | elaborate
  | sink
deriving DecidableEq, Repr

inductive Tid where
  | main
  | source (i : Nat)
  | elaborate (i : Nat)
  | sink (i : Nat)
deriving DecidableEq, Repr

inductive Buf where
  | raw
  | elaborated
deriving DecidableEq, Repr

-- Where the threads are. What a thread does between taking a mutex and giving
-- it back is one step, unless it calls the device in between. A thread that
-- was woken out of pthread_cond_wait is at `lock` again.
inductive SourcePc where
  | off
  | lock
  | ticket
  | read
  | inRead
  | took (res : Int) (tmp : Bytes)
  | unlock (stop : Bool)
  | sleep (stop : Bool)
  | exited
deriving DecidableEq, Repr

inductive ElaboratePc where
  | off
  | lock
  | test
  | wait
  | unlockGot (item : Item)
  | work (item : Item)
  | lockE (item : Item)
  | insert (item : Item)
  | unlockE
  | unlockStop
  | exited
deriving DecidableEq, Repr

inductive SinkPc where
  | off
  | lock
  | test
  | wait
  | act (item : Item) (i : Nat)
  | inWrite (item : Item) (i : Nat)
  | report (item : Item) (i : Nat)
  | unlock (stop : Bool)
  | sleep (stop : Bool)
  | exited
deriving DecidableEq, Repr

inductive MainPc where
  | boot
  | ready
  | openDev
  | inOpen
  | counts
  | init
  | spawn (stage : Stage) (i : Nat)
  | join (stage : Stage) (i : Nat)
  | relLock (buf : Buf)
  | relSet (buf : Buf)
  | relUnlock (buf : Buf)
  | done (i : Nat)
  | inDone (i : Nat)
  | doneCheck (i : Nat)
  | closeDev
  | inClose
  | exited
  | failed
deriving DecidableEq, Repr

-- catcher_SIGINT runs on top of the thread it interrupted. `control++` is a
-- load and a store.
inductive HandPc where
  | load
  | store (value : Int)
  | check
  | lockR
  | bodyR
  | lockE
  | unlockR
  | bodyE
  | unlockE
deriving DecidableEq, Repr

-- `nsrc`, `nela` and `nsnk` are nct, net, nwt of the Writer and nrt, net, npt of
-- the Reader; `loop` is write_loop or read_loop; `made` numbers the items.
structure Pipe where
  todo : Int
  loop : Bool
  control : Int
  rbuffer : Wbuf
  ebuffer : Wbuf
  rmutex : Option Tid
  emutex : Option Tid
  nsrc : Int
  nela : Int
  nsnk : Int
  main : MainPc
  sources : Nat → SourcePc
  elaborators : Nat → ElaboratePc
  sinks : Nat → SinkPc
  hands : Tid → Option HandPc
  made : Nat

-- What the environment decides in a step: the results of rand() and which
-- waiter pthread_cond_signal picks.
structure Choice where
  rand : Nat → Nat := fun _ => 0
  wake : Nat := 0

inductive UserAction where
  | go (t : Tid) (choice : Choice)
  | call (t : Tid)
  | ret (t : Tid) (res : Int) (got : Bytes)
  | spurious (t : Tid)
  | sigint (t : Tid)

inductive UserEvent where
  | put (item : Item)
  | taken (item : Item)
  | elaborated (item : Item)
  | picked (item : Item)
  | outcome (res : Int) (tmp : Bytes)
  | terminator (i : Nat)
  | attempt (item : Item) (success : Bool)
  | settled (item : Item) (failures : Nat) (lost : Bool)
  | printed (item : Item)
  | doneReturned (res : Int)
deriving DecidableEq, Repr

def maxRetry : Nat := 5
def readByte : Nat := 40
def terminatorText : Bytes := [48, 48]

def Prog.step : Prog → Stage → Int
  | .writer, .source => 10
  | .writer, .elaborate => 5
  | .writer, .sink => 1
  | .reader, .source => 1
  | .reader, .elaborate => 5
  | .reader, .sink => 10

def Prog.max : Prog → Stage → Int
  | .writer, .source => 4
  | .writer, .elaborate => 10
  | .writer, .sink => 1
  | .reader, .source => 1
  | .reader, .elaborate => 4
  | .reader, .sink => 2

def Prog.change : Prog → Bytes → Bytes
  | .writer => toLower
  | .reader => toUpper

def threadCount (todo step max : Int) : Int :=
  let tmp := wrap (todo.tdiv step + 1)
  if tmp < max then tmp else max

def Prog.count (prog : Prog) (s : Pipe) (stage : Stage) : Int :=
  if s.loop then prog.max stage else threadCount s.todo (prog.step stage) (prog.max stage)

def Pipe.setSource (s : Pipe) (i : Nat) (pc : SourcePc) : Pipe := { s with sources := Function.update s.sources i pc }
def Pipe.setElaborator (s : Pipe) (i : Nat) (pc : ElaboratePc) : Pipe :=
  { s with elaborators := Function.update s.elaborators i pc }
def Pipe.setSink (s : Pipe) (i : Nat) (pc : SinkPc) : Pipe := { s with sinks := Function.update s.sinks i pc }
def Pipe.setMain (s : Pipe) (pc : MainPc) : Pipe := { s with main := pc }
def Pipe.setHand (s : Pipe) (t : Tid) (pc : Option HandPc) : Pipe := { s with hands := Function.update s.hands t pc }
def Pipe.setR (s : Pipe) (owner : Option Tid) : Pipe := { s with rmutex := owner }
def Pipe.setE (s : Pipe) (owner : Option Tid) : Pipe := { s with emutex := owner }

def Pipe.lockR (s : Pipe) (t : Tid) : Option Pipe := if s.rmutex.isNone then some (s.setR (some t)) else none
def Pipe.lockE (s : Pipe) (t : Tid) : Option Pipe := if s.emutex.isNone then some (s.setE (some t)) else none

def Pipe.signalR (s : Pipe) (wake : Nat) : Option Pipe :=
  (condSignal .wait .lock s.nela.toNat s.elaborators wake).map fun woken => { s with elaborators := woken }

def Pipe.signalE (s : Pipe) (wake : Nat) : Option Pipe :=
  (condSignal .wait .lock s.nsnk.toNat s.sinks wake).map fun woken => { s with sinks := woken }

-- tmp_todo = (loop) ? 1 : todo--
def Pipe.tmpTodo (s : Pipe) : Int := if s.loop then 1 else s.todo
def Pipe.drawn (s : Pipe) : Pipe := { s with todo := if s.loop then s.todo else s.todo - 1 }

def Pipe.putRaw (s : Pipe) (data : Bytes) : Pipe :=
  { s with rbuffer := wbufIns ⟨s.made, data⟩ s.rbuffer, made := s.made + 1 }

def Pipe.putElaborated (s : Pipe) (item : Item) : Pipe := { s with ebuffer := wbufIns item s.ebuffer }

def Pipe.endLoop (s : Pipe) : Pipe := { s with loop := false }

def sourceLoop (s : Pipe) (i : Nat) : SourcePc → Option (Pipe × List UserEvent)
  | .lock => (s.lockR (.source i)).map fun locked => (locked.setSource i .ticket, [])
  | .unlock stop => some ((s.setR none).setSource i (.sleep stop), [])
  | .sleep stop => some (s.setSource i (if stop then .exited else .lock), [])
  | _ => none

def createData (s : Pipe) (i : Nat) (choice : Choice) : Option (Pipe × List UserEvent) :=
  match s.sources i with
  | .ticket =>
      if s.tmpTodo ≤ 0 then some (s.drawn.setSource i (.unlock true), [])
      else
        let data := cstr (genData choice.rand)
        ((s.drawn.putRaw data).signalR choice.wake).map fun woken =>
          (woken.setSource i (.unlock false), [.put ⟨s.made, data⟩])
  | pc => sourceLoop s i pc

def readDev (s : Pipe) (i : Nat) (choice : Choice) : Option (Pipe × List UserEvent) :=
  match s.sources i with
  | .ticket =>
      if s.tmpTodo ≤ 0 then some (s.drawn.setSource i (.unlock true), [])
      else some (s.drawn.setSource i .read, [])
  | .took res tmp =>
      if res ≠ 0 then (s.signalR choice.wake).map fun woken => (woken.setSource i (.unlock false), [])
      else if cstr tmp = terminatorText then
        (s.endLoop.signalR choice.wake).map fun woken =>
          (woken.setSource i (.unlock true), [.terminator i])
      else
        ((s.putRaw (cstr tmp)).signalR choice.wake).map fun woken =>
          (woken.setSource i (.unlock false), [.put ⟨s.made, cstr tmp⟩])
  | pc => sourceLoop s i pc

def elaborateData (change : Bytes → Bytes) (s : Pipe) (i : Nat) (choice : Choice) : Option (Pipe × List UserEvent) :=
  match s.elaborators i with
  | .lock => (s.lockR (.elaborate i)).map fun locked => (locked.setElaborator i .test, [])
  | .test =>
      match wbufExt s.rbuffer with
      | none =>
          if s.rbuffer.done then some (s.setElaborator i .unlockStop, [])
          else some ((s.setR none).setElaborator i .wait, [])
      | some (item, rest) => some ({ s with rbuffer := rest }.setElaborator i (.unlockGot item), [.taken item])
  | .unlockGot item => some ((s.setR none).setElaborator i (.work item), [])
  | .work item => some (s.setElaborator i (.lockE { item with data := inPlace change item.data }), [])
  | .lockE item => (s.lockE (.elaborate i)).map fun locked => (locked.setElaborator i (.insert item), [])
  | .insert item =>
      ((s.putElaborated item).signalE choice.wake).map fun woken =>
        (woken.setElaborator i .unlockE, [.elaborated item])
  | .unlockE => some ((s.setE none).setElaborator i .lock, [])
  | .unlockStop => some ((s.setR none).setElaborator i .exited, [])
  | .off | .wait | .exited => none

def sinkLoop (s : Pipe) (i : Nat) : SinkPc → Option (Pipe × List UserEvent)
  | .lock => (s.lockE (.sink i)).map fun locked => (locked.setSink i .test, [])
  | .test =>
      match wbufExt s.ebuffer with
      | none =>
          if s.ebuffer.done then some (s.setSink i (.unlock true), [])
          else some ((s.setE none).setSink i .wait, [])
      | some (item, rest) => some ({ s with ebuffer := rest }.setSink i (.act item 0), [.picked item])
  | .unlock stop => some ((s.setE none).setSink i (.sleep stop), [])
  | .sleep stop => some (s.setSink i (if stop then .exited else .lock), [])
  | _ => none

-- The attempts themselves are calls of the device: see `request`.
def writeDev (s : Pipe) (i : Nat) : Option (Pipe × List UserEvent) :=
  match s.sinks i with
  | .act item failures => if failures < maxRetry then none else some (s.setSink i (.report item failures), [])
  | .report item failures => some (s.setSink i (.unlock false), [.settled item failures (failures == 5)])
  | pc => sinkLoop s i pc

def printData (s : Pipe) (i : Nat) : Option (Pipe × List UserEvent) :=
  match s.sinks i with
  | .act item _ => some (s.setSink i (.unlock false), [.printed item])
  | pc => sinkLoop s i pc

def Pipe.count (s : Pipe) : Stage → Nat
  | .source => s.nsrc.toNat
  | .elaborate => s.nela.toNat
  | .sink => s.nsnk.toNat

def Pipe.create (s : Pipe) (i : Nat) : Stage → Pipe
  | .source => s.setSource i .lock
  | .elaborate => s.setElaborator i .lock
  | .sink => s.setSink i .lock

def Pipe.hasExited (s : Pipe) (i : Nat) : Stage → Bool
  | .source => s.sources i = .exited
  | .elaborate => s.elaborators i = .exited
  | .sink => s.sinks i = .exited

def Stage.spawned : Stage → MainPc
  | .source => .spawn .elaborate 0
  | .elaborate => .spawn .sink 0
  | .sink => .join .source 0

def Stage.joined (prog : Prog) : Stage → MainPc
  | .source => .relLock .raw
  | .elaborate => .relLock .elaborated
  | .sink => match prog with
    | .writer => .done 0
    | .reader => .closeDev

def Pipe.release (s : Pipe) : Buf → Pipe
  | .raw => { s with rbuffer := s.rbuffer.close, elaborators := condBroadcast .wait .lock s.elaborators }
  | .elaborated => { s with ebuffer := s.ebuffer.close, sinks := condBroadcast .wait .lock s.sinks }

def Pipe.lock (s : Pipe) (t : Tid) : Buf → Option Pipe
  | .raw => s.lockR t
  | .elaborated => s.lockE t

def Pipe.unlock (s : Pipe) : Buf → Pipe
  | .raw => s.setR none
  | .elaborated => s.setE none

def Buf.released : Buf → MainPc
  | .raw => .join .elaborate 0
  | .elaborated => .join .sink 0

def mainStep (prog : Prog) (s : Pipe) : Option (Pipe × List UserEvent) :=
  match s.main with
  | .boot => some (s.setMain .ready, [])
  | .ready => some ({ s with control := 0 }.setMain .openDev, [])
  | .counts =>
      some ({ s with nsrc := prog.count s .source, nela := prog.count s .elaborate, nsnk := prog.count s .sink }.setMain .init, [])
  | .init =>
      some ({ s with rmutex := none, emutex := none, rbuffer := wbufInit, ebuffer := wbufInit }.setMain (.spawn .source 0), [])
  | .spawn stage i =>
      if i < s.count stage then some ((s.create i stage).setMain (.spawn stage (i + 1)), [])
      else some (s.setMain stage.spawned, [])
  | .join stage i =>
      if i < s.count stage then
        if s.hasExited i stage then some (s.setMain (.join stage (i + 1)), []) else none
      else some (s.setMain (stage.joined prog), [])
  | .relLock buf => (s.lock .main buf).map fun locked => (locked.setMain (.relSet buf), [])
  | .relSet buf => some ((s.release buf).setMain (.relUnlock buf), [])
  | .relUnlock buf => some ((s.unlock buf).setMain buf.released, [])
  -- The loop of dev_done tests i <= MAX_RETRY.
  | .done i => if i ≤ maxRetry then none else some (s.setMain (.doneCheck i), [])
  | .doneCheck i => some (s.setMain .closeDev, [.doneReturned (if i = maxRetry then 1 else 0)])
  | .openDev | .inOpen | .inDone _ | .closeDev | .inClose | .exited | .failed => none

def catcherSigint (s : Pipe) (t : Tid) : HandPc → Option (Pipe × List UserEvent)
  | .load => some (s.setHand t (some (.store s.control)), [])
  | .store value => some ({ s with control := value + 1 }.setHand t (some .check), [])
  | .check => some (s.setHand t (if 1 < s.control then none else some .lockR), [])
  | .lockR => (s.lockR t).map fun locked => (locked.setHand t (some .bodyR), [])
  | .bodyR => some ({ s with todo := 0, loop := false, rbuffer := s.rbuffer.drop }.setHand t (some .lockE), [])
  | .lockE => (s.lockE t).map fun locked => (locked.setHand t (some .unlockR), [])
  | .unlockR => some ((s.setR none).setHand t (some .bodyE), [])
  | .bodyE => some ({ s with ebuffer := s.ebuffer.drop }.setHand t (some .unlockE), [])
  | .unlockE => some ((s.setE none).setHand t none, [])

def threadStep (prog : Prog) (s : Pipe) (choice : Choice) : Tid → Option (Pipe × List UserEvent)
  | .main => mainStep prog s
  | .source i => match prog with
    | .writer => createData s i choice
    | .reader => readDev s i choice
  | .elaborate i => elaborateData prog.change s i choice
  | .sink i => match prog with
    | .writer => writeDev s i
    | .reader => printData s i

def goStep (prog : Prog) (s : Pipe) (t : Tid) (choice : Choice) : Option (Pipe × List UserEvent) :=
  match s.hands t with
  | some pc => catcherSigint s t pc
  | none => threadStep prog s choice t

def Pipe.request (prog : Prog) (s : Pipe) : Tid → Option (Op × Pipe)
  | .main => match s.main with
    | .openDev => some (.myOpen, s.setMain .inOpen)
    | .done i => if i ≤ maxRetry then some (.myWrite (terminatorText ++ [0]), s.setMain (.inDone i)) else none
    | .closeDev => some (.myClose, s.setMain .inClose)
    | _ => none
  | .source i => match prog, s.sources i with
    | .reader, .read => some (.myRead readByte, s.setSource i .inRead)
    | _, _ => none
  | .elaborate _ => none
  | .sink i => match prog, s.sinks i with
    | .writer, .act item failures =>
        if failures < maxRetry then some (.myWrite (item.data ++ [0]), s.setSink i (.inWrite item failures)) else none
    | _, _ => none

def userCall (prog : Prog) (s : Pipe) (t : Tid) : Option (Pipe × List UserEvent) :=
  match s.hands t with
  | some _ => none
  | none => (s.request prog t).map fun (_, next) => (next, [])

def userRet (s : Pipe) (t : Tid) (res : Int) (got : Bytes) : Option (Pipe × List UserEvent) :=
  match t with
  | .main => match s.main with
    | .inOpen => some (s.setMain (if res = 0 then .counts else .failed), [])
    | .inDone i => some (s.setMain (if res = 0 then .doneCheck i else .done (i + 1)), [])
    | .inClose => some (s.setMain .exited, [])
    | _ => none
  | .source i => match s.sources i with
    | .inRead => some (s.setSource i (.took res got), [.outcome res got])
    | _ => none
  | .elaborate _ => none
  | .sink i => match s.sinks i with
    | .inWrite item failures =>
        if res = 0 then some (s.setSink i (.report item failures), [.attempt item true])
        else some (s.setSink i (.act item (failures + 1)), [.attempt item false])
    | _ => none

def spuriousStep (s : Pipe) : Tid → Option (Pipe × List UserEvent)
  | .elaborate i => if s.elaborators i = .wait then some (s.setElaborator i .lock, []) else none
  | .sink i => if s.sinks i = .wait then some (s.setSink i .lock, []) else none
  | .main | .source _ => none

-- A thread that can be made to run the handler: it has been created, has not
-- exited and is not inside a device call, where a signal only stays pending.
def Pipe.interruptible (s : Pipe) : Tid → Bool
  | .main => match s.main with
    | .inOpen | .inDone _ | .inClose => false
    | _ => true
  | .source i => match s.sources i with
    | .off | .exited | .inRead => false
    | _ => true
  | .elaborate i => match s.elaborators i with
    | .off | .exited => false
    | _ => true
  | .sink i => match s.sinks i with
    | .off | .exited | .inWrite _ _ => false
    | _ => true

-- The handler is installed by main's first step and the process is alive.
def Pipe.catching (s : Pipe) : Bool :=
  match s.main with
  | .boot | .exited | .failed => false
  | _ => true

def sigintStep (s : Pipe) (t : Tid) : Option (Pipe × List UserEvent) :=
  if s.catching && s.interruptible t && (s.hands t).isNone then some (s.setHand t (some .load), []) else none

def pipeline (prog : Prog) : Machine Pipe UserAction UserEvent where
  step
    | s, .go t choice => goStep prog s t choice
    | s, .call t => userCall prog s t
    | s, .ret t res got => userRet s t res got
    | s, .spurious t => spuriousStep s t
    | s, .sigint t => sigintStep s t

def programStart (arg : Int) : Pipe where
  todo := arg
  loop := arg = 0
  control := 0
  rbuffer := wbufInit
  ebuffer := wbufInit
  rmutex := none
  emutex := none
  nsrc := 0
  nela := 0
  nsnk := 0
  main := .boot
  sources := fun _ => .off
  elaborators := fun _ => .off
  sinks := fun _ => .off
  hands := fun _ => none
  made := 0

end MyDev
