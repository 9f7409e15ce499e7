import MyDev.Library.Linked
import MyDev.Pipeline

set_option autoImplicit false

namespace MyDev

open Library

-- Where a consumer of one buffer is in its loop: elaborate_data for rbuffer,
-- write_dev or print_data for ebuffer.
inductive LoopPc where
  | outside
  | test
  | extract
  | stopped
deriving DecidableEq, Repr

-- A wbuf as buffer.c has it: wbe cells whose `data` points to a block of
-- characters. `callers` are the blocks the threads hold, which is what they pass
-- to wbuf_ins and get from wbuf_ext; `mutex` is the mutex of this buffer.
structure WbufHeap where
  mybuffer : Linked Nat
  done : Bool
  chars : Heap Bytes
  callers : List Nat
  mutex : Option Nat
  loops : Nat → LoopPc

def wbufHeapInit : WbufHeap := ⟨.empty, false, fun _ => none, [], none, fun _ => .outside⟩

-- The copy of the Writer ends the block it was given, the Reader's does not.
def wbufHeapIns (prog : Prog) (value node block : Nat) (old : Bytes) (s : WbufHeap) : Option WbufHeap :=
  (s.chars value).bind fun text =>
    (s.mybuffer.append node block).map fun mybuffer =>
      let chars := Function.update s.chars block (some (strcpy old text))
      match prog with
      | .writer => { s with mybuffer := mybuffer, chars := Function.update chars value none,
                            callers := s.callers.filter (· ≠ value) }
      | .reader => { s with mybuffer := mybuffer, chars := chars }

-- The Writer's copy frees the data of the cell, the Reader's leaves it behind.
def wbufHeapExt (prog : Prog) (ret : Nat) (old : Bytes) (s : WbufHeap) : Option (Bytes × WbufHeap) :=
  s.mybuffer.unlink.bind fun (block, mybuffer) =>
    (s.chars block).map fun text =>
      let chars := Function.update s.chars ret (some (strcpy old text))
      let freed := match prog with
        | .writer => Function.update chars block none
        | .reader => chars
      (cstr (strcpy old text), { s with mybuffer := mybuffer, chars := freed, callers := ret :: s.callers })

def wbufHeapCount (s : WbufHeap) : Int := s.mybuffer.count

-- catcher_SIGINT: `tail` is left as it was.
def wbufHeapReset (s : WbufHeap) : WbufHeap :=
  { s with mybuffer := { s.mybuffer with head := none, count := 0 }, done := true }

def wbufHeapRelease (s : WbufHeap) : WbufHeap := { s with done := true }

inductive WbufEvent where
  | inserted (text : Bytes)
  | extracted (text : Bytes)
  | reset
deriving DecidableEq, Repr

inductive WbufAction where
  | own (block : Nat) (text : Bytes)
  | ins (value node block : Nat) (old : Bytes)
  | lock (i : Nat)
  | test (i : Nat)
  | ext (i ret : Nat) (old : Bytes)
  | release
  | reset

def wbufHeapTest (s : WbufHeap) (i : Nat) : WbufHeap :=
  if s.mybuffer.head.isNone && !s.done then { s with mutex := none, loops := Function.update s.loops i .outside }
  else if s.done && s.mybuffer.head.isNone then { s with mutex := none, loops := Function.update s.loops i .stopped }
  else { s with loops := Function.update s.loops i .extract }

def WbufHeap.fresh (s : WbufHeap) (node block : Nat) : Bool := (s.mybuffer.cells node).isNone && (s.chars block).isNone

-- The producers, release_t and the handler work inside one critical section; a
-- consumer takes the mutex, tests, and extracts before it gives it back.
def wbufHeap (prog : Prog) : Machine WbufHeap WbufAction WbufEvent where
  step
    | s, .own block text =>
        if (s.chars block).isNone || s.callers.contains block then
          some ({ s with chars := Function.update s.chars block (some text), callers := block :: s.callers }, [])
        else none
    | s, .ins value node block old =>
        if s.mutex.isNone && s.callers.contains value && s.fresh node block then
          (wbufHeapIns prog value node block old s).map fun next => (next, [.inserted (cstr ((s.chars value).getD []))])
        else none
    | s, .lock i =>
        if s.mutex.isNone && s.loops i = .outside then
          some ({ s with mutex := some i, loops := Function.update s.loops i .test }, [])
        else none
    | s, .test i => if s.loops i = .test then some (wbufHeapTest s i, []) else none
    | s, .ext i ret old =>
        if s.loops i = .extract && (s.chars ret).isNone then
          (wbufHeapExt prog ret old s).map fun (text, next) =>
            ({ next with mutex := none, loops := Function.update s.loops i .outside }, [.extracted text])
        else none
    | s, .release => if s.mutex.isNone then some (wbufHeapRelease s, []) else none
    | s, .reset => if s.mutex.isNone then some (wbufHeapReset s, [.reset]) else none

-- The heap holds the buffer `w` in the cells of `chain`. Nothing is said about
-- `tail` while `head` is NULL.
structure WbufHeap.Holds (s : WbufHeap) (chain : List (Nat × Nat)) (w : Wbuf) : Prop where
  sound : s.mybuffer.Sound chain
  owns : Owns s.chars chain (w.items.map Item.data)
  done : s.done = w.done
  callers : ∀ block ∈ s.callers, block ∉ chain.map Prod.snd ∧ ∃ text, s.chars block = some text

-- A consumer that is past its tests still has the mutex, and head is not NULL.
structure WbufHeap.Guarded (s : WbufHeap) : Prop where
  testing : ∀ i, s.loops i = .test → s.mutex = some i
  extracting : ∀ i, s.loops i = .extract → s.mutex = some i ∧ s.mybuffer.head ≠ none

def WbufEvent.inserts : WbufEvent → List Bytes
  | .inserted text => [text]
  | _ => []

def WbufEvent.extracts : WbufEvent → List Bytes
  | .extracted text => [text]
  | _ => []

def sinceReset (events : List WbufEvent) : List WbufEvent :=
  events.foldl (fun since event => if event = .reset then [] else since ++ [event]) []

theorem wbuf_init_holds : wbufHeapInit.Holds [] wbufInit :=
  ⟨sound_empty, owns_nil _, rfl, fun _ member => absurd member List.not_mem_nil⟩

def Untouched (s next : WbufHeap) (chain later : List (Nat × Nat)) : Prop :=
  ∀ node cell, s.mybuffer.cells node = some cell → node ∉ addresses chain →
    next.mybuffer.cells node = some cell ∧ node ∉ addresses later

theorem untouched_same (s next : WbufHeap) (chain : List (Nat × Nat)) (same : next.mybuffer.cells = s.mybuffer.cells) :
    Untouched s next chain chain := by
  intro node cell live outside
  exact ⟨by rw [same]; exact live, outside⟩

theorem callers_append (s : WbufHeap) (chain : List (Nat × Nat)) (w : Wbuf) (node block : Nat) (bytes : Bytes)
    (holds : s.Holds chain w) (fresh : s.chars block = none) (held : Nat) (member : held ∈ s.callers) :
    held ∉ (chain ++ [(node, block)]).map Prod.snd ∧
      ∃ text, Function.update s.chars block (some bytes) held = some text := by
  obtain ⟨outside, text, live⟩ := holds.callers held member
  have different : held ≠ block := by
    rintro rfl
    simp [fresh] at live
  refine ⟨?_, text, by rw [Function.update_of_ne different]; exact live⟩
  simp only [List.map_append, List.mem_append, not_or]
  exact ⟨outside, by simpa using different⟩

theorem wbuf_ins_holds (prog : Prog) (s : WbufHeap) (chain : List (Nat × Nat)) (w : Wbuf) (value node block id : Nat)
    (old : Bytes) (holds : s.Holds chain w) (held : value ∈ s.callers) (fresh : s.fresh node block = true) :
    ∃ text next, s.chars value = some text ∧ wbufHeapIns prog value node block old s = some next ∧
      next.Holds (chain ++ [(node, block)]) (wbufIns ⟨id, cstr text⟩ w) ∧ next.mutex = s.mutex ∧ next.loops = s.loops ∧
      Untouched s next chain (chain ++ [(node, block)]) := by
  simp only [WbufHeap.fresh, Bool.and_eq_true, Option.isNone_iff_eq_none] at fresh
  obtain ⟨outside, text, live⟩ := holds.callers value held
  obtain ⟨mybuffer, appended, sound, _, frame⟩ := append_sound s.mybuffer chain node block holds.sound fresh.1
  have owns := owns_append s.chars chain _ node block (strcpy old text) holds.owns fresh.2
  have callers := callers_append s chain w node block (strcpy old text) holds fresh.2
  have untouched : ∀ other cell, s.mybuffer.cells other = some cell → other ∉ addresses chain →
      mybuffer.cells other = some cell ∧ other ∉ addresses (chain ++ [(node, block)]) := by
    intro other cell read apart
    have different : other ≠ node := by
      rintro rfl
      simp [fresh.1] at read
    refine ⟨(frame other different apart).trans read, ?_⟩
    simp only [addresses_append, List.mem_append, not_or]
    exact ⟨apart, by simpa using different⟩
  rw [cstr_strcpy] at owns
  refine ⟨text, _, live, by rw [wbufHeapIns, live, appended]; rfl, ?_⟩
  cases prog with
  | reader =>
      exact ⟨⟨sound, by simpa using owns, holds.done, callers⟩, rfl, rfl, untouched⟩
  | writer =>
      have apart := (callers value held).1
      refine ⟨⟨sound, owns_write _ _ _ value none (by simpa using owns) apart, holds.done, ?_⟩, rfl, rfl, untouched⟩
      intro other member
      obtain ⟨inside, different⟩ := List.mem_filter.mp member
      obtain ⟨clear, bytes, read⟩ := callers other inside
      exact ⟨clear, bytes, (Function.update_of_ne (by simpa using different) ..).trans read⟩

theorem callers_extract (s : WbufHeap) (node block ret : Nat) (others : List (Nat × Nat)) (w : Wbuf) (bytes : Bytes)
    (holds : s.Holds ((node, block) :: others) w) (fresh : s.chars ret = none) (live : ∃ text, s.chars block = some text)
    (held : Nat) (member : held ∈ ret :: s.callers) :
    held ∉ others.map Prod.snd ∧ held ≠ block ∧ ∃ text, Function.update s.chars ret (some bytes) held = some text := by
  obtain ⟨text, live⟩ := live
  rcases List.mem_cons.mp member with rfl | inside
  · refine ⟨fun again => owns_fresh _ _ _ held holds.owns fresh (List.mem_cons_of_mem _ again), ?_, bytes, Function.update_self ..⟩
    rintro rfl
    simp [fresh] at live
  · obtain ⟨outside, mine, read⟩ := holds.callers held inside
    simp only [List.map_cons, List.mem_cons, not_or] at outside
    have different : held ≠ ret := by
      rintro rfl
      simp [fresh] at read
    exact ⟨outside.2, outside.1, mine, (Function.update_of_ne different ..).trans read⟩

theorem wbuf_ext_holds (prog : Prog) (s : WbufHeap) (chain : List (Nat × Nat)) (w rest : Wbuf) (item : Item) (ret : Nat)
    (old : Bytes) (holds : s.Holds chain w) (found : wbufExt w = some (item, rest)) (fresh : s.chars ret = none) :
    ∃ next, wbufHeapExt prog ret old s = some (item.data, next) ∧ next.Holds chain.tail rest ∧
      Untouched s next chain chain.tail := by
  obtain ⟨items, done⟩ := wbuf_ext_some w rest item found
  have same := owns_length _ _ _ holds.owns
  cases chain with
  | nil => simp [items] at same
  | cons first others =>
      obtain ⟨node, block⟩ := first
      obtain ⟨mybuffer, unlinked, sound, cells, _⟩ := unlink_sound s.mybuffer node block others holds.sound
      obtain ⟨bytes, texts, queue, live, owns, outside⟩ := owns_first s.chars node block others _ holds.owns
      rw [items, List.map_cons, List.cons.injEq] at queue
      obtain ⟨text, rfl⟩ := queue
      have callers := callers_extract s node block ret others w (strcpy old bytes) holds fresh ⟨bytes, live⟩
      have apart := (callers ret (List.mem_cons_self ..)).1
      have kept := owns_write s.chars others _ ret (some (strcpy old bytes)) owns apart
      have untouched : ∀ other cell, s.mybuffer.cells other = some cell → other ∉ addresses ((node, block) :: others) →
          mybuffer.cells other = some cell ∧ other ∉ addresses others := by
        intro other cell read clear
        simp only [addresses_cons, List.mem_cons, not_or] at clear
        exact ⟨by rw [cells, Function.update_of_ne clear.1]; exact read, clear.2⟩
      cases prog with
      | reader =>
          refine ⟨{ s with mybuffer := mybuffer, callers := ret :: s.callers,
                           chars := Function.update s.chars ret (some (strcpy old bytes)) }, ?_, ?_, untouched⟩
          · simp [wbufHeapExt, unlinked, live, text, cstr_strcpy]
          refine ⟨sound, kept, holds.done.trans done.symm, fun held member => ?_⟩
          obtain ⟨clear, _, read⟩ := callers held member
          exact ⟨clear, read⟩
      | writer =>
          refine ⟨{ s with mybuffer := mybuffer, callers := ret :: s.callers,
                           chars := Function.update (Function.update s.chars ret (some (strcpy old bytes))) block none },
            ?_, ?_, untouched⟩
          · simp [wbufHeapExt, unlinked, live, text, cstr_strcpy]
          refine ⟨sound, owns_write _ _ _ block none kept outside, holds.done.trans done.symm, fun held member => ?_⟩
          obtain ⟨clear, different, mine, read⟩ := callers held member
          exact ⟨clear, mine, (Function.update_of_ne different ..).trans read⟩

theorem wbuf_own_holds (s : WbufHeap) (chain : List (Nat × Nat)) (w : Wbuf) (block : Nat) (text : Bytes)
    (holds : s.Holds chain w) (free : s.chars block = none ∨ block ∈ s.callers) :
    WbufHeap.Holds { s with chars := Function.update s.chars block (some text), callers := block :: s.callers } chain w := by
  have outside : block ∉ chain.map Prod.snd := by
    rcases free with fresh | held
    · exact owns_fresh _ _ _ block holds.owns fresh
    · exact (holds.callers block held).1
  refine ⟨holds.sound, owns_write _ _ _ block (some text) holds.owns outside, holds.done, fun held member => ?_⟩
  by_cases same : held = block
  · subst same
    exact ⟨outside, text, Function.update_self ..⟩
  · obtain ⟨clear, mine, read⟩ := holds.callers held ((List.mem_cons.mp member).resolve_left same)
    exact ⟨clear, mine, (Function.update_of_ne same ..).trans read⟩

theorem wbuf_reset_holds (s : WbufHeap) (chain : List (Nat × Nat)) (w : Wbuf) (holds : s.Holds chain w) :
    (wbufHeapReset s).Holds [] w.drop ∧ Untouched s (wbufHeapReset s) chain [] := by
  refine ⟨⟨⟨.nil, rfl, fun some => absurd rfl some⟩, owns_nil _, rfl, fun held member => ?_⟩, fun node cell live _ => ?_⟩
  · exact ⟨List.not_mem_nil, (holds.callers held member).2⟩
  · exact ⟨live, List.not_mem_nil⟩

theorem wbuf_test_same (s : WbufHeap) (i : Nat) :
    (wbufHeapTest s i).mybuffer = s.mybuffer ∧ (wbufHeapTest s i).done = s.done ∧ (wbufHeapTest s i).chars = s.chars ∧
      (wbufHeapTest s i).callers = s.callers := by
  simp only [wbufHeapTest]
  split
  · exact ⟨rfl, rfl, rfl, rfl⟩
  · split <;> exact ⟨rfl, rfl, rfl, rfl⟩

theorem guarded_init : wbufHeapInit.Guarded := ⟨fun _ point => (by cases point), fun _ point => (by cases point)⟩

theorem guarded_others (s : WbufHeap) (i j : Nat) (guarded : s.Guarded) (owner : s.mutex = some i) (different : j ≠ i) :
    s.loops j ≠ .test ∧ s.loops j ≠ .extract := by
  refine ⟨fun point => different ?_, fun point => different ?_⟩
  · exact Option.some.inj ((guarded.testing j point).symm.trans owner)
  · exact Option.some.inj ((guarded.extracting j point).1.symm.trans owner)

theorem guarded_free (s : WbufHeap) (j : Nat) (guarded : s.Guarded) (free : s.mutex = none) :
    s.loops j ≠ .test ∧ s.loops j ≠ .extract := by
  refine ⟨fun point => ?_, fun point => ?_⟩
  · have owner := guarded.testing j point
    simp [free] at owner
  · have owner := (guarded.extracting j point).1
    simp [free] at owner

theorem guarded_update (next : WbufHeap) (loops : Nat → LoopPc) (i : Nat) (pc : LoopPc)
    (others : ∀ j, j ≠ i → loops j ≠ .test ∧ loops j ≠ .extract) (moved : next.loops = Function.update loops i pc)
    (testing : pc = .test → next.mutex = some i)
    (extracting : pc = .extract → next.mutex = some i ∧ next.mybuffer.head ≠ none) : next.Guarded := by
  refine ⟨fun j point => ?_, fun j point => ?_⟩
  · rw [moved] at point
    by_cases same : j = i
    · subst same
      exact testing ((Function.update_self ..).symm.trans point)
    · exact absurd ((Function.update_of_ne same ..).symm.trans point) (others j same).1
  · rw [moved] at point
    by_cases same : j = i
    · subst same
      exact extracting ((Function.update_self ..).symm.trans point)
    · exact absurd ((Function.update_of_ne same ..).symm.trans point) (others j same).2

theorem guarded_idle (s next : WbufHeap) (guarded : s.Guarded) (free : s.mutex = none) (loops : next.loops = s.loops) :
    next.Guarded := by
  refine ⟨fun j point => ?_, fun j point => ?_⟩
  · exact absurd (loops ▸ point) (guarded_free s j guarded free).1
  · exact absurd (loops ▸ point) (guarded_free s j guarded free).2

theorem wbuf_test_guarded (s : WbufHeap) (i : Nat) (guarded : s.Guarded) (point : s.loops i = .test) :
    (wbufHeapTest s i).Guarded := by
  have owner := guarded.testing i point
  have others := fun j => guarded_others s i j guarded owner
  simp only [wbufHeapTest]
  split
  · exact guarded_update _ s.loops i .outside others rfl (fun same => by cases same) (fun same => by cases same)
  · rename_i waitless
    split
    · exact guarded_update _ s.loops i .stopped others rfl (fun same => by cases same) (fun same => by cases same)
    · rename_i nonstop
      have found : s.mybuffer.head ≠ none := by
        intro null
        cases finished : s.done <;> simp [null, finished] at waitless nonstop
      exact guarded_update _ s.loops i .extract others rfl (fun same => by cases same) (fun _ => ⟨owner, found⟩)

def QueueMove (w after : Wbuf) (out : List WbufEvent) : Prop :=
  out = [.reset] ∧ after.items = [] ∨
    .reset ∉ out ∧ w.items.map Item.data ++ out.flatMap WbufEvent.inserts =
      out.flatMap WbufEvent.extracts ++ after.items.map Item.data

theorem queue_still (w : Wbuf) : QueueMove w w [] := .inr ⟨List.not_mem_nil, by simp⟩

theorem holds_head_iff (s : WbufHeap) (chain : List (Nat × Nat)) (w : Wbuf) (holds : s.Holds chain w) :
    s.mybuffer.head = none ↔ w.items = [] := by
  have same := owns_length _ _ _ holds.owns
  rw [chain_head _ _ _ holds.sound.follows, List.head?_eq_none_iff, ← List.length_eq_zero_iff, ← List.length_eq_zero_iff]
  simp only [addresses, List.length_map] at same ⊢
  rw [same]

theorem wbuf_heap_step (prog : Prog) (s next : WbufHeap) (chain : List (Nat × Nat)) (w : Wbuf) (action : WbufAction)
    (out : List WbufEvent) (holds : s.Holds chain w) (guarded : s.Guarded)
    (stepped : (wbufHeap prog).step s action = some (next, out)) :
    next.Guarded ∧ ∃ chain' w', next.Holds chain' w' ∧ Untouched s next chain chain' ∧ QueueMove w w' out := by
  cases action with
  | own block text =>
      simp only [wbufHeap] at stepped
      split at stepped
      · rename_i free
        cases stepped
        have mine : s.chars block = none ∨ block ∈ s.callers := by simpa using free
        exact ⟨⟨guarded.testing, guarded.extracting⟩, chain, w, wbuf_own_holds s chain w block text holds mine,
          untouched_same s _ chain rfl, queue_still w⟩
      · cases stepped
  | ins value node block old =>
      simp only [wbufHeap] at stepped
      split at stepped
      · rename_i allowed
        simp only [Bool.and_eq_true, Option.isNone_iff_eq_none, List.contains_iff_mem] at allowed
        obtain ⟨⟨free, held⟩, fresh⟩ := allowed
        obtain ⟨text, inserted, read, made, after, mutex, loops, untouched⟩ :=
          wbuf_ins_holds prog s chain w value node block 0 old holds held fresh
        rw [made, read] at stepped
        cases stepped
        refine ⟨guarded_idle s _ guarded free loops, _, _, after, untouched, .inr ⟨by simp, ?_⟩⟩
        simp [WbufEvent.inserts, WbufEvent.extracts]
      · cases stepped
  | lock i =>
      simp only [wbufHeap] at stepped
      split at stepped
      · rename_i allowed
        simp only [Bool.and_eq_true, Option.isNone_iff_eq_none] at allowed
        cases stepped
        refine ⟨?_, chain, w, ⟨holds.sound, holds.owns, holds.done, holds.callers⟩, untouched_same s _ chain rfl, queue_still w⟩
        exact guarded_update _ s.loops i .test (fun j _ => guarded_free s j guarded allowed.1) rfl (fun _ => rfl)
          (fun same => by cases same)
      · cases stepped
  | test i =>
      simp only [wbufHeap] at stepped
      split at stepped
      · rename_i point
        cases stepped
        obtain ⟨mybuffer, done, chars, callers⟩ := wbuf_test_same s i
        refine ⟨wbuf_test_guarded s i guarded point, chain, w, ⟨?_, ?_, ?_, ?_⟩, untouched_same s _ chain ?_, queue_still w⟩
        · rw [mybuffer]; exact holds.sound
        · rw [chars]; exact holds.owns
        · rw [done]; exact holds.done
        · rw [callers, chars]; exact holds.callers
        · rw [mybuffer]
      · cases stepped
  | ext i ret old =>
      simp only [wbufHeap] at stepped
      split at stepped
      · rename_i allowed
        simp only [Bool.and_eq_true, Option.isNone_iff_eq_none, decide_eq_true_eq] at allowed
        obtain ⟨owner, found⟩ := guarded.extracting i allowed.1
        cases taken : wbufExt w with
        | none => exact absurd ((holds_head_iff s chain w holds).mpr (wbuf_ext_none w taken)) found
        | some result =>
            obtain ⟨item, rest⟩ := result
            obtain ⟨extracted, made, after, untouched⟩ := wbuf_ext_holds prog s chain w rest item ret old holds taken allowed.2
            rw [made] at stepped
            cases stepped
            refine ⟨?_, _, rest, ⟨after.sound, after.owns, after.done, after.callers⟩, untouched, .inr ⟨by simp, ?_⟩⟩
            · exact guarded_update _ s.loops i .outside (fun j => guarded_others s i j guarded owner) rfl
                (fun same => by cases same) (fun same => by cases same)
            · simp [WbufEvent.inserts, WbufEvent.extracts, (wbuf_ext_some w rest item taken).1]
      · cases stepped
  | release =>
      simp only [wbufHeap] at stepped
      split at stepped
      · rename_i free
        cases stepped
        refine ⟨guarded_idle s _ guarded (by simpa using free) rfl, chain, w.close,
          ⟨holds.sound, holds.owns, rfl, holds.callers⟩, untouched_same s _ chain rfl, ?_⟩
        exact queue_still w
      · cases stepped
  | reset =>
      simp only [wbufHeap] at stepped
      split at stepped
      · rename_i free
        cases stepped
        obtain ⟨after, untouched⟩ := wbuf_reset_holds s chain w holds
        exact ⟨guarded_idle s _ guarded (by simpa using free) rfl, [], w.drop, after, untouched, .inl ⟨rfl, rfl⟩⟩
      · cases stepped

theorem since_reset_append (events out : List WbufEvent) (quiet : .reset ∉ out) :
    sinceReset (events ++ out) = sinceReset events ++ out := by
  induction out generalizing events with
  | nil => simp
  | cons event rest ih =>
      simp only [List.mem_cons, not_or] at quiet
      have one : sinceReset (events ++ [event]) = sinceReset events ++ [event] := by
        simp [sinceReset, Ne.symm quiet.1]
      rw [List.append_cons, ih (events ++ [event]) quiet.2, one, List.append_assoc, List.singleton_append]

theorem since_reset_reset (events : List WbufEvent) : sinceReset (events ++ [WbufEvent.reset]) = [] := by
  simp [sinceReset]

theorem wbuf_heap_run {prog : Prog} {events : List WbufEvent} {s : WbufHeap}
    (run : Run (wbufHeap prog) Any wbufHeapInit events s) :
    s.Guarded ∧ ∃ chain w, s.Holds chain w ∧ (sinceReset events).flatMap WbufEvent.inserts =
      (sinceReset events).flatMap WbufEvent.extracts ++ w.items.map Item.data := by
  induction run with
  | nil => exact ⟨guarded_init, [], wbufInit, wbuf_init_holds, rfl⟩
  | snoc action before allowed stepped ih =>
      obtain ⟨guarded, chain, w, holds, law⟩ := ih
      obtain ⟨after, chain', w', holds', _, moved⟩ := wbuf_heap_step prog _ _ chain w action _ holds guarded stepped
      refine ⟨after, chain', w', holds', ?_⟩
      rcases moved with ⟨rfl, empty⟩ | ⟨quiet, order⟩
      · rw [since_reset_reset, empty]
        rfl
      · rw [since_reset_append _ _ quiet, List.flatMap_append, List.flatMap_append, law, List.append_assoc, order,
          List.append_assoc]

theorem untouched_run {prog : Prog} {start after : WbufHeap} {later : List WbufEvent} (chain : List (Nat × Nat)) (w : Wbuf)
    (node : Nat) (cell : Cell Nat) (holds : start.Holds chain w) (guarded : start.Guarded)
    (live : start.mybuffer.cells node = some cell) (outside : node ∉ addresses chain)
    (run : Run (wbufHeap prog) Any start later after) :
    after.Guarded ∧ ∃ current w', after.Holds current w' ∧ after.mybuffer.cells node = some cell ∧ node ∉ addresses current := by
  induction run with
  | nil => exact ⟨guarded, chain, w, holds, live, outside⟩
  | snoc action before allowed stepped ih =>
      obtain ⟨guarded, current, w', holds, live, outside⟩ := ih
      obtain ⟨after, chain', w'', holds', untouched, _⟩ := wbuf_heap_step prog _ _ current w' action _ holds guarded stepped
      obtain ⟨still, clear⟩ := untouched node cell live outside
      exact ⟨after, chain', w'', holds', still, clear⟩

theorem wbuf_survives_reset (prog : Prog) :
    (∀ events s, Run (wbufHeap prog) Any wbufHeapInit events s →
      ∃ chain w, s.Holds chain w ∧ Chain s.mybuffer.cells s.mybuffer.head chain ∧ (addresses chain).Nodup ∧
        (∀ node ∈ addresses chain, ∃ cell, s.mybuffer.cells node = some cell) ∧ wbufHeapCount s = chain.length ∧
        (s.mybuffer.head ≠ none → s.mybuffer.tail = (addresses chain).getLast?) ∧
        (sinceReset events).flatMap WbufEvent.extracts <+: (sinceReset events).flatMap WbufEvent.inserts ∧
        (∀ i, s.loops i = .extract → s.mybuffer.head ≠ none ∧
          ∀ ret old, s.chars ret = none → (wbufHeapExt prog ret old s).isSome = true) ∧
        (∀ value node block old, value ∈ s.callers → s.fresh node block = true →
          (wbufHeapIns prog value node block old s).isSome = true)) ∧
    (∀ before s chain reset out later after, Run (wbufHeap prog) Any wbufHeapInit before s →
      Chain s.mybuffer.cells s.mybuffer.head chain → (wbufHeap prog).step s .reset = some (reset, out) →
      Run (wbufHeap prog) Any reset later after → ∀ node ∈ addresses chain,
        after.mybuffer.cells node = s.mybuffer.cells node ∧
        ∀ current, Chain after.mybuffer.cells after.mybuffer.head current → node ∉ addresses current) := by
  constructor
  · intro events s run
    obtain ⟨guarded, chain, w, holds, law⟩ := wbuf_heap_run run
    have follows := holds.sound.follows
    refine ⟨chain, w, holds, follows, chain_nodup _ _ _ follows, chain_live _ _ _ follows, holds.sound.counted,
      holds.sound.final, ⟨_, law.symm⟩, ?_, ?_⟩
    · intro i point
      have found := (guarded.extracting i point).2
      refine ⟨found, fun ret old fresh => ?_⟩
      cases taken : wbufExt w with
      | none => exact absurd ((holds_head_iff s chain w holds).mpr (wbuf_ext_none w taken)) found
      | some result =>
          obtain ⟨item, rest⟩ := result
          obtain ⟨next, made, _⟩ := wbuf_ext_holds prog s chain w rest item ret old holds taken fresh
          rw [made]
          rfl
    · intro value node block old held fresh
      obtain ⟨_, next, _, made, _⟩ := wbuf_ins_holds prog s chain w value node block 0 old holds held fresh
      rw [made]
      rfl
  · intro before s chain reset out later after run follows stepped continued node member
    obtain ⟨guarded, held, w, holds, _⟩ := wbuf_heap_run run
    obtain rfl := chain_unique _ _ _ _ follows holds.sound.follows
    obtain ⟨cell, live⟩ := chain_live _ _ _ follows node member
    have released := wbuf_reset_holds s chain w holds
    simp only [wbufHeap] at stepped
    split at stepped
    · rename_i free
      cases stepped
      have idle := guarded_idle s (wbufHeapReset s) guarded (by simpa using free) rfl
      obtain ⟨_, current, w', after, still, outside⟩ :=
        untouched_run [] w.drop node cell released.1 idle live List.not_mem_nil continued
      refine ⟨still.trans live.symm, fun other along => ?_⟩
      rw [chain_unique _ _ _ _ along after.sound.follows]
      exact outside
    · cases stepped

-- Two strings, the reset, one more string through the stale tail, one consumer.
def resetSchedule : List WbufAction :=
  [.own 0 [97, 0], .ins 0 0 1 [], .own 2 [98, 0], .ins 2 1 3 [], .reset, .own 4 [99, 0], .ins 4 2 5 [], .lock 0, .test 0]

theorem wbuf_survives_reset_scheduled :
    ∃ events s, Run (wbufHeap .writer) Any wbufHeapInit events s ∧
      events = [.inserted [97], .inserted [98], .reset, .inserted [99]] ∧ s.loops 0 = .extract ∧ s.mybuffer.tail = some 2 ∧
      s.mybuffer.head ≠ none ∧ ∃ chain w, s.Holds chain w ∧ chain.length = 1 := by
  obtain ⟨events, s, run, seen⟩ := exec_reaches_any (wbufHeap .writer) wbufHeapInit
    resetSchedule (fun s events => events = [.inserted [97], .inserted [98], .reset, .inserted [99]] && s.loops 0 = .extract &&
      s.mybuffer.tail = some 2 && wbufHeapCount s = 1) (by decide +kernel)
  simp only [Bool.and_eq_true, decide_eq_true_eq] at seen
  obtain ⟨⟨⟨trace, point⟩, tail⟩, count⟩ := seen
  obtain ⟨chain, w, holds, _, _, _, counted, _, _, guard, _⟩ := (wbuf_survives_reset .writer).1 events s run
  exact ⟨events, s, run, trace, point, tail, (guard 0 point).1, chain, w, holds, by omega⟩

end MyDev
