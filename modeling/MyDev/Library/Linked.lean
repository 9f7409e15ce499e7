import Mathlib.Data.List.Nodup
import Mathlib.Logic.Function.Basic
import MyDev.Library.CString

set_option autoImplicit false

namespace Library

-- A live address of a heap holds a value; an address that was never allocated
-- or has been freed holds none.
abbrev Heap (γ : Type) := Nat → Option γ

structure Cell (β : Type) where
  data : β
  next : Option Nat

section Linked

variable {β : Type}

-- The cells met by following `next` from a pointer until NULL, each with what
-- it carries. All of them are live.
inductive Chain (cells : Heap (Cell β)) : Option Nat → List (Nat × β) → Prop where
  | nil : Chain cells none []
  | cons {node : Nat} {cell : Cell β} {rest : List (Nat × β)} (live : cells node = some cell)
      (onward : Chain cells cell.next rest) : Chain cells (some node) ((node, cell.data) :: rest)

def addresses (chain : List (Nat × β)) : List Nat := chain.map Prod.fst

@[simp] theorem addresses_nil : addresses ([] : List (Nat × β)) = [] := rfl

@[simp] theorem addresses_cons (cell : Nat × β) (rest : List (Nat × β)) :
    addresses (cell :: rest) = cell.1 :: addresses rest := rfl

@[simp] theorem addresses_append (chain more : List (Nat × β)) :
    addresses (chain ++ more) = addresses chain ++ addresses more := List.map_append

theorem chain_unique (cells : Heap (Cell β)) (link : Option Nat) (chain other : List (Nat × β))
    (follows : Chain cells link chain) (also : Chain cells link other) : chain = other := by
  induction follows generalizing other with
  | nil => cases also; rfl
  | cons live onward ih =>
      cases also with
      | cons read rest =>
          cases live.symm.trans read
          rw [ih _ rest]

theorem chain_head (cells : Heap (Cell β)) (link : Option Nat) (chain : List (Nat × β)) (follows : Chain cells link chain) :
    link = (addresses chain).head? := by
  cases follows <;> rfl

theorem chain_member (cells : Heap (Cell β)) (link : Option Nat) (chain : List (Nat × β)) (follows : Chain cells link chain)
    (pair : Nat × β) (member : pair ∈ chain) : ∃ cell, cells pair.1 = some cell ∧ cell.data = pair.2 := by
  induction follows with
  | nil => simp at member
  | cons live onward ih =>
      rcases List.mem_cons.mp member with rfl | later
      · exact ⟨_, live, rfl⟩
      · exact ih later

theorem chain_live (cells : Heap (Cell β)) (link : Option Nat) (chain : List (Nat × β)) (follows : Chain cells link chain)
    (node : Nat) (member : node ∈ addresses chain) : ∃ cell, cells node = some cell := by
  obtain ⟨pair, inside, rfl⟩ := List.mem_map.mp member
  obtain ⟨cell, live, _⟩ := chain_member cells link chain follows pair inside
  exact ⟨cell, live⟩

theorem chain_from (cells : Heap (Cell β)) (link : Option Nat) (chain : List (Nat × β)) (follows : Chain cells link chain)
    (node : Nat) (member : node ∈ addresses chain) :
    ∃ rest, Chain cells (some node) rest ∧ rest.length ≤ chain.length := by
  induction follows with
  | nil => simp at member
  | cons live onward ih =>
      rcases List.mem_cons.mp member with rfl | later
      · exact ⟨_, .cons live onward, Nat.le_refl _⟩
      · obtain ⟨rest, follows, shorter⟩ := ih later
        exact ⟨rest, follows, Nat.le_succ_of_le shorter⟩

-- A chain that ends cannot come back to a cell: from there it would have two
-- lengths.
theorem chain_nodup (cells : Heap (Cell β)) (link : Option Nat) (chain : List (Nat × β)) (follows : Chain cells link chain) :
    (addresses chain).Nodup := by
  induction follows with
  | nil => exact List.nodup_nil
  | @cons node cell rest live onward ih =>
      refine List.nodup_cons.mpr ⟨fun again => ?_, ih⟩
      obtain ⟨other, back, shorter⟩ := chain_from cells cell.next rest onward node again
      have same := chain_unique cells (some node) _ _ back (.cons live onward)
      rw [same, List.length_cons] at shorter
      omega

theorem chain_frame (cells changed : Heap (Cell β)) (link : Option Nat) (chain : List (Nat × β))
    (follows : Chain cells link chain) (kept : ∀ node ∈ addresses chain, changed node = cells node) :
    Chain changed link chain := by
  induction follows with
  | nil => exact .nil
  | cons live onward ih =>
      exact .cons ((kept _ (by simp)).trans live) (ih fun node member => kept node (by simp [member]))

theorem chain_write (cells : Heap (Cell β)) (link : Option Nat) (chain : List (Nat × β)) (node : Nat)
    (value : Option (Cell β)) (follows : Chain cells link chain) (outside : node ∉ addresses chain) :
    Chain (Function.update cells node value) link chain := by
  refine chain_frame cells _ link chain follows fun other member => Function.update_of_ne ?_ ..
  rintro rfl
  exact outside member

theorem chain_extend (cells : Heap (Cell β)) (link : Option Nat) (chain : List (Nat × β)) (last node : Nat) (cell : Cell β)
    (data : β) (follows : Chain cells link chain) (final : (addresses chain).getLast? = some last) (live : cells last = some cell)
    (fresh : cells node = some ⟨data, none⟩) (outside : node ∉ addresses chain) :
    Chain (Function.update cells last (some { cell with next := some node })) link (chain ++ [(node, data)]) := by
  induction follows with
  | nil => simp at final
  | @cons first head rest read onward ih =>
      have apart := chain_nodup cells (some first) _ (.cons read onward)
      cases rest with
      | nil =>
          simp only [addresses_cons, addresses_nil, List.getLast?_singleton, Option.some.injEq] at final
          subst final
          cases live.symm.trans read
          have different : node ≠ first := fun same => outside (by simp [same])
          have linked : Function.update cells first (some { cell with next := some node }) node = some ⟨data, none⟩ := by
            rw [Function.update_of_ne different, fresh]
          exact @Chain.cons β _ first { cell with next := some node } _ (Function.update_self ..) (.cons linked .nil)
      | cons second others =>
          simp only [addresses_cons, List.getLast?_cons_cons] at final
          have elsewhere : first ≠ last := by
            rintro rfl
            exact (List.nodup_cons.mp apart).1 (List.mem_of_getLast? final)
          refine .cons ((Function.update_of_ne elsewhere ..).trans read) (ih final fun member => outside ?_)
          exact List.mem_cons_of_mem _ member

structure Linked (β : Type) where
  cells : Heap (Cell β)
  head : Option Nat
  tail : Option Nat
  count : Int

def Linked.empty : Linked β := ⟨fun _ => none, none, none, 0⟩

-- A new cell goes behind the one `tail` points to, unless there is no first
-- one. Following a null or dangling `tail` is a fault.
def Linked.append (list : Linked β) (node : Nat) (data : β) : Option (Linked β) :=
  let cells := Function.update list.cells node (some ⟨data, none⟩)
  match list.head, list.tail with
  | none, _ => some ⟨cells, some node, some node, list.count + 1⟩
  | some _, none => none
  | some first, some last =>
      (cells last).map fun cell =>
        ⟨Function.update cells last (some { cell with next := some node }), some first, some node, list.count + 1⟩

def Linked.unlink (list : Linked β) : Option (β × Linked β) :=
  match list.head with
  | none => none
  | some node =>
      (list.cells node).map fun cell =>
        (cell.data, ⟨Function.update list.cells node none, cell.next, if cell.next.isNone then none else list.tail,
          list.count - 1⟩)

-- `tail` means nothing while `head` is NULL.
structure Linked.Sound (list : Linked β) (chain : List (Nat × β)) : Prop where
  follows : Chain list.cells list.head chain
  counted : list.count = chain.length
  final : list.head ≠ none → list.tail = (addresses chain).getLast?

theorem sound_empty : (Linked.empty : Linked β).Sound [] := ⟨.nil, rfl, fun some => absurd rfl some⟩

theorem append_sound (list : Linked β) (chain : List (Nat × β)) (node : Nat) (data : β) (sound : list.Sound chain)
    (fresh : list.cells node = none) :
    ∃ next, list.append node data = some next ∧ next.Sound (chain ++ [(node, data)]) ∧ next.tail = some node ∧
      ∀ other, other ≠ node → other ∉ addresses chain → next.cells other = list.cells other := by
  obtain ⟨cells, head, tail, count⟩ := list
  obtain ⟨follows, counted, final⟩ := sound
  simp only at follows counted final fresh
  have outside : node ∉ addresses chain := by
    intro member
    obtain ⟨cell, live⟩ := chain_live cells head chain follows node member
    simp [fresh] at live
  have stays := chain_write cells head chain node (some ⟨data, none⟩) follows outside
  cases follows with
  | nil =>
      refine ⟨_, rfl, ⟨.cons (Function.update_self node _ cells) .nil, by simp [counted], fun _ => rfl⟩, rfl, ?_⟩
      intro other different _
      exact Function.update_of_ne different ..
  | @cons first cell rest live onward =>
      cases ending : (addresses ((first, cell.data) :: rest)).getLast? with
      | none => simp at ending
      | some last =>
          rw [ending] at final
          obtain rfl := final (by simp)
          have member := List.mem_of_getLast? ending
          obtain ⟨tip, read⟩ := chain_live _ _ _ stays last member
          have linked := chain_extend _ _ _ last node tip data stays ending read (Function.update_self ..) outside
          have appended : Linked.append ⟨cells, some first, some last, count⟩ node data =
              some ⟨Function.update (Function.update cells node (some ⟨data, none⟩)) last (some { tip with next := some node }),
                some first, some node, count + 1⟩ := by
            simp only [Linked.append, read, Option.map_some]
          refine ⟨_, appended, ?_, rfl, ?_⟩
          · exact ⟨linked, by simp [counted], fun _ => by rw [addresses_append]; exact List.getLast?_concat.symm⟩
          · intro other different apart
            have elsewhere : other ≠ last := fun same => apart (same ▸ member)
            exact (Function.update_of_ne elsewhere ..).trans (Function.update_of_ne different ..)

theorem unlink_sound (list : Linked β) (node : Nat) (data : β) (rest : List (Nat × β))
    (sound : list.Sound ((node, data) :: rest)) :
    ∃ next, list.unlink = some (data, next) ∧ next.Sound rest ∧ next.cells = Function.update list.cells node none ∧
      next.tail = (addresses rest).getLast? := by
  obtain ⟨cells, head, tail, count⟩ := list
  obtain ⟨follows, counted, final⟩ := sound
  simp only at follows counted final
  have apart := (List.nodup_cons.mp (chain_nodup _ _ _ follows)).1
  cases follows with
  | @cons _ cell _ live onward =>
      have stays := chain_write cells cell.next rest node none onward apart
      have ending : (if cell.next.isNone then none else tail) = (addresses rest).getLast? := by
        cases rest with
        | nil =>
            have nothing := chain_head _ _ _ onward
            simp [nothing]
        | cons second others =>
            have something := chain_head _ _ _ onward
            simp [something, final (by simp)]
      refine ⟨⟨Function.update cells node none, cell.next, if cell.next.isNone then none else tail, count - 1⟩, ?_, ?_, rfl, ending⟩
      · simp only [Linked.unlink, live, Option.map_some]
      · exact ⟨stays, by simp [counted], fun _ => ending⟩

end Linked

-- A list of strings: each cell points to a block of characters that is live and
-- that no other cell of the chain points to.
structure Owns (chars : Heap Bytes) (chain : List (Nat × Nat)) (queue : List Bytes) : Prop where
  apart : (chain.map Prod.snd).Nodup
  texts : chain.map (fun cell => (chars cell.2).map cstr) = queue.map some

theorem owns_nil (chars : Heap Bytes) : Owns chars [] [] := ⟨List.nodup_nil, rfl⟩

theorem owns_length (chars : Heap Bytes) (chain : List (Nat × Nat)) (queue : List Bytes) (owns : Owns chars chain queue) :
    chain.length = queue.length := by
  have same := congrArg List.length owns.texts
  simpa using same

theorem owns_live (chars : Heap Bytes) (chain : List (Nat × Nat)) (queue : List Bytes) (owns : Owns chars chain queue)
    (block : Nat) (member : block ∈ chain.map Prod.snd) : ∃ bytes, chars block = some bytes := by
  obtain ⟨cell, inside, rfl⟩ := List.mem_map.mp member
  have read : (chars cell.2).map cstr ∈ queue.map some := by
    rw [← owns.texts]
    exact List.mem_map_of_mem inside
  obtain ⟨text, _, found⟩ := List.mem_map.mp read
  obtain ⟨bytes, live, _⟩ := Option.map_eq_some_iff.mp found.symm
  exact ⟨bytes, live⟩

theorem owns_write (chars : Heap Bytes) (chain : List (Nat × Nat)) (queue : List Bytes) (block : Nat) (value : Option Bytes)
    (owns : Owns chars chain queue) (outside : block ∉ chain.map Prod.snd) :
    Owns (Function.update chars block value) chain queue := by
  refine ⟨owns.apart, Eq.trans (List.map_congr_left fun cell member => ?_) owns.texts⟩
  have different : cell.2 ≠ block := fun same => outside (same ▸ List.mem_map_of_mem member)
  rw [Function.update_of_ne different]

theorem owns_fresh (chars : Heap Bytes) (chain : List (Nat × Nat)) (queue : List Bytes) (block : Nat)
    (owns : Owns chars chain queue) (fresh : chars block = none) : block ∉ chain.map Prod.snd := by
  intro member
  obtain ⟨bytes, live⟩ := owns_live chars chain queue owns block member
  simp [fresh] at live

theorem owns_append (chars : Heap Bytes) (chain : List (Nat × Nat)) (queue : List Bytes) (node block : Nat) (bytes : Bytes)
    (owns : Owns chars chain queue) (fresh : chars block = none) :
    Owns (Function.update chars block (some bytes)) (chain ++ [(node, block)]) (queue ++ [cstr bytes]) := by
  have outside := owns_fresh chars chain queue block owns fresh
  have kept := owns_write chars chain queue block (some bytes) owns outside
  refine ⟨?_, by simp only [List.map_append, kept.texts]; simp⟩
  rw [List.map_append]
  exact List.nodup_append.mpr ⟨owns.apart, List.nodup_singleton _, fun a member b single => by
    rw [List.mem_singleton.mp single]
    rintro rfl
    exact outside member⟩

theorem owns_first (chars : Heap Bytes) (node block : Nat) (rest : List (Nat × Nat)) (queue : List Bytes)
    (owns : Owns chars ((node, block) :: rest) queue) :
    ∃ bytes others, queue = cstr bytes :: others ∧ chars block = some bytes ∧ Owns chars rest others ∧
      block ∉ rest.map Prod.snd := by
  obtain ⟨apart, texts⟩ := owns
  obtain ⟨outside, apart⟩ := List.nodup_cons.mp apart
  cases queue with
  | nil => simp at texts
  | cons text others =>
      simp only [List.map_cons, List.cons.injEq] at texts
      obtain ⟨bytes, live, rfl⟩ := Option.map_eq_some_iff.mp texts.1
      exact ⟨bytes, others, rfl, live, ⟨apart, texts.2⟩, outside⟩

end Library
