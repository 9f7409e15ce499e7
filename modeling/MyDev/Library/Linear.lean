import Mathlib.Logic.Function.Basic

set_option autoImplicit false

namespace Library

-- A concurrent object as its clients see it: a call is invoked, and some time
-- later it is responded to. In between it took its effect, at one instant that
-- no client sees. `noted` is a change the object makes of its own accord.
inductive Exchange (ι ω ρ ν : Type) where
  | invoked (t : ι) (op : ω)
  | took (t : ι) (op : ω) (res : ρ)
  | responded (t : ι) (res : ρ)
  | noted (note : ν)
deriving DecidableEq, Repr

inductive Status (ω ρ : Type) where
  | idle
  | called (op : ω)
  | answered (res : ρ)
  | lost
deriving DecidableEq, Repr

-- What the object is meant to be, one call after the other: `apply` is what a
-- call may do to the state and answer, `change` what a change of its own does.
structure Object (σ ω ρ ν : Type) where
  apply : σ → ω → ρ → σ → Prop
  change : σ → ν → σ → Prop

section Linear

variable {σ ι ω ρ ν : Type}

def Exchange.outer : Exchange ι ω ρ ν → List (Exchange ι ω ρ ν)
  | .took _ _ _ => []
  | exchange => [exchange]

def Exchange.client : Exchange ι ω ρ ν → Option ι
  | .invoked t _ | .took t _ _ | .responded t _ => some t
  | .noted _ => none

inductive Replay (object : Object σ ω ρ ν) (start : σ) : List (Exchange ι ω ρ ν) → σ → Prop where
  | nil : Replay object start [] start
  | invoked {log : List (Exchange ι ω ρ ν)} {state : σ} {t : ι} {op : ω} (before : Replay object start log state) :
      Replay object start (log ++ [.invoked t op]) state
  | took {log : List (Exchange ι ω ρ ν)} {state next : σ} {t : ι} {op : ω} {res : ρ} (before : Replay object start log state)
      (applied : object.apply state op res next) : Replay object start (log ++ [.took t op res]) next
  | responded {log : List (Exchange ι ω ρ ν)} {state : σ} {t : ι} {res : ρ} (before : Replay object start log state) :
      Replay object start (log ++ [.responded t res]) state
  | noted {log : List (Exchange ι ω ρ ν)} {state next : σ} {note : ν} (before : Replay object start log state)
      (changed : object.change state note next) : Replay object start (log ++ [.noted note]) next

-- The exchanges of client t come in turns of three: its call, the effect of
-- this call, and the response that effect had. A client that is lost leaves
-- its call without an effect.
inductive Turns (t : ι) : List (Exchange ι ω ρ ν) → Status ω ρ → Prop where
  | nil : Turns t [] .idle
  | other {log : List (Exchange ι ω ρ ν)} {status : Status ω ρ} {exchange : Exchange ι ω ρ ν} (before : Turns t log status)
      (other : exchange.client ≠ some t) : Turns t (log ++ [exchange]) status
  | invoked {log : List (Exchange ι ω ρ ν)} {op : ω} (before : Turns t log .idle) : Turns t (log ++ [.invoked t op]) (.called op)
  | took {log : List (Exchange ι ω ρ ν)} {op : ω} {res : ρ} (before : Turns t log (.called op)) :
      Turns t (log ++ [.took t op res]) (.answered res)
  | responded {log : List (Exchange ι ω ρ ν)} {res : ρ} (before : Turns t log (.answered res)) :
      Turns t (log ++ [.responded t res]) .idle
  | lost {log : List (Exchange ι ω ρ ν)} {op : ω} (before : Turns t log (.called op)) : Turns t log .lost

-- A history is linearized when effects can be put into it, each between the
-- call and the response it belongs to, that one after the other are what the
-- object is meant to do.
def Linearized (object : Object σ ω ρ ν) (start : σ) (history : List (Exchange ι ω ρ ν)) (state : σ) (status : ι → Status ω ρ) :
    Prop :=
  ∃ log, log.flatMap Exchange.outer = history ∧ Replay object start log state ∧ ∀ t, Turns t log (status t)

variable [DecidableEq ι] {object : Object σ ω ρ ν} {start state next : σ} {history : List (Exchange ι ω ρ ν)}
  {status : ι → Status ω ρ} {t : ι} {op : ω} {res : ρ}

theorem turns_snoc (log : List (Exchange ι ω ρ ν)) (exchange : Exchange ι ω ρ ν) (after : Status ω ρ) (client : exchange.client = some t)
    (turns : ∀ u, Turns u log (status u)) (own : Turns t (log ++ [exchange]) after) (u : ι) :
    Turns u (log ++ [exchange]) (Function.update status t after u) := by
  by_cases mine : u = t
  · subst mine
    rwa [Function.update_self]
  · rw [Function.update_of_ne mine]
    refine .other (turns u) ?_
    rw [client]
    exact fun same => mine (Option.some.inj same).symm

omit [DecidableEq ι] in
theorem linearized_start (object : Object σ ω ρ ν) (start : σ) :
    Linearized object start ([] : List (Exchange ι ω ρ ν)) start fun _ => .idle :=
  ⟨[], rfl, .nil, fun _ => .nil⟩

theorem linearized_invoke (linear : Linearized object start history state status) (idle : status t = .idle) :
    Linearized object start (history ++ [.invoked t op]) state (Function.update status t (.called op)) := by
  obtain ⟨log, seen, replay, turns⟩ := linear
  refine ⟨log ++ [.invoked t op], ?_, .invoked replay, turns_snoc log _ _ rfl turns (.invoked (idle ▸ turns t))⟩
  rw [List.flatMap_append, seen]
  rfl

theorem linearized_take (linear : Linearized object start history state status) (called : status t = .called op)
    (applied : object.apply state op res next) :
    Linearized object start history next (Function.update status t (.answered res)) := by
  obtain ⟨log, seen, replay, turns⟩ := linear
  refine ⟨log ++ [.took t op res], ?_, .took replay applied, turns_snoc log _ _ rfl turns (.took (called ▸ turns t))⟩
  rw [List.flatMap_append, seen]
  exact List.append_nil _

theorem linearized_respond (linear : Linearized object start history state status) (answered : status t = .answered res) :
    Linearized object start (history ++ [.responded t res]) state (Function.update status t .idle) := by
  obtain ⟨log, seen, replay, turns⟩ := linear
  refine ⟨log ++ [.responded t res], ?_, .responded replay, turns_snoc log _ _ rfl turns (.responded (answered ▸ turns t))⟩
  rw [List.flatMap_append, seen]
  rfl

theorem linearized_lose (linear : Linearized object start history state status) (called : status t = .called op) :
    Linearized object start history state (Function.update status t .lost) := by
  obtain ⟨log, seen, replay, turns⟩ := linear
  refine ⟨log, seen, replay, fun u => ?_⟩
  by_cases mine : u = t
  · subst mine
    rw [Function.update_self]
    exact .lost (called ▸ turns u)
  · rw [Function.update_of_ne mine]
    exact turns u

omit [DecidableEq ι] in
theorem linearized_note {note : ν} (linear : Linearized object start history state status)
    (changed : object.change state note next) : Linearized object start (history ++ [.noted note]) next status := by
  obtain ⟨log, seen, replay, turns⟩ := linear
  refine ⟨log ++ [.noted note], ?_, .noted replay changed, fun t => .other (turns t) (by simp [Exchange.client])⟩
  rw [List.flatMap_append, seen]
  rfl

end Linear

end Library
