import MyDev.Library.CString

set_option autoImplicit false

namespace MyDev

open Library

-- A string of a user program. `id` is not in the program: it tells equal
-- strings apart by counting the insertions into rbuffer.
structure Item where
  id : Nat
  data : Bytes
deriving DecidableEq, Repr

structure Wbuf where
  items : List Item
  count : Int
  done : Bool
  counted : count = items.length

def wbufInit : Wbuf := ⟨[], 0, false, rfl⟩

def wbufIns (value : Item) (mybuffer : Wbuf) : Wbuf :=
  ⟨mybuffer.items ++ [value], mybuffer.count + 1, mybuffer.done, by simp [mybuffer.counted]⟩

-- Called with head == NULL the function would follow a null pointer.
def wbufExt : Wbuf → Option (Item × Wbuf)
  | ⟨[], _, _, _⟩ => none
  | ⟨item :: rest, count, done, counted⟩ => some (item, ⟨rest, count - 1, done, by simp [counted]⟩)

def Wbuf.close (mybuffer : Wbuf) : Wbuf := { mybuffer with done := true }

def Wbuf.drop (_ : Wbuf) : Wbuf := ⟨[], 0, true, rfl⟩

theorem wbuf_ext_none (mybuffer : Wbuf) (missing : wbufExt mybuffer = none) : mybuffer.items = [] := by
  obtain ⟨items, count, done, counted⟩ := mybuffer
  cases items with
  | nil => rfl
  | cons item rest => simp [wbufExt] at missing

theorem wbuf_ext_some (mybuffer rest : Wbuf) (item : Item) (found : wbufExt mybuffer = some (item, rest)) :
    mybuffer.items = item :: rest.items ∧ rest.done = mybuffer.done := by
  obtain ⟨items, count, done, counted⟩ := mybuffer
  cases items with
  | nil => simp [wbufExt] at found
  | cons first others =>
      simp only [wbufExt, Option.some.injEq, Prod.mk.injEq] at found
      obtain ⟨rfl, rfl⟩ := found
      exact ⟨rfl, rfl⟩

@[simp] theorem wbuf_init_items : wbufInit.items = [] := rfl
@[simp] theorem wbuf_init_done : wbufInit.done = false := rfl
@[simp] theorem wbuf_ins_items (value : Item) (mybuffer : Wbuf) : (wbufIns value mybuffer).items = mybuffer.items ++ [value] := rfl
@[simp] theorem wbuf_ins_done (value : Item) (mybuffer : Wbuf) : (wbufIns value mybuffer).done = mybuffer.done := rfl
@[simp] theorem wbuf_close_items (mybuffer : Wbuf) : mybuffer.close.items = mybuffer.items := rfl
@[simp] theorem wbuf_close_done (mybuffer : Wbuf) : mybuffer.close.done = true := rfl
@[simp] theorem wbuf_drop_items (mybuffer : Wbuf) : mybuffer.drop.items = [] := rfl
@[simp] theorem wbuf_drop_done (mybuffer : Wbuf) : mybuffer.drop.done = true := rfl

end MyDev
