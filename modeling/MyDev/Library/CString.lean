import Mathlib.Data.List.TakeWhile

set_option autoImplicit false

namespace Library

abbrev Bytes := List UInt8

-- A `char *` is the memory from that address on. The string it denotes ends
-- before the first NUL, which is where `strlen` and `strcpy` stop.
def cstr (memory : Bytes) : Bytes := memory.takeWhile (· ≠ 0)

-- `strcpy` writes the string and its NUL over the start of the target. A
-- target that is too short is overrun: the result is then longer than it was.
def strcpy (target source : Bytes) : Bytes :=
  cstr source ++ 0 :: target.drop ((cstr source).length + 1)

theorem cstr_no_nul (memory : Bytes) : 0 ∉ cstr memory := by
  intro member
  have nonzero := List.mem_takeWhile_imp member
  simp at nonzero

theorem cstr_append_nul (text rest : Bytes) (clean : 0 ∉ text) : cstr (text ++ 0 :: rest) = text := by
  unfold cstr
  rw [List.takeWhile_append_of_pos, List.takeWhile_cons_of_neg (by simp), List.append_nil]
  intro byte member
  have different : byte ≠ 0 := fun same => clean (same ▸ member)
  simpa using different

theorem cstr_cons (byte : UInt8) (memory : Bytes) (different : byte ≠ 0) : cstr (byte :: memory) = byte :: cstr memory := by
  simp [cstr, different]

theorem cstr_append_of_nul (block rest : Bytes) (terminated : 0 ∈ block) : cstr (block ++ rest) = cstr block := by
  induction block with
  | nil => cases terminated
  | cons byte tail ih =>
      by_cases nul : byte = 0
      · simp [cstr, nul]
      · have later : 0 ∈ tail := by simpa [Ne.symm nul] using terminated
        rw [List.cons_append, cstr_cons _ _ nul, cstr_cons _ _ nul, ih later]

theorem cstr_inside_iff (block rest : Bytes) : (cstr (block ++ rest)).length < block.length ↔ 0 ∈ block := by
  induction block with
  | nil => simp
  | cons byte tail ih =>
      by_cases nul : byte = 0
      · simp [cstr, nul]
      · rw [List.cons_append, cstr_cons _ _ nul]
        simp [ih, Ne.symm nul]

theorem cstr_strcpy (target source : Bytes) : cstr (strcpy target source) = cstr source :=
  cstr_append_nul _ _ (cstr_no_nul source)

end Library
