import MyDev.Library.CString

set_option autoImplicit false

namespace MyDev

open Library

def maxl : Nat := 40

-- `rand` lists the results of the rand() calls this gen_data makes.
def genData (rand : Nat → Nat) : Bytes :=
  let loop := rand 0 % (maxl - 1) + 1
  (List.range loop).map (fun i => UInt8.ofNat (rand (i + 1) % 25 + 65)) ++ [0]

def caseLoop (change : UInt8 → UInt8) : Bytes → Bytes
  | [] => []
  | letter :: rest => if letter = 0 then letter :: rest else change letter :: caseLoop change rest

def toLower : Bytes → Bytes := caseLoop (· + 32)

def toUpper : Bytes → Bytes := caseLoop (· - 32)

-- The same loop with its index, from `letters[i]` on: where it stops and what it
-- leaves. Reading outside `letters` is a fault.
def caseScan (change : UInt8 → UInt8) : Nat → Bytes → Nat → Option (Nat × Bytes)
  | 0, _, _ => none
  | fuel + 1, letters, i =>
      letters[i]?.bind fun letter =>
        if letter = 0 then some (i, letters) else caseScan change fuel (letters.set i (change letter)) (i + 1)

def inPlace (change : Bytes → Bytes) (text : Bytes) : Bytes := cstr (change (text ++ [0]))

structure Letters (first last : UInt8) (word : Bytes) : Prop where
  filled : 1 ≤ word.length
  short : word.length < maxl
  letters : ∀ letter ∈ word, first ≤ letter ∧ letter ≤ last

def Capital (word : Bytes) : Prop := Letters 65 89 word

def Small (word : Bytes) : Prop := Letters 97 121 word

theorem case_loop_text (change : UInt8 → UInt8) (text rest : Bytes) (clean : 0 ∉ text) :
    caseLoop change (text ++ 0 :: rest) = text.map change ++ 0 :: rest := by
  induction text with
  | nil => rfl
  | cons letter later ih =>
      simp only [List.mem_cons, not_or] at clean
      rw [List.cons_append, caseLoop, if_neg (Ne.symm clean.1), ih clean.2]
      rfl

theorem in_place_map (change : UInt8 → UInt8) (text : Bytes) (clean : 0 ∉ text) (stays : ∀ letter ∈ text, change letter ≠ 0) :
    inPlace (caseLoop change) text = text.map change := by
  have still : 0 ∉ text.map change := by
    intro member
    obtain ⟨letter, inside, zero⟩ := List.mem_map.mp member
    exact stays letter inside zero
  rw [inPlace, case_loop_text change text [] clean]
  exact cstr_append_nul _ [] still

theorem letters_clean (first last : UInt8) (word : Bytes) (valid : Letters first last word) (positive : 0 < first) :
    0 ∉ word := by
  intro member
  have above := (valid.letters 0 member).1
  exact absurd positive (UInt8.not_lt.mpr above)

theorem gen_data_capital (rand : Nat → Nat) : Capital (cstr (genData rand)) := by
  have letter : ∀ i, 65 ≤ UInt8.ofNat (rand (i + 1) % 25 + 65) ∧ UInt8.ofNat (rand (i + 1) % 25 + 65) ≤ 89 := by
    intro i
    have bound : rand (i + 1) % 25 < 25 := Nat.mod_lt _ (by decide)
    generalize rand (i + 1) % 25 = shift at bound
    revert shift
    decide
  have word : cstr (genData rand) =
      (List.range (rand 0 % (maxl - 1) + 1)).map (fun i => UInt8.ofNat (rand (i + 1) % 25 + 65)) := by
    refine cstr_append_nul _ [] ?_
    intro member
    obtain ⟨i, _, zero⟩ := List.mem_map.mp member
    have above := (letter i).1
    rw [zero] at above
    exact absurd above (by decide)
  rw [word]
  have bound : rand 0 % (maxl - 1) < maxl - 1 := Nat.mod_lt _ (by decide)
  refine ⟨by simp, ?_, ?_⟩
  · simp only [List.length_map, List.length_range]
    omega
  · intro byte member
    obtain ⟨i, _, rfl⟩ := List.mem_map.mp member
    exact letter i

theorem lower_nul_iff (letter : UInt8) : letter + 32 = 0 ↔ letter = 224 := by
  constructor
  · intro zero
    have back := UInt8.add_sub_cancel letter 32
    rw [zero] at back
    exact back.symm
  · rintro rfl
    decide

theorem lower_clean_iff (text : Bytes) : 0 ∉ text.map (· + 32) ↔ 224 ∉ text := by
  simp [lower_nul_iff]

theorem upper_lower_map (text : Bytes) : (text.map (· + 32)).map (· - 32) = text := by
  rw [List.map_map]
  refine (List.map_congr_left fun letter _ => ?_).trans (List.map_id text)
  exact UInt8.add_sub_cancel letter 32

theorem to_lower_letter (letter : UInt8) (low : 65 ≤ letter) (high : letter ≤ 89) : 97 ≤ letter + 32 ∧ letter + 32 ≤ 121 := by
  have lowNat : 65 ≤ letter.toNat := low
  have highNat : letter.toNat ≤ 89 := high
  have shifted : (letter + 32).toNat = letter.toNat + 32 := by
    rw [UInt8.toNat_add]
    exact Nat.mod_eq_of_lt (show letter.toNat + 32 < 256 by omega)
  constructor
  · show 97 ≤ (letter + 32).toNat
    omega
  · show (letter + 32).toNat ≤ 121
    omega

theorem to_lower_map (word : Bytes) (capital : Capital word) : inPlace toLower word = word.map (· + 32) := by
  refine in_place_map (· + 32) word (letters_clean 65 89 word capital (by decide)) ?_
  intro letter member zero
  have high := (capital.letters letter member).2
  rw [(lower_nul_iff letter).mp zero] at high
  exact absurd high (by decide)

theorem to_lower_small (word : Bytes) (capital : Capital word) : Small (inPlace toLower word) := by
  rw [to_lower_map word capital]
  refine ⟨by simpa using capital.filled, by simpa using capital.short, ?_⟩
  intro byte member
  obtain ⟨letter, inside, rfl⟩ := List.mem_map.mp member
  obtain ⟨low, high⟩ := capital.letters letter inside
  exact to_lower_letter letter low high

theorem to_upper_to_lower (word : Bytes) (capital : Capital word) : inPlace toUpper (inPlace toLower word) = word := by
  have small := letters_clean 97 121 _ (to_lower_small word capital) (by decide)
  rw [to_lower_map word capital] at small ⊢
  rw [toUpper, in_place_map (· - 32) _ small, upper_lower_map]
  intro byte member zero
  have back : 0 ∈ (word.map (· + 32)).map (· - 32) := zero ▸ List.mem_map_of_mem member
  rw [upper_lower_map] at back
  exact letters_clean 65 89 word capital (by decide) back

theorem case_scan_loop (change : UInt8 → UInt8) (done letters : Bytes) (fuel : Nat) (terminated : 0 ∈ letters)
    (enough : (cstr letters).length < fuel) :
    caseScan change fuel (done ++ letters) done.length =
      some (done.length + (cstr letters).length, done ++ caseLoop change letters) := by
  induction letters generalizing done fuel with
  | nil => cases terminated
  | cons letter rest ih =>
      cases fuel with
      | zero => omega
      | succ fuel =>
          by_cases nul : letter = 0
          · simp [caseScan, nul, cstr, caseLoop]
          · have later : 0 ∈ rest := by simpa [Ne.symm nul] using terminated
            rw [cstr_cons _ _ nul] at enough ⊢
            simp only [List.length_cons] at enough ⊢
            have onward := ih (done ++ [change letter]) fuel later (by omega)
            simp only [List.length_append, List.length_singleton, List.append_assoc, List.singleton_append] at onward
            simp [caseScan, nul, caseLoop, onward, Nat.add_assoc, Nat.add_comm 1]

theorem round_trip_clean (text rest : Bytes) (clean : 0 ∉ text) (plain : 224 ∉ text) :
    toUpper (toLower (text ++ 0 :: rest)) = text ++ 0 :: rest := by
  rw [toLower, case_loop_text _ text rest clean, toUpper, case_loop_text _ _ rest ((lower_clean_iff text).mpr plain),
    upper_lower_map]

theorem round_trip_cut (first later rest : Bytes) (clean : 0 ∉ first ++ 224 :: later) (plain : 224 ∉ first) :
    toUpper (toLower (first ++ 224 :: later ++ 0 :: rest)) = first ++ 0 :: (later.map (· + 32) ++ 0 :: rest) := by
  have cut : (first ++ 224 :: later).map (· + 32) ++ 0 :: rest = first.map (· + 32) ++ 0 :: (later.map (· + 32) ++ 0 :: rest) := by
    simp
  rw [toLower, case_loop_text _ _ rest clean, cut, toUpper, case_loop_text _ _ _ ((lower_clean_iff first).mpr plain),
    upper_lower_map]

theorem cstr_length_le (text rest : Bytes) : (cstr (text ++ 0 :: rest)).length ≤ text.length := by
  have inside := (cstr_inside_iff (text ++ [0]) rest).mpr (by simp)
  simp only [List.append_assoc, List.singleton_append, List.length_append, List.length_singleton] at inside
  omega

theorem case_loop_frame (change : UInt8 → UInt8) (text rest : Bytes) :
    ∃ changed, changed.length = text.length ∧ caseLoop change (text ++ 0 :: rest) = changed ++ 0 :: rest := by
  induction text with
  | nil => exact ⟨[], rfl, rfl⟩
  | cons letter later ih =>
      obtain ⟨changed, length, left⟩ := ih
      rw [List.cons_append, caseLoop]
      split
      · exact ⟨letter :: later, rfl, rfl⟩
      · exact ⟨change letter :: changed, by simp [length], by rw [left]; rfl⟩

theorem case_round_trip_iff (text rest : Bytes) (fuel : Nat) (clean : 0 ∉ text) (enough : text.length < fuel) :
    (toUpper (toLower (text ++ 0 :: rest)) = text ++ 0 :: rest ↔ 224 ∉ text) ∧
      caseScan (· + 32) fuel (text ++ 0 :: rest) 0 = some (text.length, toLower (text ++ 0 :: rest)) ∧
      (∃ stop, stop ≤ text.length ∧
        caseScan (· - 32) fuel (toLower (text ++ 0 :: rest)) 0 = some (stop, toUpper (toLower (text ++ 0 :: rest)))) ∧
      ∃ lower upper, lower.length = text.length ∧ upper.length = text.length ∧
        toLower (text ++ 0 :: rest) = lower ++ 0 :: rest ∧ toUpper (toLower (text ++ 0 :: rest)) = upper ++ 0 :: rest := by
  obtain ⟨lower, lowerLength, lowered⟩ := case_loop_frame (· + 32) text rest
  obtain ⟨upper, upperLength, uppered⟩ := case_loop_frame (· - 32) lower rest
  have stops := cstr_length_le lower rest
  have down := case_scan_loop (· + 32) [] (text ++ 0 :: rest) fuel (by simp) (by rw [cstr_append_nul text rest clean]; exact enough)
  have up := case_scan_loop (· - 32) [] (lower ++ 0 :: rest) fuel (by simp) (by omega)
  refine ⟨⟨?_, round_trip_clean text rest clean⟩, ?_, ?_, ?_⟩
  · intro restored member
    obtain ⟨first, later, rfl, plain⟩ := List.eq_append_cons_of_mem member
    rw [round_trip_cut first later rest clean plain] at restored
    simp at restored
  · rw [cstr_append_nul text rest clean] at down
    simpa [toLower] using down
  · rw [toLower, lowered]
    exact ⟨(cstr (lower ++ 0 :: rest)).length, by omega, by simpa [toUpper] using up⟩
  · rw [toLower, lowered]
    exact ⟨lower, upper, lowerLength, by omega, rfl, uppered⟩

theorem case_round_trip_iff_word : toUpper (toLower [65, 66, 0, 7]) = [65, 66, 0, 7] :=
  (case_round_trip_iff [65, 66] [7] 3 (by decide) (by decide)).1.mpr (by decide)

end MyDev
