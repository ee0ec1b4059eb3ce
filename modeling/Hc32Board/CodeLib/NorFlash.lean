import Mathlib.Data.List.GetD
import Hc32Board.CodeLib.Bytes

/-!
# Flash memory

A flash image gives a byte for every address.

* Programming can only clear bits: `program` combines the new bytes with the
  old ones by AND.
* Erasing sets bytes to `0xFF`, the neutral element of that operation.

The lemmas split a program operation at a list boundary, and say what it leaves
of a byte: outside the range nothing changes (`program_outside`), and an erased
byte takes the value (`readRange_program`).  `readRange` is also used for the
memory that data is programmed from.
-/

namespace Hc32Board.CodeLib

abbrev Image := Nat → UInt8

/-- The `n` bytes from an address on. -/
def readRange (img : Image) (addr n : Nat) : Bytes := (List.range n).map fun i => img (addr + i)

/-- The bytes are programmed from an address on. -/
def program (img : Image) (addr : Nat) (bs : Bytes) : Image := fun a =>
  if addr ≤ a ∧ a < addr + bs.length then img a &&& bs.getD (a - addr) 0 else img a

/-- The `n` bytes from an address on are erased. -/
def eraseRange (img : Image) (addr n : Nat) : Image := fun a =>
  if addr ≤ a ∧ a < addr + n then 0xFF else img a

@[simp] theorem length_readRange (img : Image) (addr n : Nat) :
    (readRange img addr n).length = n := by
  simp [readRange]

@[simp] theorem readRange_zero (img : Image) (addr : Nat) : readRange img addr 0 = [] := rfl

theorem readRange_add (img : Image) (addr m n : Nat) :
    readRange img addr (m + n) = readRange img addr m ++ readRange img (addr + m) n := by
  simp [readRange, List.range_add, Function.comp_def, Nat.add_assoc]

theorem readRange_congr {img img' : Image} {addr addr' n : Nat}
    (h : ∀ i < n, img (addr + i) = img' (addr' + i)) :
    readRange img addr n = readRange img' addr' n := by
  refine List.map_congr_left fun i hi => ?_
  exact h i (List.mem_range.mp hi)

theorem getD_readRange {img : Image} {addr n i : Nat} (h : i < n) (d : UInt8) :
    (readRange img addr n).getD i d = img (addr + i) := by
  simp [readRange, h]

/-- A list read back from memory. -/
theorem readRange_getD (bs : Bytes) (d : UInt8) :
    readRange (fun i => bs.getD i d) 0 bs.length = bs := by
  refine List.ext_getElem (length_readRange _ _ _) fun i h1 h2 => ?_
  rw [← List.getD_eq_getElem _ d h1, getD_readRange h2, Nat.zero_add, List.getD_eq_getElem _ d h2]

@[simp] theorem ff_and (b : UInt8) : 0xFF &&& b = b := by
  rw [UInt8.and_comm]
  exact UInt8.and_neg_one

@[simp] theorem and_ff (b : UInt8) : b &&& 0xFF = b := UInt8.and_neg_one

theorem program_outside {img : Image} {addr a : Nat} {bs : Bytes}
    (h : a < addr ∨ addr + bs.length ≤ a) : program img addr bs a = img a := by
  rw [program, if_neg (by omega)]

theorem program_inside {img : Image} {addr i : Nat} {bs : Bytes} (h : i < bs.length) :
    program img addr bs (addr + i) = img (addr + i) &&& bs.getD i 0 := by
  rw [program, if_pos (by omega), Nat.add_sub_cancel_left]

theorem program_nil (img : Image) (addr : Nat) : program img addr [] = img := by
  funext a
  exact program_outside (by simp; omega)

theorem program_singleton (img : Image) (a : Nat) (b : UInt8) :
    program img a [b] a = img a &&& b := by
  rw [program, if_pos ⟨Nat.le_refl a, Nat.lt_succ_self a⟩, Nat.sub_self, List.getD_cons_zero]

/-- Two operations, one behind the other, are one. -/
theorem program_append (img : Image) (addr : Nat) (xs ys : Bytes) :
    program (program img addr xs) (addr + xs.length) ys = program img addr (xs ++ ys) := by
  funext a
  rcases Nat.lt_or_ge a addr with hbelow | hge
  · rw [program_outside (by omega), program_outside (by omega), program_outside (by omega)]
  obtain ⟨i, rfl⟩ := Nat.exists_eq_add_of_le hge
  rcases Nat.lt_or_ge i xs.length with hx | hx
  · rw [program_outside (by omega), program_inside hx,
      program_inside (by rw [List.length_append]; omega), List.getD_append _ _ _ _ hx]
  obtain ⟨j, rfl⟩ := Nat.exists_eq_add_of_le hx
  rcases Nat.lt_or_ge j ys.length with hy | hy
  · rw [← Nat.add_assoc, program_inside hy, program_outside (by omega), Nat.add_assoc,
      program_inside (by rw [List.length_append]; omega), List.getD_append_right _ _ _ _ hx,
      Nat.add_sub_cancel_left]
  · rw [program_outside (by omega), program_outside (by omega),
      program_outside (by rw [List.length_append]; omega)]

/-- Programming what is there, or ones, changes nothing. -/
theorem program_same {img : Image} {addr : Nat} {bs : Bytes}
    (h : ∀ i < bs.length, bs.getD i 0 = img (addr + i) ∨ bs.getD i 0 = 0xFF) :
    program img addr bs = img := by
  funext a
  rcases Nat.lt_or_ge a addr with hbelow | hge
  · exact program_outside (.inl hbelow)
  obtain ⟨i, rfl⟩ := Nat.exists_eq_add_of_le hge
  rcases Nat.lt_or_ge i bs.length with hi | hi
  · rw [program_inside hi]
    rcases h i hi with heq | heq
    · rw [heq, UInt8.and_self]
    · rw [heq, and_ff]
  · exact program_outside (.inr (by omega))

theorem program_readRange_self (img : Image) (addr n : Nat) :
    program img addr (readRange img addr n) = img := by
  refine program_same fun i hi => .inl ?_
  rw [length_readRange] at hi
  exact getD_readRange hi 0

/-- Ones at the end of the data are not programmed. -/
theorem program_append_ones (img : Image) (addr n : Nat) (bs : Bytes) :
    program img addr (bs ++ List.replicate n 0xFF) = program img addr bs := by
  rw [← program_append]
  refine program_same fun i hi => .inr ?_
  rw [List.length_replicate] at hi
  simp [hi]

/-- Erased bytes take the values that are programmed. -/
theorem readRange_program {img : Image} {addr : Nat} {bs : Bytes}
    (h : ∀ i < bs.length, img (addr + i) = 0xFF) :
    readRange (program img addr bs) addr bs.length = bs := by
  refine List.ext_getElem (length_readRange _ _ _) fun i h1 h2 => ?_
  rw [← List.getD_eq_getElem _ 0 h1, getD_readRange h2, program_inside h2, h i h2, ff_and,
    List.getD_eq_getElem _ 0 h2]

/-! ## Parts of a range -/

section Parts

variable {img : Image} {addr n : Nat} {pre mid post : Bytes}

theorem length_of_readRange_eq (h : readRange img addr n = pre ++ mid ++ post) :
    n = pre.length + mid.length + post.length := by
  simpa [Nat.add_assoc] using congrArg List.length h

/-- A range that is known in three parts. -/
theorem readRange_parts (h : readRange img addr n = pre ++ mid ++ post) :
    readRange img addr pre.length = pre ∧ readRange img (addr + pre.length) mid.length = mid ∧
      readRange img (addr + (pre.length + mid.length)) post.length = post := by
  rw [length_of_readRange_eq h, readRange_add, readRange_add] at h
  have hsplit := List.append_inj h (by simp)
  have hinner := List.append_inj hsplit.1 (by simp)
  exact ⟨hinner.1, hinner.2, hsplit.2⟩

theorem readRange_left (h : readRange img addr n = pre ++ post) :
    readRange img addr pre.length = pre := by
  rw [← List.append_nil pre] at h
  exact (readRange_parts h).1

theorem readRange_mid (h : readRange img addr n = pre ++ mid ++ post) :
    readRange img (addr + pre.length) mid.length = mid :=
  (readRange_parts h).2.1

theorem readRange_program_self (img : Image) (addr : Nat) (bs : Bytes) :
    readRange (program img addr bs) addr bs.length =
      List.zipWith (· &&& ·) (readRange img addr bs.length) bs := by
  refine List.ext_getElem (by simp) fun i h1 h2 => ?_
  have hi : i < bs.length := by simpa using h1
  rw [← List.getD_eq_getElem _ 0 h1, getD_readRange hi, program_inside hi, List.getElem_zipWith,
    ← List.getD_eq_getElem _ 0 (by simpa using hi), getD_readRange hi,
    List.getD_eq_getElem _ 0 hi]

/-- A part of a known range is programmed. -/
theorem readRange_program_mid {bs : Bytes} (h : readRange img addr n = pre ++ mid ++ post)
    (hlen : bs.length = mid.length) :
    readRange (program img (addr + pre.length) bs) addr n =
      pre ++ List.zipWith (· &&& ·) mid bs ++ post := by
  obtain ⟨hpre, hmid, hpost⟩ := readRange_parts h
  rw [length_of_readRange_eq h, readRange_add, readRange_add]
  congr 1
  · congr 1
    · rw [← hpre, length_readRange]
      exact readRange_congr fun i hi => program_outside (by omega)
    · rw [← hlen, readRange_program_self, hlen, hmid]
  · rw [← hpost, length_readRange]
    exact readRange_congr fun i hi => program_outside (by omega)

/-- An erased part takes the bytes. -/
theorem readRange_program_erased {bs : Bytes} {k : Nat}
    (h : readRange img addr n = pre ++ List.replicate k 0xFF) (hle : bs.length ≤ k) :
    readRange (program img (addr + pre.length) bs) addr n =
      pre ++ bs ++ List.replicate (k - bs.length) 0xFF := by
  have hsplit : readRange img addr n =
      pre ++ List.replicate bs.length 0xFF ++ List.replicate (k - bs.length) 0xFF := by
    rw [h, List.append_assoc, List.replicate_append_replicate, Nat.add_sub_cancel' hle]
  have hzip : List.zipWith (· &&& ·) (List.replicate bs.length (0xFF : UInt8)) bs = bs := by
    refine List.ext_getElem (by simp) fun i h1 h2 => ?_
    rw [List.getElem_zipWith, List.getElem_replicate, ff_and]
  rw [readRange_program_mid hsplit (by simp), hzip]

/-- Two operations can be exchanged. -/
theorem program_comm (img : Image) (a b : Nat) (xs ys : Bytes) :
    program (program img a xs) b ys = program (program img b ys) a xs := by
  funext x
  unfold program
  split_ifs
  · rw [UInt8.and_assoc, UInt8.and_comm (xs.getD _ _), ← UInt8.and_assoc]
  all_goals rfl

/-- A byte that is programmed twice. -/
theorem program_twice (img : Image) (a : Nat) (b c : UInt8) :
    program (program img a [b]) a [c] = program img a [b &&& c] := by
  funext x
  rcases Nat.lt_trichotomy x a with h | rfl | h
  · rw [program_outside (.inl h), program_outside (.inl h), program_outside (.inl h)]
  · rw [program_singleton, program_singleton, program_singleton, UInt8.and_assoc]
  · have hout : x < a ∨ a + 1 ≤ x := .inr h
    rw [program_outside hout, program_outside hout, program_outside hout]

/-- A range that an operation does not reach. -/
theorem readRange_program_disjoint {bs : Bytes} {a : Nat}
    (h : addr + n ≤ a ∨ a + bs.length ≤ addr) :
    readRange (program img a bs) addr n = readRange img addr n :=
  readRange_congr fun i hi => program_outside (by omega)

theorem readRange_eraseRange (img : Image) (addr n : Nat) :
    readRange (eraseRange img addr n) addr n = List.replicate n 0xFF := by
  refine List.ext_getElem (by simp) fun i h1 h2 => ?_
  have hi : i < n := by simpa using h1
  rw [← List.getD_eq_getElem _ 0 h1, getD_readRange hi, eraseRange, if_pos (by omega),
    List.getElem_replicate]

theorem readRange_eraseRange_disjoint {a k : Nat} (h : addr + n ≤ a ∨ a + k ≤ addr) :
    readRange (eraseRange img a k) addr n = readRange img addr n := by
  refine readRange_congr fun i hi => ?_
  rw [eraseRange, if_neg (by omega)]

end Parts

end Hc32Board.CodeLib
