import Mathlib.Data.List.Basic
import Mathlib.Tactic.Common

/-!
# Cyclic redundancy checks

A check value of `w` bits in the reflected form: the message comes in with the
lowest bit first, and the state is shifted towards its lowest bit.

* `crcBits` is the check, one message bit at a time.
* `crcShifts_eight` is the step of a table of 256 words.  The shift is linear, so
  the low byte of the state and the rest of it can be treated apart.
* `crcBits_burst` says which damage is always found: two messages that differ
  only inside a window of at most `w` bits have different check values.

The last result needs the top bit of the polynomial.  With it the top bit of
each state shows what was fed back in the step before, so the last `w` steps can
be read off the final state.
-/

namespace Hc32Board.CodeLib

variable {w : Nat}

/-! ## One message bit at a time -/

/-- The state after one message bit. -/
def crcBit (poly s : BitVec w) (b : Bool) : BitVec w :=
  if s.getLsbD 0 ^^ b then (s >>> 1) ^^^ poly else s >>> 1

/-- The state after a list of message bits. -/
def crcBits (poly s : BitVec w) (bits : List Bool) : BitVec w := bits.foldl (crcBit poly) s

@[simp] theorem crcBits_cons (poly s : BitVec w) (b : Bool) (bits : List Bool) :
    crcBits poly s (b :: bits) = crcBits poly (crcBit poly s b) bits := rfl

theorem crcBits_append (poly s : BitVec w) (xs ys : List Bool) :
    crcBits poly s (xs ++ ys) = crcBits poly (crcBits poly s xs) ys :=
  List.foldl_append

theorem getLsbD_crcBit (poly s : BitVec w) (b : Bool) (i : Nat) :
    (crcBit poly s b).getLsbD i =
      (s.getLsbD (i + 1) ^^ ((s.getLsbD 0 ^^ b) && poly.getLsbD i)) := by
  rw [crcBit]
  split_ifs with h
  · simp [h, BitVec.getLsbD_xor, Nat.add_comm]
  · simp [h, Nat.add_comm]

section Burst

variable {poly : BitVec w} (hpoly : poly.getLsbD (w - 1) = true)
include hpoly

/-- The top bit of a state is what was fed back. -/
theorem getLsbD_crcBit_top (s : BitVec w) (b : Bool) :
    (crcBit poly s b).getLsbD (w - 1) = (s.getLsbD 0 ^^ b) := by
  rw [getLsbD_crcBit, hpoly, BitVec.getLsbD_of_ge s _ (by omega)]
  simp

/-- Two runs of `k` steps with the same end started in states that agree from
bit `k` on. -/
theorem agree_of_crcBits_eq :
    ∀ {xs ys : List Bool} {s t : BitVec w}, xs.length = ys.length → xs.length ≤ w →
      crcBits poly s xs = crcBits poly t ys → ∀ i, xs.length ≤ i → s.getLsbD i = t.getLsbD i := by
  intro xs
  induction xs with
  | nil =>
    intro ys s t hlen _ heq i _
    obtain rfl := List.length_eq_zero_iff.mp hlen.symm
    exact congrArg (·.getLsbD i) heq
  | cons x xs ih =>
    intro ys s t hlen hle heq i hi
    obtain ⟨y, ys, rfl⟩ := List.exists_cons_of_length_pos (by rw [← hlen]; simp : 0 < ys.length)
    simp only [List.length_cons] at hlen hle hi
    rw [crcBits_cons, crcBits_cons] at heq
    have hstep := ih (by omega) (by omega) heq
    -- both runs fed back the same bit
    have hback := hstep (w - 1) (by omega)
    rw [getLsbD_crcBit_top hpoly, getLsbD_crcBit_top hpoly] at hback
    obtain ⟨i, rfl⟩ : ∃ j, i = j + 1 := ⟨i - 1, by omega⟩
    have hbit := hstep i (by omega)
    rw [getLsbD_crcBit, getLsbD_crcBit, hback] at hbit
    simpa using hbit

/-- At most `w` message bits can be read off the state behind them. -/
theorem crcBits_window_inj :
    ∀ {xs ys : List Bool} {s : BitVec w}, xs.length = ys.length → xs.length ≤ w →
      crcBits poly s xs = crcBits poly s ys → xs = ys := by
  intro xs
  induction xs with
  | nil =>
    intro ys s hlen _ _
    exact (List.length_eq_zero_iff.mp hlen.symm).symm
  | cons x xs ih =>
    intro ys s hlen hle heq
    obtain ⟨y, ys, rfl⟩ := List.exists_cons_of_length_pos (by rw [← hlen]; simp : 0 < ys.length)
    simp only [List.length_cons] at hlen hle
    rw [crcBits_cons, crcBits_cons] at heq
    have hback := agree_of_crcBits_eq hpoly (by omega) (by omega) heq (w - 1) (by omega)
    rw [getLsbD_crcBit_top hpoly, getLsbD_crcBit_top hpoly] at hback
    obtain rfl : x = y := by simpa using hback
    rw [ih (by omega) (by omega) heq]

/-- The same message bits lead from different states to different states. -/
theorem crcBits_state_inj :
    ∀ {xs : List Bool} {s t : BitVec w}, crcBits poly s xs = crcBits poly t xs → s = t := by
  intro xs
  induction xs with
  | nil => exact fun h => h
  | cons x xs ih =>
    intro s t h
    have hstep := ih h
    have hback := congrArg (·.getLsbD (w - 1)) hstep
    simp only [getLsbD_crcBit_top hpoly] at hback
    have hlow : s.getLsbD 0 = t.getLsbD 0 := by simpa using hback
    apply BitVec.eq_of_getLsbD_eq
    intro i _
    cases i with
    | zero => exact hlow
    | succ i =>
      have hbit := congrArg (·.getLsbD i) hstep
      simp only [getLsbD_crcBit, hlow] at hbit
      simpa using hbit

/-- Damage inside a window of at most `w` bits changes the check value. -/
theorem crcBits_burst {pre xs ys post : List Bool} {s : BitVec w} (hlen : xs.length = ys.length)
    (hle : xs.length ≤ w)
    (heq : crcBits poly s (pre ++ xs ++ post) = crcBits poly s (pre ++ ys ++ post)) : xs = ys := by
  rw [crcBits_append, crcBits_append _ _ (pre ++ ys)] at heq
  have hend := crcBits_state_inj hpoly heq
  rw [crcBits_append, crcBits_append] at hend
  exact crcBits_window_inj hpoly hlen hle hend

end Burst

/-! ## Eight bits at a time -/

/-- The state after a message bit 0. -/
def crcShift (poly s : BitVec w) : BitVec w := crcBit poly s false

def crcShifts (poly : BitVec w) : Nat → BitVec w → BitVec w
  | 0, s => s
  | n + 1, s => crcShifts poly n (crcShift poly s)

theorem crcShift_xor (poly a b : BitVec w) :
    crcShift poly (a ^^^ b) = crcShift poly a ^^^ crcShift poly b := by
  apply BitVec.eq_of_getLsbD_eq
  intro i _
  simp only [crcShift, getLsbD_crcBit, BitVec.getLsbD_xor, Bool.xor_false]
  cases a.getLsbD (i + 1) <;> cases b.getLsbD (i + 1) <;> cases a.getLsbD 0 <;>
    cases b.getLsbD 0 <;> cases poly.getLsbD i <;> rfl

theorem crcShifts_xor (poly : BitVec w) (n : Nat) (a b : BitVec w) :
    crcShifts poly n (a ^^^ b) = crcShifts poly n a ^^^ crcShifts poly n b := by
  induction n generalizing a b with
  | zero => rfl
  | succ n ih => rw [crcShifts, crcShift_xor, ih, crcShifts, crcShifts]

/-- Zeros at the low end are shifted out unchanged. -/
theorem crcShifts_of_low_zero (poly : BitVec w) :
    ∀ (n : Nat) (s : BitVec w), (∀ i < n, s.getLsbD i = false) → crcShifts poly n s = s >>> n := by
  intro n
  induction n with
  | zero => intro s _; exact (BitVec.ushiftRight_zero s).symm
  | succ n ih =>
    intro s h
    have hshift : crcShift poly s = s >>> 1 := by
      rw [crcShift, crcBit, h 0 (by omega)]
      rfl
    rw [crcShifts, hshift, ih (s >>> 1) (fun i hi => ?_), ← BitVec.shiftRight_add, Nat.add_comm]
    rw [BitVec.getLsbD_ushiftRight]
    exact h (1 + i) (by omega)

/-- Eight shifts, with the low byte of the state treated apart. -/
theorem crcShifts_eight (poly s : BitVec w) :
    crcShifts poly 8 s = crcShifts poly 8 (s &&& 255) ^^^ (s >>> 8) := by
  have hmask : ∀ i, (255 : BitVec w).getLsbD i = (decide (i < w) && decide (i < 8)) := by
    intro i
    rw [show (255 : BitVec w) = BitVec.ofNat w (2 ^ 8 - 1) from rfl, BitVec.getLsbD_ofNat,
      Nat.testBit_two_pow_sub_one]
  have hsplit : s = (s &&& 255) ^^^ (s &&& ~~~255) := by
    apply BitVec.eq_of_getLsbD_eq
    intro i hi
    simp only [BitVec.getLsbD_xor, BitVec.getLsbD_and, BitVec.getLsbD_not, hmask]
    cases s.getLsbD i <;> cases decide (i < 8) <;> simp [hi]
  have hlow : ∀ i < 8, (s &&& ~~~255).getLsbD i = false := by
    intro i hi
    simp only [BitVec.getLsbD_and, BitVec.getLsbD_not, hmask]
    simp [hi]
  have hhigh : (s &&& ~~~255) >>> 8 = s >>> 8 := by
    apply BitVec.eq_of_getLsbD_eq
    intro i _
    simp only [BitVec.getLsbD_ushiftRight, BitVec.getLsbD_and, BitVec.getLsbD_not, hmask]
    rcases Nat.lt_or_ge (8 + i) w with h | h
    · simp [h]
    · simp [BitVec.getLsbD_of_ge s (8 + i) h]
  calc crcShifts poly 8 s
      = crcShifts poly 8 ((s &&& 255) ^^^ (s &&& ~~~255)) := by rw [← hsplit]
    _ = crcShifts poly 8 (s &&& 255) ^^^ (s >>> 8) := by
        rw [crcShifts_xor, crcShifts_of_low_zero poly 8 _ hlow, hhigh]

/-- The bits of a byte in the order in which they enter. -/
def byteBits (b : UInt8) : List Bool := (List.range 8).map b.toBitVec.getLsbD

@[simp] theorem length_byteBits (b : UInt8) : (byteBits b).length = 8 := by simp [byteBits]

/-- Message bits as they stand in the state they enter. -/
def crcPack (w : Nat) : List Bool → BitVec w
  | [] => 0
  | b :: bits => BitVec.setWidth w (BitVec.ofBool b) ^^^ (crcPack w bits <<< 1)

theorem getLsbD_crcPack (bits : List Bool) :
    ∀ {i : Nat}, i < w → (crcPack w bits).getLsbD i = bits.getD i false := by
  induction bits with
  | nil => intro i _; simp [crcPack]
  | cons b bits ih =>
    intro i hi
    cases i with
    | zero => simp [crcPack, hi]
    | succ i =>
      have htail := ih (show i < w by omega)
      rw [crcPack, BitVec.getLsbD_xor, BitVec.getLsbD_shiftLeft, Nat.add_sub_cancel, htail]
      simp [hi]

/-- A message bit enters at the low end. -/
theorem crcBit_eq_crcShift (poly s : BitVec w) (b : Bool) (hw : 0 < w) :
    crcBit poly s b = crcShift poly (s ^^^ BitVec.setWidth w (BitVec.ofBool b)) := by
  apply BitVec.eq_of_getLsbD_eq
  intro i _
  simp [crcShift, getLsbD_crcBit, hw]

/-- Message bits can enter all at once. -/
theorem crcBits_eq_crcShifts (poly : BitVec w) :
    ∀ (bits : List Bool) (s : BitVec w), bits.length ≤ w →
      crcBits poly s bits = crcShifts poly bits.length (s ^^^ crcPack w bits) := by
  intro bits
  induction bits with
  | nil => intro s _; exact (BitVec.xor_zero).symm
  | cons b bits ih =>
    intro s hle
    rw [List.length_cons] at hle
    have hrest : crcShift poly (crcPack w bits <<< 1) = crcPack w bits := by
      have hshift := crcShifts_of_low_zero poly 1 (crcPack w bits <<< 1) (by simp)
      have htop : (crcPack w bits <<< 1) >>> 1 = crcPack w bits := by
        apply BitVec.eq_of_getLsbD_eq
        intro i hi
        rw [BitVec.getLsbD_ushiftRight, BitVec.getLsbD_shiftLeft, Nat.add_sub_cancel_left,
          getLsbD_crcPack bits hi]
        rcases Nat.lt_or_ge (1 + i) w with h | h
        · simp [h]
        · simp [Nat.not_lt.mpr h, List.getElem?_eq_none (show bits.length ≤ i by omega)]
      exact hshift.trans htop
    rw [crcBits_cons, ih _ (by omega), crcBit_eq_crcShift poly s b (by omega), List.length_cons,
      crcShifts, crcPack, ← BitVec.xor_assoc, crcShift_xor poly (s ^^^ _), hrest]

/-- A byte enters all at once. -/
theorem crcBits_byteBits (poly s : BitVec w) (b : UInt8) (hw : 8 ≤ w) :
    crcBits poly s (byteBits b) = crcShifts poly 8 (s ^^^ b.toBitVec.setWidth w) := by
  have hpack : crcPack w (byteBits b) = b.toBitVec.setWidth w := by
    apply BitVec.eq_of_getLsbD_eq
    intro i hi
    rw [getLsbD_crcPack _ hi, BitVec.getLsbD_setWidth, byteBits]
    rcases Nat.lt_or_ge i 8 with h | h
    · simp [h, hi]
    · rw [BitVec.getLsbD_of_ge _ i h]
      simp [h]
  rw [crcBits_eq_crcShifts poly _ s (by simpa using hw), hpack, length_byteBits]

/-- The bits of a byte list. -/
def bytesBits (bs : List UInt8) : List Bool := bs.flatMap byteBits

@[simp] theorem bytesBits_cons (b : UInt8) (bs : List UInt8) :
    bytesBits (b :: bs) = byteBits b ++ bytesBits bs := rfl

@[simp] theorem length_bytesBits (bs : List UInt8) :
    (bytesBits bs).length = 8 * bs.length := by
  induction bs with
  | nil => rfl
  | cons b bs ih =>
    rw [bytesBits_cons, List.length_append, length_byteBits, ih, List.length_cons]
    omega

theorem byteBits_inj {a b : UInt8} (h : byteBits a = byteBits b) : a = b := by
  apply UInt8.toBitVec_inj.mp
  apply BitVec.eq_of_getLsbD_eq
  intro i hi
  exact List.map_inj_left.mp h i (List.mem_range.mpr hi)

/-- A byte list can be read off its bits. -/
theorem bytesBits_inj : ∀ {xs ys : List UInt8}, bytesBits xs = bytesBits ys → xs = ys := by
  intro xs
  induction xs with
  | nil =>
    intro ys h
    cases ys with
    | nil => rfl
    | cons y ys =>
      have hlen := congrArg List.length h
      rw [length_bytesBits, length_bytesBits, List.length_cons, List.length_nil] at hlen
      omega
  | cons x xs ih =>
    intro ys h
    cases ys with
    | nil =>
      have hlen := congrArg List.length h
      rw [length_bytesBits, length_bytesBits, List.length_cons, List.length_nil] at hlen
      omega
    | cons y ys =>
      rw [bytesBits_cons, bytesBits_cons] at h
      obtain ⟨hhead, htail⟩ := List.append_inj h (by rw [length_byteBits, length_byteBits])
      rw [byteBits_inj hhead, ih htail]

/-- Two byte lists differ at most inside a window of `k` bits. -/
def Burst (k : Nat) (xs ys : List UInt8) : Prop :=
  ∃ pre a b post, bytesBits xs = pre ++ a ++ post ∧ bytesBits ys = pre ++ b ++ post ∧
    a.length = b.length ∧ a.length ≤ k

end Hc32Board.CodeLib
