import Hc32Board.CodeLib.NorFlash

/-!
# The flash controller

`EFM_ReadByte`, `EFM_Program` and `EFM_SectorErase` of `hc32_ll_efm.c`.

Every build of the board defines `__DEBUG`, so a failed `DDL_ASSERT` ends in
the endless loop of `DDL_AssertHandler`.  The result is then `none`.  The
assertions about the locks of the registers are left out: the board unlocks
them at start, and the driver sets `PEMODE` around its calls.

Of the hardware it is assumed that a store programs one word and that in erase
mode a store erases the sector of its address.  `ready` gives the outcome of
each `EFM_WaitFlag`, in the order of the waits.  A timeout is reported, and the
functions go on.

`efmProgram_eq` says that a program operation of any length programs its bytes
and nothing else, although the controller is written in words.
-/

namespace Hc32Board.OnChipFlash

open Hc32Board.CodeLib

/-! ## The functions -/

/-- `EFM_END_ADDR`. -/
def efmEndAddr : UInt32 := 0x0007FFFF

/-- `IS_EFM_ADDR`: the flash, the OTP block and the security block. -/
def isEfmAddr (x : UInt32) : Bool :=
  x ≤ efmEndAddr || (0x03000C00 ≤ x && x ≤ 0x03000FFB) || (0x0317FFE0 ≤ x && x ≤ 0x0317FFFF)

/-- `IS_EFM_ERASE_ADDR`. -/
def isEfmEraseAddr (x : UInt32) : Bool := x ≤ efmEndAddr

/-- `IS_ADDR_ALIGN_WORD`. -/
def isAddrAlignWord (x : UInt32) : Bool := x &&& 3 == 0

/-- `SECTOR_SIZE`. -/
def sectorSize : UInt32 := 0x2000

/-- `EFM_ReadByte`, into a buffer that is not `NULL`.  The inner `none` is
`LL_ERR_NOT_RDY`. -/
def efmReadByte (ready : Bool) (img : Image) (addr len : UInt32) : Option (Option Bytes) :=
  if isEfmAddr addr && isEfmAddr (addr + len - 1) then
    some (if ready then some (readRange img addr.toNat len.toNat) else none)
  else none

/-- The word that a pointer to the source reads. -/
def wordAt (src : Image) (off : Nat) : BitVec 32 := ofLe4 (readRange src off 4)

/-- The loop of `EFM_Program` over the whole words.  `i` counts the words that
are done. -/
def wordLoop (ready : Nat → Bool) (src : Image) (dest : Nat) :
    Nat → Nat → Image × Bool → Image × Bool
  | 0, _, r => r
  | words + 1, i, r =>
    wordLoop ready src dest words (i + 1)
      (program r.1 (dest + 4 * i) (le4 (wordAt src (4 * i))), r.2 && ready i)

/-- The last word of `EFM_Program`, with ones behind the remaining bytes. -/
def lastWord (src : Image) (off remain : Nat) : BitVec 32 :=
  wordAt src off ||| (0xFFFFFFFF#32 <<< (remain * 8))

/-- `EFM_Program`: the image, and whether the result is `LL_OK`. -/
def efmProgram (ready : Nat → Bool) (img : Image) (addr : UInt32) (src : Image) (len : UInt32) :
    Option (Image × Bool) :=
  if isEfmAddr addr && isEfmAddr (addr + len - 1) && isAddrAlignWord addr then
    let loopWords := (len >>> 2).toNat
    let remainBytes := (len % 4).toNat
    let r := wordLoop ready src addr.toNat loopWords 0 (img, true)
    if remainBytes ≠ 0 then
      let last := le4 (lastWord src (4 * loopWords) remainBytes)
      some (program r.1 (addr.toNat + 4 * loopWords) last, r.2 && ready loopWords)
    else some r
  else none

/-- `EFM_SectorErase`. -/
def efmSectorErase (ready : Bool) (img : Image) (addr : UInt32) : Option (Image × Bool) :=
  if isEfmEraseAddr addr && isAddrAlignWord addr then
    some (eraseRange img (addr / sectorSize * sectorSize).toNat sectorSize.toNat, ready)
  else none

/-! ## Words and bytes -/

theorem isAddrAlignWord_iff (x : UInt32) : isAddrAlignWord x = true ↔ x.toNat % 4 = 0 := by
  have hand : (x &&& 3).toNat = x.toNat % 4 := by
    rw [UInt32.toNat_and]
    exact Nat.and_two_pow_sub_one_eq_mod x.toNat 2
  rw [isAddrAlignWord, beq_iff_eq, ← UInt32.toNat_inj, hand]
  rfl

theorem le4_wordAt (src : Image) (off : Nat) : le4 (wordAt src off) = readRange src off 4 :=
  le4_ofLe4 (length_readRange src off 4)

theorem le4_or (v w : BitVec 32) : le4 (v ||| w) = List.zipWith (· ||| ·) (le4 v) (le4 w) := by
  simp only [le4, BitVec.toNat_or, Nat.or_div_two_pow, UInt8.ofNat_or, List.zipWith_cons_cons,
    List.zipWith_nil_left]

/-- The last word has the remaining bytes, and ones behind them. -/
theorem le4_lastWord (src : Image) (off : Nat) {remain : Nat} (h : remain < 4) :
    le4 (lastWord src off remain) =
      readRange src off remain ++ List.replicate (4 - remain) 0xFF := by
  have hone : ∀ b : UInt8, b ||| 0xFF = 0xFF := fun _ => UInt8.or_neg_one
  rw [lastWord, le4_or, le4_wordAt]
  obtain rfl | rfl | rfl | rfl : remain = 0 ∨ remain = 1 ∨ remain = 2 ∨ remain = 3 := by omega
  · rw [show le4 (0xFFFFFFFF#32 <<< (0 * 8)) = [0xFF, 0xFF, 0xFF, 0xFF] by decide]
    simp [readRange, List.range_succ, hone]
  · rw [show le4 (0xFFFFFFFF#32 <<< (1 * 8)) = [0, 0xFF, 0xFF, 0xFF] by decide]
    simp [readRange, List.range_succ, hone, List.replicate_succ]
  · rw [show le4 (0xFFFFFFFF#32 <<< (2 * 8)) = [0, 0, 0xFF, 0xFF] by decide]
    simp [readRange, List.range_succ, hone, List.replicate_succ]
  · rw [show le4 (0xFFFFFFFF#32 <<< (3 * 8)) = [0, 0, 0, 0xFF] by decide]
    simp [readRange, List.range_succ, hone, List.replicate_succ]

/-- The loop programs the words as bytes, one behind the other. -/
theorem wordLoop_image (ready : Nat → Bool) (src : Image) (dest words i : Nat)
    (r : Image × Bool) :
    (wordLoop ready src dest words i r).1 =
      program r.1 (dest + 4 * i) (readRange src (4 * i) (4 * words)) := by
  induction words generalizing i r with
  | zero => exact (program_readRange_self r.1 (dest + 4 * i) 0).symm
  | succ words ih =>
    have hlen := length_readRange src (4 * i) 4
    have hnext := program_append r.1 (dest + 4 * i) (readRange src (4 * i) 4)
      (readRange src (4 * i + 4) (4 * words))
    rw [hlen, ← readRange_add] at hnext
    rw [wordLoop, ih, le4_wordAt, Nat.mul_add, Nat.mul_one, ← Nat.add_assoc, hnext,
      Nat.mul_add, Nat.mul_one, Nat.add_comm 4]

/-- The last byte of a range in the flash is an address of the controller. -/
theorem isEfmAddr_last {addr len : UInt32} (hlen : 0 < len.toNat)
    (hin : addr.toNat + len.toNat ≤ 0x80000) :
    isEfmAddr addr = true ∧ isEfmAddr (addr + len - 1) = true := by
  have hlast : (addr + len - 1).toNat = addr.toNat + len.toNat - 1 := by
    simp only [UInt32.toNat_sub, UInt32.toNat_add, UInt32.reduceToNat]
    omega
  have hin' : ∀ x : UInt32, x.toNat ≤ 0x7FFFF → isEfmAddr x = true := by
    intro x hx
    simp only [isEfmAddr, efmEndAddr, UInt32.le_iff_toNat_le, UInt32.reduceToNat, hx, decide_true,
      Bool.true_or]
  exact ⟨hin' _ (by omega), hin' _ (by omega)⟩

/-- `EFM_Program` on a range of the flash that starts at a word programs the
bytes of the source, and nothing else. -/
theorem efmProgram_eq (ready : Nat → Bool) (img : Image) {addr : UInt32} (src : Image)
    {len : UInt32} (hlen : 0 < len.toNat) (hin : addr.toNat + len.toNat ≤ 0x80000)
    (halign : addr.toNat % 4 = 0) :
    ∃ ok, efmProgram ready img addr src len =
      some (program img addr.toNat (readRange src 0 len.toNat), ok) := by
  obtain ⟨hfirst, hlast⟩ := isEfmAddr_last hlen hin
  have hguard : (isEfmAddr addr && isEfmAddr (addr + len - 1) && isAddrAlignWord addr) = true := by
    rw [hfirst, hlast, (isAddrAlignWord_iff addr).mpr halign]
    rfl
  have hwords : (len >>> 2).toNat = len.toNat / 4 := by
    rw [UInt32.toNat_shiftRight]
    exact Nat.shiftRight_eq_div_pow _ _
  have hremain : (len % 4).toNat = len.toNat % 4 := UInt32.toNat_mod _ _
  have himage := wordLoop_image ready src addr.toNat (len.toNat / 4) 0 (img, true)
  rw [Nat.mul_zero, Nat.add_zero] at himage
  rw [efmProgram, if_pos hguard]
  dsimp only
  rw [hwords, hremain]
  split_ifs with hrem
  · -- whole words and a part of one: the ones behind it are not programmed
    refine ⟨_, congrArg (fun i => some (i, _)) ?_⟩
    have happend := program_append img addr.toNat (readRange src 0 (4 * (len.toNat / 4)))
      (readRange src (4 * (len.toNat / 4)) (len.toNat % 4) ++
        List.replicate (4 - len.toNat % 4) 0xFF)
    rw [length_readRange] at happend
    rw [le4_lastWord _ _ (Nat.mod_lt _ (by decide)), himage, happend, ← List.append_assoc,
      program_append_ones]
    have hsplit := readRange_add src 0 (4 * (len.toNat / 4)) (len.toNat % 4)
    rw [Nat.zero_add, Nat.div_add_mod] at hsplit
    rw [hsplit]
  · have hfull : 4 * (len.toNat / 4) = len.toNat := by omega
    refine ⟨(wordLoop ready src addr.toNat (len.toNat / 4) 0 (img, true)).2, ?_⟩
    rw [hfull] at himage
    rw [← himage]

theorem efmReadByte_eq (ready : Bool) (img : Image) (addr len : UInt32) (hlen : 0 < len.toNat)
    (hin : addr.toNat + len.toNat ≤ 0x80000) :
    efmReadByte ready img addr len =
      some (if ready then some (readRange img addr.toNat len.toNat) else none) := by
  obtain ⟨hfirst, hlast⟩ := isEfmAddr_last hlen hin
  rw [efmReadByte, hfirst, hlast]
  rfl

end Hc32Board.OnChipFlash
