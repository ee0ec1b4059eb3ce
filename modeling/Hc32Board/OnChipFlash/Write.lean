import Hc32Board.OnChipFlash.Efm
import Hc32Board.RtThread.Errno

/-!
# Writing the on-chip flash

`hc32_flash_read` and `hc32_flash_write` of `drv_flash_f4.c`.

The controller programs words that start at a multiple of four.  A write that
starts between two words and ends before the next one reads the word, puts the
new bytes into it and programs it.  A write that starts between two words and
goes on into the next one is cut: the bytes before the next word are skipped,
and the function returns the number of the others.

`write_read_back_iff` says that a write to erased bytes does what it should
exactly when it is not cut.

`buf` is the memory from the argument on.  The result `none` is a failed
assertion of the controller.
-/

namespace Hc32Board.OnChipFlash

open Hc32Board.CodeLib
open Hc32Board.RtThread

/-! ## The driver -/

/-- `HC32_FLASH_END_ADDRESS`. -/
def flashEndAddress : UInt32 := 512 * 1024

/-- `hc32_flash_read`: the value it returns, and the bytes. -/
def hc32FlashRead (ready : Bool) (img : Image) (addr size : UInt32) : Option (Int × Bytes) :=
  if addr + size > flashEndAddress then some (-1, [])
  else
    (efmReadByte ready img addr size).map fun
      | none => (-rtError, [])
      | some bytes => (size.toBitVec.toInt, bytes)

/-- The loop that puts the data into `u8MemBuf`. -/
def fillMemBuf (memBuf : Bytes) (index : Nat) (buf : Image) : Nat → Bytes
  | 0 => memBuf
  | cnt + 1 => (fillMemBuf memBuf index buf cnt).set (index + cnt) (buf cnt)

/-- What `hc32_flash_write` returns after its last program operation. -/
def writeExit (size : UInt32) (r : Image × Bool) : Image × Int :=
  (r.1, if r.2 then size.toBitVec.toInt else -rtError)

/-- `hc32_flash_write`.  The waits of `ready` are those of the read of the word,
if there is one, and then those of the program operation. -/
def hc32FlashWrite (ready : Nat → Bool) (img : Image) (addr : UInt32) (buf : Image)
    (size : UInt32) : Option (Image × Int) :=
  if addr + size > flashEndAddress then some (img, -rtEInval)
  else if size < 1 then some (img, -rtEInval)
  else if addr % 4 ≠ 0 then
    let newAddr := (addr / 4 + 1) * 4
    let offsetVal := newAddr - addr
    if offsetVal ≥ size then
      let index := 4 - offsetVal
      match efmReadByte (ready 0) img (newAddr - 4) index with
      | none => none
      | some none => some (img, -rtError)
      | some (some head) =>
        let memBuf := fillMemBuf (overlay head [0xFF, 0xFF, 0xFF, 0xFF]) index.toNat buf size.toNat
        (efmProgram (fun k => ready (k + 1)) img (newAddr - 4) (fun i => memBuf.getD i 0) 4).map
          (writeExit size)
    else
      (efmProgram ready img newAddr (fun i => buf (offsetVal.toNat + i)) (size - offsetVal)).map
        (writeExit (size - offsetVal))
  else (efmProgram ready img addr buf size).map (writeExit size)

/-! ## The three ways of a write -/

/-- The request is inside the flash and not empty. -/
structure InFlash (addr size : UInt32) : Prop where
  pos : 0 < size.toNat
  le : addr.toNat + size.toNat ≤ 0x80000

theorem InFlash.not_gt {addr size : UInt32} (h : InFlash addr size) :
    ¬ addr + size > flashEndAddress := by
  have hle := h.le
  simp only [gt_iff_lt, UInt32.lt_iff_toNat_lt, UInt32.toNat_add,
    show flashEndAddress.toNat = 0x80000 from rfl]
  omega

theorem InFlash.not_lt_one {addr size : UInt32} (h : InFlash addr size) : ¬ size < 1 := by
  have hpos := h.pos
  rw [UInt32.lt_iff_toNat_lt]
  exact Nat.not_lt.mpr hpos

/-- The bytes of the data, from an offset on. -/
theorem readRange_shift (buf : Image) (off n : Nat) :
    readRange (fun i => buf (off + i)) 0 n = readRange buf off n :=
  readRange_congr fun i _ => by rw [Nat.zero_add]

theorem toInt_size {size : UInt32} (h : size.toNat ≤ 0x80000) :
    size.toBitVec.toInt = size.toNat := by
  rw [BitVec.toInt_eq_toNat_of_lt]
  · rfl
  · show 2 * size.toNat < 2 ^ 32
    omega

/-- A write that starts at a word. -/
theorem write_aligned (ready : Nat → Bool) (img buf : Image) {addr size : UInt32}
    (hin : InFlash addr size) (halign : addr.toNat % 4 = 0) :
    ∃ ok, hc32FlashWrite ready img addr buf size =
      some (writeExit size (program img addr.toNat (readRange buf 0 size.toNat), ok)) := by
  have hmod : ¬ addr % 4 ≠ 0 := by
    rw [not_not, ← UInt32.toNat_inj, UInt32.toNat_mod]
    exact halign
  obtain ⟨ok, hprog⟩ := efmProgram_eq ready img buf hin.pos hin.le halign
  refine ⟨ok, ?_⟩
  rw [hc32FlashWrite, if_neg hin.not_gt, if_neg hin.not_lt_one, if_neg hmod, hprog]
  rfl

/-- The word that follows an address between two words. -/
theorem next_word {addr : UInt32} (hle : addr.toNat ≤ 0x80000) :
    ((addr / 4 + 1) * 4).toNat = (addr.toNat / 4 + 1) * 4 ∧
      ((addr / 4 + 1) * 4 - addr).toNat = 4 - addr.toNat % 4 ∧
      ((addr / 4 + 1) * 4 - 4).toNat = addr.toNat / 4 * 4 ∧
      (4 - ((addr / 4 + 1) * 4 - addr)).toNat = addr.toNat % 4 := by
  have hnew : ((addr / 4 + 1) * 4).toNat = (addr.toNat / 4 + 1) * 4 := by
    simp only [UInt32.toNat_mul, UInt32.toNat_add, UInt32.toNat_div, UInt32.reduceToNat]
    omega
  have hoff : ((addr / 4 + 1) * 4 - addr).toNat = 4 - addr.toNat % 4 := by
    rw [UInt32.toNat_sub, hnew]
    omega
  refine ⟨hnew, hoff, ?_, ?_⟩
  · rw [UInt32.toNat_sub, hnew, show (4 : UInt32).toNat = 4 from rfl]
    omega
  · rw [UInt32.toNat_sub, hoff, show (4 : UInt32).toNat = 4 from rfl]
    omega

theorem fillMemBuf_eq (buf : Image) {memBuf : Bytes} {index : Nat} :
    ∀ n, index + n ≤ memBuf.length →
      fillMemBuf memBuf index buf n =
        memBuf.take index ++ readRange buf 0 n ++ memBuf.drop (index + n) := by
  intro n
  induction n with
  | zero => intro _; simp [fillMemBuf]
  | succ n ih =>
    intro hle
    have hprev : (memBuf.take index ++ readRange buf 0 n).length = index + n := by
      rw [List.length_append, List.length_take, length_readRange]
      omega
    have hone := readRange_add buf 0 n 1
    rw [Nat.zero_add] at hone
    rw [fillMemBuf, ih (by omega), List.set_append_right _ _ (Nat.le_of_eq hprev), hprev,
      Nat.sub_self, List.drop_eq_getElem_cons (by omega), List.set_cons_zero, hone]
    simp [readRange, Nat.add_assoc]

/-- `u8MemBuf` before the program operation: the old bytes of the word, the
data, and ones. -/
theorem memBuf_eq (buf : Image) {head : Bytes} {n : Nat} (hle : head.length + n ≤ 4) :
    fillMemBuf (overlay head [0xFF, 0xFF, 0xFF, 0xFF]) head.length buf n =
      head ++ (readRange buf 0 n ++ List.replicate (4 - head.length - n) 0xFF) := by
  have hover : overlay head [0xFF, 0xFF, 0xFF, 0xFF] =
      head ++ List.replicate (4 - head.length) 0xFF := by
    rw [show ([0xFF, 0xFF, 0xFF, 0xFF] : Bytes) = List.replicate 4 0xFF from rfl, overlay,
      List.length_replicate, List.take_of_length_le (Nat.le_of_add_right_le hle),
      List.drop_replicate]
  rw [fillMemBuf_eq buf n (by rw [length_overlay]; exact hle), hover, List.take_left' rfl,
    List.drop_append, List.drop_eq_nil_of_le (Nat.le_add_right _ _), Nat.add_sub_cancel_left,
    List.drop_replicate, List.nil_append, List.append_assoc]

/-- Programming that word programs the data. -/
theorem program_memBuf (img buf : Image) {base k n : Nat} (hle : k + n ≤ 4) :
    program img base (readRange (fun i =>
      (fillMemBuf (overlay (readRange img base k) [0xFF, 0xFF, 0xFF, 0xFF]) k buf n).getD i 0)
        0 4) =
      program img (base + k) (readRange buf 0 n) := by
  have hlen := length_readRange img base k
  have hmem := memBuf_eq buf (show (readRange img base k).length + n ≤ 4 by rw [hlen]; exact hle)
  rw [hlen] at hmem
  rw [hmem]
  have hsize : (readRange img base k ++
      (readRange buf 0 n ++ List.replicate (4 - k - n) 0xFF)).length = 4 := by
    simp only [List.length_append, length_readRange, List.length_replicate]
    omega
  have hword := readRange_getD
    (readRange img base k ++ (readRange buf 0 n ++ List.replicate (4 - k - n) 0xFF)) 0
  rw [hsize] at hword
  have happend := program_append img base (readRange img base k)
    (readRange buf 0 n ++ List.replicate (4 - k - n) 0xFF)
  rw [program_readRange_self, hlen] at happend
  rw [hword, ← happend, program_append_ones]

/-- A write inside one word.  The word that is programmed has the old bytes
before the data and ones behind it. -/
theorem write_within (ready : Nat → Bool) (img buf : Image) {addr size : UInt32}
    (hin : InFlash addr size) (halign : addr.toNat % 4 ≠ 0)
    (hshort : size.toNat ≤ 4 - addr.toNat % 4) :
    hc32FlashWrite ready img addr buf size = some (img, -rtError) ∨
      ∃ ok, hc32FlashWrite ready img addr buf size =
        some (writeExit size (program img addr.toNat (readRange buf 0 size.toNat), ok)) := by
  have hle := hin.le
  have hpos := hin.pos
  obtain ⟨-, hoff, hbase, hindex⟩ := next_word (show addr.toNat ≤ 0x80000 by omega)
  have hmod : addr % 4 ≠ 0 := by
    rw [Ne, ← UInt32.toNat_inj, UInt32.toNat_mod]
    exact halign
  have hge : (addr / 4 + 1) * 4 - addr ≥ size := by
    rw [ge_iff_le, UInt32.le_iff_toNat_le, hoff]
    exact hshort
  have hread := efmReadByte_eq (ready 0) img ((addr / 4 + 1) * 4 - 4)
    (4 - ((addr / 4 + 1) * 4 - addr)) (by omega) (by omega)
  rw [hbase, hindex] at hread
  rw [hc32FlashWrite, if_neg hin.not_gt, if_neg hin.not_lt_one, if_pos hmod]
  dsimp only
  rw [if_pos hge, hread, hindex]
  cases ready 0 with
  | false => exact .inl rfl
  | true =>
    obtain ⟨ok, hprog⟩ := efmProgram_eq (fun k => ready (k + 1)) img
      (fun i => (fillMemBuf (overlay (readRange img (addr.toNat / 4 * 4) (addr.toNat % 4))
        [0xFF, 0xFF, 0xFF, 0xFF]) (addr.toNat % 4) buf size.toNat).getD i 0)
      (show 0 < (4 : UInt32).toNat by decide)
      (show ((addr / 4 + 1) * 4 - 4).toNat + (4 : UInt32).toNat ≤ 0x80000 by
        rw [hbase, show (4 : UInt32).toNat = 4 from rfl]; omega)
      (by omega)
    refine .inr ⟨ok, ?_⟩
    rw [hbase, show (4 : UInt32).toNat = 4 from rfl, program_memBuf img buf (by omega),
      show addr.toNat / 4 * 4 + addr.toNat % 4 = addr.toNat by omega] at hprog
    rw [if_pos rfl]
    dsimp only
    rw [hprog]
    rfl

/-- A write that goes on into the next word.  Only the part from that word on
is programmed, and its length is what the function returns. -/
theorem write_cut (ready : Nat → Bool) (img buf : Image) {addr size : UInt32}
    (hin : InFlash addr size) (halign : addr.toNat % 4 ≠ 0)
    (hlong : 4 - addr.toNat % 4 < size.toNat) :
    ∃ ok : Bool, hc32FlashWrite ready img addr buf size =
      some (program img (addr.toNat / 4 * 4 + 4)
          (readRange buf (4 - addr.toNat % 4) (size.toNat - (4 - addr.toNat % 4))),
        if ok then ((size.toNat - (4 - addr.toNat % 4) : Nat) : Int) else -rtError) := by
  have hle := hin.le
  obtain ⟨hnew, hoff, -, -⟩ := next_word (show addr.toNat ≤ 0x80000 by omega)
  have hmod : addr % 4 ≠ 0 := by
    rw [Ne, ← UInt32.toNat_inj, UInt32.toNat_mod]
    exact halign
  have hlt : ¬ (addr / 4 + 1) * 4 - addr ≥ size := by
    rw [ge_iff_le, UInt32.le_iff_toNat_le, hoff]
    omega
  have hrest : (size - ((addr / 4 + 1) * 4 - addr)).toNat =
      size.toNat - (4 - addr.toNat % 4) := by
    rw [UInt32.toNat_sub, hoff]
    omega
  obtain ⟨ok, hprog⟩ := efmProgram_eq ready img
    (fun i => buf (((addr / 4 + 1) * 4 - addr).toNat + i))
    (show 0 < (size - ((addr / 4 + 1) * 4 - addr)).toNat by omega)
    (show ((addr / 4 + 1) * 4).toNat + (size - ((addr / 4 + 1) * 4 - addr)).toNat ≤ 0x80000 by
      omega)
    (by omega)
  refine ⟨ok, ?_⟩
  rw [hc32FlashWrite, if_neg hin.not_gt, if_neg hin.not_lt_one, if_pos hmod]
  dsimp only
  rw [if_neg hlt, hprog, Option.map_some, writeExit, readRange_shift, toInt_size (by omega), hrest,
    hoff, hnew, Nat.add_mul, Nat.one_mul]

/-! ## Read back -/

/-- What a write should do: a read gives the data, no other byte changes, and
the number of bytes is returned. -/
def WritesBack (img img' : Image) (addr size : UInt32) (buf : Image) (r : Int) : Prop :=
  hc32FlashRead true img' addr size = some ((size.toNat : Int), readRange buf 0 size.toNat) ∧
    (∀ a, a < addr.toNat ∨ addr.toNat + size.toNat ≤ a → img' a = img a) ∧
    r = size.toNat

theorem hc32FlashRead_eq (img : Image) {addr size : UInt32} (hin : InFlash addr size) :
    hc32FlashRead true img addr size =
      some ((size.toNat : Int), readRange img addr.toNat size.toNat) := by
  have hle := hin.le
  rw [hc32FlashRead, if_neg hin.not_gt, efmReadByte_eq true img addr size hin.pos hin.le,
    if_pos rfl, Option.map_some, toInt_size (by omega)]

/-- Programming the data into erased bytes is what a write should do. -/
theorem writesBack_program {img : Image} {addr size : UInt32} (buf : Image)
    (hin : InFlash addr size) (herased : ∀ i < size.toNat, img (addr.toNat + i) = 0xFF) :
    WritesBack img (program img addr.toNat (readRange buf 0 size.toNat)) addr size buf
      size.toNat := by
  have hlen := length_readRange buf 0 size.toNat
  refine ⟨?_, ?_, rfl⟩
  · have hones : ∀ i < (readRange buf 0 size.toNat).length, img (addr.toNat + i) = 0xFF := by
      rw [hlen]
      exact herased
    have hback := readRange_program hones
    rw [hlen] at hback
    rw [hc32FlashRead_eq _ hin, hback]
  · intro a ha
    exact program_outside (by rw [hlen]; exact ha)

/-- A write to erased bytes that does not return an error does what it should
exactly when it starts at a word or ends before the next one. -/
theorem write_read_back_iff (ready : Nat → Bool) (img buf : Image) (addr size : UInt32)
    (hin : InFlash addr size) (herased : ∀ i < size.toNat, img (addr.toNat + i) = 0xFF)
    (img' : Image) (r : Int) (hwrite : hc32FlashWrite ready img addr buf size = some (img', r))
    (hr : 0 ≤ r) :
    WritesBack img img' addr size buf r ↔
      addr.toNat % 4 = 0 ∨ addr.toNat % 4 + size.toNat ≤ 4 := by
  have hle := hin.le
  -- a write that is not cut programs the data and returns its length
  have hwhole : ∀ ok, hc32FlashWrite ready img addr buf size =
      some (writeExit size (program img addr.toNat (readRange buf 0 size.toNat), ok)) →
      WritesBack img img' addr size buf r := by
    intro ok h
    obtain ⟨rfl, rfl⟩ := Prod.mk.inj (Option.some.inj (hwrite.symm.trans h))
    cases ok with
    | false => exact absurd hr (show ¬ (0 : Int) ≤ -rtError by decide)
    | true =>
      rw [if_pos rfl, toInt_size (by omega)]
      exact writesBack_program buf hin herased
  constructor
  · intro hback
    by_contra hnot
    obtain ⟨halign, hlong⟩ := not_or.mp hnot
    obtain ⟨ok, hcut⟩ := write_cut ready img buf hin halign (by omega)
    obtain ⟨rfl, rfl⟩ := Prod.mk.inj (Option.some.inj (hwrite.symm.trans hcut))
    have hcount := hback.2.2
    cases ok with
    | false => exact absurd hr (show ¬ (0 : Int) ≤ -rtError by decide)
    | true =>
      rw [if_pos rfl] at hcount
      omega
  · intro hfits
    by_cases halign : addr.toNat % 4 = 0
    · obtain ⟨ok, h⟩ := write_aligned ready img buf hin halign
      exact hwhole ok h
    · rcases write_within ready img buf hin halign (by omega) with h | ⟨ok, h⟩
      · obtain ⟨rfl, rfl⟩ := Prod.mk.inj (Option.some.inj (hwrite.symm.trans h))
        exact absurd hr (by decide)
      · exact hwhole ok h

/-- A write of two bytes inside a word. -/
theorem write_within_word :
    ∃ img' r, hc32FlashWrite (fun _ => true) (fun _ => 0xFF) 5 (fun i => UInt8.ofNat i) 2 =
        some (img', r) ∧
      WritesBack (fun _ => 0xFF) img' 5 2 (fun i => UInt8.ofNat i) r := by
  refine ⟨_, 2, rfl, ?_⟩
  exact (write_read_back_iff (fun _ => true) (fun _ => 0xFF) (fun i => UInt8.ofNat i) 5 2
    ⟨by decide, by decide⟩ (fun _ _ => rfl) _ 2 rfl (by decide)).mpr (by decide)

/-- A write of four bytes from the middle of a word: two bytes are lost, and
the function returns two. -/
theorem write_loses_head :
    let written := hc32FlashWrite (fun _ => true) (fun _ => 0xFF) 2 (fun i => UInt8.ofNat (i + 1)) 4
    written.map (·.2) = some 2 ∧
      (written.bind fun w => hc32FlashRead true w.1 2 4) = some (4, [0xFF, 0xFF, 3, 4]) := by
  decide

end Hc32Board.OnChipFlash
