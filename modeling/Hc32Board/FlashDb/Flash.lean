import Hc32Board.CodeLib.NorFlash
import Hc32Board.CodeLib.Run
import Mathlib.Tactic.IntervalCases

/-!
# The flash below FlashDB

The low level part of `fdb_utils.c`, for `FDB_WRITE_GRAN` 1 as `rtconfig.h` sets
it: `_fdb_flash_read`, `_fdb_flash_write`, `_fdb_flash_erase`, the status tables
and `_fdb_continue_ff_addr`.

An operation outside of the partition is refused.  Any other write or erase can
succeed or fail, and the power can go off in the middle of it: `Flash.plan` says how
each operation ends.  Once the power is off nothing changes the flash any more, so
what a function does to the flash behind that point does not matter.

A status is a row of bits in the flash that are cleared from the left.
`writeStatus_cases`: whatever the flash holds, a status that is written reads as the
greater one of the old status and the new one, and a write that fails or is cut short
leaves the old one.  `status_never_goes_back` is the result for every list of writes.
-/

namespace Hc32Board.FlashDb

open Hc32Board.CodeLib

/-- `fdb_err_t`. -/
inductive FdbErr where
  | noErr | eraseErr | readErr | writeErr | partNotFound | kvNameErr | kvNameExist | savedFull
  | initFailed
deriving DecidableEq, Repr

/-! ## Operations -/

/-- How a write or an erase ends.  `cut k`: the power goes off when `k` bytes are
done. -/
inductive Outcome where
  | done
  | failed
  | cut (k : Nat)
deriving DecidableEq, Repr

/-- The partition of the database. -/
structure Flash where
  img : Image
  size : Nat
  /-- How the operations end, by their number. -/
  plan : Nat → Outcome
  count : Nat
  /-- The power is off. -/
  off : Bool

/-- `_fdb_flash_read` into `buf`.  A read that leaves the partition fails and changes
nothing. -/
def Flash.read (f : Flash) (addr n : Nat) (buf : Bytes) : Bytes :=
  if addr + n ≤ f.size then overlay (readRange f.img addr n) buf else buf

/-- `_fdb_flash_write`. -/
def Flash.write (f : Flash) (addr : Nat) (buf : Bytes) : Flash × FdbErr :=
  if f.size < addr + buf.length then (f, .writeErr)
  else if f.off then (f, .noErr)
  else
    match f.plan f.count with
    | .done => ({ f with img := program f.img addr buf, count := f.count + 1 }, .noErr)
    | .failed => ({ f with count := f.count + 1 }, .writeErr)
    | .cut k =>
      ({ f with img := program f.img addr (buf.take k), count := f.count + 1, off := true }, .noErr)

/-- `_fdb_flash_erase`. -/
def Flash.erase (f : Flash) (addr size : Nat) : Flash × FdbErr :=
  if f.size < addr + size then (f, .eraseErr)
  else if f.off then (f, .noErr)
  else
    match f.plan f.count with
    | .done => ({ f with img := eraseRange f.img addr size, count := f.count + 1 }, .noErr)
    | .failed => ({ f with count := f.count + 1 }, .eraseErr)
    | .cut k =>
      ({ f with img := eraseRange f.img addr (min k size), count := f.count + 1, off := true },
        .noErr)

/-- `_fdb_flash_write_align`: an empty buffer is not written. -/
def Flash.writeAlign (f : Flash) (addr : Nat) (buf : Bytes) : Flash × FdbErr :=
  if 0 < buf.length then f.write addr buf else (f, .noErr)

/-- No operation fails and the power stays on. -/
structure Flash.Ready (f : Flash) : Prop where
  plan : ∀ i, f.plan i = .done
  on : f.off = false

/-- An erased flash. -/
def Flash.erased (size : Nat) : Flash := ⟨fun _ => 0xFF, size, fun _ => .done, 0, false⟩

theorem Flash.ready_erased (size : Nat) : (Flash.erased size).Ready := ⟨fun _ => rfl, rfl⟩

/-- The flash after a write that is done. -/
def Flash.prog (f : Flash) (addr : Nat) (buf : Bytes) : Flash :=
  { f with img := program f.img addr buf, count := f.count + 1 }

theorem Flash.Ready.prog {f : Flash} (h : f.Ready) (addr : Nat) (buf : Bytes) :
    (f.prog addr buf).Ready :=
  ⟨h.plan, h.on⟩

theorem Flash.write_done {f : Flash} {addr : Nat} {buf : Bytes} (hsize : addr + buf.length ≤ f.size)
    (hplan : f.plan f.count = .done) (hon : f.off = false) :
    f.write addr buf = (f.prog addr buf, .noErr) := by
  rw [Flash.write, if_neg (Nat.not_lt.mpr hsize), if_neg (by rw [hon]; decide), hplan]
  rfl

/-! ## Erased flash -/

/-- The loop of `_fdb_continue_ff_addr` over a block.  It keeps the start of the last
run of erased bytes and the last byte. -/
def ffBlock : Bytes → Nat → Nat × UInt8 → Nat × UInt8
  | [], _, s => s
  | b :: buf, start, (addr, last) =>
    ffBlock buf (start + 1) (if last ≠ 0xFF ∧ b = 0xFF then start else addr, b)

/-- The loop of `_fdb_continue_ff_addr` over the blocks. -/
def ffLoop (f : Flash) (endAddr : Nat) : Nat → Nat → Bytes → Nat × UInt8 → Nat × UInt8
  | 0, _, _, s => s
  | fuel + 1, start, buf, s =>
    if start < endAddr then
      let size := if start + 32 < endAddr then 32 else endAddr - start
      let buf := f.read start size buf
      ffLoop f endAddr fuel (start + 32) buf (ffBlock (buf.take size) start s)
    else s

/-- `_fdb_continue_ff_addr`. -/
def fdbContinueFfAddr (f : Flash) (start endAddr : Nat) : Nat :=
  let s := ffLoop f endAddr (endAddr - start) start (zeros 32) (start, 0)
  if s.2 = 0xFF then s.1 else endAddr

/-! ## Status tables -/

/-- `FDB_STATUS_TABLE_SIZE`. -/
def statusTableSize (statusNum : Nat) : Nat := (statusNum + 7) / 8

/-- `_fdb_set_status`: the table, and the byte of it that is not erased. -/
def fdbSetStatus (statusNum statusIndex : Nat) : Bytes × Option Nat :=
  let table : Bytes := List.replicate (statusTableSize statusNum) 0xFF
  if 0 < statusIndex then
    let byteIndex := (statusIndex - 1) / 8
    let byte := table.getD byteIndex 0 &&& (0xFF >>> UInt8.ofNat (statusIndex % 8))
    (table.set byteIndex byte, some byteIndex)
  else (table, none)

/-- The loop of `_fdb_get_status`, with `n` statuses still possible. -/
def getStatusLoop (table : Bytes) : Nat → Nat
  | 0 => 0
  | n + 1 =>
    if table.getD (n / 8) 0 &&& (0x80 >>> UInt8.ofNat (n % 8)) = 0 then n + 1
    else getStatusLoop table n

/-- `_fdb_get_status`. -/
def fdbGetStatus (table : Bytes) (statusNum : Nat) : Nat := getStatusLoop table (statusNum - 1)

/-- `_fdb_write_status`. -/
def Flash.writeStatus (f : Flash) (addr statusNum statusIndex : Nat) : Flash × FdbErr :=
  match fdbSetStatus statusNum statusIndex with
  -- the first status is an erased table
  | (_, none) => (f, .noErr)
  | (table, some byteIndex) => f.write (addr + byteIndex) [table.getD byteIndex 0]

/-- `_fdb_read_status`. -/
def Flash.readStatus (f : Flash) (addr statusNum : Nat) : Nat :=
  let table := zeros (statusTableSize statusNum)
  fdbGetStatus (f.read addr (statusTableSize statusNum) table) statusNum

theorem getStatusLoop_le (table : Bytes) (n : Nat) : getStatusLoop table n ≤ n := by
  induction n with
  | zero => exact Nat.le_refl 0
  | succ n ih =>
    rw [getStatusLoop]
    split_ifs <;> omega

/-- The bits that the mask of a status clears. -/
theorem statusMask_and : ∀ k < 8, ∀ j < 8,
    (0xFF >>> UInt8.ofNat k : UInt8) &&& (0x80 >>> UInt8.ofNat j) =
      if j < k then (0 : UInt8) else 0x80 >>> UInt8.ofNat j := by
  decide

section Write

variable {img : Image} {addr size idx : Nat}

/-- The bit `n` of a table after the write of a status. -/
theorem statusBit_program (hidx : idx % 8 ≠ 0) (n : Nat) (hn : n / 8 < size) :
    ((readRange (program img (addr + (idx - 1) / 8) [0xFF >>> UInt8.ofNat (idx % 8)]) addr
        size).getD (n / 8) 0 &&& (0x80 >>> UInt8.ofNat (n % 8)) = 0) ↔
      (readRange img addr size).getD (n / 8) 0 &&& (0x80 >>> UInt8.ofNat (n % 8)) = 0 ∨
        (idx - 1) / 8 * 8 ≤ n ∧ n < idx := by
  rw [getD_readRange hn, getD_readRange hn]
  by_cases hbyte : n / 8 = (idx - 1) / 8
  · rw [hbyte, program_singleton, UInt8.and_assoc,
      statusMask_and _ (Nat.mod_lt _ (by decide)) _ (Nat.mod_lt _ (by decide))]
    by_cases hlt : n % 8 < idx % 8
    · rw [if_pos hlt, UInt8.and_zero]
      exact iff_of_true rfl (.inr (by omega))
    · rw [if_neg hlt]
      exact (or_iff_left (by omega)).symm
  · rw [program_outside (by rw [List.length_singleton]; omega)]
    exact (or_iff_left (by omega)).symm

/-- A status that is written on top of another. -/
theorem getStatusLoop_program (hidx : idx % 8 ≠ 0) :
    ∀ n, idx ≤ n → n ≤ 8 * size →
      getStatusLoop (readRange (program img (addr + (idx - 1) / 8)
        [0xFF >>> UInt8.ofNat (idx % 8)]) addr size) n =
      max (getStatusLoop (readRange img addr size) n) idx := by
  intro n
  induction n with
  | zero => omega
  | succ n ih =>
    intro hle hsize
    have hbound := getStatusLoop_le (readRange img addr size) n
    rw [getStatusLoop, getStatusLoop, if_congr (statusBit_program hidx n (by omega)) rfl rfl]
    rcases Nat.lt_or_ge n idx with hlast | hlt
    · -- the last bit of the new status
      rw [if_pos (.inr (by omega))]
      split_ifs <;> omega
    · rw [if_congr (or_iff_left (show ¬ ((idx - 1) / 8 * 8 ≤ n ∧ n < idx) by omega)) rfl rfl]
      split_ifs
      · omega
      · exact ih hlt (by omega)

end Write

/-- The byte that `_fdb_write_status` programs. -/
theorem Flash.writeStatus_eq (f : Flash) (addr : Nat) {statusNum idx : Nat} (hidx : 0 < idx)
    (hlt : idx < statusNum) :
    f.writeStatus addr statusNum idx =
      f.write (addr + (idx - 1) / 8) [0xFF >>> UInt8.ofNat (idx % 8)] := by
  have hbyte : (idx - 1) / 8 < statusTableSize statusNum := by
    unfold statusTableSize
    omega
  rw [Flash.writeStatus, fdbSetStatus]
  dsimp only
  rw [if_pos hidx]
  simp [hbyte]

theorem Flash.read_zeros {f : Flash} {addr n : Nat} (h : addr + n ≤ f.size) :
    f.read addr n (zeros n) = readRange f.img addr n := by
  rw [Flash.read, if_pos h, overlay_of_length_le (by simp), length_zeros,
    List.take_of_length_le (by simp)]

section Status

variable {f : Flash} {addr statusNum idx : Nat}

/-- The status that a table in the flash shows. -/
theorem Flash.readStatus_eq (hsize : addr + statusTableSize statusNum ≤ f.size) :
    f.readStatus addr statusNum =
      getStatusLoop (readRange f.img addr (statusTableSize statusNum)) (statusNum - 1) := by
  rw [Flash.readStatus, Flash.read_zeros hsize, fdbGetStatus]

theorem Flash.write_off (h : f.off = true) (addr : Nat) (buf : Bytes) :
    (f.write addr buf).1.off = true := by
  rw [Flash.write, if_pos h]
  split_ifs <;> exact h

theorem Flash.writeStatus_off (h : f.off = true) (addr statusNum idx : Nat) :
    (f.writeStatus addr statusNum idx).1.off = true := by
  rw [Flash.writeStatus]
  split
  · exact h
  · exact f.write_off h _ _

/-- What a write can leave: the bytes are programmed, or nothing has changed and the power
is off or the write has failed, or the power went off in it. -/
theorem Flash.write_cases {buf : Bytes} (hsize : addr + buf.length ≤ f.size) :
    (f.write addr buf).1.size = f.size ∧
      ((f.write addr buf).1.img = program f.img addr buf ∨
        (f.write addr buf).1.img = f.img ∧
          ((f.write addr buf).1.off = true ∨ (f.write addr buf).2 = .writeErr) ∨
        (f.write addr buf).1.off = true ∧
          ∃ k < buf.length, (f.write addr buf).1.img = program f.img addr (buf.take k)) := by
  rw [Flash.write, if_neg (Nat.not_lt.mpr hsize)]
  by_cases hoff : f.off = true
  · rw [if_pos hoff]
    exact ⟨rfl, .inr (.inl ⟨rfl, .inl hoff⟩)⟩
  · rw [if_neg hoff]
    cases f.plan f.count with
    | done => exact ⟨rfl, .inl rfl⟩
    | failed => exact ⟨rfl, .inr (.inl ⟨rfl, .inr rfl⟩)⟩
    | cut k =>
      refine ⟨rfl, ?_⟩
      rcases Nat.lt_or_ge k buf.length with hlt | hge
      · exact .inr (.inr ⟨rfl, k, hlt, rfl⟩)
      · refine .inl ?_
        dsimp only
        rw [List.take_of_length_le hge]

/-- What a write of a status can leave. -/
theorem writeStatus_cases (hidx : idx % 8 ≠ 0) (hlt : idx < statusNum)
    (hsize : addr + statusTableSize statusNum ≤ f.size) :
    (f.writeStatus addr statusNum idx).1.size = f.size ∧
      ((f.writeStatus addr statusNum idx).1.readStatus addr statusNum =
          max (f.readStatus addr statusNum) idx ∨
        (f.writeStatus addr statusNum idx).1.readStatus addr statusNum =
            f.readStatus addr statusNum ∧
          ((f.writeStatus addr statusNum idx).1.off = true ∨
            (f.writeStatus addr statusNum idx).2 = .writeErr)) := by
  have hbyte : (idx - 1) / 8 < statusTableSize statusNum := by
    unfold statusTableSize
    omega
  have hnum : statusNum - 1 ≤ 8 * statusTableSize statusNum := by
    unfold statusTableSize
    omega
  rw [Flash.writeStatus_eq f addr (by omega) hlt]
  obtain ⟨hsame, hcase⟩ := @Flash.write_cases f (addr + (idx - 1) / 8)
    [0xFF >>> UInt8.ofNat (idx % 8)] (by rw [List.length_singleton]; omega)
  refine ⟨hsame, ?_⟩
  rw [Flash.readStatus_eq hsize, Flash.readStatus_eq (by rw [hsame]; exact hsize)]
  rcases hcase with himg | ⟨himg, herr⟩ | ⟨hoff, k, hk, himg⟩
  · rw [himg]
    exact .inl (getStatusLoop_program hidx _ (by omega) hnum)
  · rw [himg]
    exact .inr ⟨rfl, herr⟩
  · -- the power went off before the byte
    rw [List.length_singleton, Nat.lt_one_iff] at hk
    rw [himg, hk, List.take_zero, program_nil]
    exact .inr ⟨rfl, .inl hoff⟩

/-- The flash after the writes of some statuses. -/
def Flash.writeStatuses (addr statusNum : Nat) (f : Flash) (idxs : List Nat) : Flash :=
  run (fun f idx => (f.writeStatus addr statusNum idx).1) f idxs

/-- A status table under any list of writes, failed ones and a loss of power included.  The
status never goes back, it is always one that was written, and while the power is on it is
at least every status whose write has succeeded. -/
theorem status_never_goes_back (hsize : addr + statusTableSize statusNum ≤ f.size) (idxs : List Nat)
    (hidxs : ∀ idx ∈ idxs, idx % 8 ≠ 0 ∧ idx < statusNum) :
    f.readStatus addr statusNum ≤ (f.writeStatuses addr statusNum idxs).readStatus addr statusNum ∧
      ((f.writeStatuses addr statusNum idxs).readStatus addr statusNum =
          f.readStatus addr statusNum ∨
        (f.writeStatuses addr statusNum idxs).readStatus addr statusNum ∈ idxs) ∧
      ((f.writeStatuses addr statusNum idxs).off = false →
        ∀ pre idx post, idxs = pre ++ idx :: post →
          ((f.writeStatuses addr statusNum pre).writeStatus addr statusNum idx).2 = .noErr →
          idx ≤ (f.writeStatuses addr statusNum idxs).readStatus addr statusNum) := by
  induction idxs generalizing f with
  | nil => exact ⟨Nat.le_refl _, .inl rfl, fun _ pre idx post h => absurd h (by simp)⟩
  | cons i idxs ih =>
    obtain ⟨hmod, hlt⟩ := hidxs i List.mem_cons_self
    obtain ⟨hsize', hstep⟩ := writeStatus_cases hmod hlt hsize
    obtain ⟨hle, hmem, hack⟩ := @ih (f.writeStatus addr statusNum i).1 (by rw [hsize']; exact hsize)
      fun idx hidx => hidxs idx (List.mem_cons_of_mem i hidx)
    have hcons : f.writeStatuses addr statusNum (i :: idxs) =
        (f.writeStatus addr statusNum i).1.writeStatuses addr statusNum idxs := rfl
    rw [hcons]
    refine ⟨by omega, ?_, fun hon pre idx post hsplit herr => ?_⟩
    · rcases hmem with heq | hmem
      · rcases hstep with hmax | ⟨hsame, -⟩
        · rw [heq, hmax]
          rcases max_choice (f.readStatus addr statusNum) i with h | h
          · exact .inl h
          · exact .inr (by rw [h]; exact List.mem_cons_self)
        · exact .inl (heq.trans hsame)
      · exact .inr (List.mem_cons_of_mem i hmem)
    · cases pre with
      | nil =>
        obtain ⟨rfl, -⟩ := List.cons.inj hsplit
        rcases hstep with hmax | ⟨-, hoff | herr'⟩
        · omega
        · -- the power stays off
          have hend := run_invariant' (I := fun g : Flash => g.off = true)
            (fun _ j hj => Flash.writeStatus_off hj addr statusNum j) idxs _ hoff
          exact absurd (hon.symm.trans hend) Bool.false_ne_true
        · exact absurd (herr.symm.trans herr') FdbErr.noConfusion
      | cons p pre =>
        obtain ⟨rfl, htail⟩ := List.cons.inj hsplit
        exact hack hon pre idx post htail herr

/-- An erased flash whose second operation is cut short. -/
def cutFlash : Flash :=
  { Flash.erased 16 with plan := fun i => if i = 1 then .cut 0 else .done }

/-- Three writes to the status of a record.  The power goes off in the second one. -/
theorem status_never_goes_back_cut :
    (cutFlash.writeStatuses 4 6 [2, 5, 3]).readStatus 4 6 = cutFlash.readStatus 4 6 ∨
      (cutFlash.writeStatuses 4 6 [2, 5, 3]).readStatus 4 6 ∈ [2, 5, 3] :=
  (status_never_goes_back (f := cutFlash) (by decide) [2, 5, 3] (by decide)).2.1

end Status

end Hc32Board.FlashDb
