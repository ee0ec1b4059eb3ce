import Hc32Board.CodeLib.Ring

/-!
# The ring buffer library

`lwrb.c`: `lwrb_t` with `lwrb_init`, `lwrb_get_free`, `lwrb_get_full`,
`lwrb_write_ex` and `lwrb_read_ex`.

An `Lwrb` is a handle that `lwrb_init` has set up.  Both pointers are cells of
the buffer; that is part of the structure, so every function below has to keep
it.  The cells hold values of any type, because the library only copies them.

`unread` is the FIFO that the handle stands for.  The three results about it
are `lwrbWrite_unread`, `lwrbRead_data` and `lwrbRead_unread`.

The event function is left out; `lwrb_init` sets it to `NULL` and the driver
does not set another.  The checks for a `NULL` handle and `NULL` data are left
out too.
-/

namespace Hc32Board.Rs485

open Hc32Board.CodeLib

/-- `lwrb_t` after `lwrb_init`. -/
structure Lwrb (α : Type) where
  buff : List α
  wPtr : Nat
  rPtr : Nat
  wPtr_lt : wPtr < buff.length
  rPtr_lt : rPtr < buff.length

variable {α : Type}

def Lwrb.size (rb : Lwrb α) : Nat := rb.buff.length

/-- `lwrb_init`.  It refuses a buffer of size 0. -/
def lwrbInit (buffdata : List α) : Option (Lwrb α) :=
  if h : 0 < buffdata.length then some ⟨buffdata, 0, 0, h, h⟩ else none

def lwrbGetFree (rb : Lwrb α) : Nat :=
  let size := if rb.rPtr ≤ rb.wPtr then rb.size - (rb.wPtr - rb.rPtr) else rb.rPtr - rb.wPtr
  size - 1

def lwrbGetFull (rb : Lwrb α) : Nat :=
  if rb.rPtr ≤ rb.wPtr then rb.wPtr - rb.rPtr else rb.size - (rb.rPtr - rb.wPtr)

/-- `tocopy`: what fits between the pointer and the end of the buffer. -/
def Lwrb.tocopy (rb : Lwrb α) (ptr n : Nat) : Nat := min (rb.size - ptr) n

/-- The local pointer after the copy of `n` cells: step 1 and step 2 of
`lwrb_write_ex` and of `lwrb_read_ex`. -/
def Lwrb.copied (rb : Lwrb α) (ptr n : Nat) : Nat :=
  if 0 < n - rb.tocopy ptr n then n - rb.tocopy ptr n else ptr + rb.tocopy ptr n

/-- The pointer that is stored: step 3. -/
def Lwrb.advance (rb : Lwrb α) (ptr n : Nat) : Nat :=
  if rb.size ≤ rb.copied ptr n then 0 else rb.copied ptr n

theorem Lwrb.advance_lt (rb : Lwrb α) (ptr n : Nat) : rb.advance ptr n < rb.size := by
  have hpos : 0 < rb.size := Nat.lt_of_le_of_lt (Nat.zero_le _) rb.wPtr_lt
  rw [Lwrb.advance]
  split_ifs <;> omega

theorem Lwrb.copied_cases {rb : Lwrb α} {ptr n : Nat} (hptr : ptr < rb.size) :
    ptr + n ≤ rb.size ∧ rb.copied ptr n = ptr + n ∨
      rb.size < ptr + n ∧ rb.copied ptr n = ptr + n - rb.size := by
  rw [Lwrb.copied, Lwrb.tocopy]
  split_ifs <;> omega

/-- The pointer goes on with cell 0 behind the end. -/
theorem Lwrb.advance_cases {rb : Lwrb α} {ptr n : Nat} (hptr : ptr < rb.size) (hn : n < rb.size) :
    ptr + n < rb.size ∧ rb.advance ptr n = ptr + n ∨
      rb.size ≤ ptr + n ∧ rb.advance ptr n = ptr + n - rb.size := by
  have hcopied := Lwrb.copied_cases (n := n) hptr
  rw [Lwrb.advance]
  split_ifs <;> omega

/-- `lwrb_write_ex`: the handle afterwards and `*bwritten`, or `none` where it
returns 0.  `writeAll` is `LWRB_FLAG_WRITE_ALL`. -/
def lwrbWriteEx (rb : Lwrb α) (data : List α) (writeAll : Bool) : Option (Lwrb α × Nat) :=
  if data.length = 0 then none
  else if lwrbGetFree rb = 0 ∨ lwrbGetFree rb < data.length ∧ writeAll = true then none
  else
    let btw := min (lwrbGetFree rb) data.length
    let tocopy := rb.tocopy rb.wPtr btw
    let linear := putAt rb.wPtr (data.take tocopy) rb.buff
    -- the overflow part goes to the beginning of the buffer
    let buff := putAt 0 ((data.take btw).drop tocopy) linear
    have hlen : buff.length = rb.buff.length := by simp [buff, linear]
    some (⟨buff, rb.advance rb.wPtr btw, rb.rPtr, hlen ▸ rb.advance_lt _ _, hlen ▸ rb.rPtr_lt⟩, btw)

/-- `lwrb_write`. -/
def lwrbWrite (rb : Lwrb α) (data : List α) : Lwrb α × Nat :=
  (lwrbWriteEx rb data false).getD (rb, 0)

/-- `lwrb_read_ex`: the handle afterwards and the data, or `none` where it
returns 0.  `readAll` is `LWRB_FLAG_READ_ALL`. -/
def lwrbReadEx (rb : Lwrb α) (btr : Nat) (readAll : Bool) : Option (Lwrb α × List α) :=
  if btr = 0 then none
  else if lwrbGetFull rb = 0 ∨ lwrbGetFull rb < btr ∧ readAll = true then none
  else
    let btr := min (lwrbGetFull rb) btr
    let tocopy := rb.tocopy rb.rPtr btr
    let data := (rb.buff.drop rb.rPtr).take tocopy ++ rb.buff.take (btr - tocopy)
    some (⟨rb.buff, rb.wPtr, rb.advance rb.rPtr btr, rb.wPtr_lt, rb.advance_lt _ _⟩, data)

/-- `lwrb_read`. -/
def lwrbRead (rb : Lwrb α) (btr : Nat) : Lwrb α × List α :=
  (lwrbReadEx rb btr false).getD (rb, [])

/-! ## The FIFO -/

/-- The bytes that were written and not read, in the order of their arrival. -/
def Lwrb.unread (rb : Lwrb α) : List α := window rb.buff rb.rPtr (lwrbGetFull rb)

theorem lwrbGetFull_lt (rb : Lwrb α) : lwrbGetFull rb < rb.size := by
  have hw := rb.wPtr_lt
  have hr := rb.rPtr_lt
  rw [lwrbGetFull, Lwrb.size]
  split_ifs <;> omega

/-- One cell of the buffer stays empty. -/
theorem lwrbGetFree_eq (rb : Lwrb α) : lwrbGetFree rb = rb.size - 1 - lwrbGetFull rb := by
  have hw := rb.wPtr_lt
  have hr := rb.rPtr_lt
  simp only [lwrbGetFree, lwrbGetFull, Lwrb.size]
  split_ifs <;> omega

@[simp] theorem Lwrb.length_unread (rb : Lwrb α) : rb.unread.length = lwrbGetFull rb := by
  have hr := rb.rPtr_lt
  have hfull := lwrbGetFull_lt rb
  rw [Lwrb.size] at hfull
  exact length_window (by omega)

theorem lwrbInit_unread {buffdata : List α} {rb : Lwrb α} (h : lwrbInit buffdata = some rb) :
    rb.unread = [] := by
  rw [lwrbInit] at h
  split_ifs at h
  cases h
  exact window_zero _ _

/-- The write pointer is the end of the window of unread bytes. -/
theorem Lwrb.wPtr_cases (rb : Lwrb α) :
    rb.rPtr + lwrbGetFull rb < rb.size ∧ rb.wPtr = rb.rPtr + lwrbGetFull rb ∨
      rb.size ≤ rb.rPtr + lwrbGetFull rb ∧ rb.wPtr = rb.rPtr + lwrbGetFull rb - rb.size := by
  have hw := rb.wPtr_lt
  have hr := rb.rPtr_lt
  rw [lwrbGetFull, Lwrb.size]
  split_ifs <;> omega

/-- The count of unread bytes, from the end of their window. -/
theorem lwrbGetFull_of_wPtr {rb : Lwrb α} {n : Nat} (hn : n < rb.size)
    (h : rb.rPtr + n < rb.size ∧ rb.wPtr = rb.rPtr + n ∨
      rb.size ≤ rb.rPtr + n ∧ rb.wPtr = rb.rPtr + n - rb.size) : lwrbGetFull rb = n := by
  rw [lwrbGetFull]
  split_ifs <;> omega

/-- The copy of `lwrb_write_ex` in its two parts is one round write. -/
theorem Lwrb.putAt_parts (rb : Lwrb α) (src : List α) :
    putAt 0 (src.drop (rb.tocopy rb.wPtr src.length))
        (putAt rb.wPtr (src.take (rb.tocopy rb.wPtr src.length)) rb.buff) =
      putRound rb.wPtr src rb.buff := by
  rw [putRound, Lwrb.tocopy, Lwrb.size]
  rcases Nat.le_total src.length (rb.buff.length - rb.wPtr) with hle | hle
  · rw [Nat.min_eq_right hle, List.drop_eq_nil_of_le (Nat.le_refl _), List.drop_eq_nil_of_le hle,
      List.take_of_length_le (Nat.le_refl _), List.take_of_length_le hle]
  · rw [Nat.min_eq_left hle]

/-- A handle with `src` written behind the unread bytes. -/
theorem Lwrb.unread_of_putRound {rb rb' : Lwrb α} {src : List α}
    (hbuff : rb'.buff = putRound rb.wPtr src rb.buff)
    (hw : rb'.wPtr = rb.advance rb.wPtr src.length) (hr : rb'.rPtr = rb.rPtr)
    (hfit : src.length ≤ lwrbGetFree rb) : rb'.unread = rb.unread ++ src := by
  have hsize : rb'.size = rb.size := by rw [Lwrb.size, hbuff, length_putRound, Lwrb.size]
  have hlt := lwrbGetFull_lt rb
  have hroom := lwrbGetFree_eq rb
  have hend := rb.wPtr_cases
  have hadv := Lwrb.advance_cases (n := src.length) rb.wPtr_lt (show _ < rb.size by omega)
  have hr' := rb.rPtr_lt
  have hfull : lwrbGetFull rb' = lwrbGetFull rb + src.length := by
    apply lwrbGetFull_of_wPtr <;> rw [hsize]
    · omega
    · rw [hw, hr]
      simp only [Lwrb.size] at *
      omega
  rw [Lwrb.unread, hfull, hbuff, hr]
  exact window_putRound hr' hend (by rw [Lwrb.size] at hlt hroom; omega)

/-- A write appends what there is room for. -/
theorem lwrbWrite_unread (rb : Lwrb α) (data : List α) :
    (lwrbWrite rb data).1.unread = rb.unread ++ data.take (lwrbGetFree rb) := by
  rw [lwrbWrite, lwrbWriteEx]
  split_ifs with hnil hroom
  · rw [List.eq_nil_of_length_eq_zero hnil, List.take_nil, List.append_nil]
    rfl
  · have hzero : lwrbGetFree rb = 0 := by simpa using hroom
    rw [hzero, List.take_zero, List.append_nil]
    rfl
  · have htake : data.take (min (lwrbGetFree rb) data.length) = data.take (lwrbGetFree rb) := by
      rw [List.take_eq_take_iff]
      omega
    have hlen : min (lwrbGetFree rb) data.length = (data.take (lwrbGetFree rb)).length :=
      List.length_take.symm
    refine Lwrb.unread_of_putRound ?_ ?_ rfl (by rw [List.length_take]; omega)
    · have hcopy : rb.tocopy rb.wPtr (min (lwrbGetFree rb) data.length) ≤ lwrbGetFree rb := by
        rw [Lwrb.tocopy]
        omega
      rw [← rb.putAt_parts, ← hlen, List.take_take, Nat.min_eq_left hcopy]
      simp [htake]
    · rw [← hlen]
      rfl

theorem lwrbRead_data (rb : Lwrb α) (btr : Nat) : (lwrbRead rb btr).2 = rb.unread.take btr := by
  have hr := rb.rPtr_lt
  rw [lwrbRead, lwrbReadEx, Lwrb.unread, take_window]
  split_ifs with hzero hempty
  · rw [hzero, Nat.zero_min, window_zero]
    rfl
  · have hnone : lwrbGetFull rb = 0 := by simpa using hempty
    rw [hnone, Nat.min_zero, window_zero]
    rfl
  · rw [window_eq_append rb.buff (Nat.le_of_lt hr), Nat.min_comm btr]
    rfl

/-- A handle with `n` bytes read. -/
theorem Lwrb.unread_of_advance {rb rb' : Lwrb α} {n : Nat} (hbuff : rb'.buff = rb.buff)
    (hw : rb'.wPtr = rb.wPtr) (hr : rb'.rPtr = rb.advance rb.rPtr n)
    (hn : n ≤ lwrbGetFull rb) : rb'.unread = rb.unread.drop n := by
  have hsize : rb'.size = rb.size := by rw [Lwrb.size, hbuff, Lwrb.size]
  have hlt := lwrbGetFull_lt rb
  have hend := rb.wPtr_cases
  have hadv := Lwrb.advance_cases (n := n) rb.rPtr_lt (show _ < rb.size by omega)
  have hw' := rb.wPtr_lt
  have hfull : lwrbGetFull rb' = lwrbGetFull rb - n := by
    apply lwrbGetFull_of_wPtr <;> rw [hsize]
    · omega
    · rw [hw, hr]
      simp only [Lwrb.size] at *
      omega
  rw [Lwrb.unread, hfull, hbuff, hr, Lwrb.unread, drop_window]
  rcases hadv with ⟨_, hadv⟩ | ⟨hge, hadv⟩
  · rw [hadv]
  · rw [hadv, window_sub_length hge (by simp only [Lwrb.size] at *; omega), Lwrb.size]

theorem lwrbRead_unread (rb : Lwrb α) (btr : Nat) :
    (lwrbRead rb btr).1.unread = rb.unread.drop btr := by
  rw [lwrbRead, lwrbReadEx]
  split_ifs with hzero hempty
  · rw [hzero, List.drop_zero]
    rfl
  · have hnone : lwrbGetFull rb = 0 := by simpa using hempty
    have hnil : rb.unread = [] := List.eq_nil_of_length_eq_zero (by rw [rb.length_unread, hnone])
    rw [hnil, List.drop_nil, ← hnil]
    rfl
  · have hdrop : rb.unread.drop btr = rb.unread.drop (min (lwrbGetFull rb) btr) := by
      rw [← rb.length_unread]
      rcases Nat.le_total btr rb.unread.length with hle | hle
      · rw [Nat.min_eq_right hle]
      · rw [Nat.min_eq_left hle, List.drop_eq_nil_of_le hle, List.drop_length]
    rw [hdrop]
    exact Lwrb.unread_of_advance rfl rfl rfl (Nat.min_le_left _ _)

theorem lwrbWrite_size (rb : Lwrb α) (data : List α) : (lwrbWrite rb data).1.size = rb.size := by
  rw [lwrbWrite, lwrbWriteEx]
  split_ifs
  · rfl
  · rfl
  · simp [Lwrb.size]

theorem lwrbRead_size (rb : Lwrb α) (btr : Nat) : (lwrbRead rb btr).1.size = rb.size := by
  rw [lwrbRead, lwrbReadEx]
  split_ifs <;> rfl

end Hc32Board.Rs485
