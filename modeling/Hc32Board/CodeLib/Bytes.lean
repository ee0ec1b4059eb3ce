import Mathlib.Algebra.Group.Nat.Defs
import Mathlib.Data.List.Basic
import Mathlib.Data.List.TakeWhile
import Mathlib.Order.Basic
import Mathlib.Tactic.Common

/-!
# Byte buffers and C strings

The memory operations of the C library on byte lists.

* `overlay src dst` is `memcpy` of `src` to the start of the buffer `dst`.
  The buffer keeps its length.
* `storeAt buf i bs` is the buffer after a loop stored `bs` from index `i` on.
* `fit n bs` is a buffer of `n` bytes that holds `bs`, cut to the buffer and
  padded with zeros.  It is `overlay` on a cleared buffer (`overlay_zeros`).
* `cstr bs` is the C string at the start of `bs`: the bytes before the first
  NUL.
* `strncpyBuf n s` is a buffer of `n` bytes after `strncpy(buf, s, n - 1)`
  and `buf[n - 1] = 0`.
* `le4` and `ofLe4` are the little-endian bytes of a 32-bit word.
-/

namespace Hc32Board.CodeLib

abbrev Bytes := List UInt8

/-- The bytes of an ASCII literal, without its NUL. -/
def ascii (s : String) : Bytes := s.toList.map fun c => UInt8.ofNat c.toNat

/-! ## Buffers -/

/-- A cleared buffer. -/
def zeros (n : Nat) : Bytes := List.replicate n 0

@[simp] theorem length_zeros (n : Nat) : (zeros n).length = n := List.length_replicate

@[simp] theorem zeros_zero : zeros 0 = [] := rfl

/-- `memcpy` of `src` to the start of the buffer `dst`. -/
def overlay (src dst : Bytes) : Bytes :=
  src.take dst.length ++ dst.drop src.length

@[simp] theorem length_overlay (src dst : Bytes) : (overlay src dst).length = dst.length := by
  simp only [overlay, List.length_append, List.length_take, List.length_drop]
  omega

@[simp] theorem overlay_nil (dst : Bytes) : overlay [] dst = dst := by
  simp [overlay]

/-- A copy that fills the buffer leaves nothing of the old contents. -/
theorem overlay_of_length_le {src dst : Bytes} (h : dst.length ≤ src.length) :
    overlay src dst = src.take dst.length := by
  simp [overlay, List.drop_eq_nil_of_le h]

/-- A second copy of the same length hides the first. -/
theorem overlay_overlay {a b dst : Bytes} (h : a.length = b.length) :
    overlay a (overlay b dst) = overlay a dst := by
  have hdrop : (overlay b dst).drop a.length = dst.drop a.length := by
    have htake : (b.take dst.length).drop b.length = [] :=
      List.drop_eq_nil_of_le (by rw [List.length_take]; omega)
    rw [overlay, h, List.drop_append, htake, List.nil_append, List.drop_drop, List.length_take]
    rcases Nat.le_total b.length dst.length with hle | hle
    · rw [Nat.min_eq_right hle, Nat.sub_self, Nat.add_zero]
    · rw [List.drop_eq_nil_of_le (by omega), List.drop_eq_nil_of_le hle]
  rw [overlay, length_overlay, hdrop, overlay]

/-- A buffer of `n` bytes that holds `bs`, cut to the buffer and padded with
zeros. -/
def fit (n : Nat) (bs : Bytes) : Bytes :=
  bs.take n ++ zeros (n - bs.length)

@[simp] theorem length_fit (n : Nat) (bs : Bytes) : (fit n bs).length = n := by
  simp only [fit, List.length_append, List.length_take, length_zeros]
  omega

theorem overlay_zeros (n : Nat) (bs : Bytes) : overlay bs (zeros n) = fit n bs := by
  rw [overlay, fit, length_zeros, zeros, List.drop_replicate, zeros]

theorem fit_take (n : Nat) (bs : Bytes) : fit n (bs.take n) = fit n bs := by
  have hsub : n - min n bs.length = n - bs.length := by omega
  rw [fit, List.take_take, Nat.min_self, List.length_take, hsub, fit]

theorem fit_of_length_eq {n : Nat} {bs : Bytes} (h : bs.length = n) : fit n bs = bs := by
  rw [fit, List.take_of_length_le (le_of_eq h), h, Nat.sub_self, zeros_zero, List.append_nil]

theorem zeros_append (m n : Nat) : zeros m ++ zeros n = zeros (m + n) :=
  List.replicate_append_replicate

theorem fit_of_length_le {n : Nat} {bs : Bytes} (h : bs.length ≤ n) :
    fit n bs = bs ++ zeros (n - bs.length) := by
  rw [fit, List.take_of_length_le h]

/-- Copies of one length that fit the buffer can be told apart. -/
theorem overlay_inj {a b dst : Bytes} (hlen : a.length = b.length) (hle : a.length ≤ dst.length) :
    overlay a dst = overlay b dst ↔ a = b := by
  constructor
  · intro h
    rw [overlay, overlay, List.take_of_length_le hle, List.take_of_length_le (hlen ▸ hle)] at h
    exact (List.append_inj h hlen).1
  · rintro rfl
    rfl

/-- A copy onto a buffer gives the padded buffer only when the bytes behind the
copy are zero. -/
theorem overlay_eq_fit_iff (bs dst : Bytes) :
    overlay bs dst = fit dst.length bs ↔ dst.drop bs.length = zeros (dst.length - bs.length) := by
  rw [overlay, fit, List.append_cancel_left_eq]

/-- The buffer after bytes were stored one by one from an index on. -/
def storeAt (buf : Bytes) (i : Nat) (bytes : Bytes) : Bytes :=
  buf.take i ++ bytes ++ buf.drop (i + bytes.length)

theorem storeAt_nil (buf : Bytes) (i : Nat) : storeAt buf i [] = buf := by
  simp [storeAt]

theorem storeAt_cons {buf : Bytes} {i : Nat} (h : i < buf.length) (b : UInt8) (bytes : Bytes) :
    storeAt (buf.set i b) (i + 1) bytes = storeAt buf i (b :: bytes) := by
  have htake : (buf.set i b).take (i + 1) = buf.take i ++ [b] := by
    have hmin : (buf.take i).length = i := by
      rw [List.length_take, Nat.min_eq_left (Nat.le_of_lt h)]
    rw [List.take_set, List.take_succ_eq_append_getElem h,
      List.set_append_right _ _ (Nat.le_of_eq hmin), hmin, Nat.sub_self]
    rfl
  rw [storeAt, storeAt, htake, List.drop_set_of_lt (by omega), List.length_cons,
    show i + 1 + bytes.length = i + (bytes.length + 1) by omega]
  simp

theorem fit_zeros (n k : Nat) : fit n (zeros k) = zeros n := by
  simp only [fit, zeros, List.take_replicate, List.length_replicate,
    List.replicate_append_replicate]
  congr 1
  omega

/-- A buffer that shows zeros holds a list of zeros, if the list fits. -/
theorem eq_zeros_of_fit {n : Nat} {bs : Bytes} (h : fit n bs = zeros n) (hle : bs.length ≤ n) :
    bs = zeros bs.length := by
  have hmem : ∀ b ∈ bs, b = 0 := by
    intro b hb
    have hin : b ∈ fit n bs := by
      rw [fit, List.take_of_length_le hle]
      exact List.mem_append_left _ hb
    rw [h] at hin
    exact List.eq_of_mem_replicate hin
  exact List.eq_replicate_of_mem hmem

/-- A copy that leaves zeros only has copied zeros only. -/
theorem fit_of_overlay_eq_zeros {bs dst : Bytes} (h : overlay bs dst = zeros dst.length) :
    fit dst.length bs = zeros dst.length := by
  have hmem : ∀ b ∈ fit dst.length bs, b = 0 := by
    intro b hb
    rcases List.mem_append.1 hb with hb | hb
    · have hin : b ∈ overlay bs dst := List.mem_append_left _ hb
      rw [h] at hin
      exact List.eq_of_mem_replicate hin
    · exact List.eq_of_mem_replicate hb
  have hrep := List.eq_replicate_of_mem hmem
  rw [length_fit] at hrep
  exact hrep

/-! ## C strings -/

/-- The C string at the start of a buffer. -/
def cstr (bs : Bytes) : Bytes := bs.takeWhile (· != 0)

theorem zero_notMem_cstr (bs : Bytes) : (0 : UInt8) ∉ cstr bs := by
  intro h
  have := List.mem_takeWhile_imp h
  simp at this

theorem cstr_append {a : Bytes} (h : (0 : UInt8) ∉ a) (b : Bytes) :
    cstr (a ++ b) = a ++ cstr b := by
  refine List.takeWhile_append_of_pos fun c hc => ?_
  rw [bne_iff_ne]
  rintro rfl
  exact h hc

/-- A list without a NUL, followed by a NUL or by nothing, is its own C
string. -/
theorem cstr_append_zeros {bs : Bytes} (h : (0 : UInt8) ∉ bs) (n : Nat) :
    cstr (bs ++ zeros n) = bs := by
  rw [cstr_append h]
  cases n with
  | zero => exact List.append_nil _
  | succ n => exact List.append_nil _

theorem cstr_eq_self {bs : Bytes} (h : (0 : UInt8) ∉ bs) : cstr bs = bs := by
  simpa using cstr_append_zeros h 0

/-- A buffer shows the string it was filled with. -/
theorem cstr_fit {n : Nat} {bs : Bytes} (h : (0 : UInt8) ∉ bs) (hlen : bs.length ≤ n) :
    cstr (fit n bs) = bs := by
  rw [fit, List.take_of_length_le hlen]
  exact cstr_append_zeros h _

/-- Two strings that fit the buffer give the same buffer only when they are
the same string. -/
theorem fit_inj_of_no_nul {n : Nat} {a b : Bytes} (ha : (0 : UInt8) ∉ a) (hb : (0 : UInt8) ∉ b)
    (hla : a.length ≤ n) (hlb : b.length ≤ n) : fit n a = fit n b ↔ a = b := by
  constructor
  · intro h
    rw [← cstr_fit ha hla, h, cstr_fit hb hlb]
  · rintro rfl
    rfl

/-- The buffer after `strncpy(buf, s, n - 1)` and `buf[n - 1] = 0`. -/
def strncpyBuf (n : Nat) (s : Bytes) : Bytes :=
  fit n ((cstr s).take (n - 1))

@[simp] theorem length_strncpyBuf (n : Nat) (s : Bytes) : (strncpyBuf n s).length = n :=
  length_fit _ _

theorem strncpyBuf_of_no_nul {s : Bytes} (h : (0 : UInt8) ∉ s) (n : Nat) :
    strncpyBuf n s = fit n (s.take (n - 1)) := by
  rw [strncpyBuf, cstr_eq_self h]

/-- Two strings fill a buffer alike only when they agree on the part that
fits. -/
theorem strncpyBuf_eq_iff {a b : Bytes} (ha : (0 : UInt8) ∉ a) (hb : (0 : UInt8) ∉ b) (n : Nat) :
    strncpyBuf n a = strncpyBuf n b ↔ a.take (n - 1) = b.take (n - 1) := by
  have hcut : ∀ s : Bytes, (s.take (n - 1)).length ≤ n := by
    intro s
    rw [List.length_take]
    omega
  rw [strncpyBuf_of_no_nul ha, strncpyBuf_of_no_nul hb]
  exact fit_inj_of_no_nul (fun h => ha (List.mem_of_mem_take h))
    (fun h => hb (List.mem_of_mem_take h)) (hcut a) (hcut b)

/-- A string cut to `m` bytes fills the buffer like the whole string only when
the cut is behind its end or behind the end of the buffer. -/
theorem strncpyBuf_take_iff {s : Bytes} (h : (0 : UInt8) ∉ s) (n m : Nat) :
    strncpyBuf n (s.take m) = strncpyBuf n s ↔ s.length ≤ m ∨ n ≤ m + 1 := by
  rw [strncpyBuf_eq_iff (fun h0 => h (List.mem_of_mem_take h0)) h, List.take_take]
  constructor
  · intro heq
    have hlen := congrArg List.length heq
    rw [List.length_take, List.length_take] at hlen
    omega
  · intro hcut
    rcases Nat.lt_or_ge m (n - 1) with hlt | hle
    · have hs : s.length ≤ m := by omega
      rw [Nat.min_eq_right (by omega), List.take_of_length_le hs,
        List.take_of_length_le (by omega)]
    · rw [Nat.min_eq_left hle]

/-! ## Little-endian words -/

/-- The four bytes of a 32-bit word, lowest first. -/
def le4 (v : BitVec 32) : Bytes :=
  [UInt8.ofNat v.toNat, UInt8.ofNat (v.toNat / 2 ^ 8), UInt8.ofNat (v.toNat / 2 ^ 16),
    UInt8.ofNat (v.toNat / 2 ^ 24)]

/-- The 32-bit word at the start of a byte list.  Bytes past the end count
as zero. -/
def ofLe4 (bs : Bytes) : BitVec 32 :=
  BitVec.ofNat 32 ((bs.getD 0 0).toNat + 2 ^ 8 * (bs.getD 1 0).toNat +
    2 ^ 16 * (bs.getD 2 0).toNat + 2 ^ 24 * (bs.getD 3 0).toNat)

@[simp] theorem length_le4 (v : BitVec 32) : (le4 v).length = 4 := rfl

@[simp] theorem ofLe4_le4 (v : BitVec 32) : ofLe4 (le4 v) = v := by
  apply BitVec.eq_of_toNat_eq
  have hv : v.toNat < 2 ^ 32 := v.isLt
  simp only [ofLe4, le4, List.getD_cons_zero, List.getD_cons_succ, UInt8.toNat_ofNat',
    BitVec.toNat_ofNat]
  omega

theorem le4_ofLe4 {bs : Bytes} (h : bs.length = 4) : le4 (ofLe4 bs) = bs := by
  obtain ⟨a, b, c, d, rfl⟩ := List.length_eq_four.1 h
  have ha := a.toNat_lt
  have hb := b.toNat_lt
  have hc := c.toNat_lt
  have hd := d.toNat_lt
  simp only [ofLe4, le4, List.getD_cons_zero, List.getD_cons_succ, BitVec.toNat_ofNat,
    List.cons.injEq, and_true]
  refine ⟨?_, ?_, ?_, ?_⟩ <;>
    · apply UInt8.toNat_inj.1
      rw [UInt8.toNat_ofNat']
      omega

end Hc32Board.CodeLib
