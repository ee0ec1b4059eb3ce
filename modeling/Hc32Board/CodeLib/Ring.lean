import Mathlib.Data.List.Basic
import Mathlib.Tactic.Common

/-!
# Circular buffers

A circular buffer is a list of cells that is read and written from some start
cell on, and that goes on with cell 0 behind its end.

* `putAt off src buf` is `memcpy` of `src` to the cells from `off` on.
* `window buf start n` are the `n` cells from `start` on.
* `putRound start src buf` writes `src` from `start` on, in two parts if it
  gets to the end of the buffer.

`window_putRound` is the rule for a write behind a window: the window gets
longer by what was written.
-/

namespace Hc32Board.CodeLib

variable {α : Type}

/-! ## Writing to a place of a buffer -/

/-- `memcpy` of `src` to the cells from `off` on.  The buffer keeps its
length. -/
def putAt (off : Nat) (src buf : List α) : List α :=
  buf.take off ++ (src.take (buf.length - off) ++ buf.drop (off + src.length))

@[simp] theorem length_putAt (off : Nat) (src buf : List α) :
    (putAt off src buf).length = buf.length := by
  simp only [putAt, List.length_append, List.length_take, List.length_drop]
  omega

@[simp] theorem putAt_nil (off : Nat) (buf : List α) : putAt off [] buf = buf := by
  simp [putAt]

theorem getElem?_putAt {off : Nat} {src buf : List α} (h : off + src.length ≤ buf.length)
    (i : Nat) :
    (putAt off src buf)[i]? =
      if off ≤ i ∧ i < off + src.length then src[i - off]? else buf[i]? := by
  have hoff : (buf.take off).length = off := by rw [List.length_take]; omega
  rw [putAt, List.take_of_length_le (l := src) (by omega)]
  split_ifs with hi
  · rw [List.getElem?_append_right (by omega), hoff, List.getElem?_append_left (by omega)]
  · rcases Nat.lt_or_ge i off with hlt | hge
    · rw [List.getElem?_append_left (by omega), List.getElem?_take, if_pos hlt]
    · rw [List.getElem?_append_right (by omega), hoff, List.getElem?_append_right (by omega),
        List.getElem?_drop]
      congr 1
      omega

/-! ## Windows -/

/-- The `n` cells from `start` on. -/
def window (buf : List α) (start n : Nat) : List α := ((buf ++ buf).drop start).take n

theorem getElem?_window {buf : List α} {start n i : Nat} (hi : i < n) :
    (window buf start n)[i]? =
      if start + i < buf.length then buf[start + i]? else buf[start + i - buf.length]? := by
  rw [window, List.getElem?_take, if_pos hi, List.getElem?_drop, List.getElem?_append]

theorem length_window {buf : List α} {start n : Nat} (h : start + n ≤ 2 * buf.length) :
    (window buf start n).length = n := by
  rw [window, List.length_take, List.length_drop, List.length_append]
  omega

@[simp] theorem window_zero (buf : List α) (start : Nat) : window buf start 0 = [] := by
  simp [window]

theorem take_window (buf : List α) (start n k : Nat) :
    (window buf start n).take k = window buf start (min k n) := by
  rw [window, List.take_take, window]

theorem drop_window (buf : List α) (start n k : Nat) :
    (window buf start n).drop k = window buf (start + k) (n - k) := by
  rw [window, List.drop_take, List.drop_drop, window]

/-- A window that starts behind the end of the buffer. -/
theorem window_sub_length {buf : List α} {start n : Nat} (hle : buf.length ≤ start)
    (hn : start + n ≤ 2 * buf.length) :
    window buf start n = window buf (start - buf.length) n := by
  have hfit : n ≤ (buf.drop (start - buf.length)).length := by
    rw [List.length_drop]
    omega
  rw [window, window, List.drop_append, List.drop_eq_nil_of_le hle, List.nil_append,
    List.drop_append_of_le_length (by omega), List.take_append_of_le_length hfit]

/-- A window in its two parts. -/
theorem window_eq_append (buf : List α) {start n : Nat} (hstart : start ≤ buf.length) :
    window buf start n =
      (buf.drop start).take (min (buf.length - start) n) ++
        buf.take (n - min (buf.length - start) n) := by
  rw [window, List.drop_append_of_le_length hstart, List.take_append, List.length_drop]
  rcases Nat.le_total n (buf.length - start) with hle | hle
  · rw [Nat.min_eq_right hle]
    simp [Nat.sub_eq_zero_of_le hle]
  · rw [Nat.min_eq_left hle, List.take_of_length_le (l := buf.drop start) (i := n)
      (by rw [List.length_drop]; omega),
      List.take_of_length_le (l := buf.drop start) (Nat.le_of_eq List.length_drop)]

/-! ## Writing behind a window -/

/-- `src` written from `start` on, and from cell 0 on behind the end. -/
def putRound (start : Nat) (src buf : List α) : List α :=
  putAt 0 (src.drop (buf.length - start)) (putAt start (src.take (buf.length - start)) buf)

@[simp] theorem length_putRound (start : Nat) (src buf : List α) :
    (putRound start src buf).length = buf.length := by
  simp [putRound]

theorem getElem?_putRound {start : Nat} {src buf : List α} (hstart : start ≤ buf.length)
    (hsrc : src.length ≤ buf.length) (i : Nat) :
    (putRound start src buf)[i]? =
      if i + buf.length < start + src.length then src[buf.length - start + i]?
      else if start ≤ i ∧ i < start + src.length ∧ i < buf.length then src[i - start]?
      else buf[i]? := by
  have hdrop : (src.drop (buf.length - start)).length = src.length - (buf.length - start) :=
    List.length_drop
  have htake : (src.take (buf.length - start)).length = min (buf.length - start) src.length :=
    List.length_take
  rw [putRound, getElem?_putAt (by rw [length_putAt]; omega), getElem?_putAt (by omega), hdrop,
    htake, List.getElem?_drop, List.getElem?_take, Nat.sub_zero]
  split_ifs <;> first | rfl | omega

/-- A write from the end of a window on makes the window longer.  `start` is
the end of the window, behind the end of the buffer or not. -/
theorem window_putRound {buf src : List α} {r n start : Nat} (hr : r < buf.length)
    (hend : r + n < buf.length ∧ start = r + n ∨
      buf.length ≤ r + n ∧ start = r + n - buf.length)
    (hfit : n + src.length ≤ buf.length) :
    window (putRound start src buf) r (n + src.length) = window buf r n ++ src := by
  have hlen : (window buf r n).length = n := length_window (by omega)
  have hbound : start ≤ buf.length := by omega
  apply List.ext_getElem?
  intro i
  rcases Nat.lt_or_ge i (n + src.length) with hi | hi
  · rw [getElem?_window hi, length_putRound, getElem?_putRound hbound (by omega),
      getElem?_putRound hbound (by omega), List.getElem?_append, hlen]
    rcases Nat.lt_or_ge i n with hin | hin
    · -- a cell of the old window: the write does not touch it
      rw [if_pos hin, getElem?_window hin]
      rcases hend with ⟨hlt, rfl⟩ | ⟨hge, rfl⟩ <;> split_ifs <;> first | rfl | omega
    · rw [if_neg (Nat.not_lt.mpr hin)]
      rcases hend with ⟨hlt, rfl⟩ | ⟨hge, rfl⟩ <;> split_ifs <;> first | omega | (congr 1; omega)
  · have hnone : (window (putRound start src buf) r (n + src.length)).length ≤ i := by
      rw [length_window (by rw [length_putRound]; omega)]
      exact hi
    rw [List.getElem?_eq_none hnone, List.getElem?_eq_none (by rw [List.length_append]; omega)]

end Hc32Board.CodeLib
