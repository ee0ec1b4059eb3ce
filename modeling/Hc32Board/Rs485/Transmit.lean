import Hc32Board.CodeLib.Bytes
import Hc32Board.RtThread.Errno

/-!
# The transmit hold of the RS485 driver

`rs485_wait_tx_complete` and `rs485_send`, in the 32-bit arithmetic of the
target, where `unsigned long` is `uint32_t`.

`rs485_send` sets the direction pin to transmit, writes the frame, waits for a
time computed from the length of the frame and the baudrate, and sets the pin
back.  A character has ten bits on the wire, so a frame of `len` characters
takes `len * 10 * 1000000 / baudrate` microseconds.

The wait has one character of margin and two divisions that round up.  It also
has a product that leaves the 32 bits from 429 characters on.  `hold_iff` says
exactly when the wait covers the frame.
-/

namespace Hc32Board.Rs485.Transmit

open Hc32Board.CodeLib
open Hc32Board.RtThread

/-- What `rs485_wait_tx_complete` asks for: `rt_hw_us_delay` or
`rt_thread_mdelay`. -/
inductive Delay where
  | none
  | us (n : UInt32)
  | ms (n : UInt32)
deriving DecidableEq, Repr

/-- The delay in microseconds. -/
def Delay.micros : Delay → Nat
  | .none => 0
  | .us n => n.toNat
  | .ms n => n.toNat * 1000

/-- `rs485_wait_tx_complete`. -/
def rs485WaitTxComplete (len : UInt16) (baudrate : UInt32) : Delay :=
  if len = 0 ∨ baudrate = 0 then .none
  else
    let totalBits : UInt32 := (len.toUInt32 + 1) * 10
    let delayUs : UInt32 := (totalBits * 1000000 + baudrate - 1) / baudrate
    if delayUs < 1000 then .us delayUs
    else .ms ((delayUs + 999) / 1000)

/-- What `rs485_send` does to the bus, in order. -/
inductive BusEvent where
  | dirTx
  | write (data : Bytes)
  | wait (d : Delay)
  | dirRx
deriving DecidableEq, Repr

/-- `rs485_send`, with the value it returns.  `dev` tells whether `rs485_dev`
is set.  `data` is the memory at the argument, or `none` for `NULL`. -/
def rs485Send (dev : Bool) (baudrate : UInt32) (data : Option Bytes) (len : UInt16) :
    List BusEvent × Int :=
  match data with
  | some bytes =>
    if dev = false ∨ len = 0 then ([], -rtError)
    else
      ([.dirTx, .write (bytes.take len.toNat), .wait (rs485WaitTxComplete len baudrate), .dirRx],
        len.toNat)
  | none => ([], -rtError)

/-- The microseconds that the events wait before the pin is set back to
receive. -/
def heldFor : List BusEvent → Nat
  | [] => 0
  | .dirRx :: _ => 0
  | .wait d :: es => d.micros + heldFor es
  | .dirTx :: es | .write _ :: es => heldFor es

/-- The time covers `len` characters of ten bits.  The division of
`len * 10 * 1000000` by the baudrate is exact. -/
def Covers (micros len baudrate : Nat) : Prop := len * 10 * 1000000 ≤ micros * baudrate

/-! ## The wait as arithmetic -/

/-- The wait in microseconds, for a `delay_us` of `d`. -/
def roundedUp (d : Nat) : Nat := if d < 1000 then d else (d + 999) % 2 ^ 32 / 1000 * 1000

/-- `delay_us`: only the last remainder of the 32-bit operations is left. -/
theorem micros_wait {len : UInt16} {baudrate : UInt32} (hlen : len ≠ 0) (hbaud : baudrate ≠ 0) :
    (rs485WaitTxComplete len baudrate).micros =
      roundedUp (((len.toNat + 1) * 10000000 + baudrate.toNat - 1) % 2 ^ 32 / baudrate.toNat) := by
  have hb : 0 < baudrate.toNat := by
    rcases Nat.eq_zero_or_pos baudrate.toNat with h | h
    · exact absurd (UInt32.toNat_inj.mp h) hbaud
    · exact h
  have hl := len.toNat_lt
  have hd : ((((len.toUInt32 + 1) * 10) * 1000000 + baudrate - 1) / baudrate).toNat =
      ((len.toNat + 1) * 10000000 + baudrate.toNat - 1) % 2 ^ 32 / baudrate.toNat := by
    rw [UInt32.toNat_div]
    congr 1
    simp only [UInt32.toNat_sub, UInt32.toNat_add, UInt32.toNat_mul, UInt16.toNat_toUInt32,
      UInt32.reduceToNat]
    omega
  rw [rs485WaitTxComplete, if_neg (by simp [hlen, hbaud]), ← hd]
  dsimp only
  rw [roundedUp]
  split_ifs with h1 h2 h2
  · rfl
  · exact absurd h1 (by rw [UInt32.lt_iff_toNat_lt]; exact h2)
  · exact absurd h2 (by rw [UInt32.lt_iff_toNat_lt] at h1; exact h1)
  · rw [Delay.micros, UInt32.toNat_div, UInt32.toNat_add]
    rfl

/-! ## When the wait is long enough -/

/-- The number of microseconds, rounded up, fits the 32 bits.  The second case
is an accident: the number that is left after the overflow is 1001, and the
wait of two milliseconds covers the frame. -/
def HoldFits (len baudrate : Nat) : Prop :=
  (len + 1) * 10 * 1000000 + baudrate - 1 < 2 ^ 32 ∨
    (len = 857 ∧ 4285000 ≤ baudrate ∧ baudrate ≤ 4285032)

instance (len baudrate : Nat) : Decidable (HoldFits len baudrate) := by
  unfold HoldFits; infer_instance

theorem le_roundedUp {d : Nat} (h : d + 999 < 2 ^ 32) : d ≤ roundedUp d := by
  unfold roundedUp
  split_ifs <;> omega

theorem roundedUp_le (d : Nat) : roundedUp d ≤ d + 999 := by
  unfold roundedUp
  split_ifs <;> omega

/-- Without an overflow the quotient covers the frame and its margin. -/
theorem covers_of_lt {len b x : Nat} (hb : 0 < b) (hx : x + 1 = (len + 1) * 10000000 + b)
    (hfit : x < 2 ^ 32) : len * 10000000 ≤ roundedUp (x / b) * b := by
  have hup : x < x / b * b + b := Nat.lt_div_mul_add hb
  have hlo : x / b * b ≤ x := Nat.div_mul_le_self _ _
  generalize x / b = d at hup hlo ⊢
  have hd : d + 999 < 2 ^ 32 := by
    rcases Nat.lt_or_ge b 2 with h1 | h2
    · obtain rfl : b = 1 := by omega
      omega
    · have : d * 2 ≤ d * b := Nat.mul_le_mul_left d h2
      omega
  have hround : d * b ≤ roundedUp d * b := Nat.mul_le_mul_right b (le_roundedUp hd)
  omega

/-- The two milliseconds of the accident. -/
theorem covers_of_accident {b x : Nat} (hx : x + 1 = (857 + 1) * 10000000 + b)
    (hlo : 4285000 ≤ b) (hhi : b ≤ 4285032) :
    857 * 10000000 ≤ roundedUp (x % 2 ^ 32 / b) * b := by
  have hmod : x % 2 ^ 32 = 4285032703 + b := by omega
  have hd : (4285032703 + b) / b = 1001 := by
    rw [Nat.div_eq_iff (by omega)]
    omega
  have hround : roundedUp 1001 = 2000 := by decide
  rw [hmod, hd, hround]
  omega

/-- After an overflow a wait below one millisecond is too short: the frame
would need a baudrate close to `2 ^ 32`, and the quotient is then 0 or 1. -/
theorem short_of_micros {len b d x : Nat} (hlen : 0 < len) (hb32 : b < 2 ^ 32)
    (hx : x + 1 = (len + 1) * 10000000 + b) (hover : 2 ^ 32 ≤ x) (hd : d * b ≤ x % 2 ^ 32) :
    d * b < len * 10000000 := by
  by_contra hge
  have hbig : 2 ^ 32 < b + 10000000 := by omega
  have hd2 : d < 2 := by
    by_contra hge2
    have : 2 * b ≤ d * b := Nat.mul_le_mul_right b (Nat.not_lt.mp hge2)
    omega
  have hmod : x % 2 ^ 32 = x - 2 ^ 32 := by omega
  obtain rfl | rfl : d = 0 ∨ d = 1 := by omega
  · omega
  · have hlen429 : len = 429 := by omega
    omega

/-- After an overflow a wait of whole milliseconds is too short, but for the
accident: the two roundings leave a quotient of 1000 to 1002. -/
theorem accident_of_millis {len b d x : Nat} (hx : x + 1 = (len + 1) * 10000000 + b)
    (hover : 2 ^ 32 ≤ x) (hd1000 : 1000 ≤ d) (hd : d * b ≤ x % 2 ^ 32)
    (hcov : len * 10000000 ≤ roundedUp d * b) :
    len = 857 ∧ 4285000 ≤ b ∧ b ≤ 4285032 := by
  have hround : roundedUp d * b ≤ d * b + 999 * b := by
    rw [← Nat.add_mul]
    exact Nat.mul_le_mul_right b (roundedUp_le d)
  have h1000 : 1000 * b ≤ d * b := Nat.mul_le_mul_right b hd1000
  have hmod : x % 2 ^ 32 = x - 2 ^ 32 := by omega
  have hblo : 4284968 ≤ b := by omega
  have hd1003 : d < 1003 := by
    by_contra hge
    have : 1003 * b ≤ d * b := Nat.mul_le_mul_right b (by omega)
    omega
  obtain rfl | h2 : d = 1000 ∨ (roundedUp d = 2000 ∧ 1001 ≤ d) := by
    unfold roundedUp
    split_ifs <;> omega
  · have hr : roundedUp 1000 = 1000 := by decide
    rw [hr] at hcov
    omega
  · have h1001 : 1001 * b ≤ d * b := Nat.mul_le_mul_right b h2.2
    rw [h2.1] at hcov
    have hlen857 : len = 857 := by omega
    omega

theorem covers_wait_iff {len : UInt16} {baudrate : UInt32} (hlen : len ≠ 0)
    (hbaud : baudrate ≠ 0) :
    Covers (rs485WaitTxComplete len baudrate).micros len.toNat baudrate.toNat ↔
      HoldFits len.toNat baudrate.toNat := by
  have hb : 0 < baudrate.toNat := Nat.pos_of_ne_zero fun h => hbaud (UInt32.toNat_inj.mp h)
  have hl : 0 < len.toNat := Nat.pos_of_ne_zero fun h => hlen (UInt16.toNat_inj.mp h)
  have hb32 := baudrate.toNat_lt
  rw [Covers, micros_wait hlen hbaud, HoldFits, Nat.mul_assoc, Nat.mul_assoc]
  generalize len.toNat = n at *
  generalize baudrate.toNat = b at *
  obtain ⟨x, hx⟩ : ∃ x, x + 1 = (n + 1) * 10000000 + b := ⟨(n + 1) * 10000000 + b - 1, by omega⟩
  rw [show (n + 1) * (10 * 1000000) + b - 1 = x by omega]
  constructor
  · intro hcov
    by_contra hnot
    obtain ⟨hover, hno⟩ := not_or.mp hnot
    have hd : x % 2 ^ 32 / b * b ≤ x % 2 ^ 32 := Nat.div_mul_le_self _ _
    rcases Nat.lt_or_ge (x % 2 ^ 32 / b) 1000 with h | h
    · rw [roundedUp, if_pos h] at hcov
      exact absurd hcov (Nat.not_le.mpr (short_of_micros hl hb32 hx (Nat.not_lt.mp hover) hd))
    · exact hno (accident_of_millis hx (Nat.not_lt.mp hover) h hd hcov)
  · rintro (hfit | ⟨rfl, hlo, hhi⟩)
    · rw [Nat.mod_eq_of_lt hfit]
      exact covers_of_lt hb hx hfit
    · exact covers_of_accident hx hlo hhi

theorem heldFor_send {len : UInt16} (hlen : len ≠ 0) (baudrate : UInt32) (data : Bytes) :
    heldFor (rs485Send true baudrate (some data) len).1 =
      (rs485WaitTxComplete len baudrate).micros := by
  rw [rs485Send, if_neg (by simp [hlen])]
  rfl

/-- The wait covers the frame, and `rs485_send` keeps the pin at transmit for
that long, exactly when the computation of the wait does not overflow, with
one accident. -/
theorem hold_iff (len : UInt16) (baudrate : UInt32) (hlen : len ≠ 0) (hbaud : baudrate ≠ 0) :
    (Covers (rs485WaitTxComplete len baudrate).micros len.toNat baudrate.toNat ∧
      ∀ data : Bytes, Covers (heldFor (rs485Send true baudrate (some data) len).1)
        len.toNat baudrate.toNat) ↔
      HoldFits len.toNat baudrate.toNat := by
  rw [← covers_wait_iff hlen hbaud]
  constructor
  · exact fun h => h.1
  · intro h
    refine ⟨h, fun data => ?_⟩
    rw [heldFor_send hlen]
    exact h

/-- A frame of 256 characters at the baudrate of `rs485_auto_init`. -/
theorem hold_frame_size :
    Covers (rs485WaitTxComplete 256 115200).micros 256 115200 ∧
      ∀ data : Bytes, Covers (heldFor (rs485Send true 115200 (some data) 256).1) 256 115200 :=
  (hold_iff 256 115200 (by decide) (by decide)).mpr (by decide)

/-- A frame of 512 characters takes more than 44 milliseconds, and the pin is
set back after 8. -/
theorem hold_short_512 :
    rs485WaitTxComplete 512 115200 = .ms 8 ∧
      ¬ Covers (rs485WaitTxComplete 512 115200).micros 512 115200 := by
  have h : rs485WaitTxComplete 512 115200 = .ms 8 := by decide
  refine ⟨h, ?_⟩
  rw [h, Covers]
  decide

end Hc32Board.Rs485.Transmit
