import Hc32Board.CodeLib.Bytes
import Mathlib.Tactic.SplitIfs

/-!
# FlashDB as the parameter manager sees it

`fdb_kvdb.c` is a log of key-value records over flash sectors.  The manager
uses four of its calls, and a caller sees a map from keys to byte strings
through them.

* `fdbKvGetBlob` and `fdbKvGet` read the value of one key.  They take the
  stored value of that key, `none` when the key is absent.  `fdbKvGet` is
  the string read: it goes through a static buffer of
  `strKvValueMaxSize` bytes and refuses a value that is not printable.
* A set call stores the value or fails and leaves the stored value as it
  was.  The successful case is `Function.update`.
* `fdbKvSetDefault` formats every sector and then creates the registered
  default records.  The result of each creation is ignored by the source, so
  a record can be missing afterwards.  When a sector does not format, the
  call stops there: the records of the sectors formatted so far are lost, the
  others are still in place.
-/

namespace Hc32Board.FlashParam

open Hc32Board.CodeLib

/-- The content of the database: the value stored under each key. -/
abbrev Fdb := String → Option Bytes

/-! ## Reading a value -/

/-- `FDB_STR_KV_VALUE_MAX_SIZE`. -/
def strKvValueMaxSize : Nat := 128

/-- `__is_print` of `fdb_is_str`. -/
def isPrint (ch : UInt8) : Bool := 32 ≤ ch && ch < 127

def fdbIsStr (value : Bytes) : Bool := value.all isPrint

/-- `fdb_kv_get_blob` on the stored value of a key: the buffer afterwards,
and `blob.saved.len`. -/
def fdbKvGetBlob (stored : Option Bytes) (buf : Bytes) : Bytes × Nat :=
  match stored with
  | some v => (overlay (v.take buf.length) buf, v.length)
  | none => (buf, 0)

/-- `fdb_kv_get` on the stored value of a key: the string in the static
buffer, or `none` for `NULL`. -/
def fdbKvGet (stored : Option Bytes) : Option Bytes :=
  let value := (stored.getD []).take strKvValueMaxSize
  if 0 < value.length then
    if fdbIsStr value then some value else none
  else none

theorem fdbIsStr_iff (value : Bytes) :
    fdbIsStr value = true ↔ ∀ b ∈ value, isPrint b = true := by
  simp [fdbIsStr]

theorem isPrint_ne_zero {b : UInt8} (h : isPrint b = true) : b ≠ 0 := by
  rintro rfl
  exact absurd h (by decide)

/-- A value that passes the test holds no NUL. -/
theorem zero_notMem_of_fdbIsStr {value : Bytes} (h : fdbIsStr value = true) :
    (0 : UInt8) ∉ value := by
  intro h0
  exact isPrint_ne_zero ((fdbIsStr_iff value).1 h 0 h0) rfl

@[simp] theorem fdbKvGet_none : fdbKvGet none = none := rfl

/-- When a stored value reads as a string. -/
theorem fdbKvGet_some (v : Bytes) :
    fdbKvGet (some v) = if v ≠ [] ∧ fdbIsStr (v.take strKvValueMaxSize) = true
      then some (v.take strKvValueMaxSize) else none := by
  have hlen : 0 < (v.take strKvValueMaxSize).length ↔ v ≠ [] := by
    rw [List.length_take, ← List.length_pos_iff, strKvValueMaxSize]
    omega
  simp only [fdbKvGet, Option.getD_some, hlen]
  split_ifs <;> simp_all

/-- What `fdb_kv_get` returns is a printable, non-empty string of at most
`strKvValueMaxSize` bytes. -/
theorem fdbKvGet_eq_some {stored : Option Bytes} {t : Bytes} (h : fdbKvGet stored = some t) :
    ∃ v, stored = some v ∧ v ≠ [] ∧ fdbIsStr t = true ∧ t = v.take strKvValueMaxSize := by
  cases stored with
  | none => simp at h
  | some v =>
    rw [fdbKvGet_some] at h
    split_ifs at h with hv
    obtain rfl := Option.some.inj h
    exact ⟨v, rfl, hv.1, hv.2, rfl⟩

/-- A short printable value reads back unchanged. -/
theorem fdbKvGet_of_printable {v : Bytes} (hne : v ≠ []) (hlen : v.length ≤ strKvValueMaxSize)
    (hprint : fdbIsStr v = true) : fdbKvGet (some v) = some v := by
  rw [fdbKvGet_some, List.take_of_length_le hlen, if_pos ⟨hne, hprint⟩]

/-! ## Restoring the default records -/

/-- A registered default record, with the bytes its value pointer shows.
`value` is `none` when `fdb_kv_set_default` cannot read them: the pointer is
`NULL`, or the memory behind it is too short. -/
structure DefNode where
  key : String
  value : Option Bytes

/-- What happens inside one call of `fdb_kv_set_default`. -/
inductive SetDefault where
  /-- Every sector was formatted.  The default records with these keys were
  created. -/
  | formatted (created : String → Bool)
  /-- A sector did not format.  The records with these keys are gone. -/
  | formatFailed (lost : String → Bool)

/-- What one key holds after `fdb_kv_set_default`. -/
def SetDefault.store (out : SetDefault) (key : String) (value stored : Option Bytes) :
    Option Bytes :=
  match out with
  | .formatted created => if created key then value else none
  | .formatFailed lost => if lost key then none else stored

/-- `fdb_kv_set_default`.  The result is `none` when the call reads a value it
must not read. -/
def fdbKvSetDefault (db : Fdb) (nodes : List DefNode) (out : SetDefault) : Option Fdb :=
  match out with
  | .formatted _ =>
    if nodes.all (·.value.isSome) then
      some fun k => out.store k ((nodes.find? (·.key = k)).bind (·.value)) (db k)
    else none
  | .formatFailed _ => some fun k => out.store k none (db k)

end Hc32Board.FlashParam
