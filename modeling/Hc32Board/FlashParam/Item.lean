import Hc32Board.CodeLib.Decimal
import Hc32Board.FlashParam.FlashDb

/-!
# One parameter item

The part of `flash_param.c` that works on one item: the type helpers, the
database read and write of each type, `_sync_one`, `_reset_one_locked`, and
the write that `flash_param_set` and `flash_param_set_blob` make.

An item owns a RAM region and a default.  A `Cell` is an item with the
current bytes of its RAM, and its region has the size the item states.  The
regions of two items do not overlap, because each cell holds its own.  A
default is a region of its own, or the RAM region itself: `params.c` has an
item whose `def_val` is the address of its live variable.

Every FlashDB call of an item names the item's own key.  An item operation
therefore takes the stored value of that key and returns a `Step`: the
return value, the stored value afterwards, the bytes copied to the start of
the RAM region, and the set calls it made.  Every write path of the source
has one shape, first the database and then the RAM, and `commit` is that
shape.

A read outside a region or through `NULL` is undefined in C.  The model
returns `Ret.fault` there and stops.
-/

namespace Hc32Board.FlashParam

open Hc32Board.CodeLib

/-! ## Items -/

inductive ParamType where
  | int | float | str | blob
  /-- A value outside the enumeration. -/
  | other
deriving DecidableEq, Repr

inductive ParamGroup where
  | system | comm | di | do_ | doTime | max
deriving DecidableEq, Repr

/-- Where `def_val` points. -/
inductive DefVal where
  | null
  /-- A region of its own, with these bytes. -/
  | region (bytes : Bytes)
  /-- The item's RAM region. -/
  | ram
deriving DecidableEq, Repr

/-- `param_item_t`, without the description that only the print functions
read.  `ramPtr` tells whether the RAM pointer is not `NULL`. -/
structure ParamItem where
  key : Option String
  defVal : DefVal
  defSize : Nat
  type : ParamType
  ramPtr : Bool
  ramSize : Nat
  group : ParamGroup
deriving DecidableEq, Repr

/-- `PARAM_INT`, for a RAM variable of `ramSize` bytes. -/
def paramInt (key : String) (defVal : BitVec 32) (ramSize : Nat) (group : ParamGroup) : ParamItem :=
  ⟨some key, .region (le4 defVal), 4, .int, true, ramSize, group⟩

/-- `PARAM_FLOAT`, with the bits of the default. -/
def paramFloat (key : String) (defVal : BitVec 32) (ramSize : Nat) (group : ParamGroup) :
    ParamItem :=
  ⟨some key, .region (le4 defVal), 4, .float, true, ramSize, group⟩

/-- `PARAM_STR`.  The default is an array whose last byte is a NUL, and
`def_size` leaves that byte out. -/
def paramStr (key : String) (defStr : Bytes) (maxLen : Nat) (group : ParamGroup) : ParamItem :=
  ⟨some key, .region (defStr ++ [0]), defStr.length, .str, true, maxLen, group⟩

/-- `PARAM_BLOB`. -/
def paramBlob (key : String) (defVal : DefVal) (defSz ramSz : Nat) (group : ParamGroup) :
    ParamItem :=
  ⟨some key, defVal, defSz, .blob, true, ramSz, group⟩

/-- An item with the bytes of its RAM region. -/
structure Cell where
  item : ParamItem
  ram : Bytes
  ramLen : ram.length = item.ramSize

/-- The key as a string.  `flash_param_init` refuses an item without a key. -/
def Cell.key (c : Cell) : String := c.item.key.getD ""

/-- `memcpy` to the start of the RAM region. -/
def Cell.memcpy (c : Cell) (src : Bytes) : Cell :=
  ⟨c.item, overlay src c.ram, by rw [length_overlay, c.ramLen]⟩

@[simp] theorem Cell.memcpy_item (c : Cell) (src : Bytes) : (c.memcpy src).item = c.item := rfl

@[simp] theorem Cell.memcpy_key (c : Cell) (src : Bytes) : (c.memcpy src).key = c.key := rfl

@[simp] theorem Cell.memcpy_ram (c : Cell) (src : Bytes) :
    (c.memcpy src).ram = overlay src c.ram := rfl

@[simp] theorem Cell.memcpy_nil (c : Cell) : c.memcpy [] = c := by
  simp [Cell.memcpy]

/-- An item with a cleared RAM region, as at power-on. -/
def ParamItem.powerOn (it : ParamItem) : Cell := ⟨it, zeros it.ramSize, length_zeros _⟩

/-- The region behind `def_val`. -/
def Cell.defRegion (c : Cell) : Option Bytes :=
  match c.item.defVal with
  | .null => none
  | .region bs => some bs
  | .ram => some c.ram

/-- The first `n` bytes of a region, if it has that many. -/
def readBytes (region : Option Bytes) (n : Nat) : Option Bytes :=
  region.bind fun r => if n ≤ r.length then some (r.take n) else none

/-- The C string at the start of a region, if a NUL ends it. -/
def readStr (region : Option Bytes) : Option Bytes :=
  region.bind fun r => if 0 ∈ r then some (cstr r) else none

theorem readBytes_of_le {r : Bytes} {n : Nat} (h : n ≤ r.length) :
    readBytes (some r) n = some (r.take n) := by
  rw [readBytes, Option.bind_some, if_pos h]

theorem readBytes_of_not_le {r : Bytes} {n : Nat} (h : ¬ n ≤ r.length) :
    readBytes (some r) n = none := by
  rw [readBytes, Option.bind_some, if_neg h]

theorem readBytes_eq_some {region : Option Bytes} {n : Nat} {d : Bytes}
    (h : readBytes region n = some d) : ∃ r, region = some r ∧ n ≤ r.length ∧ d = r.take n := by
  obtain ⟨r, hr, hread⟩ := Option.bind_eq_some_iff.mp h
  split_ifs at hread with hn
  exact ⟨r, hr, hn, (Option.some.inj hread).symm⟩

theorem readBytes_length {region : Option Bytes} {n : Nat} {d : Bytes}
    (h : readBytes region n = some d) : d.length = n := by
  obtain ⟨r, -, hn, rfl⟩ := readBytes_eq_some h
  exact List.length_take_of_le hn

theorem readStr_of_mem {r : Bytes} (h : 0 ∈ r) : readStr (some r) = some (cstr r) := by
  rw [readStr, Option.bind_some, if_pos h]

theorem readStr_of_not_mem {r : Bytes} (h : 0 ∉ r) : readStr (some r) = none := by
  rw [readStr, Option.bind_some, if_neg h]

theorem readStr_eq_some {region : Option Bytes} {s : Bytes} (h : readStr region = some s) :
    ∃ r, region = some r ∧ 0 ∈ r ∧ s = cstr r := by
  obtain ⟨r, hr, hread⟩ := Option.bind_eq_some_iff.mp h
  split_ifs at hread with hnul
  exact ⟨r, hr, hnul, (Option.some.inj hread).symm⟩

/-! ## Type helpers -/

/-- The `float` conversions of the C library, on the bits of the value:
`snprintf("%.9g")`, and `strtof` with the checks of `_float_from_str`. -/
structure FloatText where
  toStr : BitVec 32 → Bytes
  fromStr : Bytes → Option (BitVec 32)

def intToStr (val : Bytes) : Bytes := formatD (ofLe4 val).toInt

def intFromStr (str : Bytes) : Option (BitVec 32) :=
  match strtol str with
  | some (v, []) => if inLong v then some (BitVec.ofInt 32 v) else none
  | _ => none

/-! ## The database write and the database read of an item -/

/-- The result of a manager function: `0`, `-1`, or undefined behaviour. -/
inductive Ret where
  | ok | fail | fault
deriving DecidableEq, Repr

/-- What the manager calls out to. -/
inductive Call where
  | lock
  | unlock
  /-- A FlashDB set call, and whether it succeeded. -/
  | kvSet (key : String) (value : Bytes) (ok : Bool)
deriving DecidableEq, Repr

/-- The result of one operation on one item. -/
structure Step where
  ret : Ret
  /-- The stored value of the item's key afterwards. -/
  stored : Option Bytes
  /-- The bytes copied to the start of the RAM region. -/
  image : Bytes
  calls : List Call

/-- A write path: the value sent to the database, and the bytes copied to RAM
once the database has it. -/
structure Write where
  value : Bytes
  image : Bytes

/-- The shape of every write path: write the database, and only then the
RAM.  An error before the write changes nothing. -/
def commit (c : Cell) (stored : Option Bytes) (w : Except Ret Write) (ok : Bool) : Step :=
  match w with
  | .error r => ⟨r, stored, [], []⟩
  | .ok w =>
    if ok then ⟨.ok, some w.value, w.image, [.kvSet c.key w.value true]⟩
    else ⟨.fail, stored, [], [.kvSet c.key w.value false]⟩

/-- The bytes behind `def_val` once the RAM region has been cleared.  A
default in RAM is gone then. -/
def Cell.defRegionCleared (c : Cell) : Bytes :=
  match c.item.defVal with
  | .null => []
  | .region bs => bs
  | .ram => zeros c.item.ramSize

/-- The write of an item's default, in `_sync_one` and `_reset_one_locked`. -/
def defaultWrite (ft : FloatText) (c : Cell) : Except Ret Write :=
  match c.item.type with
  | .int =>
    match readBytes c.defRegion 4 with
    | some d => .ok ⟨intToStr d, d⟩
    | none => .error .fault
  | .float =>
    match readBytes c.defRegion 4 with
    | some d => .ok ⟨ft.toStr (ofLe4 d), d⟩
    | none => .error .fault
  | .str =>
    match readStr c.defRegion with
    | some s => .ok ⟨s, strncpyBuf c.item.ramSize s⟩
    | none => .error .fault
  | .blob =>
    match readBytes c.defRegion c.item.defSize with
    -- `memset` clears the RAM before `memcpy` reads the default again
    | some d => .ok ⟨d, fit c.item.ramSize
        (c.defRegionCleared.take (min c.item.defSize c.item.ramSize))⟩
    | none => .error .fault
  | .other => .error .fail

/-- The write of `flash_param_set`.  `val` is the region behind the argument. -/
def setWrite (ft : FloatText) (c : Cell) (val : Bytes) : Except Ret Write :=
  match c.item.type with
  | .int =>
    match readBytes (some val) 4 with
    | some d => .ok ⟨intToStr d, d⟩
    | none => .error .fault
  | .float =>
    match readBytes (some val) 4 with
    | some d => .ok ⟨ft.toStr (ofLe4 d), d⟩
    | none => .error .fault
  | .str =>
    match readStr (some val) with
    | some s => .ok ⟨s, strncpyBuf c.item.ramSize s⟩
    | none => .error .fault
  | .blob =>
    match readBytes (some val) (min c.item.ramSize c.item.defSize) with
    | some d => .ok ⟨d, fit c.item.ramSize d⟩
    | none => .error .fault
  | .other => .error .fail

/-- The write of `flash_param_set_blob`, behind its checks. -/
def setBlobWrite (c : Cell) (val : Bytes) (valLen : Nat) : Except Ret Write :=
  match readBytes (some val) valLen with
  | some d => .ok ⟨d, fit c.item.ramSize d⟩
  | none => .error .fault

/-- `_int_db_read`, `_float_db_read`, `_str_db_read` and `_blob_db_read`: the
bytes the read puts at the start of the RAM region, or `none` when it fails.
A failed read leaves the RAM alone. -/
def dbRead (ft : FloatText) (c : Cell) (stored : Option Bytes) : Option Bytes :=
  match c.item.type with
  | .int => ((fdbKvGet stored).bind intFromStr).map le4
  | .float => ((fdbKvGet stored).bind ft.fromStr).map le4
  | .str => (fdbKvGet stored).map (strncpyBuf c.item.ramSize)
  | .blob =>
    let (buf, savedLen) := fdbKvGetBlob stored c.ram
    if 0 < savedLen then some buf else none
  | .other => none

def resetOneLocked (ft : FloatText) (ok : Bool) (c : Cell) (stored : Option Bytes) : Step :=
  commit c stored (defaultWrite ft c) ok

def syncOne (ft : FloatText) (ok : Bool) (c : Cell) (stored : Option Bytes) : Step :=
  match dbRead ft c stored with
  | some image => ⟨.ok, stored, image, []⟩
  | none => commit c stored (defaultWrite ft c) ok

end Hc32Board.FlashParam
