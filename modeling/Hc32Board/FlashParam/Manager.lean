import Hc32Board.FlashParam.Item
import Mathlib.Logic.Function.Basic

/-!
# The parameter manager

`param_mgr_t` and the public functions of `flash_param.c` that initialise the
manager, write parameters and read one.

The manager holds the content of the database, the parameter table with its
RAM, and the optional lock functions.  A manager whose `init_ok` flag is set
has a table that passed the checks of `flash_param_init`.  This is a field of
`ParamMgr`, so every function below keeps it.

The loops of the source go over the table in order.  `forItems` is that loop.
`flash_param_init` leaves it at the first item that fails, the reset functions
go on and return `-1` at the end.

The outcome of every FlashDB call is an argument: `ok` of a single write,
`writeOk` by key for a loop (each key is written at most once in one call),
and a `SetDefault` for `fdb_kv_set_default`.

The check for a `NULL` manager at the top of each function is left out; a
manager that does not exist has no state.
-/

namespace Hc32Board.FlashParam

open Hc32Board.CodeLib

/-! ## The checks of `flash_param_init` -/

def itemOk (it : ParamItem) : Bool :=
  it.key.isSome && it.ramPtr &&
    match it.type with
    | .int => decide (4 ≤ it.ramSize)
    | .float => decide (4 ≤ it.ramSize)
    | .str => decide (0 < it.ramSize) && it.defVal != .null
    | .blob => decide (0 < it.ramSize) && it.defVal != .null
    | .other => false

/-- Every item is valid and no two items share a key. -/
def tableOk (items : List ParamItem) : Bool :=
  items.all itemOk && decide (items.map (·.key)).Nodup

/-- The items of a table of cells. -/
def itemsOf (cells : List Cell) : List ParamItem := cells.map (·.item)

structure ParamMgr where
  kvdb : Fdb
  cells : List Cell
  initOk : Bool
  lock : Bool
  unlock : Bool
  accepted : initOk = true → tableOk (itemsOf cells) = true

/-- The result of a manager function. -/
structure Outcome where
  ret : Ret
  mgr : ParamMgr
  calls : List Call

/-! ## Loops over the table -/

/-- What a loop over the table leaves behind. -/
structure Loop where
  ret : Ret
  db : Fdb
  cells : List Cell
  calls : List Call

/-- The return value of a loop after an item returned the first value and the
remaining items the second. -/
def Ret.andThen : Ret → Ret → Ret
  | _, .fault => .fault
  | .ok, r => r
  | r, _ => r

/-- The loop over the table.  With `stop` it ends at the first item that
fails. -/
def forItems (stop : Bool) (f : Cell → Option Bytes → Step) : Fdb → List Cell → Loop
  | db, [] => ⟨.ok, db, [], []⟩
  | db, c :: cs =>
    let s := f c (db c.key)
    let db' := Function.update db c.key s.stored
    if s.ret = .fault ∨ stop = true ∧ s.ret = .fail then
      ⟨s.ret, db', c.memcpy s.image :: cs, s.calls⟩
    else
      let r := forItems stop f db' cs
      ⟨s.ret.andThen r.ret, r.db, c.memcpy s.image :: r.cells, s.calls ++ r.calls⟩

theorem itemsOf_forItems (stop : Bool) (f : Cell → Option Bytes → Step) (db : Fdb)
    (cells : List Cell) : itemsOf (forItems stop f db cells).cells = itemsOf cells := by
  induction cells generalizing db with
  | nil => rfl
  | cons c cs ih =>
    simp only [forItems]
    split_ifs
    · rfl
    · simp only [itemsOf, List.map_cons, Cell.memcpy_item] at ih ⊢
      rw [ih]

/-! ## Initialisation -/

/-- What `fdb_kvdb_init` finds on the flash. -/
inductive Flash where
  /-- No sector has a valid header. -/
  | blank
  | holds (db : Fdb)

/-- The content of the flash.  Blank flash holds no key. -/
def Flash.content : Flash → Fdb
  | .blank => fun _ => none
  | .holds db => db

/-- The outcomes that one call of `flash_param_init` meets. -/
structure InitEnv where
  mallocOk : Bool
  kvdbInitOk : Bool
  setDefault : SetDefault
  writeOk : String → Bool

/-- The default record that `flash_param_init` registers for an item.
FlashDB takes a record of length 0 for a C string. -/
def defNode (c : Cell) : DefNode where
  key := c.key
  value := if c.item.defSize = 0 then readStr c.defRegion
    else readBytes c.defRegion c.item.defSize

/-- `fdb_kvdb_init`: on blank flash it writes the default records. -/
def fdbKvdbInit (flash : Flash) (nodes : List DefNode) (env : InitEnv) : Except Ret Fdb :=
  if env.kvdbInitOk = false then .error .fail
  else
    match flash with
    | .holds db => .ok db
    | .blank =>
      match fdbKvSetDefault (fun _ => none) nodes env.setDefault with
      | some db => .ok db
      | none => .error .fault

/-- The manager after `memset` and the assignment of the table. -/
def ParamMgr.blank (flash : Flash) (cells : List Cell) : ParamMgr where
  kvdb := flash.content
  cells := cells
  initOk := false
  lock := false
  unlock := false
  accepted := by simp

/-- The manager after the loop of `flash_param_init`. -/
def ParamMgr.opened (r : Loop) (lock unlock : Bool) (h : tableOk (itemsOf r.cells) = true) :
    ParamMgr where
  kvdb := r.db
  cells := r.cells
  initOk := r.ret = .ok
  lock := lock
  unlock := unlock
  accepted := fun _ => h

/-- `flash_param_init`.  `mgr` is the manager before the call; a failed check
leaves it as it was. -/
def flashParamInit (ft : FloatText) (mgr : ParamMgr) (flash : Flash) (cells : List Cell)
    (lock unlock : Bool) (env : InitEnv) : Outcome :=
  if cells = [] then ⟨.fail, mgr, []⟩
  else if lock ≠ unlock then ⟨.fail, mgr, []⟩
  else if hok : tableOk (itemsOf cells) = true then
    if env.mallocOk = false then ⟨.fail, .blank flash cells, []⟩
    else
      match fdbKvdbInit flash (cells.map defNode) env with
      | .error r => ⟨r, .blank flash cells, []⟩
      | .ok db =>
        let r := forItems true (fun c => syncOne ft (env.writeOk c.key) c) db cells
        ⟨r.ret, .opened r lock unlock (by rw [itemsOf_forItems, hok]), r.calls⟩
  else ⟨.fail, mgr, []⟩

/-! ## Writing parameters -/

/-- `_find_item`. -/
def ParamMgr.findItem (mgr : ParamMgr) (key : String) : Option Cell :=
  mgr.cells.find? (·.key = key)

/-- The calls of the body between `mgr->lock` and `mgr->unlock`. -/
def ParamMgr.locked (mgr : ParamMgr) (calls : List Call) : List Call :=
  (if mgr.lock then [.lock] else []) ++ calls ++ (if mgr.unlock then [.unlock] else [])

theorem itemsOf_map_memcpy (cells : List Cell) (key : String) (image : Bytes) :
    itemsOf (cells.map fun c => if c.key = key then c.memcpy image else c) = itemsOf cells := by
  have hitem : ∀ c : Cell, (if c.key = key then c.memcpy image else c).item = c.item := by
    intro c
    split_ifs <;> rfl
  simp [itemsOf, List.map_map, Function.comp_def, hitem]

/-- The manager after an operation on the item with this key. -/
def ParamMgr.putItem (mgr : ParamMgr) (key : String) (s : Step) : ParamMgr where
  kvdb := Function.update mgr.kvdb key s.stored
  cells := mgr.cells.map fun c => if c.key = key then c.memcpy s.image else c
  initOk := mgr.initOk
  lock := mgr.lock
  unlock := mgr.unlock
  accepted := by
    rw [itemsOf_map_memcpy]
    exact mgr.accepted

/-- The manager after a loop over its table. -/
def ParamMgr.putLoop (mgr : ParamMgr) (r : Loop) (h : itemsOf r.cells = itemsOf mgr.cells) :
    ParamMgr where
  kvdb := r.db
  cells := r.cells
  initOk := mgr.initOk
  lock := mgr.lock
  unlock := mgr.unlock
  accepted := by
    rw [h]
    exact mgr.accepted

/-- An operation under the lock on the item found. -/
def ParamMgr.onItem (mgr : ParamMgr) (key : String) (c : Cell)
    (f : Cell → Option Bytes → Step) : Outcome :=
  let s := f c (mgr.kvdb key)
  ⟨s.ret, mgr.putItem key s, mgr.locked s.calls⟩

/-- `flash_param_set`.  `val` is the region behind the argument. -/
def flashParamSet (ft : FloatText) (mgr : ParamMgr) (key : Option String) (val : Option Bytes)
    (ok : Bool) : Outcome :=
  match mgr.initOk, key, val with
  | true, some key, some val =>
    match mgr.findItem key with
    | none => ⟨.fail, mgr, []⟩
    | some c => mgr.onItem key c fun c stored => commit c stored (setWrite ft c val) ok
  | _, _, _ => ⟨.fail, mgr, []⟩

def flashParamSetBlob (mgr : ParamMgr) (key : Option String) (val : Option Bytes) (valLen : Nat)
    (ok : Bool) : Outcome :=
  match mgr.initOk, key, val with
  | true, some key, some val =>
    if valLen = 0 then ⟨.fail, mgr, []⟩
    else
      match mgr.findItem key with
      | none => ⟨.fail, mgr, []⟩
      | some c =>
        if c.item.type ≠ .blob then ⟨.fail, mgr, []⟩
        else if c.item.ramSize < valLen then ⟨.fail, mgr, []⟩
        else mgr.onItem key c fun c stored => commit c stored (setBlobWrite c val valLen) ok
  | _, _, _ => ⟨.fail, mgr, []⟩

def flashParamReset (ft : FloatText) (mgr : ParamMgr) (key : Option String) (ok : Bool) : Outcome :=
  match mgr.initOk, key with
  | true, some key =>
    match mgr.findItem key with
    | none => ⟨.fail, mgr, []⟩
    | some c => mgr.onItem key c (resetOneLocked ft ok)
  | _, _ => ⟨.fail, mgr, []⟩

/-- The loop body of `flash_param_group_reset`. -/
def groupResetOne (ft : FloatText) (group : ParamGroup) (writeOk : String → Bool) (c : Cell)
    (stored : Option Bytes) : Step :=
  if c.item.group = group then resetOneLocked ft (writeOk c.key) c stored
  else ⟨.ok, stored, [], []⟩

def flashParamGroupReset (ft : FloatText) (mgr : ParamMgr) (group : ParamGroup)
    (writeOk : String → Bool) : Outcome :=
  if mgr.initOk = false then ⟨.fail, mgr, []⟩
  else
    let r := forItems false (groupResetOne ft group writeOk) mgr.kvdb mgr.cells
    ⟨r.ret, mgr.putLoop r (itemsOf_forItems ..), mgr.locked r.calls⟩

/-- `flash_param_reset_all`.  It ignores the result of `fdb_kv_set_default`. -/
def flashParamResetAll (ft : FloatText) (mgr : ParamMgr) (out : SetDefault)
    (writeOk : String → Bool) : Outcome :=
  if mgr.initOk = false then ⟨.fail, mgr, []⟩
  else
    match fdbKvSetDefault mgr.kvdb (mgr.cells.map defNode) out with
    | none => ⟨.fault, mgr, []⟩
    | some db =>
      let r := forItems false (fun c => syncOne ft (writeOk c.key) c) db mgr.cells
      ⟨r.ret, mgr.putLoop r (itemsOf_forItems ..), mgr.locked r.calls⟩

/-! ## Reading a parameter -/

/-- The result of `flash_param_get`: the region behind `buf` and the value
behind `size` afterwards.  The manager is not changed. -/
structure GetOutcome where
  ret : Ret
  buf : Option Bytes
  size : Option Nat
  calls : List Call
deriving DecidableEq

def flashParamGet (mgr : ParamMgr) (key : Option String) (buf : Option Bytes)
    (size : Option Nat) : GetOutcome :=
  match mgr.initOk, key, buf, size with
  | true, some key, some buf, some size =>
    match mgr.findItem key with
    | none => ⟨.fail, some buf, some size, []⟩
    | some c =>
      if size < c.item.ramSize then ⟨.fail, some buf, some c.item.ramSize, mgr.locked []⟩
      -- `memcpy` writes behind the end of the region
      else if buf.length < c.item.ramSize then ⟨.fault, some buf, some size, mgr.locked []⟩
      else ⟨.ok, some (overlay c.ram buf), some c.item.ramSize, mgr.locked []⟩
  | _, _, _, _ => ⟨.fail, buf, size, []⟩

end Hc32Board.FlashParam
