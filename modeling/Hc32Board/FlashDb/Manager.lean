import Hc32Board.FlashDb.Refine
import Hc32Board.FlashParam.AppTable

/-!
# The parameter manager on the database

`FlashParam` models `flash_param.c` over a map, and the outcome of every database call
is an argument there.  Here the same functions run on the database itself.  A
`Device` is the database with the parameter table.

* `ItemSim` compares an operation on one item with the operation on the stored value.
  `commit_sim` and `syncOne_sim` are the two that the functions use.
* `forItems_sim` is the loop over the table.
* `Backed` is the relation between the device and the manager on the map.  `Backed.putItem`
  and `Backed.putLoop` keep it.
-/

namespace Hc32Board.FlashDb

open Hc32Board.CodeLib
open Hc32Board.FlashParam (Cell ParamItem FloatText Ret Write Step Fdb)

/-! ## One item -/

/-- `_blob_db_write` for a blob, and `_int_db_write`, `_float_db_write` and `_str_db_write`
with the text of the value for the others. -/
def dbWrite (srv : Server) (c : Cell) (value : Bytes) : Server × FdbErr :=
  let (db, err) :=
    if c.item.type = .blob then fdbKvSetBlob srv.db (ascii c.key) (some value)
    else fdbKvSet srv.db (ascii c.key) (some (value ++ [0]))
  ({ srv with db := db }, err)

/-- `_int_db_read`, `_float_db_read`, `_str_db_read` and `_blob_db_read`. -/
def dbRead (ft : FloatText) (srv : Server) (c : Cell) : Server × Option Bytes :=
  match c.item.type with
  | .int =>
    let (db, value, s) := fdbKvGet srv.db (ascii c.key) srv.value
    (⟨db, value⟩, (s.bind FlashParam.intFromStr).map le4)
  | .float =>
    let (db, value, s) := fdbKvGet srv.db (ascii c.key) srv.value
    (⟨db, value⟩, (s.bind ft.fromStr).map le4)
  | .str =>
    let (db, value, s) := fdbKvGet srv.db (ascii c.key) srv.value
    (⟨db, value⟩, s.map (strncpyBuf c.item.ramSize))
  | .blob =>
    let (db, buf, _, savedLen) := fdbKvGetBlob srv.db (ascii c.key) c.ram 0
    ({ srv with db := db }, if 0 < savedLen then some buf else none)
  | .other => (srv, none)

/-- The database first, and then the RAM. -/
def commit (c : Cell) (w : Except Ret Write) (srv : Server) : Server × Ret × Bytes :=
  match w with
  | .error r => (srv, r, [])
  | .ok w =>
    match dbWrite srv c w.value with
    | (srv, .noErr) => (srv, .ok, w.image)
    | (srv, _) => (srv, .fail, [])

/-- `_sync_one`. -/
def syncOne (ft : FloatText) (c : Cell) (srv : Server) : Server × Ret × Bytes :=
  match dbRead ft srv c with
  | (srv, some image) => (srv, .ok, image)
  | (srv, none) => commit c (FlashParam.defaultWrite ft c) srv

/-! ## The table -/

/-- The loop over the table.  With `stop` it ends at the first item that fails. -/
def forItems (stop : Bool) (f : Cell → Server → Server × Ret × Bytes) :
    Server → List Cell → Server × Ret × List Cell
  | srv, [] => (srv, .ok, [])
  | srv, c :: cs =>
    let (srv, ret, image) := f c srv
    if ret = .fault ∨ stop = true ∧ ret = .fail then (srv, ret, c.memcpy image :: cs)
    else
      let (srv, rest, cells) := forItems stop f srv cs
      (srv, ret.andThen rest, c.memcpy image :: cells)

/-- The database, and the parameter table with its RAM. -/
structure Device where
  srv : Server
  cells : List Cell

/-- The default record of an item, as its pointer shows it now. -/
def defaultKv (c : Cell) : DefaultKv := ⟨ascii c.key, c.defRegion.getD [], c.item.defSize⟩

/-- `_find_item`. -/
def Device.findItem (d : Device) (key : String) : Option Cell := d.cells.find? (·.key = key)

/-- The device after an operation on the item with this key. -/
def Device.putItem (d : Device) (key : String) (r : Server × Ret × Bytes) : Device × Ret :=
  (⟨r.1, d.cells.map fun c => if c.key = key then c.memcpy r.2.2 else c⟩, r.2.1)

/-- The device after a loop over its table. -/
def Device.putLoop (r : Server × Ret × List Cell) : Device × Ret := (⟨r.1, r.2.2⟩, r.2.1)

/-- `flash_param_init` after power-on, with a table that passes its checks. -/
def powerOn (ft : FloatText) (rounds blkSize secSize : Nat) (flash : Flash)
    (items : List ParamItem) : Option (Device × Ret) :=
  let cells := items.map (·.powerOn)
  match fdbKvdbInit rounds (Kvdb.cleared flash secSize) blkSize (cells.map defaultKv) with
  | none => none
  | some (db, .noErr) =>
    some (Device.putLoop (forItems true (syncOne ft)
      ⟨db, zeros (FlashParam.strKvValueMaxSize + 1)⟩ cells))
  | some (db, _) => some (⟨⟨db, zeros (FlashParam.strKvValueMaxSize + 1)⟩, cells⟩, .fail)

/-- A call of the manager, or a power cycle.  The arguments are not `NULL`. -/
inductive Op where
  | set (key : String) (val : Bytes)
  | setBlob (key : String) (val : Bytes) (valLen : Nat)
  | reset (key : String)
  | groupReset (group : FlashParam.ParamGroup)
  | resetAll
  | reboot

/-- The loop body of `flash_param_group_reset`. -/
def groupResetOne (ft : FloatText) (group : FlashParam.ParamGroup) (c : Cell) (srv : Server) :
    Server × Ret × Bytes :=
  if c.item.group = group then commit c (FlashParam.defaultWrite ft c) srv else (srv, .ok, [])

/-- The call on the database. -/
def Device.exec (ft : FloatText) (rounds blkSize : Nat) (d : Device) : Op → Option (Device × Ret)
  | .set key val =>
    match d.findItem key with
    | none => some (d, .fail)
    | some c => some (d.putItem key (commit c (FlashParam.setWrite ft c val) d.srv))
  | .setBlob key val valLen =>
    if valLen = 0 then some (d, .fail)
    else
      match d.findItem key with
      | none => some (d, .fail)
      | some c =>
        if c.item.type ≠ .blob then some (d, .fail)
        else if c.item.ramSize < valLen then some (d, .fail)
        else some (d.putItem key (commit c (FlashParam.setBlobWrite c val valLen) d.srv))
  | .reset key =>
    match d.findItem key with
    | none => some (d, .fail)
    | some c => some (d.putItem key (commit c (FlashParam.defaultWrite ft c) d.srv))
  | .groupReset group =>
    some (Device.putLoop (forItems false (groupResetOne ft group) d.srv d.cells))
  | .resetAll =>
    -- the default records point to the memory of this moment
    let db := { d.srv.db with defaultKvs := d.cells.map defaultKv }
    some (Device.putLoop (forItems false (syncOne ft) { d.srv with db := (fdbKvSetDefault db).1 }
      d.cells))
  | .reboot =>
    powerOn ft rounds blkSize d.srv.db.secSize d.srv.db.flash (FlashParam.itemsOf d.cells)

/-- Every database call of `flash_param_init` succeeds. -/
def idealEnv : FlashParam.InitEnv := ⟨true, true, .formatted fun _ => true, fun _ => true⟩

/-- The call on a map whose writes all succeed. -/
def Op.ideal : Op → FlashParam.AppOp
  | .set key val => .write (.set (some key) (some val) true)
  | .setBlob key val valLen => .write (.setBlob (some key) (some val) valLen true)
  | .reset key => .write (.reset (some key) true)
  | .groupReset group => .write (.groupReset group fun _ => true)
  | .resetAll => .resetAll (.formatted fun _ => true) fun _ => true
  | .reboot => .reboot idealEnv

/-! ## One item on the map -/

/-- The database stands for the contents, and its values are short enough. -/
structure Backs (z n : Nat) (keys : Finset Bytes) (limit : Bytes → Nat) (srv : Server)
    (c : Contents) : Prop where
  refines : Refines z n (keys : Set Bytes) srv c
  bounded : c.Bounded keys limit

/-- The contents with another value for a key. -/
def Contents.put (c : Contents) (key : Bytes) (value : Option Bytes) : Contents :=
  { c with map := Function.update c.map key value }

theorem Contents.put_self (c : Contents) (key : Bytes) : c.put key (c.map key) = c := by
  rw [Contents.put, Function.update_eq_self]

/-- The operation on the item does what the other one does to the stored value. -/
def ItemSim (z n : Nat) (keys : Finset Bytes) (limit : Bytes → Nat) (c : Cell)
    (f : Server → Server × Ret × Bytes) (g : Option Bytes → Step) : Prop :=
  ∀ srv cont, Backs z n keys limit srv cont → ∃ srv',
    f srv = (srv', (g (cont.map (ascii c.key))).ret, (g (cont.map (ascii c.key))).image) ∧
    Backs z n keys limit srv' (cont.put (ascii c.key) (g (cont.map (ascii c.key))).stored)

section Item

variable {z n : Nat} {keys : Finset Bytes} {limit : Bytes → Nat} {srv : Server} {cont : Contents}
  {c : Cell} {ft : FloatText}

/-- A value that is short enough is stored. -/
theorem Backs.set_spec (h : Backs z n keys limit srv cont) (hkeys : Keys (keys : Set Bytes))
    (hroomy : Roomy z keys limit) {key value : Bytes} (hkey : key ∈ keys)
    (hlen : value.length ≤ limit key) :
    ∃ db', fdbKvSetBlob srv.db key (some value) = (db', .noErr) ∧
      Backs z n keys limit { srv with db := db' } (cont.put key (some value)) := by
  obtain ⟨db', err, cont', hrun, hspec, href⟩ := h.refines.set_spec hkeys hkey value
  obtain ⟨hne, hbounded⟩ := h.bounded.stored hroomy hkey hlen hspec
  rcases hspec with ⟨hr, rfl⟩ | ⟨hr, -, -⟩
  · obtain rfl : err = .noErr := Reply.status.inj hr
    exact ⟨db', hrun, href, hbounded⟩
  · exact absurd hr hne

/-- The value is short enough, and the text of a value has no NUL. -/
structure Storable (limit : Bytes → Nat) (c : Cell) (value : Bytes) : Prop where
  length_le : value.length ≤ limit (ascii c.key)
  plain : c.item.type ≠ .blob → (0 : UInt8) ∉ value

theorem Backs.dbWrite_spec (h : Backs z n keys limit srv cont) (hkeys : Keys (keys : Set Bytes))
    (hroomy : Roomy z keys limit) (hkey : ascii c.key ∈ keys) {value : Bytes}
    (hvalue : Storable limit c value) :
    ∃ srv', dbWrite srv c value = (srv', .noErr) ∧
      Backs z n keys limit srv' (cont.put (ascii c.key) (some value)) := by
  obtain ⟨db', hrun, hbacks⟩ := h.set_spec hkeys hroomy hkey hvalue.length_le
  refine ⟨{ srv with db := db' }, ?_, hbacks⟩
  unfold dbWrite
  by_cases hblob : c.item.type = .blob
  · rw [if_pos hblob, hrun]
  · have htext : cstr (value ++ [0]) = value := cstr_append_zeros (hvalue.plain hblob) 1
    rw [if_neg hblob, fdbKvSet, htext, hrun]

theorem commit_sim (hkeys : Keys (keys : Set Bytes)) (hroomy : Roomy z keys limit)
    (hkey : ascii c.key ∈ keys) {w : Except Ret Write}
    (hw : ∀ w', w = .ok w' → Storable limit c w'.value) :
    ItemSim z n keys limit c (commit c w) fun stored => FlashParam.commit c stored w true := by
  intro srv cont h
  cases w with
  | error r => exact ⟨srv, rfl, (cont.put_self (ascii c.key)).symm ▸ h⟩
  | ok w =>
    obtain ⟨srv', hrun, hbacks⟩ := h.dbWrite_spec hkeys hroomy hkey (hw w rfl)
    refine ⟨srv', ?_, hbacks⟩
    rw [commit, hrun]
    rfl

/-- The read of an item is the read of its stored value. -/
theorem Backs.dbRead_spec (h : Backs z n keys limit srv cont) (hkeys : Keys (keys : Set Bytes))
    (hkey : ascii c.key ∈ keys) :
    ∃ srv', dbRead ft srv c = (srv', FlashParam.dbRead ft c (cont.map (ascii c.key))) ∧
      Backs z n keys limit srv' cont := by
  obtain ⟨db', value', hget, hlen, hserves⟩ :=
    h.refines.serves.fdbKvGet_spec hkeys hkey h.refines.value
  have hbacks : Backs z n keys limit ⟨db', value'⟩ cont :=
    ⟨⟨hserves, hlen, h.refines.defaults⟩, h.bounded⟩
  unfold dbRead FlashParam.dbRead
  cases c.item.type with
  | int =>
    refine ⟨⟨db', value'⟩, ?_, hbacks⟩
    dsimp only
    rw [hget]
  | float =>
    refine ⟨⟨db', value'⟩, ?_, hbacks⟩
    dsimp only
    rw [hget]
  | str =>
    refine ⟨⟨db', value'⟩, ?_, hbacks⟩
    dsimp only
    rw [hget]
  | blob =>
    obtain ⟨db'', hblob, hserves'⟩ := h.refines.serves.fdbKvGetBlob_spec hkeys hkey c.ram 0
    refine ⟨{ srv with db := db'' }, ?_, ⟨hserves', h.refines.value, h.refines.defaults⟩, h.bounded⟩
    dsimp only
    rw [hblob]
  | other => exact ⟨srv, rfl, h⟩

theorem syncOne_sim (hkeys : Keys (keys : Set Bytes)) (hroomy : Roomy z keys limit)
    (hkey : ascii c.key ∈ keys)
    (hw : ∀ w, FlashParam.defaultWrite ft c = .ok w → Storable limit c w.value) :
    ItemSim z n keys limit c (syncOne ft c) (FlashParam.syncOne ft true c) := by
  intro srv cont h
  obtain ⟨srv', hread, hbacks⟩ := @Backs.dbRead_spec _ _ _ _ _ _ c ft h hkeys hkey
  unfold syncOne FlashParam.syncOne
  rw [hread]
  cases FlashParam.dbRead ft c (cont.map (ascii c.key)) with
  | some image => exact ⟨srv', rfl, (cont.put_self (ascii c.key)).symm ▸ hbacks⟩
  | none => exact commit_sim hkeys hroomy hkey hw srv' cont hbacks

end Item

/-! ## The table on the map -/

/-- The contents agree with the map of the manager on some keys. -/
def Agree (ks : Set String) (cont : Contents) (db : Fdb) : Prop :=
  ∀ k ∈ ks, cont.map (ascii k) = db k

section Table

variable {z n : Nat} {keys : Finset Bytes} {limit : Bytes → Nat} {ks : Set String} {srv : Server}
  {cont : Contents} {db : Fdb} {ft : FloatText}

theorem Agree.put (h : Agree ks cont db) (hinj : Set.InjOn ascii ks) {k : String} (hk : k ∈ ks)
    (v : Option Bytes) : Agree ks (cont.put (ascii k) v) (Function.update db k v) := by
  intro k' hk'
  dsimp only [Contents.put]
  rcases eq_or_ne k' k with rfl | hne
  · rw [Function.update_self, Function.update_self]
  · rw [Function.update_of_ne hne, Function.update_of_ne fun heq => hne (hinj hk' hk heq)]
    exact h k' hk'

/-- The loop over the table does what it does on the map. -/
theorem forItems_sim (hinj : Set.InjOn ascii ks) (stop : Bool)
    {f : Cell → Server → Server × Ret × Bytes} {g : Cell → Option Bytes → Step} :
    ∀ (cells : List Cell) (srv : Server) (cont : Contents) (db : Fdb),
      Backs z n keys limit srv cont → Agree ks cont db →
      (∀ c ∈ cells, c.key ∈ ks ∧ ItemSim z n keys limit c (f c) (g c)) →
      ∃ srv' cont', forItems stop f srv cells = (srv', (FlashParam.forItems stop g db cells).ret,
          (FlashParam.forItems stop g db cells).cells) ∧
        Backs z n keys limit srv' cont' ∧
          Agree ks cont' (FlashParam.forItems stop g db cells).db := by
  intro cells
  induction cells with
  | nil => exact fun srv cont db hbacks hagree _ => ⟨srv, cont, rfl, hbacks, hagree⟩
  | cons c cells ih =>
    intro srv cont db hbacks hagree hcells
    obtain ⟨hk, hsim⟩ := hcells c List.mem_cons_self
    obtain ⟨srv1, hrun, hbacks1⟩ := hsim srv cont hbacks
    rw [hagree c.key hk] at hrun hbacks1
    have hagree1 := hagree.put hinj hk (g c (db c.key)).stored
    rw [forItems, hrun, FlashParam.forItems]
    dsimp only
    by_cases hstop : (g c (db c.key)).ret = .fault ∨ stop = true ∧ (g c (db c.key)).ret = .fail
    · rw [if_pos hstop, if_pos hstop]
      exact ⟨srv1, _, rfl, hbacks1, hagree1⟩
    · obtain ⟨srv2, cont2, hrest, hbacks2, hagree2⟩ := ih srv1 _ _ hbacks1 hagree1
        fun c' hc' => hcells c' (List.mem_cons_of_mem c hc')
      rw [if_neg hstop, if_neg hstop, hrest]
      exact ⟨srv2, cont2, rfl, hbacks2, hagree2⟩

/-- A loop whose items all succeed succeeds. -/
theorem ret_forItems {stop : Bool} {g : Cell → Option Bytes → Step} :
    ∀ (cells : List Cell) (db : Fdb), (∀ c ∈ cells, ∀ stored, (g c stored).ret = .ok) →
      (FlashParam.forItems stop g db cells).ret = .ok := by
  intro cells
  induction cells with
  | nil => exact fun _ _ => rfl
  | cons c cells ih =>
    intro db h
    have hok := h c List.mem_cons_self (db c.key)
    rw [FlashParam.forItems]
    dsimp only
    rw [hok, if_neg (by simp), ih _ fun c' hc' => h c' (List.mem_cons_of_mem c hc')]
    rfl

/-- The key of an item. -/
def itemKey (it : ParamItem) : String := it.key.getD ""

/-- The keys of a table. -/
def tableKeys (items : List ParamItem) : Set String := {k | ∃ it ∈ items, itemKey it = k}

/-- The database has room for the table.  Every item has a default that can be read and
written, and the keys differ as byte strings. -/
structure TableFits (ft : FloatText) (keys : Finset Bytes) (limit : Bytes → Nat)
    (items : List ParamItem) : Prop where
  accepted : FlashParam.tableOk items = true
  ne_nil : items ≠ []
  mem : ∀ it ∈ items, ascii (itemKey it) ∈ keys
  inj : Set.InjOn ascii (tableKeys items)
  default : ∀ c : Cell, c.item ∈ items →
    ∃ w, FlashParam.defaultWrite ft c = .ok w ∧ Storable limit c w.value
  node : ∀ c : Cell, c.item ∈ items →
    (FlashParam.defNode c).value = some (defaultKv c).bytes ∧
      (defaultKv c).bytes.length ≤ limit (ascii c.key)

/-- The device runs the manager: the tables are the same, and the database stands for the
map. -/
structure Backed (z n : Nat) (keys : Finset Bytes) (limit : Bytes → Nat) (items : List ParamItem)
    (d : Device) (mgr : FlashParam.ParamMgr) : Prop where
  cells : d.cells = mgr.cells
  table : FlashParam.itemsOf mgr.cells = items
  initOk : mgr.initOk = true
  locks : mgr.lock = mgr.unlock
  contents : ∃ cont, Backs z n keys limit d.srv cont ∧
    Agree (tableKeys items) cont mgr.kvdb

variable {items : List ParamItem} {d : Device} {mgr : FlashParam.ParamMgr}

theorem Backed.mem (h : Backed z n keys limit items d mgr) {c : Cell} (hc : c ∈ mgr.cells) :
    c.item ∈ items := by
  rw [← h.table]
  exact List.mem_map_of_mem hc

/-- The values of a call are short enough. -/
def Op.Bounded (ft : FloatText) (limit : Bytes → Nat) (items : List ParamItem) : Op → Prop
  | .set key val => ∀ c : Cell, c.item ∈ items → c.key = key →
    ∀ w, FlashParam.setWrite ft c val = .ok w → Storable limit c w.value
  | .setBlob key val valLen => ∀ c : Cell, c.item ∈ items → c.key = key → c.item.type = .blob →
    valLen ≤ c.item.ramSize →
    ∀ w, FlashParam.setBlobWrite c val valLen = .ok w → Storable limit c w.value
  | _ => True

/-- An operation on one item. -/
theorem Backed.putItem (h : Backed z n keys limit items d mgr)
    (hfits : TableFits ft keys limit items)
    {key : String} {c : Cell} (hfind : mgr.findItem key = some c)
    {f : Server → Server × Ret × Bytes} {g : Option Bytes → Step}
    (hsim : ItemSim z n keys limit c f g) :
    ∃ d', d.putItem key (f d.srv) = (d', (g (mgr.kvdb key)).ret) ∧
      Backed z n keys limit items d' (mgr.putItem key (g (mgr.kvdb key))) := by
  have hc : c ∈ mgr.cells := List.mem_of_find?_eq_some hfind
  obtain rfl : c.key = key := by simpa using List.find?_some hfind
  have hk : c.key ∈ tableKeys items := ⟨c.item, h.mem hc, rfl⟩
  obtain ⟨cont, hbacks, hagree⟩ := h.contents
  obtain ⟨srv', hrun, hbacks'⟩ := hsim d.srv cont hbacks
  rw [hagree c.key hk] at hrun hbacks'
  refine ⟨_, by rw [Device.putItem, hrun], ?_, ?_, h.initOk, h.locks, _, hbacks',
    hagree.put hfits.inj hk _⟩
  · rw [h.cells]
    rfl
  · exact (FlashParam.itemsOf_map_memcpy _ _ _).trans h.table

/-- A loop over the table. -/
theorem Backed.putLoop (h : Backed z n keys limit items d mgr)
    (hfits : TableFits ft keys limit items)
    (stop : Bool) {f : Cell → Server → Server × Ret × Bytes} {g : Cell → Option Bytes → Step}
    {srv : Server} {cont : Contents} {db : Fdb} (hbacks : Backs z n keys limit srv cont)
    (hagree : Agree (tableKeys items) cont db)
    (hsim : ∀ c : Cell, c.item ∈ items → ItemSim z n keys limit c (f c) (g c)) :
    ∃ d', Device.putLoop (forItems stop f srv d.cells) =
        (d', (FlashParam.forItems stop g db mgr.cells).ret) ∧
      Backed z n keys limit items d' (mgr.putLoop (FlashParam.forItems stop g db mgr.cells)
        (FlashParam.itemsOf_forItems ..)) := by
  obtain ⟨srv', cont', hrun, hbacks', hagree'⟩ := forItems_sim hfits.inj stop mgr.cells srv cont db
    hbacks hagree fun c hc => ⟨⟨c.item, h.mem hc, rfl⟩, hsim c (h.mem hc)⟩
  refine ⟨_, by rw [Device.putLoop, h.cells, hrun], rfl, ?_, h.initOk, h.locks, cont', hbacks',
    hagree'⟩
  exact (FlashParam.itemsOf_forItems ..).trans h.table

end Table

end Hc32Board.FlashDb
