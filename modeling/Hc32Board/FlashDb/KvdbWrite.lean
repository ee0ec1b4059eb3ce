import Hc32Board.FlashDb.Kvdb

/-!
# The key-value database: writing, garbage collection and initialisation

The writing half of `fdb_kvdb.c`, with `fdb.c` for the start.

A value is never changed in place.  `set_kv` looks for space, marks the old record,
writes a new one and marks the old one again.  When the last empty sector would be
needed, `new_kv` first collects garbage: `do_gc` moves the records that are still
valid out of a sector and formats it.

`fdb_kvdb_init` runs on a structure that `flash_param_init` has cleared, so the
search for the oldest sector finds the entries of a zeroed cache table.  The load
behind it repeats as long as a collection is requested.  It gets a number of rounds,
and is `none` when they do not suffice.

Left out are the log texts, the lock hooks (the callers hold a lock of their own) and
the assertions on the configuration.
-/

namespace Hc32Board.FlashDb

open Hc32Board.CodeLib

/-! ## Sector headers -/

/-- The header that `format_sector` writes. -/
def sectorHdr (store dirty : UInt8) (combined : BitVec 32) : Bytes :=
  [store, dirty, 0xFF, 0xFF] ++ le4 sectorMagicWord ++ le4 combined ++ le4 0xFFFFFFFF

/-- `format_sector`. -/
def formatSector (db : Kvdb) (addr : Nat) (combinedValue : BitVec 32) : Kvdb × FdbErr :=
  let (db, err) := db.withFlash (db.flash.erase addr db.secSize)
  if err = .noErr then
    let store := (fdbSetStatus storeStatusNum StoreStatus.empty.index).1.getD 0 0
    let dirty := (fdbSetStatus dirtyStatusNum DirtyStatus.no.index).1.getD 0 0
    let (db, err) := db.write addr (sectorHdr store dirty combinedValue)
    let sector := { SecInfo.fresh with addr := addr, checkOk := false, emptyKv := none }
    (db.updateSectorCache sector, err)
  else (db, err)

/-- `update_sec_status`, with `is_full` afterwards. -/
def updateSecStatus (db : Kvdb) (sector : SecInfo) (newKvLen : Nat) (isFull : Bool) :
    Kvdb × Bool × FdbErr :=
  match sector.store with
  | .empty =>
    let (db, err) := db.writeStatus sector.addr storeStatusNum StoreStatus.using.index
    (db.updateSectorStatusStoreCache sector.addr .using, isFull, err)
  | .using =>
    if sector.remain < fdbSecRemainThreshold ∨
        subSize sector.remain newKvLen < fdbSecRemainThreshold then
      let (db, err) := db.writeStatus sector.addr storeStatusNum StoreStatus.full.index
      (db.updateSectorStatusStoreCache sector.addr .full, true, err)
    else (db, false, .noErr)
  | _ => (db, isFull, .noErr)

/-! ## Space for a record -/

/-- `sector_statistics_cb`: the numbers of empty sectors and of sectors in use. -/
def sectorStatisticsCb (db : Kvdb) (sector : SecInfo) (s : Nat × Nat) : Kvdb × (Nat × Nat) × Bool :=
  if sector.checkOk ∧ sector.store = .empty then (db, (s.1 + 1, s.2), false)
  else if sector.checkOk ∧ sector.store = .using then (db, (s.1, s.2 + 1), false)
  else (db, s, false)

/-- `alloc_kv_cb`. -/
def allocKvCb (kvSize : Nat) (db : Kvdb) (sector : SecInfo) (emptyKv : Option Nat) :
    Kvdb × Option Nat × Bool :=
  if sector.checkOk ∧ kvSize + fdbSecRemainThreshold < sector.remain ∧
      (sector.dirty = .no ∨ sector.dirty = .yes ∧ db.gcRequest = false) then
    (db, sector.emptyKv, true)
  else (db, emptyKv, false)

/-- `alloc_kv`. -/
def allocKv (db : Kvdb) (sector : SecInfo) (kvSize : Nat) : Kvdb × SecInfo × Option Nat :=
  let (db, sector, emptySector, usingSector) :=
    sectorIterator db sector .unused sectorStatisticsCb (0, 0) false
  -- the sectors in use come first
  let (db, sector, emptyKv) :=
    if 0 < usingSector then sectorIterator db sector .using (allocKvCb kvSize) none true
    else (db, sector, none)
  if 0 < emptySector ∧ emptyKv = none then
    if fdbGcEmptySecThreshold < emptySector ∨ db.gcRequest then
      sectorIterator db sector .empty (allocKvCb kvSize) emptyKv true
    else ({ db with gcRequest := true }, sector, emptyKv)
  else (db, sector, emptyKv)

/-! ## Deleting and moving a record -/

/-- The end of `del_kv`: a clean sector becomes dirty. -/
def markDirty (db : Kvdb) (kvAddr : Nat) (err : FdbErr) : Kvdb × FdbErr :=
  let secAddr := db.alignDown kvAddr
  let dirtyAddr := secAddr + sectorDirtyOffset
  if err = .noErr ∧ db.flash.readStatus dirtyAddr dirtyStatusNum = DirtyStatus.no.index then
    let (db, err) := db.writeStatus dirtyAddr dirtyStatusNum DirtyStatus.yes.index
    ({ db with sectorCache := modifySectorCache db.sectorCache secAddr fun sector =>
        { sector with dirty := .yes } }, err)
  else (db, err)

/-- `del_kv` for a record that is already known.  `name` is the key, or the name of
the record when the key is `NULL`. -/
def delKvObj (db : Kvdb) (name : Bytes) (oldKv : Kv) (completeDel : Bool) : Kvdb × FdbErr :=
  if completeDel = false then
    let (db, err) := db.writeStatus oldKv.start kvStatusNum KvStatus.preDelete.index
    markDirty { db with lastIsCompleteDel := true } oldKv.start err
  else
    let (db, err) := db.writeStatus oldKv.start kvStatusNum KvStatus.deleted.index
    let kvCache := if db.lastIsCompleteDel = false ∧ err = .noErr then
      deleteKvCache db.kvCache name else db.kvCache
    markDirty { db with kvCache := kvCache, lastIsCompleteDel := false } oldKv.start err

/-- `del_kv` for a key. -/
def delKv (db : Kvdb) (key : Bytes) (completeDel : Bool) : Kvdb × FdbErr :=
  match findKv db key Kv.fresh with
  | (db, kv, true) => delKvObj db key kv completeDel
  | (db, _, false) => (db, .kvNameErr)

/-- The loop of `move_kv`, which copies in blocks of 32 bytes.  The result is that of
the last write. -/
def copyLoop : Nat → Kvdb → Nat → Nat → Nat → Bytes → FdbErr → Kvdb × FdbErr
  | 0, db, _, _, _, _, err => (db, err)
  | fuel + 1, db, src, dst, n, buf, err =>
    if n = 0 then (db, err)
    else
      let size := if 32 < n then 32 else n
      let buf := db.read src size buf
      let (db, err) := db.write dst (buf.take size)
      copyLoop fuel db (src + size) (dst + size) (n - size) buf err

/-- The part of `move_kv` that writes the new record. -/
def copyKv (db : Kvdb) (sector : SecInfo) (kv : Kv) (kvAddr : Nat) : Kvdb × FdbErr :=
  let (db, _, _) := updateSecStatus db sector kv.len false
  let (db, _) := db.writeStatus kvAddr kvStatusNum KvStatus.preWrite.index
  let n := kv.len - kvMagicOffset
  let (db, err) := copyLoop n db (kv.start + kvMagicOffset) (kvAddr + kvMagicOffset) n (zeros 32)
    .noErr
  let (db, _) := db.writeStatus kvAddr kvStatusNum KvStatus.write.index
  let db := db.updateSectorEmptyAddrCache (db.alignDown kvAddr)
    (kvAddr + kvHdrDataSize + kv.nameLen + kv.valueLen)
  ({ db with kvCache := updateKvCache db.kvCache (kv.name.take kv.nameLen) kvAddr }, err)

/-- `move_kv`. -/
def moveKv (db : Kvdb) (kv : Kv) : Kvdb × FdbErr :=
  let name := kv.name.take kv.nameLen
  let (db, _) := if kv.status = .write then delKvObj db name kv false else (db, .noErr)
  match allocKv db SecInfo.fresh kv.len with
  | (db, _, none) => (db, .savedFull)
  | (db, sector, some kvAddr) =>
    -- after a restart the new record may be there already
    let (db, done) :=
      if db.inRecoveryCheck ∧ kv.status = .preDelete then
        let (db, _, found) := findKvNoCache db (cstr name) Kv.fresh
        (db, found)
      else (db, false)
    let (db, err) := if done then (db, .noErr) else copyKv db sector kv kvAddr
    ((delKvObj db name kv true).1, err)

/-! ## Garbage collection -/

/-- The loop of `do_gc` over the records of a sector. -/
def gcLoop (sector : SecInfo) : Nat → Kvdb → Kv → Kvdb
  | 0, db, _ => db
  | fuel + 1, db, kv =>
    let (db, kv, _) := readKv db kv
    let db := if kv.crcIsOk ∧ (kv.status = .write ∨ kv.status = .preDelete) then (moveKv db kv).1
      else db
    match getNextKvAddr db sector kv with
    | some addr => gcLoop sector fuel db { kv with start := addr }
    | none => db

/-- `gc_check_cb`: the number of empty sectors and the address of the last one. -/
def gcCheckCb (db : Kvdb) (sector : SecInfo) (s : Nat × Nat) : Kvdb × (Nat × Nat) × Bool :=
  if sector.checkOk then (db, (s.1 + 1, sector.addr), false) else (db, s, false)

/-- `do_gc`.  Its state is `last_gc_sec_addr`. -/
def doGc (freeSize : Nat) (db : Kvdb) (sector : SecInfo) (lastGcSecAddr : Nat) :
    Kvdb × Nat × Bool :=
  if sector.checkOk ∧ (sector.dirty = .yes ∨ sector.dirty = .gc) then
    let (db, _) := db.writeStatus (sector.addr + sectorDirtyOffset) dirtyStatusNum
      DirtyStatus.gc.index
    let db := gcLoop sector db.secSize db { Kv.fresh with start := sector.addr + sectorHdrDataSize }
    let (db, _) := formatSector db sector.addr sectorNotCombined
    let db := { db with oldestAddr := (getNextSectorAddr db sector 0).getD 0xFFFFFFFF }
    -- the space that was collected is in the sector collected before
    let (db, last, err) := readSectorInfo db lastGcSecAddr SecInfo.fresh true
    (db, sector.addr, err = .noErr && freeSize < last.remain)
  else (db, lastGcSecAddr, false)

/-- `gc_collect_by_free_size`. -/
def gcCollectByFreeSize (db : Kvdb) (freeSize : Nat) : Kvdb :=
  let (db, sector, emptySecNum, emptySecAddr) :=
    sectorIterator db SecInfo.fresh .empty gcCheckCb (0, 0) false
  let db :=
    if emptySecNum ≤ fdbGcEmptySecThreshold then
      (sectorIterator db sector .unused (doGc freeSize) emptySecAddr false).1
    else db
  { db with gcRequest := false }

/-- `gc_collect`. -/
def gcCollect (db : Kvdb) : Kvdb := gcCollectByFreeSize db db.maxSize

/-! ## Creating a record -/

/-- `new_kv`. -/
def newKv (db : Kvdb) (sector : SecInfo) (kvSize : Nat) : Kvdb × SecInfo × Option Nat :=
  match allocKv db sector kvSize with
  | (db, sector, some addr) => (db, sector, some addr)
  | (db, sector, none) =>
    if db.gcRequest then
      match allocKv (gcCollectByFreeSize db kvSize) sector kvSize with
      | (db, sector, some addr) => (db, sector, some addr)
      | (db, sector, none) => ({ db with gcRequest := false }, sector, none)
    else (db, sector, none)

/-- `name_len` in a record header, with the padding behind it. -/
def nameLenField (key : Bytes) : Bytes := [UInt8.ofNat key.length, 0xFF, 0xFF, 0xFF]

/-- `value_len` in a record header. -/
def valueLenField (value : Bytes) : Bytes := le4 (BitVec.ofNat 32 value.length)

/-- The check value of a record. -/
def kvCrc (key value : Bytes) : BitVec 32 :=
  fdbCalcCrc32 (fdbCalcCrc32 (fdbCalcCrc32 (fdbCalcCrc32 0 (nameLenField key))
    (valueLenField value)) key) value

/-- The record header from `magic` on. -/
def kvHdr (key value : Bytes) : Bytes :=
  le4 kvMagicWord ++ le4 (BitVec.ofNat 32 (kvHdrDataSize + key.length + value.length)) ++
    le4 (kvCrc key value) ++ nameLenField key ++ valueLenField value

/-- `write_kv_hdr`. -/
def writeKvHdr (db : Kvdb) (addr : Nat) (hdr : Bytes) : Kvdb × FdbErr :=
  let (db, err) := db.writeStatus addr kvStatusNum KvStatus.preWrite.index
  if err ≠ .noErr then (db, err) else db.write (addr + kvMagicOffset) hdr

/-- The part of `create_kv_blob` that writes the record at `kvAddr`. -/
def writeKv (db : Kvdb) (sector : SecInfo) (kvAddr : Nat) (key value : Bytes) : Kvdb × FdbErr :=
  let len := kvHdrDataSize + key.length + value.length
  let (db, isFull, err) := updateSecStatus db sector len false
  let (db, err) := if err = .noErr then writeKvHdr db kvAddr (kvHdr key value) else (db, err)
  let (db, err) :=
    if err = .noErr then
      let (db, err) := db.withFlash (db.flash.writeAlign (kvAddr + kvHdrDataSize) key)
      let db := if isFull then db else db.updateSectorEmptyAddrCache sector.addr (kvAddr + len)
      ({ db with kvCache := updateKvCache db.kvCache key kvAddr }, err)
    else (db, err)
  let (db, err) :=
    if err = .noErr then
      db.withFlash (db.flash.writeAlign (kvAddr + kvHdrDataSize + key.length) value)
    else (db, err)
  let (db, err) :=
    if err = .noErr then db.writeStatus kvAddr kvStatusNum KvStatus.write.index else (db, err)
  if err = .noErr ∧ isFull then ({ db with gcRequest := true }, err) else (db, err)

/-- `create_kv_blob`. -/
def createKvBlob (db : Kvdb) (sector : SecInfo) (key value : Bytes) : Kvdb × SecInfo × FdbErr :=
  let len := kvHdrDataSize + key.length + value.length
  if fdbKvNameMax < key.length then (db, sector, .kvNameErr)
  else if db.secSize - sectorHdrDataSize < len then (db, sector, .savedFull)
  else
    match sector.emptyKv with
    | some kvAddr =>
      let (db, err) := writeKv db sector kvAddr key value
      (db, sector, err)
    | none =>
      match newKv db sector len with
      | (db, sector, some kvAddr) =>
        let (db, err) := writeKv db sector kvAddr key value
        (db, sector, err)
      | (db, sector, none) => (db, sector, .savedFull)

/-! ## The calls -/

/-- `fdb_kv_del`. -/
def fdbKvDel (db : Kvdb) (key : Bytes) : Kvdb × FdbErr :=
  if db.initOk then delKv db key true else (db, .initFailed)

/-- `set_kv` with a value. -/
def setKvValue (db : Kvdb) (key value : Bytes) : Kvdb × FdbErr :=
  let len := kvHdrDataSize + key.length + value.length
  match newKv db db.curSector len with
  | (db, sector, none) => ({ db with curSector := sector }, .savedFull)
  | (db, sector, some _) =>
    let (db, kv, found) := findKv db key db.curKv
    let (db, err) := if found then delKvObj db key kv false else (db, .noErr)
    let (db, sector, err) := if err = .noErr then createKvBlob db sector key value
      else (db, sector, err)
    let (db, err) := if found ∧ err = .noErr then delKvObj db key kv true else (db, err)
    let db := { db with curKv := kv, curSector := sector }
    (if db.gcRequest then gcCollectByFreeSize db len else db, err)

/-- `set_kv`.  `none` is a value pointer that is `NULL`. -/
def setKv (db : Kvdb) (key : Bytes) (value : Option Bytes) : Kvdb × FdbErr :=
  match value with
  | none => delKv db key true
  | some value => setKvValue db key value

/-- `fdb_kv_set_blob`. -/
def fdbKvSetBlob (db : Kvdb) (key : Bytes) (value : Option Bytes) : Kvdb × FdbErr :=
  if db.initOk then setKv db key value else (db, .initFailed)

/-- `fdb_kv_set`.  The value is a string. -/
def fdbKvSet (db : Kvdb) (key : Bytes) (value : Option Bytes) : Kvdb × FdbErr :=
  match value with
  | some value => fdbKvSetBlob db key (some (cstr value))
  | none => fdbKvDel db key

/-- The loop that marks every node of the KV cache as unused. -/
def clearKvCache (cache : List KvCacheNode) : List KvCacheNode :=
  cache.map fun node => { node with addr := none }

/-- The bytes of a default value.  A length of 0 stands for a string. -/
def DefaultKv.bytes (kv : DefaultKv) : Bytes :=
  if kv.valueLen = 0 then cstr kv.value else kv.value.take kv.valueLen

/-- The loop of `fdb_kv_set_default` over the sectors. -/
def formatLoop : Nat → Kvdb → Nat → FdbErr → Kvdb × FdbErr
  | 0, db, _, err => (db, err)
  | fuel + 1, db, addr, err =>
    if addr < db.maxSize then
      match formatSector db addr sectorNotCombined with
      | (db, .noErr) => formatLoop fuel db (addr + db.secSize) .noErr
      | (db, err) => (db, err)
    else (db, err)

/-- The loop of `fdb_kv_set_default` over the default values.  The result of a
creation is not looked at. -/
def createDefaults : List DefaultKv → Kvdb → SecInfo → Kvdb
  | [], db, _ => db
  | kv :: kvs, db, sector =>
    let (db, sector, _) := createKvBlob db { sector with emptyKv := none } kv.key kv.bytes
    createDefaults kvs db sector

/-- `fdb_kv_set_default`. -/
def fdbKvSetDefault (db : Kvdb) : Kvdb × FdbErr :=
  let db := { db with kvCache := clearKvCache db.kvCache }
  let (db, err) := formatLoop (db.sectorNum + 1) db 0 .noErr
  let db := if err = .noErr then createDefaults db.defaultKvs db SecInfo.fresh else db
  ({ db with oldestAddr := 0 }, err)

/-! ## Initialisation -/

/-- `check_oldest_addr_cb`: the oldest address and the status of the sector
before. -/
def checkOldestAddrCb (db : Kvdb) (sector : SecInfo) (s : Nat × StoreStatus) :
    Kvdb × (Nat × StoreStatus) × Bool :=
  let oldest := if s.2 = .empty ∧ (sector.store = .full ∨ sector.store = .using) then sector.addr
    else s.1
  (db, (oldest, sector.store), false)

/-- `check_sec_hdr_cb`: the number of sectors without a header. -/
def checkSecHdrCb (db : Kvdb) (sector : SecInfo) (failedCount : Nat) : Kvdb × Nat × Bool :=
  if sector.checkOk then (db, failedCount, false)
  else if db.notFormatable then (db, failedCount + 1, true)
  else ((formatSector db sector.addr sectorNotCombined).1, failedCount + 1, false)

/-- `check_and_recovery_gc_cb`. -/
def checkAndRecoveryGcCb (db : Kvdb) (sector : SecInfo) (_ : Unit) : Kvdb × Unit × Bool :=
  if sector.checkOk ∧ sector.dirty = .gc then (gcCollect { db with gcRequest := true }, (), false)
  else (db, (), false)

/-- `check_and_recovery_kv_cb`. -/
def checkAndRecoveryKvCb (db : Kvdb) (kv : Kv) (_ : Unit) : Kvdb × Unit × Bool :=
  if kv.crcIsOk ∧ kv.status = .preDelete then
    let (db, err) := moveKv db kv
    (db, (), err ≠ .noErr)
  else if kv.status = .preWrite then
    ((db.writeStatus kv.start kvStatusNum KvStatus.errHdr.index).1, (), true)
  else if kv.crcIsOk ∧ kv.status = .write then
    ({ db with kvCache := updateKvCache db.kvCache (kv.name.take kv.nameLen) kv.start }, (), false)
  else (db, (), false)

/-- The loop of `_fdb_kv_load` over the records. -/
def recoverLoop : Nat → Kvdb → Kv → Option Kvdb
  | 0, _, _ => none
  | rounds + 1, db, kv =>
    let (db, kv, _) := kvIterator db kv checkAndRecoveryKvCb ()
    if db.gcRequest then recoverLoop rounds (gcCollect db) kv else some db

/-- `_fdb_kv_load`. -/
def fdbKvLoad (rounds : Nat) (db : Kvdb) : Option (Kvdb × FdbErr) :=
  let (db, sector, failedCount) :=
    sectorIterator { db with inRecoveryCheck := true } SecInfo.fresh .unused checkSecHdrCb 0 false
  if db.notFormatable ∧ 0 < failedCount then some (db, .readErr)
  else
    let db := if failedCount = db.sectorNum then (fdbKvSetDefault db).1 else db
    let (db, _, _) := sectorIterator db sector .unused checkAndRecoveryGcCb () false
    (recoverLoop rounds db Kv.fresh).map fun db => ({ db with inRecoveryCheck := false }, .noErr)

/-- `_fdb_init_ex` in FAL mode, for a partition that was found.  `blkSize` is the block
size of its flash device. -/
def fdbInitEx (db : Kvdb) (blkSize : Nat) : Kvdb × FdbErr :=
  if db.initOk then (db, .noErr)
  else if db.secSize ≠ 0 ∧ db.secSize % blkSize ≠ 0 then (db, .initFailed)
  else
    let secSize := if db.secSize = 0 then blkSize else db.secSize
    let db := { db with secSize := secSize, maxSize := db.flash.size }
    if db.maxSize % db.secSize ≠ 0 then (db, .initFailed)
    else if db.maxSize / db.secSize < 2 then (db, .initFailed)
    else (db, .noErr)

/-- `_fdb_init_finish`. -/
def fdbInitFinish (db : Kvdb) (err : FdbErr) : Kvdb :=
  if err = .noErr then { db with initOk := true } else db

/-- The part of `fdb_kvdb_init` that looks for the oldest sector and clears the two
caches behind it. -/
def findOldest (db : Kvdb) : Kvdb :=
  let (db, _, oldest, _) := sectorIterator { db with oldestAddr := 0 } SecInfo.fresh .unused
    checkOldestAddrCb (0, .unused) false
  { db with
    oldestAddr := oldest
    sectorCache := db.sectorCache.map fun _ => none
    kvCache := clearKvCache db.kvCache }

/-- `fdb_kvdb_init`. -/
def fdbKvdbInit (rounds : Nat) (db : Kvdb) (blkSize : Nat) (defaultKvs : List DefaultKv) :
    Option (Kvdb × FdbErr) :=
  match fdbInitEx db blkSize with
  | (db, .noErr) =>
    let db := { db with gcRequest := false, inRecoveryCheck := false, defaultKvs := defaultKvs }
    (fdbKvLoad rounds (findOldest db)).map fun r => (fdbInitFinish r.1 r.2, r.2)
  | (db, err) => some (db, err)

/-- `fdb_kvdb_deinit`. -/
def fdbKvdbDeinit (db : Kvdb) : Kvdb := { db with initOk := false }

/-- The database structure after `memset`, with the sector size that
`fdb_kvdb_control` then sets. -/
def Kvdb.cleared (flash : Flash) (secSize : Nat) : Kvdb where
  secSize := secSize
  maxSize := 0
  flash := flash
  oldestAddr := 0
  initOk := false
  notFormatable := false
  defaultKvs := []
  gcRequest := false
  inRecoveryCheck := false
  curKv := Kv.fresh
  curSector := SecInfo.fresh
  lastIsCompleteDel := false
  kvCache := List.replicate fdbKvCacheTableSize ⟨0, 0, some 0⟩
  sectorCache := List.replicate fdbSectorCacheTableSize (some SecInfo.fresh)

end Hc32Board.FlashDb
