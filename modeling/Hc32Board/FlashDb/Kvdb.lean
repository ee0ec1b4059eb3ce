import Hc32Board.FlashDb.Crc32
import Hc32Board.FlashDb.Flash
import Hc32Board.FlashParam.FlashDb

/-!
# The key-value database: types, caches and reading

The reading half of `fdb_kvdb.c`.

The partition is a row of sectors.  A sector has a header of 16 bytes, then
records (the source calls them KV), then erased flash.  A record has a header of
24 bytes, its name and its value.  Its first byte is the status.

Two tables in RAM save work.  `sectorCache` keeps what is known about a sector,
and `kvCache` keeps the address of a record under 16 bits of the check value of
its name.

An address that the source marks with `FAILED_ADDR` or `FDB_DATA_UNUSED` is
`none`.  A buffer on the stack that was not written yet counts as zeros.  The
loops carry a count of turns that is enough for any flash: a record loop goes
forward by at least one byte in each turn, and a sector loop ends after one turn
more than there are sectors.
-/

namespace Hc32Board.FlashDb

open Hc32Board.CodeLib

/-! ## Constants -/

def sectorMagicWord : BitVec 32 := 0x30424446

def kvMagicWord : BitVec 32 := 0x3030564B

def sectorNotCombined : BitVec 32 := 0xFFFFFFFF

def sectorCombined : BitVec 32 := 0

/-- `SECTOR_HDR_DATA_SIZE`: two status bytes, two bytes of padding, `magic`,
`combined` and `reserved`. -/
def sectorHdrDataSize : Nat := 16

def sectorDirtyOffset : Nat := 1

/-- `KV_HDR_DATA_SIZE`: the status byte, three bytes of padding, `magic`, `len`,
`crc32`, `name_len` with three bytes of padding, and `value_len`. -/
def kvHdrDataSize : Nat := 24

def kvMagicOffset : Nat := 4

def kvLenOffset : Nat := 8

def kvCrcOffset : Nat := 12

def kvNameLenOffset : Nat := 16

def kvValueLenOffset : Nat := 20

def fdbKvNameMax : Nat := 64

def fdbSecRemainThreshold : Nat := kvHdrDataSize + fdbKvNameMax

def fdbGcEmptySecThreshold : Nat := 1

def fdbKvCacheTableSize : Nat := 64

def fdbSectorCacheTableSize : Nat := 8

/-! ## Types -/

/-- `fdb_kv_status_t`. -/
inductive KvStatus where
  | unused | preWrite | write | preDelete | deleted | errHdr
deriving DecidableEq, Repr

def KvStatus.index : KvStatus → Nat
  | .unused => 0
  | .preWrite => 1
  | .write => 2
  | .preDelete => 3
  | .deleted => 4
  | .errHdr => 5

def KvStatus.ofIndex : Nat → KvStatus
  | 0 => .unused
  | 1 => .preWrite
  | 2 => .write
  | 3 => .preDelete
  | 4 => .deleted
  | _ => .errHdr

/-- `FDB_KV_STATUS_NUM`. -/
def kvStatusNum : Nat := 6

/-- `fdb_sector_store_status_t`. -/
inductive StoreStatus where
  | unused | empty | using | full
deriving DecidableEq, Repr

def StoreStatus.index : StoreStatus → Nat
  | .unused => 0
  | .empty => 1
  | .using => 2
  | .full => 3

def StoreStatus.ofIndex : Nat → StoreStatus
  | 0 => .unused
  | 1 => .empty
  | 2 => .using
  | _ => .full

/-- `FDB_SECTOR_STORE_STATUS_NUM`. -/
def storeStatusNum : Nat := 4

/-- `fdb_sector_dirty_status_t`. -/
inductive DirtyStatus where
  | unused | no | yes | gc
deriving DecidableEq, Repr

def DirtyStatus.index : DirtyStatus → Nat
  | .unused => 0
  | .no => 1
  | .yes => 2
  | .gc => 3

def DirtyStatus.ofIndex : Nat → DirtyStatus
  | 0 => .unused
  | 1 => .no
  | 2 => .yes
  | _ => .gc

/-- `FDB_SECTOR_DIRTY_STATUS_NUM`. -/
def dirtyStatusNum : Nat := 4

/-- `struct fdb_kv`.  `start` and `value` are its two addresses. -/
structure Kv where
  status : KvStatus
  crcIsOk : Bool
  nameLen : Nat
  len : Nat
  valueLen : Nat
  name : Bytes
  start : Nat
  value : Nat
deriving DecidableEq, Repr

/-- A `struct fdb_kv` on the stack. -/
def Kv.fresh : Kv := ⟨.unused, false, 0, 0, 0, zeros fdbKvNameMax, 0, 0⟩

/-- `struct kvdb_sec_info`. -/
structure SecInfo where
  checkOk : Bool
  store : StoreStatus
  dirty : DirtyStatus
  addr : Nat
  magic : BitVec 32
  combined : BitVec 32
  remain : Nat
  emptyKv : Option Nat
deriving DecidableEq, Repr

/-- A `struct kvdb_sec_info` on the stack. -/
def SecInfo.fresh : SecInfo := ⟨false, .unused, .unused, 0, 0, 0, 0, some 0⟩

/-- `struct kv_cache_node`. -/
structure KvCacheNode where
  nameCrc : BitVec 16
  active : Nat
  addr : Option Nat
deriving DecidableEq, Repr

/-- `struct fdb_default_kv_node`.  `value` is the memory its pointer shows. -/
structure DefaultKv where
  key : Bytes
  value : Bytes
  valueLen : Nat
deriving DecidableEq, Repr

/-- `struct fdb_kvdb`. -/
structure Kvdb where
  secSize : Nat
  maxSize : Nat
  flash : Flash
  oldestAddr : Nat
  initOk : Bool
  notFormatable : Bool
  defaultKvs : List DefaultKv
  gcRequest : Bool
  inRecoveryCheck : Bool
  curKv : Kv
  curSector : SecInfo
  lastIsCompleteDel : Bool
  kvCache : List KvCacheNode
  /-- `none` is an entry whose address is `FDB_DATA_UNUSED`. -/
  sectorCache : List (Option SecInfo)

/-- `SECTOR_NUM`. -/
def Kvdb.sectorNum (db : Kvdb) : Nat := db.maxSize / db.secSize

/-- `FDB_ALIGN_DOWN` to the sector size. -/
def Kvdb.alignDown (db : Kvdb) (addr : Nat) : Nat := addr / db.secSize * db.secSize

def Kvdb.read (db : Kvdb) (addr n : Nat) (buf : Bytes) : Bytes := db.flash.read addr n buf

/-- The database after an operation on its flash, and the result of the operation. -/
def Kvdb.withFlash (db : Kvdb) (r : Flash × FdbErr) : Kvdb × FdbErr :=
  ({ db with flash := r.1 }, r.2)

def Kvdb.write (db : Kvdb) (addr : Nat) (buf : Bytes) : Kvdb × FdbErr :=
  db.withFlash (db.flash.write addr buf)

def Kvdb.writeStatus (db : Kvdb) (addr statusNum statusIndex : Nat) : Kvdb × FdbErr :=
  db.withFlash (db.flash.writeStatus addr statusNum statusIndex)

/-- Subtraction of `uint32_t` and `size_t`. -/
def subSize (a b : Nat) : Nat := if b ≤ a then a - b else a + 2 ^ 32 - b

/-- The 32-bit word at an offset of a buffer. -/
def wordAt (buf : Bytes) (off : Nat) : BitVec 32 := ofLe4 (buf.drop off)

/-! ## The sector cache -/

/-- `get_sector_from_cache`. -/
def getSectorFromCache (cache : List (Option SecInfo)) (addr : Nat) : Option SecInfo :=
  (cache.find? fun e => (e.map SecInfo.addr) = some addr).join

/-- The index of an entry for this sector. -/
def sectorCacheIdx (cache : List (Option SecInfo)) (addr : Nat) : Option Nat :=
  cache.findIdx? fun e => (e.map SecInfo.addr) = some addr

/-- The last unused entry. -/
def lastUnused : List (Option SecInfo) → Nat → Option Nat → Option Nat
  | [], _, found => found
  | none :: cache, i, _ => lastUnused cache (i + 1) (some i)
  | some _ :: cache, i, found => lastUnused cache (i + 1) found

/-- `update_sector_cache`. -/
def updateSectorCache (cache : List (Option SecInfo)) (sector : SecInfo) :
    List (Option SecInfo) :=
  match sectorCacheIdx cache sector.addr with
  | some i => cache.set i (if sector.checkOk then some sector else none)
  | none =>
    match lastUnused cache 0 none with
    | some i => if sector.checkOk then cache.set i (some sector) else cache
    | none => cache

def Kvdb.updateSectorCache (db : Kvdb) (sector : SecInfo) : Kvdb :=
  { db with sectorCache := FlashDb.updateSectorCache db.sectorCache sector }

/-- An entry is changed where it stands, if there is one for this sector. -/
def modifySectorCache (cache : List (Option SecInfo)) (addr : Nat) (f : SecInfo → SecInfo) :
    List (Option SecInfo) :=
  match sectorCacheIdx cache addr with
  | some i => cache.modify i (·.map f)
  | none => cache

/-- `update_sector_empty_addr_cache`. -/
def Kvdb.updateSectorEmptyAddrCache (db : Kvdb) (secAddr emptyAddr : Nat) : Kvdb :=
  { db with sectorCache := modifySectorCache db.sectorCache secAddr fun sector =>
      { sector with
        emptyKv := some emptyAddr
        remain := subSize db.secSize (subSize emptyAddr sector.addr) } }

/-- `update_sector_status_store_cache`. -/
def Kvdb.updateSectorStatusStoreCache (db : Kvdb) (secAddr : Nat) (status : StoreStatus) : Kvdb :=
  { db with sectorCache := modifySectorCache db.sectorCache secAddr fun sector =>
      { sector with store := status } }

/-! ## The KV cache -/

/-- The 16 bits of the check value of a name. -/
def nameCrc (name : Bytes) : BitVec 16 := (fdbCalcCrc32 0 name >>> 16).setWidth 16

/-- The loop of `update_kv_cache` for an address: the nodes it has passed, and what
it has found. -/
structure CacheScan where
  passed : List KvCacheNode
  found : Bool
  emptyIndex : Option Nat
  minActivity : Nat
  minActivityIndex : Option Nat

/-- One turn of the loop for a node at index `i`. -/
def CacheScan.step (crc : BitVec 16) (addr : Nat) (s : CacheScan) (node : KvCacheNode) :
    CacheScan :=
  let i := s.passed.length
  if s.found then { s with passed := s.passed ++ [node] }
  else if node.nameCrc = crc then
    { s with passed := s.passed ++ [{ node with addr := some addr }], found := true }
  else if node.addr = none ∧ s.emptyIndex = none then
    { s with passed := s.passed ++ [node], emptyIndex := some i }
  else if node.addr ≠ none then
    let active := node.active - 1
    if active < s.minActivity then
      { s with passed := s.passed ++ [{ node with active := active }], minActivity := active,
               minActivityIndex := some i }
    else { s with passed := s.passed ++ [{ node with active := active }] }
  else { s with passed := s.passed ++ [node] }

/-- `update_kv_cache` with an address. -/
def updateKvCache (cache : List KvCacheNode) (name : Bytes) (addr : Nat) : List KvCacheNode :=
  let s := cache.foldl (CacheScan.step (nameCrc name) addr) ⟨[], false, none, 0xFFFF, none⟩
  let node : KvCacheNode := ⟨nameCrc name, fdbKvCacheTableSize, some addr⟩
  if s.found then s.passed
  else
    match s.emptyIndex, s.minActivityIndex with
    | some i, _ => s.passed.set i node
    | none, some i => s.passed.set i node
    | none, none => s.passed

/-- `update_kv_cache` with `FDB_DATA_UNUSED`. -/
def deleteKvCache (cache : List KvCacheNode) (name : Bytes) : List KvCacheNode :=
  match cache.findIdx? fun node => node.nameCrc = nameCrc name with
  | some i => cache.modify i fun node => { node with addr := none, active := 0 }
  | none => cache

/-- The test of `get_kv_from_cache` for one node. -/
def Kvdb.cacheHit (db : Kvdb) (name : Bytes) (node : KvCacheNode) : Bool :=
  match node.addr with
  | none => false
  | some addr =>
    node.nameCrc = nameCrc name &&
      (db.read (addr + kvHdrDataSize) fdbKvNameMax (zeros fdbKvNameMax)).take name.length = name

/-- `active` of a node that was hit. -/
def KvCacheNode.hit (node : KvCacheNode) : KvCacheNode :=
  { node with active :=
      if 0xFFFF - fdbKvCacheTableSize ≤ node.active then 0xFFFF
      else node.active + fdbKvCacheTableSize }

/-- `get_kv_from_cache`. -/
def getKvFromCache (db : Kvdb) (name : Bytes) : Kvdb × Option Nat :=
  match db.kvCache.findIdx? (db.cacheHit name) with
  | none => (db, none)
  | some i =>
    ({ db with kvCache := db.kvCache.modify i KvCacheNode.hit }, (db.kvCache[i]?).bind (·.addr))

/-! ## Walking over the records of a sector -/

/-- The first place of a block of 32 bytes where the magic word of a record
stands. -/
def findMagic (buf : Bytes) (start startBak endAddr : Nat) : Option Nat :=
  ((List.range 28).find? fun i =>
    start + i < endAddr && wordAt buf i = kvMagicWord && startBak + kvMagicOffset ≤ start + i).map
    fun i => start + i - kvMagicOffset

/-- The loop of `find_next_kv_addr`. -/
def findNextLoop (db : Kvdb) (startBak endAddr : Nat) : Nat → Nat → Option Nat
  | 0, _ => none
  | fuel + 1, start =>
    if start < endAddr ∧ start + 32 < endAddr then
      -- a read that fails ends the search
      if db.flash.size < start + 32 then none
      else
        match findMagic (db.read start 32 (zeros 32)) start startBak endAddr with
        | some addr => some addr
        | none => findNextLoop db startBak endAddr fuel (start + 28)
    else none

/-- `find_next_kv_addr`. -/
def findNextKvAddr (db : Kvdb) (start endAddr : Nat) : Option Nat :=
  match getSectorFromCache db.sectorCache (db.alignDown start) with
  | some sector =>
    if sector.emptyKv = some start then none else findNextLoop db start endAddr db.secSize start
  | none => findNextLoop db start endAddr db.secSize start

/-- `get_next_kv_addr`. -/
def getNextKvAddr (db : Kvdb) (sector : SecInfo) (preKv : Kv) : Option Nat :=
  if sector.store = .empty then none
  else if preKv.start ≤ sector.addr + db.secSize then
    -- behind a damaged record the search goes on with the next byte
    let addr := if preKv.crcIsOk then preKv.start + preKv.len else preKv.start + 1
    match findNextKvAddr db addr (sector.addr + db.secSize - sectorHdrDataSize) with
    | none => none
    | some addr => if sector.addr + db.secSize < addr ∨ preKv.len = 0 then none else some addr
  else none

/-- The loop of `read_kv` over the name and the value, in blocks of 32 bytes. -/
def crcLoop (db : Kvdb) : Nat → Nat → Nat → Bytes → BitVec 32 → BitVec 32
  | 0, _, _, _, crc => crc
  | fuel + 1, addr, n, buf, crc =>
    if n = 0 then crc
    else
      let size := if 32 < n then 32 else n
      let buf := db.read addr size buf
      crcLoop db fuel (addr + size) (n - size) buf (fdbCalcCrc32 crc (buf.take size))

/-- `read_kv` for the record at `kv.start`. -/
def readKv (db : Kvdb) (kv : Kv) : Kvdb × Kv × FdbErr :=
  let hdr := db.read kv.start kvHdrDataSize (zeros kvHdrDataSize)
  let status := KvStatus.ofIndex (fdbGetStatus hdr kvStatusNum)
  let len := (wordAt hdr kvLenOffset).toNat
  let nameLen := (hdr.getD kvNameLenOffset 0).toNat
  if len = 0xFFFFFFFF ∨ db.maxSize < len ∨ len < kvHdrDataSize then
    -- the length was not written
    let kv := { kv with status := status, len := kvHdrDataSize, crcIsOk := false }
    if status ≠ .errHdr then
      ((db.writeStatus kv.start kvStatusNum KvStatus.errHdr.index).1,
        { kv with status := .errHdr }, .readErr)
    else (db, kv, .readErr)
  else
    let kv := { kv with status := status, len := len }
    let crc := fdbCalcCrc32 0 ((hdr.drop kvNameLenOffset).take 4)
    let crc := fdbCalcCrc32 crc ((hdr.drop kvValueLenOffset).take 4)
    let dataLen := len - kvHdrDataSize
    let crc := crcLoop db dataLen (kv.start + kvHdrDataSize) dataLen (zeros 32) crc
    if crc ≠ wordAt hdr kvCrcOffset then
      (db, { kv with
        crcIsOk := false
        name := db.read (kv.start + kvHdrDataSize) (min nameLen fdbKvNameMax) kv.name }, .readErr)
    else
      let name := db.read (kv.start + kvHdrDataSize) nameLen kv.name
      (db, { kv with
        crcIsOk := true
        nameLen := nameLen
        valueLen := (wordAt hdr kvValueLenOffset).toNat
        value := kv.start + kvHdrDataSize + nameLen
        name := name.set (min nameLen (fdbKvNameMax - 1)) 0 }, .noErr)

/-! ## Reading a sector -/

/-- The loop of `read_sector_info` over the records. -/
def traverseLoop : Nat → Kvdb → SecInfo → Kv → Kvdb × SecInfo × FdbErr
  | 0, db, sector, _ => (db, sector, .noErr)
  | fuel + 1, db, sector, kv =>
    let (db, kv, _) := readKv db kv
    if kv.crcIsOk = false ∧ kv.status ≠ .preWrite ∧ kv.status ≠ .errHdr then
      (db, { sector with remain := 0 }, .readErr)
    else
      let sector := { sector with
        emptyKv := sector.emptyKv.map (· + kv.len)
        remain := subSize sector.remain kv.len }
      match getNextKvAddr db sector kv with
      | some addr => traverseLoop fuel db sector { kv with start := addr }
      | none => (db, sector, .noErr)

/-- The remaining space of a sector with records.  `sector` starts with the space of a
sector without records. -/
def traverseKvs (db : Kvdb) (sector : SecInfo) : Kvdb × SecInfo × FdbErr :=
  let kv := { Kv.fresh with start := sector.addr + sectorHdrDataSize }
  let (db, sector, err) := traverseLoop db.secSize db sector kv
  -- the flash behind the last record has to be erased
  let emptyKv := sector.emptyKv.getD 0
  let ffAddr := fdbContinueFfAddr db.flash emptyKv (sector.addr + db.secSize)
  if emptyKv ≠ ffAddr then
    (db, { sector with
      emptyKv := some ffAddr
      remain := subSize db.secSize (subSize ffAddr sector.addr) }, err)
  else (db, sector, err)

/-- The part of `read_sector_info` that looks for the remaining space. -/
def traverseSector (db : Kvdb) (sector : SecInfo) : Kvdb × SecInfo × FdbErr :=
  let sector := { sector with remain := 0, emptyKv := some (sector.addr + sectorHdrDataSize) }
  match sector.store with
  | .empty => (db, { sector with remain := db.secSize - sectorHdrDataSize }, .noErr)
  | .using => traverseKvs db { sector with remain := db.secSize - sectorHdrDataSize }
  | _ => (db, sector, .noErr)

/-- `read_sector_info` from the flash. -/
def loadSectorInfo (db : Kvdb) (addr : Nat) (sector : SecInfo) (traversal : Bool) :
    Kvdb × SecInfo × FdbErr :=
  let hdr := db.read addr sectorHdrDataSize (zeros sectorHdrDataSize)
  let magic := wordAt hdr 4
  let combined := wordAt hdr 8
  let sector := { sector with store := .unused, dirty := .unused, addr := addr, magic := magic }
  if magic ≠ sectorMagicWord ∨ combined ≠ sectorNotCombined ∧ combined ≠ sectorCombined then
    (db, { sector with checkOk := false, combined := sectorNotCombined }, .initFailed)
  else
    let sector := { sector with
      checkOk := true
      combined := combined
      store := StoreStatus.ofIndex (fdbGetStatus hdr storeStatusNum)
      dirty := DirtyStatus.ofIndex (fdbGetStatus (hdr.drop sectorDirtyOffset) dirtyStatusNum) }
    if traversal then
      let (db, sector, err) := traverseSector db sector
      (db.updateSectorCache sector, sector, err)
    else
      match getSectorFromCache db.sectorCache addr with
      | some _ => (db, sector, .noErr)
      | none =>
        let sector := { sector with emptyKv := none, remain := 0 }
        (db.updateSectorCache sector, sector, .noErr)

/-- `read_sector_info`. -/
def readSectorInfo (db : Kvdb) (addr : Nat) (sector : SecInfo) (traversal : Bool) :
    Kvdb × SecInfo × FdbErr :=
  match getSectorFromCache db.sectorCache addr with
  | some cached =>
    if traversal = false ∨ cached.emptyKv ≠ none then (db, cached, .noErr)
    else loadSectorInfo db addr sector traversal
  | none => loadSectorInfo db addr sector traversal

/-- `get_next_sector_addr`. -/
def getNextSectorAddr (db : Kvdb) (preSec : SecInfo) (traversedLen : Nat) : Option Nat :=
  let blockSize :=
    if preSec.combined = sectorNotCombined then db.secSize else preSec.combined.toNat * db.secSize
  if traversedLen + blockSize ≤ db.maxSize then
    if preSec.addr + blockSize < db.maxSize then some (preSec.addr + blockSize) else some 0
  else none

/-! ## Iterators -/

section Iterators

variable {σ : Type}

/-- The loop of `sector_iterator`.  The callback gets the database and its own state,
and returns `true` to stop. -/
def sectorLoop (status : StoreStatus) (traversal : Bool)
    (cb : Kvdb → SecInfo → σ → Kvdb × σ × Bool) :
    Nat → Kvdb → SecInfo → Nat → Nat → σ → Kvdb × SecInfo × σ
  | 0, db, sector, _, _, s => (db, sector, s)
  | fuel + 1, db, sector, secAddr, traversedLen, s =>
    let traversedLen := traversedLen + db.secSize
    let (db, sector, _) := readSectorInfo db secAddr sector false
    if status = .unused ∨ status = sector.store then
      let (db, sector, _) := if traversal then readSectorInfo db secAddr sector true
        else (db, sector, FdbErr.noErr)
      match cb db sector s with
      | (db, s, true) => (db, sector, s)
      | (db, s, false) =>
        match getNextSectorAddr db sector traversedLen with
        | some secAddr => sectorLoop status traversal cb fuel db sector secAddr traversedLen s
        | none => (db, sector, s)
    else
      match getNextSectorAddr db sector traversedLen with
      | some secAddr => sectorLoop status traversal cb fuel db sector secAddr traversedLen s
      | none => (db, sector, s)

/-- `sector_iterator`. -/
def sectorIterator (db : Kvdb) (sector : SecInfo) (status : StoreStatus)
    (cb : Kvdb → SecInfo → σ → Kvdb × σ × Bool) (s : σ) (traversal : Bool) :
    Kvdb × SecInfo × σ :=
  sectorLoop status traversal cb (db.sectorNum + 1) db sector db.oldestAddr 0 s

/-- The loop of `kv_iterator` over the records of a sector.  The last result says
whether the callback has stopped. -/
def kvLoop (sector : SecInfo) (cb : Kvdb → Kv → σ → Kvdb × σ × Bool) :
    Nat → Kvdb → Kv → σ → Kvdb × Kv × σ × Bool
  | 0, db, kv, s => (db, kv, s, false)
  | fuel + 1, db, kv, s =>
    let (db, kv, _) := readKv db kv
    match cb db kv s with
    | (db, s, true) => (db, kv, s, true)
    | (db, s, false) =>
      match getNextKvAddr db sector kv with
      | some addr => kvLoop sector cb fuel db { kv with start := addr } s
      | none => (db, kv, s, false)

/-- The loop of `kv_iterator` over the sectors. -/
def kvSectorLoop (cb : Kvdb → Kv → σ → Kvdb × σ × Bool) :
    Nat → Kvdb → SecInfo → Kv → Nat → Nat → σ → Kvdb × Kv × σ
  | 0, db, _, kv, _, _, s => (db, kv, s)
  | fuel + 1, db, sector, kv, secAddr, traversedLen, s =>
    let traversedLen := traversedLen + db.secSize
    let (db, sector, err) := readSectorInfo db secAddr sector false
    let (db, kv, s, stop) :=
      if err = .noErr ∧ (sector.store = .using ∨ sector.store = .full) then
        kvLoop sector cb db.secSize db { kv with start := sector.addr + sectorHdrDataSize } s
      else (db, kv, s, false)
    if stop then (db, kv, s)
    else
      match getNextSectorAddr db sector traversedLen with
      | some secAddr => kvSectorLoop cb fuel db sector kv secAddr traversedLen s
      | none => (db, kv, s)

/-- `kv_iterator`. -/
def kvIterator (db : Kvdb) (kv : Kv) (cb : Kvdb → Kv → σ → Kvdb × σ × Bool) (s : σ) :
    Kvdb × Kv × σ :=
  kvSectorLoop cb (db.sectorNum + 1) db SecInfo.fresh kv db.oldestAddr 0 s

end Iterators

/-! ## Finding a record -/

/-- `find_kv_cb`. -/
def findKvCb (key : Bytes) (db : Kvdb) (kv : Kv) (_ : Bool) : Kvdb × Bool × Bool :=
  let found := key.length = kv.nameLen && kv.crcIsOk && kv.status = .write &&
    kv.name.take key.length = key
  (db, found, found)

/-- `find_kv_no_cache`. -/
def findKvNoCache (db : Kvdb) (key : Bytes) (kv : Kv) : Kvdb × Kv × Bool :=
  kvIterator db kv (findKvCb key) false

/-- `find_kv`. -/
def findKv (db : Kvdb) (key : Bytes) (kv : Kv) : Kvdb × Kv × Bool :=
  match getKvFromCache db key with
  | (db, some addr) =>
    let (db, kv, _) := readKv db { kv with start := addr }
    (db, kv, true)
  | (db, none) =>
    let (db, kv, found) := findKvNoCache db key kv
    if found then
      ({ db with kvCache := updateKvCache db.kvCache key kv.start }, kv, true)
    else (db, kv, false)

/-- `get_kv`, with the buffer afterwards, the length that was read and
`*value_len`. -/
def getKv (db : Kvdb) (key : Bytes) (buf : Bytes) : Kvdb × Bytes × Nat × Nat :=
  match findKv db key Kv.fresh with
  | (db, kv, true) =>
    let readLen := if kv.valueLen < buf.length then kv.valueLen else buf.length
    (db, db.read kv.value readLen buf, readLen, kv.valueLen)
  | (db, _, false) => (db, buf, 0, 0)

/-- `fdb_kv_get_blob`.  The result is the buffer afterwards, the length that was read
and `blob.saved.len`, which is left alone when the database is not initialised. -/
def fdbKvGetBlob (db : Kvdb) (key : Bytes) (buf : Bytes) (savedLen : Nat) :
    Kvdb × Bytes × Nat × Nat :=
  if db.initOk then getKv db key buf else (db, buf, 0, savedLen)

/-- `fdb_kv_get`.  The static buffer has one byte more than the blob.  The result is the
buffer afterwards and the string that is returned. -/
def fdbKvGet (db : Kvdb) (key : Bytes) (value : Bytes) : Kvdb × Bytes × Option Bytes :=
  let (db, buf, getSize, _) := fdbKvGetBlob db key (value.take FlashParam.strKvValueMaxSize) 0
  let value := overlay buf value
  if 0 < getSize ∧ FlashParam.fdbIsStr (value.take getSize) then
    let value := value.set getSize 0
    (db, value, some (cstr value))
  else (db, value, none)

end Hc32Board.FlashDb
