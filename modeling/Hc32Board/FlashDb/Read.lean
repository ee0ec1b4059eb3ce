import Hc32Board.FlashDb.Cache
import Hc32Board.FlashDb.Layout

/-!
# Reading records and sectors
-/

namespace Hc32Board.FlashDb

open Hc32Board.CodeLib

/-! ## The header of a record -/

def Rec.hdr (r : Rec) : Bytes := r.status.byte :: ([0xFF, 0xFF, 0xFF] ++ kvHdr r.name r.value)

theorem Rec.bytes_eq_hdr (r : Rec) : r.bytes = r.hdr ++ (r.name ++ r.value) := by
  rw [Rec.bytes, Rec.data, Rec.hdr, List.append_assoc]
  rfl

@[simp] theorem Rec.length_hdr (r : Rec) : r.hdr.length = kvHdrDataSize := rfl

theorem Rec.hdr_len (r : Rec) : wordAt r.hdr kvLenOffset = BitVec.ofNat 32 r.len :=
  ofLe4_le4 _

theorem Rec.hdr_crc (r : Rec) : wordAt r.hdr kvCrcOffset = kvCrc r.name r.value :=
  ofLe4_le4 _

theorem Rec.hdr_valueLen (r : Rec) :
    wordAt r.hdr kvValueLenOffset = BitVec.ofNat 32 r.value.length :=
  ofLe4_le4 _

theorem Rec.hdr_nameLen (r : Rec) : r.hdr.getD kvNameLenOffset 0 = UInt8.ofNat r.name.length :=
  rfl

theorem Rec.hdr_nameLenField (r : Rec) :
    (r.hdr.drop kvNameLenOffset).take 4 = nameLenField r.name :=
  rfl

theorem Rec.hdr_valueLenField (r : Rec) :
    (r.hdr.drop kvValueLenOffset).take 4 = valueLenField r.value :=
  rfl

/-! ## Reading a record -/

/-- A read that fits the buffer. -/
theorem Flash.take_read {f : Flash} {addr n : Nat} {buf : Bytes} (h : addr + n ≤ f.size)
    (hbuf : n ≤ buf.length) : (f.read addr n buf).take n = readRange f.img addr n := by
  have htake : (readRange f.img addr n).take buf.length = readRange f.img addr n :=
    List.take_of_length_le (by rwa [length_readRange])
  rw [Flash.read, if_pos h, overlay, htake, List.take_left' (length_readRange _ _ _)]

theorem Flash.length_read (f : Flash) (addr n : Nat) (buf : Bytes) :
    (f.read addr n buf).length = buf.length := by
  rw [Flash.read]
  split_ifs
  · exact length_overlay _ _
  · rfl

/-- The blocks of the loop make up the whole range. -/
theorem crcLoop_eq {db : Kvdb} : ∀ (fuel addr n : Nat) (buf : Bytes) (crc : BitVec 32), n ≤ fuel →
    addr + n ≤ db.flash.size → buf.length = 32 →
    crcLoop db fuel addr n buf crc = fdbCalcCrc32 crc (readRange db.flash.img addr n) := by
  intro fuel
  induction fuel with
  | zero =>
    intro addr n buf crc hn _ _
    obtain rfl := Nat.le_zero.mp hn
    rw [crcLoop, readRange_zero, fdbCalcCrc32_nil]
  | succ fuel ih =>
    intro addr n buf crc hn hsize hbuf
    rw [crcLoop]
    split_ifs with hzero hbig
    · rw [hzero, readRange_zero, fdbCalcCrc32_nil]
    all_goals
      dsimp only
      rw [ih _ _ _ _ (by omega) (by omega) (by rw [Kvdb.read, Flash.length_read, hbuf]), Kvdb.read,
        Flash.take_read (by omega) (by omega)]
    · rw [← fdbCalcCrc32_append, ← readRange_add, Nat.add_sub_cancel' (by omega)]
    · rw [Nat.sub_self, readRange_zero, fdbCalcCrc32_nil]

/-- A `struct fdb_kv` that shows a record at an address. -/
structure KvShows (r : Rec) (a : Nat) (kv : Kv) : Prop where
  status : kv.status = r.status
  crcIsOk : kv.crcIsOk = true
  nameLen : kv.nameLen = r.name.length
  len : kv.len = r.len
  valueLen : kv.valueLen = r.value.length
  name : kv.name.take r.name.length = r.name
  length_name : kv.name.length = fdbKvNameMax
  start : kv.start = a
  value : kv.value = a + kvHdrDataSize + r.name.length

section ReadKv

variable {db : Kvdb} {kv : Kv} {r : Rec}

/-- `read_kv` at a record. -/
theorem readKv_of_bytes (hsize : db.flash.size = db.maxSize) (hmax : db.maxSize < 2 ^ 32 - 1)
    (hok : r.Ok) (hbytes : readRange db.flash.img kv.start r.len = r.bytes)
    (hend : kv.start + r.len ≤ db.maxSize) (hname : kv.name.length = fdbKvNameMax) :
    ∃ kv', readKv db kv = (db, kv', .noErr) ∧ KvShows r kv.start kv' := by
  have hlen : r.len = kvHdrDataSize + (r.name.length + r.value.length) := Nat.add_assoc _ _ _
  have hnl := hok.name_lt
  have hparts : readRange db.flash.img kv.start kvHdrDataSize = r.hdr ∧
      readRange db.flash.img (kv.start + kvHdrDataSize) r.name.length = r.name ∧
      readRange db.flash.img (kv.start + kvHdrDataSize) (r.name.length + r.value.length) =
        r.name ++ r.value := by
    rw [r.bytes_eq_hdr, hlen, readRange_add] at hbytes
    have hinj := List.append_inj hbytes (by simp)
    exact ⟨hinj.1, readRange_left hinj.2, hinj.2⟩
  obtain ⟨hhdr, hnamebytes, hdata⟩ := hparts
  have hread : db.read kv.start kvHdrDataSize (zeros kvHdrDataSize) = r.hdr := by
    rw [Kvdb.read, Flash.read_zeros (by omega), hhdr]
  have htoNat : (BitVec.ofNat 32 r.len).toNat = r.len := by
    rw [BitVec.toNat_ofNat, Nat.mod_eq_of_lt (by omega)]
  have hnlNat : (UInt8.ofNat r.name.length).toNat = r.name.length := by
    rw [UInt8.toNat_ofNat', Nat.mod_eq_of_lt]
    unfold fdbKvNameMax at hnl
    omega
  have hcrc : ∀ crc, crcLoop db (r.len - kvHdrDataSize) (kv.start + kvHdrDataSize)
      (r.len - kvHdrDataSize) (zeros 32) crc = fdbCalcCrc32 crc (r.name ++ r.value) := by
    intro crc
    rw [crcLoop_eq _ _ _ _ _ (Nat.le_refl _) (by omega) (length_zeros 32), hlen,
      Nat.add_sub_cancel_left, hdata]
  unfold readKv
  rw [hread]
  dsimp only
  rw [r.hdr_len, htoNat, if_neg (by have := r.len_pos; unfold kvHdrDataSize; omega),
    r.hdr_nameLenField, r.hdr_valueLenField, hcrc, fdbCalcCrc32_append, r.hdr_crc,
    if_neg (by rw [kvCrc]; simp), r.hdr_nameLen, hnlNat, r.hdr_valueLen]
  have hbuf : db.read (kv.start + kvHdrDataSize) r.name.length kv.name =
      r.name ++ kv.name.drop r.name.length := by
    rw [Kvdb.read, Flash.read, if_pos (by omega), hnamebytes, overlay,
      List.take_of_length_le (by omega)]
  refine ⟨_, rfl, ?_⟩
  constructor
  case status => exact r.status.ofIndex_byte _
  case crcIsOk => rfl
  case nameLen => rfl
  case len => rfl
  case valueLen =>
    show (BitVec.ofNat 32 r.value.length).toNat = r.value.length
    rw [BitVec.toNat_ofNat, Nat.mod_eq_of_lt (by omega)]
  case name =>
    show ((db.read _ _ _).set _ 0).take _ = _
    rw [hbuf, List.take_set_of_le (by unfold fdbKvNameMax at hnl ⊢; omega), List.take_left' rfl]
  case length_name =>
    show ((db.read _ _ _).set _ 0).length = _
    rw [List.length_set, Kvdb.read, Flash.length_read, hname]
  case start => rfl
  case value => rfl

/-- The bytes that the check value of a record covers. -/
def Rec.checked (r : Rec) : Bytes :=
  nameLenField r.name ++ valueLenField r.value ++ r.name ++ r.value

theorem Rec.kvCrc_eq (r : Rec) : kvCrc r.name r.value = fdbCalcCrc32 0 r.checked := by
  rw [kvCrc, Rec.checked, fdbCalcCrc32_append, fdbCalcCrc32_append, fdbCalcCrc32_append]

/-- The fields of a header that is read, and the bytes behind it. -/
theorem readRange_kvHdr (img : Image) (a n : Nat) :
    ((readRange img a kvHdrDataSize).drop kvNameLenOffset).take 4 ++
      ((readRange img a kvHdrDataSize).drop kvValueLenOffset).take 4 ++
      readRange img (a + kvHdrDataSize) n = readRange img (a + kvNameLenOffset) (8 + n) := by
  have hhdr : readRange img a kvHdrDataSize = readRange img a kvNameLenOffset ++
      (readRange img (a + kvNameLenOffset) 4 ++ readRange img (a + kvValueLenOffset) 4) := by
    rw [show kvHdrDataSize = kvNameLenOffset + (4 + 4) from rfl, readRange_add, readRange_add,
      Nat.add_assoc]
    rfl
  have hfirst : ((readRange img a kvHdrDataSize).drop kvNameLenOffset).take 4 =
      readRange img (a + kvNameLenOffset) 4 := by
    rw [hhdr, List.drop_left' (length_readRange _ _ _), List.take_left' (length_readRange _ _ _)]
  have hsecond : ((readRange img a kvHdrDataSize).drop kvValueLenOffset).take 4 =
      readRange img (a + kvValueLenOffset) 4 := by
    rw [hhdr, ← List.append_assoc, List.drop_left' (by simp [kvNameLenOffset, kvValueLenOffset]),
      List.take_of_length_le (by simp)]
  rw [hfirst, hsecond, show 8 + n = 4 + (4 + n) by omega, readRange_add, readRange_add,
    List.append_assoc, Nat.add_assoc, Nat.add_assoc]
  rfl

/-- The check of a record whose length and check value are intact.  A change inside a
window of 32 bits in the other fields, the name and the value is found. -/
theorem readKv_finds_burst (hend : kv.start + r.len ≤ db.flash.size) (hmax : r.len ≤ db.maxSize)
    (hlt : r.len < 2 ^ 32 - 1)
    (hlen : wordAt (readRange db.flash.img kv.start kvHdrDataSize) kvLenOffset = .ofNat 32 r.len)
    (hcrc : wordAt (readRange db.flash.img kv.start kvHdrDataSize) kvCrcOffset =
      kvCrc r.name r.value)
    (hburst : Burst 32 r.checked
      (readRange db.flash.img (kv.start + kvNameLenOffset) (r.len - kvNameLenOffset))) :
    (readKv db kv).2.1.crcIsOk = true ↔
      readRange db.flash.img (kv.start + kvNameLenOffset) (r.len - kvNameLenOffset) =
        r.checked := by
  have hmin : kvHdrDataSize ≤ r.len := by
    unfold Rec.len
    omega
  have hread : db.read kv.start kvHdrDataSize (zeros kvHdrDataSize) =
      readRange db.flash.img kv.start kvHdrDataSize := by
    rw [Kvdb.read, Flash.read_zeros (by omega)]
  have htoNat : (BitVec.ofNat 32 r.len).toNat = r.len := by
    rw [BitVec.toNat_ofNat, Nat.mod_eq_of_lt (by omega)]
  -- the value that is computed is the one of all checked bytes
  have hcalc : crcLoop db (r.len - kvHdrDataSize) (kv.start + kvHdrDataSize) (r.len - kvHdrDataSize)
      (zeros 32) (fdbCalcCrc32 (fdbCalcCrc32 0
        (((readRange db.flash.img kv.start kvHdrDataSize).drop kvNameLenOffset).take 4))
        (((readRange db.flash.img kv.start kvHdrDataSize).drop kvValueLenOffset).take 4)) =
      fdbCalcCrc32 0
        (readRange db.flash.img (kv.start + kvNameLenOffset) (r.len - kvNameLenOffset)) := by
    rw [crcLoop_eq _ _ _ _ _ (Nat.le_refl _) (by omega) (length_zeros 32), ← fdbCalcCrc32_append,
      ← fdbCalcCrc32_append, ← List.append_assoc, readRange_kvHdr]
    congr 2
    unfold kvHdrDataSize kvNameLenOffset at *
    omega
  unfold readKv
  rw [hread]
  dsimp only
  rw [hlen, htoNat, if_neg (by omega), hcalc, hcrc, r.kvCrc_eq]
  by_cases heq : fdbCalcCrc32 0
      (readRange db.flash.img (kv.start + kvNameLenOffset) (r.len - kvNameLenOffset)) =
        fdbCalcCrc32 0 r.checked
  · rw [if_neg (not_not.mpr heq)]
    exact iff_of_true rfl (eq_of_fdbCalcCrc32_eq hburst heq.symm).symm
  · rw [if_pos heq]
    exact iff_of_false Bool.false_ne_true fun hsame => heq (by rw [hsame])

/-- The value of a record has changed from 1 to 3 in the flash. -/
theorem readKv_finds_burst_flip :
    ¬ (readKv { Kvdb.cleared { Flash.erased 256 with img := fun a =>
      (((⟨.write, [0x61], [1]⟩ : Rec).bytes).set 25 3).getD a 0xFF } 256 with maxSize := 256 }
      Kv.fresh).2.1.crcIsOk = true := by
  rw [readKv_finds_burst (r := ⟨.write, [0x61], [1]⟩) (by decide) (by decide) (by decide)
    (by decide) (by decide +kernel)
    ⟨bytesBits [1, 0xFF, 0xFF, 0xFF, 1, 0, 0, 0, 0x61], byteBits 1, byteBits 3, [], by decide,
      by decide, rfl, by decide⟩]
  decide

end ReadKv

/-! ## The database and its sectors -/

/-- What `_fdb_init_ex` has checked, in terms of `n` sectors of `z` bytes. -/
structure Geometry (z n : Nat) : Prop where
  sectors : 1 < n
  room : sectorHdrDataSize + fdbSecRemainThreshold < z
  size_lt : n * z < 2 ^ 32 - 1

theorem sector_end_le {z n i : Nat} (hi : i < n) : i * z + z ≤ n * z := by
  rw [← Nat.succ_mul]
  exact Nat.mul_le_mul_right z hi

theorem sector_disjoint {z i j : Nat} (hij : i ≠ j) : i * z + z ≤ j * z ∨ j * z + z ≤ i * z := by
  rcases Nat.lt_or_gt_of_ne hij with h | h
  · exact .inl (sector_end_le h)
  · exact .inr (sector_end_le h)

/-- What the code knows of a sector.  The dirty status in the cache does not follow the
step to `FDB_SECTOR_DIRTY_GC`. -/
structure InfoAt (z a : Nat) (s : Sec) (info : SecInfo) : Prop where
  checkOk : info.checkOk = true
  addr : info.addr = a
  store : info.store = s.store
  dirty : info.dirty = s.dirty ∨ s.dirty = .gc ∧ info.dirty = .yes
  combined : info.combined = sectorNotCombined
  empty : info.emptyKv = none ∧ info.remain = 0 ∨
    info.emptyKv = some (a + s.used) ∧ info.remain = z - s.used

/-- The database is set up for the partition.  Nothing is known about what the flash
holds. -/
structure Based (z n : Nat) (db : Kvdb) : Prop where
  geo : Geometry z n
  secSize : db.secSize = z
  maxSize : db.maxSize = n * z
  size : db.flash.size = n * z
  ready : db.flash.Ready
  oldest : ∃ i < n, db.oldestAddr = i * z
  distinct : Distinct db.sectorCache
  curName : db.curKv.name.length = fdbKvNameMax

/-- The database `db` has written the sectors `st`.  No operation on the flash
fails. -/
structure Rep (z n : Nat) (st : Nat → Sec) (db : Kvdb) : Prop where
  geo : Geometry z n
  secSize : db.secSize = z
  maxSize : db.maxSize = n * z
  size : db.flash.size = n * z
  ready : db.flash.Ready
  secs : ∀ i < n, SecAt db.flash.img z (i * z) (st i)
  ok : ∀ i < n, (st i).Ok z
  oldest : ∃ i < n, db.oldestAddr = i * z
  distinct : Distinct db.sectorCache
  cache : ∀ info, some info ∈ db.sectorCache → ∃ i < n, InfoAt z (i * z) (st i) info
  curName : db.curKv.name.length = fdbKvNameMax

section Walk

variable {z n i : Nat} {st : Nat → Sec} {db : Kvdb}

theorem Rep.based (h : Rep z n st db) : Based z n db :=
  ⟨h.geo, h.secSize, h.maxSize, h.size, h.ready, h.oldest, h.distinct, h.curName⟩

/-- The sector cache gives the right sector. -/
theorem Rep.cached (h : Rep z n st db) {info : SecInfo}
    (hget : getSectorFromCache db.sectorCache (i * z) = some info) :
    InfoAt z (i * z) (st i) info := by
  obtain ⟨hmem, haddr⟩ := mem_of_getSectorFromCache hget
  obtain ⟨j, -, hinfo⟩ := h.cache info hmem
  have hz := h.geo.room
  obtain rfl : i = j := Nat.eq_of_mul_eq_mul_right (by omega) (haddr.symm.trans hinfo.addr)
  exact hinfo

/-- The bytes of a record of the database. -/
theorem Rep.readKv_spec (h : Rep z n st db) (hi : i < n) {pre post : List Rec} {r : Rec}
    (hrecs : (st i).recs = pre ++ r :: post) {kv : Kv}
    (hstart : kv.start = i * z + (sectorHdrDataSize + recsLen pre))
    (hname : kv.name.length = fdbKvNameMax) :
    ∃ kv', readKv db kv = (db, kv', .noErr) ∧ KvShows r kv.start kv' := by
  have hok := h.ok i hi
  have hend := sector_end_le (z := z) hi
  have hused : (st i).used = sectorHdrDataSize + recsLen pre + r.len + recsLen post := by
    rw [Sec.used, hrecs, recsLen_append, recsLen_cons]
    omega
  have hroom := hok.room
  refine readKv_of_bytes (by rw [h.size, h.maxSize]) (by rw [h.maxSize]; exact h.geo.size_lt)
    (hok.recs r (by rw [hrecs]; simp)) ?_ (by rw [hstart, h.maxSize]; omega) hname
  rw [hstart]
  exact (h.secs i hi).record hrecs

end Walk

/-! ## The next record -/

/-- The first byte of a word. -/
theorem wordAt_mod (buf : Bytes) (off : Nat) :
    (wordAt buf off).toNat % 2 ^ 8 = (buf.getD off 0).toNat := by
  have hfirst : (buf.drop off).getD 0 0 = buf.getD off 0 := by
    rw [List.getD_eq_getElem?_getD, List.getD_eq_getElem?_getD, List.getElem?_drop, Nat.add_zero]
  have hlt := (buf.getD off 0).toNat_lt
  rw [wordAt, ofLe4, BitVec.toNat_ofNat, hfirst]
  omega

/-- The magic word does not start with another byte. -/
theorem wordAt_ne_kvMagicWord {buf : Bytes} {off : Nat} (h : buf.getD off 0 ≠ 0x4B) :
    wordAt buf off ≠ kvMagicWord := by
  intro heq
  have hmod := wordAt_mod buf off
  rw [heq] at hmod
  exact h (UInt8.toNat_inj.mp hmod.symm)

section Walk

variable {z n i : Nat} {st : Nat → Sec} {db : Kvdb}

/-- In erased flash there is no record. -/
theorem findNextLoop_erased {startBak endAddr : Nat} : ∀ (fuel start : Nat),
    (∀ x, start ≤ x → x < endAddr → db.flash.img x = 0xFF) →
    findNextLoop db startBak endAddr fuel start = none := by
  intro fuel
  induction fuel with
  | zero => exact fun _ _ => rfl
  | succ fuel ih =>
    intro start hff
    rw [findNextLoop]
    split_ifs with hlt hsize
    · rfl
    · have hmagic : findMagic (db.read start 32 (zeros 32)) start startBak endAddr = none := by
        rw [findMagic, Option.map_eq_none_iff, List.find?_eq_none]
        intro k hk
        have hk : k < 28 := List.mem_range.mp hk
        have hbyte : (db.read start 32 (zeros 32)).getD k 0 ≠ 0x4B := by
          rw [Kvdb.read, Flash.read_zeros (by omega), getD_readRange (by omega),
            hff _ (by omega) (by omega)]
          decide
        simp [wordAt_ne_kvMagicWord hbyte]
      rw [hmagic]
      exact ih (start + 28) fun x hx => hff x (by omega)
    · rfl

/-- The search finds a record at its start. -/
theorem findNextLoop_record {fuel start endAddr : Nat} {r : Rec} (hfuel : 0 < fuel)
    (hbytes : readRange db.flash.img start r.len = r.bytes) (hend : start + 32 < endAddr)
    (hsize : endAddr ≤ db.flash.size) :
    findNextLoop db start endAddr fuel start = some start := by
  obtain ⟨fuel, rfl⟩ := Nat.exists_eq_add_of_lt hfuel
  have hblock : ∃ rest, db.read start 32 (zeros 32) =
      r.status.byte :: 0xFF :: 0xFF :: 0xFF :: (le4 kvMagicWord ++ rest) := by
    have hhead : readRange db.flash.img start 8 =
        r.status.byte :: 0xFF :: 0xFF :: 0xFF :: le4 kvMagicWord := by
      have hsplit : readRange db.flash.img start r.len = r.bytes.take 8 ++ r.bytes.drop 8 := by
        rw [hbytes, List.take_append_drop]
      exact readRange_left hsplit
    refine ⟨readRange db.flash.img (start + 8) 24, ?_⟩
    rw [Kvdb.read, Flash.read_zeros (by omega), show (32 : Nat) = 8 + 24 from rfl, readRange_add,
      hhead]
    rfl
  obtain ⟨rest, hblock⟩ := hblock
  have hstatus : r.status.byte ≠ 0x4B := by
    cases r.status <;> decide
  have hmagic : findMagic (db.read start 32 (zeros 32)) start start endAddr = some start := by
    rw [hblock, findMagic, Option.map_eq_some_iff]
    refine ⟨4, List.find?_range_eq_some.mpr ⟨?_, by decide, ?_⟩, Nat.add_sub_cancel _ _⟩
    · have hword : wordAt (r.status.byte :: 0xFF :: 0xFF :: 0xFF :: (le4 kvMagicWord ++ rest)) 4 =
          kvMagicWord := ofLe4_le4 kvMagicWord
      rw [hword]
      simp [kvMagicOffset]
      omega
    · intro j hj
      have hbyte : (r.status.byte :: 0xFF :: 0xFF :: 0xFF :: (le4 kvMagicWord ++ rest)).getD j 0 ≠
          0x4B := by
        interval_cases j
        · exact hstatus
        all_goals exact (by decide : (0xFF : UInt8) ≠ 0x4B)
      simp [wordAt_ne_kvMagicWord hbyte]
  rw [findNextLoop, if_pos ⟨by omega, hend⟩, if_neg (by omega), hmagic]

/-- The start of a record in its sector. -/
theorem Rep.alignDown_eq (h : Rep z n st db) {o : Nat} (ho : o < z) :
    db.alignDown (i * z + o) = i * z := by
  have hz : 0 < z := by omega
  rw [Kvdb.alignDown, h.secSize, Nat.mul_comm i z, Nat.mul_add_div hz, Nat.div_eq_of_lt ho,
    Nat.add_zero, Nat.mul_comm]

/-- The flash behind the records. -/
theorem SecAt.erased {img : Image} {a : Nat} {s : Sec} (h : SecAt img z a s) {x : Nat}
    (hlo : a + s.used ≤ x) (hhi : x < a + z) : img x = 0xFF := by
  have hused := h.used_le
  have hget : (readRange img a z).getD (x - a) 0 = 0xFF := by
    rw [h, List.getD_append_right _ _ _ _ (by rw [s.length_bytes]; omega), s.length_bytes,
      List.getD_eq_getElem?_getD, List.getElem?_replicate, if_pos (by omega)]
    rfl
  rwa [getD_readRange (by omega), Nat.add_sub_cancel' (by omega)] at hget

/-- `find_next_kv_addr` behind the records `pre` of a sector. -/
theorem Rep.findNextKvAddr_spec (h : Rep z n st db) (hi : i < n) {pre post : List Rec}
    (hrecs : (st i).recs = pre ++ post) :
    findNextKvAddr db (i * z + (sectorHdrDataSize + recsLen pre)) (i * z + z - sectorHdrDataSize) =
      if post = [] then none else some (i * z + (sectorHdrDataSize + recsLen pre)) := by
  have hroom := (h.ok i hi).room
  have hend := sector_end_le (z := z) hi
  have hz := h.geo.room
  have hused : (st i).used = sectorHdrDataSize + recsLen pre + recsLen post := by
    rw [Sec.used, hrecs, recsLen_append, Nat.add_assoc]
  have hloop : findNextLoop db (i * z + (sectorHdrDataSize + recsLen pre))
      (i * z + z - sectorHdrDataSize) db.secSize (i * z + (sectorHdrDataSize + recsLen pre)) =
      if post = [] then none else some (i * z + (sectorHdrDataSize + recsLen pre)) := by
    cases post with
    | nil =>
      rw [if_pos rfl]
      refine findNextLoop_erased _ _ fun x hlo hhi => (h.secs i hi).erased ?_ (by omega)
      rw [hused, recsLen_nil]
      omega
    | cons r post =>
      have hpos := r.len_pos
      rw [recsLen_cons] at hused
      unfold fdbSecRemainThreshold kvHdrDataSize fdbKvNameMax at hroom hz
      unfold sectorHdrDataSize at *
      rw [if_neg (List.cons_ne_nil r post)]
      exact findNextLoop_record (by rw [h.secSize]; omega) ((h.secs i hi).record hrecs) (by omega)
        (by rw [h.size]; omega)
  unfold findNextKvAddr
  rw [h.alignDown_eq (by omega)]
  split
  next info hget =>
    by_cases hempty : info.emptyKv = some (i * z + (sectorHdrDataSize + recsLen pre))
    · -- the cache says that the records end here
      have hpost : post = [] := by
        rcases (h.cached hget).empty with ⟨hnone, -⟩ | ⟨hsome, -⟩
        · exact absurd (hempty.symm.trans hnone) (Option.some_ne_none _)
        · have heq := Option.some.inj (hempty.symm.trans hsome)
          cases post with
          | nil => rfl
          | cons r post =>
            have hpos := r.len_pos
            rw [recsLen_cons] at hused
            omega
      rw [if_pos hempty, if_pos hpost]
    · rw [if_neg hempty, hloop]
  next => exact hloop

/-- `get_next_kv_addr` behind a record. -/
theorem Rep.getNextKvAddr_spec (h : Rep z n st db) (hi : i < n) {pre post : List Rec} {r : Rec}
    (hrecs : (st i).recs = pre ++ r :: post) {info : SecInfo} {kv : Kv}
    (hstore : info.store = .using) (haddr : info.addr = i * z)
    (hstart : kv.start = i * z + (sectorHdrDataSize + recsLen pre)) (hlen : kv.len = r.len)
    (hcrc : kv.crcIsOk = true) :
    getNextKvAddr db info kv =
      if post = [] then none else some (i * z + (sectorHdrDataSize + recsLen (pre ++ [r]))) := by
  have hroom := (h.ok i hi).room
  have hused : (st i).used = sectorHdrDataSize + recsLen (pre ++ [r]) + recsLen post := by
    rw [Sec.used, hrecs, recsLen_append, recsLen_append, recsLen_cons, recsLen_cons, recsLen_nil]
    omega
  have hnext : kv.start + kv.len = i * z + (sectorHdrDataSize + recsLen (pre ++ [r])) := by
    rw [hstart, hlen, recsLen_append, recsLen_cons, recsLen_nil]
    omega
  have hpos := r.len_pos
  unfold getNextKvAddr
  rw [if_neg (by rw [hstore]; decide), if_pos (by rw [haddr, h.secSize]; omega), if_pos hcrc, hnext,
    haddr, h.secSize]
  dsimp only
  rw [h.findNextKvAddr_spec hi (show (st i).recs = (pre ++ [r]) ++ post by rw [hrecs]; simp)]
  by_cases hpost : post = []
  · rw [if_pos hpost]
  · rw [if_neg hpost]
    exact if_neg (by omega)

/-! ## The space behind the records -/

theorem ffBlock_erased (k start a : Nat) :
    ffBlock (List.replicate k 0xFF) start (a, 0xFF) = (a, 0xFF) := by
  induction k generalizing start with
  | zero => rfl
  | succ k ih =>
    rw [List.replicate_succ, ffBlock, if_neg (by simp), ih]

theorem readRange_erased {img : Image} {start k : Nat}
    (h : ∀ x, start ≤ x → x < start + k → img x = 0xFF) :
    readRange img start k = List.replicate k 0xFF := by
  refine List.ext_getElem (by simp) fun j h1 h2 => ?_
  have hj : j < k := by simpa using h1
  rw [← List.getD_eq_getElem _ 0 h1, getD_readRange hj, h _ (by omega) (by omega),
    List.getElem_replicate]

theorem ffLoop_erased {f : Flash} {endAddr a : Nat} (hend : endAddr ≤ f.size) :
    ∀ (fuel start : Nat) (buf : Bytes), buf.length = 32 →
      (∀ x, start ≤ x → x < endAddr → f.img x = 0xFF) →
      ffLoop f endAddr fuel start buf (a, 0xFF) = (a, 0xFF) := by
  intro fuel
  induction fuel with
  | zero => exact fun _ _ _ _ => rfl
  | succ fuel ih =>
    intro start buf hbuf hff
    rw [ffLoop]
    split_ifs with hlt hbig
    all_goals
      try dsimp only
      try rw [Flash.take_read (by omega) (by omega),
        readRange_erased fun x hlo hhi => hff x hlo (by omega), ffBlock_erased]
    · exact ih _ _ (by rw [Flash.length_read, hbuf]) fun x hx => hff x (by omega)
    · exact ih _ _ (by rw [Flash.length_read, hbuf]) fun x hx => hff x (by omega)

/-- Flash that is erased up to the end is free from its start on. -/
theorem fdbContinueFfAddr_erased {f : Flash} {start endAddr : Nat} (hend : endAddr ≤ f.size)
    (hlt : start < endAddr) (hff : ∀ x, start ≤ x → x < endAddr → f.img x = 0xFF) :
    fdbContinueFfAddr f start endAddr = start := by
  have hfirst : ∀ k, ffBlock (List.replicate (k + 1) 0xFF) start (start, 0) = (start, 0xFF) := by
    intro k
    rw [List.replicate_succ, ffBlock, if_pos (by simp), ffBlock_erased]
  obtain ⟨fuel, hfuel⟩ := Nat.exists_eq_add_of_lt hlt
  have hloop : ffLoop f endAddr (endAddr - start) start (zeros 32) (start, 0) = (start, 0xFF) := by
    rw [show endAddr - start = fuel + 1 by omega, ffLoop, if_pos hlt]
    split_ifs with hbig
    all_goals
      dsimp only
      rw [Flash.take_read (by omega) (by rw [length_zeros]; try omega),
        readRange_erased fun x hlo hhi => hff x hlo (by omega)]
    · rw [hfirst 31]
      exact ffLoop_erased hend _ _ _ (by rw [Flash.length_read, length_zeros])
        fun x hx => hff x (by omega)
    · rw [show endAddr - start = fuel + 1 by omega, hfirst fuel]
      exact ffLoop_erased hend _ _ _ (by rw [Flash.length_read, length_zeros])
        fun x hx => hff x (by omega)
  rw [fdbContinueFfAddr, hloop]
  rfl

theorem length_le_recsLen (rs : List Rec) : rs.length ≤ recsLen rs := by
  induction rs with
  | nil => exact Nat.le_refl 0
  | cons r rs ih =>
    have := r.len_pos
    rw [recsLen_cons, List.length_cons]
    omega

theorem subSize_of_le {a b : Nat} (h : b ≤ a) : subSize a b = a - b := if_pos h

/-- The space is counted up to the end of some records. -/
def SecInfo.upTo (sector : SecInfo) (z : Nat) (pre : List Rec) : SecInfo :=
  { sector with
    emptyKv := some (sector.addr + (sectorHdrDataSize + recsLen pre))
    remain := z - (sectorHdrDataSize + recsLen pre) }

/-- One turn of the loop of `read_sector_info`. -/
theorem Rep.traverseLoop_succ (h : Rep z n st db) (hi : i < n) {sector : SecInfo}
    (hstore : sector.store = .using) (haddr : sector.addr = i * z) {pre post : List Rec} {r : Rec}
    (hrecs : (st i).recs = pre ++ r :: post) (fuel : Nat) {kv : Kv}
    (hstart : kv.start = i * z + (sectorHdrDataSize + recsLen pre))
    (hname : kv.name.length = fdbKvNameMax) :
    ∃ kv' : Kv, kv'.name.length = fdbKvNameMax ∧
      traverseLoop (fuel + 1) db (sector.upTo z pre) kv =
        if post = [] then (db, sector.upTo z (pre ++ [r]), .noErr)
        else traverseLoop fuel db (sector.upTo z (pre ++ [r]))
          { kv' with start := i * z + (sectorHdrDataSize + recsLen (pre ++ [r])) } := by
  have hroom := (h.ok i hi).room
  obtain ⟨kv', hread, hshows⟩ := h.readKv_spec hi hrecs hstart hname
  have hused : (st i).used = sectorHdrDataSize + recsLen pre + r.len + recsLen post := by
    rw [Sec.used, hrecs, recsLen_append, recsLen_cons]
    omega
  have hsum : recsLen (pre ++ [r]) = recsLen pre + r.len := by simp
  have hsec : { sector.upTo z pre with
      emptyKv := (sector.upTo z pre).emptyKv.map (· + kv'.len)
      remain := subSize (sector.upTo z pre).remain kv'.len } = sector.upTo z (pre ++ [r]) := by
    rw [hshows.len, SecInfo.upTo, SecInfo.upTo, hsum, subSize_of_le (by dsimp only; omega)]
    simp only [Option.map_some, SecInfo.mk.injEq, Option.some.injEq, true_and]
    omega
  have hstore' : (sector.upTo z (pre ++ [r])).store = .using := hstore
  refine ⟨kv', hshows.length_name, ?_⟩
  rw [traverseLoop, hread]
  dsimp only
  rw [if_neg (by rw [hshows.crcIsOk]; simp), hsec,
    h.getNextKvAddr_spec hi hrecs hstore' haddr (by rw [hshows.start, hstart]) hshows.len
      hshows.crcIsOk]
  by_cases hpost : post = []
  · rw [if_pos hpost, if_pos hpost]
  · rw [if_neg hpost, if_neg hpost]

/-- The loop of `read_sector_info` counts the records. -/
theorem Rep.traverseLoop_spec (h : Rep z n st db) (hi : i < n) {sector : SecInfo}
    (hstore : sector.store = .using) (haddr : sector.addr = i * z) {post : List Rec} :
    ∀ (pre : List Rec) {r : Rec} {fuel : Nat} {kv : Kv},
    (st i).recs = pre ++ r :: post → post.length < fuel →
    kv.start = i * z + (sectorHdrDataSize + recsLen pre) → kv.name.length = fdbKvNameMax →
    traverseLoop fuel db (sector.upTo z pre) kv = (db, sector.upTo z (st i).recs, .noErr) := by
  induction post with
  | nil =>
    intro pre r fuel kv hrecs hfuel hstart hname
    obtain ⟨k, rfl⟩ := Nat.exists_eq_add_of_lt hfuel
    obtain ⟨kv', -, heq⟩ := h.traverseLoop_succ hi hstore haddr hrecs _ hstart hname
    rw [heq, if_pos rfl, hrecs]
  | cons p post ih =>
    intro pre r fuel kv hrecs hfuel hstart hname
    obtain ⟨k, rfl⟩ := Nat.exists_eq_add_of_lt hfuel
    obtain ⟨kv', hname', heq⟩ := h.traverseLoop_succ hi hstore haddr hrecs _ hstart hname
    rw [heq, if_neg (List.cons_ne_nil p post)]
    exact ih (pre ++ [r]) (by rw [hrecs, List.append_assoc]; rfl)
      (by rw [List.length_cons]; omega) rfl hname'

/-- The space of a sector with records. -/
theorem Rep.traverseKvs_spec (h : Rep z n st db) (hi : i < n) (husing : (st i).store = .using)
    {sector : SecInfo} (hstore : sector.store = .using) (haddr : sector.addr = i * z) :
    traverseKvs db (sector.upTo z []) = (db, sector.upTo z (st i).recs, .noErr) := by
  have hok := h.ok i hi
  have hroom := hok.room
  have hend := sector_end_le (z := z) hi
  have hrecs : (st i).recs ≠ [] := by
    rcases hok.store with ⟨hempty, -⟩ | ⟨-, hrecs, -⟩
    · exact absurd (husing.symm.trans hempty) (by decide)
    · exact hrecs
  obtain ⟨r, post, hcons⟩ := List.exists_cons_of_ne_nil hrecs
  have hloop : traverseLoop db.secSize db (sector.upTo z [])
      { Kv.fresh with start := (sector.upTo z []).addr + sectorHdrDataSize } =
      (db, sector.upTo z (st i).recs, .noErr) := by
    refine h.traverseLoop_spec hi hstore haddr [] hcons ?_ ?_ rfl
    · have hlen := length_le_recsLen (st i).recs
      rw [hcons, List.length_cons] at hlen
      rw [Sec.used, hcons] at hroom
      rw [h.secSize]
      omega
    · exact congrArg (· + sectorHdrDataSize) haddr
  have hff : fdbContinueFfAddr db.flash (i * z + (st i).used) (i * z + z) = i * z + (st i).used :=
    fdbContinueFfAddr_erased (by rw [h.size]; omega) (by omega) fun x hlo hhi =>
      (h.secs i hi).erased hlo hhi
  have hempty : (sector.upTo z (st i).recs).emptyKv.getD 0 = i * z + (st i).used := by
    rw [SecInfo.upTo, haddr]
    rfl
  have haddr' : (sector.upTo z (st i).recs).addr = i * z := haddr
  rw [traverseKvs, hloop]
  dsimp only
  rw [hempty, haddr', h.secSize, hff, if_neg (not_not.mpr rfl)]

/-- `read_sector_info` finds the space of a sector. -/
theorem Rep.traverseSector_spec (h : Rep z n st db) (hi : i < n) {sector : SecInfo}
    (hstore : sector.store = (st i).store) (haddr : sector.addr = i * z) :
    traverseSector db sector = (db, sector.upTo z (st i).recs, .noErr) := by
  unfold traverseSector
  dsimp only
  rw [h.secSize]
  rcases (h.ok i hi).store with ⟨hempty, hrecs, -⟩ | ⟨husing, -⟩
  · rw [hrecs]
    split
    · rfl
    all_goals exact absurd (hstore.trans hempty) (by simp_all)
  · split
    next heq => exact absurd ((hstore.trans husing).symm.trans heq) (by decide)
    next => exact h.traverseKvs_spec hi husing (hstore.trans husing) haddr
    next hne => exact absurd (hstore.trans husing) hne

/-! ## Reading a sector -/

/-- Only the sector cache has changed. -/
theorem Rep.withCache (h : Rep z n st db) {cache : List (Option SecInfo)} (hd : Distinct cache)
    (hcache : ∀ info, some info ∈ cache → ∃ i < n, InfoAt z (i * z) (st i) info) :
    Rep z n st { db with sectorCache := cache } :=
  { h with distinct := hd, cache := hcache }

/-- A sector that is read gets into the cache. -/
theorem Rep.updateSectorCache_spec (h : Rep z n st db) (hi : i < n) {info : SecInfo}
    (hinfo : InfoAt z (i * z) (st i) info) :
    Rep z n st (db.updateSectorCache info) := by
  refine h.withCache (h.distinct.updateSectorCache info) fun u hu => ?_
  rcases mem_updateSectorCache h.distinct hu with ⟨rfl, -⟩ | ⟨hmem, -⟩
  · exact ⟨i, hi, hinfo⟩
  · exact h.cache u hmem

/-- The header of a sector as `read_sector_info` decodes it. -/
def Sec.info (s : Sec) (a : Nat) (sector : SecInfo) : SecInfo :=
  { sector with
    store := s.store, dirty := s.dirty, addr := a, magic := sectorMagicWord, checkOk := true,
    combined := sectorNotCombined }

/-- A sector with a header. -/
theorem loadSectorInfo_of_hdr {a : Nat} {s : Sec}
    (hhdr : db.read a sectorHdrDataSize (zeros sectorHdrDataSize) =
      sectorHdr s.store.byte s.dirty.byte sectorNotCombined) (sector : SecInfo) (traversal : Bool) :
    loadSectorInfo db a sector traversal =
      if traversal then
        ((traverseSector db (s.info a sector)).1.updateSectorCache
          (traverseSector db (s.info a sector)).2.1, (traverseSector db (s.info a sector)).2)
      else
        match getSectorFromCache db.sectorCache a with
        | some _ => (db, s.info a sector, .noErr)
        | none =>
          (db.updateSectorCache { s.info a sector with emptyKv := none, remain := 0 },
            { s.info a sector with emptyKv := none, remain := 0 }, .noErr) := by
  have hmagic : wordAt (sectorHdr s.store.byte s.dirty.byte sectorNotCombined) 4 =
      sectorMagicWord := ofLe4_le4 _
  have hcombined : wordAt (sectorHdr s.store.byte s.dirty.byte sectorNotCombined) 8 =
      sectorNotCombined := ofLe4_le4 _
  have hstore : StoreStatus.ofIndex (fdbGetStatus
      (sectorHdr s.store.byte s.dirty.byte sectorNotCombined) storeStatusNum) = s.store :=
    s.store.ofIndex_byte _
  have hdirty : DirtyStatus.ofIndex (fdbGetStatus
      ((sectorHdr s.store.byte s.dirty.byte sectorNotCombined).drop sectorDirtyOffset)
      dirtyStatusNum) = s.dirty :=
    (congrArg DirtyStatus.ofIndex (s.dirty.index_byte _)).trans s.dirty.ofIndex_index
  unfold loadSectorInfo
  rw [hhdr]
  dsimp only
  rw [hmagic, hcombined, if_neg (by simp), hstore, hdirty]
  rfl

theorem Rep.loadSectorInfo_eq (h : Rep z n st db) (hi : i < n) (sector : SecInfo)
    (traversal : Bool) :
    loadSectorInfo db (i * z) sector traversal =
      if traversal then
        (db.updateSectorCache (((st i).info (i * z) sector).upTo z (st i).recs),
          ((st i).info (i * z) sector).upTo z (st i).recs, .noErr)
      else
        match getSectorFromCache db.sectorCache (i * z) with
        | some _ => (db, (st i).info (i * z) sector, .noErr)
        | none =>
          (db.updateSectorCache { (st i).info (i * z) sector with emptyKv := none, remain := 0 },
            { (st i).info (i * z) sector with emptyKv := none, remain := 0 }, .noErr) := by
  have hend := sector_end_le (z := z) hi
  have hz := h.geo.room
  have hhdr : db.read (i * z) sectorHdrDataSize (zeros sectorHdrDataSize) =
      sectorHdr (st i).store.byte (st i).dirty.byte sectorNotCombined := by
    rw [Kvdb.read, Flash.read_zeros (by rw [h.size]; omega), (h.secs i hi).hdr]
  have htrav := @Rep.traverseSector_spec z n i st db h hi ((st i).info (i * z) sector) rfl rfl
  rw [loadSectorInfo_of_hdr hhdr, htrav]

/-- The space of the sector is known. -/
def Exact (z a : Nat) (s : Sec) (info : SecInfo) : Prop :=
  info.emptyKv = some (a + s.used) ∧ info.remain = z - s.used

theorem infoAt_upTo (s : Sec) (a : Nat) (sector : SecInfo) :
    InfoAt z a s ((s.info a sector).upTo z s.recs) ∧
      Exact z a s ((s.info a sector).upTo z s.recs) :=
  ⟨⟨rfl, rfl, rfl, .inl rfl, rfl, .inr ⟨rfl, rfl⟩⟩, rfl, rfl⟩

/-- What a function leaves when it has changed the sector cache only. -/
structure CacheOnly (db db' : Kvdb) : Prop where
  eq : db' = { db with sectorCache := db'.sectorCache }

theorem CacheOnly.refl (db : Kvdb) : CacheOnly db db := ⟨rfl⟩

theorem CacheOnly.trans {db db' db'' : Kvdb} (h : CacheOnly db db') (h' : CacheOnly db' db'') :
    CacheOnly db db'' := by
  refine ⟨?_⟩
  rw [h'.eq, h.eq]

/-- `read_sector_info` gives what is there.  With `traversal` it also gives the space. -/
theorem Rep.readSectorInfo_spec (h : Rep z n st db) (hi : i < n) (sector : SecInfo)
    (traversal : Bool) :
    ∃ db' info, readSectorInfo db (i * z) sector traversal = (db', info, .noErr) ∧
      Rep z n st db' ∧ CacheOnly db db' ∧ InfoAt z (i * z) (st i) info ∧
      (traversal = true → Exact z (i * z) (st i) info) := by
  have hload : ∃ db' info, loadSectorInfo db (i * z) sector traversal = (db', info, .noErr) ∧
      Rep z n st db' ∧ CacheOnly db db' ∧
      (getSectorFromCache db.sectorCache (i * z) = none ∨ traversal = true →
        InfoAt z (i * z) (st i) info) ∧
      (traversal = true → Exact z (i * z) (st i) info) := by
    have hupTo := infoAt_upTo (z := z) (st i) (i * z) sector
    have hnone : InfoAt z (i * z) (st i)
        { (st i).info (i * z) sector with emptyKv := none, remain := 0 } :=
      ⟨rfl, rfl, rfl, .inl rfl, rfl, .inl ⟨rfl, rfl⟩⟩
    rw [h.loadSectorInfo_eq hi]
    cases traversal with
    | true =>
      rw [if_pos rfl]
      exact ⟨_, _, rfl, h.updateSectorCache_spec hi hupTo.1, ⟨rfl⟩, fun _ => hupTo.1,
        fun _ => hupTo.2⟩
    | false =>
      rw [if_neg Bool.false_ne_true]
      cases hget : getSectorFromCache db.sectorCache (i * z) with
      | some cached =>
        refine ⟨_, _, rfl, h, .refl db, fun hcase => ?_,
          fun htrue => absurd htrue Bool.false_ne_true⟩
        rcases hcase with hcase | hcase
        · exact absurd hcase (Option.some_ne_none _)
        · exact absurd hcase Bool.false_ne_true
      | none =>
        exact ⟨_, _, rfl, h.updateSectorCache_spec hi hnone, ⟨rfl⟩, fun _ => hnone,
          fun htrue => absurd htrue Bool.false_ne_true⟩
  obtain ⟨db', info, hload, hrep, honly, hinfo, hexact⟩ := hload
  unfold readSectorInfo
  cases hget : getSectorFromCache db.sectorCache (i * z) with
  | none => exact ⟨db', info, hload, hrep, honly, hinfo (.inl hget), hexact⟩
  | some cached =>
    have hcached := h.cached hget
    dsimp only
    by_cases hcase : traversal = false ∨ cached.emptyKv ≠ none
    · rw [if_pos hcase]
      refine ⟨db, cached, rfl, h, .refl db, hcached, fun htrue => ?_⟩
      rcases hcached.empty with ⟨hnone, -⟩ | hexact
      · rcases hcase with hfalse | hsome
        · exact absurd (htrue.symm.trans hfalse) (by decide)
        · exact absurd hnone hsome
      · exact hexact
    · rw [if_neg hcase]
      have htrue : traversal = true := by
        cases traversal with
        | true => rfl
        | false => exact absurd (.inl rfl) hcase
      exact ⟨db', info, hload, hrep, honly, hinfo (.inr htrue), hexact⟩

end Walk

end Hc32Board.FlashDb
