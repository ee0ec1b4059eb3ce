import Hc32Board.FlashDb.Alloc

/-!
# Writing and deleting a record
-/

namespace Hc32Board.FlashDb

open Hc32Board.CodeLib

section Write

variable {z n i : Nat} {st : Nat → Sec} {db : Kvdb}

/-! ## Single writes -/

theorem Kvdb.write_done (hready : db.flash.Ready) {addr : Nat} {buf : Bytes}
    (hsize : addr + buf.length ≤ db.flash.size) :
    db.write addr buf = ({ db with flash := db.flash.prog addr buf }, .noErr) := by
  rw [Kvdb.write, Flash.write_done hsize (hready.plan _) hready.on]
  rfl

/-- A status is one byte. -/
theorem Kvdb.writeStatus_done (hready : db.flash.Ready) (addr num idx : Nat)
    (hidx : 0 < idx ∧ idx < 8 ∧ idx < num) (hsize : addr < db.flash.size) :
    db.writeStatus addr num idx =
      ({ db with flash := db.flash.prog addr [0xFF >>> UInt8.ofNat idx] }, .noErr) := by
  have hbyte : (idx - 1) / 8 = 0 := Nat.div_eq_of_lt (by omega)
  rw [Kvdb.writeStatus, Flash.writeStatus_eq _ _ hidx.1 hidx.2.2, hbyte, Nat.add_zero,
    Nat.mod_eq_of_lt hidx.2.1, Flash.write_done hsize (hready.plan _) hready.on]
  rfl

theorem Flash.writeAlign_done {f : Flash} (hready : f.Ready) {addr : Nat} {buf : Bytes}
    (hsize : addr + buf.length ≤ f.size) :
    ∃ f', f.writeAlign addr buf = (f', .noErr) ∧ f'.img = program f.img addr buf ∧
      f'.size = f.size ∧ f'.Ready := by
  rw [Flash.writeAlign]
  rcases buf with - | ⟨b, buf⟩
  · rw [if_neg (by simp)]
    exact ⟨f, rfl, (program_nil _ _).symm, rfl, hready⟩
  · rw [if_pos (by simp), Flash.write_done hsize (hready.plan _) hready.on]
    exact ⟨_, rfl, rfl, rfl, hready.prog _ _⟩

theorem Rep.infoAt_of_mem (h : Rep z n st db) {info : SecInfo} (hmem : some info ∈ db.sectorCache)
    (haddr : info.addr = i * z) : InfoAt z (i * z) (st i) info := by
  have hz := h.geo.room
  obtain ⟨j, -, hinfo⟩ := h.cache info hmem
  obtain rfl : i = j := Nat.eq_of_mul_eq_mul_right (by omega) (haddr.symm.trans hinfo.addr)
  exact hinfo

/-- One sector is replaced.  The others are untouched, and the cache knows the new
one. -/
theorem Rep.replace (h : Rep z n st db) (hi : i < n) {f : Flash} {cache : List (Option SecInfo)}
    {s : Sec} (hsize : f.size = db.flash.size) (hready : f.Ready) (hsec : SecAt f.img z (i * z) s)
    (hother : ∀ j < n, j ≠ i → SecAt f.img z (j * z) (st j)) (hok : s.Ok z) (hd : Distinct cache)
    (hcache : ∀ info, some info ∈ cache →
      info.addr ≠ i * z ∧ some info ∈ db.sectorCache ∨ InfoAt z (i * z) s info) :
    Rep z n (Function.update st i s) { db with flash := f, sectorCache := cache } where
  geo := h.geo
  secSize := h.secSize
  maxSize := h.maxSize
  size := hsize.trans h.size
  ready := hready
  secs j hj := by
    rcases eq_or_ne j i with rfl | hne
    · rwa [Function.update_self]
    · rw [Function.update_of_ne hne]
      exact hother j hj hne
  ok j hj := by
    rcases eq_or_ne j i with rfl | hne
    · rwa [Function.update_self]
    · rw [Function.update_of_ne hne]
      exact h.ok j hj
  oldest := h.oldest
  distinct := hd
  cache info hmem := by
    rcases hcache info hmem with ⟨hne, hold⟩ | hnew
    · obtain ⟨j, hj, hinfo⟩ := h.cache info hold
      refine ⟨j, hj, ?_⟩
      rwa [Function.update_of_ne]
      rintro rfl
      exact hne hinfo.addr
    · exact ⟨i, hi, by rwa [Function.update_self]⟩
  curName := h.curName

/-- A write inside one sector leaves the others. -/
theorem Rep.other_of_prog (h : Rep z n st db) {addr : Nat} {buf : Bytes} (hlo : i * z ≤ addr)
    (hhi : addr + buf.length ≤ i * z + z) :
    ∀ j < n, j ≠ i → SecAt (program db.flash.img addr buf) z (j * z) (st j) := by
  intro j hj hne
  refine (h.secs j hj).program_disjoint ?_
  rcases sector_disjoint (z := z) hne with hd | hd <;> omega

/-! ## Status changes -/

/-- What a function leaves when it has changed the flash and the sector cache only. -/
structure FlashOnly (db db' : Kvdb) : Prop where
  eq : db' = { db with flash := db'.flash, sectorCache := db'.sectorCache }

theorem FlashOnly.trans {db db' db'' : Kvdb} (h : FlashOnly db db') (h' : FlashOnly db' db'') :
    FlashOnly db db'' := by
  refine ⟨?_⟩
  rw [h'.eq, h.eq]

theorem mem_setStatusAt {rs : List Rec} {o : Nat} {t : KvStatus} {r : Rec}
    (h : r ∈ setStatusAt rs o t) : r ∈ rs ∨ ∃ r' ∈ rs, r = { r' with status := t } := by
  induction rs generalizing o with
  | nil => exact absurd h List.not_mem_nil
  | cons p rs ih =>
    rw [setStatusAt] at h
    split_ifs at h
    · rcases List.mem_cons.mp h with rfl | hmem
      · exact .inr ⟨p, List.mem_cons_self, rfl⟩
      · exact .inl (List.mem_cons_of_mem _ hmem)
    · exact .inl h
    · rcases List.mem_cons.mp h with rfl | hmem
      · exact .inl List.mem_cons_self
      · rcases ih hmem with hold | ⟨r', hr', heq⟩
        · exact .inl (List.mem_cons_of_mem _ hold)
        · exact .inr ⟨r', List.mem_cons_of_mem _ hr', heq⟩

/-- The sector with another status of one record. -/
def Sec.withStatus (s : Sec) (o : Nat) (t : KvStatus) : Sec :=
  { s with recs := setStatusAt s.recs o t }

theorem Sec.used_withStatus (s : Sec) (o : Nat) (t : KvStatus) : (s.withStatus o t).used = s.used :=
  congrArg (sectorHdrDataSize + ·) (recsLen_setStatusAt s.recs o t)

theorem Sec.Ok.withStatus {s : Sec} (h : s.Ok z) {o : Nat} {t : KvStatus}
    (ht : t = .preDelete ∨ t = .deleted) : (s.withStatus o t).Ok z where
  room := by
    rw [Sec.used_withStatus]
    exact h.room
  recs r hr := by
    rcases mem_setStatusAt hr with hmem | ⟨r', hmem, rfl⟩
    · exact h.recs r hmem
    · exact ⟨.inr ht, (h.recs r' hmem).name_lt, (h.recs r' hmem).no_nul⟩
  store := by
    rcases h.store with ⟨hst, hrecs, hdirty⟩ | ⟨hst, hrecs, hdirty⟩
    · exact .inl ⟨hst, by rw [Sec.withStatus, hrecs]; rfl, hdirty⟩
    · refine .inr ⟨hst, ?_, hdirty⟩
      obtain ⟨r, rs, hcons⟩ := List.exists_cons_of_ne_nil hrecs
      rw [Sec.withStatus, hcons, setStatusAt]
      split_ifs <;> exact List.cons_ne_nil _ _

section Record

variable {o : Nat} {r : Rec}

/-- A record that is found lies inside of its sector. -/
theorem Rep.recAt_room (h : Rep z n st db) (hi : i < n) (hrec : recAt (st i).recs o = some r) :
    sectorHdrDataSize + o + r.len + fdbSecRemainThreshold < z := by
  have hroom := (h.ok i hi).room
  have hlt := recAt_lt hrec
  rw [Sec.used] at hroom
  omega

/-- A record gets a later status. -/
theorem Rep.setStatus_spec (h : Rep z n st db) (hi : i < n) (hrec : recAt (st i).recs o = some r)
    {t : KvStatus} (ht : t = .preDelete ∨ t = .deleted) (hle : r.status.index ≤ t.index) :
    ∃ db', db.writeStatus (i * z + (sectorHdrDataSize + o)) kvStatusNum t.index =
        (db', .noErr) ∧ FlashOnly db db' ∧
      Rep z n (Function.update st i ((st i).withStatus o t)) db' := by
  have hroom := h.recAt_room hi hrec
  have hend := sector_end_le (z := z) hi
  have hpos := r.len_pos
  obtain ⟨pre, post, hrecs, rfl⟩ := exists_of_recAt hrec
  have hidx : 0 < t.index ∧ t.index < 8 ∧ t.index < kvStatusNum := by
    rcases ht with rfl | rfl <;> decide
  refine ⟨_, Kvdb.writeStatus_done h.ready _ _ _ hidx (by rw [h.size]; omega), ⟨rfl⟩, ?_⟩
  have hsec : SecAt (program db.flash.img (i * z + (sectorHdrDataSize + recsLen pre)) [t.byte]) z
      (i * z) ((st i).withStatus (recsLen pre) t) := by
    rw [Sec.withStatus, hrecs, setStatusAt_append_cons]
    exact (h.secs i hi).setStatus hrecs hle
  refine h.replace hi rfl (h.ready.prog _ _) hsec
    (h.other_of_prog (by omega) (by rw [List.length_singleton]; omega)) ((h.ok i hi).withStatus ht)
    h.distinct fun info hmem => ?_
  by_cases haddr : info.addr = i * z
  · have hinfo := h.infoAt_of_mem hmem haddr
    refine .inr ⟨hinfo.checkOk, hinfo.addr, hinfo.store, hinfo.dirty, hinfo.combined, ?_⟩
    rw [Sec.used_withStatus]
    exact hinfo.empty
  · exact .inl ⟨haddr, hmem⟩

end Record

/-- The dirty status after `del_kv`. -/
def DirtyStatus.mark (d : DirtyStatus) : DirtyStatus := if d = .no then .yes else d

theorem Rep.readDirty_eq (h : Rep z n st db) (hi : i < n) :
    db.flash.readStatus (i * z + sectorDirtyOffset) dirtyStatusNum = (st i).dirty.index := by
  have hend := sector_end_le (z := z) hi
  have hz := h.geo.room
  have hhdr : readRange db.flash.img (i * z) sectorHdrDataSize =
      [(st i).store.byte] ++ [(st i).dirty.byte] ++ ([0xFF, 0xFF] ++ le4 sectorMagicWord ++
        le4 sectorNotCombined ++ le4 0xFFFFFFFF) := (h.secs i hi).hdr
  have hbyte : readRange db.flash.img (i * z + sectorDirtyOffset) (statusTableSize dirtyStatusNum) =
      [(st i).dirty.byte] := readRange_mid hhdr
  rw [Flash.readStatus, Flash.read_zeros, hbyte]
  · exact (st i).dirty.index_byte []
  · rw [h.size]
    unfold sectorHdrDataSize at hz
    have : statusTableSize dirtyStatusNum = 1 := rfl
    unfold sectorDirtyOffset
    omega

/-- A dirty status that the cache may not know. -/
theorem InfoAt.setDirty {a : Nat} {s : Sec} {info : SecInfo} (h : InfoAt z a s info) :
    InfoAt z a { s with dirty := .yes } { info with dirty := .yes } :=
  ⟨h.checkOk, h.addr, h.store, .inl rfl, h.combined, h.empty⟩

/-- `del_kv` marks a clean sector. -/
theorem Rep.markDirty_spec (h : Rep z n st db) (hi : i < n) (hne : (st i).recs ≠ []) {o : Nat}
    (ho : o < z) :
    ∃ db', markDirty db (i * z + o) .noErr = (db', .noErr) ∧ FlashOnly db db' ∧
      Rep z n (Function.update st i { st i with dirty := (st i).dirty.mark }) db' := by
  have hok := h.ok i hi
  have hend := sector_end_le (z := z) hi
  have hz := h.geo.room
  unfold sectorHdrDataSize at hz
  unfold markDirty
  rw [h.alignDown_eq ho]
  dsimp only
  rw [h.readDirty_eq hi]
  by_cases hno : (st i).dirty = .no
  · have hmark : (st i).dirty.mark = .yes := if_pos hno
    have hsize : i * z + sectorDirtyOffset < db.flash.size := by
      rw [h.size, sectorDirtyOffset]
      omega
    rw [if_pos ⟨rfl, by rw [hno]⟩, Kvdb.writeStatus_done h.ready _ _ _ (by decide) hsize]
    refine ⟨_, rfl, ⟨rfl⟩, ?_⟩
    rw [hmark]
    refine h.replace hi rfl (h.ready.prog _ _) ((h.secs i hi).setDirty (by rw [hno]; decide))
      (h.other_of_prog (by omega) (by rw [List.length_singleton, sectorDirtyOffset]; omega)) ?_
      (h.distinct.modifySectorCache _ fun _ => rfl) fun info hmem => ?_
    · refine ⟨hok.room, hok.recs, ?_⟩
      rcases hok.store with ⟨-, hnil, -⟩ | ⟨husing, hrecs, -⟩
      · exact absurd hnil hne
      · exact .inr ⟨husing, hrecs, DirtyStatus.noConfusion⟩
    · obtain ⟨u, hu, ⟨haddr, rfl⟩ | ⟨haddr, rfl⟩⟩ := mem_modifySectorCache h.distinct hmem
      · exact .inr (h.infoAt_of_mem hu haddr).setDirty
      · exact .inl ⟨haddr, hu⟩
  · have hmark : (st i).dirty.mark = (st i).dirty := if_neg hno
    have hidx : ¬ (FdbErr.noErr = .noErr ∧ (st i).dirty.index = DirtyStatus.no.index) := by
      rintro ⟨-, heq⟩
      exact hno (by rw [← (st i).dirty.ofIndex_index, heq]; rfl)
    rw [if_neg hidx, hmark]
    refine ⟨db, rfl, ⟨rfl⟩, ?_⟩
    rwa [show ({ st i with dirty := (st i).dirty } : Sec) = st i from rfl, Function.update_eq_self]

/-- `do_gc` marks the sector that it collects.  The sector cache does not follow. -/
theorem Rep.setGc_spec (h : Rep z n st db) (hi : i < n) (hdirty : (st i).dirty = .yes) :
    ∃ db', db.writeStatus (i * z + sectorDirtyOffset) dirtyStatusNum DirtyStatus.gc.index =
        (db', .noErr) ∧ FlashOnly db db' ∧
      Rep z n (Function.update st i { st i with dirty := .gc }) db' := by
  have hok := h.ok i hi
  have hend := sector_end_le (z := z) hi
  have hz := h.geo.room
  unfold sectorHdrDataSize at hz
  have hsize : i * z + sectorDirtyOffset < db.flash.size := by
    rw [h.size, sectorDirtyOffset]
    omega
  refine ⟨_, Kvdb.writeStatus_done h.ready _ _ _ (by decide) hsize, ⟨rfl⟩, ?_⟩
  refine h.replace hi rfl (h.ready.prog _ _) ((h.secs i hi).setDirty (by rw [hdirty]; decide))
    (h.other_of_prog (by omega) (by rw [List.length_singleton, sectorDirtyOffset]; omega))
    ⟨hok.room, hok.recs, ?_⟩ h.distinct fun info hmem => ?_
  · rcases hok.store with ⟨-, -, hno⟩ | ⟨husing, hrecs, -⟩
    · exact absurd (hdirty.symm.trans hno) (by decide)
    · exact .inr ⟨husing, hrecs, DirtyStatus.noConfusion⟩
  · by_cases haddr : info.addr = i * z
    · have hinfo := h.infoAt_of_mem hmem haddr
      have hyes : info.dirty = .yes := by
        rcases hinfo.dirty with heq | ⟨hgc, -⟩
        · exact heq.trans hdirty
        · exact absurd (hdirty.symm.trans hgc) (by decide)
      exact .inr ⟨hinfo.checkOk, hinfo.addr, hinfo.store, .inr ⟨rfl, hyes⟩, hinfo.combined,
        hinfo.empty⟩
    · exact .inl ⟨haddr, hmem⟩

/-! ## Deleting a record -/

/-- The sectors after `del_kv` has written a status. -/
def markRec (st : Nat → Sec) (i o : Nat) (t : KvStatus) : Nat → Sec :=
  Function.update st i { (st i).withStatus o t with dirty := (st i).dirty.mark }

section Delete

variable {o : Nat} {r : Rec}

/-- The second write of `del_kv`, when the status of the record is written. -/
theorem Rep.markDirty_withStatus {t : KvStatus} (hi : i < n) (hrec : recAt (st i).recs o = some r)
    (h : Rep z n (Function.update st i ((st i).withStatus o t)) db) :
    ∃ db', markDirty db (i * z + (sectorHdrDataSize + o)) .noErr = (db', .noErr) ∧
      FlashOnly db db' ∧ Rep z n (markRec st i o t) db' := by
  have hrec' : recAt (Function.update st i ((st i).withStatus o t) i).recs o =
      some { r with status := t } := by
    rw [Function.update_self, Sec.withStatus, recAt_setStatusAt, if_pos rfl, hrec]
    rfl
  have hroom := h.recAt_room hi hrec'
  obtain ⟨db', hrun, honly, hrep⟩ := h.markDirty_spec hi
    (List.ne_nil_of_mem (mem_of_recAt hrec')) (show sectorHdrDataSize + o < z by omega)
  rw [Function.update_self, Function.update_idem] at hrep
  exact ⟨db', hrun, honly, hrep⟩

/-- `del_kv` marks a record before its key gets another one. -/
theorem Rep.delKvObj_preDelete (h : Rep z n st db) (hi : i < n)
    (hrec : recAt (st i).recs o = some r) (hst : r.status = .write) (name : Bytes) {kv : Kv}
    (hstart : kv.start = i * z + (sectorHdrDataSize + o)) :
    ∃ db', delKvObj db name kv false = (db', .noErr) ∧ Rep z n (markRec st i o .preDelete) db' ∧
      FlashOnly { db with lastIsCompleteDel := true } db' := by
  obtain ⟨db1, hwrite, honly1, hrep1⟩ := h.setStatus_spec hi hrec (.inl rfl) (by rw [hst]; decide)
  have hrep2 : Rep z n _ { db1 with lastIsCompleteDel := true } := { hrep1 with }
  obtain ⟨db2, hmark, honly2, hrep⟩ := hrep2.markDirty_withStatus hi hrec
  unfold delKvObj
  rw [if_pos rfl, hstart, hwrite]
  refine ⟨db2, hmark, hrep, ⟨?_⟩⟩
  rw [honly2.eq, honly1.eq]

/-- `del_kv` deletes a record. -/
theorem Rep.delKvObj_deleted (h : Rep z n st db) (hi : i < n)
    (hrec : recAt (st i).recs o = some r) (name : Bytes) {kv : Kv}
    (hstart : kv.start = i * z + (sectorHdrDataSize + o)) :
    ∃ db', delKvObj db name kv true = (db', .noErr) ∧ Rep z n (markRec st i o .deleted) db' ∧
      FlashOnly { db with
        lastIsCompleteDel := false
        kvCache := if db.lastIsCompleteDel = false then deleteKvCache db.kvCache name
          else db.kvCache } db' := by
  have hle : r.status.index ≤ KvStatus.deleted.index := by
    rcases ((h.ok i hi).recs r (mem_of_recAt hrec)).status with hst | hst | hst <;>
      rw [hst] <;> decide
  obtain ⟨db1, hwrite, honly1, hrep1⟩ := h.setStatus_spec hi hrec (.inr rfl) hle
  have hflag : db1.lastIsCompleteDel = db.lastIsCompleteDel := by rw [honly1.eq]
  have hcache : db1.kvCache = db.kvCache := by rw [honly1.eq]
  have hrep2 : Rep z n _ { db1 with
      kvCache := if db.lastIsCompleteDel = false then deleteKvCache db.kvCache name else db.kvCache
      lastIsCompleteDel := false } := { hrep1 with }
  obtain ⟨db2, hmark, honly2, hrep⟩ := hrep2.markDirty_withStatus hi hrec
  unfold delKvObj
  rw [if_neg (by decide), hstart, hwrite]
  dsimp only
  rw [hflag, hcache]
  refine ⟨db2, ?_, hrep, ⟨?_⟩⟩
  · rw [← hmark]
    simp only [and_true]
  · rw [honly2.eq, honly1.eq]

end Delete

/-! ## Writing a record -/

/-- The sectors with a new record. -/
def addRec (st : Nat → Sec) (i : Nat) (r : Rec) : Nat → Sec :=
  Function.update st i { st i with store := .using, recs := (st i).recs ++ [r] }

/-- `update_sec_status` has opened a sector of `db`, and this has given `db'`. -/
structure Opened (z n i : Nat) (st : Nat → Sec) (db db' : Kvdb) : Prop where
  only : FlashOnly db db'
  size : db'.flash.size = db.flash.size
  ready : db'.flash.Ready
  sec : SecAt db'.flash.img z (i * z) { st i with store := .using }
  other : ∀ j < n, j ≠ i → SecAt db'.flash.img z (j * z) (st j)
  distinct : Distinct db'.sectorCache
  cache : ∀ info, some info ∈ db'.sectorCache → info.addr ≠ i * z ∧ some info ∈ db.sectorCache ∨
    InfoAt z (i * z) { st i with store := .using } info

theorem Rep.updateSecStatus_spec (h : Rep z n st db) (hi : i < n) {info : SecInfo} {len : Nat}
    (haddr : info.addr = i * z) (hstore : info.store = (st i).store)
    (hexact : Exact z (i * z) (st i) info) (hroom : len + fdbSecRemainThreshold < z - (st i).used) :
    ∃ db', updateSecStatus db info len false = (db', false, .noErr) ∧ Opened z n i st db db' := by
  have hend := sector_end_le (z := z) hi
  rcases (h.ok i hi).store with ⟨hempty, -⟩ | ⟨husing, -⟩
  · have hsize : i * z < db.flash.size := by
      rw [h.size]
      omega
    unfold updateSecStatus
    rw [hstore, hempty]
    dsimp only
    rw [haddr, Kvdb.writeStatus_done h.ready _ _ _ (by decide) hsize]
    refine ⟨_, rfl, ⟨rfl⟩, rfl, h.ready.prog _ _, (h.secs i hi).setStore (by rw [hempty]; decide),
      h.other_of_prog (Nat.le_refl _) (by rw [List.length_singleton]; omega),
      h.distinct.modifySectorCache _ fun _ => rfl, fun u hu => ?_⟩
    obtain ⟨v, hv, ⟨hvaddr, rfl⟩ | ⟨hvaddr, rfl⟩⟩ := mem_modifySectorCache h.distinct hu
    · have hinfo := h.infoAt_of_mem hv hvaddr
      exact .inr ⟨hinfo.checkOk, hinfo.addr, rfl, hinfo.dirty, hinfo.combined, hinfo.empty⟩
    · exact .inl ⟨hvaddr, hv⟩
  · have hsame : { st i with store := .using } = st i := by rw [← husing]
    have hlow : ¬ (info.remain < fdbSecRemainThreshold ∨
        subSize info.remain len < fdbSecRemainThreshold) := by
      rw [hexact.2, subSize_of_le (by omega)]
      omega
    unfold updateSecStatus
    rw [hstore, husing]
    dsimp only
    rw [if_neg hlow]
    refine ⟨db, rfl, ⟨rfl⟩, rfl, h.ready, hsame ▸ h.secs i hi, fun j hj _ => h.secs j hj,
      h.distinct, fun u hu => ?_⟩
    by_cases hu' : u.addr = i * z
    · exact .inr (hsame ▸ h.infoAt_of_mem hu hu')
    · exact .inl ⟨hu', hu⟩

theorem Sec.used_append (s : Sec) (t : StoreStatus) (r : Rec) :
    Sec.used { s with store := t, recs := s.recs ++ [r] } = s.used + r.len := by
  rw [Sec.used, Sec.used, recsLen_append, recsLen_cons, recsLen_nil]
  omega

/-- The record is there, and the sector cache knows what is behind it. -/
theorem Rep.append_spec {db1 : Kvdb} (h : Rep z n st db) (hi : i < n) (hop : Opened z n i st db db1)
    {r : Rec} (hr : r.Ok) (hroom : r.len + fdbSecRemainThreshold < z - (st i).used) {f : Flash}
    (himg : f.img = program db1.flash.img (i * z + (st i).used) r.bytes)
    (hsize : f.size = db1.flash.size) (hready : f.Ready) :
    Rep z n (addRec st i r)
      (Kvdb.updateSectorEmptyAddrCache { db1 with flash := f } (i * z)
        (i * z + (st i).used + r.len)) := by
  have hend := sector_end_le (z := z) hi
  have hsec : SecAt f.img z (i * z) { st i with store := .using, recs := (st i).recs ++ [r] } := by
    rw [himg]
    exact hop.sec.append r (show (st i).used + r.len ≤ z by omega)
  have hother : ∀ j < n, j ≠ i → SecAt f.img z (j * z) (st j) := by
    intro j hj hne
    rw [himg]
    refine (hop.other j hj hne).program_disjoint ?_
    rw [r.length_bytes]
    rcases sector_disjoint (z := z) hne with hd | hd <;> omega
  have hok : Sec.Ok z { st i with store := .using, recs := (st i).recs ++ [r] } := by
    refine ⟨by rw [Sec.used_append]; omega, fun r' hr' => ?_, .inr ⟨rfl, by simp, ?_⟩⟩
    · rcases List.mem_append.mp hr' with hmem | hmem
      · exact (h.ok i hi).recs r' hmem
      · obtain rfl := List.mem_singleton.mp hmem
        exact hr
    · rcases (h.ok i hi).store with ⟨-, -, hdirty⟩ | ⟨-, -, hdirty⟩
      · exact fun hun => absurd (hdirty.symm.trans hun) (by decide)
      · exact hdirty
  have hremain : subSize db.secSize (subSize (i * z + (st i).used + r.len) (i * z)) =
      z - ((st i).used + r.len) := by
    have hoff : i * z + (st i).used + r.len - i * z = (st i).used + r.len := by omega
    rw [subSize_of_le (show i * z ≤ i * z + (st i).used + r.len by omega), hoff, h.secSize,
      subSize_of_le (by omega)]
  obtain ⟨honly⟩ := hop.only
  rw [honly]
  refine h.replace hi (hsize.trans hop.size) hready hsec hother hok
    (hop.distinct.modifySectorCache (i * z) fun _ => rfl) fun u hu => ?_
  obtain ⟨v, hv, ⟨hvaddr, rfl⟩ | ⟨hvaddr, rfl⟩⟩ := mem_modifySectorCache hop.distinct hu
  · rcases hop.cache v hv with ⟨hne, -⟩ | hinfo
    · exact absurd hvaddr hne
    · refine .inr ⟨hinfo.checkOk, hinfo.addr, hinfo.store, hinfo.dirty, hinfo.combined,
        .inr ⟨?_, ?_⟩⟩
      · rw [Sec.used_append, Nat.add_assoc]
      · rw [Sec.used_append, ← hremain, ← hvaddr]
  · rcases hop.cache u hv with hold | hinfo
    · exact .inl hold
    · exact absurd hinfo.addr hvaddr

/-- The five writes of a new record. -/
theorem program_create (img : Image) (a : Nat) (key value : Bytes) :
    program (program (program (program (program img a [KvStatus.preWrite.byte]) (a + kvMagicOffset)
      (kvHdr key value)) (a + kvHdrDataSize) key) (a + kvHdrDataSize + key.length) value) a
        [KvStatus.write.byte] = program img a (Rec.bytes ⟨.write, key, value⟩) := by
  rw [← program_record img a ⟨.write, key, value⟩ rfl, Rec.data, ← program_append, ← program_append,
    List.length_append, length_kvHdr, ← Nat.add_assoc]
  rfl

/-- `create_kv_blob` writes a record. -/
theorem Rep.writeKv_spec (h : Rep z n st db) (hi : i < n) {info : SecInfo}
    (haddr : info.addr = i * z) (hstore : info.store = (st i).store)
    (hexact : Exact z (i * z) (st i) info) {key value : Bytes} (hlt : key.length < fdbKvNameMax)
    (hnul : (0 : UInt8) ∉ key)
    (hroom : kvHdrDataSize + key.length + value.length + fdbSecRemainThreshold < z - (st i).used) :
    ∃ db', writeKv db info (i * z + (st i).used) key value = (db', .noErr) ∧
      Rep z n (addRec st i ⟨.write, key, value⟩) db' ∧
      FlashOnly { db with kvCache := updateKvCache db.kvCache key (i * z + (st i).used) } db' := by
  have hend := sector_end_le (z := z) hi
  obtain ⟨db1, hopen, hop⟩ := h.updateSecStatus_spec hi haddr hstore hexact hroom
  have hsize : i * z + (st i).used + kvHdrDataSize + key.length + value.length ≤
      db1.flash.size := by
    rw [hop.size, h.size]
    omega
  have hpos : 0 < kvHdrDataSize := by decide
  generalize ha : i * z + (st i).used = a at hsize
  have hready2 := hop.ready.prog a [KvStatus.preWrite.byte]
  obtain ⟨f3, hf3⟩ : ∃ f3, f3 = (db1.flash.prog a [KvStatus.preWrite.byte]).prog (a + kvMagicOffset)
      (kvHdr key value) := ⟨_, rfl⟩
  have hhdr : writeKvHdr db1 a (kvHdr key value) = ({ db1 with flash := f3 }, .noErr) := by
    have hlen : a + kvMagicOffset + (kvHdr key value).length ≤ db1.flash.size := by
      rw [length_kvHdr]
      have : kvMagicOffset + 20 = kvHdrDataSize := rfl
      omega
    rw [writeKvHdr, Kvdb.writeStatus_done hop.ready a _ _ (by decide) (by omega)]
    dsimp only
    rw [if_neg (fun hne => hne rfl)]
    rw [hf3]
    exact Kvdb.write_done hready2 hlen
  have hready3 : f3.Ready := hf3 ▸ hready2.prog (a + kvMagicOffset) (kvHdr key value)
  have hsize3 : f3.size = db1.flash.size := by rw [hf3]; rfl
  obtain ⟨f4, hw3, himg4, hsize4, hready4⟩ := Flash.writeAlign_done hready3
    (show a + kvHdrDataSize + key.length ≤ f3.size by rw [hsize3]; omega)
  obtain ⟨f5, hw4, himg5, hsize5, hready5⟩ := Flash.writeAlign_done hready4
    (show a + kvHdrDataSize + key.length + value.length ≤ f4.size by
      rw [hsize4, hsize3]
      exact hsize)
  have hw5 := fun db2 (hf : Kvdb.flash db2 = f5) => @Kvdb.writeStatus_done db2 (hf ▸ hready5) a
    kvStatusNum KvStatus.write.index (by decide) (by
      rw [hf, hsize5, hsize4, hsize3]
      omega)
  have hrep := h.append_spec hi hop (r := ⟨.write, key, value⟩) ⟨.inl rfl, hlt, hnul⟩ hroom
    (f := f5.prog a [KvStatus.write.byte])
    (by
      rw [Flash.prog, himg5, himg4, ha, hf3]
      exact program_create db1.flash.img a key value)
    ((hsize5.trans hsize4).trans hsize3) (hready5.prog _ _)
  have hkv : db1.kvCache = db.kvCache := by rw [hop.only.eq]
  simp only [writeKv, hopen, hhdr, hw3, hw4, hw5, haddr, Kvdb.withFlash, if_true, if_false,
    Bool.false_eq_true, and_false, Kvdb.updateSectorEmptyAddrCache]
  refine ⟨_, rfl, ?_, ⟨?_⟩⟩
  · have hrep' := hrep.withKvCache (updateKvCache db1.kvCache key a)
    rw [ha] at hrep'
    exact hrep'
  · rw [hop.only.eq]

/-! ## Copying a record -/

/-- The loop of `move_kv` copies its range. -/
theorem copyLoop_spec : ∀ (fuel : Nat) (db : Kvdb) (src dst m : Nat) (buf : Bytes) (err : FdbErr),
    m ≤ fuel → db.flash.Ready → src + m ≤ db.flash.size → dst + m ≤ db.flash.size →
    src + m ≤ dst ∨ dst + m ≤ src → buf.length = 32 →
    ∃ f err', copyLoop fuel db src dst m buf err = ({ db with flash := f }, err') ∧
      f.img = program db.flash.img dst (readRange db.flash.img src m) ∧
      f.size = db.flash.size ∧ f.Ready ∧ (err = .noErr → err' = .noErr) := by
  intro fuel
  induction fuel with
  | zero =>
    intro db src dst m buf err hm hready _ _ _ _
    obtain rfl := Nat.le_zero.mp hm
    exact ⟨db.flash, err, rfl, (program_nil _ _).symm, rfl, hready, id⟩
  | succ fuel ih =>
    intro db src dst m buf err hm hready hsrc hdst hdisj hbuf
    rw [copyLoop]
    by_cases hzero : m = 0
    · subst hzero
      rw [if_pos rfl]
      exact ⟨db.flash, err, rfl, (program_nil _ _).symm, rfl, hready, id⟩
    rw [if_neg hzero]
    obtain ⟨k, hk⟩ : ∃ k, k = if 32 < m then 32 else m := ⟨_, rfl⟩
    have hk' : 0 < k ∧ k ≤ m ∧ k ≤ 32 := by
      rw [hk]
      split_ifs <;> omega
    have hread : (db.read src k buf).take k = readRange db.flash.img src k :=
      Flash.take_read (by omega) (by omega)
    have hlen : (db.read src k buf).length = 32 := (Flash.length_read _ _ _ _).trans hbuf
    dsimp only
    rw [← hk, hread, Kvdb.write_done hready (by rw [length_readRange]; omega)]
    dsimp only
    obtain ⟨f, err', hrun, himg, hsize, hready', herr⟩ := ih
      { db with flash := db.flash.prog dst (readRange db.flash.img src k) } (src + k) (dst + k)
      (m - k) (db.read src k buf) .noErr (by omega) (hready.prog _ _)
      (show src + k + (m - k) ≤ db.flash.size by omega)
      (show dst + k + (m - k) ≤ db.flash.size by omega) (by omega) hlen
    refine ⟨f, err', hrun, ?_, hsize, hready', fun _ => herr rfl⟩
    have hrest : readRange (program db.flash.img dst (readRange db.flash.img src k)) (src + k)
        (m - k) = readRange db.flash.img (src + k) (m - k) :=
      readRange_program_disjoint (by rw [length_readRange]; omega)
    rw [himg, Flash.prog, hrest, ← Nat.add_sub_cancel' hk'.2.1, readRange_add, ← program_append,
      length_readRange, Nat.add_sub_cancel' hk'.2.1]

/-- The part of a record that is copied. -/
theorem SecAt.record_data {img : Image} {a o : Nat} {s : Sec} {r : Rec} (h : SecAt img z a s)
    (hrec : recAt s.recs o = some r) :
    readRange img (a + (sectorHdrDataSize + o) + kvMagicOffset) (r.len - kvMagicOffset) =
      r.data := by
  obtain ⟨pre, post, hrecs, rfl⟩ := exists_of_recAt hrec
  have hbytes : readRange img (a + (sectorHdrDataSize + recsLen pre)) r.len =
      [r.status.byte, 0xFF, 0xFF, 0xFF] ++ r.data ++ [] := by
    rw [h.record hrecs, Rec.bytes, List.append_nil]
    rfl
  have hlen : r.data.length = r.len - kvMagicOffset := by
    rw [← r.length_data]
    rfl
  have hmid := readRange_mid hbytes
  rwa [hlen] at hmid

/-- `move_kv` copies a record into another sector. -/
theorem Rep.copyKv_spec (h : Rep z n st db) {j o : Nat} {r : Rec} (hj : j < n)
    (hrec : recAt (st j).recs o = some r) {t : KvStatus} {kv : Kv}
    (hshows : KvShows { r with status := t } (j * z + (sectorHdrDataSize + o)) kv) (hi : i < n)
    (hij : i ≠ j) {info : SecInfo} (haddr : info.addr = i * z) (hstore : info.store = (st i).store)
    (hexact : Exact z (i * z) (st i) info)
    (hroom : r.len + fdbSecRemainThreshold < z - (st i).used) :
    ∃ db', copyKv db info kv (i * z + (st i).used) = (db', .noErr) ∧
      Rep z n (addRec st i { r with status := .write }) db' ∧
      FlashOnly { db with kvCache := updateKvCache db.kvCache r.name (i * z + (st i).used) }
        db' := by
  have hendi := sector_end_le (z := z) hi
  have hendj := sector_end_le (z := z) hj
  have hroomj := h.recAt_room hj hrec
  have hdisj := sector_disjoint (z := z) hij
  have hpos := r.len_pos
  have hmagic : kvMagicOffset = 4 := rfl
  have hlen : kv.len = r.len := hshows.len
  have hname : kv.name.take kv.nameLen = r.name := by
    rw [hshows.nameLen]
    exact hshows.name
  have hend : i * z + (st i).used + kvHdrDataSize + kv.nameLen + kv.valueLen =
      i * z + (st i).used + r.len := by
    rw [hshows.nameLen, hshows.valueLen, Rec.len]
    dsimp only
    omega
  obtain ⟨db1, hopen, hop⟩ := h.updateSecStatus_spec hi haddr hstore hexact hroom
  have hsize : db1.flash.size = n * z := hop.size.trans h.size
  have hsec : db1.secSize = db.secSize := by rw [hop.only.eq]
  have halign : ∀ db2 : Kvdb, db2.secSize = db1.secSize →
      db2.alignDown (i * z + (st i).used) = i * z := by
    intro db2 hdb2
    rw [Kvdb.alignDown, hdb2, hsec]
    exact h.alignDown_eq (by omega)
  -- the record in the flash, also when the first status of the copy is written
  have hdata : readRange (program db1.flash.img (i * z + (st i).used) [KvStatus.preWrite.byte])
      (kv.start + kvMagicOffset) (r.len - kvMagicOffset) = r.data := by
    rw [hshows.start, readRange_program_disjoint (by rw [List.length_singleton]; omega)]
    exact (hop.other j hj (Ne.symm hij)).record_data hrec
  have hw1 := Kvdb.writeStatus_done hop.ready (i * z + (st i).used) kvStatusNum
    KvStatus.preWrite.index (by decide) (by omega)
  obtain ⟨f3, err, hcopy, himg3, hsize3, hready3, herr⟩ := copyLoop_spec (r.len - kvMagicOffset)
    { db1 with flash := db1.flash.prog (i * z + (st i).used) [KvStatus.preWrite.byte] }
    (kv.start + kvMagicOffset) (i * z + (st i).used + kvMagicOffset) (r.len - kvMagicOffset)
    (zeros 32) .noErr (Nat.le_refl _) (hop.ready.prog _ _)
    (show kv.start + kvMagicOffset + (r.len - kvMagicOffset) ≤ db1.flash.size by
      rw [hshows.start]; omega)
    (show i * z + (st i).used + kvMagicOffset + (r.len - kvMagicOffset) ≤ db1.flash.size by omega)
    (by rw [hshows.start]; omega) (by simp)
  obtain rfl := herr rfl
  have hw5 := fun db2 (hf : Kvdb.flash db2 = f3) => @Kvdb.writeStatus_done db2 (hf ▸ hready3)
    (i * z + (st i).used) kvStatusNum KvStatus.write.index (by decide) (by
      rw [hf, hsize3]
      exact (show i * z + (st i).used < db1.flash.size by omega))
  have hr := (h.ok j hj).recs r (mem_of_recAt hrec)
  have hrep := h.append_spec hi hop (r := { r with status := .write })
    ⟨.inl rfl, hr.name_lt, hr.no_nul⟩ hroom
    (f := f3.prog (i * z + (st i).used) [KvStatus.write.byte])
    (by
      rw [← program_record _ _ _ rfl, Flash.prog, himg3]
      exact congrArg (fun d => program (program (program db1.flash.img (i * z + (st i).used)
        [KvStatus.preWrite.byte]) (i * z + (st i).used + kvMagicOffset) d) (i * z + (st i).used)
          [KvStatus.write.byte]) hdata)
    hsize3 (hready3.prog _ _)
  have hkv : db1.kvCache = db.kvCache := by rw [hop.only.eq]
  have hw1 : db1.writeStatus (i * z + (st i).used) kvStatusNum KvStatus.preWrite.index =
      ({ db1 with flash := db1.flash.prog (i * z + (st i).used) [KvStatus.preWrite.byte] },
        .noErr) :=
    hw1
  simp only [copyKv, hopen, hlen, hw1, hcopy, hw5, hend, hname, halign,
    Kvdb.updateSectorEmptyAddrCache]
  exact ⟨_, rfl, hrep.withKvCache (updateKvCache db1.kvCache r.name (i * z + (st i).used)),
    ⟨by rw [hop.only.eq]⟩⟩

/-! ## Formatting a sector -/

/-- The entry that takes a sector out of the sector cache. -/
def SecInfo.formatted (a : Nat) : SecInfo :=
  { SecInfo.fresh with addr := a, checkOk := false, emptyKv := none }

/-- `format_sector`, whatever the flash holds. -/
theorem formatSector_done (hready : db.flash.Ready) {a : Nat}
    (hhdr : sectorHdrDataSize ≤ db.secSize) (hsize : a + db.secSize ≤ db.flash.size) :
    ∃ f, formatSector db a sectorNotCombined =
        (Kvdb.updateSectorCache { db with flash := f } (.formatted a), .noErr) ∧
      f.img = program (eraseRange db.flash.img a db.secSize) a
        (sectorHdr StoreStatus.empty.byte DirtyStatus.no.byte sectorNotCombined) ∧
      f.size = db.flash.size ∧ f.Ready := by
  have herase : db.flash.erase a db.secSize =
      ({ db.flash with img := eraseRange db.flash.img a db.secSize, count := db.flash.count + 1 },
        .noErr) := by
    rw [Flash.erase, if_neg (Nat.not_lt.mpr hsize), if_neg (by rw [hready.on]; decide),
      hready.plan]
  have hwrite := @Kvdb.write_done { db with flash := { db.flash with
      img := eraseRange db.flash.img a db.secSize, count := db.flash.count + 1 } }
    ⟨hready.plan, hready.on⟩ a
    (sectorHdr StoreStatus.empty.byte DirtyStatus.no.byte sectorNotCombined)
    (show a + sectorHdrDataSize ≤ db.flash.size by omega)
  have hstore : (fdbSetStatus storeStatusNum StoreStatus.empty.index).1.getD 0 0 =
      StoreStatus.empty.byte := by decide
  have hdirty : (fdbSetStatus dirtyStatusNum DirtyStatus.no.index).1.getD 0 0 =
      DirtyStatus.no.byte := by decide
  simp only [formatSector, herase, Kvdb.withFlash, if_true, hstore, hdirty, hwrite]
  exact ⟨_, rfl, rfl, rfl, hready.plan, hready.on⟩

/-- The sectors after `format_sector`. -/
def clearSec (st : Nat → Sec) (i : Nat) : Nat → Sec := Function.update st i Sec.blank

theorem Sec.blank_ok (hz : sectorHdrDataSize + fdbSecRemainThreshold < z) : Sec.blank.Ok z :=
  ⟨hz, fun _ hr => absurd hr List.not_mem_nil, .inl ⟨rfl, rfl, rfl⟩⟩

/-- `format_sector` empties a sector and takes it out of the sector cache. -/
theorem Rep.formatSector_spec (h : Rep z n st db) (hi : i < n) :
    ∃ db', formatSector db (i * z) sectorNotCombined = (db', .noErr) ∧
      Rep z n (clearSec st i) db' ∧ FlashOnly db db' := by
  have hz := h.geo.room
  have hend := sector_end_le (z := z) hi
  obtain ⟨f, hrun, himg, hsize, hready⟩ := @formatSector_done db h.ready (i * z)
    (by rw [h.secSize]; omega) (by rw [h.secSize, h.size]; exact hend)
  rw [h.secSize] at himg
  refine ⟨_, hrun, ?_, ⟨rfl⟩⟩
  refine h.replace hi hsize hready (himg ▸ secAt_format _ _ (by omega)) (fun j hj hne => ?_)
    (Sec.blank_ok hz) (h.distinct.updateSectorCache _) fun info hmem => ?_
  · have hdisj := sector_disjoint (z := z) hne
    rw [himg]
    exact ((h.secs j hj).eraseRange_disjoint hdisj).program_disjoint (by
      rw [length_sectorHdr]
      omega)
  · rcases mem_updateSectorCache h.distinct hmem with ⟨-, hfalse⟩ | ⟨hold, hne⟩
    · exact absurd hfalse Bool.false_ne_true
    · exact .inl ⟨hne, hold⟩

end Write

end Hc32Board.FlashDb
