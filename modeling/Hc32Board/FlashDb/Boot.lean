import Hc32Board.FlashDb.Reset

/-!
# Initialisation
-/

namespace Hc32Board.FlashDb

open Hc32Board.CodeLib

section Boot

variable {z n : Nat} {K : Set Bytes} {m : Bytes → Option Bytes} {st : Nat → Sec} {db : Kvdb}
  {img : Image}

/-! ## The oldest sector -/

/-- The sector cache of zeros has an entry for the first sector, and this entry leads back
to itself. -/
theorem sectorLoop_zeroed (hget : getSectorFromCache db.sectorCache 0 = some SecInfo.fresh) :
    ∀ (fuel len : Nat) (sector : SecInfo), ∃ sector',
      sectorLoop .unused false checkOldestAddrCb fuel db sector 0 len (0, .unused) =
        (db, sector', (0, .unused)) := by
  intro fuel
  induction fuel with
  | zero => exact fun len sector => ⟨sector, rfl⟩
  | succ fuel ih =>
    intro len sector
    have hread : readSectorInfo db 0 sector false = (db, SecInfo.fresh, .noErr) := by
      rw [readSectorInfo, hget]
      exact if_pos (.inl rfl)
    have hcb : checkOldestAddrCb db SecInfo.fresh (0, .unused) = (db, (0, .unused), false) := rfl
    have hnext : getNextSectorAddr db SecInfo.fresh (len + db.secSize) =
        if len + db.secSize ≤ db.maxSize then some 0 else none := by
      have hblock : (if SecInfo.fresh.combined = sectorNotCombined then db.secSize
          else SecInfo.fresh.combined.toNat * db.secSize) = 0 := by
        rw [if_neg (by decide)]
        exact Nat.zero_mul _
      rw [getNextSectorAddr, hblock]
      refine if_congr Iff.rfl ?_ rfl
      split_ifs <;> rfl
    rw [sectorLoop, hread]
    dsimp only
    rw [if_pos (.inl rfl), if_neg Bool.false_ne_true]
    dsimp only
    rw [hcb]
    dsimp only
    rw [hnext]
    by_cases hle : len + db.secSize ≤ db.maxSize
    · rw [if_pos hle]
      exact ih _ _
    · rw [if_neg hle]
      exact ⟨_, rfl⟩

/-- The first sector counts as the oldest one, whatever the flash holds. -/
theorem findOldest_zeroed (hget : getSectorFromCache db.sectorCache 0 = some SecInfo.fresh) :
    findOldest db = { db with
      oldestAddr := 0
      sectorCache := db.sectorCache.map fun _ => none
      kvCache := clearKvCache db.kvCache } := by
  obtain ⟨sector', hrun⟩ := @sectorLoop_zeroed { db with oldestAddr := 0 } hget (db.sectorNum + 1) 0
    SecInfo.fresh
  rw [findOldest, sectorIterator,
    show Kvdb.sectorNum { db with oldestAddr := 0 } = db.sectorNum from rfl]
  dsimp only
  rw [hrun]

/-! ## The headers -/

/-- `read_sector_info` does not accept the header. -/
def NoHeader (img : Image) (a : Nat) : Prop :=
  wordAt (readRange img a sectorHdrDataSize) 4 ≠ sectorMagicWord ∨
    wordAt (readRange img a sectorHdrDataSize) 8 ≠ sectorNotCombined ∧
      wordAt (readRange img a sectorHdrDataSize) 8 ≠ sectorCombined

theorem SecAt.not_noHeader {a : Nat} {s : Sec} (h : SecAt img z a s) : ¬ NoHeader img a := by
  rw [NoHeader, h.hdr]
  have hmagic : wordAt (sectorHdr s.store.byte s.dirty.byte sectorNotCombined) 4 =
      sectorMagicWord := ofLe4_le4 _
  have hcombined : wordAt (sectorHdr s.store.byte s.dirty.byte sectorNotCombined) 8 =
      sectorNotCombined := ofLe4_le4 _
  rw [hmagic, hcombined]
  rintro (hne | ⟨hne, -⟩) <;> exact hne rfl

/-- The flash holds the sectors, but a sector may be without a header.  It counts as an
empty one. -/
def Loadable (z n : Nat) (st : Nat → Sec) (img : Image) : Prop :=
  ∀ j < n, SecAt img z (j * z) (st j) ∨ st j = Sec.blank ∧ NoHeader img (j * z)

theorem noHeader_erased (a : Nat) : NoHeader (fun _ => 0xFF) a :=
  .inl (show wordAt (List.replicate 16 0xFF) 4 ≠ sectorMagicWord by decide)

theorem loadable_blank (h : ∀ j < n, NoHeader img (j * z)) :
    Loadable z n (fun _ => Sec.blank) img := fun j hj => .inr ⟨rfl, h j hj⟩

/-- `_fdb_kv_load` has looked at `k` sectors of the flash `img`. -/
structure Loading (z n : Nat) (st : Nat → Sec) (img : Image) (k : Nat) (db : Kvdb) : Prop where
  based : Based z n db
  formatable : db.notFormatable = false
  ok : ∀ j < n, (st j).Ok z
  done : ∀ j < k, SecAt db.flash.img z (j * z) (st j)
  rest : ∀ j < n, k ≤ j → readRange db.flash.img (j * z) z = readRange img (j * z) z
  cache : ∀ info, some info ∈ db.sectorCache → ∃ i < k, InfoAt z (i * z) (st i) info

/-- The number of sectors without a header. -/
structure Failed (z : Nat) (img : Image) (k c : Nat) : Prop where
  le : c ≤ k
  all : c = k ↔ ∀ j < k, NoHeader img (j * z)

theorem Failed.good {k c : Nat} (h : Failed z img k c) (hgood : ¬ NoHeader img (k * z)) :
    Failed z img (k + 1) c := by
  have := h.le
  exact ⟨by omega, fun heq => by omega, fun hall => absurd (hall k (Nat.lt_succ_self k)) hgood⟩

theorem Failed.bad {k c : Nat} (h : Failed z img k c) (hbad : NoHeader img (k * z)) :
    Failed z img (k + 1) (c + 1) := by
  refine ⟨Nat.succ_le_succ h.le, fun heq j hj => ?_, fun hall => ?_⟩
  · rcases Nat.lt_succ_iff_lt_or_eq.mp hj with hlt | rfl
    · exact h.all.mp (Nat.succ.inj heq) j hlt
    · exact hbad
  · rw [h.all.mpr fun j hj => hall j (Nat.lt_succ_of_lt hj)]

section Load

variable {k : Nat}

theorem Loading.notCached (h : Loading z n st img k db) :
    getSectorFromCache db.sectorCache (k * z) = none := by
  cases hget : getSectorFromCache db.sectorCache (k * z) with
  | none => rfl
  | some info =>
    obtain ⟨hmem, haddr⟩ := mem_of_getSectorFromCache hget
    obtain ⟨i, hi, hinfo⟩ := h.cache info hmem
    have hz := h.based.geo.room
    have hik : i = k := Nat.eq_of_mul_eq_mul_right (by omega) (hinfo.addr.symm.trans haddr)
    omega

/-- The next sector has a header. -/
theorem Loading.good (h : Loading z n st img k db) (hk : k < n) (hsec : SecAt img z (k * z) (st k))
    (sector : SecInfo) :
    ∃ db' info, readSectorInfo db (k * z) sector false = (db', info, .noErr) ∧
      InfoAt z (k * z) (st k) info ∧ FlashOnly db db' ∧ Loading z n st img (k + 1) db' := by
  have hend := sector_end_le (z := z) hk
  have hz := h.based.geo.room
  have hnow : SecAt db.flash.img z (k * z) (st k) := by
    rw [SecAt, h.rest k hk (Nat.le_refl k)]
    exact hsec
  have hhdr : db.read (k * z) sectorHdrDataSize (zeros sectorHdrDataSize) =
      sectorHdr (st k).store.byte (st k).dirty.byte sectorNotCombined := by
    rw [Kvdb.read, Flash.read_zeros (by rw [h.based.size]; omega), hnow.hdr]
  have hinfo : InfoAt z (k * z) (st k)
      { (st k).info (k * z) sector with emptyKv := none, remain := 0 } :=
    ⟨rfl, rfl, rfl, .inl rfl, rfl, .inl ⟨rfl, rfl⟩⟩
  rw [readSectorInfo, h.notCached]
  dsimp only
  rw [loadSectorInfo_of_hdr hhdr, if_neg Bool.false_ne_true, h.notCached]
  refine ⟨_, _, rfl, hinfo, ⟨rfl⟩,
    { h.based with distinct := h.based.distinct.updateSectorCache _ },
    h.formatable, h.ok, fun j hj => ?_, fun j hj hle => h.rest j hj (by omega), fun u hu => ?_⟩
  · rcases Nat.lt_succ_iff_lt_or_eq.mp hj with hlt | rfl
    · exact h.done j hlt
    · exact hnow
  · rcases mem_updateSectorCache h.based.distinct hu with ⟨rfl, -⟩ | ⟨hold, -⟩
    · exact ⟨k, Nat.lt_succ_self k, hinfo⟩
    · obtain ⟨i, hi, hinfo'⟩ := h.cache u hold
      exact ⟨i, Nat.lt_succ_of_lt hi, hinfo'⟩

/-- The next sector is without a header, and is formatted. -/
theorem Loading.bad (h : Loading z n st img k db) (hk : k < n) (hblank : st k = Sec.blank)
    (hbad : NoHeader img (k * z)) (sector : SecInfo) :
    ∃ db' info, readSectorInfo db (k * z) sector false = (db, info, .initFailed) ∧
      info.checkOk = false ∧ info.addr = k * z ∧ info.combined = sectorNotCombined ∧
      formatSector db (k * z) sectorNotCombined = (db', .noErr) ∧ FlashOnly db db' ∧
      Loading z n st img (k + 1) db' := by
  have hend := sector_end_le (z := z) hk
  have hz := h.based.geo.room
  have hhdr : db.read (k * z) sectorHdrDataSize (zeros sectorHdrDataSize) =
      readRange img (k * z) sectorHdrDataSize := by
    have hsplit : readRange img (k * z) z = readRange img (k * z) sectorHdrDataSize ++
        readRange img (k * z + sectorHdrDataSize) (z - sectorHdrDataSize) := by
      rw [← readRange_add, Nat.add_sub_cancel' (by omega)]
    have hleft := readRange_left ((h.rest k hk (Nat.le_refl k)).trans hsplit)
    rw [length_readRange] at hleft
    rw [Kvdb.read, Flash.read_zeros (by rw [h.based.size]; omega), hleft]
  obtain ⟨f, hformat, himg, hsize, hready⟩ := @formatSector_done db h.based.ready (k * z)
    (by rw [h.based.secSize]; omega) (by rw [h.based.secSize, h.based.size]; exact hend)
  rw [h.based.secSize] at himg
  have hread : ∃ info, readSectorInfo db (k * z) sector false = (db, info, .initFailed) ∧
      info.checkOk = false ∧ info.addr = k * z ∧ info.combined = sectorNotCombined := by
    rw [readSectorInfo, h.notCached]
    dsimp only
    unfold loadSectorInfo
    rw [hhdr]
    dsimp only
    unfold NoHeader at hbad
    rw [if_pos hbad]
    exact ⟨_, rfl, rfl, rfl, rfl⟩
  obtain ⟨info, hread, hok, haddr, hcombined⟩ := hread
  refine ⟨_, info, hread, hok, haddr, hcombined, hformat, ⟨rfl⟩, { h.based with
    size := hsize.trans h.based.size
    ready := hready
    distinct := h.based.distinct.updateSectorCache _ }, h.formatable, h.ok, fun j hj => ?_,
    fun j hj hle => ?_, fun u hu => ?_⟩
  · show SecAt f.img z (j * z) (st j)
    rw [himg]
    rcases Nat.lt_succ_iff_lt_or_eq.mp hj with hlt | rfl
    · have hdisj := sector_disjoint (z := z) (Nat.ne_of_lt hlt)
      exact ((h.done j hlt).eraseRange_disjoint hdisj).program_disjoint (by
        rw [length_sectorHdr]
        omega)
    · rw [hblank]
      exact secAt_format _ _ (by omega)
  · show readRange f.img (j * z) z = readRange img (j * z) z
    have hdisj := sector_disjoint (z := z) (show j ≠ k by omega)
    rw [himg, readRange_program_disjoint (by rw [length_sectorHdr]; omega),
      readRange_eraseRange_disjoint hdisj]
    exact h.rest j hj (by omega)
  · rcases mem_updateSectorCache h.based.distinct hu with ⟨-, hfalse⟩ | ⟨hold, -⟩
    · exact absurd hfalse Bool.false_ne_true
    · obtain ⟨i, hi, hinfo⟩ := h.cache u hold
      exact ⟨i, Nat.lt_succ_of_lt hi, hinfo⟩

/-- One turn of the first pass of `_fdb_kv_load`. -/
theorem Loading.step {c : Nat} (h : Loading z n st img k db) (hload : Loadable z n st img)
    (hk : k < n) (hc : Failed z img k c) (sector : SecInfo) :
    ∃ db1 info db' c' err, readSectorInfo db (k * z) sector false = (db1, info, err) ∧
      checkSecHdrCb db1 info c = (db', c', false) ∧ info.addr = k * z ∧
      info.combined = sectorNotCombined ∧ FlashOnly db db' ∧ Loading z n st img (k + 1) db' ∧
      Failed z img (k + 1) c' := by
  rcases hload k hk with hsec | ⟨hblank, hbad⟩
  · obtain ⟨db', info, hread, hinfo, honly, hnext⟩ := h.good hk hsec sector
    exact ⟨db', info, db', c, _, hread, if_pos hinfo.checkOk, hinfo.addr, hinfo.combined, honly,
      hnext, hc.good hsec.not_noHeader⟩
  · obtain ⟨db', info, hread, hok, haddr, hcombined, hformat, honly, hnext⟩ :=
      h.bad hk hblank hbad sector
    refine ⟨db, info, db', c + 1, _, hread, ?_, haddr, hcombined, honly, hnext, hc.bad hbad⟩
    rw [checkSecHdrCb, if_neg (by rw [hok]; decide), if_neg (by rw [h.formatable]; decide), haddr,
      hformat]

/-- The first pass of `_fdb_kv_load`. -/
theorem Loading.loop (hload : Loadable z n st img) :
    ∀ (fuel k c : Nat) (db : Kvdb) (sector : SecInfo),
    n ≤ k + fuel → k < n → Loading z n st img k db → Failed z img k c →
    ∃ db' info c', sectorLoop .unused false checkSecHdrCb fuel db sector (k * z) (k * z) c =
        (db', info, c') ∧ FlashOnly db db' ∧ Loading z n st img n db' ∧ Failed z img n c' := by
  intro fuel
  induction fuel with
  | zero => intro k _ _ _ hfuel hk; omega
  | succ fuel ih =>
    intro k c db sector hfuel hk h hc
    obtain ⟨db1, info, db', c', err, hread, hcb, haddr, hcombined, honly, hnext, hc'⟩ :=
      h.step hload hk hc sector
    have haddr' := hnext.based.getNextSectorAddr_spec haddr hcombined k
    rw [sectorLoop, h.based.secSize, ← Nat.succ_mul, hread]
    dsimp only
    rw [if_pos (.inl rfl), if_neg Bool.false_ne_true]
    dsimp only
    rw [hcb]
    dsimp only
    rw [haddr']
    by_cases hlt : k + 1 < n
    · obtain ⟨db2, info2, c2, hloop, honly2, hend, hcend⟩ :=
        ih (k + 1) c' db' info (by omega) hlt hnext hc'
      rw [if_pos hlt, if_pos hlt]
      exact ⟨db2, info2, c2, hloop, honly.trans honly2, hend, hcend⟩
    · obtain rfl : n = k + 1 := by omega
      rw [if_neg hlt]
      exact ⟨db', info, c', rfl, honly, hnext, hc'⟩

end Load

/-! ## Recovery -/

/-- The check for an interrupted collection finds none. -/
theorem Rep.recoveryGc_spec (h : Rep z n st db) (htidy : ∀ i < n, (st i).Tidy) (sector : SecInfo) :
    ∃ db' info, sectorIterator db sector .unused checkAndRecoveryGcCb () false = (db', info, ()) ∧
      Rep z n st db' ∧ CacheOnly db db' := by
  obtain ⟨oldest, ho, holdest⟩ := h.oldest
  have hcb : SectorCallback z n oldest .unused false checkAndRecoveryGcCb
      (fun _ st' db' _ => st' = st ∧ CacheOnly db db') (fun _ _ _ _ => False) :=
    { cache := fun k st' db1 db2 s hJ honly => ⟨hJ.1, hJ.2.trans honly⟩
      skip := fun k st' db' s _ _ _ hne => absurd (.inl rfl) hne
      call := by
        rintro k st' db1 s info hk hrep1 ⟨rfl, honly⟩ hinfo - -
        have hne := (htidy _ (visit_lt ho hk)).noGc
        have hdirty : ¬ (info.checkOk = true ∧ info.dirty = .gc) := by
          rintro ⟨-, hgc⟩
          rcases hinfo.dirty with heq | ⟨hgc', -⟩
          · exact hne (heq.symm.trans hgc)
          · exact hne hgc'
        exact ⟨st', db1, (), false, if_neg hdirty, hrep1, .inl ⟨rfl, rfl, honly⟩⟩ }
  obtain ⟨st', db', info, ⟨⟩, hrun, hrep, hfalse | ⟨rfl, honly⟩⟩ :=
    h.sectorIterator_rule ho holdest sector hcb (s := ()) ⟨rfl, .refl db⟩
  · exact hfalse.elim
  · exact ⟨db', info, hrun, hrep, honly⟩

/-- The pass over the records fills the KV cache. -/
theorem Rep.recoveryKv_spec (h : Rep z n st db)
    (hpre : ∀ a < n * z, ∀ r, storeRecAt z st a = some r → r.status ≠ .preDelete)
    (hcache : KvCacheOk (LiveCrc z n st) db.kvCache) :
    ∃ db' kv, kvIterator db Kv.fresh checkAndRecoveryKvCb () = (db', kv, ()) ∧ Rep z n st db' ∧
      CachesOnly db db' ∧ KvCacheOk (LiveCrc z n st) db'.kvCache := by
  obtain ⟨oldest, ho, holdest⟩ := h.oldest
  have hcb : KvCallback z n oldest st checkAndRecoveryKvCb
      (fun _ _ db' _ => CachesOnly db db' ∧ KvCacheOk (LiveCrc z n st) db'.kvCache)
      (fun _ _ _ => False) := by
    rintro k pre post r db1 s kv hk hrep1 hrecs ⟨honly, hok⟩ hshows
    have hi := visit_lt ho hk
    have hend := sector_end_le (z := z) hi
    have hroom := (h.ok _ hi).room
    rw [Sec.used, hrecs, recsLen_append, recsLen_cons] at hroom
    have hpos := r.len_pos
    have hr := (h.ok _ hi).recs r (by rw [hrecs]; simp)
    have hne := hpre _ (by omega) r (storeRecAt_record hrecs (by omega))
    have hname : kv.name.take kv.nameLen = r.name := by
      rw [hshows.nameLen]
      exact hshows.name
    unfold checkAndRecoveryKvCb
    rw [hshows.status, hshows.crcIsOk, hname, hshows.start]
    rcases hr.status with hst | hst | hst
    · rw [if_neg (by rw [hst]; simp), if_neg (by rw [hst]; decide), if_pos ⟨rfl, hst⟩]
      obtain ⟨status, name, value⟩ := r
      obtain rfl : status = .write := hst
      refine ⟨_, (), false, rfl, hrep1.withKvCache _, .inl ⟨rfl, ⟨by rw [honly.eq]⟩, ?_⟩⟩
      exact hok.update (fun _ _ _ hP => hP) ⟨name, value, h.live hi hrecs, rfl⟩
    · exact absurd hst hne
    · rw [if_neg (by rw [hst]; simp), if_neg (by rw [hst]; decide), if_neg (by rw [hst]; simp)]
      exact ⟨db1, (), false, rfl, hrep1, .inl ⟨rfl, honly, hok⟩⟩
  obtain ⟨db', kv, ⟨⟩, hrun, hrep, -, hend⟩ := h.kvIterator_rule ho holdest
    (show Kv.fresh.name.length = fdbKvNameMax from rfl) (s := ()) hcb
    (fun k pre db1 db2 s hJ honly => ⟨⟨by rw [honly.eq, hJ.1.eq]⟩, by rw [honly.eq]; exact hJ.2⟩)
    (fun k db1 s hk hJ => hJ) ⟨⟨rfl⟩, hcache⟩
  rcases hend with hfalse | ⟨honly, hok⟩
  · exact hfalse.elim
  · exact ⟨db', kv, hrun, hrep, honly, hok⟩

/-- The two recovery passes leave the map. -/
theorem Kept.recovery_spec (h : Kept z n K m st db) (hgc : db.gcRequest = false) (sector : SecInfo)
    (rounds : Nat) :
    ∃ db1 info db2, sectorIterator db sector .unused checkAndRecoveryGcCb () false =
        (db1, info, ()) ∧ recoverLoop (rounds + 1) db1 Kv.fresh = some db2 ∧
      Kept z n K m st db2 ∧ StoreOnly db db2 := by
  obtain ⟨db1, info, hrun1, hrep1, honly1⟩ := h.holds.rep.recoveryGc_spec h.tidy sector
  obtain ⟨db2, kv, hrun2, hrep2, honly2, hcache2⟩ := hrep1.recoveryKv_spec h.holds.noPreDelete
    (by rw [honly1.eq]; exact h.holds.cache)
  have hgc2 : ¬ db2.gcRequest = true := by
    rw [honly2.eq, honly1.eq]
    exact fun htrue => Bool.false_ne_true (hgc.symm.trans htrue)
  refine ⟨db1, info, db2, hrun1, ?_, ⟨⟨hrep2, h.holds.stands, h.holds.keys, hcache2,
    h.holds.noPreDelete, ?_⟩, h.empty, h.tidy⟩, ⟨by rw [honly2.eq, honly1.eq]⟩⟩
  · rw [recoverLoop, hrun2]
    exact if_neg hgc2
  · rw [honly2.eq, honly1.eq]
    exact h.holds.completeDel

theorem Loading.rep (h : Loading z n st img n db) : Rep z n st db where
  geo := h.based.geo
  secSize := h.based.secSize
  maxSize := h.based.maxSize
  size := h.based.size
  ready := h.based.ready
  secs := h.done
  ok := h.ok
  oldest := h.based.oldest
  distinct := h.based.distinct
  cache := h.cache
  curName := h.based.curName

/-- The map that `_fdb_kv_load` finds: the one on the flash, or default values when no
sector has a header. -/
structure Loaded (z n : Nat) (img : Image) (m : Bytes → Option Bytes) (defaultKvs : List DefaultKv)
    (m' : Bytes → Option Bytes) : Prop where
  found : (∃ j < n, ¬ NoHeader img (j * z)) → m' = m
  blank : (∀ j < n, NoHeader img (j * z)) → Restored z defaultKvs m'

/-- The first pass of `_fdb_kv_load`, with the default values behind it. -/
theorem Loading.firstPass_spec (h : Loading z n st img 0 db) (hrest : Resting z n K m st)
    (hload : Loadable z n st img) (holdest : db.oldestAddr = 0)
    (hcache : ∀ P, KvCacheOk P db.kvCache) (hgc : db.gcRequest = false)
    (hflag : db.lastIsCompleteDel = false) (hkeys : Keys K)
    (hmem : ∀ kv ∈ db.defaultKvs, kv.key ∈ K) (hnd : (db.defaultKvs.map DefaultKv.key).Nodup) :
    ∃ db1 info c m' st' db2, sectorIterator db SecInfo.fresh .unused checkSecHdrCb 0 false =
        (db1, info, c) ∧ db1.notFormatable = false ∧
      (if c = db1.sectorNum then (fdbKvSetDefault db1).1 else db1) = db2 ∧
      Kept z n K m' st' db2 ∧ StoreOnly db db2 ∧ Loaded z n img m db.defaultKvs m' := by
  have hn := h.based.geo.sectors
  obtain ⟨db1, info, c, hrun, honly, hend, hc⟩ := Loading.loop hload (n + 1) 0 0 db SecInfo.fresh
    (by omega) (by omega) h
    ⟨Nat.le_refl 0, fun _ j hj => absurd hj (Nat.not_lt_zero j), fun _ => rfl⟩
  rw [Nat.zero_mul] at hrun
  have hiter : sectorIterator db SecInfo.fresh .unused checkSecHdrCb 0 false = (db1, info, c) := by
    rw [sectorIterator, h.based.sectorNum_eq, holdest]
    exact hrun
  have hkvs : db1.defaultKvs = db.defaultKvs := by rw [honly.eq]
  have honly1 : StoreOnly db db1 := ⟨by rw [honly.eq]⟩
  have hflag1 : db1.lastIsCompleteDel = false := by rw [honly.eq]; exact hflag
  have hnum := hend.based.sectorNum_eq
  by_cases hall : c = n
  · -- no sector has a header
    obtain ⟨m', st', db2, hset, hkept, honly2, hrestored⟩ := hend.based.fdbKvSetDefault_spec
      (fun u hu => by
        obtain ⟨i, hi, hinfo⟩ := hend.cache u hu
        exact ⟨i, hi, hinfo.addr⟩)
      (by rw [honly.eq]; exact hgc) hflag1 hkeys (by rw [hkvs]; exact hmem)
      (by rw [hkvs]; exact hnd)
    rw [hkvs] at hrestored
    refine ⟨db1, info, c, m', st', db2, hiter, hend.formatable, ?_, hkept, honly1.trans honly2,
      fun hsome => ?_, fun _ => hrestored⟩
    · rw [hnum, if_pos hall, hset]
    · obtain ⟨j, hj, hgood⟩ := hsome
      exact absurd (hc.all.mp hall j hj) hgood
  · refine ⟨db1, info, c, m, st, db1, hiter, hend.formatable, ?_,
      hrest.kept hend.rep ?_ hflag1, honly1, fun _ => rfl,
      fun hbad => absurd (hc.all.mpr hbad) hall⟩
    · rw [hnum, if_neg hall]
    · rw [honly.eq]
      exact hcache _

/-- `_fdb_kv_load`. -/
theorem Loading.fdbKvLoad_spec (h : Loading z n st img 0 db) (hrest : Resting z n K m st)
    (hload : Loadable z n st img) (holdest : db.oldestAddr = 0)
    (hcache : ∀ P, KvCacheOk P db.kvCache) (hgc : db.gcRequest = false)
    (hflag : db.lastIsCompleteDel = false) (hkeys : Keys K)
    (hmem : ∀ kv ∈ db.defaultKvs, kv.key ∈ K) (hnd : (db.defaultKvs.map DefaultKv.key).Nodup)
    (rounds : Nat) :
    ∃ m' st' db', fdbKvLoad (rounds + 1) db = some (db', .noErr) ∧ Kept z n K m' st' db' ∧
      StoreOnly { db with inRecoveryCheck := false } db' ∧ Loaded z n img m db.defaultKvs m' := by
  have hstart : Loading z n st img 0 { db with inRecoveryCheck := true } :=
    { h with based := { h.based with } }
  obtain ⟨db1, info, c, m', st', db2, hpass, hform, hset, hkept2, honly2, hloaded⟩ :=
    hstart.firstPass_spec hrest hload holdest hcache hgc hflag hkeys hmem hnd
  obtain ⟨db3, info3, db4, hgcRun, hrecover, hkept4, honly4⟩ := hkept2.recovery_spec
    (by rw [honly2.eq]; exact hgc) info rounds
  refine ⟨m', st', { db4 with inRecoveryCheck := false }, ?_,
    ⟨{ hkept4.holds with rep := { hkept4.holds.rep with } }, hkept4.empty, hkept4.tidy⟩,
    ⟨by rw [honly4.eq, honly2.eq]⟩, hloaded⟩
  unfold fdbKvLoad
  rw [hpass]
  dsimp only
  rw [if_neg (fun hcond => Bool.false_ne_true (hform.symm.trans hcond.1)), hset, hgcRun]
  dsimp only
  rw [hrecover]
  rfl

/-! ## `fdb_kvdb_init` -/

/-- The database is initialised and holds the map. -/
structure Serves (z n : Nat) (K : Set Bytes) (defaultKvs : List DefaultKv)
    (m : Bytes → Option Bytes) (db : Kvdb) : Prop where
  kept : ∃ st, Kept z n K m st db
  gcRequest : db.gcRequest = false
  initOk : db.initOk = true
  defaults : db.defaultKvs = defaultKvs

/-- The structure as `_fdb_init_ex` leaves it. -/
theorem fdbInitEx_cleared {f : Flash} {blkSize : Nat} (hgeo : Geometry z n) (hsize : f.size = n * z)
    (hblk : z % blkSize = 0) :
    fdbInitEx (Kvdb.cleared f z) blkSize =
      ({ Kvdb.cleared f z with maxSize := n * z }, .noErr) := by
  have hz := hgeo.room
  have hn := hgeo.sectors
  have hsec : (Kvdb.cleared f z).secSize = z := rfl
  have hflash : (Kvdb.cleared f z).flash.size = n * z := hsize
  unfold fdbInitEx
  rw [if_neg (show ¬ (Kvdb.cleared f z).initOk = true from Bool.false_ne_true), hsec,
    if_neg (fun hcond => hcond.2 hblk), if_neg (show ¬ z = 0 by omega), hflash]
  dsimp only
  rw [if_neg (by rw [Nat.mul_mod_left]; decide), Nat.mul_div_cancel _ (show 0 < z by omega),
    if_neg (by omega)]
  rfl

/-- `fdb_kvdb_init` after `flash_param_init` has cleared the structure. -/
theorem fdbKvdbInit_spec {f : Flash} {blkSize : Nat} {defaultKvs : List DefaultKv}
    (hgeo : Geometry z n) (hready : f.Ready) (hsize : f.size = n * z) (hblk : z % blkSize = 0)
    (hrest : Resting z n K m st) (hload : Loadable z n st f.img) (hkeys : Keys K)
    (hmem : ∀ kv ∈ defaultKvs, kv.key ∈ K) (hnd : (defaultKvs.map DefaultKv.key).Nodup)
    (rounds : Nat) :
    ∃ m' db', fdbKvdbInit (rounds + 1) (Kvdb.cleared f z) blkSize defaultKvs = some (db', .noErr) ∧
      Serves z n K defaultKvs m' db' ∧ Loaded z n f.img m defaultKvs m' := by
  have hn := hgeo.sectors
  obtain ⟨db0, hdb0⟩ : ∃ db0 : Kvdb, db0 = { Kvdb.cleared f z with
    maxSize := n * z
    gcRequest := false
    inRecoveryCheck := false
    defaultKvs := defaultKvs } := ⟨_, rfl⟩
  have hget : getSectorFromCache db0.sectorCache 0 = some SecInfo.fresh := by
    rw [hdb0]
    rfl
  obtain ⟨db1, hdb1⟩ : ∃ db1, db1 = findOldest db0 := ⟨_, rfl⟩
  have hold := findOldest_zeroed hget
  rw [← hdb1, hdb0] at hold
  have hnone : ∀ info, some info ∉ db1.sectorCache := by
    intro info hmem'
    rw [hold] at hmem'
    obtain ⟨_, -, heq⟩ := List.mem_map.mp hmem'
    exact Option.some_ne_none info heq.symm
  have hstart : Loading z n st f.img 0 db1 :=
    { based :=
        { geo := hgeo
          secSize := by rw [hold]; rfl
          maxSize := by rw [hold]
          size := by rw [hold]; exact hsize
          ready := by rw [hold]; exact hready
          oldest := ⟨0, by omega, by rw [hold, Nat.zero_mul]⟩
          distinct := fun i j u v hu => absurd (List.mem_of_getElem? hu) (hnone u)
          curName := by rw [hold]; rfl }
      formatable := by rw [hold]; rfl
      ok := hrest.ok
      done := fun j hj => absurd hj (Nat.not_lt_zero j)
      rest := fun j _ _ => by rw [hold]; rfl
      cache := fun info hmem' => absurd hmem' (hnone info) }
  have hdefs : db1.defaultKvs = defaultKvs := by rw [hold]
  obtain ⟨m', st', db', hrun, hkept, honly, hloaded⟩ := hstart.fdbKvLoad_spec hrest hload
    (by rw [hold]) (fun P => by rw [hold]; exact kvCacheOk_cleared P _) (by rw [hold])
    (by rw [hold]; rfl) hkeys (by rw [hdefs]; exact hmem) (by rw [hdefs]; exact hnd) rounds
  rw [hdefs] at hloaded
  refine ⟨m', { db' with initOk := true }, ?_, ⟨⟨st', { hkept.holds with
    rep := { hkept.holds.rep with } }, hkept.empty, hkept.tidy⟩, ?_, rfl, ?_⟩, hloaded⟩
  · unfold fdbKvdbInit
    rw [fdbInitEx_cleared hgeo hsize hblk]
    dsimp only
    rw [← hdb0, ← hdb1, hrun]
    rfl
  · rw [honly.eq]
    dsimp only
    rw [hold]
  · rw [honly.eq]
    exact hdefs

end Boot

end Hc32Board.FlashDb
