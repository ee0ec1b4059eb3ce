import Hc32Board.FlashDb.Gc

/-!
# The calls on a map
-/

namespace Hc32Board.FlashDb

open Hc32Board.CodeLib

section Calls

variable {z n i j o : Nat} {K : Set Bytes} {m : Bytes → Option Bytes} {st : Nat → Sec} {db : Kvdb}
  {key value : Bytes}

/-! ## Space -/

/-- `new_kv` has found room in a sector, and there is an empty sector besides. -/
structure Room (z n : Nat) (st : Nat → Sec) (size : Nat) (info : SecInfo) (i : Nat) : Prop where
  lt : i < n
  fits : size + fdbSecRemainThreshold < z - (st i).used
  infoAt : InfoAt z (i * z) (st i) info
  exact : Exact z (i * z) (st i) info
  empty : ∃ e < n, e ≠ i ∧ (st e).store = .empty

/-- A sector that `new_kv` takes without a collection has room: it is in use, or it is
empty and there is another empty one. -/
def HasRoom (z n : Nat) (st : Nat → Sec) (size : Nat) : Prop :=
  ∃ i < n, size + fdbSecRemainThreshold < z - (st i).used ∧
    ((st i).store = .using ∨ (st i).store = .empty ∧ ∃ j < n, j ≠ i ∧ (st j).store = .empty)

theorem Kept.of_gcRequest (h : Kept z n K m st db) (b : Bool) :
    Kept z n K m st { db with gcRequest := b } :=
  ⟨{ h.holds with rep := { h.holds.rep with } }, h.empty, h.tidy⟩

theorem Kept.allocKv_spec (h : Kept z n K m st db) (hgc : db.gcRequest = false) (sector : SecInfo)
    (size : Nat) :
    ∃ db' info r, allocKv db sector size = (db', info, r) ∧ Kept z n K m st db' ∧
      StoreOnly { db with gcRequest := db'.gcRequest } db' ∧
      ((∃ i, r = some (i * z + (st i).used) ∧ Room z n st size info i ∧ db'.gcRequest = false) ∨
        r = none ∧ ¬ HasRoom z n st size ∧ (db'.gcRequest = false → Spare n st)) := by
  obtain ⟨db', info, r, hrun, hrep, hres⟩ := h.holds.rep.allocKv_spec sector size
  refine ⟨db', info, r, hrun, ?_⟩
  cases hres with
  | found i hi hr hfits hinfo hexact honly hstore =>
    refine ⟨h.of_cacheOnly hrep honly, ⟨by rw [honly.eq]⟩,
      .inl ⟨i, hr, ⟨hi, hfits.1, hinfo, hexact, ?_⟩, by rw [honly.eq]; exact hgc⟩⟩
    rcases hstore with husing | ⟨-, hreq | hother⟩
    · obtain ⟨e, he, hempty⟩ := h.empty
      refine ⟨e, he, ?_, hempty⟩
      rintro rfl
      exact absurd (hempty.symm.trans husing) (by decide)
    · exact absurd (hgc.symm.trans hreq) Bool.false_ne_true
    · exact hother
  | failed hr g honly _ husing hempty hspare =>
    refine ⟨(h.of_gcRequest g).of_cacheOnly hrep honly, ⟨by rw [honly.eq]⟩, .inr ⟨hr, ?_, ?_⟩⟩
    · rintro ⟨i, hi, hfits, hst | ⟨hst, j, hj, hji, hst'⟩⟩
      · refine husing i hi hst ?_ hfits
        have hne := (h.tidy i hi).noGc
        have hok := (h.holds.rep.ok i hi).store
        cases hd : (st i).dirty with
        | no => exact .inl rfl
        | yes => exact .inr ⟨rfl, hgc⟩
        | gc => exact absurd hd hne
        | unused => simp [hd, hst] at hok
      · exact hempty i hi j hj (Ne.symm hji) hst hst' hfits
    · intro hfalse
      rw [honly.eq] at hfalse
      obtain ⟨i, hi, hst⟩ := h.empty
      obtain ⟨j, hj, hji, hst'⟩ := hspare hfalse i hi hst
      exact ⟨i, hi, j, hj, Ne.symm hji, hst, ((h.holds.rep.ok j hj).of_empty hst').2⟩

/-- A sector cannot hold the map and a record of this size. -/
def Crowded (z : Nat) (m : Bytes → Option Bytes) (size : Nat) : Prop :=
  ∀ total, Within m total → z ≤ sectorHdrDataSize + total + size + fdbSecRemainThreshold

/-- A clean sector without room is full of live records. -/
theorem Kept.crowded {size : Nat} (h : Kept z n K m st db) (hspare : Spare n st)
    (hfull : ¬ HasRoom z n st size) : Crowded z m size := by
  intro total hwithin
  obtain ⟨i, hi, j, hj, hij, hempty, hclean⟩ := hspare
  have hok := h.holds.rep.ok j hj
  by_contra hlt
  refine hfull ⟨j, hj, ?_⟩
  rcases hok.store with ⟨hst, hrecs, -⟩ | ⟨hst, -⟩
  · refine ⟨?_, .inr ⟨hst, i, hi, hij, hempty⟩⟩
    rw [Sec.used, hrecs, recsLen_nil]
    omega
  · have hle := h.holds.stands.recsLen_le h.holds.rep hj ((h.tidy j hj).clean hclean) hwithin
    refine ⟨?_, .inl hst⟩
    rw [Sec.used]
    omega

/-- `new_kv` collects garbage when there is no room.  It gives up when a sector could
not hold the map with the record. -/
theorem Kept.newKv_spec (h : Kept z n K m st db) (hgc : db.gcRequest = false) (sector : SecInfo)
    (size : Nat) :
    ∃ st' db' info r, newKv db sector size = (db', info, r) ∧ Kept z n K m st' db' ∧
      StoreOnly db db' ∧ (r = none ∧ Crowded z m size ∨
        ∃ i, r = some (i * z + (st' i).used) ∧ Room z n st' size info i) := by
  obtain ⟨db1, info1, r1, hrun1, hkept1, honly1, hres1⟩ := h.allocKv_spec hgc sector size
  unfold newKv
  rw [hrun1]
  rcases hres1 with ⟨i, rfl, hroom, hgc1⟩ | ⟨rfl, hfull1, hspare1⟩
  · rw [hgc1, ← hgc] at honly1
    exact ⟨st, db1, info1, _, rfl, hkept1, honly1, .inr ⟨i, rfl, hroom⟩⟩
  · dsimp only
    cases hgc1 : db1.gcRequest with
    | false =>
      rw [if_neg (by decide)]
      rw [hgc1, ← hgc] at honly1
      exact ⟨st, db1, info1, none, rfl, hkept1, honly1, .inl ⟨rfl, h.crowded (hspare1 hgc1) hfull1⟩⟩
    | true =>
      rw [if_pos rfl]
      obtain ⟨st2, hkept2, hspare2, honly2⟩ := hkept1.gcCollectByFreeSize_spec hgc1 size
      obtain ⟨db3, info3, r3, hrun3, hkept3, honly3, hres3⟩ :=
        hkept2.allocKv_spec (by rw [honly2.eq]) info1 size
      rw [hrun3]
      rcases hres3 with ⟨i, rfl, hroom, hgc3⟩ | ⟨rfl, hfull3, -⟩
      · refine ⟨st2, db3, info3, _, rfl, hkept3, ⟨?_⟩, .inr ⟨i, rfl, hroom⟩⟩
        rw [hgc3, ← hgc] at honly3
        rw [honly3.eq, honly2.eq, honly1.eq]
      · refine ⟨st2, _, info3, none, rfl, hkept3.of_gcRequest false, ⟨?_⟩,
          .inl ⟨rfl, hkept2.crowded hspare2 hfull3⟩⟩
        rw [honly3.eq, honly2.eq, honly1.eq]
        dsimp only
        rw [hgc]

/-! ## A new record and a deleted one -/

/-- A key without a record gets one. -/
theorem Holds.insert {db' : Kvdb} (h : Holds z n K m st db) (hkey : key ∈ K) (hi : i < n)
    (hused : (st i).used < z) (hnone : ∀ a v, ¬ Live z n st a key v)
    (hrep : Rep z n (addRec st i ⟨.write, key, value⟩) db')
    (hcache : db'.kvCache = updateKvCache db.kvCache key (i * z + (st i).used))
    (hflag : db'.lastIsCompleteDel = db.lastIsCompleteDel) :
    Holds z n K (Function.update m key (some value)) (addRec st i ⟨.write, key, value⟩) db' := by
  have hlive : ∀ a k v, Live z n (addRec st i ⟨.write, key, value⟩) a k v ↔ _ := fun a k v =>
    live_addRec hi hused _
  refine ⟨hrep, h.stands.insert hnone hlive, fun a k v hl => ?_, ?_, fun a ha r hr => ?_,
    hflag.trans h.completeDel⟩
  · rcases (hlive a k v).mp hl with ⟨-, hrec⟩ | hold
    · obtain rfl : key = k := congrArg Rec.name hrec
      exact hkey
    · exact h.keys a k v hold
  · rw [hcache]
    refine h.cache.update ?_ ⟨key, value, (hlive _ _ _).mpr (.inl ⟨rfl, rfl⟩), rfl⟩
    rintro crc a - ⟨k, v, hl, hcrc⟩
    exact ⟨k, v, (hlive a k v).mpr (.inr hl), hcrc⟩
  · rw [storeRecAt_addRec hused] at hr
    split_ifs at hr
    · obtain rfl := Option.some.inj hr
      exact KvStatus.noConfusion
    · exact h.noPreDelete a ha r hr

/-- The record of a key is deleted. -/
theorem Holds.erase {db' : Kvdb} (h : Holds z n K m st db) (ho : sectorHdrDataSize + o < z)
    (hlive : Live z n st (j * z + (sectorHdrDataSize + o)) key value)
    (hrep : Rep z n (markRec st j o .deleted) db')
    (hcache : db'.kvCache = deleteKvCache db.kvCache key) (hflag : db'.lastIsCompleteDel = false) :
    Holds z n K (Function.update m key none) (markRec st j o .deleted) db' := by
  have heq : ∀ a k v, Live z n (markRec st j o .deleted) a k v ↔ _ := fun a k v =>
    live_markRec ho (by decide)
  refine ⟨hrep, h.stands.erase hlive heq, fun a k v hl => h.keys a k v ((heq a k v).mp hl).1, ?_,
    fun a ha r hr => ?_, hflag⟩
  · rw [hcache]
    refine h.cache.delete ?_
    rintro crc a hcrc ⟨k, v, hl, rfl⟩
    refine ⟨k, v, (heq a k v).mpr ⟨hl, ?_⟩, rfl⟩
    rintro rfl
    have hname : k = key := congrArg Rec.name (Option.some.inj (hl.2.symm.trans hlive.2))
    exact hcrc (by rw [hname])
  · rw [storeRecAt_markRec ho] at hr
    split_ifs at hr
    · obtain ⟨r', -, rfl⟩ := Option.map_eq_some_iff.mp hr
      exact KvStatus.noConfusion
    · exact h.noPreDelete a ha r hr

/-! ## The sectors besides their records -/

theorem DirtyStatus.mark_ne_no (d : DirtyStatus) : d.mark ≠ .no := by
  cases d <;> decide

theorem DirtyStatus.mark_ne_gc {d : DirtyStatus} (h : d ≠ .gc) : d.mark ≠ .gc := by
  revert h
  cases d <;> decide

theorem tidy_markRec (h : ∀ i < n, (st i).Tidy) (j o : Nat) (t : KvStatus) :
    ∀ i < n, (markRec st j o t i).Tidy := by
  intro i hi
  rcases eq_or_ne i j with rfl | hne
  · rw [markRec, Function.update_self]
    exact ⟨DirtyStatus.mark_ne_gc (h i hi).noGc, fun hno => absurd hno (DirtyStatus.mark_ne_no _)⟩
  · rw [markRec_of_ne hne]
    exact h i hi

theorem tidy_addRec (h : ∀ i < n, (st i).Tidy) (j : Nat) {r : Rec} (hr : r.status = .write) :
    ∀ i < n, (addRec st j r i).Tidy := by
  intro i hi
  rcases eq_or_ne i j with rfl | hne
  · rw [addRec, Function.update_self]
    exact (h i hi).append hr
  · rw [addRec, Function.update_of_ne hne]
    exact h i hi

theorem store_markRec (t : KvStatus) : (markRec st j o t i).store = (st i).store := by
  rcases eq_or_ne i j with rfl | hne
  · rw [markRec, Function.update_self]
    rfl
  · rw [markRec_of_ne hne]

theorem addRec_of_ne {e : Nat} (hne : e ≠ i) (r : Rec) : addRec st i r e = st e :=
  Function.update_of_ne hne _ _

/-- A record stays where it is when another one is added. -/
theorem recAt_addRec {r r' : Rec} (h : recAt (st j).recs o = some r) :
    recAt (addRec st i r' j).recs o = some r := by
  rcases eq_or_ne j i with rfl | hne
  · have hlt := recAt_lt h
    have hpos := r.len_pos
    rw [addRec, Function.update_self]
    exact (recAt_concat _ _ _).trans (by rw [if_neg (by omega), h])
  · rw [addRec_of_ne hne]
    exact h

/-! ## `fdb_kv_set_blob` -/

/-- The sector and the offset of a live record. -/
theorem Rep.located {a : Nat} (h : Rep z n st db) (hlive : Live z n st a key value) :
    ∃ j < n, ∃ o, a = j * z + (sectorHdrDataSize + o) ∧ sectorHdrDataSize + o < z ∧
      recAt (st j).recs o = some ⟨.write, key, value⟩ := by
  obtain ⟨j, hj, pre, post, hrecs, rfl⟩ := exists_of_storeRecAt hlive.1 hlive.2
  have hrec : recAt (st j).recs (recsLen pre) = some ⟨.write, key, value⟩ := by
    rw [hrecs]
    exact recAt_append_cons pre post _
  have hroom := h.recAt_room hj hrec
  exact ⟨j, hj, recsLen pre, rfl, by omega, hrec⟩

/-- `create_kv_blob` writes into the sector that it gets. -/
theorem Rep.createKvBlob_eq {info : SecInfo} (h : Rep z n st db) (hlt : key.length < fdbKvNameMax)
    (hexact : Exact z (i * z) (st i) info)
    (hroom : kvHdrDataSize + key.length + value.length + fdbSecRemainThreshold < z - (st i).used) :
    createKvBlob db info key value =
      ((writeKv db info (i * z + (st i).used) key value).1, info,
        (writeKv db info (i * z + (st i).used) key value).2) := by
  unfold createKvBlob
  dsimp only
  rw [if_neg (by omega), if_neg (by rw [h.secSize, Sec.used] at *; omega), hexact.1]

/-- A record for a key that has none. -/
theorem Kept.writeKv_spec {info : SecInfo} (h : Kept z n K m st db) (hkeys : Keys K)
    (hkey : key ∈ K) (hroom : Room z n st (kvHdrDataSize + key.length + value.length) info i)
    (hnone : ∀ a v, ¬ Live z n st a key v) :
    ∃ db', writeKv db info (i * z + (st i).used) key value = (db', .noErr) ∧
      Kept z n K (Function.update m key (some value)) (addRec st i ⟨.write, key, value⟩) db' ∧
      StoreOnly db db' := by
  have hfits := hroom.fits
  obtain ⟨db', hrun, hrep, honly⟩ := h.holds.rep.writeKv_spec hroom.lt hroom.infoAt.addr
    hroom.infoAt.store hroom.exact (hkeys.length_lt key hkey) (hkeys.no_nul key hkey) hfits
  refine ⟨db', hrun, ⟨h.holds.insert hkey hroom.lt (by omega) hnone hrep (by rw [honly.eq])
    (by rw [honly.eq]), ?_, tidy_addRec h.tidy i rfl⟩, ⟨by rw [honly.eq]⟩⟩
  obtain ⟨e, he, hne, hempty⟩ := hroom.empty
  exact ⟨e, he, by rw [addRec_of_ne hne]; exact hempty⟩

theorem Kept.createKvBlob_spec {info : SecInfo} (h : Kept z n K m st db) (hkeys : Keys K)
    (hkey : key ∈ K) (hroom : Room z n st (kvHdrDataSize + key.length + value.length) info i)
    (hnone : ∀ a v, ¬ Live z n st a key v) :
    ∃ db', createKvBlob db info key value = (db', info, .noErr) ∧
      Kept z n K (Function.update m key (some value)) (addRec st i ⟨.write, key, value⟩) db' ∧
      StoreOnly db db' := by
  obtain ⟨db', hrun, hkept, honly⟩ := h.writeKv_spec hkeys hkey hroom hnone
  refine ⟨db', ?_, hkept, honly⟩
  rw [h.holds.rep.createKvBlob_eq (hkeys.length_lt key hkey) hroom.exact hroom.fits, hrun]

/-- The three steps of `set_kv` for a key that has a record. -/
theorem Kept.replaceKv_spec {info : SecInfo} {kv : Kv} {value' : Bytes} (h : Kept z n K m st db)
    (hkeys : Keys K) (hkey : key ∈ K)
    (hroom : Room z n st (kvHdrDataSize + key.length + value'.length) info i) (hj : j < n)
    (ho : sectorHdrDataSize + o < z) (hrec : recAt (st j).recs o = some ⟨.write, key, value⟩)
    (hstart : kv.start = j * z + (sectorHdrDataSize + o)) :
    ∃ st' db1 db2 db3, delKvObj db key kv false = (db1, .noErr) ∧
      createKvBlob db1 info key value' = (db2, info, .noErr) ∧
      delKvObj db2 key kv true = (db3, .noErr) ∧
      Kept z n K (Function.update m key (some value')) st' db3 ∧ StoreOnly db db3 := by
  have hfits := hroom.fits
  have hend := sector_end_le (z := z) hj
  have hlive : Live z n st (j * z + (sectorHdrDataSize + o)) key value :=
    ⟨by omega, (storeRecAt_sector ho).trans hrec⟩
  obtain ⟨db1, hdel1, hrep1, honly1⟩ := h.holds.rep.delKvObj_preDelete hj hrec rfl key hstart
  have hexact : Exact z (i * z) (markRec st j o .preDelete i) info := by
    rw [Exact, used_markRec]
    exact hroom.exact
  have hused : (markRec st j o .preDelete i).used = (st i).used := used_markRec _
  rw [← hused] at hfits
  have hlt := hkeys.length_lt key hkey
  obtain ⟨db2, hwrite, hrep2, honly2⟩ := hrep1.writeKv_spec hroom.lt hroom.infoAt.addr
    (hroom.infoAt.store.trans (store_markRec _).symm) hexact hlt (hkeys.no_nul key hkey) hfits
  have hcreate := hrep1.createKvBlob_eq hlt hexact hfits
  rw [hwrite] at hcreate
  rw [hused] at honly2 hfits
  have hrec1 : recAt (markRec st j o .preDelete j).recs o = some ⟨.preDelete, key, value⟩ := by
    rw [markRec, Function.update_self]
    exact (recAt_setStatusAt _ _ _ _).trans (by rw [if_pos rfl, hrec]; rfl)
  obtain ⟨db3, hdel3, hrep3, honly3⟩ := hrep2.delKvObj_deleted hj (recAt_addRec hrec1) key hstart
  have hflag2 : db2.lastIsCompleteDel = true := by rw [honly2.eq, honly1.eq]
  rw [hflag2, if_neg (by decide)] at honly3
  refine ⟨replaceRec st j o i ⟨.write, key, value'⟩, db1, db2, db3, hdel1, hcreate, hdel3,
    ⟨?_, ?_, ?_⟩, ⟨?_⟩⟩
  · exact h.holds.replace hroom.lt (by omega) ho hlive hrep3
      (by rw [honly3.eq, honly2.eq, honly1.eq]) (by rw [honly3.eq])
  · obtain ⟨e, he, hne, hempty⟩ := hroom.empty
    exact ⟨e, he, by
      rw [replaceRec, store_markRec, addRec_of_ne hne, store_markRec]
      exact hempty⟩
  · exact tidy_markRec (tidy_addRec (tidy_markRec h.tidy j o .preDelete) i rfl) j o .deleted
  · rw [honly3.eq, honly2.eq, honly1.eq]
    dsimp only
    rw [h.holds.completeDel]

/-- What `set_kv` leaves. -/
structure SetOnly (db db' : Kvdb) : Prop where
  eq : db' = { db with
    flash := db'.flash
    sectorCache := db'.sectorCache
    kvCache := db'.kvCache
    oldestAddr := db'.oldestAddr
    curKv := db'.curKv
    curSector := db'.curSector }

/-- `set_kv` stores the value.  When there is no room for it, the map stays. -/
theorem Kept.setKvValue_spec (h : Kept z n K m st db) (hgc : db.gcRequest = false) (hkeys : Keys K)
    (hkey : key ∈ K) (value : Bytes) :
    ∃ st' db' err, setKvValue db key value = (db', err) ∧ SetOnly db db' ∧
      (err = .noErr ∧ Kept z n K (Function.update m key (some value)) st' db' ∨
        err = .savedFull ∧ Kept z n K m st' db' ∧
          Crowded z m (kvHdrDataSize + key.length + value.length)) := by
  obtain ⟨st1, db1, info, r, hnew, hkept1, honly1, hres⟩ := h.newKv_spec hgc db.curSector
    (kvHdrDataSize + key.length + value.length)
  have hcur : ∀ {m' st' db'} (kv : Kv), kv.name.length = fdbKvNameMax → Kept z n K m' st' db' →
      Kept z n K m' st' { db' with curKv := kv, curSector := info } := fun kv hkv hkept =>
    ⟨{ hkept.holds with rep := { hkept.holds.rep with curName := hkv } }, hkept.empty, hkept.tidy⟩
  unfold setKvValue
  dsimp only
  rw [hnew]
  rcases hres with ⟨rfl, hfull⟩ | ⟨i, rfl, hroom⟩
  · exact ⟨st1, _, _, rfl, ⟨by rw [honly1.eq]⟩,
      .inr ⟨rfl, hcur _ hkept1.holds.rep.curName hkept1, hfull⟩⟩
  · obtain ⟨db2, kv, found, hfind, hrep2, honly2, hcache2, hname, hcase⟩ :=
      hkept1.holds.rep.findKv_spec hkeys hkey hkept1.holds.keys hkept1.holds.cache db1.curKv
        hkept1.holds.rep.curName
    have hkept2 : Kept z n K m st1 db2 :=
      ⟨⟨hrep2, hkept1.holds.stands, hkept1.holds.keys, hcache2, hkept1.holds.noPreDelete,
        by rw [honly2.eq]; exact hkept1.holds.completeDel⟩, hkept1.empty, hkept1.tidy⟩
    dsimp only
    rw [hfind]
    rcases hcase with ⟨rfl, a, old, hlive, hshows⟩ | ⟨rfl, hnone⟩
    · obtain ⟨j, hj, o, rfl, ho, hrec⟩ := hrep2.located hlive
      obtain ⟨st', db3, db4, db5, hdel1, hcreate, hdel2, hkept5, honly5⟩ :=
        hkept2.replaceKv_spec hkeys hkey hroom hj ho hrec hshows.start
      have hgc5 : ¬ db5.gcRequest = true := by
        rw [honly5.eq, honly2.eq, honly1.eq]
        exact fun htrue => Bool.false_ne_true (hgc.symm.trans htrue)
      simp only [hdel1, hcreate, hdel2, if_true, and_self]
      rw [if_neg hgc5]
      exact ⟨st', _, _, rfl, ⟨by rw [honly5.eq, honly2.eq, honly1.eq]⟩,
        .inl ⟨rfl, hcur _ hname hkept5⟩⟩
    · obtain ⟨db3, hcreate, hkept3, honly3⟩ := hkept2.createKvBlob_spec hkeys hkey hroom hnone
      have hgc3 : ¬ db3.gcRequest = true := by
        rw [honly3.eq, honly2.eq, honly1.eq]
        exact fun htrue => Bool.false_ne_true (hgc.symm.trans htrue)
      simp only [Bool.false_eq_true, if_false, if_true, hcreate, false_and]
      rw [if_neg hgc3]
      exact ⟨_, _, _, rfl, ⟨by rw [honly3.eq, honly2.eq, honly1.eq]⟩,
        .inl ⟨rfl, hcur _ hname hkept3⟩⟩

/-! ## `fdb_kv_del` and `fdb_kv_get_blob` -/

/-- `del_kv` deletes the record of a key. -/
theorem Kept.delKv_spec (h : Kept z n K m st db) (hkeys : Keys K) (hkey : key ∈ K) :
    ∃ st' db' err, delKv db key true = (db', err) ∧ StoreOnly db db' ∧
      (err = .noErr ∧ m key ≠ none ∧ Kept z n K (Function.update m key none) st' db' ∨
        err = .kvNameErr ∧ m key = none ∧ Kept z n K m st' db') := by
  obtain ⟨db1, kv, found, hfind, hrep1, honly1, hcache1, -, hcase⟩ :=
    h.holds.rep.findKv_spec hkeys hkey h.holds.keys h.holds.cache Kv.fresh rfl
  have hkept1 : Kept z n K m st db1 :=
    ⟨⟨hrep1, h.holds.stands, h.holds.keys, hcache1, h.holds.noPreDelete,
      by rw [honly1.eq]; exact h.holds.completeDel⟩, h.empty, h.tidy⟩
  unfold delKv
  rw [hfind]
  rcases hcase with ⟨rfl, a, value, hlive, hshows⟩ | ⟨rfl, hnone⟩
  · obtain ⟨j, hj, o, rfl, ho, hrec⟩ := hrep1.located hlive
    obtain ⟨db2, hdel, hrep2, honly2⟩ := hrep1.delKvObj_deleted hj hrec key hshows.start
    rw [hkept1.holds.completeDel, if_pos rfl] at honly2
    refine ⟨_, db2, _, hdel, ⟨?_⟩, .inl ⟨rfl, ?_, hkept1.holds.erase ho hlive hrep2
      (by rw [honly2.eq]) (by rw [honly2.eq]), ?_, tidy_markRec h.tidy j o .deleted⟩⟩
    · rw [honly2.eq, honly1.eq]
      dsimp only
      rw [h.holds.completeDel]
    · rw [(h.holds.stands.holds key value).mpr ⟨_, hlive⟩]
      exact Option.some_ne_none _
    · obtain ⟨e, he, hempty⟩ := h.empty
      exact ⟨e, he, by rw [store_markRec]; exact hempty⟩
  · exact ⟨st, db1, _, rfl, ⟨by rw [honly1.eq]⟩, .inr ⟨rfl, h.holds.stands.eq_none hnone, hkept1⟩⟩

/-- `get_kv` reads what the map has. -/
theorem Kept.getKv_spec (h : Kept z n K m st db) (hkeys : Keys K) (hkey : key ∈ K) (buf : Bytes) :
    ∃ db', StoreOnly db db' ∧ Kept z n K m st db' ∧
      getKv db key buf = (db', overlay (((m key).getD []).take buf.length) buf,
        min ((m key).getD []).length buf.length, ((m key).getD []).length) := by
  obtain ⟨db', buf', readLen, valueLen, hrun, hrep, honly, hcache, hcase⟩ :=
    h.holds.rep.getKv_spec hkeys hkey h.holds.keys h.holds.cache buf
  refine ⟨db', ⟨by rw [honly.eq]⟩,
    ⟨⟨hrep, h.holds.stands, h.holds.keys, hcache, h.holds.noPreDelete,
    by rw [honly.eq]; exact h.holds.completeDel⟩, h.empty, h.tidy⟩, ?_⟩
  rw [hrun]
  rcases hcase with ⟨a, value, hlive, rfl, rfl, rfl⟩ | ⟨hnone, rfl, rfl, rfl⟩
  · rw [(h.holds.stands.holds key value).mpr ⟨a, hlive⟩]
    rfl
  · rw [h.holds.stands.eq_none hnone]
    simp [overlay]

end Calls

end Hc32Board.FlashDb
