import Hc32Board.FlashDb.Contents

/-!
# Garbage collection
-/

namespace Hc32Board.FlashDb

open Hc32Board.CodeLib

/-- The database holds the map. -/
structure Holds (z n : Nat) (K : Set Bytes) (m : Bytes → Option Bytes) (st : Nat → Sec)
    (db : Kvdb) : Prop where
  rep : Rep z n st db
  stands : Stands z n st m
  keys : ∀ a key value, Live z n st a key value → key ∈ K
  cache : KvCacheOk (LiveCrc z n st) db.kvCache
  noPreDelete : ∀ a < n * z, ∀ r, storeRecAt z st a = some r → r.status ≠ .preDelete
  completeDel : db.lastIsCompleteDel = false

section Gc

variable {z n i j o : Nat} {K : Set Bytes} {m : Bytes → Option Bytes} {st : Nat → Sec} {db : Kvdb}
  {key value : Bytes}

/-- The KV cache when the record of a key has given way to another one. -/
theorem Holds.cache_replace {value' : Bytes} (h : Holds z n K m st db) (hi : i < n)
    (hused : (st i).used < z) (ho : sectorHdrDataSize + o < z)
    (hlive : Live z n st (j * z + (sectorHdrDataSize + o)) key value) :
    KvCacheOk (LiveCrc z n (replaceRec st j o i ⟨.write, key, value'⟩))
      (updateKvCache db.kvCache key (i * z + (st i).used)) := by
  have hold : storeRecAt z st (j * z + (sectorHdrDataSize + o)) ≠ none := by
    rw [hlive.2]
    exact Option.some_ne_none _
  have heq : ∀ a k v, Live z n (replaceRec st j o i ⟨.write, key, value'⟩) a k v ↔ _ := fun a k v =>
    live_replaceRec hi hused ho hold _
  refine h.cache.update ?_ ⟨key, value', (heq _ _ _).mpr (.inl ⟨rfl, rfl⟩), rfl⟩
  rintro crc a hcrc ⟨k, v, hl, rfl⟩
  refine ⟨k, v, (heq a k v).mpr (.inr ⟨hl, ?_⟩), rfl⟩
  rintro rfl
  have hname : k = key := congrArg Rec.name (Option.some.inj (hl.2.symm.trans hlive.2))
  exact hcrc (by rw [hname])

/-- The record of a key has given way to another one. -/
theorem Holds.replace {value' : Bytes} {db' : Kvdb} (h : Holds z n K m st db) (hi : i < n)
    (hused : (st i).used < z) (ho : sectorHdrDataSize + o < z)
    (hlive : Live z n st (j * z + (sectorHdrDataSize + o)) key value)
    (hrep : Rep z n (replaceRec st j o i ⟨.write, key, value'⟩) db')
    (hcache : db'.kvCache = updateKvCache db.kvCache key (i * z + (st i).used))
    (hflag : db'.lastIsCompleteDel = false) :
    Holds z n K (Function.update m key (some value')) (replaceRec st j o i ⟨.write, key, value'⟩)
      db' where
  rep := hrep
  stands := h.stands.replace hi hused ho hlive
  keys a k v hl := by
    have hold : storeRecAt z st (j * z + (sectorHdrDataSize + o)) ≠ none := by
      rw [hlive.2]
      exact Option.some_ne_none _
    rcases (live_replaceRec hi hused ho hold _).mp hl with ⟨-, hrec⟩ | ⟨hl, -⟩
    · obtain rfl : key = k := congrArg Rec.name hrec
      exact h.keys _ _ _ hlive
    · exact h.keys a k v hl
  cache := by
    rw [hcache]
    exact h.cache_replace hi hused ho hlive
  noPreDelete a ha r hr := by
    rw [replaceRec, storeRecAt_markRec ho, storeRecAt_addRec (by rw [used_markRec]; exact hused),
      storeRecAt_markRec ho] at hr
    split_ifs at hr with hold hnew
    · obtain ⟨r', -, rfl⟩ := Option.map_eq_some_iff.mp hr
      exact KvStatus.noConfusion
    · obtain ⟨r', -, rfl⟩ := Option.map_eq_some_iff.mp hr
      exact KvStatus.noConfusion
    · obtain rfl := Option.some.inj hr
      exact KvStatus.noConfusion
    · exact h.noPreDelete a ha r hr
  completeDel := hflag

/-- What a function leaves when it has changed the flash, the caches and the oldest
sector only. -/
structure StoreOnly (db db' : Kvdb) : Prop where
  eq : db' = { db with
    flash := db'.flash
    sectorCache := db'.sectorCache
    kvCache := db'.kvCache
    oldestAddr := db'.oldestAddr }

theorem StoreOnly.refl (db : Kvdb) : StoreOnly db db := ⟨rfl⟩

theorem StoreOnly.trans {db db' db'' : Kvdb} (h : StoreOnly db db') (h' : StoreOnly db' db'') :
    StoreOnly db db'' := by
  refine ⟨?_⟩
  rw [h'.eq, h.eq]

/-- `move_kv` in a garbage collection.  A sector that is not dirty has room for the
record. -/
theorem Holds.moveKv_spec (h : Holds z n K m st db) (hgc : db.gcRequest = true) (hj : j < n)
    (hrec : recAt (st j).recs o = some ⟨.write, key, value⟩) {kv : Kv}
    (hshows : KvShows ⟨.write, key, value⟩ (j * z + (sectorHdrDataSize + o)) kv)
    (hdirty : (st j).dirty ≠ .no)
    (hfree : ∃ e < n, (st e).dirty = .no ∧
      Rec.len ⟨.write, key, value⟩ + fdbSecRemainThreshold < z - (st e).used) :
    ∃ i db', i < n ∧ i ≠ j ∧ moveKv db kv = (db', .noErr) ∧
      Holds z n K m (replaceRec st j o i ⟨.write, key, value⟩) db' ∧ StoreOnly db db' := by
  have hroom := h.rep.recAt_room hj hrec
  have hpos := Rec.len_pos ⟨.write, key, value⟩
  have hname : kv.name.take kv.nameLen = key := by
    rw [hshows.nameLen]
    exact hshows.name
  have hlive : Live z n st (j * z + (sectorHdrDataSize + o)) key value := by
    have hend := sector_end_le (z := z) hj
    exact ⟨by omega, (storeRecAt_sector (by omega)).trans hrec⟩
  -- the old record is marked
  obtain ⟨db1, hdel1, hrep1, honly1⟩ := h.rep.delKvObj_preDelete hj hrec rfl key hshows.start
  have hgc1 : db1.gcRequest = true := by rw [honly1.eq]; exact hgc
  obtain ⟨db2, info, r, halloc, hrep2, hres⟩ := hrep1.allocKv_spec SecInfo.fresh kv.len
  cases hres with
  | failed hr g _ hnone _ _ _ =>
    obtain ⟨e, he, hclean, hfits⟩ := hfree
    have hej : e ≠ j := by
      rintro rfl
      exact hdirty hclean
    have hsame : markRec st j o .preDelete e = st e := Function.update_of_ne hej _ _
    have hno := (hnone hgc1).2 e he (by rw [hsame]; exact hclean)
    rw [hsame, hshows.len] at hno
    exact absurd hfits hno
  | found i hi hr hfits hinfo hexact honly2 _ =>
    obtain ⟨hfits, hclean⟩ := hfits
    -- the sector is clean, so it is another one
    have hij : i ≠ j := by
      rintro rfl
      rw [markRec, Function.update_self, hgc1] at hclean
      rcases hclean with hno | hfalse
      · have hmark : (st i).dirty.mark = (st i).dirty := if_neg hdirty
        exact hdirty (hmark.symm.trans hno)
      · exact Bool.false_ne_true hfalse.symm
    have hsame : markRec st j o .preDelete i = st i := Function.update_of_ne hij _ _
    have hrec1 : recAt (markRec st j o .preDelete j).recs o = some ⟨.preDelete, key, value⟩ := by
      rw [markRec, Function.update_self]
      exact (recAt_setStatusAt _ _ _ _).trans (by rw [if_pos rfl, hrec]; rfl)
    rw [hsame] at hr hfits hexact hinfo
    obtain ⟨db3, hcopy, hrep3, honly3⟩ := hrep2.copyKv_spec hj hrec1 hshows hi hij hinfo.addr
      (by rw [hsame]; exact hinfo.store) (by rw [hsame]; exact hexact)
      (by rw [hsame]; exact hshows.len ▸ hfits)
    rw [hsame] at hcopy honly3
    have hrec3 : recAt (addRec (markRec st j o .preDelete) i ⟨.write, key, value⟩ j).recs o =
        some ⟨.preDelete, key, value⟩ := by
      rw [addRec, Function.update_of_ne (Ne.symm hij)]
      exact hrec1
    obtain ⟨db4, hdel2, hrep4, honly4⟩ := hrep3.delKvObj_deleted hj hrec3 key hshows.start
    have hflag3 : db3.lastIsCompleteDel = true := by
      rw [honly3.eq, honly2.eq, honly1.eq]
    rw [hflag3, if_neg (by decide)] at honly4
    have hcache3 : db3.kvCache = updateKvCache db.kvCache key (i * z + (st i).used) := by
      rw [honly3.eq, honly2.eq, honly1.eq]
    have hmove : moveKv db kv = (db4, .noErr) := by
      simp only [moveKv, hname, hshows.status, hdel1, halloc, hr, if_true, reduceCtorEq, and_false,
        if_false, hcopy, hdel2, Bool.false_eq_true]
    have hmap : Function.update m key (some value) = m :=
      Function.update_eq_self_iff.mpr ((h.stands.holds key value).mpr ⟨_, hlive⟩).symm
    refine ⟨i, db4, hi, hij, hmove, ?_, ⟨?_⟩⟩
    · rw [← hmap]
      refine h.replace hi (by omega) (by omega) hlive hrep4 ?_ (by rw [honly4.eq])
      rw [honly4.eq]
      exact hcache3
    · rw [honly4.eq, honly3.eq, honly2.eq, honly1.eq]
      dsimp only
      rw [h.completeDel]

/-! ## The loop over a sector -/

theorem DirtyStatus.mark_of_ne {d : DirtyStatus} (h : d ≠ .no) : d.mark = d := if_neg h

theorem markRec_of_ne {x : Nat} (h : x ≠ j) (t : KvStatus) : markRec st j o t x = st x :=
  Function.update_of_ne h _ _

/-- The sector that loses a record, when it is dirty already. -/
theorem replaceRec_self (hij : i ≠ j) (hdirty : (st j).dirty ≠ .no) (r : Rec) :
    replaceRec st j o i r j =
      { st j with recs := setStatusAt (setStatusAt (st j).recs o .preDelete) o .deleted } := by
  have hadd : addRec (markRec st j o .preDelete) i r j = (st j).withStatus o .preDelete := by
    rw [addRec, Function.update_of_ne (Ne.symm hij), markRec, Function.update_self,
      DirtyStatus.mark_of_ne hdirty]
    rfl
  have hdirty' : ((st j).withStatus o .preDelete).dirty ≠ .no := hdirty
  rw [replaceRec, markRec, Function.update_self, hadd, DirtyStatus.mark_of_ne hdirty']
  rfl

/-- The other sectors.  One of them gets the record. -/
theorem replaceRec_of_ne {x : Nat} (hx : x ≠ j) (hij : i ≠ j) (r : Rec) :
    replaceRec st j o i r x =
      if x = i then { st i with store := .using, recs := (st i).recs ++ [r] } else st x := by
  rw [replaceRec, markRec_of_ne hx, addRec]
  split_ifs with hxi
  · rw [hxi, Function.update_self, markRec_of_ne hij]
  · rw [Function.update_of_ne hxi, markRec_of_ne hx]

/-- No collection of the sector was interrupted, and a sector that is not dirty has
live records only. -/
structure Sec.Tidy (s : Sec) : Prop where
  noGc : s.dirty ≠ .gc
  clean : s.dirty = .no → ∀ r ∈ s.recs, r.status = .write

theorem Sec.Tidy.append {s : Sec} (h : s.Tidy) {r : Rec} (hr : r.status = .write) :
    Sec.Tidy { s with store := .using, recs := s.recs ++ [r] } := by
  refine ⟨h.noGc, fun hno r' hr' => ?_⟩
  rcases List.mem_append.mp hr' with hmem | hmem
  · exact h.clean hno r' hmem
  · rw [List.mem_singleton.mp hmem]
    exact hr

theorem Sec.Tidy.blank : Sec.blank.Tidy :=
  ⟨DirtyStatus.noConfusion, fun _ _ hr => absurd hr List.not_mem_nil⟩

/-- `do_gc` has passed the records `pre` of the sector `j`.  A sector that is not dirty
holds at most what was in these records. -/
structure Collecting (z n : Nat) (K : Set Bytes) (m : Bytes → Option Bytes) (j : Nat)
    (pre post : List Rec) (st : Nat → Sec) (db : Kvdb) : Prop where
  holds : Holds z n K m st db
  gcRequest : db.gcRequest = true
  recs : (st j).recs = pre ++ post
  dead : ∀ r ∈ pre, r.status = .deleted
  dirty : (st j).dirty ≠ .no
  free : ∃ e < n, (st e).dirty = .no ∧ (st e).used ≤ sectorHdrDataSize + recsLen pre
  other : ∀ i < n, i ≠ j → (st i).Tidy

/-- The body of the loop. -/
theorem Collecting.step {pre post : List Rec} {r : Rec}
    (h : Collecting z n K m j pre (r :: post) st db)
    (hj : j < n) {kv : Kv} (hshows : KvShows r (j * z + (sectorHdrDataSize + recsLen pre)) kv) :
    ∃ st' db', (if kv.crcIsOk = true ∧ (kv.status = .write ∨ kv.status = .preDelete) then
        (moveKv db kv).1 else db) = db' ∧ StoreOnly db db' ∧
      Collecting z n K m j (pre ++ [{ r with status := .deleted }]) post st' db' := by
  have hend := sector_end_le (z := z) hj
  have hok := h.holds.rep.ok j hj
  have hroom := hok.room
  rw [Sec.used, h.recs, recsLen_append, recsLen_cons] at hroom
  have hr := hok.recs r (by rw [h.recs]; simp)
  have hpos := r.len_pos
  have hstatus : r.status = .write ∨ r.status = .deleted := by
    have hne := h.holds.noPreDelete _ (by omega) r (storeRecAt_record h.recs (by omega))
    rcases hr.status with hw | hp | hd
    · exact .inl hw
    · exact absurd hp hne
    · exact .inr hd
  obtain ⟨e, he, hclean, hused⟩ := h.free
  have hgrown : recsLen (pre ++ [{ r with status := .deleted }]) = recsLen pre + r.len := by
    rw [recsLen_append, recsLen_cons, recsLen_nil]
    rfl
  have hdead : ∀ r' ∈ pre ++ [{ r with status := .deleted }], r'.status = .deleted := by
    intro r' hr'
    rcases List.mem_append.mp hr' with hmem | hmem
    · exact h.dead r' hmem
    · rw [List.mem_singleton.mp hmem]
  rcases hstatus with hst | hst
  · -- the record is moved
    obtain ⟨status, name, value⟩ := r
    obtain rfl : status = .write := hst
    have hrec : recAt (st j).recs (recsLen pre) = some ⟨.write, name, value⟩ := by
      rw [h.recs]
      exact recAt_append_cons pre post _
    obtain ⟨i, db', hi, hij, hmove, hholds, honly⟩ := h.holds.moveKv_spec h.gcRequest hj hrec hshows
      h.dirty ⟨e, he, hclean, by omega⟩
    rw [if_pos ⟨hshows.crcIsOk, .inl hshows.status⟩, hmove]
    have hself := @replaceRec_self i j (recsLen pre) st hij h.dirty ⟨.write, name, value⟩
    refine ⟨_, db', rfl, honly, hholds, by rw [honly.eq]; exact h.gcRequest, ?_, hdead, ?_, ?_, ?_⟩
    · rw [hself, h.recs]
      dsimp only
      rw [setStatusAt_append_cons, setStatusAt_append_cons, List.append_assoc]
      rfl
    · rw [hself]
      exact h.dirty
    · have hej : e ≠ j := by
        rintro rfl
        exact h.dirty hclean
      refine ⟨e, he, ?_, ?_⟩
      · rw [replaceRec_of_ne hej hij]
        split_ifs with hei
        · rw [hei] at hclean
          exact hclean
        · exact hclean
      · rw [replaceRec_of_ne hej hij, hgrown]
        split_ifs with hei
        · rw [Sec.used_append, ← hei]
          omega
        · omega
    · intro x hx hxj
      rw [replaceRec_of_ne hxj hij]
      split_ifs with hxi
      · exact (h.other i hi hij).append rfl
      · exact h.other x hx hxj
  · -- the record was deleted before
    have hsame : { r with status := .deleted } = r := by rw [← hst]
    rw [if_neg (by rw [hshows.status, hst]; simp), hsame]
    rw [hsame] at hdead hgrown
    refine ⟨st, db, rfl, .refl db, h.holds, h.gcRequest, ?_, hdead, h.dirty, ?_, h.other⟩
    · rw [h.recs, List.append_assoc]
      rfl
    · exact ⟨e, he, hclean, by omega⟩

/-- One round of the loop. -/
theorem Collecting.gcLoop_succ {pre post : List Rec} {r : Rec}
    (h : Collecting z n K m j pre (r :: post) st db) {info : SecInfo} (hj : j < n)
    (hstore : info.store = .using) (haddr : info.addr = j * z) {kv : Kv}
    (hstart : kv.start = j * z + (sectorHdrDataSize + recsLen pre))
    (hname : kv.name.length = fdbKvNameMax) (fuel : Nat) :
    ∃ pre' st' db' kv', Collecting z n K m j pre' post st' db' ∧ StoreOnly db db' ∧
      kv'.start = j * z + (sectorHdrDataSize + recsLen pre') ∧ kv'.name.length = fdbKvNameMax ∧
      gcLoop info (fuel + 1) db kv = if post = [] then db' else gcLoop info fuel db' kv' := by
  obtain ⟨kv1, hread, hshows⟩ := h.holds.rep.readKv_spec hj h.recs hstart hname
  rw [hstart] at hshows
  obtain ⟨st', db', hbody, honly, hstep⟩ := h.step hj hshows
  have hrecs : (st' j).recs = pre ++ { r with status := .deleted } :: post := by
    rw [hstep.recs, List.append_assoc]
    rfl
  have hnext := hstep.holds.rep.getNextKvAddr_spec hj hrecs hstore haddr hshows.start hshows.len
    hshows.crcIsOk
  refine ⟨_, st', db', { kv1 with start := _ }, hstep, honly, rfl, hshows.length_name, ?_⟩
  rw [gcLoop, hread]
  dsimp only
  rw [hbody, hnext]
  by_cases hpost : post = []
  · rw [if_pos hpost, if_pos hpost]
  · rw [if_neg hpost, if_neg hpost]

/-- The loop of `do_gc` leaves no live record in the sector. -/
theorem Collecting.gcLoop_spec {info : SecInfo} (hj : j < n) (hstore : info.store = .using)
    (haddr : info.addr = j * z) {post : List Rec} :
    ∀ (pre : List Rec) (r : Rec) (fuel : Nat) (st : Nat → Sec) (db : Kvdb) (kv : Kv),
      Collecting z n K m j pre (r :: post) st db → post.length < fuel →
      kv.start = j * z + (sectorHdrDataSize + recsLen pre) → kv.name.length = fdbKvNameMax →
      ∃ pre' st', StoreOnly db (gcLoop info fuel db kv) ∧
        Collecting z n K m j pre' [] st' (gcLoop info fuel db kv) := by
  induction post with
  | nil =>
    intro pre r fuel st db kv h hfuel hstart hname
    obtain ⟨fuel, rfl⟩ := Nat.exists_eq_add_of_lt hfuel
    obtain ⟨pre', st', db', kv', hstep, honly, -, -, hloop⟩ :=
      h.gcLoop_succ hj hstore haddr hstart hname ([].length + fuel)
    rw [hloop, if_pos rfl]
    exact ⟨pre', st', honly, hstep⟩
  | cons p post ih =>
    intro pre r fuel st db kv h hfuel hstart hname
    obtain ⟨fuel, rfl⟩ := Nat.exists_eq_add_of_lt hfuel
    obtain ⟨pre', st', db', kv', hstep, honly, hstart', hname', hloop⟩ :=
      h.gcLoop_succ hj hstore haddr hstart hname ((p :: post).length + fuel)
    obtain ⟨pre'', st'', honly', hend⟩ := ih pre' p _ st' db' kv' hstep
      (show post.length < (p :: post).length + fuel by rw [List.length_cons]; omega) hstart' hname'
    rw [hloop, if_neg (List.cons_ne_nil p post)]
    exact ⟨pre'', st'', honly.trans honly', hend⟩

/-! ## Collecting a sector -/

/-- The database holds the map, there is an empty sector, and the others are tidy. -/
structure Kept (z n : Nat) (K : Set Bytes) (m : Bytes → Option Bytes) (st : Nat → Sec) (db : Kvdb) :
    Prop where
  holds : Holds z n K m st db
  empty : ∃ i < n, (st i).store = .empty
  tidy : ∀ i < n, (st i).Tidy

/-- What the sectors hold when no operation was interrupted. -/
structure Resting (z n : Nat) (K : Set Bytes) (m : Bytes → Option Bytes) (st : Nat → Sec) :
    Prop where
  ok : ∀ j < n, (st j).Ok z
  stands : Stands z n st m
  keys : ∀ a key value, Live z n st a key value → key ∈ K
  noPreDelete : ∀ a < n * z, ∀ r, storeRecAt z st a = some r → r.status ≠ .preDelete
  empty : ∃ i < n, (st i).store = .empty
  tidy : ∀ i < n, (st i).Tidy

theorem Kept.resting (h : Kept z n K m st db) : Resting z n K m st :=
  ⟨h.holds.rep.ok, h.holds.stands, h.holds.keys, h.holds.noPreDelete, h.empty, h.tidy⟩

theorem Resting.kept (h : Resting z n K m st) (hrep : Rep z n st db)
    (hcache : KvCacheOk (LiveCrc z n st) db.kvCache) (hflag : db.lastIsCompleteDel = false) :
    Kept z n K m st db :=
  ⟨⟨hrep, h.stands, h.keys, hcache, h.noPreDelete, hflag⟩, h.empty, h.tidy⟩

/-- There is an empty sector, and another one that is not dirty. -/
def Spare (n : Nat) (st : Nat → Sec) : Prop :=
  ∃ i < n, ∃ j < n, i ≠ j ∧ (st i).store = .empty ∧ (st j).dirty = .no

/-- Other sectors with the same live records. -/
theorem Holds.congr {st' : Nat → Sec} {db' : Kvdb} (h : Holds z n K m st db)
    (hrep : Rep z n st' db')
    (hlive : ∀ a key value, Live z n st' a key value ↔ Live z n st a key value)
    (hrec : ∀ a r, storeRecAt z st' a = some r → storeRecAt z st a = some r)
    (hcache : db'.kvCache = db.kvCache) (hflag : db'.lastIsCompleteDel = db.lastIsCompleteDel) :
    Holds z n K m st' db' where
  rep := hrep
  stands := h.stands.congr hlive
  keys a key value hl := h.keys a key value ((hlive a key value).mp hl)
  cache := by
    rw [hcache]
    refine h.cache.mono fun crc a => ?_
    rintro ⟨key, value, hl, hcrc⟩
    exact ⟨key, value, (hlive a key value).mpr hl, hcrc⟩
  noPreDelete a ha r hr := h.noPreDelete a ha r (hrec a r hr)
  completeDel := hflag.trans h.completeDel

/-- The sector is formatted when none of its records is live. -/
theorem Collecting.format {pre : List Rec} (h : Collecting z n K m j pre [] st db) (hj : j < n) :
    ∃ db', formatSector db (j * z) sectorNotCombined = (db', .noErr) ∧ StoreOnly db db' ∧
      Kept z n K m (clearSec st j) db' ∧ Spare n (clearSec st j) := by
  obtain ⟨db', hrun, hrep, honly⟩ := h.holds.rep.formatSector_spec hj
  have hdead : ∀ a r, storeRecAt z st a = some r → a / z = j → r.status = .deleted := by
    intro a r hr hdiv
    rw [storeRecAt_eq, hdiv, Sec.atOffset] at hr
    split_ifs at hr
    have hmem := mem_of_recAt hr
    rw [h.recs, List.append_nil] at hmem
    exact h.dead r hmem
  have hself : clearSec st j j = Sec.blank := Function.update_self _ _ _
  refine ⟨db', hrun, ⟨by rw [honly.eq]⟩, ⟨h.holds.congr hrep (fun a key value => ?_)
    (fun a r hr => ?_) (by rw [honly.eq]) (by rw [honly.eq]), ⟨j, hj, by rw [hself]; rfl⟩,
    fun i hi => ?_⟩, ?_⟩
  · rw [live_clearSec]
    refine and_iff_left_of_imp fun hl hdiv => ?_
    exact absurd (hdead a _ hl.2 hdiv) KvStatus.noConfusion
  · rw [storeRecAt_clearSec] at hr
    split_ifs at hr
    exact hr
  · rcases eq_or_ne i j with rfl | hne
    · rw [hself]
      exact .blank
    · rw [clearSec, Function.update_of_ne hne]
      exact h.other i hi hne
  · obtain ⟨e, he, hclean, -⟩ := h.free
    have hej : e ≠ j := by
      rintro rfl
      exact h.dirty hclean
    refine ⟨j, hj, e, he, Ne.symm hej, by rw [hself]; rfl, ?_⟩
    rw [clearSec, Function.update_of_ne hej]
    exact hclean

/-- The next sector is the oldest one. -/
theorem Rep.getNextSectorAddr_zero {info : SecInfo} (h : Rep z n st db) (haddr : info.addr = j * z)
    (hj : j < n) (hcombined : info.combined = sectorNotCombined) :
    ∃ i < n, getNextSectorAddr db info 0 = some (i * z) := by
  have hn := h.geo.sectors
  have hend := sector_end_le (z := z) hj
  unfold getNextSectorAddr
  rw [if_pos hcombined, haddr, h.secSize, h.maxSize]
  dsimp only
  rw [if_pos (by omega)]
  split_ifs with hlt
  · refine ⟨j + 1, ?_, by rw [Nat.succ_mul]⟩
    rw [← Nat.succ_mul] at hlt
    exact Nat.lt_of_mul_lt_mul_right hlt
  · exact ⟨0, by omega, by rw [Nat.zero_mul]⟩

/-- The records of a dirty sector are moved, and the sector is formatted. -/
theorem Kept.collect_spec {info : SecInfo} (h : Kept z n K m st db) (hgc : db.gcRequest = true)
    (hj : j < n) (hinfo : InfoAt z (j * z) (st j) info) (hdirty : (st j).dirty = .yes) :
    ∃ st' db1 db', db.writeStatus (j * z + sectorDirtyOffset) dirtyStatusNum DirtyStatus.gc.index =
        (db1, .noErr) ∧
      formatSector (gcLoop info db1.secSize db1
        { Kv.fresh with start := j * z + sectorHdrDataSize }) (j * z) sectorNotCombined =
        (db', .noErr) ∧
      StoreOnly db db' ∧ Kept z n K m st' db' ∧ Spare n st' := by
  have hok := h.holds.rep.ok j hj
  have hstore : (st j).store = .using ∧ (st j).recs ≠ [] := by
    rcases hok.store with ⟨-, -, hno⟩ | ⟨husing, hrecs, -⟩
    · exact absurd (hdirty.symm.trans hno) (by decide)
    · exact ⟨husing, hrecs⟩
  obtain ⟨r, post, hcons⟩ := List.exists_cons_of_ne_nil hstore.2
  obtain ⟨db1, hwrite, honly1, hrep1⟩ := h.holds.rep.setGc_spec hj hdirty
  have hrecs : ∀ i, (Function.update st j { st j with dirty := .gc } i).recs = (st i).recs := by
    intro i
    rcases eq_or_ne i j with rfl | hne
    · rw [Function.update_self]
    · rw [Function.update_of_ne hne]
  -- the empty sector has room for all of the records
  obtain ⟨e, he, hempty⟩ := h.empty
  have hej : e ≠ j := by
    rintro rfl
    exact absurd (hempty.symm.trans hstore.1) (by decide)
  have hblank := (h.holds.rep.ok e he).of_empty hempty
  have hstart : Collecting z n K m j [] (r :: post)
      (Function.update st j { st j with dirty := .gc }) db1 := by
    refine ⟨h.holds.congr hrep1 (fun a key value => live_congr hrecs) (fun a r hr => ?_)
      (by rw [honly1.eq]) (by rw [honly1.eq]), by rw [honly1.eq]; exact hgc, ?_,
      fun _ hr => absurd hr List.not_mem_nil, ?_, ⟨e, he, ?_, ?_⟩, fun i hi hne => ?_⟩
    · rw [storeRecAt, hrecs] at hr
      exact hr
    · rw [hrecs, hcons]
      rfl
    · rw [Function.update_self]
      exact DirtyStatus.noConfusion
    · rw [Function.update_of_ne hej]
      exact hblank.2
    · rw [Function.update_of_ne hej, Sec.used, hblank.1]
    · rw [Function.update_of_ne hne]
      exact h.tidy i hi
  have hfuel : post.length < db1.secSize := by
    have hlen := length_le_recsLen (st j).recs
    have hroom := hok.room
    rw [Sec.used] at hroom
    rw [hcons, List.length_cons] at hlen
    rw [hcons] at hroom
    rw [hrep1.secSize]
    omega
  obtain ⟨pre', st2, honly2, hend⟩ :=
    Collecting.gcLoop_spec hj (hinfo.store.trans hstore.1) hinfo.addr [] r db1.secSize _ db1
      { Kv.fresh with start := j * z + sectorHdrDataSize } hstart hfuel rfl rfl
  obtain ⟨db3, hformat, honly3, hkept, hspare⟩ := hend.format hj
  have honly : StoreOnly db db1 := ⟨by rw [honly1.eq]⟩
  exact ⟨_, db1, db3, hwrite, hformat, (honly.trans honly2).trans honly3, hkept, hspare⟩

/-- `do_gc` keeps the map. -/
theorem Kept.doGc_spec {info : SecInfo} (h : Kept z n K m st db) (hgc : db.gcRequest = true)
    (hj : j < n) (hinfo : InfoAt z (j * z) (st j) info) {last : Nat} (hlast : ∃ i < n, last = i * z)
    (freeSize : Nat) :
    ∃ st' db' last' stop, doGc freeSize db info last = (db', last', stop) ∧
      Kept z n K m st' db' ∧ StoreOnly db db' ∧ (∃ i < n, last' = i * z) ∧
      (Spare n st' ∨ st' = st ∧ (st j).dirty = .no ∧ stop = false) := by
  unfold doGc
  by_cases hcond : info.checkOk = true ∧ (info.dirty = .yes ∨ info.dirty = .gc)
  · have hdirty : (st j).dirty = .yes := by
      have hne := (h.tidy j hj).noGc
      rcases hinfo.dirty with heq | ⟨hgc, -⟩
      · rw [heq] at hcond
        exact hcond.2.resolve_right hne
      · exact absurd hgc hne
    obtain ⟨st', db1, db2, hwrite, hformat, honly, hkept, hspare⟩ :=
      h.collect_spec hgc hj hinfo hdirty
    obtain ⟨i, hi, hnext⟩ := hkept.holds.rep.getNextSectorAddr_zero hinfo.addr hj hinfo.combined
    have hrep3 : Rep z n st' { db2 with oldestAddr := i * z } :=
      { hkept.holds.rep with oldest := ⟨i, hi, rfl⟩ }
    obtain ⟨l, hl, rfl⟩ := hlast
    obtain ⟨db3, info', hread, hrep', honly3, -, -⟩ :=
      hrep3.readSectorInfo_spec hl SecInfo.fresh true
    rw [if_pos hcond, hinfo.addr, hwrite]
    dsimp only
    rw [hformat]
    simp only [hnext, Option.getD_some, hread]
    have hholds : Holds z n K m st' db3 := hkept.holds.congr hrep' (fun _ _ _ => Iff.rfl)
      (fun _ _ hr => hr) (by rw [honly3.eq]) (by rw [honly3.eq])
    exact ⟨st', db3, _, _, rfl, ⟨hholds, hkept.empty, hkept.tidy⟩,
      honly.trans ⟨by rw [honly3.eq]⟩, ⟨j, hj, rfl⟩, .inl hspare⟩
  · rw [if_neg hcond]
    refine ⟨st, db, last, false, rfl, h, .refl db, hlast, .inr ⟨rfl, ?_, rfl⟩⟩
    have hne := (h.tidy j hj).noGc
    have heq : info.dirty = (st j).dirty := hinfo.dirty.resolve_right fun hgc => hne hgc.1
    have hok := (h.holds.rep.ok j hj).store
    cases hd : (st j).dirty with
    | no => rfl
    | yes => exact absurd ⟨hinfo.checkOk, .inl (heq.trans hd)⟩ hcond
    | gc => exact absurd hd hne
    | unused => simp [hd] at hok

/-! ## Collecting -/

/-- Changes of the sector cache do not matter. -/
theorem Kept.of_cacheOnly {db' : Kvdb} (h : Kept z n K m st db) (hrep : Rep z n st db')
    (honly : CacheOnly db db') : Kept z n K m st db' :=
  ⟨h.holds.congr hrep (fun _ _ _ => Iff.rfl) (fun _ _ hr => hr) (by rw [honly.eq])
    (by rw [honly.eq]), h.empty, h.tidy⟩

theorem CacheOnly.storeOnly {db db' : Kvdb} (h : CacheOnly db db') : StoreOnly db db' :=
  ⟨by rw [h.eq]⟩

/-- The pass over the empty sectors. -/
theorem Rep.gcCheck_spec (h : Rep z n st db) :
    ∃ db' info s, sectorIterator db SecInfo.fresh .empty gcCheckCb (0, 0) false = (db', info, s) ∧
      Rep z n st db' ∧ CacheOnly db db' ∧ (∃ i < n, s.2 = i * z) ∧
      (fdbGcEmptySecThreshold < s.1 → Spare n st) := by
  obtain ⟨oldest, ho, holdest⟩ := h.oldest
  have hcb : SectorCallback z n oldest .empty false gcCheckCb
      (fun k st' db' s => st' = st ∧ CacheOnly db db' ∧ (∃ i < n, s.2 = i * z) ∧
        s.1 = storeCount n oldest st .empty k)
      (fun _ _ _ _ => False) :=
    { cache := fun k st' db1 db2 s hJ honly => ⟨hJ.1, hJ.2.1.trans honly, hJ.2.2⟩
      skip := by
        rintro k st' db1 s - - ⟨rfl, honly, hlast, hcount⟩ hne
        have hst : ¬ (st' (visit n oldest k)).store = .empty := fun heq => hne (.inr heq.symm)
        refine ⟨rfl, honly, hlast, ?_⟩
        rw [storeCount_succ, if_neg hst]
        exact hcount
      call := by
        rintro k st' db1 s info hk hrep1 ⟨rfl, honly, -, hcount⟩ hinfo - hmatch
        have hst : StoreStatus.empty = (st' (visit n oldest k)).store :=
          hmatch.resolve_left StoreStatus.noConfusion
        refine ⟨st', db1, (s.1 + 1, info.addr), false, if_pos hinfo.checkOk, hrep1,
          .inl ⟨rfl, rfl, honly, ⟨visit n oldest k, visit_lt ho hk, hinfo.addr⟩, ?_⟩⟩
        rw [storeCount_succ, if_pos hst.symm, hcount] }
  obtain ⟨st', db', info, s, hrun, hrep, hfalse | ⟨rfl, honly, hlast, hcount⟩⟩ :=
    h.sectorIterator_rule ho holdest SecInfo.fresh hcb (s := (0, 0))
      ⟨rfl, .refl db, ⟨0, by omega, (Nat.zero_mul z).symm⟩, rfl⟩
  · exact hfalse.elim
  · refine ⟨db', info, s, hrun, hrep, honly, hlast, fun hlt => ?_⟩
    rw [hcount] at hlt
    obtain ⟨i, hi, -, hst⟩ := exists_ne_of_storeCount ho hlt n
    obtain ⟨j, hj, hji, hst'⟩ := exists_ne_of_storeCount ho hlt i
    exact ⟨i, hi, j, hj, Ne.symm hji, hst, ((h.ok j hj).of_empty hst').2⟩

/-- The pass over the dirty sectors. -/
theorem Kept.gcPass_spec (h : Kept z n K m st db) (hgc : db.gcRequest = true) (sector : SecInfo)
    {last : Nat} (hlast : ∃ i < n, last = i * z) (freeSize : Nat) :
    ∃ st' db' r, sectorIterator db sector .unused (doGc freeSize) last false = (db', r) ∧
      Kept z n K m st' db' ∧ StoreOnly db db' ∧ Spare n st' := by
  obtain ⟨oldest, ho, holdest⟩ := h.holds.rep.oldest
  have hcb : SectorCallback z n oldest .unused false (doGc freeSize)
      (fun k st' db' last => (∃ db0, Kept z n K m st' db0 ∧ StoreOnly db db0 ∧ CacheOnly db0 db') ∧
        (∃ i < n, last = i * z) ∧
        (Spare n st' ∨ ∀ l < k, (st' (visit n oldest l)).dirty = .no))
      (fun st' db' _ _ => Kept z n K m st' db' ∧ StoreOnly db db' ∧ Spare n st') :=
    { cache := by
        rintro k st' db1 db2 last ⟨⟨db0, hkept, honly, hcache⟩, hlast⟩ hcache'
        exact ⟨⟨db0, hkept, honly, hcache.trans hcache'⟩, hlast⟩
      skip := fun k st' db' s _ _ _ hne => absurd (.inl rfl) hne
      call := by
        rintro k st1 db1 last info hk hrep1 ⟨⟨db0, hkept, honly, hcache⟩, hlast, hdone⟩ hinfo - -
        have hkept1 := hkept.of_cacheOnly hrep1 hcache
        have honly1 := honly.trans hcache.storeOnly
        obtain ⟨st2, db2, last2, stop, hrun, hkept2, honly2, hlast2, hcase⟩ := hkept1.doGc_spec
          (by rw [honly1.eq]; exact hgc) (visit_lt ho hk) hinfo hlast freeSize
        refine ⟨st2, db2, last2, stop, hrun, hkept2.holds.rep, ?_⟩
        have hdb2 : ∃ db0, Kept z n K m st2 db0 ∧ StoreOnly db db0 ∧ CacheOnly db0 db2 :=
          ⟨db2, hkept2, honly1.trans honly2, .refl db2⟩
        rcases hcase with hspare | ⟨rfl, hclean, rfl⟩
        · cases stop with
          | false => exact .inl ⟨rfl, hdb2, hlast2, .inl hspare⟩
          | true => exact .inr ⟨rfl, hkept2, honly1.trans honly2, hspare⟩
        · refine .inl ⟨rfl, hdb2, hlast2, hdone.imp_right fun hall l hl => ?_⟩
          rcases Nat.lt_succ_iff_lt_or_eq.mp hl with hlt | rfl
          · exact hall l hlt
          · exact hclean }
  obtain ⟨st', db', info, last', hrun, hrep, hend⟩ :=
    h.holds.rep.sectorIterator_rule ho holdest sector hcb
      ⟨⟨db, h, .refl db, .refl db⟩, hlast, .inr fun l hl => absurd hl (Nat.not_lt_zero l)⟩
  refine ⟨st', db', (info, last'), hrun, ?_⟩
  rcases hend with hstop | ⟨⟨db0, hkept, honly, hcache⟩, -, hdone⟩
  · exact hstop
  · refine ⟨hkept.of_cacheOnly hrep hcache, honly.trans hcache.storeOnly,
      hdone.elim id fun hall => ?_⟩
    -- nothing was dirty
    have hn := hrep.geo.sectors
    obtain ⟨i, hi, hempty⟩ := hkept.empty
    obtain ⟨j, hj, hij⟩ : ∃ j < n, i ≠ j := by
      rcases Nat.eq_zero_or_pos i with rfl | hpos
      · exact ⟨1, hn, by omega⟩
      · exact ⟨0, by omega, by omega⟩
    obtain ⟨k, hk, rfl⟩ := exists_visit ho hj
    exact ⟨i, hi, _, hj, hij, hempty, hall k hk⟩

/-- `gc_collect_by_free_size` keeps the map. -/
theorem Kept.gcCollectByFreeSize_spec (h : Kept z n K m st db) (hgc : db.gcRequest = true)
    (freeSize : Nat) :
    ∃ st', Kept z n K m st' (gcCollectByFreeSize db freeSize) ∧ Spare n st' ∧
      StoreOnly { db with gcRequest := false } (gcCollectByFreeSize db freeSize) := by
  obtain ⟨db1, info, s, hrun1, hrep1, honly1, hlast, htwo⟩ := h.holds.rep.gcCheck_spec
  have hkept1 := h.of_cacheOnly hrep1 honly1
  have hpass : ∃ st' db2, (if s.1 ≤ fdbGcEmptySecThreshold then
      (sectorIterator db1 info .unused (doGc freeSize) s.2 false).1 else db1) = db2 ∧
      Kept z n K m st' db2 ∧ StoreOnly db db2 ∧ Spare n st' := by
    by_cases hle : s.1 ≤ fdbGcEmptySecThreshold
    · obtain ⟨st', db2, r, hrun2, hkept2, honly2, hspare⟩ := hkept1.gcPass_spec
        (by rw [honly1.eq]; exact hgc) info hlast freeSize
      rw [if_pos hle, hrun2]
      exact ⟨st', db2, rfl, hkept2, honly1.storeOnly.trans honly2, hspare⟩
    · rw [if_neg hle]
      exact ⟨st, db1, rfl, hkept1, honly1.storeOnly, htwo (by omega)⟩
  obtain ⟨st', db2, hrun2, hkept2, honly2, hspare⟩ := hpass
  have hrun : gcCollectByFreeSize db freeSize = { db2 with gcRequest := false } := by
    unfold gcCollectByFreeSize
    rw [hrun1]
    dsimp only
    rw [hrun2]
  rw [hrun]
  refine ⟨st', ⟨{ hkept2.holds with rep := { hkept2.holds.rep with } }, hkept2.empty, hkept2.tidy⟩,
    hspare, ⟨?_⟩⟩
  rw [honly2.eq]

end Gc

end Hc32Board.FlashDb
