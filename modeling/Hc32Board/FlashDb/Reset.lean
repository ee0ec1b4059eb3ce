import Hc32Board.FlashDb.Calls

/-!
# Restoring the default values
-/

namespace Hc32Board.FlashDb

open Hc32Board.CodeLib

section Reset

variable {z n : Nat} {K : Set Bytes} {m : Bytes → Option Bytes} {st : Nat → Sec} {db : Kvdb}
  {key value : Bytes}

/-! ## Formatting every sector -/

/-- The loop of `fdb_kv_set_default` over the sectors. -/
theorem formatLoop_spec : ∀ (fuel k : Nat) (db : Kvdb), n < k + fuel → k ≤ n → Based z n db →
    (∀ j < k, SecAt db.flash.img z (j * z) Sec.blank) →
    (∀ info, some info ∈ db.sectorCache → ∃ i < n, k ≤ i ∧ info.addr = i * z) →
    ∃ db', formatLoop fuel db (k * z) .noErr = (db', .noErr) ∧ FlashOnly db db' ∧
      Rep z n (fun _ => Sec.blank) db' := by
  intro fuel
  induction fuel with
  | zero => intro k db hfuel hk; omega
  | succ fuel ih =>
    intro k db hfuel hk h hsecs hcache
    have hz := h.geo.room
    rw [formatLoop]
    rcases Nat.eq_or_lt_of_le hk with rfl | hlt
    · rw [if_neg (by rw [h.maxSize]; omega)]
      refine ⟨db, rfl, ⟨rfl⟩, ?_⟩
      exact { h with
        secs := hsecs
        ok := fun i _ => Sec.blank_ok hz
        cache := fun info hmem => by
          obtain ⟨i, hi, hge, -⟩ := hcache info hmem
          omega }
    · have hend := sector_end_le (z := z) hlt
      obtain ⟨f, hrun, himg, hsize, hready⟩ := @formatSector_done db h.ready (k * z)
        (by rw [h.secSize]; omega) (by rw [h.secSize, h.size]; exact hend)
      rw [if_pos (by rw [h.maxSize]; omega), hrun]
      dsimp only
      rw [h.secSize] at himg
      have hnext : k * z + db.secSize = (k + 1) * z := by rw [h.secSize, Nat.succ_mul]
      have hbased : Based z n
          (Kvdb.updateSectorCache { db with flash := f } (.formatted (k * z))) :=
        { h with
          size := hsize.trans h.size
          ready := hready
          distinct := h.distinct.updateSectorCache _ }
      have hsecs' : ∀ j < k + 1, SecAt f.img z (j * z) Sec.blank := by
        intro j hj
        rw [himg]
        rcases Nat.lt_succ_iff_lt_or_eq.mp hj with hlt' | rfl
        · have hdisj := sector_disjoint (z := z) (Nat.ne_of_lt hlt')
          exact ((hsecs j hlt').eraseRange_disjoint hdisj).program_disjoint (by
            rw [length_sectorHdr]
            omega)
        · exact secAt_format _ _ (by omega)
      have hcache' : ∀ info, some info ∈ updateSectorCache db.sectorCache (.formatted (k * z)) →
          ∃ i < n, k + 1 ≤ i ∧ info.addr = i * z := by
        intro info hmem
        rcases mem_updateSectorCache h.distinct hmem with ⟨-, hfalse⟩ | ⟨hold, hne⟩
        · exact absurd hfalse Bool.false_ne_true
        · obtain ⟨i, hi, hge, haddr⟩ := hcache info hold
          refine ⟨i, hi, ?_, haddr⟩
          have hik : i ≠ k := by
            rintro rfl
            exact hne haddr
          omega
      obtain ⟨db', hloop, honly, hrep⟩ := ih (k + 1) _ (by omega) hlt hbased hsecs' hcache'
      refine ⟨db', ?_, ⟨by rw [honly.eq]; rfl⟩, hrep⟩
      show formatLoop fuel _ (k * z + db.secSize) .noErr = _
      rw [hnext]
      exact hloop

/-! ## Creating the default values -/

/-- A KV cache without an address. -/
theorem kvCacheOk_cleared (P : BitVec 16 → Nat → Prop) (cache : List KvCacheNode) :
    KvCacheOk P (clearKvCache cache) := by
  have hnone : ∀ (i : Nat) crc e, (cacheView (clearKvCache cache))[i]? = some (crc, e) →
      e = none := by
    intro i crc e hget
    rw [cacheView, clearKvCache, List.map_map, List.getElem?_map, Option.map_eq_some_iff] at hget
    obtain ⟨node, -, hpair⟩ := hget
    exact (Prod.mk.inj hpair).2.symm
  refine ⟨fun i crc a hget => absurd (hnone i crc _ hget) (Option.some_ne_none a), ?_⟩
  intro i j crc e a _ _ hget
  exact absurd (hnone j crc _ hget) (Option.some_ne_none a)

/-- Formatted sectors hold nothing. -/
theorem resting_blank (h : Geometry z n) : Resting z n K (fun _ => none) fun _ => Sec.blank := by
  have hnone : ∀ a, storeRecAt z (fun _ => Sec.blank) a = none := by
    intro a
    rw [storeRecAt]
    split_ifs <;> rfl
  have hlive : ∀ a key value, ¬ Live z n (fun _ => Sec.blank) a key value := fun a key value hl =>
    Option.some_ne_none _ (hl.2.symm.trans (hnone a))
  have hn := h.sectors
  refine ⟨fun _ _ => Sec.blank_ok h.room, ⟨fun key value => ?_, fun key a _ value _ hl =>
    absurd hl (hlive a key value)⟩, fun a key value hl => absurd hl (hlive a key value),
    fun a _ r hr => ?_, ⟨0, by omega, rfl⟩, fun _ _ => .blank⟩
  · refine ⟨fun hsome => absurd hsome.symm (Option.some_ne_none value), fun hex => ?_⟩
    obtain ⟨a, hl⟩ := hex
    exact absurd hl (hlive a key value)
  · exact absurd (hr.symm.trans (hnone a)) (Option.some_ne_none r)

/-- `create_kv_blob` for a key that has no record. -/
theorem Kept.createFresh_spec (h : Kept z n K m st db) (hgc : db.gcRequest = false) (hkeys : Keys K)
    (hkey : key ∈ K) (hm : m key = none) (sector : SecInfo) (value : Bytes) :
    ∃ st' db' info err, createKvBlob db { sector with emptyKv := none } key value =
        (db', info, err) ∧ StoreOnly db db' ∧
      (err = .noErr ∧ Kept z n K (Function.update m key (some value)) st' db' ∨
        err = .savedFull ∧ Kept z n K m st' db' ∧
          Crowded z m (kvHdrDataSize + key.length + value.length)) := by
  have hlt := hkeys.length_lt key hkey
  unfold createKvBlob
  dsimp only
  rw [if_neg (by omega)]
  by_cases hbig : db.secSize - sectorHdrDataSize < kvHdrDataSize + key.length + value.length
  · rw [if_pos hbig]
    refine ⟨st, db, _, _, rfl, .refl db, .inr ⟨rfl, h, fun total _ => ?_⟩⟩
    rw [h.holds.rep.secSize] at hbig
    omega
  · rw [if_neg hbig]
    obtain ⟨st1, db1, info, r, hnew, hkept1, honly1, hcase⟩ := h.newKv_spec hgc
      { sector with emptyKv := none } (kvHdrDataSize + key.length + value.length)
    rw [hnew]
    rcases hcase with ⟨rfl, hfull⟩ | ⟨i, rfl, hroom⟩
    · exact ⟨st1, db1, info, _, rfl, honly1, .inr ⟨rfl, hkept1, hfull⟩⟩
    · have hnone : ∀ a v, ¬ Live z n st1 a key v := by
        intro a v hl
        have hsome := (hkept1.holds.stands.holds key v).mpr ⟨a, hl⟩
        exact Option.some_ne_none v (hsome.symm.trans hm)
      obtain ⟨db2, hwrite, hkept2, honly2⟩ := hkept1.writeKv_spec hkeys hkey hroom hnone
      dsimp only
      rw [hwrite]
      exact ⟨_, db2, info, _, rfl, honly1.trans honly2, .inl ⟨rfl, hkept2⟩⟩

/-- The space of the default values. -/
def defaultsLen (kvs : List DefaultKv) : Nat :=
  (kvs.map fun kv => kvHdrDataSize + kv.key.length + kv.bytes.length).sum

/-- The map with some of the default values in it. -/
def Filled (m : Bytes → Option Bytes) (kvs : List DefaultKv) (m' : Bytes → Option Bytes) : Prop :=
  ∀ key, m' key = m key ∨ ∃ kv ∈ kvs, kv.key = key ∧ m' key = some kv.bytes

/-- The loop of `fdb_kv_set_default` over the default values.  All of them are created when
one sector has room for all. -/
theorem Kept.createDefaults_spec (hkeys : Keys K) :
    ∀ (kvs : List DefaultKv) (m : Bytes → Option Bytes)
    (st : Nat → Sec) (db : Kvdb) (sector : SecInfo), Kept z n K m st db → db.gcRequest = false →
    (∀ kv ∈ kvs, kv.key ∈ K ∧ m kv.key = none) → (kvs.map DefaultKv.key).Nodup →
    ∃ m' st', Kept z n K m' st' (createDefaults kvs db sector) ∧
      StoreOnly db (createDefaults kvs db sector) ∧ Filled m kvs m' ∧
      ∀ total, Within m total →
        sectorHdrDataSize + total + defaultsLen kvs + fdbSecRemainThreshold < z →
        ∀ kv ∈ kvs, m' kv.key = some kv.bytes := by
  intro kvs
  induction kvs with
  | nil =>
    exact fun m st db _ h _ _ _ => ⟨m, st, h, .refl db, fun _ => .inl rfl,
      fun _ _ _ _ hkv => absurd hkv List.not_mem_nil⟩
  | cons kv kvs ih =>
    intro m st db sector h hgc hmem hnd
    rw [List.map_cons, List.nodup_cons] at hnd
    obtain ⟨hkey, hm⟩ := hmem kv List.mem_cons_self
    obtain ⟨st1, db1, info, err, hcreate, honly1, hcase⟩ :=
      h.createFresh_spec hgc hkeys hkey hm sector kv.bytes
    have hgc1 : db1.gcRequest = false := by rw [honly1.eq]; exact hgc
    rw [createDefaults, hcreate]
    dsimp only
    have hother : ∀ kv' ∈ kvs, kv'.key ≠ kv.key := by
      intro kv' hkv' heq
      refine hnd.1 ?_
      rw [← heq]
      exact List.mem_map_of_mem hkv'
    rcases hcase with ⟨-, hkept1⟩ | ⟨-, hkept1, hcrowded⟩
    · -- the value is there, and the later ones have other keys
      have hrest : ∀ kv' ∈ kvs, kv'.key ∈ K ∧
          Function.update m kv.key (some kv.bytes) kv'.key = none := by
        intro kv' hkv'
        obtain ⟨hkey', hm'⟩ := hmem kv' (List.mem_cons_of_mem _ hkv')
        exact ⟨hkey', (Function.update_of_ne (hother kv' hkv') _ _).trans hm'⟩
      obtain ⟨m', st', hkept', honly', hfilled, hall⟩ := ih _ st1 db1 info hkept1 hgc1 hrest hnd.2
      have hfirst : m' kv.key = some kv.bytes := by
        rcases hfilled kv.key with heq | ⟨kv', hkv', hkey', -⟩
        · rw [heq, Function.update_self]
        · exact absurd hkey' (hother kv' hkv')
      refine ⟨m', st', hkept', honly1.trans honly', fun key => ?_, fun total hwithin hfits => ?_⟩
      · rcases hfilled key with heq | ⟨kv', hkv', hkey', heq⟩
        · rcases eq_or_ne key kv.key with rfl | hne
          · exact .inr ⟨kv, List.mem_cons_self, rfl, hfirst⟩
          · exact .inl (heq.trans (Function.update_of_ne hne _ _))
        · exact .inr ⟨kv', List.mem_cons_of_mem _ hkv', hkey', heq⟩
      · rw [defaultsLen, List.map_cons, List.sum_cons, ← defaultsLen] at hfits
        intro kv' hkv'
        rcases List.mem_cons.mp hkv' with rfl | hmem'
        · exact hfirst
        · exact hall _ (hwithin.update kv.key kv.bytes) (by omega) kv' hmem'
    · -- there is no room for the value
      obtain ⟨m', st', hkept', honly', hfilled, -⟩ := ih m st1 db1 info hkept1 hgc1
        (fun kv' hkv' => hmem kv' (List.mem_cons_of_mem _ hkv')) hnd.2
      refine ⟨m', st', hkept', honly1.trans honly', fun key => ?_, fun total hwithin hfits => ?_⟩
      · refine (hfilled key).imp_right ?_
        rintro ⟨kv', hkv', heq⟩
        exact ⟨kv', List.mem_cons_of_mem _ hkv', heq⟩
      · rw [defaultsLen, List.map_cons, List.sum_cons, ← defaultsLen] at hfits
        have hle := hcrowded total hwithin
        omega

/-- What `fdb_kv_set_default` leaves: default values only, and all of them when a sector
has room for all. -/
structure Restored (z : Nat) (kvs : List DefaultKv) (m : Bytes → Option Bytes) : Prop where
  filled : Filled (fun _ => none) kvs m
  complete : sectorHdrDataSize + defaultsLen kvs + fdbSecRemainThreshold < z →
    ∀ kv ∈ kvs, m kv.key = some kv.bytes

/-- `fdb_kv_set_default`. -/
theorem Based.fdbKvSetDefault_spec (h : Based z n db)
    (hcache : ∀ info, some info ∈ db.sectorCache → ∃ i < n, info.addr = i * z)
    (hgc : db.gcRequest = false) (hflag : db.lastIsCompleteDel = false) (hkeys : Keys K)
    (hmem : ∀ kv ∈ db.defaultKvs, kv.key ∈ K) (hnd : (db.defaultKvs.map DefaultKv.key).Nodup) :
    ∃ m' st' db', fdbKvSetDefault db = (db', .noErr) ∧ Kept z n K m' st' db' ∧ StoreOnly db db' ∧
      Restored z db.defaultKvs m' := by
  have hz := h.geo.room
  have hn := h.geo.sectors
  obtain ⟨db0, hdb0⟩ : ∃ db0, db0 = { db with kvCache := clearKvCache db.kvCache } := ⟨_, rfl⟩
  have hbased : Based z n db0 := by
    rw [hdb0]
    exact { h with }
  have hnum := hbased.sectorNum_eq
  obtain ⟨db1, hformat, honly1, hrep1⟩ := formatLoop_spec (n + 1) 0 db0 (by omega) (by omega) hbased
    (fun j hj => absurd hj (Nat.not_lt_zero j)) fun info hmem => by
      rw [hdb0] at hmem
      obtain ⟨i, hi, haddr⟩ := hcache info hmem
      exact ⟨i, hi, Nat.zero_le i, haddr⟩
  rw [Nat.zero_mul] at hformat
  have honly : FlashOnly { db with kvCache := clearKvCache db.kvCache } db1 := hdb0 ▸ honly1
  have hkept1 : Kept z n K (fun _ => none) (fun _ => Sec.blank) db1 :=
    (resting_blank hbased.geo).kept hrep1 (by rw [honly.eq]; exact kvCacheOk_cleared _ _)
      (by rw [honly.eq]; exact hflag)
  have hkvs : db1.defaultKvs = db.defaultKvs := by rw [honly.eq]
  obtain ⟨m', st', hkept2, honly2, hfilled, hall⟩ := Kept.createDefaults_spec hkeys db.defaultKvs
    (fun _ => none) _ db1 SecInfo.fresh hkept1 (by rw [honly.eq]; exact hgc)
    (fun kv hkv => ⟨hmem kv hkv, rfl⟩) hnd
  refine ⟨m', st', { createDefaults db.defaultKvs db1 SecInfo.fresh with oldestAddr := 0 }, ?_, ?_,
    ⟨?_⟩, hfilled, hall 0 within_none⟩
  · simp only [fdbKvSetDefault, ← hdb0, hnum, hformat, if_true, hkvs]
  · exact ⟨{ hkept2.holds with rep := { hkept2.holds.rep with
      oldest := ⟨0, by omega, (Nat.zero_mul z).symm⟩ } }, hkept2.empty, hkept2.tidy⟩
  · rw [honly2.eq, honly.eq]

end Reset

end Hc32Board.FlashDb
