import Hc32Board.FlashDb.Find
import Mathlib.Data.Finset.Card

/-!
# Space for a record

`alloc_kv` counts the sectors and then takes the first sector in use that has room.
An empty sector is taken when there is another one, or during a garbage collection.
`Rep.allocKv_spec` says which sector it may return, and what follows when it returns
none: in a garbage collection no clean sector has room.
-/

namespace Hc32Board.FlashDb

open Hc32Board.CodeLib

section Alloc

variable {z n : Nat} {st : Nat → Sec} {db : Kvdb}

/-! ## Counting the sectors -/

/-- How many of the first `k` sectors that are visited have a store status. -/
def storeCount (n oldest : Nat) (st : Nat → Sec) (t : StoreStatus) (k : Nat) : Nat :=
  ((Finset.range k).filter fun j => (st (visit n oldest j)).store = t).card

theorem storeCount_succ (n oldest : Nat) (st : Nat → Sec) (t : StoreStatus) (k : Nat) :
    storeCount n oldest st t (k + 1) =
      storeCount n oldest st t k + if (st (visit n oldest k)).store = t then 1 else 0 := by
  unfold storeCount
  rw [Finset.range_add_one, Finset.filter_insert]
  split_ifs with h
  · rw [Finset.card_insert_of_notMem (by simp)]
  · rfl

theorem storeCount_pos {oldest : Nat} (ho : oldest < n) {t : StoreStatus} :
    0 < storeCount n oldest st t n ↔ ∃ i < n, (st i).store = t := by
  rw [storeCount, Finset.card_pos]
  constructor
  · rintro ⟨j, hj⟩
    rw [Finset.mem_filter, Finset.mem_range] at hj
    exact ⟨_, visit_lt ho hj.1, hj.2⟩
  · rintro ⟨i, hi, hst⟩
    obtain ⟨k, hk, rfl⟩ := exists_visit ho hi
    exact ⟨k, Finset.mem_filter.mpr ⟨Finset.mem_range.mpr hk, hst⟩⟩

/-- Of two sectors with a status, one is not the given one. -/
theorem exists_ne_of_storeCount {oldest : Nat} (ho : oldest < n) {t : StoreStatus}
    (h : 1 < storeCount n oldest st t n) (i : Nat) : ∃ j < n, j ≠ i ∧ (st j).store = t := by
  rw [storeCount] at h
  obtain ⟨a, ha, b, hb, hab⟩ := Finset.one_lt_card.mp h
  rw [Finset.mem_filter, Finset.mem_range] at ha hb
  by_cases hi : visit n oldest a = i
  · refine ⟨_, visit_lt ho hb.1, fun hb' => hab ?_, hb.2⟩
    exact visit_inj ha.1 hb.1 (hi.trans hb'.symm)
  · exact ⟨_, visit_lt ho ha.1, hi, ha.2⟩

theorem one_lt_storeCount {oldest i j : Nat} (ho : oldest < n) {t : StoreStatus} (hi : i < n)
    (hj : j < n) (hij : i ≠ j) (hst : (st i).store = t) (hst' : (st j).store = t) :
    1 < storeCount n oldest st t n := by
  obtain ⟨k, hk, rfl⟩ := exists_visit ho hi
  obtain ⟨l, hl, rfl⟩ := exists_visit ho hj
  refine Finset.one_lt_card.mpr ⟨k, ?_, l, ?_, fun hkl => hij (by rw [hkl])⟩
  · exact Finset.mem_filter.mpr ⟨Finset.mem_range.mpr hk, hst⟩
  · exact Finset.mem_filter.mpr ⟨Finset.mem_range.mpr hl, hst'⟩

/-- The first pass of `alloc_kv`. -/
theorem Rep.sectorStatistics_spec (h : Rep z n st db) (sector : SecInfo) :
    ∃ db' info s, sectorIterator db sector .unused sectorStatisticsCb (0, 0) false =
      (db', info, s) ∧
      Rep z n st db' ∧ CacheOnly db db' ∧ (0 < s.1 ↔ ∃ i < n, (st i).store = .empty) ∧
      (1 < s.1 → ∀ i, ∃ j < n, j ≠ i ∧ (st j).store = .empty) ∧
      (∀ i < n, ∀ j < n, i ≠ j → (st i).store = .empty → (st j).store = .empty → 1 < s.1) ∧
      (0 < s.2 ↔ ∃ i < n, (st i).store = .using) := by
  obtain ⟨oldest, ho, holdest⟩ := h.oldest
  have hcb : SectorCallback z n oldest .unused false sectorStatisticsCb
      (fun k st' db' s => st' = st ∧ CacheOnly db db' ∧
        s = (storeCount n oldest st .empty k, storeCount n oldest st .using k))
      (fun _ _ _ _ => False) :=
    { cache := fun k st' db1 db2 s hJ honly => ⟨hJ.1, hJ.2.1.trans honly, hJ.2.2⟩
      skip := fun k st' db' s _ _ _ hne => absurd (.inl rfl) hne
      call := by
        rintro k st' db1 s info hk hrep1 ⟨rfl, honly, rfl⟩ hinfo - -
        refine ⟨st', db1, _, false, ?_, hrep1, .inl ⟨rfl, rfl, honly, rfl⟩⟩
        rw [sectorStatisticsCb, hinfo.checkOk, hinfo.store, storeCount_succ, storeCount_succ]
        cases (st' (visit n oldest k)).store <;> rfl }
  obtain ⟨st', db', info, s, hrun, hrep, hfalse | ⟨rfl, honly, rfl⟩⟩ :=
    h.sectorIterator_rule ho holdest sector hcb ⟨rfl, .refl db, rfl⟩
  · exact hfalse.elim
  · exact ⟨db', info, _, hrun, hrep, honly, storeCount_pos ho, exists_ne_of_storeCount ho,
      fun i hi j hj => one_lt_storeCount ho hi hj, storeCount_pos ho⟩

/-! ## A sector with room -/

/-- `alloc_kv_cb` may take the sector. -/
def Fits (z size : Nat) (gcRequest : Bool) (s : Sec) : Prop :=
  size + fdbSecRemainThreshold < z - s.used ∧ (s.dirty = .no ∨ gcRequest = false)

/-- The dirty status lets `alloc_kv_cb` take the sector. -/
def Usable (gcRequest : Bool) (d : DirtyStatus) : Prop := d = .no ∨ d = .yes ∧ gcRequest = false

/-- One pass of `alloc_kv` over the sectors with a store status. -/
theorem Rep.allocPass_spec (h : Rep z n st db) (sector : SecInfo) {t : StoreStatus}
    (ht : t ≠ .unused) (size : Nat) :
    ∃ db' info r, sectorIterator db sector t (allocKvCb size) none true = (db', info, r) ∧
      Rep z n st db' ∧ CacheOnly db db' ∧
      ((∃ i < n, (st i).store = t ∧ Fits z size db.gcRequest (st i) ∧ InfoAt z (i * z) (st i) info ∧
          Exact z (i * z) (st i) info ∧ r = some (i * z + (st i).used)) ∨
        r = none ∧ ∀ i < n, (st i).store = t → Usable db.gcRequest (st i).dirty →
          ¬ size + fdbSecRemainThreshold < z - (st i).used) := by
  obtain ⟨oldest, ho, holdest⟩ := h.oldest
  have hcb : SectorCallback z n oldest t true (allocKvCb size)
      (fun k st' db' r => st' = st ∧ CacheOnly db db' ∧ r = none ∧
        ∀ j < k, (st (visit n oldest j)).store = t →
          Usable db.gcRequest (st (visit n oldest j)).dirty →
          ¬ size + fdbSecRemainThreshold < z - (st (visit n oldest j)).used)
      (fun st' db' info r => st' = st ∧ CacheOnly db db' ∧ ∃ i < n, (st i).store = t ∧
        Fits z size db.gcRequest (st i) ∧ InfoAt z (i * z) (st i) info ∧
        Exact z (i * z) (st i) info ∧ r = some (i * z + (st i).used)) :=
    { cache := fun k st' db1 db2 r hJ honly => ⟨hJ.1, hJ.2.1.trans honly, hJ.2.2⟩
      skip := by
        rintro k st' db1 r hk - ⟨rfl, honly, hr, hno⟩ hne
        refine ⟨rfl, honly, hr, fun j hj hst => ?_⟩
        rcases Nat.lt_succ_iff_lt_or_eq.mp hj with hlt | rfl
        · exact hno j hlt hst
        · exact absurd (.inr hst.symm) hne
      call := by
        rintro k st' db1 r info hk hrep1 ⟨rfl, honly, rfl, hno⟩ hinfo hexact hmatch
        have hst : t = (st' (visit n oldest k)).store := hmatch.resolve_left ht
        have hgc : db1.gcRequest = db.gcRequest := by rw [honly.eq]
        have hex := hexact rfl
        unfold allocKvCb
        by_cases hcond : info.checkOk = true ∧ size + fdbSecRemainThreshold < info.remain ∧
            (info.dirty = .no ∨ info.dirty = .yes ∧ db1.gcRequest = false)
        · rw [if_pos hcond]
          obtain ⟨-, hroom, hdirty⟩ := hcond
          refine ⟨st', db1, _, true, rfl, hrep1, .inr ⟨rfl, rfl, honly, visit n oldest k,
            visit_lt ho hk, hst.symm, ⟨hex.2 ▸ hroom, ?_⟩, hinfo, hex, hex.1⟩⟩
          rcases hdirty with hno | ⟨-, hfalse⟩
          · rcases hinfo.dirty with heq | ⟨-, hyes⟩
            · exact .inl (heq.symm.trans hno)
            · exact absurd (hyes.symm.trans hno) (by decide)
          · exact .inr (hgc.symm.trans hfalse)
        · rw [if_neg hcond]
          refine ⟨st', db1, none, false, rfl, hrep1,
            .inl ⟨rfl, rfl, honly, rfl, fun j hj hst' hd => ?_⟩⟩
          rcases Nat.lt_succ_iff_lt_or_eq.mp hj with hlt | rfl
          · exact hno j hlt hst' hd
          · intro hroom
            have heq : info.dirty = (st' (visit n oldest j)).dirty := by
              rcases hinfo.dirty with heq | ⟨hgc', -⟩
              · exact heq
              · rcases hd with hd | ⟨hd, -⟩ <;> exact absurd (hgc'.symm.trans hd) (by decide)
            refine hcond ⟨hinfo.checkOk, hex.2 ▸ hroom, ?_⟩
            rw [heq, hgc]
            exact hd }
  have hinit : ∀ j < 0, (st (visit n oldest j)).store = t →
      Usable db.gcRequest (st (visit n oldest j)).dirty →
      ¬ size + fdbSecRemainThreshold < z - (st (visit n oldest j)).used :=
    fun j hj => absurd hj (Nat.not_lt_zero j)
  obtain ⟨st', db', info, r, hrun, hrep, ⟨rfl, honly, hfound⟩ | ⟨rfl, honly, hr, hno⟩⟩ :=
    h.sectorIterator_rule ho holdest sector hcb ⟨rfl, .refl db, rfl, hinit⟩
  · exact ⟨db', info, r, hrun, hrep, honly, .inl hfound⟩
  · refine ⟨db', info, r, hrun, hrep, honly, .inr ⟨hr, fun i hi => ?_⟩⟩
    obtain ⟨k, hk, rfl⟩ := exists_visit ho hi
    exact hno k hk

/-- What `alloc_kv` returns. -/
inductive Allocated (z n : Nat) (st : Nat → Sec) (size : Nat) (db db' : Kvdb) (info : SecInfo)
    (r : Option Nat) : Prop
  | found (i : Nat) (hi : i < n) (hr : r = some (i * z + (st i).used))
      (hfits : Fits z size db.gcRequest (st i)) (hinfo : InfoAt z (i * z) (st i) info)
      (hexact : Exact z (i * z) (st i) info) (honly : CacheOnly db db')
      (hstore : (st i).store = .using ∨ (st i).store = .empty ∧
        (db.gcRequest = true ∨ ∃ j < n, j ≠ i ∧ (st j).store = .empty))
  | failed (hr : r = none) (gcRequest : Bool)
      (honly : CacheOnly { db with gcRequest := gcRequest } db')
      (hgc : db.gcRequest = true → gcRequest = true ∧ ∀ i < n, (st i).dirty = .no →
        ¬ size + fdbSecRemainThreshold < z - (st i).used)
      (husing : ∀ i < n, (st i).store = .using → Usable db.gcRequest (st i).dirty →
        ¬ size + fdbSecRemainThreshold < z - (st i).used)
      (hempty : ∀ i < n, ∀ j < n, i ≠ j → (st i).store = .empty → (st j).store = .empty →
        ¬ size + fdbSecRemainThreshold < z - (st i).used)
      (hspare : gcRequest = false → ∀ i < n, (st i).store = .empty →
        ∃ j < n, j ≠ i ∧ (st j).store = .empty)

/-- `alloc_kv`. -/
theorem Rep.allocKv_spec (h : Rep z n st db) (sector : SecInfo) (size : Nat) :
    ∃ db' info r, allocKv db sector size = (db', info, r) ∧ Rep z n st db' ∧
      Allocated z n st size db db' info r := by
  obtain ⟨db1, info1, s, hrun1, hrep1, honly1, hempty, htwo, htwo', husing⟩ :=
    h.sectorStatistics_spec sector
  have hgc1 : db1.gcRequest = db.gcRequest := by rw [honly1.eq]
  -- the sectors in use
  have hpass : ∃ db2 info2 r, (if 0 < s.2 then
      sectorIterator db1 info1 .using (allocKvCb size) none true else (db1, info1, none)) =
        (db2, info2, r) ∧ Rep z n st db2 ∧ CacheOnly db db2 ∧
      (Allocated z n st size db db2 info2 r ∧ r ≠ none ∨
        r = none ∧ ∀ i < n, (st i).store = .using → Usable db.gcRequest (st i).dirty →
          ¬ size + fdbSecRemainThreshold < z - (st i).used) := by
    by_cases hpos : 0 < s.2
    · obtain ⟨db2, info2, r, hrun2, hrep2, honly2, hcase⟩ :=
        hrep1.allocPass_spec info1 (t := .using) (by decide) size
      rw [if_pos hpos]
      refine ⟨db2, info2, r, hrun2, hrep2, honly1.trans honly2, ?_⟩
      rcases hcase with ⟨i, hi, hst, hfits, hinfo, hexact, rfl⟩ | hnone
      · rw [hgc1] at hfits
        exact .inl ⟨.found i hi rfl hfits hinfo hexact (honly1.trans honly2) (.inl hst),
          Option.some_ne_none _⟩
      · rw [hgc1] at hnone
        exact .inr hnone
    · rw [if_neg hpos]
      exact ⟨db1, info1, none, rfl, hrep1, honly1,
        .inr ⟨rfl, fun i hi hst => absurd (husing.mpr ⟨i, hi, hst⟩) hpos⟩⟩
  obtain ⟨db2, info2, r2, hrun2, hrep2, honly2, hcase⟩ := hpass
  have hgc2 : db2.gcRequest = db.gcRequest := by rw [honly2.eq]
  unfold allocKv
  rw [hrun1]
  dsimp only
  rw [hrun2]
  dsimp only
  rcases hcase with ⟨hfound, hne⟩ | ⟨rfl, hno⟩
  · rw [if_neg fun hcond => hne hcond.2]
    exact ⟨db2, info2, r2, rfl, hrep2, hfound⟩
  -- a sector without room is in use or empty
  have hall : (∀ i < n, (st i).store = .empty → (st i).dirty = .no →
      ¬ size + fdbSecRemainThreshold < z - (st i).used) →
      ∀ i < n, (st i).dirty = .no → ¬ size + fdbSecRemainThreshold < z - (st i).used := by
    intro hnoEmpty i hi hdirty
    rcases (h.ok i hi).store with ⟨hst, -⟩ | ⟨hst, -⟩
    · exact hnoEmpty i hi hst hdirty
    · exact hno i hi hst (.inl hdirty)
  by_cases hpos : 0 < s.1
  · rw [if_pos ⟨hpos, rfl⟩]
    by_cases hmore : fdbGcEmptySecThreshold < s.1 ∨ db2.gcRequest = true
    · obtain ⟨db3, info3, r, hrun3, hrep3, honly3, hcase⟩ :=
        hrep2.allocPass_spec info2 (t := .empty) (by decide) size
      rw [if_pos hmore, hrun3]
      refine ⟨db3, info3, r, rfl, hrep3, ?_⟩
      rcases hcase with ⟨i, hi, hst, hfits, hinfo, hexact, rfl⟩ | ⟨rfl, hnoEmpty⟩
      · rw [hgc2] at hfits hmore
        refine .found i hi rfl hfits hinfo hexact (honly2.trans honly3) (.inr ⟨hst, ?_⟩)
        exact hmore.symm.imp_right fun hlt => htwo hlt i
      · refine .failed rfl db.gcRequest (honly2.trans honly3)
          (fun hgc => ⟨hgc, hall fun i hi hst hd => hnoEmpty i hi hst (.inl hd)⟩) hno
          (fun i hi j _ _ hst _ => hnoEmpty i hi hst (.inl ?_)) fun hgc i _ _ => ?_
        · exact ((h.ok i hi).of_empty hst).2
        · rw [hgc2, hgc] at hmore
          exact htwo (hmore.resolve_right Bool.false_ne_true) i
    · rw [if_neg hmore]
      refine ⟨_, info2, none, rfl, { hrep2 with }, .failed rfl true ⟨by rw [honly2.eq]⟩
        (fun hgc => absurd (.inr (hgc2.trans hgc)) hmore) hno (fun i hi j hj hij hst hst' => ?_)
        fun hgc => absurd hgc.symm Bool.false_ne_true⟩
      exact absurd (.inl (htwo' i hi j hj hij hst hst')) hmore
  · rw [if_neg fun hcond => hpos hcond.1]
    have hnone : ∀ i < n, (st i).store ≠ .empty := fun i hi hst => hpos (hempty.mpr ⟨i, hi, hst⟩)
    exact ⟨db2, info2, none, rfl, hrep2, .failed rfl db.gcRequest honly2
      (fun hgc => ⟨hgc, hall fun i hi hst => absurd hst (hnone i hi)⟩) hno
      (fun i hi j _ _ hst _ => absurd hst (hnone i hi)) fun _ i hi hst => absurd hst (hnone i hi)⟩

end Alloc

end Hc32Board.FlashDb
