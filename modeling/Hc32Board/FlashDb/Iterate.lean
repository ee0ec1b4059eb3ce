import Hc32Board.FlashDb.Read

/-!
# The iterators

`sector_iterator` and `kv_iterator` start at the oldest sector and visit every sector
once.  `Rep.sectorIterator_rule` and `Rep.kvIterator_rule` are rules for them: what the callback
keeps from one sector or record to the next holds at the end, or the callback has
stopped the iteration.
-/

namespace Hc32Board.FlashDb

open Hc32Board.CodeLib

/-! ## The order of the sectors -/

/-- The sector that is visited behind `k` others. -/
def visit (n oldest k : Nat) : Nat := if oldest + k < n then oldest + k else oldest + k - n

section Visit

variable {n oldest k j i : Nat}

theorem visit_lt (ho : oldest < n) (hk : k < n) : visit n oldest k < n := by
  unfold visit
  split_ifs <;> omega

theorem visit_zero (ho : oldest < n) : visit n oldest 0 = oldest := if_pos ho

theorem visit_inj (hk : k < n) (hj : j < n)
    (h : visit n oldest k = visit n oldest j) : k = j := by
  unfold visit at h
  split_ifs at h <;> omega

theorem exists_visit (ho : oldest < n) (hi : i < n) : ∃ k < n, visit n oldest k = i := by
  rcases Nat.lt_or_ge i oldest with hlt | hge
  · refine ⟨i + n - oldest, by omega, ?_⟩
    unfold visit
    rw [if_neg (by omega)]
    omega
  · refine ⟨i - oldest, by omega, ?_⟩
    unfold visit
    rw [if_pos (by omega)]
    omega

theorem visit_succ (ho : oldest < n) (hk : k + 1 < n) :
    visit n oldest (k + 1) = if visit n oldest k + 1 < n then visit n oldest k + 1 else 0 := by
  unfold visit
  split_ifs <;> omega

end Visit

section Iterators

variable {z n i : Nat} {st : Nat → Sec} {db : Kvdb} {info : SecInfo}

/-- `get_next_sector_addr` behind the `k`-th sector. -/
theorem Based.getNextSectorAddr_spec (h : Based z n db) (haddr : info.addr = i * z)
    (hcombined : info.combined = sectorNotCombined) (k : Nat) :
    getNextSectorAddr db info ((k + 1) * z) =
      if k + 1 < n then some ((if i + 1 < n then i + 1 else 0) * z) else none := by
  have hz : 0 < z := by
    have := h.geo.room
    omega
  have hround : (k + 1) * z + z ≤ n * z ↔ k + 1 < n := by
    rw [← Nat.succ_mul, Nat.mul_le_mul_right_iff hz]
    exact Iff.rfl
  have hnext : i * z + z < n * z ↔ i + 1 < n := by
    rw [← Nat.succ_mul, Nat.mul_lt_mul_right hz]
  unfold getNextSectorAddr
  rw [if_pos hcombined, haddr, h.secSize, h.maxSize]
  dsimp only
  rw [if_congr hround rfl rfl]
  refine if_congr Iff.rfl ?_ rfl
  rw [if_congr hnext rfl rfl]
  split_ifs
  · rw [Nat.succ_mul]
  · rw [Nat.zero_mul]

/-- The sector behind the `k`-th one, or the end. -/
theorem Rep.getNextSectorAddr_visit (h : Rep z n st db) {oldest k : Nat} (ho : oldest < n)
    (hk : k < n)
    (haddr : info.addr = visit n oldest k * z) (hcombined : info.combined = sectorNotCombined) :
    k + 1 < n ∧ getNextSectorAddr db info ((k + 1) * z) = some (visit n oldest (k + 1) * z) ∨
      n = k + 1 ∧ getNextSectorAddr db info ((k + 1) * z) = none := by
  rw [h.based.getNextSectorAddr_spec haddr hcombined k]
  rcases Nat.lt_or_ge (k + 1) n with hlt | hge
  · exact .inl ⟨hlt, by rw [if_pos hlt, visit_succ ho hlt]⟩
  · exact .inr ⟨by omega, if_neg (by omega)⟩

variable {σ : Type}

/-- What the callback of `sector_iterator` has to keep.  `J k` holds when `k` sectors have
been visited, and `Q` when the callback stops. -/
structure SectorCallback (z n oldest : Nat) (status : StoreStatus) (traversal : Bool)
    (cb : Kvdb → SecInfo → σ → Kvdb × σ × Bool) (J : Nat → (Nat → Sec) → Kvdb → σ → Prop)
    (Q : (Nat → Sec) → Kvdb → SecInfo → σ → Prop) : Prop where
  cache : ∀ k st db db' s, J k st db s → CacheOnly db db' → J k st db' s
  skip : ∀ k st db s, k < n → Rep z n st db → J k st db s →
    ¬ (status = .unused ∨ status = (st (visit n oldest k)).store) → J (k + 1) st db s
  call : ∀ k st db s info, k < n → Rep z n st db → J k st db s →
    InfoAt z (visit n oldest k * z) (st (visit n oldest k)) info →
    (traversal = true → Exact z (visit n oldest k * z) (st (visit n oldest k)) info) →
    (status = .unused ∨ status = (st (visit n oldest k)).store) →
    ∃ st' db' s' stop, cb db info s = (db', s', stop) ∧ Rep z n st' db' ∧
      (stop = false ∧ J (k + 1) st' db' s' ∨ stop = true ∧ Q st' db' info s')

section Sectors

variable {status : StoreStatus} {traversal : Bool} {cb : Kvdb → SecInfo → σ → Kvdb × σ × Bool}
  {oldest : Nat} {J : Nat → (Nat → Sec) → Kvdb → σ → Prop}
  {Q : (Nat → Sec) → Kvdb → SecInfo → σ → Prop}

/-- The rule for the loop of `sector_iterator`. -/
theorem sectorLoop_rule (ho : oldest < n)
    (hcb : SectorCallback z n oldest status traversal cb J Q) :
    ∀ (fuel k : Nat) (st : Nat → Sec) (db : Kvdb) (s : σ) (sector : SecInfo), n ≤ k + fuel → k < n →
      Rep z n st db → J k st db s →
      ∃ st' db' info s', sectorLoop status traversal cb fuel db sector (visit n oldest k * z)
        (k * z) s = (db', info, s') ∧ Rep z n st' db' ∧ (Q st' db' info s' ∨ J n st' db' s') := by
  intro fuel
  induction fuel with
  | zero => intro k _ _ _ _ hfuel hk; omega
  | succ fuel ih =>
    intro k st db s sector hfuel hk hrep hJ
    have hi := visit_lt ho hk
    obtain ⟨db1, info1, hread1, hrep1, honly1, hinfo1, -⟩ :=
      hrep.readSectorInfo_spec hi sector false
    have hJ1 := hcb.cache _ _ _ _ _ hJ honly1
    rw [sectorLoop, hrep.secSize, ← Nat.succ_mul, hread1]
    dsimp only
    by_cases hmatch : status = .unused ∨ status = info1.store
    · have hread2 : ∃ db2 info2, (if traversal = true then
          readSectorInfo db1 (visit n oldest k * z) info1 true else (db1, info1, .noErr)) =
            (db2, info2, .noErr) ∧ Rep z n st db2 ∧ CacheOnly db1 db2 ∧
          InfoAt z (visit n oldest k * z) (st (visit n oldest k)) info2 ∧
          (traversal = true → Exact z (visit n oldest k * z) (st (visit n oldest k)) info2) := by
        cases traversal with
        | true =>
          obtain ⟨db2, info2, hread2, hrep2, honly2, hinfo2, hexact⟩ :=
            hrep1.readSectorInfo_spec hi info1 true
          exact ⟨db2, info2, hread2, hrep2, honly2, hinfo2, hexact⟩
        | false =>
          exact ⟨db1, info1, rfl, hrep1, .refl db1, hinfo1, fun h => absurd h Bool.false_ne_true⟩
      obtain ⟨db2, info2, hread2, hrep2, honly2, hinfo2, hexact⟩ := hread2
      rw [hinfo1.store] at hmatch
      obtain ⟨st', db', s', stop, hcall, hrep', hstop⟩ :=
        hcb.call _ _ _ _ _ hk hrep2 (hcb.cache _ _ _ _ _ hJ1 honly2) hinfo2 hexact hmatch
      rw [if_pos (by rwa [hinfo1.store]), hread2]
      dsimp only
      rw [hcall]
      rcases hstop with ⟨rfl, hJ'⟩ | ⟨rfl, hQ⟩
      · dsimp only
        rcases hrep'.getNextSectorAddr_visit ho hk hinfo2.addr hinfo2.combined with
          ⟨hlt, hnext⟩ | ⟨rfl, hnext⟩
        · rw [hnext]
          exact ih (k + 1) st' db' s' info2 (by omega) hlt hrep' hJ'
        · rw [hnext]
          exact ⟨st', db', info2, s', rfl, hrep', .inr hJ'⟩
      · exact ⟨st', db', info2, s', rfl, hrep', .inl hQ⟩
    · rw [if_neg hmatch]
      rw [hinfo1.store] at hmatch
      have hJ2 := hcb.skip _ _ _ _ hk hrep1 hJ1 hmatch
      rcases hrep1.getNextSectorAddr_visit ho hk hinfo1.addr hinfo1.combined with
        ⟨hlt, hnext⟩ | ⟨rfl, hnext⟩
      · rw [hnext]
        exact ih (k + 1) st db1 s info1 (by omega) hlt hrep1 hJ2
      · rw [hnext]
        exact ⟨st, db1, info1, s, rfl, hrep1, .inr hJ2⟩

theorem Based.sectorNum_eq (h : Based z n db) : db.sectorNum = n := by
  have hz := h.geo.room
  rw [Kvdb.sectorNum, h.maxSize, h.secSize, Nat.mul_div_cancel _ (by omega)]

/-- The rule for `sector_iterator`. -/
theorem Rep.sectorIterator_rule (h : Rep z n st db) (ho : oldest < n)
    (holdest : db.oldestAddr = oldest * z) (sector : SecInfo)
    (hcb : SectorCallback z n oldest status traversal cb J Q) {s : σ} (hinit : J 0 st db s) :
    ∃ st' db' info s', sectorIterator db sector status cb s traversal = (db', info, s') ∧
      Rep z n st' db' ∧ (Q st' db' info s' ∨ J n st' db' s') := by
  have hn := h.geo.sectors
  have hrun := sectorLoop_rule ho hcb (n + 1) 0 st db s sector (by omega) (by omega) h hinit
  rw [visit_zero ho, Nat.zero_mul, ← holdest] at hrun
  rwa [sectorIterator, h.based.sectorNum_eq]

end Sectors

/-! ## Records -/

section Records

variable {cb : Kvdb → Kv → σ → Kvdb × σ × Bool} {J : Nat → List Rec → Kvdb → σ → Prop}
  {Q : Kvdb → Kv → σ → Prop} {oldest : Nat}

/-- What the callback has to keep.  `J k pre` holds when `k` sectors have been visited and
then the records `pre` of the next one. -/
def KvCallback (z n oldest : Nat) (st : Nat → Sec) (cb : Kvdb → Kv → σ → Kvdb × σ × Bool)
    (J : Nat → List Rec → Kvdb → σ → Prop) (Q : Kvdb → Kv → σ → Prop) : Prop :=
  ∀ k pre post r db s kv, k < n → Rep z n st db →
    (st (visit n oldest k)).recs = pre ++ r :: post → J k pre db s →
    KvShows r (visit n oldest k * z + (sectorHdrDataSize + recsLen pre)) kv →
    ∃ db' s' stop, cb db kv s = (db', s', stop) ∧ Rep z n st db' ∧
      (stop = false ∧ J k (pre ++ [r]) db' s' ∨ stop = true ∧ Q db' kv s')

/-- The rule for the loop of `kv_iterator` over the records of a sector. -/
theorem kvLoop_rule (ho : oldest < n) (hcb : KvCallback z n oldest st cb J Q) {k : Nat} (hk : k < n)
    (hstore : info.store = .using) (haddr : info.addr = visit n oldest k * z) {post : List Rec} :
    ∀ (pre : List Rec) (r : Rec) (fuel : Nat) (db : Kvdb) (kv : Kv) (s : σ),
      (st (visit n oldest k)).recs = pre ++ r :: post → post.length < fuel → Rep z n st db →
      J k pre db s → kv.start = visit n oldest k * z + (sectorHdrDataSize + recsLen pre) →
      kv.name.length = fdbKvNameMax →
      ∃ db' kv' s' stop, kvLoop info cb fuel db kv s = (db', kv', s', stop) ∧ Rep z n st db' ∧
        kv'.name.length = fdbKvNameMax ∧
        (stop = false ∧ J k (st (visit n oldest k)).recs db' s' ∨ stop = true ∧ Q db' kv' s') := by
  have hi := visit_lt ho hk
  induction post with
  | nil =>
    intro pre r fuel db kv s hrecs hfuel hrep hJ hstart hname
    obtain ⟨fuel, rfl⟩ := Nat.exists_eq_add_of_lt hfuel
    obtain ⟨kv', hread, hshows⟩ := hrep.readKv_spec hi hrecs hstart hname
    rw [hstart] at hshows
    obtain ⟨db', s', stop, hcall, hrep', hstop⟩ := hcb _ _ _ _ _ _ _ hk hrep hrecs hJ hshows
    rw [kvLoop, hread]
    dsimp only
    rw [hcall]
    rcases hstop with ⟨rfl, hJ'⟩ | ⟨rfl, hQ⟩
    · dsimp only
      rw [hrep'.getNextKvAddr_spec hi hrecs hstore haddr hshows.start hshows.len hshows.crcIsOk,
        if_pos rfl]
      exact ⟨db', kv', s', false, rfl, hrep', hshows.length_name, .inl ⟨rfl, hrecs ▸ hJ'⟩⟩
    · exact ⟨db', kv', s', true, rfl, hrep', hshows.length_name, .inr ⟨rfl, hQ⟩⟩
  | cons p post ih =>
    intro pre r fuel db kv s hrecs hfuel hrep hJ hstart hname
    obtain ⟨fuel, rfl⟩ := Nat.exists_eq_add_of_lt hfuel
    obtain ⟨kv', hread, hshows⟩ := hrep.readKv_spec hi hrecs hstart hname
    rw [hstart] at hshows
    obtain ⟨db', s', stop, hcall, hrep', hstop⟩ := hcb _ _ _ _ _ _ _ hk hrep hrecs hJ hshows
    rw [kvLoop, hread]
    dsimp only
    rw [hcall]
    rcases hstop with ⟨rfl, hJ'⟩ | ⟨rfl, hQ⟩
    · dsimp only
      rw [hrep'.getNextKvAddr_spec hi hrecs hstore haddr hshows.start hshows.len hshows.crcIsOk,
        if_neg (List.cons_ne_nil p post)]
      exact ih (pre ++ [r]) p _ db' _ s' (by rw [hrecs, List.append_assoc]; rfl)
        (by rw [List.length_cons]; omega) hrep' hJ' rfl hshows.length_name
    · exact ⟨db', kv', s', true, rfl, hrep', hshows.length_name, .inr ⟨rfl, hQ⟩⟩

/-- The rule for the loop of `kv_iterator` over the sectors. -/
theorem kvSectorLoop_rule (ho : oldest < n) (hcb : KvCallback z n oldest st cb J Q)
    (hcache : ∀ k pre db db' s, J k pre db s → CacheOnly db db' → J k pre db' s)
    (hend : ∀ k db s, k < n → J k (st (visit n oldest k)).recs db s → J (k + 1) [] db s) :
    ∀ (fuel k : Nat) (db : Kvdb) (sector : SecInfo) (kv : Kv) (s : σ), n ≤ k + fuel → k < n →
      Rep z n st db → J k [] db s → kv.name.length = fdbKvNameMax →
      ∃ db' kv' s', kvSectorLoop cb fuel db sector kv (visit n oldest k * z) (k * z) s =
        (db', kv', s') ∧ Rep z n st db' ∧ kv'.name.length = fdbKvNameMax ∧
        (Q db' kv' s' ∨ J n [] db' s') := by
  intro fuel
  induction fuel with
  | zero => intro k _ _ _ _ hfuel hk; omega
  | succ fuel ih =>
    intro k db sector kv s hfuel hk hrep hJ hname
    have hi := visit_lt ho hk
    obtain ⟨db1, info, hread, hrep1, honly, hinfo, -⟩ := hrep.readSectorInfo_spec hi sector false
    have hJ1 := hcache _ _ _ _ _ hJ honly
    -- the records of this sector
    have hsector : ∃ db' kv' s' stop,
        (if FdbErr.noErr = .noErr ∧ (info.store = .using ∨ info.store = .full) then
          kvLoop info cb db1.secSize db1 { kv with start := info.addr + sectorHdrDataSize } s
        else (db1, kv, s, false)) = (db', kv', s', stop) ∧ Rep z n st db' ∧
        kv'.name.length = fdbKvNameMax ∧
        (stop = false ∧ J k (st (visit n oldest k)).recs db' s' ∨ stop = true ∧ Q db' kv' s') := by
      have hok := hrep.ok _ hi
      rcases hok.store with ⟨hempty, hrecs, -⟩ | ⟨husing, hrecs, -⟩
      · rw [if_neg (by rw [hinfo.store, hempty]; decide)]
        exact ⟨db1, kv, s, false, rfl, hrep1, hname, .inl ⟨rfl, hrecs ▸ hJ1⟩⟩
      · obtain ⟨r, post, hcons⟩ := List.exists_cons_of_ne_nil hrecs
        rw [if_pos ⟨rfl, .inl (hinfo.store.trans husing)⟩]
        refine kvLoop_rule ho hcb hk (hinfo.store.trans husing) hinfo.addr [] r _ db1 _ s hcons ?_
          hrep1 hJ1 ?_ hname
        · have hlen := length_le_recsLen (st (visit n oldest k)).recs
          have hroom := hok.room
          rw [Sec.used] at hroom
          rw [hcons, List.length_cons] at hlen
          rw [hcons] at hroom
          rw [hrep1.secSize]
          omega
        · exact congrArg (· + sectorHdrDataSize) hinfo.addr
    obtain ⟨db', kv', s', stop, hrun, hrep', hname', hstop⟩ := hsector
    rw [kvSectorLoop, hrep.secSize, ← Nat.succ_mul, hread]
    dsimp only
    rw [hrun]
    rcases hstop with ⟨rfl, hJ'⟩ | ⟨rfl, hQ⟩
    · dsimp only
      rw [if_neg Bool.false_ne_true]
      rcases hrep'.getNextSectorAddr_visit ho hk hinfo.addr hinfo.combined with
        ⟨hlt, hnext⟩ | ⟨rfl, hnext⟩
      · rw [hnext]
        exact ih (k + 1) db' info kv' s' (by omega) hlt hrep' (hend k db' s' hk hJ') hname'
      · rw [hnext]
        exact ⟨db', kv', s', rfl, hrep', hname', .inr (hend k db' s' hk hJ')⟩
    · exact ⟨db', kv', s', rfl, hrep', hname', .inl hQ⟩

/-- The rule for `kv_iterator`. -/
theorem Rep.kvIterator_rule (h : Rep z n st db) (ho : oldest < n)
    (holdest : db.oldestAddr = oldest * z) {kv : Kv} (hname : kv.name.length = fdbKvNameMax) {s : σ}
    (hcb : KvCallback z n oldest st cb J Q)
    (hcache : ∀ k pre db db' s, J k pre db s → CacheOnly db db' → J k pre db' s)
    (hend : ∀ k db s, k < n → J k (st (visit n oldest k)).recs db s → J (k + 1) [] db s)
    (hinit : J 0 [] db s) :
    ∃ db' kv' s', kvIterator db kv cb s = (db', kv', s') ∧ Rep z n st db' ∧
      kv'.name.length = fdbKvNameMax ∧ (Q db' kv' s' ∨ J n [] db' s') := by
  have hn := h.geo.sectors
  have hrun := kvSectorLoop_rule ho hcb hcache hend (n + 1) 0 db SecInfo.fresh kv s (by omega)
    (by omega) h hinit hname
  rw [visit_zero ho, Nat.zero_mul, ← holdest] at hrun
  rwa [kvIterator, h.based.sectorNum_eq]

end Records

end Iterators

end Hc32Board.FlashDb
