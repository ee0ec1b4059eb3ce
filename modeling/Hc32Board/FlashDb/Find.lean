import Hc32Board.FlashDb.Iterate

/-!
# Finding a record

A key has at most one live record, and its address says which one it is.  `Live` is the
set of live records of a row of sectors.

`find_kv` asks the KV cache first.  A node of the cache is hit when 16 bits of a check
value agree and the name starts like the key, so a key can hit the record of another
key.  `Keys` is the set of keys that are in use, and it rules this out: of two keys with
the same 16 bits none may be the start of the other.  Under this condition the cache
and the search through the sectors give the same answer (`Rep.findKv_spec`).
-/

namespace Hc32Board.FlashDb

open Hc32Board.CodeLib

/-! ## Live records -/

/-- The record at an address. -/
def storeRecAt (z : Nat) (st : Nat → Sec) (a : Nat) : Option Rec :=
  if sectorHdrDataSize ≤ a % z then recAt (st (a / z)).recs (a % z - sectorHdrDataSize) else none

/-- At this address there is a live record of the key with the value. -/
def Live (z n : Nat) (st : Nat → Sec) (a : Nat) (key value : Bytes) : Prop :=
  a < n * z ∧ storeRecAt z st a = some ⟨.write, key, value⟩

section Live

variable {z n i : Nat} {st : Nat → Sec} {a : Nat} {key value : Bytes}

theorem storeRecAt_sector {o : Nat} (ho : sectorHdrDataSize + o < z) :
    storeRecAt z st (i * z + (sectorHdrDataSize + o)) = recAt (st i).recs o := by
  have hz : 0 < z := by omega
  have hmod : (i * z + (sectorHdrDataSize + o)) % z = sectorHdrDataSize + o := by
    rw [Nat.mul_comm, Nat.mul_add_mod, Nat.mod_eq_of_lt ho]
  have hdiv : (i * z + (sectorHdrDataSize + o)) / z = i := by
    rw [Nat.mul_comm, Nat.mul_add_div hz, Nat.div_eq_of_lt ho, Nat.add_zero]
  rw [storeRecAt, hmod, hdiv, if_pos (by omega), Nat.add_sub_cancel_left]

theorem storeRecAt_record {pre post : List Rec} {r : Rec} (hrecs : (st i).recs = pre ++ r :: post)
    (hlt : sectorHdrDataSize + recsLen pre < z) :
    storeRecAt z st (i * z + (sectorHdrDataSize + recsLen pre)) = some r := by
  rw [storeRecAt_sector hlt, hrecs, recAt_append_cons]

/-- A record that is found by its address stands in a sector. -/
theorem exists_of_storeRecAt {r : Rec} (ha : a < n * z) (h : storeRecAt z st a = some r) :
    ∃ i < n, ∃ pre post, (st i).recs = pre ++ r :: post ∧
      a = i * z + (sectorHdrDataSize + recsLen pre) := by
  rw [storeRecAt] at h
  split_ifs at h with hle
  obtain ⟨pre, post, hrecs, ho⟩ := exists_of_recAt h
  refine ⟨a / z, Nat.div_lt_of_lt_mul (by rwa [Nat.mul_comm] at ha), pre, post, hrecs, ?_⟩
  have := Nat.div_add_mod a z
  rw [Nat.mul_comm] at this
  omega

/-- A record with status `write` is live. -/
theorem Rep.live {db : Kvdb} (h : Rep z n st db) (hi : i < n) {pre post : List Rec}
    (hrecs : (st i).recs = pre ++ ⟨.write, key, value⟩ :: post) :
    Live z n st (i * z + (sectorHdrDataSize + recsLen pre)) key value := by
  have hroom := (h.ok i hi).room
  have hend := sector_end_le (z := z) hi
  rw [Sec.used, hrecs, recsLen_append, recsLen_cons] at hroom
  exact ⟨by omega, storeRecAt_record hrecs (by omega)⟩

end Live

/-! ## Searching the sectors -/

section Search

variable {z n : Nat} {st : Nat → Sec} {db : Kvdb} {key : Bytes}

/-- The record of a key that the callback looks for. -/
def Rec.isFor (r : Rec) (key : Bytes) : Prop := r.status = .write ∧ r.name = key

/-- The record of the key is not in the first `k` sectors and not in `pre`. -/
def NotYet (n oldest : Nat) (st : Nat → Sec) (key : Bytes) (k : Nat) (pre : List Rec) : Prop :=
  (∀ j < k, ∀ r ∈ (st (visit n oldest j)).recs, ¬ r.isFor key) ∧ ∀ r ∈ pre, ¬ r.isFor key

theorem NotYet.nextSector {oldest k : Nat}
    (h : NotYet n oldest st key k (st (visit n oldest k)).recs) :
    NotYet n oldest st key (k + 1) [] := by
  refine ⟨fun j hj => ?_, fun r hr => absurd hr List.not_mem_nil⟩
  rcases Nat.lt_succ_iff_lt_or_eq.mp hj with hlt | rfl
  · exact h.1 j hlt
  · exact h.2

theorem findKvCb_eq {r : Rec} {a : Nat} {kv : Kv} (h : KvShows r a kv) (db : Kvdb) (s : Bool) :
    ∃ found, findKvCb key db kv s = (db, found, found) ∧ (found = true ↔ r.isFor key) := by
  refine ⟨_, rfl, ?_⟩
  rw [h.nameLen, h.crcIsOk, h.status]
  simp only [Bool.and_true, Bool.and_eq_true, decide_eq_true_eq, Rec.isFor]
  constructor
  · rintro ⟨⟨hlen, hst⟩, hname⟩
    rw [hlen, h.name] at hname
    exact ⟨hst, hname⟩
  · rintro ⟨hst, rfl⟩
    exact ⟨⟨rfl, hst⟩, h.name⟩

/-- The search through the sectors finds a live record, or there is none. -/
theorem Rep.findKvNoCache_spec (h : Rep z n st db) (key : Bytes) {kv : Kv}
    (hname : kv.name.length = fdbKvNameMax) :
    ∃ db' kv' found, findKvNoCache db key kv = (db', kv', found) ∧ Rep z n st db' ∧
      CacheOnly db db' ∧ kv'.name.length = fdbKvNameMax ∧
      (found = true ∧ (∃ a value, Live z n st a key value ∧ KvShows ⟨.write, key, value⟩ a kv') ∨
        found = false ∧ ∀ a value, ¬ Live z n st a key value) := by
  obtain ⟨oldest, ho, holdest⟩ := h.oldest
  -- as long as the search goes on, no record so far was the right one
  have hcb : KvCallback z n oldest st (findKvCb key)
      (fun k pre db' s => CacheOnly db db' ∧ s = false ∧ NotYet n oldest st key k pre)
      (fun db' kv' s => CacheOnly db db' ∧ s = true ∧
        ∃ a value, Live z n st a key value ∧ KvShows ⟨.write, key, value⟩ a kv') := by
    rintro k pre post r db1 s kv1 hk hrep1 hrecs ⟨honly, -, hvisited, hpre⟩ hshows
    obtain ⟨found, hcall, hfound⟩ := findKvCb_eq hshows db1 s
    refine ⟨db1, found, found, hcall, hrep1, ?_⟩
    cases found with
    | true =>
      obtain ⟨hst, hkey⟩ := hfound.mp rfl
      obtain ⟨status, name, value⟩ := r
      obtain rfl : status = .write := hst
      obtain rfl : name = key := hkey
      exact .inr ⟨rfl, honly, rfl, _, value, h.live (visit_lt ho hk) hrecs, hshows⟩
    | false =>
      refine .inl ⟨rfl, honly, rfl, hvisited, fun r' hr' => ?_⟩
      rcases List.mem_append.mp hr' with hmem | hmem
      · exact hpre r' hmem
      · obtain rfl := List.mem_singleton.mp hmem
        exact fun hfor => Bool.false_ne_true (hfound.mpr hfor)
  have hinit : NotYet n oldest st key 0 [] :=
    ⟨fun j hj => absurd hj (Nat.not_lt_zero j), fun r hr => absurd hr List.not_mem_nil⟩
  obtain ⟨db', kv', found, hrun, hrep, hname', hend⟩ := h.kvIterator_rule ho holdest hname hcb
    (fun k pre db1 db2 s hJ honly => ⟨hJ.1.trans honly, hJ.2⟩)
    (fun k db1 s hk hJ => ⟨hJ.1, hJ.2.1, hJ.2.2.nextSector⟩) ⟨.refl db, rfl, hinit⟩
  refine ⟨db', kv', found, hrun, hrep, ?_⟩
  rcases hend with ⟨honly, hfound, hlive⟩ | ⟨honly, hfound, hnone, -⟩
  · exact ⟨honly, hname', .inl ⟨hfound, hlive⟩⟩
  · refine ⟨honly, hname', .inr ⟨hfound, fun a value hlive => ?_⟩⟩
    obtain ⟨i, hi, pre, post, hrecs, -⟩ := exists_of_storeRecAt hlive.1 hlive.2
    obtain ⟨k, hk, rfl⟩ := exists_visit ho hi
    exact hnone k hk ⟨.write, key, value⟩ (by rw [hrecs]; simp) ⟨rfl, rfl⟩

end Search

/-! ## The KV cache -/

/-- The keys in use. -/
structure Keys (K : Set Bytes) : Prop where
  length_lt : ∀ k ∈ K, k.length < fdbKvNameMax
  no_nul : ∀ k ∈ K, (0 : UInt8) ∉ k
  no_clash : ∀ k ∈ K, ∀ k' ∈ K, nameCrc k = nameCrc k' → k <+: k' → k = k'

/-- At this address there is a live record whose name has the check value. -/
def LiveCrc (z n : Nat) (st : Nat → Sec) (crc : BitVec 16) (a : Nat) : Prop :=
  ∃ key value, Live z n st a key value ∧ nameCrc key = crc

/-- What a function leaves when it has changed the caches only. -/
structure CachesOnly (db db' : Kvdb) : Prop where
  eq : db' = { db with sectorCache := db'.sectorCache, kvCache := db'.kvCache }

theorem CacheOnly.cachesOnly {db db' : Kvdb} (h : CacheOnly db db') : CachesOnly db db' := by
  refine ⟨?_⟩
  rw [h.eq]

section Find

variable {z n : Nat} {st : Nat → Sec} {db : Kvdb} {key : Bytes} {K : Set Bytes}

theorem Rep.withKvCache (h : Rep z n st db) (cache : List KvCacheNode) :
    Rep z n st { db with kvCache := cache } :=
  { h with }

/-- The name and the value of a live record in the flash. -/
theorem Rep.live_data (h : Rep z n st db) {a : Nat} {name value : Bytes}
    (hlive : Live z n st a name value) :
    readRange db.flash.img (a + kvHdrDataSize) (name.length + value.length) = name ++ value ∧
      name.length < fdbKvNameMax ∧
      a + kvHdrDataSize + (name.length + value.length) + fdbSecRemainThreshold ≤ db.flash.size := by
  obtain ⟨i, hi, pre, post, hrecs, rfl⟩ := exists_of_storeRecAt hlive.1 hlive.2
  have hok := h.ok i hi
  have hroom := hok.room
  have hend := sector_end_le (z := z) hi
  have hmem : (⟨.write, name, value⟩ : Rec) ∈ (st i).recs := by
    rw [hrecs]
    simp
  have hlen : Rec.len ⟨.write, name, value⟩ = kvHdrDataSize + (name.length + value.length) :=
    Nat.add_assoc _ _ _
  have hbytes := (h.secs i hi).record hrecs
  rw [Rec.bytes_eq_hdr, hlen, readRange_add] at hbytes
  rw [Sec.used, hrecs, recsLen_append, recsLen_cons, hlen] at hroom
  exact ⟨(List.append_inj hbytes (by simp)).2, (hok.recs _ hmem).name_lt, by rw [h.size]; omega⟩

/-- The bytes behind the header of a live record start with its name. -/
theorem Rep.live_name (h : Rep z n st db) {a : Nat} {name value : Bytes}
    (hlive : Live z n st a name value) :
    ∃ rest, db.read (a + kvHdrDataSize) fdbKvNameMax (zeros fdbKvNameMax) = name ++ rest := by
  obtain ⟨hdata, hlt, hsize⟩ := h.live_data hlive
  unfold fdbSecRemainThreshold at hsize
  refine ⟨readRange db.flash.img (a + kvHdrDataSize + name.length) (fdbKvNameMax - name.length), ?_⟩
  rw [Kvdb.read, Flash.read_zeros (by omega)]
  conv_lhs => rw [← Nat.add_sub_cancel' (Nat.le_of_lt hlt)]
  rw [readRange_add, readRange_left hdata]

/-- The value of a live record. -/
theorem Rep.live_value (h : Rep z n st db) {a : Nat} {name value : Bytes}
    (hlive : Live z n st a name value) {m : Nat} (hm : m ≤ value.length) (buf : Bytes) :
    db.read (a + kvHdrDataSize + name.length) m buf = overlay (value.take m) buf := by
  obtain ⟨hdata, -, hsize⟩ := h.live_data hlive
  rw [readRange_add] at hdata
  have hvalue := (List.append_inj hdata (by simp)).2
  have htake : readRange db.flash.img (a + kvHdrDataSize + name.length) m = value.take m := by
    rw [← Nat.add_sub_cancel' hm, readRange_add] at hvalue
    rw [← hvalue, List.take_left' (length_readRange _ _ _)]
  rw [Kvdb.read, Flash.read, if_pos (by omega), htake]

/-- A hit in the KV cache is the record of the key. -/
theorem Rep.live_of_cacheHit (h : Rep z n st db) (hkeys : Keys K) (hkey : key ∈ K)
    (hlive : ∀ a k v, Live z n st a k v → k ∈ K)
    (hcache : KvCacheOk (LiveCrc z n st) db.kvCache) {i : Nat} {node : KvCacheNode}
    (hnode : db.kvCache[i]? = some node) (hhit : db.cacheHit key node = true) :
    ∃ a value, node.addr = some a ∧ Live z n st a key value := by
  unfold Kvdb.cacheHit at hhit
  cases haddr : node.addr with
  | none => rw [haddr] at hhit; exact absurd hhit Bool.false_ne_true
  | some a =>
    rw [haddr] at hhit
    simp only [Bool.and_eq_true, decide_eq_true_eq] at hhit
    obtain ⟨hcrc, hname⟩ := hhit
    have hview : (cacheView db.kvCache)[i]? = some (nameCrc key, some a) := by
      rw [cacheView, List.getElem?_map, hnode, ← hcrc, ← haddr]
      rfl
    obtain ⟨k, value, hrec, hk⟩ := hcache.live i _ a hview
    obtain ⟨rest, hbytes⟩ := h.live_name hrec
    -- both names are the start of the same bytes
    have hstart : key <+: k ++ rest := by
      rw [← hbytes, ← hname]
      exact List.take_prefix _ _
    have heq : k = key := by
      rcases List.prefix_or_prefix_of_prefix (List.prefix_append k rest) hstart with hpre | hpre
      · exact hkeys.no_clash k (hlive a k value hrec) key hkey hk hpre
      · exact (hkeys.no_clash key hkey k (hlive a k value hrec) hk.symm hpre).symm
    subst heq
    exact ⟨a, value, rfl, hrec⟩

/-- `find_kv` finds the live record of a key, through the cache or without it. -/
theorem Rep.findKv_spec (h : Rep z n st db) (hkeys : Keys K) (hkey : key ∈ K)
    (hlive : ∀ a k v, Live z n st a k v → k ∈ K)
    (hcache : KvCacheOk (LiveCrc z n st) db.kvCache) (kv : Kv)
    (hname : kv.name.length = fdbKvNameMax) :
    ∃ db' kv' found, findKv db key kv = (db', kv', found) ∧ Rep z n st db' ∧ CachesOnly db db' ∧
      KvCacheOk (LiveCrc z n st) db'.kvCache ∧ kv'.name.length = fdbKvNameMax ∧
      (found = true ∧ (∃ a value, Live z n st a key value ∧ KvShows ⟨.write, key, value⟩ a kv') ∨
        found = false ∧ ∀ a value, ¬ Live z n st a key value) := by
  unfold findKv getKvFromCache
  cases hidx : db.kvCache.findIdx? (db.cacheHit key) with
  | some i =>
    obtain ⟨hi, hhit, -⟩ := List.findIdx?_eq_some_iff_getElem.mp hidx
    have hnode := List.getElem?_eq_getElem hi
    obtain ⟨a, value, haddr, hrec⟩ := h.live_of_cacheHit hkeys hkey hlive hcache hnode hhit
    have hrep := h.withKvCache (db.kvCache.modify i KvCacheNode.hit)
    obtain ⟨j, hj, pre, post, hrecs, rfl⟩ := exists_of_storeRecAt hrec.1 hrec.2
    obtain ⟨kv', hread, hshows⟩ := @Rep.readKv_spec z n j st _ hrep hj pre post _ hrecs
      { kv with start := _ } rfl hname
    dsimp only
    rw [hnode, Option.bind_some, haddr]
    dsimp only
    rw [hread]
    exact ⟨_, kv', true, rfl, hrep, ⟨rfl⟩, hcache.of_view_eq (cacheView_hit _ i),
      hshows.length_name, .inl ⟨rfl, _, value, hrec, hshows⟩⟩
  | none =>
    obtain ⟨db', kv', found, hrun, hrep, honly, hname', hcase⟩ := h.findKvNoCache_spec key hname
    have hkv : db'.kvCache = db.kvCache := by rw [honly.eq]
    dsimp only
    rw [hrun]
    rcases hcase with ⟨rfl, a, value, hrec, hshows⟩ | ⟨rfl, hnone⟩
    · dsimp only
      rw [if_pos rfl]
      refine ⟨_, kv', true, rfl, hrep.withKvCache _, ⟨by rw [honly.eq]⟩, ?_, hname',
        .inl ⟨rfl, a, value, hrec, hshows⟩⟩
      rw [hkv]
      exact hcache.update (fun _ _ _ hP => hP) ⟨key, value, by rwa [hshows.start], rfl⟩
    · exact ⟨db', kv', false, rfl, hrep, honly.cachesOnly, hkv ▸ hcache, hname', .inr ⟨rfl, hnone⟩⟩

/-- `get_kv` reads the value of a key. -/
theorem Rep.getKv_spec (h : Rep z n st db) (hkeys : Keys K) (hkey : key ∈ K)
    (hlive : ∀ a k v, Live z n st a k v → k ∈ K)
    (hcache : KvCacheOk (LiveCrc z n st) db.kvCache) (buf : Bytes) :
    ∃ db' buf' readLen valueLen, getKv db key buf = (db', buf', readLen, valueLen) ∧
      Rep z n st db' ∧ CachesOnly db db' ∧ KvCacheOk (LiveCrc z n st) db'.kvCache ∧
      ((∃ a value, Live z n st a key value ∧ buf' = overlay (value.take buf.length) buf ∧
          readLen = min value.length buf.length ∧ valueLen = value.length) ∨
        (∀ a value, ¬ Live z n st a key value) ∧ buf' = buf ∧ readLen = 0 ∧ valueLen = 0) := by
  obtain ⟨db', kv', found, hrun, hrep, honly, hcache', -, hcase⟩ :=
    h.findKv_spec hkeys hkey hlive hcache Kv.fresh rfl
  unfold getKv
  rw [hrun]
  rcases hcase with ⟨rfl, a, value, hrec, hshows⟩ | ⟨rfl, hnone⟩
  · refine ⟨db', _, _, _, rfl, hrep, honly, hcache', .inl ⟨a, value, hrec, ?_⟩⟩
    have hlen : (if kv'.valueLen < buf.length then kv'.valueLen else buf.length) =
        min value.length buf.length := by
      rw [hshows.valueLen]
      dsimp only
      split_ifs <;> omega
    rw [hlen, hshows.value]
    refine ⟨?_, rfl, hshows.valueLen⟩
    rw [hrep.live_value hrec (Nat.min_le_left _ _)]
    rcases Nat.le_total value.length buf.length with hle | hle
    · rw [Nat.min_eq_left hle, List.take_of_length_le (Nat.le_refl _), List.take_of_length_le hle]
    · rw [Nat.min_eq_right hle]
  · exact ⟨db', buf, 0, 0, rfl, hrep, honly, hcache', .inr ⟨hnone, rfl, rfl, rfl⟩⟩

end Find

end Hc32Board.FlashDb
