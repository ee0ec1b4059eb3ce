import Hc32Board.CodeLib.Run
import Hc32Board.FlashDb.Boot

/-!
# The database is a map

The parameter manager treats the database as a map from keys to values.  This module
proves that it may.  `Contents` is the abstract state, `Call.Spec` says what a call may
reply, and `Kvdb.exec` is the code.

* `Serves.fdbKvDel_spec` and the lemmas behind it compare one call with the map.
* `Refines.exec_spec` puts them together.
* `fdb_calls_refine_map` is the result for every list of calls.  A restart may stand
  anywhere in the list, and so may a change of the memory that holds the default
  values.
* `fdb_calls_never_full` bounds the values.  When a sector could hold all of them at
  their greatest length and one more, no call reports a full database, however many
  values are written.
-/

namespace Hc32Board.FlashDb

open Hc32Board.CodeLib

section Serves

variable {z n : Nat} {K : Set Bytes} {defaultKvs : List DefaultKv} {m : Bytes → Option Bytes}
  {db : Kvdb} {key : Bytes}

/-! ## Single calls -/

theorem Serves.of_storeOnly {db' : Kvdb} {m' : Bytes → Option Bytes}
    (h : Serves z n K defaultKvs m db) (honly : StoreOnly db db')
    (hkept : ∃ st, Kept z n K m' st db') : Serves z n K defaultKvs m' db' where
  kept := hkept
  gcRequest := by rw [honly.eq]; exact h.gcRequest
  initOk := by rw [honly.eq]; exact h.initOk
  defaults := by rw [honly.eq]; exact h.defaults

theorem Serves.fdbKvDel_spec (h : Serves z n K defaultKvs m db) (hkeys : Keys K) (hkey : key ∈ K) :
    ∃ db' err, fdbKvDel db key = (db', err) ∧
      (err = .noErr ∧ m key ≠ none ∧ Serves z n K defaultKvs (Function.update m key none) db' ∨
        err = .kvNameErr ∧ m key = none ∧ Serves z n K defaultKvs m db') := by
  obtain ⟨st, hkept⟩ := h.kept
  obtain ⟨st', db', err, hrun, honly, hcase⟩ := hkept.delKv_spec hkeys hkey
  refine ⟨db', err, by rw [fdbKvDel, if_pos h.initOk, hrun], ?_⟩
  rcases hcase with ⟨herr, hne, hkept'⟩ | ⟨herr, hnone, hkept'⟩
  · exact .inl ⟨herr, hne, h.of_storeOnly honly ⟨st', hkept'⟩⟩
  · exact .inr ⟨herr, hnone, h.of_storeOnly honly ⟨st', hkept'⟩⟩

theorem Serves.fdbKvSetBlob_spec (h : Serves z n K defaultKvs m db) (hkeys : Keys K)
    (hkey : key ∈ K) (value : Bytes) :
    ∃ db' err, fdbKvSetBlob db key (some value) = (db', err) ∧
      (err = .noErr ∧ Serves z n K defaultKvs (Function.update m key (some value)) db' ∨
        err = .savedFull ∧ Serves z n K defaultKvs m db' ∧
          Crowded z m (kvHdrDataSize + key.length + value.length)) := by
  obtain ⟨st, hkept⟩ := h.kept
  obtain ⟨st', db', err, hrun, honly, hcase⟩ := hkept.setKvValue_spec h.gcRequest hkeys hkey value
  have hserves : ∀ m', Kept z n K m' st' db' → Serves z n K defaultKvs m' db' := fun m' hkept' =>
    ⟨⟨st', hkept'⟩, by rw [honly.eq]; exact h.gcRequest, by rw [honly.eq]; exact h.initOk,
      by rw [honly.eq]; exact h.defaults⟩
  refine ⟨db', err, by rw [fdbKvSetBlob, if_pos h.initOk, setKv, hrun], ?_⟩
  rcases hcase with ⟨herr, hkept'⟩ | ⟨herr, hkept', hcrowded⟩
  · exact .inl ⟨herr, hserves _ hkept'⟩
  · exact .inr ⟨herr, hserves _ hkept', hcrowded⟩

/-- The value that `fdb_kv_get_blob` copies is the one that the map has. -/
theorem Serves.fdbKvGetBlob_spec (h : Serves z n K defaultKvs m db) (hkeys : Keys K)
    (hkey : key ∈ K) (buf : Bytes) (savedLen : Nat) :
    ∃ db', fdbKvGetBlob db key buf savedLen = (db', (FlashParam.fdbKvGetBlob (m key) buf).1,
        min (FlashParam.fdbKvGetBlob (m key) buf).2 buf.length,
        (FlashParam.fdbKvGetBlob (m key) buf).2) ∧ Serves z n K defaultKvs m db' := by
  obtain ⟨st, hkept⟩ := h.kept
  obtain ⟨db', honly, hkept', hrun⟩ := hkept.getKv_spec hkeys hkey buf
  refine ⟨db', ?_, h.of_storeOnly honly ⟨st, hkept'⟩⟩
  rw [fdbKvGetBlob, if_pos h.initOk, hrun]
  cases m key with
  | none => simp [FlashParam.fdbKvGetBlob]
  | some value => rfl

/-- The static buffer when a value was copied into it. -/
theorem exists_overlay_take {v value : Bytes} {k : Nat} (hlen : k < value.length) :
    ∃ b rest, overlay (overlay (v.take (value.take k).length) (value.take k)) value =
      v.take k ++ b :: rest := by
  have htake : (value.take k).length = k := List.length_take_of_le (by omega)
  have hle : (v.take k).length ≤ k := by
    rw [List.length_take]
    omega
  have hbuf : overlay (v.take (value.take k).length) (value.take k) =
      v.take k ++ (value.take k).drop (v.take k).length := by
    rw [htake, overlay, htake, List.take_of_length_le hle]
  have hlen' : (v.take k ++ (value.take k).drop (v.take k).length).length = k := by
    rw [List.length_append, List.length_drop, htake]
    omega
  obtain ⟨b, rest, hrest⟩ : ∃ b rest, (value.take k).drop (v.take k).length ++ value.drop k =
      b :: rest := by
    refine List.exists_cons_of_ne_nil (List.ne_nil_of_length_pos ?_)
    rw [List.length_append, List.length_drop, List.length_drop]
    omega
  refine ⟨b, rest, ?_⟩
  rw [hbuf, overlay, hlen', List.take_of_length_le (by omega), List.append_assoc, hrest]

/-- The string that `fdb_kv_get` returns is the one that the map has. -/
theorem Serves.fdbKvGet_spec (h : Serves z n K defaultKvs m db) (hkeys : Keys K) (hkey : key ∈ K)
    {value : Bytes} (hlen : value.length = FlashParam.strKvValueMaxSize + 1) :
    ∃ db' value', fdbKvGet db key value = (db', value', FlashParam.fdbKvGet (m key)) ∧
      value'.length = FlashParam.strKvValueMaxSize + 1 ∧ Serves z n K defaultKvs m db' := by
  obtain ⟨st, hkept⟩ := h.kept
  obtain ⟨db', honly, hkept', hrun⟩ := hkept.getKv_spec hkeys hkey
    (value.take FlashParam.strKvValueMaxSize)
  have hserves := h.of_storeOnly honly ⟨st, hkept'⟩
  generalize hv : (m key).getD [] = v at hrun
  have hsize : (value.take FlashParam.strKvValueMaxSize).length = FlashParam.strKvValueMaxSize :=
    List.length_take_of_le (by omega)
  have hget : min v.length (value.take FlashParam.strKvValueMaxSize).length =
      (v.take FlashParam.strKvValueMaxSize).length := by
    rw [hsize, List.length_take, Nat.min_comm]
  obtain ⟨b, rest, hbuf⟩ := @exists_overlay_take v value FlashParam.strKvValueMaxSize (by omega)
  have hlen' : (v.take FlashParam.strKvValueMaxSize ++ b :: rest).length =
      FlashParam.strKvValueMaxSize + 1 := by
    rw [← hbuf, length_overlay, hlen]
  unfold fdbKvGet
  rw [fdbKvGetBlob, if_pos h.initOk, hrun]
  dsimp only
  rw [hbuf, hget, List.take_left' rfl]
  unfold FlashParam.fdbKvGet
  rw [hv]
  dsimp only
  by_cases hcond : 0 < (v.take FlashParam.strKvValueMaxSize).length ∧
      FlashParam.fdbIsStr (v.take FlashParam.strKvValueMaxSize) = true
  · have hnul := FlashParam.zero_notMem_of_fdbIsStr hcond.2
    have hset : (v.take FlashParam.strKvValueMaxSize ++ b :: rest).set
        (v.take FlashParam.strKvValueMaxSize).length 0 =
        v.take FlashParam.strKvValueMaxSize ++ 0 :: rest := by
      rw [List.set_append_right _ _ (Nat.le_refl _), Nat.sub_self, List.set_cons_zero]
    rw [if_pos hcond, if_pos hcond.1, if_pos hcond.2, hset, cstr_append hnul]
    refine ⟨db', v.take FlashParam.strKvValueMaxSize ++ 0 :: rest, ?_, ?_, hserves⟩
    · rw [show cstr (0 :: rest) = [] from rfl, List.append_nil]
    · rw [List.length_append, List.length_cons] at hlen' ⊢
      exact hlen'
  · rw [if_neg hcond]
    refine ⟨db', _, ?_, hlen', hserves⟩
    split_ifs with hpos hstr
    · exact absurd ⟨hpos, hstr⟩ hcond
    · rfl
    · rfl

/-- `fdb_kv_set_default` leaves default values only. -/
theorem Serves.fdbKvSetDefault_spec (h : Serves z n K defaultKvs m db) (hkeys : Keys K)
    (hmem : ∀ kv ∈ defaultKvs, kv.key ∈ K) (hnd : (defaultKvs.map DefaultKv.key).Nodup) :
    ∃ m' db', fdbKvSetDefault db = (db', .noErr) ∧ Restored z defaultKvs m' ∧
      Serves z n K defaultKvs m' db' := by
  obtain ⟨st, hkept⟩ := h.kept
  obtain ⟨m', st', db', hrun, hkept', honly, hfilled⟩ := hkept.holds.rep.based.fdbKvSetDefault_spec
    (fun info hinfo => by
      obtain ⟨i, hi, hat⟩ := hkept.holds.rep.cache info hinfo
      exact ⟨i, hi, hat.addr⟩)
    h.gcRequest hkept.holds.completeDel hkeys (by rw [h.defaults]; exact hmem)
    (by rw [h.defaults]; exact hnd)
  rw [h.defaults] at hfilled
  exact ⟨m', db', hrun, hfilled, h.of_storeOnly honly ⟨st', hkept'⟩⟩

/-- The power goes off between two calls, and the database is initialised again. -/
theorem Serves.restart_spec {blkSize : Nat} (h : Serves z n K defaultKvs m db) (hkeys : Keys K)
    (hmem : ∀ kv ∈ defaultKvs, kv.key ∈ K) (hnd : (defaultKvs.map DefaultKv.key).Nodup)
    (hblk : z % blkSize = 0) (rounds : Nat) :
    ∃ db', fdbKvdbInit (rounds + 1) (Kvdb.cleared db.flash db.secSize) blkSize db.defaultKvs =
        some (db', .noErr) ∧ Serves z n K defaultKvs m db' := by
  obtain ⟨st, hkept⟩ := h.kept
  have hrep := hkept.holds.rep
  have hn := hrep.geo.sectors
  obtain ⟨m', db', hrun, hserves, hloaded⟩ := fdbKvdbInit_spec hrep.geo hrep.ready hrep.size hblk
    hkept.resting (fun j hj => .inl (hrep.secs j hj)) hkeys hmem hnd rounds
  obtain rfl := hloaded.found ⟨0, by omega, (hrep.secs 0 (by omega)).not_noHeader⟩
  refine ⟨db', ?_, hserves⟩
  rw [h.defaults, hrep.secSize]
  exact hrun

/-- The memory behind the default values changes. -/
theorem Serves.withDefaults (h : Serves z n K defaultKvs m db) (kvs : List DefaultKv) :
    Serves z n K kvs m { db with defaultKvs := kvs } := by
  obtain ⟨st, hkept⟩ := h.kept
  exact ⟨⟨st, { hkept.holds with rep := { hkept.holds.rep with } }, hkept.empty, hkept.tidy⟩,
    h.gcRequest, h.initOk, rfl⟩

/-! ## Collections and caches -/

theorem Serves.gcCollect_spec (h : Serves z n K defaultKvs m db) (freeSize : Nat) :
    Serves z n K defaultKvs m (gcCollectByFreeSize { db with gcRequest := true } freeSize) := by
  obtain ⟨st, hkept⟩ := h.kept
  obtain ⟨st', hkept', -, honly⟩ := (hkept.of_gcRequest true).gcCollectByFreeSize_spec rfl freeSize
  refine ⟨⟨st', hkept'⟩, ?_, ?_, ?_⟩
  · rw [honly.eq]
  · rw [honly.eq]
    exact h.initOk
  · rw [honly.eq]
    exact h.defaults

/-- However often garbage is collected, and whatever space is asked for, every key reads as
before. -/
theorem gc_keeps_reads (h : Serves z n K defaultKvs m db) (hkeys : Keys K) (hkey : key ∈ K)
    (sizes : List Nat) (buf : Bytes) (savedLen : Nat) :
    (fdbKvGetBlob (run (fun db => gcCollectByFreeSize { db with gcRequest := true }) db sizes) key
    buf savedLen).2 = (fdbKvGetBlob db key buf savedLen).2 := by
  have hend : Serves z n K defaultKvs m
      (run (fun db => gcCollectByFreeSize { db with gcRequest := true }) db sizes) :=
    run_invariant' (fun _ size hs => hs.gcCollect_spec size) sizes db h
  obtain ⟨db1, hrun1, -⟩ := h.fdbKvGetBlob_spec hkeys hkey buf savedLen
  obtain ⟨db2, hrun2, -⟩ := hend.fdbKvGetBlob_spec hkeys hkey buf savedLen
  rw [hrun1, hrun2]

/-- The database without what it has cached. -/
def Kvdb.uncached (db : Kvdb) : Kvdb :=
  { db with kvCache := clearKvCache db.kvCache, sectorCache := db.sectorCache.map fun _ => none }

theorem Serves.uncached (h : Serves z n K defaultKvs m db) :
    Serves z n K defaultKvs m db.uncached := by
  obtain ⟨st, hkept⟩ := h.kept
  have hnone : ∀ info, some info ∉ db.uncached.sectorCache := by
    intro info hmem
    obtain ⟨_, -, heq⟩ := List.mem_map.mp hmem
    exact Option.some_ne_none info heq.symm
  refine ⟨⟨st, hkept.resting.kept ?_ (kvCacheOk_cleared _ _) hkept.holds.completeDel⟩, h.gcRequest,
    h.initOk, h.defaults⟩
  exact { hkept.holds.rep with
    distinct := fun i j u v hu => absurd (List.mem_of_getElem? hu) (hnone u)
    cache := fun info hmem => absurd hmem (hnone info) }

/-- The two caches do not change what is read. -/
theorem caches_keep_reads (h : Serves z n K defaultKvs m db) (hkeys : Keys K) (hkey : key ∈ K)
    (buf : Bytes) (savedLen : Nat) :
    (fdbKvGetBlob db key buf savedLen).2 = (fdbKvGetBlob db.uncached key buf savedLen).2 := by
  obtain ⟨db1, hrun1, -⟩ := h.fdbKvGetBlob_spec hkeys hkey buf savedLen
  obtain ⟨db2, hrun2, -⟩ := h.uncached.fdbKvGetBlob_spec hkeys hkey buf savedLen
  rw [hrun1, hrun2]

end Serves

/-! ## Lists of calls -/

/-- A call of the interface.  `defaults` is a change of the memory that the registered
default values point to, and `restart` a loss of power between two calls. -/
inductive Call where
  | setBlob (key : Bytes) (value : Option Bytes)
  | set (key : Bytes) (value : Option Bytes)
  | del (key : Bytes)
  | getBlob (key buf : Bytes) (savedLen : Nat)
  | get (key : Bytes)
  | setDefault
  | defaults (kvs : List DefaultKv)
  | restart

/-- What a call returns. -/
inductive Reply where
  | status (err : FdbErr)
  | blob (buf : Bytes) (readLen savedLen : Nat)
  | string (value : Option Bytes)
  | done
deriving DecidableEq, Repr

/-- The database with the static buffer of `fdb_kv_get`. -/
structure Server where
  db : Kvdb
  value : Bytes

/-- A call as the code executes it.  A restart clears the memory and initialises the
database again. -/
def Server.exec (rounds blkSize : Nat) (s : Server) : Call → Option (Server × Reply)
  | .setBlob key value =>
    let (db, err) := fdbKvSetBlob s.db key value
    some ({ s with db := db }, .status err)
  | .set key value =>
    let (db, err) := fdbKvSet s.db key value
    some ({ s with db := db }, .status err)
  | .del key =>
    let (db, err) := fdbKvDel s.db key
    some ({ s with db := db }, .status err)
  | .getBlob key buf savedLen =>
    let (db, buf, readLen, savedLen) := fdbKvGetBlob s.db key buf savedLen
    some ({ s with db := db }, .blob buf readLen savedLen)
  | .get key =>
    let (db, value, r) := fdbKvGet s.db key s.value
    some (⟨db, value⟩, .string r)
  | .setDefault =>
    let (db, err) := fdbKvSetDefault s.db
    some ({ s with db := db }, .status err)
  | .defaults kvs => some ({ s with db := { s.db with defaultKvs := kvs } }, .done)
  | .restart =>
    (fdbKvdbInit rounds (Kvdb.cleared s.db.flash s.db.secSize) blkSize s.db.defaultKvs).map fun r =>
      (⟨r.1, zeros (FlashParam.strKvValueMaxSize + 1)⟩, .status r.2)

/-- The abstract state: a map, and the default values for it. -/
structure Contents where
  map : Bytes → Option Bytes
  defaults : List DefaultKv

/-- A value is stored.  The call may fail only when a sector could not hold the map
with the new record. -/
def Contents.Stored (z : Nat) (c : Contents) (key value : Bytes) (r : Reply) (c' : Contents) :
    Prop :=
  r = .status .noErr ∧ c' = { c with map := Function.update c.map key (some value) } ∨
    r = .status .savedFull ∧ c' = c ∧
      Crowded z c.map (kvHdrDataSize + key.length + value.length)

/-- A key is deleted, and the reply says whether it was there. -/
def Contents.Erased (c : Contents) (key : Bytes) (r : Reply) (c' : Contents) : Prop :=
  r = .status (if c.map key = none then .kvNameErr else .noErr) ∧
    c' = { c with map := Function.update c.map key none }

/-- What a call may reply and leave. -/
def Call.Spec (z : Nat) (c : Contents) : Call → Reply → Contents → Prop
  | .setBlob key (some value), r, c' => c.Stored z key value r c'
  | .set key (some value), r, c' => c.Stored z key (cstr value) r c'
  | .setBlob key none, r, c' => c.Erased key r c'
  | .set key none, r, c' => c.Erased key r c'
  | .del key, r, c' => c.Erased key r c'
  | .getBlob key buf _, r, c' =>
    r = .blob (FlashParam.fdbKvGetBlob (c.map key) buf).1
      (min (FlashParam.fdbKvGetBlob (c.map key) buf).2 buf.length)
      (FlashParam.fdbKvGetBlob (c.map key) buf).2 ∧ c' = c
  | .get key, r, c' => r = .string (FlashParam.fdbKvGet (c.map key)) ∧ c' = c
  | .setDefault, r, c' =>
    r = .status .noErr ∧ Restored z c.defaults c'.map ∧ c'.defaults = c.defaults
  | .defaults kvs, r, c' => r = .done ∧ c' = { c with defaults := kvs }
  | .restart, r, c' => r = .status .noErr ∧ c' = c

/-- The default values have keys in `K` and no key twice. -/
structure DefaultsOk (K : Set Bytes) (kvs : List DefaultKv) : Prop where
  mem : ∀ kv ∈ kvs, kv.key ∈ K
  nodup : (kvs.map DefaultKv.key).Nodup

/-- The call uses keys in `K` only. -/
def Call.On (K : Set Bytes) : Call → Prop
  | .setBlob key _ => key ∈ K
  | .set key _ => key ∈ K
  | .del key => key ∈ K
  | .getBlob key _ _ => key ∈ K
  | .get key => key ∈ K
  | .setDefault => True
  | .defaults kvs => DefaultsOk K kvs
  | .restart => True

/-- The state of the code stands for the abstract state. -/
structure Refines (z n : Nat) (K : Set Bytes) (s : Server) (c : Contents) : Prop where
  serves : Serves z n K c.defaults c.map s.db
  value : s.value.length = FlashParam.strKvValueMaxSize + 1
  defaults : DefaultsOk K c.defaults

section Refines

variable {z n : Nat} {K : Set Bytes} {s : Server} {c : Contents}

theorem Refines.del_spec (h : Refines z n K s c) (hkeys : Keys K) {key : Bytes} (hkey : key ∈ K) :
    ∃ db' err c', fdbKvDel s.db key = (db', err) ∧ c.Erased key (.status err) c' ∧
      Refines z n K { s with db := db' } c' := by
  obtain ⟨db', err, hrun, hcase⟩ := h.serves.fdbKvDel_spec hkeys hkey
  refine ⟨db', err, _, hrun, ⟨?_, rfl⟩, ?_⟩
  · rcases hcase with ⟨rfl, hne, -⟩ | ⟨rfl, hnone, -⟩
    · rw [if_neg hne]
    · rw [if_pos hnone]
  · rcases hcase with ⟨-, -, hserves⟩ | ⟨-, hnone, hserves⟩
    · exact ⟨hserves, h.value, h.defaults⟩
    · have hsame : Function.update c.map key none = c.map :=
        Function.update_eq_self_iff.mpr hnone.symm
      exact ⟨by rw [hsame]; exact hserves, h.value, h.defaults⟩

theorem Refines.set_spec (h : Refines z n K s c) (hkeys : Keys K) {key : Bytes} (hkey : key ∈ K)
    (value : Bytes) :
    ∃ db' err c', fdbKvSetBlob s.db key (some value) = (db', err) ∧
      c.Stored z key value (.status err) c' ∧ Refines z n K { s with db := db' } c' := by
  obtain ⟨db', err, hrun, hcase⟩ := h.serves.fdbKvSetBlob_spec hkeys hkey value
  rcases hcase with ⟨rfl, hserves⟩ | ⟨rfl, hserves, hcrowded⟩
  · exact ⟨db', _, _, hrun, .inl ⟨rfl, rfl⟩, hserves, h.value, h.defaults⟩
  · exact ⟨db', _, c, hrun, .inr ⟨rfl, rfl, hcrowded⟩, hserves, h.value, h.defaults⟩

/-- A set call without a value deletes the key. -/
theorem Serves.fdbKvSetBlob_none {defaultKvs : List DefaultKv} {m : Bytes → Option Bytes}
    {db : Kvdb} (h : Serves z n K defaultKvs m db) (key : Bytes) :
    fdbKvSetBlob db key none = fdbKvDel db key := by
  rw [fdbKvSetBlob, if_pos h.initOk, fdbKvDel, if_pos h.initOk, setKv]

/-- Every call does what the map allows. -/
theorem Refines.exec_spec (h : Refines z n K s c) (hkeys : Keys K) {blkSize : Nat}
    (hblk : z % blkSize = 0) (rounds : Nat) (call : Call) (hon : call.On K) :
    ∃ s' r c', s.exec (rounds + 1) blkSize call = some (s', r) ∧ call.Spec z c r c' ∧
      Refines z n K s' c' := by
  cases call with
  | setBlob key value =>
    cases value with
    | none =>
      obtain ⟨db', err, c', hrun, hspec, href⟩ := h.del_spec hkeys hon
      refine ⟨_, _, c', ?_, hspec, href⟩
      rw [Server.exec, h.serves.fdbKvSetBlob_none, hrun]
    | some value =>
      obtain ⟨db', err, c', hrun, hspec, href⟩ := h.set_spec hkeys hon value
      refine ⟨_, _, c', ?_, hspec, href⟩
      rw [Server.exec, hrun]
  | set key value =>
    cases value with
    | none =>
      obtain ⟨db', err, c', hrun, hspec, href⟩ := h.del_spec hkeys hon
      refine ⟨_, _, c', ?_, hspec, href⟩
      rw [Server.exec, fdbKvSet, hrun]
    | some value =>
      obtain ⟨db', err, c', hrun, hspec, href⟩ := h.set_spec hkeys hon (cstr value)
      refine ⟨_, _, c', ?_, hspec, href⟩
      rw [Server.exec, fdbKvSet, hrun]
  | del key =>
    obtain ⟨db', err, c', hrun, hspec, href⟩ := h.del_spec hkeys hon
    refine ⟨_, _, c', ?_, hspec, href⟩
    rw [Server.exec, hrun]
  | getBlob key buf savedLen =>
    obtain ⟨db', hrun, hserves⟩ := h.serves.fdbKvGetBlob_spec hkeys hon buf savedLen
    refine ⟨{ s with db := db' }, _, c, ?_, ⟨rfl, rfl⟩, hserves, h.value, h.defaults⟩
    rw [Server.exec, hrun]
  | get key =>
    obtain ⟨db', value', hrun, hlen, hserves⟩ := h.serves.fdbKvGet_spec hkeys hon h.value
    refine ⟨⟨db', value'⟩, _, c, ?_, ⟨rfl, rfl⟩, hserves, hlen, h.defaults⟩
    rw [Server.exec, hrun]
  | setDefault =>
    obtain ⟨m', db', hrun, hrestored, hserves⟩ := h.serves.fdbKvSetDefault_spec hkeys h.defaults.mem
      h.defaults.nodup
    refine ⟨{ s with db := db' }, _, ⟨m', c.defaults⟩, ?_, ⟨rfl, hrestored, rfl⟩, hserves, h.value,
      h.defaults⟩
    rw [Server.exec, hrun]
  | defaults kvs =>
    exact ⟨_, _, _, rfl, ⟨rfl, rfl⟩, h.serves.withDefaults kvs, h.value, hon⟩
  | restart =>
    obtain ⟨db', hrun, hserves⟩ := h.serves.restart_spec hkeys h.defaults.mem h.defaults.nodup hblk
      rounds
    refine ⟨⟨db', zeros (FlashParam.strKvValueMaxSize + 1)⟩, _, c, ?_, ⟨rfl, rfl⟩, hserves,
      List.length_replicate, h.defaults⟩
    rw [Server.exec, hrun]
    rfl

/-- Every list of calls does what the map allows. -/
theorem Refines.answer_spec (h : Refines z n K s c) (hkeys : Keys K) {blkSize : Nat}
    (hblk : z % blkSize = 0) (rounds : Nat) (calls : List Call)
    (hcalls : ∀ call ∈ calls, call.On K) :
    ∃ s' replies c', answer (Server.exec (rounds + 1) blkSize) s calls = some (s', replies) ∧
      Allowed (Call.Spec z) c calls replies c' ∧ Refines z n K s' c' :=
  answer_refines (R := Refines z n K) (A := Call.On K)
    (fun _ _ call href hon => href.exec_spec hkeys hblk rounds call hon) calls s c h hcalls

/-- The database at power-on. -/
theorem Serves.refines {m : Bytes → Option Bytes} {db : Kvdb} {kvs : List DefaultKv}
    (h : Serves z n K kvs m db) (hdefs : DefaultsOk K kvs) :
    Refines z n K ⟨db, zeros (FlashParam.strKvValueMaxSize + 1)⟩ ⟨m, kvs⟩ :=
  ⟨h, List.length_replicate, hdefs⟩

/-- The database is initialised on a flash that holds a map.  From there on every list of
calls does what the map allows. -/
theorem fdb_calls_refine_map {f : Flash} {m : Bytes → Option Bytes} {st : Nat → Sec} {blkSize : Nat}
    {kvs : List DefaultKv} (hgeo : Geometry z n) (hready : f.Ready) (hsize : f.size = n * z)
    (hblk : z % blkSize = 0) (hrest : Resting z n K m st) (hload : Loadable z n st f.img)
    (hkeys : Keys K) (hdefs : DefaultsOk K kvs) (rounds : Nat) (calls : List Call)
    (hcalls : ∀ call ∈ calls, call.On K) :
    ∃ db m', fdbKvdbInit (rounds + 1) (Kvdb.cleared f z) blkSize kvs = some (db, .noErr) ∧
      Loaded z n f.img m kvs m' ∧ ∃ s' replies c',
        answer (Server.exec (rounds + 1) blkSize)
          ⟨db, zeros (FlashParam.strKvValueMaxSize + 1)⟩ calls = some (s', replies) ∧
        Allowed (Call.Spec z) ⟨m', kvs⟩ calls replies c' := by
  obtain ⟨m', db, hinit, hserves, hloaded⟩ := fdbKvdbInit_spec hgeo hready hsize hblk hrest hload
    hkeys hdefs.mem hdefs.nodup rounds
  obtain ⟨s', replies, c', hrun, hallowed, -⟩ :=
    (hserves.refines hdefs).answer_spec hkeys hblk rounds calls hcalls
  exact ⟨db, m', hinit, hloaded, s', replies, c', hrun, hallowed⟩

/-- A value is written to an erased flash of two sectors and read after a restart. -/
theorem fdb_calls_refine_map_erased :
    ∃ db m', fdbKvdbInit 1 (Kvdb.cleared (Flash.erased 512) 256) 256 [] = some (db, .noErr) ∧
      Loaded 256 2 (Flash.erased 512).img (fun _ => none) [] m' ∧ ∃ s' replies c',
        answer (Server.exec 1 256) ⟨db, zeros 129⟩
          [.setBlob [0x61] (some [1, 2]), .restart, .get [0x61]] = some (s', replies) ∧
        Allowed (Call.Spec 256) ⟨m', []⟩
          [.setBlob [0x61] (some [1, 2]), .restart, .get [0x61]] replies c' := by
  have hgeo : Geometry 256 2 := ⟨by decide, by decide, by decide⟩
  have hkeys : Keys {[0x61]} := by
    refine ⟨?_, ?_, ?_⟩
    · rintro k rfl
      decide
    · rintro k rfl
      decide
    · rintro k rfl k' rfl - -
      rfl
  have hdefs : DefaultsOk {[0x61]} [] :=
    ⟨fun kv hkv => absurd hkv List.not_mem_nil, List.nodup_nil⟩
  refine fdb_calls_refine_map hgeo (Flash.ready_erased 512) rfl rfl (resting_blank hgeo)
    (loadable_blank fun _ _ => noHeader_erased _) hkeys hdefs 0 _ ?_
  intro call hcall
  simp only [List.mem_cons, List.not_mem_nil, or_false] at hcall
  rcases hcall with rfl | rfl | rfl
  · rfl
  · trivial
  · rfl

/-! ## Space -/

/-- The keys are in `keys`, and their values and default values are not longer than
`limit` says. -/
structure Contents.Bounded (keys : Finset Bytes) (limit : Bytes → Nat) (c : Contents) : Prop where
  map : ∀ key value, c.map key = some value → key ∈ keys ∧ value.length ≤ limit key
  defaults : ∀ kv ∈ c.defaults, kv.key ∈ keys ∧ kv.bytes.length ≤ limit kv.key

/-- The values in the call are not longer than `limit` says. -/
def Call.Bounded (limit : Bytes → Nat) : Call → Prop
  | .setBlob key (some value) => value.length ≤ limit key
  | .set key (some value) => (cstr value).length ≤ limit key
  | .defaults kvs => ∀ kv ∈ kvs, kv.bytes.length ≤ limit kv.key
  | _ => True

/-- The space for all keys at the greatest length of their values. -/
def tableLen (keys : Finset Bytes) (limit : Bytes → Nat) : Nat :=
  ∑ key ∈ keys, (kvHdrDataSize + key.length + limit key)

variable {keys : Finset Bytes} {limit : Bytes → Nat}

theorem Contents.Bounded.within (h : c.Bounded keys limit) :
    Within c.map (tableLen keys limit) := by
  intro ks
  have hzero : ∀ key ∈ ks, key ∉ ks ∩ keys → entryLen c.map key = 0 := by
    intro key hks hkey
    cases hm : c.map key with
    | none => rw [entryLen, hm, Option.elim_none]
    | some value => exact absurd (Finset.mem_inter.mpr ⟨hks, (h.map key value hm).1⟩) hkey
  have hle : ∀ key ∈ ks ∩ keys, entryLen c.map key ≤ kvHdrDataSize + key.length + limit key := by
    intro key _
    cases hm : c.map key with
    | none =>
      rw [entryLen, hm, Option.elim_none]
      exact Nat.zero_le _
    | some value =>
      have hlen := (h.map key value hm).2
      rw [entryLen, hm, Option.elim_some]
      omega
  calc ∑ key ∈ ks, entryLen c.map key = ∑ key ∈ ks ∩ keys, entryLen c.map key :=
        (Finset.sum_subset Finset.inter_subset_left hzero).symm
    _ ≤ ∑ key ∈ ks ∩ keys, (kvHdrDataSize + key.length + limit key) := Finset.sum_le_sum hle
    _ ≤ tableLen keys limit := Finset.sum_le_sum_of_subset Finset.inter_subset_right

theorem Contents.Bounded.update (h : c.Bounded keys limit) {key value : Bytes} (hkey : key ∈ keys)
    (hlen : value.length ≤ limit key) :
    Contents.Bounded keys limit { c with map := Function.update c.map key (some value) } := by
  refine ⟨fun k v hv => ?_, h.defaults⟩
  rcases eq_or_ne k key with rfl | hne
  · obtain rfl := Option.some.inj ((Function.update_self k _ c.map).symm.trans hv)
    exact ⟨hkey, hlen⟩
  · exact h.map k v ((Function.update_of_ne hne _ c.map).symm.trans hv)

theorem Contents.Bounded.erase (h : c.Bounded keys limit) (key : Bytes) :
    Contents.Bounded keys limit { c with map := Function.update c.map key none } := by
  refine ⟨fun k v hv => ?_, h.defaults⟩
  rcases eq_or_ne k key with rfl | hne
  · exact absurd ((Function.update_self k _ c.map).symm.trans hv).symm (Option.some_ne_none v)
  · exact h.map k v ((Function.update_of_ne hne _ c.map).symm.trans hv)

/-- A sector holds all values at their greatest length, and one more. -/
def Roomy (z : Nat) (keys : Finset Bytes) (limit : Bytes → Nat) : Prop :=
  ∀ key ∈ keys, sectorHdrDataSize + tableLen keys limit + (kvHdrDataSize + key.length + limit key) +
    fdbSecRemainThreshold < z

theorem Contents.Bounded.stored (h : c.Bounded keys limit) (hroomy : Roomy z keys limit)
    {key value : Bytes} {r : Reply} {c' : Contents} (hkey : key ∈ keys)
    (hlen : value.length ≤ limit key) (hspec : c.Stored z key value r c') :
    r ≠ .status .savedFull ∧ c'.Bounded keys limit := by
  rcases hspec with ⟨rfl, rfl⟩ | ⟨-, -, hcrowded⟩
  · exact ⟨by decide, h.update hkey hlen⟩
  · have hle := hcrowded _ h.within
    have hlt := hroomy key hkey
    omega

theorem Contents.Bounded.erased (h : c.Bounded keys limit) {key : Bytes} {r : Reply} {c' : Contents}
    (hspec : c.Erased key r c') : r ≠ .status .savedFull ∧ c'.Bounded keys limit := by
  obtain ⟨rfl, rfl⟩ := hspec
  refine ⟨?_, h.erase key⟩
  split_ifs <;> decide

/-- Bounded calls keep the map bounded, and there is room for each of them. -/
theorem Call.Spec.bounded {call : Call} {r : Reply} {c' : Contents} (hroomy : Roomy z keys limit)
    (h : c.Bounded keys limit) (hon : call.On keys) (hbounded : call.Bounded limit)
    (hspec : call.Spec z c r c') : r ≠ .status .savedFull ∧ c'.Bounded keys limit := by
  cases call with
  | setBlob key value =>
    cases value with
    | none => exact h.erased hspec
    | some value => exact h.stored hroomy hon hbounded hspec
  | set key value =>
    cases value with
    | none => exact h.erased hspec
    | some value => exact h.stored hroomy hon hbounded hspec
  | del key => exact h.erased hspec
  | getBlob key buf savedLen =>
    obtain ⟨rfl, rfl⟩ := hspec
    exact ⟨Reply.noConfusion, h⟩
  | get key =>
    obtain ⟨rfl, rfl⟩ := hspec
    exact ⟨Reply.noConfusion, h⟩
  | setDefault =>
    obtain ⟨rfl, hrestored, hdefaults⟩ := hspec
    refine ⟨by decide, fun key value hv => ?_, by rw [hdefaults]; exact h.defaults⟩
    rcases hrestored.filled key with hnone | ⟨kv, hkv, rfl, hsome⟩
    · exact absurd (hnone.symm.trans hv).symm (Option.some_ne_none value)
    · obtain rfl := Option.some.inj (hsome.symm.trans hv)
      exact h.defaults kv hkv
  | defaults kvs =>
    obtain ⟨rfl, rfl⟩ := hspec
    exact ⟨Reply.noConfusion, h.map, fun kv hkv => ⟨hon.mem kv hkv, hbounded kv hkv⟩⟩
  | restart =>
    obtain ⟨rfl, rfl⟩ := hspec
    exact ⟨by decide, h⟩

/-- A database that is large enough for its keys is never full. -/
theorem Refines.never_full (h : Refines z n (keys : Set Bytes) s c)
    (hkeys : Keys (keys : Set Bytes)) {blkSize : Nat} (hblk : z % blkSize = 0) (rounds : Nat)
    (hroomy : Roomy z keys limit) (hc : c.Bounded keys limit) (calls : List Call)
    (hcalls : ∀ call ∈ calls, call.On (keys : Set Bytes) ∧ call.Bounded limit) :
    ∃ s' replies, answer (Server.exec (rounds + 1) blkSize) s calls = some (s', replies) ∧
      ∀ r ∈ replies, r ≠ .status .savedFull := by
  obtain ⟨s', replies, c', hrun, hallowed, -⟩ := h.answer_spec hkeys hblk rounds calls
    fun call hcall => (hcalls call hcall).1
  exact ⟨s', replies, hrun, (allowed_invariant
    (fun _ _ _ _ hbounded hcall hspec => hspec.bounded hroomy hbounded hcall.1 hcall.2) hallowed hc
    hcalls).1⟩

end Refines

end Hc32Board.FlashDb
