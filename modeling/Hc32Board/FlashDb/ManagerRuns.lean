import Hc32Board.FlashDb.Manager
import Hc32Board.FlashParam.Regions

/-!
# The calls of the parameter manager on the database

When the database has room for the parameter table, every database call of the manager
succeeds.  The manager then does what it does on the map.

* `TableFits.restored` is `fdb_kv_set_default`, and `TableFits.powerOn_blank` the first
  power-on.
* `Backed.exec_sim` compares a call of the manager with the call on the map.
* `tableFits_of_good` gives the conditions on a table in a form that can be evaluated.
  `boardItems_fit` evaluates them for the table of `params.c`.
* `manager_runs_on_map` is the result for every list of calls, power cycles included.
-/

namespace Hc32Board.FlashDb

open Hc32Board.CodeLib
open Hc32Board.FlashParam (Cell ParamItem FloatText Ret Write Step Fdb)

section Table

variable {z n : Nat} {keys : Finset Bytes} {limit : Bytes → Nat} {srv : Server} {cont : Contents}
  {db : Fdb} {ft : FloatText} {items : List ParamItem} {d : Device} {mgr : FlashParam.ParamMgr}

/-! ## The default records -/

theorem TableFits.key_mem (h : TableFits ft keys limit items) {c : Cell} (hc : c.item ∈ items) :
    ascii c.key ∈ keys :=
  h.mem c.item hc

/-- The default records have the keys of the table. -/
theorem TableFits.defaultsOk (h : TableFits ft keys limit items) {cells : List Cell}
    (hcells : FlashParam.itemsOf cells = items) :
    DefaultsOk (keys : Set Bytes) (cells.map defaultKv) := by
  have hmem : ∀ c ∈ cells, c.item ∈ items := fun c hc => hcells ▸ List.mem_map_of_mem hc
  refine ⟨fun kv hkv => ?_, ?_⟩
  · obtain ⟨c, hc, rfl⟩ := List.mem_map.mp hkv
    exact h.key_mem (hmem c hc)
  · have hnd := FlashParam.keys_nodup (show FlashParam.tableOk (FlashParam.itemsOf cells) = true by
      rw [hcells]
      exact h.accepted)
    have hmap : (cells.map defaultKv).map DefaultKv.key = (cells.map Cell.key).map ascii := by
      rw [List.map_map, List.map_map]
      rfl
    rw [hmap]
    refine hnd.map_on fun k hk k' hk' heq => h.inj ?_ ?_ heq
    · obtain ⟨c, hc, rfl⟩ := List.mem_map.mp hk
      exact ⟨c.item, hmem c hc, rfl⟩
    · obtain ⟨c, hc, rfl⟩ := List.mem_map.mp hk'
      exact ⟨c.item, hmem c hc, rfl⟩

theorem TableFits.bounded (h : TableFits ft keys limit items) {cells : List Cell}
    (hcells : FlashParam.itemsOf cells = items) :
    ∀ kv ∈ cells.map defaultKv, kv.key ∈ keys ∧ kv.bytes.length ≤ limit kv.key := by
  intro kv hkv
  obtain ⟨c, hc, rfl⟩ := List.mem_map.mp hkv
  have hitem : c.item ∈ items := hcells ▸ List.mem_map_of_mem hc
  exact ⟨h.key_mem hitem, (h.node c hitem).2⟩

/-- The default records take no more than the table. -/
theorem defaultsLen_le {kvs : List DefaultKv} (hnd : (kvs.map DefaultKv.key).Nodup)
    (hkvs : ∀ kv ∈ kvs, kv.key ∈ keys ∧ kv.bytes.length ≤ limit kv.key) :
    defaultsLen kvs ≤ tableLen keys limit := by
  have hle : defaultsLen kvs ≤
      ((kvs.map DefaultKv.key).map fun key => kvHdrDataSize + key.length + limit key).sum := by
    rw [List.map_map, defaultsLen]
    refine List.sum_le_sum fun kv hkv => ?_
    have := (hkvs kv hkv).2
    dsimp only [Function.comp_apply]
    omega
  refine hle.trans ?_
  rw [← List.sum_toFinset _ hnd, tableLen]
  refine Finset.sum_le_sum_of_subset fun key hkey => ?_
  obtain ⟨kv, hkv, rfl⟩ := List.mem_map.mp (List.mem_toFinset.mp hkey)
  exact (hkvs kv hkv).1

/-- The database after its default records were restored. -/
theorem TableFits.restored (h : TableFits ft keys limit items) (hroomy : Roomy z keys limit)
    {cells : List Cell} (hcells : FlashParam.itemsOf cells = items) {m : Bytes → Option Bytes}
    (hrestored : Restored z (cells.map defaultKv) m) :
    Contents.Bounded keys limit ⟨m, cells.map defaultKv⟩ ∧
      ∃ db',
        FlashParam.fdbKvSetDefault db (cells.map FlashParam.defNode) (.formatted fun _ => true) =
          some db' ∧ Agree (tableKeys items) ⟨m, cells.map defaultKv⟩ db' := by
  have hbounded := h.bounded hcells
  have hmem : ∀ c ∈ cells, c.item ∈ items := fun c hc => hcells ▸ List.mem_map_of_mem hc
  refine ⟨⟨fun key value hv => ?_, hbounded⟩, ?_⟩
  · rcases hrestored.filled key with hnone | ⟨kv, hkv, rfl, hsome⟩
    · exact absurd (hnone.symm.trans hv).symm (Option.some_ne_none value)
    · obtain rfl := Option.some.inj (hsome.symm.trans hv)
      exact hbounded kv hkv
  · have hall : (cells.map FlashParam.defNode).all (·.value.isSome) = true := by
      rw [List.all_eq_true]
      intro node hnode
      obtain ⟨c, hc, rfl⟩ := List.mem_map.mp hnode
      rw [(h.node c (hmem c hc)).1]
      rfl
    refine ⟨_, if_pos hall, fun k hk => ?_⟩
    obtain ⟨it, hit, rfl⟩ := hk
    rw [← hcells] at hit
    obtain ⟨c0, hc0, rfl⟩ := List.mem_map.mp hit
    -- the record of this key
    obtain ⟨node, hfind⟩ : ∃ node, (cells.map FlashParam.defNode).find? (·.key = itemKey c0.item) =
        some node := by
      refine Option.isSome_iff_exists.mp (List.find?_isSome.mpr ⟨FlashParam.defNode c0, ?_, ?_⟩)
      · exact List.mem_map_of_mem hc0
      · exact decide_eq_true rfl
    obtain ⟨c, hc, rfl⟩ := List.mem_map.mp (List.mem_of_find?_eq_some hfind)
    have hkey : (FlashParam.defNode c).key = itemKey c0.item := by simpa using List.find?_some hfind
    have hlt :
        sectorHdrDataSize + defaultsLen (cells.map defaultKv) + fdbSecRemainThreshold < z := by
      have hle := defaultsLen_le (h.defaultsOk hcells).nodup hbounded
      have hroom := hroomy _ (h.key_mem (hmem c hc))
      omega
    have hvalue := hrestored.complete hlt (defaultKv c) (List.mem_map_of_mem hc)
    rw [hfind, ← hkey]
    exact hvalue.trans (h.node c (hmem c hc)).1.symm

/-! ## Power-on -/

theorem TableFits.syncOne_sim (h : TableFits ft keys limit items) (hkeys : Keys (keys : Set Bytes))
    (hroomy : Roomy z keys limit) {c : Cell} (hc : c.item ∈ items) :
    ItemSim z n keys limit c (syncOne ft c) (FlashParam.syncOne ft true c) := by
  refine FlashDb.syncOne_sim hkeys hroomy (h.key_mem hc) fun w hw => ?_
  obtain ⟨w', hw', hstore⟩ := h.default c hc
  obtain rfl := Except.ok.inj (hw.symm.trans hw')
  exact hstore

theorem TableFits.ret_syncOne (h : TableFits ft keys limit items) {c : Cell} (hc : c.item ∈ items)
    (stored : Option Bytes) : (FlashParam.syncOne ft true c stored).ret = .ok := by
  obtain ⟨w, hw, -⟩ := h.default c hc
  rw [FlashParam.syncOne]
  split
  · rfl
  · rw [hw]
    rfl

/-- The loop of `flash_param_init` on a database that holds a map. -/
theorem TableFits.init_sim (h : TableFits ft keys limit items) (hkeys : Keys (keys : Set Bytes))
    (hroomy : Roomy z keys limit) (hbacks : Backs z n keys limit srv cont)
    (hagree : Agree (tableKeys items) cont db) (mgr : FlashParam.ParamMgr)
    (flash : FlashParam.Flash) (lock : Bool)
    (hinit : FlashParam.fdbKvdbInit flash ((items.map (·.powerOn)).map FlashParam.defNode)
      idealEnv = .ok db) :
    ∃ d', Device.putLoop (forItems true (syncOne ft) srv (items.map (·.powerOn))) = (d', .ok) ∧
      (FlashParam.flashParamInit ft mgr flash (items.map (·.powerOn)) lock lock idealEnv).ret =
        .ok ∧
      Backed z n keys limit items d'
        (FlashParam.flashParamInit ft mgr flash (items.map (·.powerOn)) lock lock
          idealEnv).mgr := by
  have hitems := FlashParam.itemsOf_powerOn items
  have hmem : ∀ c ∈ items.map (·.powerOn), c.item ∈ items := fun c hc => by
    rw [← hitems]
    exact List.mem_map_of_mem hc
  obtain ⟨srv', cont', hrun, hbacks', hagree'⟩ :=
    forItems_sim h.inj true (items.map (·.powerOn)) srv cont db hbacks hagree fun c hc =>
      ⟨⟨c.item, hmem c hc, rfl⟩, h.syncOne_sim hkeys hroomy (hmem c hc)⟩
  have hret :
      (FlashParam.forItems true (FlashParam.syncOne ft true) db (items.map (·.powerOn))).ret =
        .ok := ret_forItems _ db fun c hc => h.ret_syncOne (hmem c hc)
  have hne : items.map (·.powerOn) ≠ [] := fun hnil => h.ne_nil (List.map_eq_nil_iff.mp hnil)
  have htable : FlashParam.tableOk (FlashParam.itemsOf (items.map (·.powerOn))) = true := by
    rw [hitems]
    exact h.accepted
  unfold FlashParam.flashParamInit
  rw [if_neg hne, if_neg (not_not.mpr rfl), dif_pos htable, if_neg (by decide), hinit]
  refine ⟨⟨srv', (FlashParam.forItems true (FlashParam.syncOne ft true) db
    (items.map (·.powerOn))).cells⟩, by rw [Device.putLoop, hrun, hret], hret, rfl, ?_, ?_, rfl,
    cont', hbacks', hagree'⟩
  · exact (FlashParam.itemsOf_forItems ..).trans hitems
  · exact decide_eq_true hret

/-- Power-on with a blank flash. -/
theorem TableFits.powerOn_blank (h : TableFits ft keys limit items) (hgeo : Geometry z n)
    {f : Flash} {blkSize : Nat} (hready : f.Ready) (hsize : f.size = n * z) (hblk : z % blkSize = 0)
    (hblank : ∀ j < n, NoHeader f.img (j * z)) (hkeys : Keys (keys : Set Bytes))
    (hroomy : Roomy z keys limit) (rounds : Nat) (lock : Bool) (mgr : FlashParam.ParamMgr) :
    ∃ d, powerOn ft (rounds + 1) blkSize z f items = some (d, .ok) ∧
      Backed z n keys limit items d (FlashParam.flashParamInit ft mgr .blank (items.map (·.powerOn))
        lock lock idealEnv).mgr := by
  have hitems := FlashParam.itemsOf_powerOn items
  have hdefs := h.defaultsOk hitems
  obtain ⟨m, db, hrun, hserves, hloaded⟩ := fdbKvdbInit_spec hgeo hready hsize hblk
    (resting_blank hgeo) (loadable_blank hblank) hkeys hdefs.mem hdefs.nodup rounds
  obtain ⟨hbounded, fdb, hset, hagree⟩ :=
    @TableFits.restored z keys limit (fun _ => none) ft items h hroomy _ hitems m
      (hloaded.blank hblank)
  have hinit : FlashParam.fdbKvdbInit .blank ((items.map (·.powerOn)).map FlashParam.defNode)
      idealEnv = .ok fdb := by
    unfold FlashParam.fdbKvdbInit
    rw [if_neg (by decide)]
    dsimp only [idealEnv]
    rw [hset]
  obtain ⟨d, hloop, -, hbacked⟩ :=
    h.init_sim hkeys hroomy ⟨hserves.refines hdefs, hbounded⟩ hagree mgr .blank lock hinit
  refine ⟨d, ?_, hbacked⟩
  unfold powerOn
  dsimp only
  rw [hrun]
  exact congrArg some hloop

/-! ## The calls -/

/-- The calls of the manager on the map, as calls that always return. -/
def idealExec (ft : FloatText) (mgr : FlashParam.ParamMgr) (op : FlashParam.AppOp) :
    Option (FlashParam.ParamMgr × Ret) :=
  some ((FlashParam.appCall ft mgr op).mgr, (FlashParam.appCall ft mgr op).ret)

theorem Backed.findItem (h : Backed z n keys limit items d mgr) (key : String) :
    d.findItem key = mgr.findItem key := by
  rw [Device.findItem, FlashParam.ParamMgr.findItem, h.cells]

theorem key_of_findItem {key : String} {c : Cell} (h : mgr.findItem key = some c) :
    c.key = key := by
  simpa using List.find?_some h

theorem Backed.item_of_findItem (h : Backed z n keys limit items d mgr) {key : String} {c : Cell}
    (hfind : mgr.findItem key = some c) : c.item ∈ items :=
  h.mem (List.mem_of_find?_eq_some hfind)

/-- Writing the default of an item. -/
theorem TableFits.default_sim (h : TableFits ft keys limit items) (hkeys : Keys (keys : Set Bytes))
    (hroomy : Roomy z keys limit) {c : Cell} (hc : c.item ∈ items) :
    ItemSim z n keys limit c (commit c (FlashParam.defaultWrite ft c))
      (FlashParam.resetOneLocked ft true c) := by
  refine commit_sim hkeys hroomy (h.key_mem hc) fun w hw => ?_
  obtain ⟨w', hw', hstore⟩ := h.default c hc
  obtain rfl := Except.ok.inj (hw.symm.trans hw')
  exact hstore

/-- An item that is left alone. -/
theorem skip_sim (c : Cell) : ItemSim z n keys limit c (fun srv => (srv, .ok, []))
    fun stored => ⟨.ok, stored, [], []⟩ :=
  fun srv cont h => ⟨srv, rfl, (cont.put_self (ascii c.key)).symm ▸ h⟩

theorem Backed.set_sim (h : Backed z n keys limit items d mgr)
    (hfits : TableFits ft keys limit items)
    (hkeys : Keys (keys : Set Bytes)) (hroomy : Roomy z keys limit) (rounds blkSize : Nat)
    {key : String} {val : Bytes} (hop : (Op.set key val).Bounded ft limit items) :
    ∃ d', d.exec ft rounds blkSize (.set key val) =
        some (d', (FlashParam.flashParamSet ft mgr (some key) (some val) true).ret) ∧
      Backed z n keys limit items d'
        (FlashParam.flashParamSet ft mgr (some key) (some val) true).mgr := by
  unfold FlashParam.flashParamSet
  rw [Device.exec, h.findItem, h.initOk]
  dsimp only
  cases hfind : mgr.findItem key with
  | none => exact ⟨d, rfl, h⟩
  | some c =>
    have hc := h.item_of_findItem hfind
    obtain ⟨d', hrun, hbacked⟩ := h.putItem hfits hfind (commit_sim hkeys hroomy (hfits.key_mem hc)
      (hop c hc (key_of_findItem hfind)))
    exact ⟨d', congrArg some hrun, hbacked⟩

theorem Backed.setBlob_sim (h : Backed z n keys limit items d mgr)
    (hfits : TableFits ft keys limit items) (hkeys : Keys (keys : Set Bytes))
    (hroomy : Roomy z keys limit) (rounds blkSize : Nat) {key : String} {val : Bytes} {valLen : Nat}
    (hop : (Op.setBlob key val valLen).Bounded ft limit items) :
    ∃ d', d.exec ft rounds blkSize (.setBlob key val valLen) =
        some (d', (FlashParam.flashParamSetBlob mgr (some key) (some val) valLen true).ret) ∧
      Backed z n keys limit items d'
        (FlashParam.flashParamSetBlob mgr (some key) (some val) valLen true).mgr := by
  unfold FlashParam.flashParamSetBlob
  rw [Device.exec, h.findItem, h.initOk]
  dsimp only
  by_cases hlen : valLen = 0
  · rw [if_pos hlen, if_pos hlen]
    exact ⟨d, rfl, h⟩
  rw [if_neg hlen, if_neg hlen]
  cases hfind : mgr.findItem key with
  | none => exact ⟨d, rfl, h⟩
  | some c =>
    dsimp only
    by_cases htype : c.item.type ≠ .blob
    · rw [if_pos htype, if_pos htype]
      exact ⟨d, rfl, h⟩
    by_cases hsize : c.item.ramSize < valLen
    · rw [if_neg htype, if_neg htype, if_pos hsize, if_pos hsize]
      exact ⟨d, rfl, h⟩
    rw [if_neg htype, if_neg htype, if_neg hsize, if_neg hsize]
    have hc := h.item_of_findItem hfind
    obtain ⟨d', hrun, hbacked⟩ := h.putItem hfits hfind (commit_sim hkeys hroomy (hfits.key_mem hc)
      (hop c hc (key_of_findItem hfind) (not_not.mp htype) (by omega)))
    exact ⟨d', congrArg some hrun, hbacked⟩

theorem Backed.reset_sim (h : Backed z n keys limit items d mgr)
    (hfits : TableFits ft keys limit items) (hkeys : Keys (keys : Set Bytes))
    (hroomy : Roomy z keys limit) (rounds blkSize : Nat) (key : String) :
    ∃ d', d.exec ft rounds blkSize (.reset key) =
        some (d', (FlashParam.flashParamReset ft mgr (some key) true).ret) ∧
      Backed z n keys limit items d' (FlashParam.flashParamReset ft mgr (some key) true).mgr := by
  unfold FlashParam.flashParamReset
  rw [Device.exec, h.findItem, h.initOk]
  dsimp only
  cases hfind : mgr.findItem key with
  | none => exact ⟨d, rfl, h⟩
  | some c =>
    obtain ⟨d', hrun, hbacked⟩ := h.putItem hfits hfind
      (hfits.default_sim hkeys hroomy (h.item_of_findItem hfind))
    exact ⟨d', congrArg some hrun, hbacked⟩

theorem Backed.groupReset_sim (h : Backed z n keys limit items d mgr)
    (hfits : TableFits ft keys limit items) (hkeys : Keys (keys : Set Bytes))
    (hroomy : Roomy z keys limit) (rounds blkSize : Nat) (group : FlashParam.ParamGroup) :
    ∃ d', d.exec ft rounds blkSize (.groupReset group) =
        some (d', (FlashParam.flashParamGroupReset ft mgr group fun _ => true).ret) ∧
      Backed z n keys limit items d'
        (FlashParam.flashParamGroupReset ft mgr group fun _ => true).mgr := by
  unfold FlashParam.flashParamGroupReset
  rw [Device.exec, h.initOk, if_neg (by decide)]
  obtain ⟨cont, hbacks, hagree⟩ := h.contents
  have hsim : ∀ c : Cell, c.item ∈ items → ItemSim z n keys limit c (groupResetOne ft group c)
      (FlashParam.groupResetOne ft group (fun _ => true) c) := by
    intro c hc
    unfold groupResetOne FlashParam.groupResetOne
    by_cases hgroup : c.item.group = group
    · simp only [if_pos hgroup]
      exact hfits.default_sim hkeys hroomy hc
    · simp only [if_neg hgroup]
      exact skip_sim c
  obtain ⟨d', hrun, hbacked⟩ := h.putLoop hfits false hbacks hagree hsim
  exact ⟨d', congrArg some hrun, hbacked⟩

theorem Backed.resetAll_sim (h : Backed z n keys limit items d mgr)
    (hfits : TableFits ft keys limit items) (hkeys : Keys (keys : Set Bytes))
    (hroomy : Roomy z keys limit) (rounds blkSize : Nat) :
    ∃ d', d.exec ft rounds blkSize .resetAll =
        some (d',
          (FlashParam.flashParamResetAll ft mgr (.formatted fun _ => true) fun _ => true).ret) ∧
      Backed z n keys limit items d'
        (FlashParam.flashParamResetAll ft mgr (.formatted fun _ => true) fun _ => true).mgr := by
  obtain ⟨cont, hbacks, hagree⟩ := h.contents
  have hitems : FlashParam.itemsOf d.cells = items := by rw [h.cells, h.table]
  have hdefs := hfits.defaultsOk hitems
  obtain ⟨m', db', hrun, hrestored, hserves⟩ :=
    (hbacks.refines.serves.withDefaults (d.cells.map defaultKv)).fdbKvSetDefault_spec hkeys
    hdefs.mem hdefs.nodup
  obtain ⟨hbounded, fdb, hset, hagree'⟩ := @TableFits.restored z keys limit mgr.kvdb ft items hfits
    hroomy _ hitems m' hrestored
  have hbacks' : Backs z n keys limit { d.srv with db := db' } ⟨m', d.cells.map defaultKv⟩ :=
    ⟨⟨hserves, hbacks.refines.value, hdefs⟩, hbounded⟩
  obtain ⟨d', hloop, hbacked⟩ := h.putLoop hfits false hbacks' hagree'
    fun c hc => hfits.syncOne_sim hkeys hroomy hc
  rw [h.cells] at hset
  unfold FlashParam.flashParamResetAll
  rw [Device.exec, h.initOk, if_neg (by decide), hset]
  dsimp only
  rw [hrun]
  exact ⟨d', congrArg some hloop, hbacked⟩

theorem Backed.reboot_sim (h : Backed z n keys limit items d mgr)
    (hfits : TableFits ft keys limit items) (hkeys : Keys (keys : Set Bytes))
    (hroomy : Roomy z keys limit) (rounds : Nat) {blkSize : Nat} (hblk : z % blkSize = 0) :
    ∃ d', d.exec ft (rounds + 1) blkSize .reboot =
        some (d', (FlashParam.powerCycle ft mgr idealEnv).ret) ∧
      Backed z n keys limit items d' (FlashParam.powerCycle ft mgr idealEnv).mgr := by
  obtain ⟨cont, hbacks, hagree⟩ := h.contents
  have hitems : FlashParam.itemsOf d.cells = items := by rw [h.cells, h.table]
  have hcells : mgr.cells.map (fun c => c.item.powerOn) = items.map (·.powerOn) := by
    rw [← h.table, FlashParam.itemsOf, List.map_map]
    rfl
  have hdefs := hfits.defaultsOk (FlashParam.itemsOf_powerOn items)
  obtain ⟨db', hrun, hserves⟩ := (hbacks.refines.serves.withDefaults
    ((items.map (·.powerOn)).map defaultKv)).restart_spec hkeys hdefs.mem hdefs.nodup hblk rounds
  have hbacks' : Backs z n keys limit ⟨db', zeros (FlashParam.strKvValueMaxSize + 1)⟩
      ⟨cont.map, (items.map (·.powerOn)).map defaultKv⟩ :=
    ⟨hserves.refines hdefs, hbacks.bounded.map, hfits.bounded (FlashParam.itemsOf_powerOn items)⟩
  obtain ⟨d', hloop, hret, hbacked⟩ := hfits.init_sim hkeys hroomy hbacks'
    (show Agree (tableKeys items) _ mgr.kvdb from hagree) (.blank (.holds mgr.kvdb) [])
    (.holds mgr.kvdb) mgr.lock rfl
  unfold FlashParam.powerCycle
  rw [hcells, ← h.locks, hret]
  refine ⟨d', ?_, hbacked⟩
  rw [Device.exec, hitems]
  unfold powerOn
  dsimp only at hrun ⊢
  rw [hrun]
  exact congrArg some hloop

/-- A call of the manager does what it does on the map. -/
theorem Backed.exec_sim (h : Backed z n keys limit items d mgr)
    (hfits : TableFits ft keys limit items) (hkeys : Keys (keys : Set Bytes))
    (hroomy : Roomy z keys limit) (rounds : Nat) {blkSize : Nat} (hblk : z % blkSize = 0) (op : Op)
    (hop : op.Bounded ft limit items) :
    ∃ d' mgr' r, d.exec ft (rounds + 1) blkSize op = some (d', r) ∧
      idealExec ft mgr op.ideal = some (mgr', r) ∧ Backed z n keys limit items d' mgr' := by
  have hcall : ∃ d', d.exec ft (rounds + 1) blkSize op =
      some (d', (FlashParam.appCall ft mgr op.ideal).ret) ∧
      Backed z n keys limit items d' (FlashParam.appCall ft mgr op.ideal).mgr := by
    cases op with
    | set key val => exact h.set_sim hfits hkeys hroomy (rounds + 1) blkSize hop
    | setBlob key val valLen => exact h.setBlob_sim hfits hkeys hroomy (rounds + 1) blkSize hop
    | reset key => exact h.reset_sim hfits hkeys hroomy (rounds + 1) blkSize key
    | groupReset group => exact h.groupReset_sim hfits hkeys hroomy (rounds + 1) blkSize group
    | resetAll => exact h.resetAll_sim hfits hkeys hroomy (rounds + 1) blkSize
    | reboot => exact h.reboot_sim hfits hkeys hroomy rounds hblk
  obtain ⟨d', hrun, hbacked⟩ := hcall
  exact ⟨d', _, _, hrun, rfl, hbacked⟩

/-! ## Tables with room -/

/-- The values of an item have at most `L` bytes.  Their texts come from no C library
function. -/
structure SmallItem (L : Nat) (it : ParamItem) : Prop where
  notFloat : it.type ≠ .float
  defSize : it.defSize ≤ L
  ramSize : it.ramSize ≤ L
  region : ∀ bs, it.defVal = .region bs → bs.length ≤ L
  ram : it.defVal = .ram → it.type ≠ .str

theorem storable_intToStr {L : Nat} (hL : 11 ≤ L) (c : Cell) (bs : Bytes) :
    Storable (fun _ => L) c (FlashParam.intToStr bs) := by
  refine ⟨?_, fun _ hmem => ?_⟩
  · have hle := length_formatD_le (v := (ofLe4 bs).toInt) (by
      have hlo := (ofLe4 bs).le_toInt
      have hhi := (ofLe4 bs).toInt_lt
      rw [inLong, Bool.and_eq_true, decide_eq_true_eq, decide_eq_true_eq]
      omega)
    exact hle.trans hL
  · exact absurd (formatD_printable _ 0 hmem).1 (by decide)

theorem storable_cstr {L : Nat} {c : Cell} {bs : Bytes} (h : (cstr bs).length ≤ L) :
    Storable (fun _ => L) c (cstr bs) :=
  ⟨h, fun _ => zero_notMem_cstr bs⟩

theorem storable_blob {L : Nat} {c : Cell} {bs : Bytes} (hblob : c.item.type = .blob)
    (h : bs.length ≤ L) : Storable (fun _ => L) c bs :=
  ⟨h, fun hne => absurd hblob hne⟩

/-- The region of a default is small. -/
theorem SmallItem.length_defRegion {L : Nat} {c : Cell} (h : SmallItem L c.item) {bs : Bytes}
    (hbs : c.defRegion = some bs) : bs.length ≤ L := by
  unfold Cell.defRegion at hbs
  cases hdef : c.item.defVal with
  | null =>
    rw [hdef] at hbs
    exact absurd hbs.symm (Option.some_ne_none bs)
  | region bs' =>
    rw [hdef] at hbs
    obtain rfl := Option.some.inj hbs
    exact h.region bs' hdef
  | ram =>
    rw [hdef] at hbs
    obtain rfl := Option.some.inj hbs
    rw [c.ramLen]
    exact h.ramSize

theorem storable_defaultWrite {L : Nat} (hL : 11 ≤ L) {c : Cell} (h : SmallItem L c.item)
    {w : Write} (hw : FlashParam.defaultWrite ft c = .ok w) : Storable (fun _ => L) c w.value := by
  unfold FlashParam.defaultWrite at hw
  cases htype : c.item.type with
  | int =>
    simp only [htype] at hw
    split at hw
    · obtain rfl := Except.ok.inj hw
      exact storable_intToStr hL c _
    · cases hw
  | float => exact absurd htype h.notFloat
  | str =>
    simp only [htype] at hw
    split at hw
    · rename_i t ht
      obtain rfl := Except.ok.inj hw
      obtain ⟨r, hr, -, rfl⟩ := FlashParam.readStr_eq_some ht
      exact storable_cstr ((List.takeWhile_sublist _).length_le.trans (h.length_defRegion hr))
    · cases hw
  | blob =>
    simp only [htype] at hw
    split at hw
    · rename_i t ht
      obtain rfl := Except.ok.inj hw
      exact storable_blob htype ((FlashParam.readBytes_length ht).le.trans h.defSize)
    · cases hw
  | other =>
    simp only [htype] at hw
    cases hw

theorem storable_setWrite {L : Nat} (hL : 11 ≤ L) {c : Cell} (h : SmallItem L c.item) {val : Bytes}
    (hval : (cstr val).length ≤ L) {w : Write} (hw : FlashParam.setWrite ft c val = .ok w) :
    Storable (fun _ => L) c w.value := by
  unfold FlashParam.setWrite at hw
  cases htype : c.item.type with
  | int =>
    simp only [htype] at hw
    split at hw
    · obtain rfl := Except.ok.inj hw
      exact storable_intToStr hL c _
    · cases hw
  | float => exact absurd htype h.notFloat
  | str =>
    simp only [htype] at hw
    split at hw
    · rename_i t ht
      obtain rfl := Except.ok.inj hw
      obtain ⟨r, hr, -, rfl⟩ := FlashParam.readStr_eq_some ht
      obtain rfl := Option.some.inj hr
      exact storable_cstr hval
    · cases hw
  | blob =>
    simp only [htype] at hw
    split at hw
    · rename_i t ht
      obtain rfl := Except.ok.inj hw
      have hlen := FlashParam.readBytes_length ht
      have hle := h.ramSize
      exact storable_blob htype (by dsimp only; omega)
    · cases hw
  | other =>
    simp only [htype] at hw
    cases hw

/-- The default record of an item has the bytes that FlashDB takes from it. -/
theorem defNode_value {c : Cell} (h : (FlashParam.defNode c).value.isSome = true) :
    (FlashParam.defNode c).value = some (defaultKv c).bytes := by
  obtain ⟨v, hv⟩ := Option.isSome_iff_exists.mp h
  rw [hv]
  unfold FlashParam.defNode at hv
  unfold DefaultKv.bytes defaultKv
  dsimp only at hv ⊢
  split_ifs at hv ⊢ with hsize
  · obtain ⟨r, hr, -, rfl⟩ := FlashParam.readStr_eq_some hv
    rw [hr, Option.getD_some]
  · obtain ⟨r, hr, -, rfl⟩ := FlashParam.readBytes_eq_some hv
    rw [hr, Option.getD_some]

theorem SmallItem.length_bytes {L : Nat} {c : Cell} (h : SmallItem L c.item) :
    (defaultKv c).bytes.length ≤ L := by
  unfold DefaultKv.bytes defaultKv
  dsimp only
  have hle : (c.defRegion.getD []).length ≤ L := by
    cases hr : c.defRegion with
    | none => exact Nat.zero_le L
    | some bs => exact h.length_defRegion hr
  split_ifs
  · exact (List.takeWhile_sublist _).length_le.trans hle
  · rw [List.length_take]
    omega

theorem SmallItem.ramString {L : Nat} {c : Cell} (h : SmallItem L c.item) :
    FlashParam.RamString c :=
  fun hram hstr => absurd hstr (h.ram hram)

/-- A table of items with small values fits. -/
theorem tableFits_of_good {L : Nat} (hL : 11 ≤ L) (hok : FlashParam.tableOk items = true)
    (hne : items ≠ []) (hmem : ∀ it ∈ items, ascii (itemKey it) ∈ keys)
    (hinj : Set.InjOn ascii (tableKeys items)) (hgood : ∀ it ∈ items, FlashParam.Good it)
    (hsmall : ∀ it ∈ items, SmallItem L it) : TableFits ft keys (fun _ => L) items where
  accepted := hok
  ne_nil := hne
  mem := hmem
  inj := hinj
  default c hc := by
    obtain ⟨w, hw⟩ : ∃ w, FlashParam.defaultWrite ft c = .ok w :=
      (hgood c.item hc).defaultWrite (hsmall c.item hc).ramString
    exact ⟨w, hw, storable_defaultWrite hL (hsmall c.item hc) hw⟩
  node c hc := by
    have hnode := (hgood c.item hc).defNode (hsmall c.item hc).ramString
    exact ⟨defNode_value hnode, (hsmall c.item hc).length_bytes⟩

/-! ## The table of the board -/

/-- The keys of `params.c`. -/
def boardKeys : Finset Bytes := (FlashParam.gItems.map fun it => ascii (itemKey it)).toFinset

/-- The key `SN` starts the key `SN2`.  The check values of the two differ, so the cache
does not mix them up. -/
theorem keys_boardKeys : Keys (boardKeys : Set Bytes) := by
  have hlen : ∀ k ∈ boardKeys, k.length < fdbKvNameMax := by decide
  have hnul : ∀ k ∈ boardKeys, (0 : UInt8) ∉ k := by decide
  have hclash : ∀ k ∈ boardKeys, ∀ k' ∈ boardKeys, nameCrc k = nameCrc k' → k <+: k' → k = k' := by
    decide +kernel
  exact ⟨hlen, hnul, hclash⟩

/-- A sector of 4096 bytes holds the seven parameters with 464 bytes each, and one more. -/
theorem roomy_boardKeys : Roomy 4096 boardKeys fun _ => 464 := by
  unfold Roomy
  decide +kernel

theorem good_gItems : ∀ it ∈ FlashParam.gItems, FlashParam.Good it := by
  have hread : ∀ it ∈ FlashParam.gItems, FlashParam.DefaultReadable it := by decide
  exact fun it hit => ⟨FlashParam.itemOk_of_mem FlashParam.gItems_ok hit,
    FlashParam.gItems_sized it hit, hread it hit⟩

theorem smallItem_region {L : Nat} {it : ParamItem} {bs : Bytes} (htype : it.type ≠ .float)
    (hdef : it.defSize ≤ L) (hram : it.ramSize ≤ L) (hval : it.defVal = .region bs)
    (hlen : bs.length ≤ L) : SmallItem L it := by
  refine ⟨htype, hdef, hram, fun bs' hbs' => ?_, fun h => ?_⟩
  · rw [hval] at hbs'
    cases hbs'
    exact hlen
  · rw [hval] at h
    cases h

theorem small_gItems : ∀ it ∈ FlashParam.gItems, SmallItem 464 it := by
  intro it hit
  simp only [FlashParam.gItems, List.mem_cons, List.not_mem_nil, or_false] at hit
  rcases hit with rfl | rfl | rfl | rfl | rfl | rfl | rfl
  · exact smallItem_region (by decide) (by decide) (by decide) rfl (by decide)
  · exact smallItem_region (by decide) (by decide) (by decide) rfl (by decide)
  · exact smallItem_region (by decide) (by decide) (by decide) rfl (by decide)
  · exact smallItem_region (by decide) (by decide) (by decide) rfl (by decide)
  · exact smallItem_region (by decide) (by decide) (by decide) rfl (by decide)
  · exact smallItem_region (by decide) (by decide) (by decide) rfl (by decide)
  · refine ⟨by decide, by decide, by decide, fun bs hbs => ?_, fun _ => by decide⟩
    cases hbs

theorem boardItems_fit (ft : FloatText) :
    TableFits ft boardKeys (fun _ => 464) FlashParam.gItems := by
  have hinj : ∀ it ∈ FlashParam.gItems, ∀ it' ∈ FlashParam.gItems,
      ascii (itemKey it) = ascii (itemKey it') → itemKey it = itemKey it' := by decide +kernel
  refine tableFits_of_good (by decide) FlashParam.gItems_ok (by decide)
    (fun it hit => List.mem_toFinset.mpr (List.mem_map_of_mem hit)) ?_ good_gItems small_gItems
  rintro _ ⟨it, hit, rfl⟩ _ ⟨it', hit', rfl⟩ heq
  exact hinj it hit it' hit' heq

/-- The manager on the database returns what the manager on a map returns, and its
parameters have the same values in RAM, from the first power-on on. -/
theorem manager_runs_on_map {f : Flash} {blkSize : Nat} (hgeo : Geometry z n) (hready : f.Ready)
    (hsize : f.size = n * z) (hblk : z % blkSize = 0) (hblank : ∀ j < n, NoHeader f.img (j * z))
    (hkeys : Keys (keys : Set Bytes)) (hroomy : Roomy z keys limit)
    (hfits : TableFits ft keys limit items) (rounds : Nat) (ops : List Op)
    (hops : ∀ op ∈ ops, op.Bounded ft limit items) :
    ∃ d d' mgr' rets, powerOn ft (rounds + 1) blkSize z f items = some (d, .ok) ∧
      answer (Device.exec ft (rounds + 1) blkSize) d ops = some (d', rets) ∧
      answer (idealExec ft) (FlashParam.flashParamInit ft (.blank .blank []) .blank
        (items.map (·.powerOn)) true true idealEnv).mgr (ops.map Op.ideal) = some (mgr', rets) ∧
      d'.cells = mgr'.cells := by
  obtain ⟨d, hon, hbacked⟩ :=
    hfits.powerOn_blank hgeo hready hsize hblk hblank hkeys hroomy rounds true (.blank .blank [])
  obtain ⟨d', mgr', rets, hrun, hideal, hend⟩ := answer_simulates
    (R := Backed z n keys limit items) (A := Op.Bounded ft limit items)
    (fun _ _ op hb hop => hb.exec_sim hfits hkeys hroomy rounds hblk op hop) ops d _ hbacked hops
  exact ⟨d, d', mgr', rets, hon, hrun, hideal, hend.cells⟩

/-- The parameters of the board on an erased flash.  A serial number is set, and the power
goes off and on. -/
theorem manager_runs_on_map_board :
    ∃ d d' mgr' rets, powerOn ⟨fun _ => [], fun _ => none⟩ 1 4096 4096 (Flash.erased 16384)
        FlashParam.gItems = some (d, .ok) ∧
      answer (Device.exec ⟨fun _ => [], fun _ => none⟩ 1 4096) d
        [.set "SN" (ascii "A1" ++ [0]), .reboot] = some (d', rets) ∧
      answer (idealExec ⟨fun _ => [], fun _ => none⟩) (FlashParam.flashParamInit
        ⟨fun _ => [], fun _ => none⟩ (.blank .blank []) .blank (FlashParam.gItems.map (·.powerOn))
        true true idealEnv).mgr ([.set "SN" (ascii "A1" ++ [0]), .reboot].map Op.ideal) =
          some (mgr', rets) ∧
      d'.cells = mgr'.cells := by
  refine manager_runs_on_map (n := 4) ⟨by decide, by decide, by decide⟩ (Flash.ready_erased 16384)
    rfl
    rfl (fun _ _ => noHeader_erased _) keys_boardKeys roomy_boardKeys (boardItems_fit _) 0 _ ?_
  intro op hop
  simp only [List.mem_cons, List.not_mem_nil, or_false] at hop
  rcases hop with rfl | rfl
  · exact fun c hc _ w hw => storable_setWrite (by decide) (small_gItems c.item hc) (by decide) hw
  · trivial

end Table

end Hc32Board.FlashDb
