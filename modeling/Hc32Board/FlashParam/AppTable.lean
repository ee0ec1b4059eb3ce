import Hc32Board.FlashParam.FirstBoot

/-!
# The parameter table of the application

`params.c` gives the item `do_time1` the address of its live variable
`g_do1_time_type` as default.  The default is then whatever the variable
holds.

* `flash_param_reset` and `flash_param_group_reset` write the current value of
  the variable to the database, clear the variable, and copy the cleared
  variable onto itself.  The variable ends at zero and the database keeps the
  old value.
* `flash_param_reset_all` lets FlashDB store the current value as the default
  record and reads it back.  Nothing is reset.

A reset therefore reaches the factory default, four zero bytes, only when the
variable is already zero (`CleanReset`).
-/

namespace Hc32Board.FlashParam

open Hc32Board.CodeLib

/-! ## The table and its first boot -/

def doTime1 : ParamItem := paramBlob "do_time1" .ram 4 4 .doTime

/-- `g_items`. -/
def gItems : List ParamItem :=
  [paramStr "SN" (ascii "01234567890123456789") 32 .system,
    paramStr "SN2" (ascii "01234567890123456789") 32 .system,
    paramInt "rs485_1_baud" 115200 4 .comm,
    paramInt "rs485_2_baud" 115200 4 .comm,
    paramInt "di1_trigger_level" 0 4 .di,
    paramInt "do1_level" 2 4 .do_,
    doTime1]

/-- `fdb_kvdc_params` on blank flash, with the variables cleared. -/
def firstBoot (ft : FloatText) (env : InitEnv) : Outcome :=
  flashParamInit ft (.blank .blank []) .blank (gItems.map (·.powerOn)) true true env

/-- A call on the manager, or a power cycle. -/
inductive AppOp where
  | write (op : WriteOp)
  | resetAll (out : SetDefault) (writeOk : String → Bool)
  | reboot (env : InitEnv)

def appCall (ft : FloatText) (mgr : ParamMgr) : AppOp → Outcome
  | .write (.set key val ok) => flashParamSet ft mgr key val ok
  | .write (.setBlob key val valLen ok) => flashParamSetBlob mgr key val valLen ok
  | .write (.reset key ok) => flashParamReset ft mgr key ok
  | .write (.groupReset group writeOk) => flashParamGroupReset ft mgr group writeOk
  | .resetAll out writeOk => flashParamResetAll ft mgr out writeOk
  | .reboot env => powerCycle ft mgr env

def appStep (ft : FloatText) (mgr : ParamMgr) (op : AppOp) : ParamMgr := (appCall ft mgr op).mgr

/-! ## The table stays -/

theorem itemsOf_putItem (mgr : ParamMgr) (key : String) (s : Step) :
    itemsOf (mgr.putItem key s).cells = itemsOf mgr.cells :=
  itemsOf_map_memcpy ..

theorem itemsOf_flashParamInit (ft : FloatText) (mgr : ParamMgr) (flash : Flash)
    (env : InitEnv) {cells : List Cell} {lock unlock : Bool} (hne : cells ≠ [])
    (hlock : lock = unlock) (htable : tableOk (itemsOf cells) = true) :
    itemsOf (flashParamInit ft mgr flash cells lock unlock env).mgr.cells = itemsOf cells ∧
      (flashParamInit ft mgr flash cells lock unlock env).mgr.lock =
        (flashParamInit ft mgr flash cells lock unlock env).mgr.unlock := by
  unfold flashParamInit
  rw [if_neg hne, if_neg (not_not.2 hlock), dif_pos htable]
  split_ifs
  · exact ⟨rfl, rfl⟩
  · cases fdbKvdbInit flash (cells.map defNode) env with
    | error r => exact ⟨rfl, rfl⟩
    | ok db => exact ⟨itemsOf_forItems .., hlock⟩

/-- The manager holds the table of the application, with both lock functions
or none. -/
structure AppMgr (mgr : ParamMgr) : Prop where
  table : itemsOf mgr.cells = gItems
  locks : mgr.lock = mgr.unlock

theorem gItems_ok : tableOk gItems = true := by decide

theorem itemsOf_powerOn (items : List ParamItem) : itemsOf (items.map (·.powerOn)) = items := by
  simp [itemsOf, List.map_map, Function.comp_def, ParamItem.powerOn]

theorem appMgr_firstBoot (ft : FloatText) (env : InitEnv) : AppMgr (firstBoot ft env).mgr := by
  have hne : gItems.map (·.powerOn) ≠ [] := by simp [gItems]
  have htable : tableOk (itemsOf (gItems.map (·.powerOn))) = true := by
    rw [itemsOf_powerOn]
    exact gItems_ok
  obtain ⟨h1, h2⟩ := itemsOf_flashParamInit ft (.blank .blank []) .blank env hne
    (rfl : true = true) htable
  exact ⟨h1.trans (itemsOf_powerOn gItems), h2⟩

/-- A call on one item keeps the table. -/
theorem AppMgr.onItem {mgr : ParamMgr} (h : AppMgr mgr) (key : String) (c : Cell)
    (f : Cell → Option Bytes → Step) : AppMgr (mgr.onItem key c f).mgr :=
  ⟨(itemsOf_putItem ..).trans h.table, h.locks⟩

theorem appMgr_step (ft : FloatText) (mgr : ParamMgr) (op : AppOp) (h : AppMgr mgr) :
    AppMgr (appStep ft mgr op) := by
  cases op with
  | write op =>
    cases op with
    | set key val ok =>
      show AppMgr (flashParamSet ft mgr key val ok).mgr
      rcases flashParamSet_cases ft mgr key val ok with heq | ⟨k, v, c, -, -, -, -, heq⟩
      · rw [heq]
        exact h
      · rw [heq]
        exact h.onItem k c _
    | setBlob key val valLen ok =>
      show AppMgr (flashParamSetBlob mgr key val valLen ok).mgr
      rcases flashParamSetBlob_cases mgr key val valLen ok with
        heq | ⟨k, v, c, -, -, -, -, -, -, -, heq⟩
      · rw [heq]
        exact h
      · rw [heq]
        exact h.onItem k c _
    | reset key ok =>
      show AppMgr (flashParamReset ft mgr key ok).mgr
      rcases flashParamReset_cases ft mgr key ok with heq | ⟨k, c, -, -, -, heq⟩
      · rw [heq]
        exact h
      · rw [heq]
        exact h.onItem k c _
    | groupReset group writeOk =>
      show AppMgr (flashParamGroupReset ft mgr group writeOk).mgr
      unfold flashParamGroupReset
      split_ifs
      · exact h
      · exact ⟨(itemsOf_forItems ..).trans h.table, h.locks⟩
  | resetAll out writeOk =>
    show AppMgr (flashParamResetAll ft mgr out writeOk).mgr
    unfold flashParamResetAll
    split_ifs
    · exact h
    · split
      · exact h
      · exact ⟨(itemsOf_forItems ..).trans h.table, h.locks⟩
  | reboot env =>
    show AppMgr (powerCycle ft mgr env).mgr
    have hitems : itemsOf (mgr.cells.map fun c => c.item.powerOn) = gItems := by
      rw [← h.table]
      simp [itemsOf, List.map_map, Function.comp_def, ParamItem.powerOn]
    have hne : mgr.cells.map (fun c => c.item.powerOn) ≠ [] := by
      intro hnil
      rw [hnil] at hitems
      simp [itemsOf, gItems] at hitems
    obtain ⟨h1, h2⟩ := itemsOf_flashParamInit ft (.blank (.holds mgr.kvdb) [])
      (.holds mgr.kvdb) env hne h.locks (by rw [hitems]; exact gItems_ok)
    exact ⟨h1.trans hitems, h2⟩

/-- The cell of `do_time1`. -/
theorem AppMgr.doTime1_cell {mgr : ParamMgr} (h : AppMgr mgr) :
    ∃ c ∈ mgr.cells, c.item = doTime1 := by
  have hmem : doTime1 ∈ itemsOf mgr.cells := by
    rw [h.table]
    simp [gItems]
  exact List.mem_map.1 hmem

/-! ## What a reset does to `do_time1` -/

/-- The default write of `do_time1`: the database gets the current value of
the variable, and the variable becomes zero. -/
theorem defaultWrite_doTime1 {ft : FloatText} {c : Cell} (hc : c.item = doTime1) {w : Write}
    (hw : defaultWrite ft c = .ok w) : w.value = c.ram ∧ w.image = zeros 4 := by
  have hblob : c.item.type = .blob := by rw [hc]; rfl
  have hlen : c.ram.length = 4 := by rw [c.ramLen, hc]; rfl
  obtain ⟨hvalue, -, himage⟩ := defaultWrite_blob hblob hw
  rw [hvalue, himage, Cell.defBlob, Cell.defRegion, hc]
  constructor
  · show c.ram.take 4 = c.ram
    rw [List.take_of_length_le (by omega)]
  · rfl

theorem overlay_zeros_doTime1 {c : Cell} (hc : c.item = doTime1) :
    overlay (zeros 4) c.ram = zeros 4 := by
  have hlen : c.ram.length = 4 := by rw [c.ramLen, hc]; rfl
  rw [overlay_of_length_le (by rw [length_zeros, hlen]), hlen,
    List.take_of_length_le (by rw [length_zeros])]

/-- The variable and the stored value of `do_time1` are the factory default. -/
def AtFactory (mgr : ParamMgr) : Prop :=
  mgr.ramOf "do_time1" = some (zeros 4) ∧ mgr.kvdb "do_time1" = some (zeros 4)

/-- The variable of `do_time1` is zero. -/
def VarZero (mgr : ParamMgr) : Prop := mgr.ramOf "do_time1" = some (zeros 4)

theorem ramOf_of_mem {mgr : ParamMgr} (hok : mgr.initOk = true) {c : Cell} (hc : c ∈ mgr.cells) :
    mgr.ramOf c.key = some c.ram := by
  rw [ParamMgr.ramOf, findItem_of_mem hok hc]
  rfl

/-- A group reset that returns `0` has written the default of every item of
the group. -/
theorem flashParamGroupReset_ok {ft : FloatText} {mgr : ParamMgr} {group : ParamGroup}
    {writeOk : String → Bool} {c : Cell} (hc : c ∈ mgr.cells) (hgroup : c.item.group = group)
    (h : (flashParamGroupReset ft mgr group writeOk).ret = .ok) :
    ∃ w, defaultWrite ft c = .ok w ∧
      (flashParamGroupReset ft mgr group writeOk).mgr.ramOf c.key =
        some (overlay w.image c.ram) ∧
      (flashParamGroupReset ft mgr group writeOk).mgr.kvdb c.key = some w.value := by
  unfold flashParamGroupReset at h ⊢
  split_ifs at h ⊢ with hinit
  have hnd := keys_nodup (mgr.accepted (by simpa using hinit))
  have hall := forItems_ok mgr.kvdb hnd h
  have hgo : ∀ d ∈ mgr.cells,
      GoesOn false (groupResetOne ft group writeOk d (mgr.kvdb d.key)).ret := by
    intro d hd
    rw [hall d hd]
    exact goesOn_ok false
  obtain ⟨hcells, hkv, -⟩ := forItems_spec mgr.kvdb hnd hgo
  have hone : groupResetOne ft group writeOk c (mgr.kvdb c.key) =
      commit c (mgr.kvdb c.key) (defaultWrite ft c) (writeOk c.key) := by
    rw [groupResetOne, if_pos hgroup, resetOneLocked]
  have hret := hall c hc
  rw [hone] at hret
  obtain ⟨w, hw, -, hstep⟩ := commit_default_ok hret
  refine ⟨w, hw, ?_, ?_⟩
  · show ((forItems false (groupResetOne ft group writeOk) mgr.kvdb mgr.cells).cells.find?
      (·.key = c.key)).map (·.ram) = _
    rw [hcells, find?_map_memcpy hnd hc, hone, hstep]
  · show (forItems false (groupResetOne ft group writeOk) mgr.kvdb mgr.cells).db c.key = _
    rw [hkv c hc, hone, hstep]

/-- A default write of `do_time1` reaches the factory default only from a zero
variable. -/
theorem atFactory_write_iff {ft : FloatText} {mgr mgr' : ParamMgr} {c : Cell}
    (hok : mgr.initOk = true) (hc : c ∈ mgr.cells) (hitem : c.item = doTime1)
    (h : ∃ w, defaultWrite ft c = .ok w ∧ mgr'.ramOf c.key = some (overlay w.image c.ram) ∧
      mgr'.kvdb c.key = some w.value) :
    AtFactory mgr' ↔ VarZero mgr := by
  obtain ⟨w, hw, hram, hkv⟩ := h
  obtain ⟨hvalue, himage⟩ := defaultWrite_doTime1 hitem hw
  have hkey : c.key = "do_time1" := by
    rw [Cell.key, hitem]
    rfl
  have hvar := ramOf_of_mem hok hc
  rw [hkey] at hram hkv hvar
  unfold AtFactory VarZero
  rw [hram, hkv, hvar, himage, hvalue, overlay_zeros_doTime1 hitem]
  simp

/-- The record `v` is zero if it is there, and otherwise `unread` holds. -/
def ZeroRecord (v : Option Bytes) (unread : Prop) : Prop :=
  match v with
  | some (b :: bs) => b :: bs = zeros 4
  | _ => unread

/-- `_sync_one` of `do_time1` from the value `v`. -/
theorem sync_doTime1_iff {ft : FloatText} {ok : Bool} {c : Cell} (hitem : c.item = doTime1)
    {v : Option Bytes} (hret : (syncOne ft ok c v).ret = .ok) :
    (overlay (syncOne ft ok c v).image c.ram = zeros 4 ∧
        (syncOne ft ok c v).stored = some (zeros 4)) ↔ ZeroRecord v (c.ram = zeros 4) := by
  have hblob : c.item.type = .blob := by rw [hitem]; rfl
  have hunread : dbRead ft c v = none →
      ((overlay (syncOne ft ok c v).image c.ram = zeros 4 ∧
        (syncOne ft ok c v).stored = some (zeros 4)) ↔ c.ram = zeros 4) := by
    intro hread
    obtain ⟨w, hw, -, hsync⟩ := syncOne_wrote_default hread hret
    obtain ⟨hvalue, himage⟩ := defaultWrite_doTime1 hitem hw
    rw [hsync]
    simp [himage, hvalue, overlay_zeros_doTime1 hitem]
  match v with
  | none => exact hunread (by simp [dbRead, hblob, fdbKvGetBlob])
  | some [] => exact hunread (dbRead_blob_nil hblob)
  | some (b :: bs) =>
    rw [syncOne_of_read (dbRead_blob hblob (List.cons_ne_nil b bs))]
    simp only [overlay_read_blob, Option.some_inj, ZeroRecord]
    constructor
    · rintro ⟨-, h⟩
      exact h
    · intro h
      rw [h]
      exact ⟨overlay_zeros_doTime1 hitem, rfl⟩

/-! ## Clean resets -/

/-- The state in which a call that resets `do_time1` reaches the factory
default: the variable is zero.  A call of `flash_param_reset_all` whose format
fails can find the old record in place, and then this record has to be zero.
Other calls are not concerned. -/
def CleanReset (mgr : ParamMgr) : AppOp → Prop
  | .write (.reset (some "do_time1") _) => VarZero mgr
  | .write (.groupReset .doTime _) => VarZero mgr
  | .resetAll (.formatted _) _ => VarZero mgr
  | .resetAll (.formatFailed lost) _ =>
    ZeroRecord (if lost "do_time1" then none else mgr.kvdb "do_time1") (VarZero mgr)
  | _ => True

/-- After a call that resets `do_time1` the variable and the stored value are
the factory default. -/
def ReachesFactory (ft : FloatText) (mgr : ParamMgr) : AppOp → Prop
  | .write (.reset (some "do_time1") ok) =>
    AtFactory (appStep ft mgr (.write (.reset (some "do_time1") ok)))
  | .write (.groupReset .doTime writeOk) =>
    AtFactory (appStep ft mgr (.write (.groupReset .doTime writeOk)))
  | .resetAll out writeOk => AtFactory (appStep ft mgr (.resetAll out writeOk))
  | _ => True

theorem resetAll_reaches_iff {ft : FloatText} {mgr : ParamMgr} {out : SetDefault}
    {writeOk : String → Bool} (h : AppMgr mgr)
    (hret : (flashParamResetAll ft mgr out writeOk).ret = .ok) :
    AtFactory (flashParamResetAll ft mgr out writeOk).mgr ↔
      CleanReset mgr (.resetAll out writeOk) := by
  obtain ⟨c, hc, hitem⟩ := h.doTime1_cell
  have hok : mgr.initOk = true := by
    by_contra hno
    simp [flashParamResetAll, Bool.eq_false_iff.2 hno] at hret
  obtain ⟨hs, hram, hkv⟩ := flashParamResetAll_ok hret hc
  have hkey : c.key = "do_time1" := by
    rw [Cell.key, hitem]
    rfl
  have hlen : c.ram.length = 4 := by rw [c.ramLen, hitem]; rfl
  have hnode : (defNode c).value = some c.ram := by
    simp only [defNode, Cell.defRegion, hitem]
    show readBytes (some c.ram) 4 = some c.ram
    rw [readBytes_of_le (by omega), List.take_of_length_le (by omega)]
  have hvar : VarZero mgr ↔ c.ram = zeros 4 := by
    have := ramOf_of_mem hok hc
    rw [hkey] at this
    rw [VarZero, this, Option.some_inj]
  have hiff := sync_doTime1_iff hitem hs
  unfold AtFactory
  rw [hkey] at hram hkv hs hiff
  rw [hram, hkv, Option.some_inj, hiff]
  cases out with
  | formatted created =>
    show _ ↔ VarZero mgr
    rw [hvar, hnode]
    simp only [SetDefault.store]
    unfold ZeroRecord
    split_ifs
    · obtain ⟨b, bs, hcons⟩ : ∃ b bs, c.ram = b :: bs := by
        cases hram : c.ram with
        | nil => simp [hram] at hlen
        | cons b bs => exact ⟨b, bs, rfl⟩
      rw [hcons]
    · rfl
  | formatFailed lost =>
    show _ ↔ ZeroRecord (if lost "do_time1" then none else mgr.kvdb "do_time1") (VarZero mgr)
    rw [hvar]
    rfl

/-- One call: it reaches the factory default exactly from a clean state. -/
theorem reachesFactory_iff {ft : FloatText} {mgr : ParamMgr} (h : AppMgr mgr) (op : AppOp)
    (hret : (appCall ft mgr op).ret = .ok) : ReachesFactory ft mgr op ↔ CleanReset mgr op := by
  obtain ⟨c, hc, hitem⟩ := h.doTime1_cell
  have hkey : c.key = "do_time1" := by
    rw [Cell.key, hitem]
    rfl
  unfold ReachesFactory
  split
  · rename_i ok
    show AtFactory (flashParamReset ft mgr (some "do_time1") ok).mgr ↔ VarZero mgr
    have hok : mgr.initOk = true := by
      by_contra hno
      simp [appCall, flashParamReset, Bool.eq_false_iff.2 hno] at hret
    have hret' : (flashParamReset ft mgr (some c.key) ok).ret = .ok := by
      rw [hkey]
      exact hret
    have hreset := flashParamReset_ok hc hret'
    rw [← hkey]
    exact atFactory_write_iff hok hc hitem hreset
  · rename_i writeOk
    show AtFactory (flashParamGroupReset ft mgr .doTime writeOk).mgr ↔ VarZero mgr
    have hok : mgr.initOk = true := by
      by_contra hno
      simp [appCall, flashParamGroupReset, Bool.eq_false_iff.2 hno] at hret
    have hgroup : c.item.group = .doTime := by rw [hitem]; rfl
    exact atFactory_write_iff hok hc hitem (flashParamGroupReset_ok hc hgroup hret)
  · exact resetAll_reaches_iff h hret
  · rename_i h1 h2 h3
    refine iff_of_true trivial ?_
    unfold CleanReset
    split
    · exact absurd rfl (h1 _)
    · exact absurd rfl (h2 _)
    · exact absurd rfl (h3 _ _)
    · exact absurd rfl (h3 _ _)
    · trivial

/-- The first boot leaves the factory default, zero, in the variable and in
the database. -/
theorem firstBoot_atFactory {ft : FloatText} {env : InitEnv} (h : (firstBoot ft env).ret = .ok) :
    AtFactory (firstBoot ft env).mgr := by
  obtain ⟨db, hb⟩ := flashParamInit_ok h
  have hmem : doTime1.powerOn ∈ gItems.map (·.powerOn) :=
    List.mem_map_of_mem (by simp [gItems])
  have hdb := blank_opened (keys_nodup hb.table) hb.opened hmem
  have hzero : ZeroRecord (db doTime1.powerOn.key) (doTime1.powerOn.ram = zeros 4) := by
    rw [hdb]
    split_ifs
    · have hnode : (defNode doTime1.powerOn).value = some (zeros 4) := by decide
      rw [hnode]
      rfl
    · rfl
  obtain ⟨hram, hkv⟩ := (sync_doTime1_iff rfl (hb.sync _ hmem)).2 hzero
  exact ⟨(hb.ramOf hmem).trans (congrArg some hram), (hb.kvdb_eq _ hmem).trans hkv⟩

/-- The resets of `do_time1` along a run from the first boot.  Every call that
resets it and returns `0` leaves the variable and the stored value equal to the
factory default, exactly when every such call finds a clean state. -/
theorem do_time1_resets_iff (ft : FloatText) (env : InitEnv)
    (hboot : (firstBoot ft env).ret = .ok) (ops : List AppOp) :
    AtFactory (firstBoot ft env).mgr ∧
      (Along (appStep ft)
          (fun mgr op => (appCall ft mgr op).ret = .ok → ReachesFactory ft mgr op)
          (firstBoot ft env).mgr ops ↔
        Along (appStep ft) (fun mgr op => (appCall ft mgr op).ret = .ok → CleanReset mgr op)
          (firstBoot ft env).mgr ops) := by
  refine ⟨firstBoot_atFactory hboot, ?_⟩
  apply along_iff (appMgr_step ft)
  · intro mgr op h
    constructor
    · intro hreach hret
      exact (reachesFactory_iff h op hret).1 (hreach hret)
    · intro hclean hret
      exact (reachesFactory_iff h op hret).2 (hclean hret)
  · exact appMgr_firstBoot ft env

/-- A value is set and then reset.  Both calls return `0`; the variable is
zero and the database still holds the value that was set. -/
theorem do_time1_reset_keeps_value :
    (firstBoot noFloat allOk).ret = .ok ∧
      (appCall noFloat (appStep noFloat (firstBoot noFloat allOk).mgr
        (.write (.set (some "do_time1") (some [5, 0, 0, 0]) true)))
        (.write (.reset (some "do_time1") true))).ret = .ok ∧
      (run (appStep noFloat) (firstBoot noFloat allOk).mgr
        [.write (.set (some "do_time1") (some [5, 0, 0, 0]) true),
          .write (.reset (some "do_time1") true)]).ramOf "do_time1" = some [0, 0, 0, 0] ∧
      (run (appStep noFloat) (firstBoot noFloat allOk).mgr
        [.write (.set (some "do_time1") (some [5, 0, 0, 0]) true),
          .write (.reset (some "do_time1") true)]).kvdb "do_time1" = some [5, 0, 0, 0] := by
  decide

theorem do_time1_reset_at_boot :
    ReachesFactory noFloat (firstBoot noFloat allOk).mgr
      (.write (.reset (some "do_time1") true)) := by
  have hclean : VarZero (firstBoot noFloat allOk).mgr := by
    show (firstBoot noFloat allOk).mgr.ramOf "do_time1" = some (zeros 4)
    decide
  have h := (do_time1_resets_iff noFloat allOk (by decide)
    [.write (.reset (some "do_time1") true)]).2.2 ⟨fun _ => hclean, trivial⟩
  exact h.1 (by decide)

end Hc32Board.FlashParam
