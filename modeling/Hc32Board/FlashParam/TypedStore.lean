import Hc32Board.CodeLib.Store
import Hc32Board.FlashParam.Consistent

/-!
# The parameter manager is a typed store

The abstract model is a map from keys to values in which the last write counts.
It says for every call which value it writes to which key (`written`), in the
normal form of the item:

* INT and FLOAT: the four bytes of the value;
* STR: the string, cut to `ram_size - 1` bytes and padded with zeros;
* BLOB: `min(ram_size, def_size)` or `val_len` bytes, padded with zeros.

A reset writes the default in the same form.  A call that is refused or whose
FlashDB write fails writes nothing.

The view of a manager is the RAM of its items.  `ramOf_callStep` is the
simulation of one call, and `refines_typed_store` the result for every run.
-/

namespace Hc32Board.FlashParam

open Hc32Board.CodeLib

/-! ## The abstract store -/

/-- A call of the store, with the outcome of its FlashDB writes. -/
inductive StoreOp where
  | write (op : WriteOp)
  | get (key : Option String) (buf : Option Bytes) (size : Option Nat)

/-- The first `n` bytes of a region, padded to the RAM of the item. -/
def ParamItem.blobForm (it : ParamItem) (n : Nat) (region : Bytes) : Option Bytes :=
  if n ≤ region.length then some (fit it.ramSize (region.take n)) else none

/-- The value of the item's type in a region, in normal form.  A region without
such a value is not an argument that C can read. -/
def ParamItem.normalForm (it : ParamItem) (region : Bytes) : Option Bytes :=
  match it.type with
  | .int | .float => if 4 ≤ region.length then some (region.take 4) else none
  | .str =>
    if 0 ∈ region then some (fit it.ramSize ((cstr region).take (it.ramSize - 1))) else none
  | .blob => it.blobForm (min it.ramSize it.defSize) region
  | .other => none

/-- The region behind a default outside the RAM of the item. -/
def ParamItem.default (it : ParamItem) : Bytes :=
  match it.defVal with
  | .region bs => bs
  | _ => []

/-- The value that a call writes to the item with this key. -/
def ParamItem.written (it : ParamItem) (k : String) : StoreOp → Option Bytes
  | .write (.set key val ok) =>
    if ok = true ∧ key = some k then val.bind it.normalForm else none
  | .write (.setBlob key val valLen ok) =>
    if ok = true ∧ key = some k ∧ it.type = .blob ∧ 0 < valLen ∧ valLen ≤ it.ramSize then
      val.bind (it.blobForm valLen)
    else none
  | .write (.reset key ok) =>
    if ok = true ∧ key = some k then it.normalForm it.default else none
  | .write (.groupReset group writeOk) =>
    if writeOk k = true ∧ it.group = group then it.normalForm it.default else none
  | .get _ _ _ => none

/-- The value that a call writes to a key of the table. -/
def written (items : List ParamItem) (op : StoreOp) (k : String) : Option Bytes :=
  (items.find? (·.key = some k)).bind (·.written k op)

/-- A written value takes the place of the bytes at the start of the variable. -/
def putValue (value : Bytes) (v : Option Bytes) : Option Bytes := v.map (overlay value)

/-! ## The calls of the manager -/

def writeCall (ft : FloatText) (mgr : ParamMgr) : WriteOp → Outcome
  | .set key val ok => flashParamSet ft mgr key val ok
  | .setBlob key val valLen ok => flashParamSetBlob mgr key val valLen ok
  | .reset key ok => flashParamReset ft mgr key ok
  | .groupReset group writeOk => flashParamGroupReset ft mgr group writeOk

/-- The return value of a call. -/
def callRet (ft : FloatText) (mgr : ParamMgr) : StoreOp → Ret
  | .write op => (writeCall ft mgr op).ret
  | .get key buf size => (flashParamGet mgr key buf size).ret

/-- The manager after a call. -/
def callStep (ft : FloatText) (mgr : ParamMgr) : StoreOp → ParamMgr
  | .write op => (writeCall ft mgr op).mgr
  | .get _ _ _ => mgr

/-! ## Writes in normal form -/

/-- The bytes that a write path copies to RAM. -/
def imageOf (w : Except Ret Write) : Option Bytes := w.toOption.map (·.image)

/-- A write path with a write `v` in normal form, or without one, against the
abstract store. -/
theorem commit_spec (c : Cell) (stored : Option Bytes) {w : Except Ret Write} {ok : Bool}
    {v : Option Bytes} (hw : w ≠ .error .ok) (hv : (if ok then imageOf w else none) = v) :
    (commit c stored w ok).image = v.getD [] ∧
      ((commit c stored w ok).ret = .ok ↔ v.isSome = true) := by
  subst hv
  cases w with
  | error r =>
    have hr : r ≠ .ok := fun hr => hw (congrArg Except.error hr)
    cases ok <;> simp [commit, imageOf, Except.toOption, hr]
  | ok w => cases ok <;> simp [commit, imageOf, Except.toOption]

theorem strncpyBuf_cstr (n : Nat) (r : Bytes) :
    strncpyBuf n (cstr r) = fit n ((cstr r).take (n - 1)) := by
  rw [strncpyBuf, cstr_eq_self (zero_notMem_cstr r)]

theorem setWrite_image (ft : FloatText) (c : Cell) (val : Bytes) :
    imageOf (setWrite ft c val) = c.item.normalForm val := by
  unfold setWrite ParamItem.normalForm
  cases c.item.type with
  | int | float =>
    by_cases h : 4 ≤ val.length
    · rw [readBytes_of_le h, if_pos h]
      rfl
    · rw [readBytes_of_not_le h, if_neg h]
      rfl
  | str =>
    by_cases h : 0 ∈ val
    · rw [readStr_of_mem h, if_pos h, ← strncpyBuf_cstr]
      rfl
    · rw [readStr_of_not_mem h, if_neg h]
      rfl
  | blob =>
    unfold ParamItem.blobForm
    by_cases h : min c.item.ramSize c.item.defSize ≤ val.length
    · rw [readBytes_of_le h, if_pos h]
      rfl
    · rw [readBytes_of_not_le h, if_neg h]
      rfl
  | other => rfl

theorem setBlobWrite_image (c : Cell) (val : Bytes) (valLen : Nat) :
    imageOf (setBlobWrite c val valLen) = c.item.blobForm valLen val := by
  unfold setBlobWrite ParamItem.blobForm
  by_cases h : valLen ≤ val.length
  · rw [readBytes_of_le h, if_pos h]
    rfl
  · rw [readBytes_of_not_le h, if_neg h]
    rfl

/-- A reset writes what `flash_param_set` would write for the default. -/
theorem defaultWrite_image (ft : FloatText) {c : Cell} (hm : FromMacro c.item) :
    imageOf (defaultWrite ft c) = c.item.normalForm c.item.default := by
  obtain ⟨it, ram, hlen⟩ := c
  cases hm with
  | int key d n g => rfl
  | float key d n g => rfl
  | str key s n g =>
    have hnul : (0 : UInt8) ∈ s ++ [0] := by simp
    have hform : (paramStr key s n g).normalForm (s ++ [0]) =
        some (fit n ((cstr (s ++ [0])).take (n - 1))) := if_pos hnul
    have hwrite : defaultWrite ft ⟨paramStr key s n g, ram, hlen⟩ =
        .ok ⟨cstr (s ++ [0]), strncpyBuf n (cstr (s ++ [0]))⟩ := by
      simp only [defaultWrite, paramStr, Cell.defRegion, readStr_of_mem hnul]
    refine (congrArg imageOf hwrite).trans (Eq.trans ?_ hform.symm)
    rw [← strncpyBuf_cstr]
    rfl
  | blob key bs defSz n g hsz =>
    have hmin : min n defSz ≤ bs.length := le_trans (min_le_right n defSz) hsz
    have hform : (paramBlob key (.region bs) defSz n g).normalForm bs =
        some (fit n (bs.take (min n defSz))) := if_pos hmin
    have hwrite : defaultWrite ft ⟨paramBlob key (.region bs) defSz n g, ram, hlen⟩ =
        .ok ⟨bs.take defSz, fit n (bs.take (min defSz n))⟩ := by
      simp only [defaultWrite, paramBlob, Cell.defRegion, readBytes_of_le hsz,
        Cell.defRegionCleared]
    refine (congrArg imageOf hwrite).trans (Eq.trans ?_ hform.symm)
    rw [Nat.min_comm n defSz]
    rfl

/-- A value in normal form has the length of its type. -/
theorem normalForm_length {it : ParamItem} {region v : Bytes} (h : it.normalForm region = some v) :
    v.length = if it.type = .int ∨ it.type = .float then 4 else it.ramSize := by
  unfold ParamItem.normalForm at h
  cases htype : it.type with
  | int | float =>
    rw [htype] at h
    dsimp only at h
    split_ifs at h with hlen
    cases h
    simp [hlen]
  | str =>
    rw [htype] at h
    dsimp only at h
    split_ifs at h
    cases h
    simp
  | blob =>
    rw [htype] at h
    dsimp only [ParamItem.blobForm] at h
    split_ifs at h
    cases h
    simp
  | other =>
    rw [htype] at h
    cases h

theorem blobForm_length {it : ParamItem} {n : Nat} {region v : Bytes}
    (h : it.blobForm n region = some v) : v.length = it.ramSize := by
  unfold ParamItem.blobForm at h
  split_ifs at h
  cases h
  exact length_fit _ _

/-- The length of what a call writes depends on the item only. -/
theorem written_length {it : ParamItem} {k : String} {op : StoreOp} {v : Bytes}
    (h : it.written k op = some v) :
    v.length = if it.type = .int ∨ it.type = .float then 4 else it.ramSize := by
  cases op with
  | get key buf size => cases h
  | write op =>
    cases op with
    | set key val ok =>
      rw [ParamItem.written] at h
      split_ifs at h
      obtain ⟨region, -, hv⟩ := Option.bind_eq_some_iff.mp h
      exact normalForm_length hv
    | setBlob key val valLen ok =>
      rw [ParamItem.written] at h
      split_ifs at h with hcond
      obtain ⟨region, -, hv⟩ := Option.bind_eq_some_iff.mp h
      rw [blobForm_length hv, hcond.2.2.1]
      simp
    | reset key ok =>
      rw [ParamItem.written] at h
      split_ifs at h
      exact normalForm_length h
    | groupReset group writeOk =>
      rw [ParamItem.written] at h
      split_ifs at h
      exact normalForm_length h

/-! ## One call -/

/-- The manager serves this table, built with the macros. -/
structure Serves (items : List ParamItem) (mgr : ParamMgr) : Prop where
  initOk : mgr.initOk = true
  items_eq : itemsOf mgr.cells = items
  macros : ∀ c ∈ mgr.cells, FromMacro c.item

/-- What the abstract store writes to an item. -/
def Cell.written (c : Cell) (op : StoreOp) : Option Bytes := c.item.written c.key op

/-- A call changes the table as the abstract store does, and returns `0` exactly
if the abstract store writes a value. -/
structure Simulates (mgr : ParamMgr) (op : StoreOp) (o : Outcome) : Prop where
  cells : o.mgr.cells = mgr.cells.map fun c => c.memcpy ((c.written op).getD [])
  ret : o.ret = .ok ↔ ∃ c ∈ mgr.cells, (c.written op).isSome = true

section Calls

variable {ft : FloatText} {items : List ParamItem} {mgr : ParamMgr}

theorem map_memcpy_nothing {cells : List Cell} {op : StoreOp}
    (h : ∀ c ∈ cells, c.written op = none) :
    cells.map (fun c => c.memcpy ((c.written op).getD [])) = cells := by
  have hid : ∀ c ∈ cells, c.memcpy ((c.written op).getD []) = c := by
    intro c hc
    rw [h c hc]
    exact c.memcpy_nil
  rw [List.map_congr_left hid, List.map_id']

/-- A call that is refused, where the abstract store writes nothing. -/
theorem simulates_refused {op : StoreOp} (h : ∀ c ∈ mgr.cells, c.written op = none) :
    Simulates mgr op ⟨.fail, mgr, []⟩ := by
  refine ⟨(map_memcpy_nothing h).symm, ⟨nofun, ?_⟩⟩
  rintro ⟨c, hc, hsome⟩
  rw [h c hc] at hsome
  cases hsome

/-- The keys are distinct. -/
theorem Serves.eq_of_key (h : Serves items mgr) {c d : Cell} (hc : c ∈ mgr.cells)
    (hd : d ∈ mgr.cells) (hkey : d.key = c.key) : d = c := by
  have hfind := findItem_of_mem h.initOk hd
  rw [hkey, findItem_of_mem h.initOk hc] at hfind
  exact (Option.some.inj hfind).symm

/-- An operation on the item of the key, where the abstract store writes to that
item only. -/
theorem Serves.simulates_onItem (h : Serves items mgr) {c : Cell} (hc : c ∈ mgr.cells)
    {op : StoreOp} {f : Cell → Option Bytes → Step}
    (hf : (f c (mgr.kvdb c.key)).image = (c.written op).getD [] ∧
      ((f c (mgr.kvdb c.key)).ret = .ok ↔ (c.written op).isSome = true))
    (hother : ∀ d ∈ mgr.cells, d.key ≠ c.key → d.written op = none) :
    Simulates mgr op (mgr.onItem c.key c f) := by
  constructor
  · refine List.map_congr_left fun d hd => ?_
    split_ifs with hkey
    · obtain rfl := h.eq_of_key hc hd hkey
      rw [hf.1]
    · rw [hother d hd hkey]
      exact d.memcpy_nil.symm
  · rw [onItem_ret, hf.2]
    constructor
    · exact fun hsome => ⟨c, hc, hsome⟩
    · rintro ⟨d, hd, hsome⟩
      by_cases hkey : d.key = c.key
      · obtain rfl := h.eq_of_key hc hd hkey
        exact hsome
      · rw [hother d hd hkey] at hsome
        cases hsome

/-- A key that no item has. -/
theorem simulates_unknown {op : StoreOp} {k : String} (h : mgr.findItem k = none)
    (hother : ∀ c : Cell, some k ≠ some c.key → c.written op = none) :
    Simulates mgr op ⟨.fail, mgr, []⟩ := by
  refine simulates_refused fun c hc => hother c fun hk => ?_
  have hnone := List.find?_eq_none.mp h c hc
  simp [Option.some.inj hk] at hnone

theorem setWrite_ne_error (ft : FloatText) (c : Cell) (val : Bytes) :
    setWrite ft c val ≠ .error .ok := by
  unfold setWrite
  split
  · split <;> simp
  · split <;> simp
  · split <;> simp
  · split <;> simp
  · simp

theorem Serves.set (h : Serves items mgr) (key : Option String) (val : Option Bytes) (ok : Bool) :
    Simulates mgr (.write (.set key val ok)) (flashParamSet ft mgr key val ok) := by
  have hother : ∀ c : Cell, key ≠ some c.key → c.written (.write (.set key val ok)) = none :=
    fun c hne => if_neg fun hand => hne hand.2
  unfold flashParamSet
  rw [h.initOk]
  cases key with
  | none => exact simulates_refused fun c _ => hother c nofun
  | some k =>
    cases val with
    | none => exact simulates_refused fun c _ => by simp [Cell.written, ParamItem.written]
    | some v =>
      dsimp only
      cases hfind : mgr.findItem k with
      | none => exact simulates_unknown hfind hother
      | some c =>
        obtain ⟨hc, rfl⟩ := findItem_eq_some hfind
        refine h.simulates_onItem hc (commit_spec c _ (setWrite_ne_error ft c v) ?_) fun d _ hne =>
          hother d fun hk => hne (Option.some.inj hk).symm
        rw [setWrite_image]
        cases ok <;> simp [Cell.written, ParamItem.written]

theorem Serves.setBlob (h : Serves items mgr) (key : Option String) (val : Option Bytes)
    (valLen : Nat) (ok : Bool) :
    Simulates mgr (.write (.setBlob key val valLen ok))
      (flashParamSetBlob mgr key val valLen ok) := by
  have hother : ∀ c : Cell, key ≠ some c.key →
      c.written (.write (.setBlob key val valLen ok)) = none :=
    fun c hne => if_neg fun hand => hne hand.2.1
  unfold flashParamSetBlob
  rw [h.initOk]
  cases key with
  | none => exact simulates_refused fun c _ => hother c nofun
  | some k =>
    cases val with
    | none => exact simulates_refused fun c _ => by simp [Cell.written, ParamItem.written]
    | some v =>
      dsimp only
      split_ifs with hzero
      · exact simulates_refused fun c _ => by simp [Cell.written, ParamItem.written, hzero]
      · cases hfind : mgr.findItem k with
        | none => exact simulates_unknown hfind hother
        | some c =>
          obtain ⟨hc, rfl⟩ := findItem_eq_some hfind
          have hother' : ∀ d : Cell, d.key ≠ c.key →
              d.written (.write (.setBlob (some c.key) (some v) valLen ok)) = none :=
            fun d hne => hother d fun hk => hne (Option.some.inj hk).symm
          -- the checks on the item that was found
          have hrefused : c.written (.write (.setBlob (some c.key) (some v) valLen ok)) = none →
              Simulates mgr (.write (.setBlob (some c.key) (some v) valLen ok))
                ⟨.fail, mgr, []⟩ := by
            intro hnone
            refine simulates_refused fun d hd => ?_
            by_cases hkey : d.key = c.key
            · obtain rfl := h.eq_of_key hc hd hkey
              exact hnone
            · exact hother' d hkey
          dsimp only
          split_ifs with htype hsize
          · exact hrefused (by simp [Cell.written, ParamItem.written, htype])
          · exact hrefused (by simp [Cell.written, ParamItem.written, not_le.mpr hsize])
          · have hne : setBlobWrite c v valLen ≠ .error .ok := by
              unfold setBlobWrite
              split <;> simp
            refine h.simulates_onItem hc (commit_spec c _ hne ?_) fun d _ hne => hother' d hne
            have hargs : c.item.type = .blob ∧ 0 < valLen ∧ valLen ≤ c.item.ramSize :=
              ⟨not_not.mp htype, Nat.pos_of_ne_zero hzero, not_lt.mp hsize⟩
            rw [setBlobWrite_image]
            cases ok <;> simp [Cell.written, ParamItem.written, hargs]

theorem Serves.reset (h : Serves items mgr) (key : Option String) (ok : Bool) :
    Simulates mgr (.write (.reset key ok)) (flashParamReset ft mgr key ok) := by
  have hother : ∀ c : Cell, key ≠ some c.key → c.written (.write (.reset key ok)) = none :=
    fun c hne => if_neg fun hand => hne hand.2
  unfold flashParamReset
  rw [h.initOk]
  cases key with
  | none => exact simulates_refused fun c _ => hother c nofun
  | some k =>
    dsimp only
    cases hfind : mgr.findItem k with
    | none => exact simulates_unknown hfind hother
    | some c =>
      obtain ⟨hc, rfl⟩ := findItem_eq_some hfind
      have hmacro := h.macros c hc
      obtain ⟨w, hw⟩ := hmacro.defaultWrite_ok ft
      refine h.simulates_onItem hc (commit_spec c _ (by rw [hw]; simp) ?_) fun d _ hne =>
        hother d fun hk => hne (Option.some.inj hk).symm
      rw [defaultWrite_image ft hmacro]
      cases ok <;> simp [Cell.written, ParamItem.written]

theorem Serves.groupReset (h : Serves items mgr) (group : ParamGroup) (writeOk : String → Bool) :
    (flashParamGroupReset ft mgr group writeOk).mgr.cells = mgr.cells.map fun c =>
      c.memcpy ((c.written (.write (.groupReset group writeOk))).getD []) := by
  rw [(flashParamGroupReset_spec ft group writeOk h.initOk h.macros).1]
  refine List.map_congr_left fun c hc => congrArg c.memcpy ?_
  unfold groupResetOne
  split_ifs with hgroup
  · obtain ⟨w, hw⟩ := (h.macros c hc).defaultWrite_ok ft
    refine (commit_spec c _ (by rw [hw]; simp) ?_).1
    rw [defaultWrite_image ft (h.macros c hc)]
    simp [Cell.written, ParamItem.written, hgroup]
  · simp [Cell.written, ParamItem.written, hgroup]

/-- A group reset writes to more than one item. -/
def StoreOp.isGroupReset : StoreOp → Bool
  | .write (.groupReset _ _) => true
  | _ => false

theorem Serves.simulates (h : Serves items mgr) (op : WriteOp)
    (hgroup : StoreOp.isGroupReset (.write op) = false) :
    Simulates mgr (.write op) (writeCall ft mgr op) := by
  cases op with
  | set key val ok => exact h.set key val ok
  | setBlob key val valLen ok => exact h.setBlob key val valLen ok
  | reset key ok => exact h.reset key ok
  | groupReset group writeOk => cases hgroup

/-- The table after a call is the table with the writes of the abstract
store. -/
theorem Serves.callStep_cells (h : Serves items mgr) (op : StoreOp) :
    (callStep ft mgr op).cells = mgr.cells.map fun c => c.memcpy ((c.written op).getD []) := by
  cases op with
  | get key buf size => exact (map_memcpy_nothing fun _ _ => rfl).symm
  | write op =>
    cases op with
    | set key val ok => exact (h.set key val ok).cells
    | setBlob key val valLen ok => exact (h.setBlob key val valLen ok).cells
    | reset key ok => exact (h.reset key ok).cells
    | groupReset group writeOk => exact h.groupReset group writeOk

theorem callStep_initOk (op : StoreOp) : (callStep ft mgr op).initOk = mgr.initOk := by
  cases op with
  | get key buf size => rfl
  | write op =>
    cases op with
    | set key val ok =>
      show (flashParamSet ft mgr key val ok).mgr.initOk = mgr.initOk
      rcases flashParamSet_cases ft mgr key val ok with heq | ⟨k, v, c, -, -, -, -, heq⟩
      · rw [heq]
      · rw [heq]
        rfl
    | setBlob key val valLen ok =>
      show (flashParamSetBlob mgr key val valLen ok).mgr.initOk = mgr.initOk
      rcases flashParamSetBlob_cases mgr key val valLen ok with
        heq | ⟨k, v, c, -, -, -, -, -, -, -, heq⟩
      · rw [heq]
      · rw [heq]
        rfl
    | reset key ok =>
      show (flashParamReset ft mgr key ok).mgr.initOk = mgr.initOk
      rcases flashParamReset_cases ft mgr key ok with heq | ⟨k, c, -, -, -, heq⟩
      · rw [heq]
      · rw [heq]
        rfl
    | groupReset group writeOk =>
      show (flashParamGroupReset ft mgr group writeOk).mgr.initOk = mgr.initOk
      unfold flashParamGroupReset
      split_ifs <;> rfl

theorem Serves.callStep (h : Serves items mgr) (op : StoreOp) :
    Serves items (callStep ft mgr op) := by
  have hcells : (FlashParam.callStep ft mgr op).cells = _ := h.callStep_cells op
  refine ⟨(callStep_initOk op).trans h.initOk, ?_, ?_⟩
  · rw [← h.items_eq, hcells, itemsOf, List.map_map]
    rfl
  · rw [hcells]
    intro d hd
    obtain ⟨c, hc, rfl⟩ := List.mem_map.mp hd
    exact h.macros c hc

theorem find?_itemsOf {cells : List Cell} (h : ∀ c ∈ cells, c.item.key = some c.key) (k : String) :
    (itemsOf cells).find? (·.key = some k) = (cells.find? (·.key = k)).map (·.item) := by
  induction cells with
  | nil => rfl
  | cons c cells ih =>
    have hc := h c List.mem_cons_self
    have htail := ih fun d hd => h d (List.mem_cons_of_mem c hd)
    by_cases hk : c.key = k
    · simp [itemsOf, hc, hk]
    · simpa [itemsOf, hc, hk] using htail

/-- A key of the table belongs to the item that `_find_item` finds. -/
theorem Serves.find_item (h : Serves items mgr) (k : String) :
    items.find? (·.key = some k) = (mgr.findItem k).map (·.item) := by
  rw [← h.items_eq]
  exact find?_itemsOf (fun c hc => itemOk_key (tableOk_itemOk (mgr.accepted h.initOk) hc)) k

theorem Serves.written_eq (h : Serves items mgr) {c : Cell} (hc : c ∈ mgr.cells) (op : StoreOp) :
    written items op c.key = c.written op := by
  rw [written, h.find_item, findItem_of_mem h.initOk hc]
  rfl

theorem Serves.findItem_callStep (h : Serves items mgr) (op : StoreOp) (k : String) :
    (FlashParam.callStep ft mgr op).findItem k =
      (mgr.findItem k).map fun c => c.memcpy ((c.written op).getD []) := by
  unfold ParamMgr.findItem
  rw [h.callStep_cells, find?_map_key _ (fun c => Cell.memcpy_key c _)]

/-- One call changes the RAM of the items as the abstract store changes its
values. -/
theorem Serves.ramOf_callStep (h : Serves items mgr) (op : StoreOp) :
    (FlashParam.callStep ft mgr op).ramOf = storeStep putValue (written items) mgr.ramOf op := by
  funext k
  rw [ParamMgr.ramOf, h.findItem_callStep, storeStep, ParamMgr.ramOf]
  cases hfind : mgr.findItem k with
  | none => cases written items op k <;> rfl
  | some c =>
    obtain ⟨hmem, rfl⟩ := findItem_eq_some hfind
    show some (overlay ((c.written op).getD []) c.ram) = _
    rw [h.written_eq hmem]
    cases c.written op with
    | none => simp
    | some v => rfl

/-- The abstract store writes a value to some key if it writes one to some
item. -/
theorem Serves.exists_written (h : Serves items mgr) (op : StoreOp) :
    (∃ k v, written items op k = some v) ↔ ∃ c ∈ mgr.cells, (c.written op).isSome = true := by
  constructor
  · rintro ⟨k, v, hv⟩
    obtain ⟨it, hit, hwrite⟩ := Option.bind_eq_some_iff.mp hv
    rw [h.find_item] at hit
    obtain ⟨c, hfind, rfl⟩ := Option.map_eq_some_iff.mp hit
    obtain ⟨hc, rfl⟩ := findItem_eq_some hfind
    exact ⟨c, hc, Option.isSome_iff_exists.mpr ⟨v, hwrite⟩⟩
  · rintro ⟨c, hc, hsome⟩
    obtain ⟨v, hv⟩ := Option.isSome_iff_exists.mp hsome
    exact ⟨c.key, v, (h.written_eq hc op).trans hv⟩

/-- A call other than a group reset that does not return `0` leaves every RAM
variable as it was. -/
theorem Serves.callStep_of_fail (h : Serves items mgr) {op : StoreOp}
    (hgroup : op.isGroupReset = false) (hret : callRet ft mgr op ≠ .ok) :
    (FlashParam.callStep ft mgr op).ramOf = mgr.ramOf := by
  cases op with
  | get key buf size => rfl
  | write op =>
    have hsim : Simulates mgr (.write op) (writeCall ft mgr op) := h.simulates op hgroup
    have hnone : ∀ c ∈ mgr.cells, c.written (.write op) = none := by
      intro c hc
      by_contra hne
      exact hret (hsim.ret.mpr ⟨c, hc, Option.isSome_iff_ne_none.mpr hne⟩)
    funext k
    show ((writeCall ft mgr op).mgr.cells.find? _).map _ = _
    rw [hsim.cells, map_memcpy_nothing hnone]
    rfl

end Calls

/-! ## Runs -/

/-- The call names this key. -/
def StoreOp.Names (k : String) : StoreOp → Prop
  | .write (.set key _ _) | .write (.setBlob key _ _ _) | .write (.reset key _) | .get key _ _ =>
    key = some k
  | .write (.groupReset _ _) => True

theorem written_of_not_names {items : List ParamItem} {op : StoreOp} {k : String}
    (h : ¬ op.Names k) : written items op k = none := by
  unfold written
  cases items.find? (·.key = some k) with
  | none => rfl
  | some it =>
    cases op with
    | get key buf size => rfl
    | write op =>
      cases op with
      | set key val ok => exact if_neg fun hand => h hand.2
      | setBlob key val valLen ok => exact if_neg fun hand => h hand.2.1
      | reset key ok => exact if_neg fun hand => h hand.2
      | groupReset group writeOk => exact absurd trivial h

/-- A later value of an item hides an earlier one. -/
theorem putValue_putValue {items : List ParamItem} {a b : StoreOp} {k : String} {x y : Bytes}
    (hx : written items a k = some x) (hy : written items b k = some y) (v : Option Bytes) :
    putValue y (putValue x v) = putValue y v := by
  unfold written at hx hy
  cases hfind : items.find? (·.key = some k) with
  | none =>
    rw [hfind] at hx
    cases hx
  | some it =>
    rw [hfind] at hx hy
    have hlen : y.length = x.length := (written_length hy).trans (written_length hx).symm
    cases v with
    | none => rfl
    | some v => exact congrArg some (overlay_overlay hlen)

/-- The abstract store holds the last value that was written to each key. -/
theorem run_typedStore (items : List ParamItem) (ops : List StoreOp) (s : String → Option Bytes)
    (k : String) : run (storeStep putValue (written items)) s ops k =
      (lastWrite (written items) ops k).elim (s k) fun w => putValue w (s k) := by
  refine run_store ?_ ops k s
  intro a b k x y v hx hy
  exact putValue_putValue hx hy v

theorem flashParamInit_serves {ft : FloatText} {mgr : ParamMgr} {flash : Flash} {cells : List Cell}
    {lock unlock : Bool} {env : InitEnv} (hm : ∀ c ∈ cells, FromMacro c.item)
    (h : (flashParamInit ft mgr flash cells lock unlock env).ret = .ok) :
    Serves (itemsOf cells) (flashParamInit ft mgr flash cells lock unlock env).mgr := by
  obtain ⟨db, hb⟩ := flashParamInit_ok h
  refine ⟨hb.initOk, ?_, ?_⟩
  · rw [hb.cells_eq, itemsOf, List.map_map]
    rfl
  · rw [hb.cells_eq]
    intro d hd
    obtain ⟨c, hc, rfl⟩ := List.mem_map.mp hd
    exact hm c hc

/-- The variable of an item after the last write to it, if there was one. -/
def Cell.valueAfter (c : Cell) (last : Option Bytes) : Bytes :=
  last.elim c.ram fun w => overlay w c.ram

theorem Cell.length_valueAfter (c : Cell) (last : Option Bytes) :
    (c.valueAfter last).length = c.item.ramSize := by
  rw [Cell.valueAfter, ← c.ramLen]
  cases last with
  | none => rfl
  | some w => exact length_overlay w c.ram

/-- The abstract store and the variable of an item hold the same. -/
theorem elim_putValue (c : Cell) (last : Option Bytes) :
    (last.elim (some c.ram) fun w => putValue w (some c.ram)) = some (c.valueAfter last) := by
  cases last <;> rfl

/-- `flash_param_get` with a sufficient buffer copies the variable. -/
theorem flashParamGet_ok {mgr : ParamMgr} {k : String} {v buf : Bytes} {size : Nat}
    (hinit : mgr.initOk = true) (h : mgr.ramOf k = some v) (hsize : v.length ≤ size)
    (hbuf : v.length ≤ buf.length) :
    flashParamGet mgr (some k) (some buf) (some size) =
      ⟨.ok, some (overlay v buf), some v.length, mgr.locked []⟩ := by
  obtain ⟨c, hfind, rfl⟩ := Option.map_eq_some_iff.mp h
  rw [c.ramLen] at hsize hbuf ⊢
  unfold flashParamGet
  rw [hinit]
  dsimp only
  rw [hfind]
  dsimp only
  rw [if_neg (not_lt.mpr hsize), if_neg (not_lt.mpr hbuf)]

/-- What is written to an item of a string or a blob, or of an integer in a
variable of its size, is the whole variable. -/
theorem overlay_written {c : Cell} {op : StoreOp} {w : Bytes}
    (hw : c.item.written c.key op = some w)
    (hsize : c.item.type = .int ∨ c.item.type = .float → c.item.ramSize = 4) :
    overlay w c.ram = w := by
  have hlen : w.length = c.item.ramSize := by
    rw [written_length hw]
    split_ifs with htype
    · exact (hsize htype).symm
    · rfl
  rw [overlay_of_length_le (by rw [c.ramLen, hlen]), c.ramLen, ← hlen, List.take_length]

section Runs

variable {ft : FloatText} {items : List ParamItem} {mgr : ParamMgr}

theorem Serves.run (h : Serves items mgr) (ops : List StoreOp) :
    Serves items (run (FlashParam.callStep ft) mgr ops) :=
  run_invariant' (I := Serves items) (fun _ op hs => hs.callStep op) ops mgr h

/-- The variable of an item after a run is the abstract store's value. -/
theorem Serves.ramOf_run (h : Serves items mgr) (ops : List StoreOp) {c : Cell}
    (hc : c ∈ mgr.cells) :
    (CodeLib.run (FlashParam.callStep ft) mgr ops).ramOf c.key =
      some (c.valueAfter (lastWrite (written items) ops c.key)) := by
  have hstart : mgr.ramOf c.key = some c.ram := by
    rw [ParamMgr.ramOf, findItem_of_mem h.initOk hc]
    rfl
  rw [run_simulates (I := Serves items) (fun _ op hs => hs.callStep op)
    (fun _ op hs => hs.ramOf_callStep op) ops mgr h, run_typedStore, hstart]
  exact elim_putValue c _

theorem Serves.ramOf_groupReset (h : Serves items mgr) (group : ParamGroup)
    (writeOk : String → Bool) {c : Cell} (hc : c ∈ mgr.cells) :
    (flashParamGroupReset ft mgr group writeOk).mgr.ramOf c.key =
      some (if c.item.group = group ∧ writeOk c.key = true then
        c.valueAfter (c.item.normalForm c.item.default) else c.ram) := by
  show (FlashParam.callStep ft mgr (.write (.groupReset group writeOk))).ramOf c.key = _
  rw [h.ramOf_callStep, storeStep, h.written_eq hc, ParamMgr.ramOf, findItem_of_mem h.initOk hc,
    Cell.written, ParamItem.written]
  by_cases hw : writeOk c.key = true ∧ c.item.group = group
  · rw [if_pos hw, if_pos hw.symm]
    exact elim_putValue c _
  · rw [if_neg hw, if_neg (fun hand => hw hand.symm)]
    rfl

end Runs

/-- The manager refines the typed store.  The run starts with a successful
`flash_param_init` over a table built with the macros, on any flash and with any
content of the RAM, and makes any calls with any outcome of each FlashDB write.

* `flash_param_get` with a sufficient buffer returns the last value that was
  written to the key, or the value after `flash_param_init` if there was none.
* A call other than a group reset returns `0` exactly if it writes a value.
* A call other than a group reset that does not return `0` changes no RAM.
* A call changes no RAM of a key that it does not name.
* A group reset sets exactly the items of its group whose own write succeeds. -/
theorem refines_typed_store (ft : FloatText) (mgr : ParamMgr) (flash : Flash) (cells : List Cell)
    (lock unlock : Bool) (env : InitEnv) (hm : ∀ c ∈ cells, FromMacro c.item)
    (hinit : (flashParamInit ft mgr flash cells lock unlock env).ret = .ok)
    (ops : List StoreOp) :
    let boot := (flashParamInit ft mgr flash cells lock unlock env).mgr
    let m := run (callStep ft) boot ops
    let last := lastWrite (written (itemsOf cells)) ops
    (∀ c ∈ boot.cells,
      (∀ buf size, c.item.ramSize ≤ size → c.item.ramSize ≤ buf.length →
        flashParamGet m (some c.key) (some buf) (some size) =
          ⟨.ok, some (overlay (c.valueAfter (last c.key)) buf), some c.item.ramSize,
            m.locked []⟩) ∧
      ∀ w, last c.key = some w →
        (c.item.type = .int ∨ c.item.type = .float → c.item.ramSize = 4) →
        c.valueAfter (last c.key) = w) ∧
    (∀ op, StoreOp.isGroupReset (.write op) = false → ((writeCall ft m op).ret = .ok ↔
      ∃ k v, written (itemsOf cells) (.write op) k = some v)) ∧
    (∀ op, op.isGroupReset = false → callRet ft m op ≠ .ok →
      (callStep ft m op).ramOf = m.ramOf) ∧
    (∀ op k, ¬ op.Names k → (callStep ft m op).ramOf k = m.ramOf k) ∧
    ∀ group writeOk, ∀ c ∈ m.cells,
      (flashParamGroupReset ft m group writeOk).mgr.ramOf c.key =
        some (if c.item.group = group ∧ writeOk c.key = true then
          c.valueAfter (c.item.normalForm c.item.default) else c.ram) := by
  intro boot m last
  have hboot : Serves (itemsOf cells) boot := flashParamInit_serves hm hinit
  have hrun : Serves (itemsOf cells) m := hboot.run ops
  refine ⟨?_, ?_, fun op hgroup hret => hrun.callStep_of_fail hgroup hret, ?_,
    fun group writeOk c hc => hrun.ramOf_groupReset group writeOk hc⟩
  · intro c hc
    have hram : m.ramOf c.key = some (c.valueAfter (last c.key)) := hboot.ramOf_run ops hc
    have hlen := c.length_valueAfter (last c.key)
    refine ⟨fun buf size hsize hbuf => ?_, fun w hw hsize => ?_⟩
    · rw [flashParamGet_ok hrun.initOk hram (by rw [hlen]; exact hsize) (by rw [hlen]; exact hbuf),
        hlen]
    · obtain ⟨op, -, hop⟩ := exists_of_lastWrite hw
      rw [hw]
      exact overlay_written (hboot.written_eq hc op ▸ hop) hsize
  · intro op hgroup
    rw [hrun.exists_written]
    exact (hrun.simulates op hgroup).ret
  · intro op k hnames
    rw [hrun.ramOf_callStep op]
    exact storeStep_none (written_of_not_names hnames)

/-- A table with an integer and a string of four bytes. -/
def baudAndName : List Cell :=
  [(paramInt "baud" 9600 4 .comm).powerOn, (paramStr "name" (ascii "pump") 4 .system).powerOn]

/-- A string that is too long, then a write that fails and a reset of the other
group. -/
def renameRun : List StoreOp :=
  [.write (.set (some "name") (some (ascii "valve" ++ [0])) true),
    .write (.set (some "name") (some [0]) false), .get (some "name") (some []) (some 0),
    .write (.groupReset .comm fun _ => true)]

theorem refines_typed_store_run :
    let boot := (flashParamInit noFloat (.blank .blank []) .blank baudAndName false false allOk).mgr
    flashParamGet (run (callStep noFloat) boot renameRun) (some "name") (some (zeros 5)) (some 5) =
      ⟨.ok, some (ascii "val" ++ [0, 0]), some 4, []⟩ := by
  intro boot
  have hmacros : ∀ c ∈ baudAndName, FromMacro c.item := by
    intro c hc
    rcases List.mem_pair.mp hc with rfl | rfl
    · exact .int ..
    · exact .str ..
  have hget := ((refines_typed_store noFloat (.blank .blank []) .blank baudAndName false false allOk
    hmacros (by decide) renameRun).1
    ⟨paramStr "name" (ascii "pump") 4 .system, ascii "pum" ++ [0], rfl⟩
    (List.mem_cons_of_mem _ List.mem_cons_self)).1 (zeros 5) 5 (by decide) (by decide)
  refine hget.trans ?_
  decide

end Hc32Board.FlashParam
