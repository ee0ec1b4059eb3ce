import Hc32Board.CodeLib.Run
import Hc32Board.FlashParam.PowerCycle

/-!
# INT and BLOB parameters are power-cycle consistent

`bootRam` is the RAM an item has after a boot in which every write succeeds.
A manager is consistent when every INT and BLOB item holds exactly these
bytes.  `flash_param_init` starts a consistent manager and every write
function keeps it so, whichever FlashDB writes fail, because each of them
writes the database first and the RAM only on success.

The argument is about one write at a time.  `Write.Faithful` says that a boot
from the written value gives the bytes that the write puts into RAM.  It holds
of the three kinds of writes the manager makes (`setWrite_faithful`,
`setBlobWrite_faithful`, `defaultWrite_faithful`).
-/

namespace Hc32Board.FlashParam

open Hc32Board.CodeLib

/-! ## Tables built with the macros -/

/-- An item built with one of the `PARAM_*` macros, with a default in a region
of its own. -/
inductive FromMacro : ParamItem → Prop where
  | int (key : String) (d : BitVec 32) (n : Nat) (g : ParamGroup) : FromMacro (paramInt key d n g)
  | float (key : String) (d : BitVec 32) (n : Nat) (g : ParamGroup) :
      FromMacro (paramFloat key d n g)
  | str (key : String) (s : Bytes) (n : Nat) (g : ParamGroup) : FromMacro (paramStr key s n g)
  | blob (key : String) (bs : Bytes) (defSz n : Nat) (g : ParamGroup) (h : defSz ≤ bs.length) :
      FromMacro (paramBlob key (.region bs) defSz n g)

/-- The default of an item from a macro can be read. -/
theorem FromMacro.defaultWrite_ok (ft : FloatText) {c : Cell} (h : FromMacro c.item) :
    ∃ w, defaultWrite ft c = .ok w := by
  obtain ⟨it, ram, hlen⟩ := c
  cases h with
  | int key d n g => exact ⟨_, rfl⟩
  | float key d n g => exact ⟨_, rfl⟩
  | str key s n g =>
    have hnul : (0 : UInt8) ∈ s ++ [0] := by simp
    simp [defaultWrite, Cell.defRegion, readStr, hnul]
  | blob key bs defSz n g hsz =>
    simp [defaultWrite, Cell.defRegion, readBytes_of_le hsz]

/-! ## What a boot restores -/

/-- The RAM of an item after a boot in which every write succeeds. -/
def bootRam (ft : FloatText) (it : ParamItem) (stored : Option Bytes) : Bytes :=
  overlay (syncOne ft true it.powerOn stored).image (zeros it.ramSize)

/-- A power cycle whose writes succeed leaves `bootRam` in the RAM of every
item. -/
theorem powerCycle_ramOf {ft : FloatText} {mgr : ParamMgr} {env : InitEnv}
    (h : (powerCycle ft mgr env).ret = .ok) (hwrite : ∀ k, env.writeOk k = true) {c : Cell}
    (hc : c ∈ mgr.cells) :
    (powerCycle ft mgr env).mgr.ramOf c.key = some (bootRam ft c.item (mgr.kvdb c.key)) := by
  obtain ⟨-, hram, -, -⟩ := powerCycle_ok h hc
  rw [hram, hwrite]
  rfl

/-- The types that a power cycle restores exactly. -/
def Exact (it : ParamItem) : Prop := it.type = .int ∨ it.type = .blob

/-- The RAM of an INT or BLOB item is what a boot restores. -/
def CellOk (ft : FloatText) (c : Cell) (stored : Option Bytes) : Prop :=
  Exact c.item → bootRam ft c.item stored = c.ram

/-- A boot from the written value gives the bytes written to RAM. -/
def Write.Faithful (ft : FloatText) (it : ParamItem) (w : Write) : Prop :=
  bootRam ft it (some w.value) = overlay w.image (zeros it.ramSize) ∧
    w.image.length = if it.type = .int then 4 else it.ramSize

/-- A stored decimal number is read back. -/
theorem dbRead_int {ft : FloatText} {c : Cell} (hint : c.item.type = .int) {d : Bytes}
    (hd : d.length = 4) : dbRead ft c (some (intToStr d)) = some d := by
  have hlong : inLong (ofLe4 d).toInt = true := by
    have h1 := (ofLe4 d).toInt_lt
    have h2 := (ofLe4 d).le_toInt
    simp only [inLong, Bool.and_eq_true, decide_eq_true_eq]
    omega
  have hprint : fdbIsStr (intToStr d) = true := by
    rw [fdbIsStr_iff]
    intro b hb
    obtain ⟨h1, h2⟩ := formatD_printable _ b hb
    simp only [isPrint, Bool.and_eq_true, decide_eq_true_eq]
    exact ⟨UInt8.le_of_lt h1, h2⟩
  have hget : fdbKvGet (some (intToStr d)) = some (intToStr d) := by
    apply fdbKvGet_of_printable (formatD_ne_nil _) _ hprint
    have := length_formatD_le hlong
    show (formatD _).length ≤ 128
    omega
  have hparse : intFromStr (intToStr d) = some (ofLe4 d) := by
    rw [intFromStr, intToStr, strtol_formatD]
    simp only [hlong, if_true, BitVec.ofInt_toInt]
  simp only [dbRead, hint, hget, Option.bind_some, hparse, Option.map_some, le4_ofLe4 hd]

/-- A stored blob that is not empty is read back, cut to the RAM region. -/
theorem dbRead_blob {ft : FloatText} {c : Cell} (hblob : c.item.type = .blob) {v : Bytes}
    (hv : v ≠ []) : dbRead ft c (some v) = some (overlay (v.take c.ram.length) c.ram) := by
  have hlen : 0 < v.length := List.length_pos_iff.2 hv
  simp only [dbRead, hblob, fdbKvGetBlob, hlen, if_true]

theorem dbRead_blob_nil {ft : FloatText} {c : Cell} (hblob : c.item.type = .blob) :
    dbRead ft c (some []) = none := by
  simp [dbRead, hblob, fdbKvGetBlob]

theorem bootRam_of_read {ft : FloatText} {it : ParamItem} {stored : Option Bytes} {image : Bytes}
    (h : dbRead ft it.powerOn stored = some image) :
    bootRam ft it stored = overlay image (zeros it.ramSize) := by
  rw [bootRam, syncOne, h]

theorem bootRam_of_default {ft : FloatText} {it : ParamItem} {stored : Option Bytes} {w : Write}
    (h : dbRead ft it.powerOn stored = none) (hw : defaultWrite ft it.powerOn = .ok w) :
    bootRam ft it stored = overlay w.image (zeros it.ramSize) := by
  rw [bootRam, syncOne, h]
  simp only [hw]
  rfl

theorem bootRam_blob {ft : FloatText} {it : ParamItem} (hblob : it.type = .blob) {v : Bytes}
    (hv : v ≠ []) : bootRam ft it (some v) = fit it.ramSize v := by
  have hpow : it.powerOn.ram = zeros it.ramSize := rfl
  rw [bootRam_of_read (dbRead_blob hblob hv), hpow, length_zeros, overlay_zeros, overlay_zeros,
    fit_take, fit_of_length_eq (length_fit _ _)]

/-- Every INT write is faithful. -/
theorem int_faithful {ft : FloatText} {it : ParamItem} (hint : it.type = .int) {d : Bytes}
    (hd : d.length = 4) : Write.Faithful ft it ⟨intToStr d, d⟩ :=
  ⟨bootRam_of_read (dbRead_int hint hd), by rw [if_pos hint, hd]⟩

/-- A blob write that fills the RAM with the value written is faithful, if the
value is not empty. -/
theorem blob_faithful {ft : FloatText} {it : ParamItem} (hblob : it.type = .blob) {v image : Bytes}
    (hv : v ≠ []) (himage : image = fit it.ramSize v) : Write.Faithful ft it ⟨v, image⟩ := by
  subst himage
  constructor
  · rw [bootRam_blob hblob hv]
    show fit it.ramSize v = overlay (fit it.ramSize v) (zeros it.ramSize)
    rw [overlay_zeros, fit_of_length_eq (length_fit _ _)]
  · simp [hblob]

/-! ## The writes of the manager -/

/-- The default of an item from a macro does not depend on its RAM. -/
theorem FromMacro.defaultWrite_powerOn (ft : FloatText) {c : Cell} (h : FromMacro c.item) :
    defaultWrite ft c.item.powerOn = defaultWrite ft c := by
  obtain ⟨it, ram, hlen⟩ := c
  cases h <;> rfl

theorem defaultWrite_faithful {ft : FloatText} {c : Cell} (hm : FromMacro c.item)
    (hex : Exact c.item) {w : Write} (hw : defaultWrite ft c = .ok w) :
    w.Faithful ft c.item := by
  have hpow := hm.defaultWrite_powerOn ft
  obtain ⟨it, ram, hlen⟩ := c
  cases hm with
  | int key d n g =>
    cases hw
    exact int_faithful rfl (by simp [List.length_take])
  | float key d n g => simp [Exact] at hex
  | str key s n g => simp [Exact] at hex
  | blob key bs defSz n g hsz =>
    have hweq : w = ⟨bs.take defSz, fit n (bs.take (min defSz n))⟩ := by
      simp only [defaultWrite, Cell.defRegion, readBytes_of_le hsz,
        Cell.defRegionCleared] at hw
      exact (Except.ok.inj hw).symm
    have himage : fit n (bs.take (min defSz n)) = fit n (bs.take defSz) := by
      rw [Nat.min_comm, ← List.take_take, fit_take]
    by_cases hnil : bs.take defSz = []
    · -- an empty default is written as an empty value, and a boot falls back on it
      have hread : dbRead ft (paramBlob key (.region bs) defSz n g).powerOn (some w.value) =
          none := by
        rw [hweq]
        show dbRead ft _ (some (bs.take defSz)) = none
        rw [hnil]
        exact dbRead_blob_nil rfl
      exact ⟨bootRam_of_default hread (hpow.trans hw), by rw [hweq]; simp⟩
    · rw [hweq]
      exact blob_faithful rfl hnil himage

theorem setWrite_faithful {ft : FloatText} {c : Cell} (hm : FromMacro c.item)
    (hok : itemOk c.item = true) (hex : Exact c.item) {val : Bytes} {w : Write}
    (hw : setWrite ft c val = .ok w) : w.Faithful ft c.item := by
  rcases hex with hint | hblob
  · simp only [setWrite, hint] at hw
    split at hw
    · rename_i d hd
      cases hw
      exact int_faithful hint (readBytes_length hd)
    · cases hw
  · simp only [setWrite, hblob] at hw
    split at hw
    · rename_i d hd
      cases hw
      by_cases hnil : d = []
      · -- only an empty default lets `flash_param_set` store nothing
        have hzero : min c.item.ramSize c.item.defSize = 0 := by
          rw [← readBytes_length hd, hnil, List.length_nil]
        have hram : 0 < c.item.ramSize := by
          simp only [itemOk, hblob, Bool.and_eq_true, decide_eq_true_eq] at hok
          exact hok.2.1
        have hdef : c.item.defSize = 0 := by omega
        obtain ⟨w', hw'⟩ := hm.defaultWrite_ok ft
        have himage : w'.image = fit c.item.ramSize [] := by
          simp only [defaultWrite, hblob, hdef, Nat.zero_min, List.take_zero] at hw'
          split at hw'
          · cases hw'
            rfl
          · cases hw'
        subst hnil
        refine ⟨?_, by simp [hblob]⟩
        rw [bootRam_of_default (dbRead_blob_nil hblob) ((hm.defaultWrite_powerOn ft).trans hw'),
          himage]
      · exact blob_faithful hblob hnil rfl
    · cases hw

theorem setBlobWrite_faithful {ft : FloatText} {c : Cell} (hblob : c.item.type = .blob)
    {val : Bytes} {valLen : Nat} (hpos : 0 < valLen) {w : Write}
    (hw : setBlobWrite c val valLen = .ok w) : w.Faithful ft c.item := by
  unfold setBlobWrite at hw
  split at hw
  · rename_i d hd
    cases hw
    have hne : d ≠ [] := by
      intro hnil
      have := readBytes_length hd
      rw [hnil, List.length_nil] at this
      omega
    exact blob_faithful hblob hne rfl
  · cases hw

/-! ## One item -/

/-- A boot writes exactly four bytes of an INT item. -/
theorem bootRam_int (ft : FloatText) {c : Cell} (hm : FromMacro c.item)
    (hint : c.item.type = .int) (stored : Option Bytes) :
    ∃ image, image.length = 4 ∧
      bootRam ft c.item stored = overlay image (zeros c.item.ramSize) := by
  cases hread : dbRead ft c.item.powerOn stored with
  | some image =>
    refine ⟨image, ?_, bootRam_of_read hread⟩
    have hint' : c.item.powerOn.item.type = .int := hint
    simp only [dbRead, hint', Option.map_eq_some_iff] at hread
    obtain ⟨v, -, rfl⟩ := hread
    exact length_le4 v
  | none =>
    obtain ⟨w, hw⟩ := hm.defaultWrite_ok ft
    refine ⟨w.image, ?_, bootRam_of_default hread ((hm.defaultWrite_powerOn ft).trans hw)⟩
    have hfaith := defaultWrite_faithful hm (Or.inl hint) hw
    rw [hfaith.2, if_pos hint]

/-- A write path with faithful writes keeps an item consistent, whether the
database accepts the value or not. -/
theorem commit_cellOk {ft : FloatText} {c : Cell} {stored : Option Bytes} {write : Except Ret Write}
    {ok : Bool} (hm : FromMacro c.item) (hcell : CellOk ft c stored)
    (hw : ∀ w, write = .ok w → Exact c.item → w.Faithful ft c.item) :
    CellOk ft (c.memcpy (commit c stored write ok).image) (commit c stored write ok).stored := by
  cases hwrite : write with
  | error r => simpa [commit] using hcell
  | ok w =>
    cases ok with
    | false => simpa [commit] using hcell
    | true =>
      intro hex
      show bootRam ft c.item (some w.value) = overlay w.image c.ram
      obtain ⟨hboot, hlen⟩ := hw w hwrite hex
      rw [hboot]
      rcases hex with hint | hblob
      · -- the bytes behind the integer are zero since the last boot
        have hint' : c.item.type = .int := hint
        obtain ⟨image, himage, hold⟩ := bootRam_int ft hm hint stored
        rw [← hcell (Or.inl hint), hold, overlay_overlay]
        rw [himage, hlen, if_pos hint']
      · have hfull : w.image.length = c.item.ramSize := by
          have hne : c.item.type ≠ .int := by
            have : c.item.type = .blob := hblob
            simp [this]
          rw [hlen, if_neg hne]
        rw [overlay_of_length_le (by rw [length_zeros, hfull]),
          overlay_of_length_le (by rw [c.ramLen, hfull]), length_zeros, c.ramLen]

/-! ## Runs of the manager -/

/-- A call of one of the write functions, with the outcome of its FlashDB
writes. -/
inductive WriteOp where
  | set (key : Option String) (val : Option Bytes) (ok : Bool)
  | setBlob (key : Option String) (val : Option Bytes) (valLen : Nat) (ok : Bool)
  | reset (key : Option String) (ok : Bool)
  | groupReset (group : ParamGroup) (writeOk : String → Bool)

/-- The manager after a call. -/
def writeStep (ft : FloatText) (mgr : ParamMgr) : WriteOp → ParamMgr
  | .set key val ok => (flashParamSet ft mgr key val ok).mgr
  | .setBlob key val valLen ok => (flashParamSetBlob mgr key val valLen ok).mgr
  | .reset key ok => (flashParamReset ft mgr key ok).mgr
  | .groupReset group writeOk => (flashParamGroupReset ft mgr group writeOk).mgr

/-- The invariant of an initialised manager over a table from the macros. -/
structure Consistent (ft : FloatText) (mgr : ParamMgr) : Prop where
  initOk : mgr.initOk = true
  nonempty : mgr.cells ≠ []
  locks : mgr.lock = mgr.unlock
  macros : ∀ c ∈ mgr.cells, FromMacro c.item
  cells : ∀ c ∈ mgr.cells, CellOk ft c (mgr.kvdb c.key)

/-- An operation on one item keeps the manager consistent if it keeps the item
consistent. -/
theorem Consistent.putItem {ft : FloatText} {mgr : ParamMgr} (h : Consistent ft mgr) {key : String}
    {c : Cell} (hc : mgr.findItem key = some c) {s : Step}
    (hs : CellOk ft (c.memcpy s.image) s.stored) : Consistent ft (mgr.putItem key s) where
  initOk := h.initOk
  nonempty := by simpa [ParamMgr.putItem] using h.nonempty
  locks := h.locks
  macros := by
    intro d hd
    obtain ⟨e, he, rfl⟩ := List.mem_map.1 hd
    split_ifs
    · exact h.macros e he
    · exact h.macros e he
  cells := by
    intro d hd
    obtain ⟨e, he, rfl⟩ := List.mem_map.1 hd
    have hfind := findItem_of_mem h.initOk he
    split_ifs with hkey
    · rw [hkey, hc] at hfind
      obtain rfl := Option.some.inj hfind
      rw [putItem_kvdb, Cell.memcpy_key, hkey, Function.update_self]
      exact hs
    · rw [putItem_kvdb, Function.update_of_ne hkey]
      exact h.cells e he

/-- `_reset_one_locked` keeps an item consistent. -/
theorem resetOneLocked_cellOk {ft : FloatText} {ok : Bool} {c : Cell} {stored : Option Bytes}
    (hm : FromMacro c.item) (hcell : CellOk ft c stored) :
    CellOk ft (c.memcpy (resetOneLocked ft ok c stored).image)
      (resetOneLocked ft ok c stored).stored :=
  commit_cellOk hm hcell fun _ hw hex => defaultWrite_faithful hm hex hw

/-- A reset of an item from a macro is defined. -/
theorem groupResetOne_ne_fault {ft : FloatText} {group : ParamGroup} {writeOk : String → Bool}
    {c : Cell} {stored : Option Bytes} (hm : FromMacro c.item) :
    (groupResetOne ft group writeOk c stored).ret ≠ .fault := by
  obtain ⟨w, hw⟩ := hm.defaultWrite_ok ft
  unfold groupResetOne resetOneLocked
  split_ifs
  · rw [hw, commit]
    split_ifs <;> simp
  · simp

/-- A group reset treats every item of a table from the macros by itself. -/
theorem flashParamGroupReset_spec (ft : FloatText) {mgr : ParamMgr} (group : ParamGroup)
    (writeOk : String → Bool) (hok : mgr.initOk = true) (hm : ∀ c ∈ mgr.cells, FromMacro c.item) :
    (flashParamGroupReset ft mgr group writeOk).mgr.cells =
        mgr.cells.map (fun c =>
          c.memcpy (groupResetOne ft group writeOk c (mgr.kvdb c.key)).image) ∧
      ∀ c ∈ mgr.cells, (flashParamGroupReset ft mgr group writeOk).mgr.kvdb c.key =
        (groupResetOne ft group writeOk c (mgr.kvdb c.key)).stored := by
  have hgo : ∀ c ∈ mgr.cells,
      GoesOn false (groupResetOne ft group writeOk c (mgr.kvdb c.key)).ret := by
    intro c hc hstop
    rcases hstop with hfault | ⟨hfalse, -⟩
    · exact groupResetOne_ne_fault (hm c hc) hfault
    · cases hfalse
  obtain ⟨hcells, hkv, -⟩ := forItems_spec mgr.kvdb (keys_nodup (mgr.accepted hok)) hgo
  unfold flashParamGroupReset
  rw [if_neg (by simp [hok])]
  exact ⟨hcells, hkv⟩

/-- A group reset keeps the manager consistent, whichever of its writes
fail. -/
theorem Consistent.groupReset {ft : FloatText} {mgr : ParamMgr} (h : Consistent ft mgr)
    (group : ParamGroup) (writeOk : String → Bool) :
    Consistent ft (flashParamGroupReset ft mgr group writeOk).mgr := by
  obtain ⟨hcells, hkv⟩ := flashParamGroupReset_spec ft group writeOk h.initOk h.macros
  have hmem : ∀ d ∈ (flashParamGroupReset ft mgr group writeOk).mgr.cells, ∃ c ∈ mgr.cells,
      d = c.memcpy (groupResetOne ft group writeOk c (mgr.kvdb c.key)).image := by
    intro d hd
    rw [hcells] at hd
    obtain ⟨c, hc, rfl⟩ := List.mem_map.1 hd
    exact ⟨c, hc, rfl⟩
  have hflags : (flashParamGroupReset ft mgr group writeOk).mgr.initOk = mgr.initOk ∧
      (flashParamGroupReset ft mgr group writeOk).mgr.lock = mgr.lock ∧
      (flashParamGroupReset ft mgr group writeOk).mgr.unlock = mgr.unlock := by
    unfold flashParamGroupReset
    split_ifs <;> exact ⟨rfl, rfl, rfl⟩
  refine ⟨hflags.1.trans h.initOk, ?_, hflags.2.1.trans (h.locks.trans hflags.2.2.symm), ?_, ?_⟩
  · rw [hcells]
    simpa using h.nonempty
  · intro d hd
    obtain ⟨c, hc, rfl⟩ := hmem d hd
    exact h.macros c hc
  · intro d hd
    obtain ⟨c, hc, rfl⟩ := hmem d hd
    rw [Cell.memcpy_key, hkv c hc]
    unfold groupResetOne
    split_ifs
    · exact resetOneLocked_cellOk (h.macros c hc) (h.cells c hc)
    · simpa using h.cells c hc

/-- Every write function keeps the manager consistent. -/
theorem Consistent.writeStep {ft : FloatText} {mgr : ParamMgr} (h : Consistent ft mgr)
    (op : WriteOp) : Consistent ft (writeStep ft mgr op) := by
  cases op with
  | set key val ok =>
    show Consistent ft (flashParamSet ft mgr key val ok).mgr
    rcases flashParamSet_cases ft mgr key val ok with
      heq | ⟨k, v, c, -, -, -, hc, heq⟩
    · rw [heq]
      exact h
    · obtain ⟨hmem, rfl⟩ := findItem_eq_some hc
      rw [heq, onItem_mgr]
      apply h.putItem hc
      apply commit_cellOk (h.macros c hmem) (h.cells c hmem)
      intro w hw hex
      exact setWrite_faithful (h.macros c hmem)
        (tableOk_itemOk (mgr.accepted h.initOk) hmem) hex hw
  | setBlob key val valLen ok =>
    show Consistent ft (flashParamSetBlob mgr key val valLen ok).mgr
    rcases flashParamSetBlob_cases mgr key val valLen ok with
      heq | ⟨k, v, c, -, -, hpos, -, hblob, -, hc, heq⟩
    · rw [heq]
      exact h
    · obtain ⟨hmem, rfl⟩ := findItem_eq_some hc
      rw [heq, onItem_mgr]
      apply h.putItem hc
      apply commit_cellOk (h.macros c hmem) (h.cells c hmem)
      intro w hw _
      exact setBlobWrite_faithful hblob hpos hw
  | reset key ok =>
    show Consistent ft (flashParamReset ft mgr key ok).mgr
    rcases flashParamReset_cases ft mgr key ok with heq | ⟨k, c, -, -, hc, heq⟩
    · rw [heq]
      exact h
    · obtain ⟨hmem, rfl⟩ := findItem_eq_some hc
      rw [heq, onItem_mgr]
      exact h.putItem hc (resetOneLocked_cellOk (h.macros c hmem) (h.cells c hmem))
  | groupReset group writeOk => exact h.groupReset group writeOk

/-- A read that succeeds does not depend on the outcome of writes. -/
theorem syncOne_of_read {ft : FloatText} {ok : Bool} {c : Cell} {stored : Option Bytes}
    {image : Bytes} (h : dbRead ft c stored = some image) :
    syncOne ft ok c stored = ⟨.ok, stored, image, []⟩ := by
  rw [syncOne, h]

/-- The item is consistent after a boot from cleared RAM. -/
theorem syncOne_cellOk {ft : FloatText} {ok : Bool} {it : ParamItem} {stored : Option Bytes}
    (hm : FromMacro it) (hret : (syncOne ft ok it.powerOn stored).ret = .ok) :
    CellOk ft (it.powerOn.memcpy (syncOne ft ok it.powerOn stored).image)
      (syncOne ft ok it.powerOn stored).stored := by
  intro hex
  cases hread : dbRead ft it.powerOn stored with
  | some image =>
    rw [syncOne_of_read hread]
    exact bootRam_of_read hread
  | none =>
    obtain ⟨w, hw, -, hsync⟩ := syncOne_wrote_default hread hret
    rw [hsync]
    have hpow : FromMacro it.powerOn.item := hm
    exact (defaultWrite_faithful hpow hex hw).1

/-- `flash_param_init` starts a consistent manager. -/
theorem flashParamInit_consistent {ft : FloatText} {mgr : ParamMgr} {flash : Flash}
    {items : List ParamItem} {lock unlock : Bool} {env : InitEnv}
    (hm : ∀ it ∈ items, FromMacro it)
    (h : (flashParamInit ft mgr flash (items.map (·.powerOn)) lock unlock env).ret = .ok) :
    Consistent ft
      (flashParamInit ft mgr flash (items.map (·.powerOn)) lock unlock env).mgr := by
  obtain ⟨db, hb⟩ := flashParamInit_ok h
  have hmem : ∀ d ∈ (flashParamInit ft mgr flash (items.map (·.powerOn)) lock unlock env).mgr.cells,
      ∃ it ∈ items, d = it.powerOn.memcpy
        (syncOne ft (env.writeOk it.powerOn.key) it.powerOn (db it.powerOn.key)).image := by
    intro d hd
    rw [hb.cells_eq, List.map_map] at hd
    obtain ⟨it, hit, rfl⟩ := List.mem_map.1 hd
    exact ⟨it, hit, rfl⟩
  refine ⟨hb.initOk, ?_, hb.locks, ?_, ?_⟩
  · rw [hb.cells_eq]
    simpa using hb.nonempty
  · intro d hd
    obtain ⟨it, hit, rfl⟩ := hmem d hd
    exact hm it hit
  · intro d hd
    obtain ⟨it, hit, rfl⟩ := hmem d hd
    have hin : it.powerOn ∈ items.map (·.powerOn) := List.mem_map_of_mem hit
    rw [Cell.memcpy_key, hb.kvdb_eq _ hin]
    exact syncOne_cellOk (hm it hit) (hb.sync _ hin)

/-- A power cycle without failures of a consistent manager returns `0`. -/
theorem Consistent.powerCycle_ret {ft : FloatText} {mgr : ParamMgr} (h : Consistent ft mgr)
    {env : InitEnv} (hmalloc : env.mallocOk = true) (hopen : env.kvdbInitOk = true)
    (hwrite : ∀ k, env.writeOk k = true) : (powerCycle ft mgr env).ret = .ok := by
  have htable : tableOk (itemsOf (mgr.cells.map fun c => c.item.powerOn)) = true := by
    have heq : itemsOf (mgr.cells.map fun c => c.item.powerOn) = itemsOf mgr.cells := by
      simp [itemsOf, List.map_map, Function.comp_def, ParamItem.powerOn]
    rw [heq]
    exact mgr.accepted h.initOk
  have hdb : fdbKvdbInit (.holds mgr.kvdb)
      ((mgr.cells.map fun c => c.item.powerOn).map defNode) env = .ok mgr.kvdb := by
    simp [fdbKvdbInit, hopen]
  refine flashParamInit_returns_ok (by simpa using h.nonempty) h.locks htable hmalloc hdb ?_
  intro d hd
  obtain ⟨c, hc, rfl⟩ := List.mem_map.1 hd
  rw [hwrite]
  cases hread : dbRead ft c.item.powerOn (mgr.kvdb c.item.powerOn.key) with
  | some image => rw [syncOne_of_read hread]
  | none =>
    have hpow : FromMacro c.item.powerOn.item := h.macros c hc
    obtain ⟨w, hw⟩ := hpow.defaultWrite_ok ft
    rw [syncOne, hread]
    simp only [hw]
    rfl

/-- INT and BLOB parameters are restored by a power cycle at every point of
every run.  The run starts with a successful `flash_param_init` on any flash,
with cleared RAM and a table built with the macros, and makes any calls of the
write functions with any outcome of each FlashDB write.  The power cycle meets
no failure. -/
theorem int_blob_power_cycle (ft : FloatText) (items : List ParamItem)
    (hm : ∀ it ∈ items, FromMacro it) (mgr : ParamMgr) (flash : Flash) (lock unlock : Bool)
    (env : InitEnv)
    (hinit : (flashParamInit ft mgr flash (items.map (·.powerOn)) lock unlock env).ret = .ok)
    (ops : List WriteOp) (env' : InitEnv) (hmalloc : env'.mallocOk = true)
    (hopen : env'.kvdbInitOk = true) (hwrite : ∀ k, env'.writeOk k = true) :
    let m := run (writeStep ft)
      (flashParamInit ft mgr flash (items.map (·.powerOn)) lock unlock env).mgr ops
    (powerCycle ft m env').ret = .ok ∧
      ∀ c ∈ m.cells, c.item.type = .int ∨ c.item.type = .blob →
        (powerCycle ft m env').mgr.ramOf c.key = some c.ram := by
  intro m
  have hcons : Consistent ft m := by
    apply run_invariant' (fun s a hs => hs.writeStep a)
    exact flashParamInit_consistent hm hinit
  have hret := hcons.powerCycle_ret hmalloc hopen hwrite
  refine ⟨hret, ?_⟩
  intro c hc hex
  rw [powerCycle_ramOf hret hwrite hc, hcons.cells c hc hex]

/-- A run with a failed write and a short blob, before a power cycle. -/
theorem int_blob_power_cycle_run :
    (powerCycle noFloat (run (writeStep noFloat)
      (flashParamInit noFloat (.blank .blank []) .blank
        [(paramInt "baud" 9600 4 .comm).powerOn,
          (paramBlob "cal" (.region [1, 2, 3]) 3 8 .di).powerOn] false false allOk).mgr
      [.set (some "baud") (some [0, 1, 2, 3]) true, .set (some "baud") (some [9, 9, 9, 9]) false,
        .setBlob (some "cal") (some [7, 7, 7, 7, 7]) 5 true, .groupReset .comm fun _ => false])
      allOk).mgr.ramOf "baud" = some [0, 1, 2, 3] :=
  (int_blob_power_cycle noFloat
    [paramInt "baud" 9600 4 .comm, paramBlob "cal" (.region [1, 2, 3]) 3 8 .di]
    (by
      intro it hit
      rcases List.mem_pair.1 hit with rfl | rfl
      · exact .int ..
      · exact .blob _ _ _ _ _ (by decide))
    (.blank .blank []) .blank false false allOk (by decide)
    [.set (some "baud") (some [0, 1, 2, 3]) true, .set (some "baud") (some [9, 9, 9, 9]) false,
      .setBlob (some "cal") (some [7, 7, 7, 7, 7]) 5 true, .groupReset .comm fun _ => false]
    allOk rfl rfl (fun _ => rfl)).2
    ⟨paramInt "baud" 9600 4 .comm, [0, 1, 2, 3], rfl⟩ List.mem_cons_self (Or.inl rfl)

end Hc32Board.FlashParam
