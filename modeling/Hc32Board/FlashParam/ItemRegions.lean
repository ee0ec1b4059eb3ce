import Hc32Board.FlashParam.TypedStore

/-!
# The regions of one item

An item has two regions: the RAM behind `ram_ptr` and the default behind
`def_val`.  `flash_param_init` checks the item once.  The reads and writes that
the check has to justify are in `_sync_one`, in the reset functions, in
`flash_param_set` and in `fdb_kv_set_default`, which FlashDB calls on blank
flash.

* The RAM side is covered: the minimal `ram_size` of each type keeps every write
  inside the region (`ramInside_of_itemOk`), and what is copied to a STR item
  ends in a NUL (`Terminated.memcpy`).
* The default side is not.  An INT or FLOAT item may have a `NULL` default or one
  shorter than four bytes, and a BLOB item may have an empty one.  `Good` asks
  for the missing part, `DefaultReadable`, and no path of a `Good` item faults.
-/

namespace Hc32Board.FlashParam

open Hc32Board.CodeLib

/-! ## Regions -/

/-- The regions of an item.  `def_val` is `NULL` or has `def_size` bytes, and the
default of a STR item has a NUL behind them.  A default in RAM is inside the RAM
region.  `ram_size` is a `size_t`. -/
def Sized (it : ParamItem) : Prop :=
  it.ramSize < 2 ^ 32 ∧
    match it.defVal with
    | .null => True
    | .region bs =>
      if it.type = .str then ∃ d : Bytes, d.length = it.defSize ∧ bs = d ++ [0]
      else bs.length = it.defSize
    | .ram => it.defSize ≤ it.ramSize

/-- A STR item whose default is its RAM has a string there. -/
def RamString (c : Cell) : Prop := c.item.defVal = .ram → c.item.type = .str → 0 ∈ c.ram

/-- The default can be read on every path.  The checks do not ask for this. -/
def DefaultReadable (it : ParamItem) : Prop :=
  match it.type with
  | .int | .float =>
    match it.defVal with
    | .null => False
    | .region _ => 4 ≤ it.defSize
    -- the RAM of an accepted item has four bytes
    | .ram => 0 < it.defSize
  | .blob => 0 < it.defSize
  | _ => True

instance (it : ParamItem) : Decidable (DefaultReadable it) := by
  unfold DefaultReadable
  split
  · split <;> infer_instance
  · split <;> infer_instance
  · infer_instance
  · infer_instance

/-- The end of the RAM bytes that the write paths of the item's type touch.
`ram_size - 1` is computed in `size_t`. -/
def ParamItem.ramTouched (it : ParamItem) : Nat :=
  match it.type with
  | .int | .float => 4
  | .str => (it.ramSize + (2 ^ 32 - 1)) % 2 ^ 32 + 1
  | .blob => it.ramSize
  | .other => 0

/-- The write paths of an item stay inside its RAM region. -/
structure RamInside (ft : FloatText) (c : Cell) : Prop where
  touched : c.item.ramTouched ≤ c.item.ramSize
  sync : ∀ ok stored, (syncOne ft ok c stored).image.length ≤ c.item.ramTouched
  reset : ∀ ok stored, (resetOneLocked ft ok c stored).image.length ≤ c.item.ramTouched
  set : ∀ ok stored val,
    (commit c stored (setWrite ft c val) ok).image.length ≤ c.item.ramTouched
  setBlob : c.item.type = .blob → ∀ ok stored val valLen,
    (commit c stored (setBlobWrite c val valLen) ok).image.length ≤ c.item.ramTouched

/-! ## The RAM of an item -/

theorem itemOk_touched {it : ParamItem} (hok : itemOk it = true) (hsize : it.ramSize < 2 ^ 32) :
    it.ramTouched ≤ it.ramSize := by
  simp only [itemOk, Bool.and_eq_true] at hok
  unfold ParamItem.ramTouched
  cases htype : it.type with
  | int | float =>
    simp only [htype, decide_eq_true_eq] at hok
    exact hok.2
  | str =>
    simp only [htype, Bool.and_eq_true, decide_eq_true_eq] at hok
    have hpos := hok.2.1
    dsimp only
    omega
  | blob => exact Nat.le_refl _
  | other => exact Nat.zero_le _

theorem commit_image_le {c : Cell} {stored : Option Bytes} {write : Except Ret Write} {ok : Bool}
    {n : Nat} (h : ∀ w, write = .ok w → w.image.length ≤ n) :
    (commit c stored write ok).image.length ≤ n := by
  cases hwrite : write with
  | error r => exact Nat.zero_le n
  | ok w =>
    cases ok with
    | true => exact h w hwrite
    | false => exact Nat.zero_le n

theorem ramSize_le_touched {it : ParamItem} (htype : it.type = .str ∨ it.type = .blob)
    (hsize : it.ramSize < 2 ^ 32) : it.ramSize ≤ it.ramTouched := by
  unfold ParamItem.ramTouched
  rcases htype with h | h
  · rw [h]
    dsimp only
    omega
  · rw [h]

theorem defaultWrite_image_le {ft : FloatText} {c : Cell} (hsize : c.item.ramSize < 2 ^ 32)
    {w : Write} (hw : defaultWrite ft c = .ok w) : w.image.length ≤ c.item.ramTouched := by
  unfold defaultWrite at hw
  cases htype : c.item.type with
  | int | float =>
    rw [ParamItem.ramTouched, htype]
    simp only [htype] at hw
    split at hw
    · rename_i d hd
      obtain rfl := Except.ok.inj hw
      exact (readBytes_length hd).le
    · cases hw
  | str =>
    simp only [htype] at hw
    split at hw
    · obtain rfl := Except.ok.inj hw
      exact (length_strncpyBuf _ _).le.trans (ramSize_le_touched (.inl htype) hsize)
    · cases hw
  | blob =>
    simp only [htype] at hw
    split at hw
    · obtain rfl := Except.ok.inj hw
      exact (length_fit _ _).le.trans (ramSize_le_touched (.inr htype) hsize)
    · cases hw
  | other =>
    simp only [htype] at hw
    cases hw

theorem setWrite_image_le {ft : FloatText} {c : Cell} (hsize : c.item.ramSize < 2 ^ 32)
    {val : Bytes} {w : Write} (hw : setWrite ft c val = .ok w) :
    w.image.length ≤ c.item.ramTouched := by
  have himage : c.item.normalForm val = some w.image := by
    rw [← setWrite_image ft, hw]
    rfl
  rw [normalForm_length himage]
  split_ifs with hscalar
  · rcases hscalar with h | h <;> rw [ParamItem.ramTouched, h]
  · cases htype : c.item.type with
    | int => exact absurd (.inl htype) hscalar
    | float => exact absurd (.inr htype) hscalar
    | str => exact ramSize_le_touched (.inl htype) hsize
    | blob => exact ramSize_le_touched (.inr htype) hsize
    | other =>
      rw [ParamItem.normalForm, htype] at himage
      cases himage

theorem setBlobWrite_image_le {c : Cell} (hblob : c.item.type = .blob)
    (hsize : c.item.ramSize < 2 ^ 32) {val : Bytes} {valLen : Nat} {w : Write}
    (hw : setBlobWrite c val valLen = .ok w) : w.image.length ≤ c.item.ramTouched := by
  have himage : c.item.blobForm valLen val = some w.image := by
    rw [← setBlobWrite_image, hw]
    rfl
  rw [blobForm_length himage]
  exact ramSize_le_touched (.inr hblob) hsize

theorem dbRead_image_le {ft : FloatText} {c : Cell} (hsize : c.item.ramSize < 2 ^ 32)
    {stored : Option Bytes} {image : Bytes} (h : dbRead ft c stored = some image) :
    image.length ≤ c.item.ramTouched := by
  unfold dbRead at h
  cases htype : c.item.type with
  | int | float =>
    simp only [htype, Option.map_eq_some_iff] at h
    obtain ⟨v, -, rfl⟩ := h
    rw [ParamItem.ramTouched, htype]
    exact (length_le4 v).le
  | str =>
    simp only [htype, Option.map_eq_some_iff] at h
    obtain ⟨t, -, rfl⟩ := h
    exact (length_strncpyBuf _ _).le.trans (ramSize_le_touched (.inl htype) hsize)
  | blob =>
    simp only [htype] at h
    split_ifs at h
    obtain rfl := Option.some.inj h
    refine le_trans ?_ (ramSize_le_touched (.inr htype) hsize)
    rw [← c.ramLen]
    cases stored with
    | none => exact Nat.le_refl _
    | some v => exact (length_overlay _ _).le
  | other =>
    simp only [htype] at h
    cases h

/-- The checks keep the writes inside the RAM region. -/
theorem ramInside_of_itemOk (ft : FloatText) {c : Cell} (hok : itemOk c.item = true)
    (hsize : c.item.ramSize < 2 ^ 32) : RamInside ft c where
  touched := itemOk_touched hok hsize
  sync := fun ok stored => by
    unfold syncOne
    split
    · exact dbRead_image_le hsize (by assumption)
    · exact commit_image_le fun w hw => defaultWrite_image_le hsize hw
  reset := fun ok stored => commit_image_le fun w hw => defaultWrite_image_le hsize hw
  set := fun ok stored val => commit_image_le fun w hw => setWrite_image_le hsize hw
  setBlob := fun hblob ok stored val valLen =>
    commit_image_le fun w hw => setBlobWrite_image_le hblob hsize hw

/-! ## The default of an item -/

/-- What the paths that read the default ask of its region. -/
structure ReadableRegion (it : ParamItem) (bs : Bytes) : Prop where
  size : it.defSize ≤ bs.length
  scalar : it.type = .int ∨ it.type = .float → 4 ≤ bs.length
  string : it.type = .str ∨ it.defSize = 0 → 0 ∈ bs

/-- An item that passes the checks and has a default that can be read. -/
structure Good (it : ParamItem) : Prop where
  ok : itemOk it = true
  sized : Sized it
  readable : DefaultReadable it

theorem Good.defVal_ne_null {it : ParamItem} (h : Good it) : it.defVal ≠ .null := by
  intro hval
  have hok := h.ok
  have hread := h.readable
  simp only [itemOk, Bool.and_eq_true] at hok
  unfold DefaultReadable at hread
  cases htype : it.type with
  | int | float => simp only [htype, hval] at hread
  | str | blob | other => simp [htype, hval] at hok

theorem Good.region {it : ParamItem} (h : Good it) {bs : Bytes} (hval : it.defVal = .region bs) :
    ReadableRegion it bs := by
  have hregion := h.sized.2
  have hread := h.readable
  have hok := h.ok
  rw [hval] at hregion
  dsimp only at hregion
  unfold DefaultReadable at hread
  cases htype : it.type with
  | int | float =>
    rw [htype, if_neg (by decide)] at hregion
    simp only [htype, hval] at hread
    refine ⟨hregion.ge, fun _ => hregion ▸ hread, fun h => ?_⟩
    simp only [htype, reduceCtorEq, false_or] at h
    omega
  | str =>
    rw [htype, if_pos rfl] at hregion
    obtain ⟨d, hlen, rfl⟩ := hregion
    refine ⟨?_, fun h => by simp [htype] at h, fun _ => by simp⟩
    rw [List.length_append]
    omega
  | blob =>
    rw [htype, if_neg (by decide)] at hregion
    simp only [htype] at hread
    refine ⟨hregion.ge, fun h => by simp [htype] at h, fun h => ?_⟩
    simp only [htype, reduceCtorEq, false_or] at h
    omega
  | other => simp [itemOk, htype] at hok

theorem Good.ram {c : Cell} (h : Good c.item) (hram : RamString c) (hval : c.item.defVal = .ram) :
    ReadableRegion c.item c.ram := by
  have hregion := h.sized.2
  have hread := h.readable
  have hok := h.ok
  rw [hval] at hregion
  dsimp only at hregion
  simp only [itemOk, Bool.and_eq_true] at hok
  unfold DefaultReadable at hread
  refine ⟨c.ramLen ▸ hregion, fun hscalar => ?_, fun hstring => ?_⟩
  · rw [c.ramLen]
    rcases hscalar with ht | ht
    all_goals
      simp only [ht, decide_eq_true_eq] at hok
      exact hok.2
  · rcases hstring with ht | hzero
    · exact hram hval ht
    · cases ht : c.item.type with
      | int | float | blob =>
        simp only [ht, hval] at hread
        omega
      | str => exact hram hval ht
      | other => simp [ht] at hok

theorem Cell.defRegion_null {c : Cell} (h : c.item.defVal = .null) : c.defRegion = none := by
  rw [Cell.defRegion, h]

theorem Cell.defRegion_region {c : Cell} {bs : Bytes} (h : c.item.defVal = .region bs) :
    c.defRegion = some bs := by
  rw [Cell.defRegion, h]

theorem Cell.defRegion_ram {c : Cell} (h : c.item.defVal = .ram) : c.defRegion = some c.ram := by
  rw [Cell.defRegion, h]

theorem Good.defRegion {c : Cell} (h : Good c.item) (hram : RamString c) :
    ∃ bs, c.defRegion = some bs ∧ ReadableRegion c.item bs := by
  cases hval : c.item.defVal with
  | null => exact absurd hval h.defVal_ne_null
  | region bs => exact ⟨bs, c.defRegion_region hval, h.region hval⟩
  | ram => exact ⟨c.ram, c.defRegion_ram hval, h.ram hram hval⟩

section Default

variable {ft : FloatText} {c : Cell} {bs : Bytes}

theorem ReadableRegion.defaultWrite (h : ReadableRegion c.item bs)
    (hdef : c.defRegion = some bs) (htype : c.item.type ≠ .other) :
    ∃ w, defaultWrite ft c = .ok w := by
  unfold FlashParam.defaultWrite
  rw [hdef]
  cases ht : c.item.type with
  | int =>
    dsimp only
    rw [readBytes_of_le (h.scalar (.inl ht))]
    exact ⟨_, rfl⟩
  | float =>
    dsimp only
    rw [readBytes_of_le (h.scalar (.inr ht))]
    exact ⟨_, rfl⟩
  | str =>
    dsimp only
    rw [readStr_of_mem (h.string (.inl ht))]
    exact ⟨_, rfl⟩
  | blob =>
    dsimp only
    rw [readBytes_of_le h.size]
    exact ⟨_, rfl⟩
  | other => exact absurd ht htype

/-- FlashDB can read the record of the default. -/
theorem ReadableRegion.defNode (h : ReadableRegion c.item bs)
    (hdef : c.defRegion = some bs) : (defNode c).value.isSome = true := by
  unfold FlashParam.defNode
  rw [hdef]
  dsimp only
  split_ifs with hzero
  · rw [readStr_of_mem (h.string (.inr hzero))]
    rfl
  · rw [readBytes_of_le h.size]
    rfl

end Default

section Good

variable {ft : FloatText} {c : Cell}

theorem Good.defaultWrite (h : Good c.item) (hram : RamString c) :
    ∃ w, defaultWrite ft c = .ok w := by
  obtain ⟨bs, hdef, hbs⟩ := h.defRegion hram
  refine hbs.defaultWrite hdef fun htype => ?_
  have hok := h.ok
  simp [itemOk, htype] at hok

theorem Good.defNode (h : Good c.item) (hram : RamString c) :
    (defNode c).value.isSome = true := by
  obtain ⟨bs, hdef, hbs⟩ := h.defRegion hram
  exact hbs.defNode hdef

theorem commit_ne_fault {stored : Option Bytes} {write : Except Ret Write} {ok : Bool}
    (h : ∃ w, write = .ok w) : (commit c stored write ok).ret ≠ .fault := by
  obtain ⟨w, rfl⟩ := h
  cases ok <;> simp [commit]

theorem Good.reset (h : Good c.item) (hram : RamString c) (ok : Bool) (stored : Option Bytes) :
    (resetOneLocked ft ok c stored).ret ≠ .fault :=
  commit_ne_fault (h.defaultWrite hram)

theorem Good.sync (h : Good c.item) (hram : RamString c) (ok : Bool) (stored : Option Bytes) :
    (syncOne ft ok c stored).ret ≠ .fault := by
  unfold syncOne
  split
  · simp
  · exact commit_ne_fault (h.defaultWrite hram)

theorem Good.groupReset (h : Good c.item) (hram : RamString c) (group : ParamGroup)
    (writeOk : String → Bool) (stored : Option Bytes) :
    (groupResetOne ft group writeOk c stored).ret ≠ .fault := by
  unfold groupResetOne
  split_ifs
  · exact h.reset hram _ _
  · simp

end Good

/-! ## Strings in RAM -/

/-- The RAM of a STR item is a C string. -/
def Terminated (c : Cell) : Prop := c.item.type = .str → 0 ∈ c.ram

/-- What is copied to the RAM of a STR item is nothing or a whole string. -/
def StrImage (c : Cell) (image : Bytes) : Prop :=
  c.item.type = .str → image = [] ∨ ∃ t, image = strncpyBuf c.item.ramSize t

theorem zero_mem_strncpyBuf {n : Nat} (hn : 0 < n) (s : Bytes) : 0 ∈ strncpyBuf n s := by
  have hlen : ((cstr s).take (n - 1)).length < n := by
    rw [List.length_take]
    omega
  rw [strncpyBuf, fit_of_length_le hlen.le]
  refine List.mem_append_right _ ?_
  rw [zeros, List.mem_replicate]
  exact ⟨by omega, rfl⟩

section Strings

variable {ft : FloatText} {c : Cell}

theorem terminated_of_string (hok : itemOk c.item = true) {t : Bytes} :
    Terminated (c.memcpy (strncpyBuf c.item.ramSize t)) := by
  intro htype
  have hpos : 0 < c.item.ramSize := by
    have htype' : c.item.type = .str := htype
    simp only [itemOk, htype', Bool.and_eq_true, decide_eq_true_eq] at hok
    exact hok.2.1
  rw [Cell.memcpy_ram, overlay_of_length_le (by rw [c.ramLen, length_strncpyBuf]), c.ramLen,
    List.take_of_length_le (length_strncpyBuf _ _).le]
  exact zero_mem_strncpyBuf hpos t

theorem Terminated.memcpy (h : Terminated c) (hok : itemOk c.item = true) {image : Bytes}
    (himage : StrImage c image) : Terminated (c.memcpy image) := by
  intro htype
  rcases himage htype with rfl | ⟨t, rfl⟩
  · rw [Cell.memcpy_nil]
    exact h htype
  · exact terminated_of_string hok htype

theorem commit_strImage {stored : Option Bytes} {write : Except Ret Write} {ok : Bool}
    (h : ∀ w, write = .ok w → StrImage c w.image) :
    StrImage c (commit c stored write ok).image := by
  intro htype
  cases hwrite : write with
  | error r => exact .inl rfl
  | ok w =>
    cases ok with
    | true => exact h w hwrite htype
    | false => exact .inl rfl

theorem defaultWrite_string {w : Write} (hw : defaultWrite ft c = .ok w)
    (htype : c.item.type = .str) : ∃ t, w.image = strncpyBuf c.item.ramSize t := by
  simp only [defaultWrite, htype] at hw
  split at hw
  · obtain rfl := Except.ok.inj hw
    exact ⟨_, rfl⟩
  · cases hw

theorem setWrite_string {val : Bytes} {w : Write} (hw : setWrite ft c val = .ok w)
    (htype : c.item.type = .str) : ∃ t, w.image = strncpyBuf c.item.ramSize t := by
  simp only [setWrite, htype] at hw
  split at hw
  · obtain rfl := Except.ok.inj hw
    exact ⟨_, rfl⟩
  · cases hw

theorem dbRead_string {stored : Option Bytes} {image : Bytes}
    (h : dbRead ft c stored = some image) (htype : c.item.type = .str) :
    ∃ t, image = strncpyBuf c.item.ramSize t := by
  simp only [dbRead, htype, Option.map_eq_some_iff] at h
  obtain ⟨t, -, rfl⟩ := h
  exact ⟨t, rfl⟩

theorem resetOneLocked_strImage (ok : Bool) (stored : Option Bytes) :
    StrImage c (resetOneLocked ft ok c stored).image :=
  commit_strImage fun _ hw htype => .inr (defaultWrite_string hw htype)

theorem syncOne_strImage (ok : Bool) (stored : Option Bytes) :
    StrImage c (syncOne ft ok c stored).image := by
  unfold syncOne
  split
  · exact fun htype => .inr (dbRead_string (by assumption) htype)
  · exact resetOneLocked_strImage ok stored

theorem groupResetOne_strImage (group : ParamGroup) (writeOk : String → Bool)
    (stored : Option Bytes) : StrImage c (groupResetOne ft group writeOk c stored).image := by
  unfold groupResetOne
  split_ifs
  · exact resetOneLocked_strImage _ _
  · exact fun _ => .inl rfl

/-- A sync that returns `0` leaves a string. -/
theorem Good.syncOne_terminated (hgood : Good c.item) (hram : RamString c) {ok : Bool}
    {stored : Option Bytes} (h : (syncOne ft ok c stored).ret = .ok) :
    Terminated (c.memcpy (syncOne ft ok c stored).image) := by
  intro htype
  have hstring : ∃ t, (syncOne ft ok c stored).image = strncpyBuf c.item.ramSize t := by
    unfold syncOne at h ⊢
    split at h
    · exact dbRead_string (by assumption) htype
    · obtain ⟨w, hw⟩ : ∃ w, FlashParam.defaultWrite ft c = .ok w := hgood.defaultWrite hram
      rw [hw] at h ⊢
      cases ok with
      | true => exact defaultWrite_string hw htype
      | false => exact absurd h (by simp [commit])
  obtain ⟨t, ht⟩ := hstring
  rw [ht]
  exact terminated_of_string hgood.ok htype

end Strings

end Hc32Board.FlashParam
