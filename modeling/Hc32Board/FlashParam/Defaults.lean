import Hc32Board.FlashParam.Consistent

/-!
# Restoring the defaults

Three paths bring an item to its default: `flash_param_reset` writes it,
`flash_param_reset_all` lets FlashDB restore its default records and reads
them back, and the first boot does the same on blank flash.  The paths do not
agree in general, because FlashDB stores the raw `def_size` bytes of a
default.

* The raw bytes of an INT default are not its decimal text.  Almost always
  they do not read as a number and `_sync_one` falls back to the default.  But
  four bytes such as `0x31313131` are the text `1111`.
* A stored BLOB that is shorter than the RAM region does not clear the RAM
  bytes behind it.
* A long STR default is cut to 128 bytes when it is read back.
* `flash_param_reset_all` ignores the result of `fdb_kv_set_default`, so an
  old value can still be in place.

`ReadsDefault` is the exact condition on the value FlashDB left under the key:
an item that `_sync_one` brings up from it is as after a default write
(`sync_iff`).
-/

namespace Hc32Board.FlashParam

open Hc32Board.CodeLib

/-! ## The defaults of an item -/

def Cell.defInt (c : Cell) : BitVec 32 := ofLe4 (c.defRegion.getD [])

def Cell.defStr (c : Cell) : Bytes := cstr (c.defRegion.getD [])

def Cell.defBlob (c : Cell) : Bytes := (c.defRegion.getD []).take c.item.defSize

/-- The RAM of an item that holds its default, with a zeroed tail. -/
def Cell.defaultRam (c : Cell) : Bytes :=
  match c.item.type with
  | .int => overlay (le4 c.defInt) (zeros c.item.ramSize)
  | .str => strncpyBuf c.item.ramSize c.defStr
  | .blob => fit c.item.ramSize c.defBlob
  | _ => zeros c.item.ramSize

theorem Cell.defaultRam_int {c : Cell} (h : c.item.type = .int) :
    c.defaultRam = overlay (le4 c.defInt) (zeros c.item.ramSize) := by
  simp only [Cell.defaultRam, h]

theorem Cell.defaultRam_str {c : Cell} (h : c.item.type = .str) :
    c.defaultRam = strncpyBuf c.item.ramSize c.defStr := by
  simp only [Cell.defaultRam, h]

theorem Cell.defaultRam_blob {c : Cell} (h : c.item.type = .blob) :
    c.defaultRam = fit c.item.ramSize c.defBlob := by
  simp only [Cell.defaultRam, h]

theorem ofLe4_take (bs : Bytes) : ofLe4 (bs.take 4) = ofLe4 bs := by
  simp [ofLe4, List.getD_eq_getElem?_getD]

/-- The default write of an INT item. -/
theorem defaultWrite_int {ft : FloatText} {c : Cell} (hint : c.item.type = .int) {w : Write}
    (h : defaultWrite ft c = .ok w) : w = ⟨intToStr (le4 c.defInt), le4 c.defInt⟩ := by
  simp only [defaultWrite, hint] at h
  split at h
  · rename_i d hd
    cases h
    have hlen := readBytes_length hd
    obtain ⟨r, hr, -, rfl⟩ := readBytes_eq_some hd
    rw [Cell.defInt, hr, Option.getD_some, ← ofLe4_take, le4_ofLe4 hlen]
  · cases h

/-- The default write of a STR item. -/
theorem defaultWrite_str {ft : FloatText} {c : Cell} (hstr : c.item.type = .str) {w : Write}
    (h : defaultWrite ft c = .ok w) :
    w = ⟨c.defStr, strncpyBuf c.item.ramSize c.defStr⟩ ∧
      (c.item.defVal = .ram → c.defStr.length < c.item.ramSize) := by
  simp only [defaultWrite, hstr] at h
  split at h
  · rename_i s hs
    cases h
    obtain ⟨r, hr, hnul, rfl⟩ := readStr_eq_some hs
    have hdef : c.defStr = cstr r := by rw [Cell.defStr, hr, Option.getD_some]
    refine ⟨by rw [hdef], ?_⟩
    intro hram
    simp only [Cell.defRegion, hram, Option.some_inj] at hr
    subst hr
    rw [hdef, ← c.ramLen]
    -- a NUL stands behind the string
    rcases Nat.lt_or_ge (cstr c.ram).length c.ram.length with hlt | hge
    · exact hlt
    · have hself : cstr c.ram = c.ram := (List.takeWhile_sublist _).eq_of_length_le hge
      have h0 : (0 : UInt8) ∈ cstr c.ram := by
        rw [hself]
        exact hnul
      exact absurd h0 (zero_notMem_cstr c.ram)
  · cases h

/-- The default write of a BLOB item.  A default in the RAM region is cleared
before it is copied. -/
theorem defaultWrite_blob {ft : FloatText} {c : Cell} (hblob : c.item.type = .blob) {w : Write}
    (h : defaultWrite ft c = .ok w) :
    w.value = c.defBlob ∧ w.value.length = c.item.defSize ∧
      w.image = if c.item.defVal = .ram then zeros c.item.ramSize
        else fit c.item.ramSize c.defBlob := by
  simp only [defaultWrite, hblob] at h
  split at h
  · rename_i d hd
    have hlen := readBytes_length hd
    cases h
    obtain ⟨r, hr, -, rfl⟩ := readBytes_eq_some hd
    have hdef : c.defBlob = r.take c.item.defSize := by
      rw [Cell.defBlob, hr, Option.getD_some]
    refine ⟨hdef.symm, hlen, ?_⟩
    have hcut : ∀ bs : Bytes, fit c.item.ramSize (bs.take (min c.item.defSize c.item.ramSize)) =
        fit c.item.ramSize (bs.take c.item.defSize) := by
      intro bs
      rw [Nat.min_comm, ← List.take_take, fit_take]
    cases hval : c.item.defVal with
    | null => simp [Cell.defRegion, hval] at hr
    | region bs =>
      simp only [Cell.defRegion, hval, Option.some_inj] at hr
      subst hr
      simp only [Cell.defRegionCleared, hval, hcut, hdef]
      rfl
    | ram =>
      simp only [Cell.defRegionCleared, hval, hcut, if_true]
      rw [zeros, List.take_replicate]
      exact fit_zeros _ _
  · cases h

/-! ## Reading a restored record back -/

/-- The value `v` under the key of an item reads as the item's default.  A
value that does not read at all is fine, because `_sync_one` then writes the
default. -/
def ReadsDefault (c : Cell) (v : Option Bytes) : Prop :=
  match c.item.type with
  | .int => ∀ t x, fdbKvGet v = some t → intFromStr t = some x → x = c.defInt
  | .str => ∀ t, fdbKvGet v = some t →
      strncpyBuf c.item.ramSize t = strncpyBuf c.item.ramSize c.defStr
  | .blob => ∀ b, v = some b → b ≠ [] →
      fit c.item.ramSize b = fit c.item.ramSize c.defBlob ∧
        -- the RAM behind the value is already clear
        c.ram.drop b.length = zeros (c.item.ramSize - b.length) ∧
        (c.item.defVal = .ram → c.defBlob = zeros c.defBlob.length)
  | _ => True

/-- `fdb_kv_get` returns the value as a string. -/
def Readable (v : Bytes) : Prop := v ≠ [] ∧ fdbIsStr (v.take strKvValueMaxSize) = true

instance (v : Bytes) : Decidable (Readable v) := inferInstanceAs (Decidable (_ ∧ _))

/-- A default string that is stored as it is comes back at the next boot. -/
def Cell.StrLasts (c : Cell) : Prop :=
  (Readable c.defStr →
      c.defStr.length ≤ strKvValueMaxSize ∨ c.item.ramSize ≤ strKvValueMaxSize + 1) ∧
    (¬ Readable c.defStr → c.item.defVal = .ram → c.defStr = [])

/-- After `_sync_one` the RAM bytes of the item, and the bytes of a later
boot, are those that the default write gives. -/
def SameAsDefault (ft : FloatText) (c : Cell) (w : Write) (s : Step) : Prop :=
  overlay s.image c.ram = overlay w.image c.ram ∧
    bootRam ft c.item s.stored = bootRam ft c.item (some w.value)

section Types

variable {ft : FloatText} {ok : Bool} {c : Cell} {v : Option Bytes} {w : Write}

/-- An item whose value does not read gets its default. -/
theorem sameAsDefault_of_unread (hw : defaultWrite ft c = .ok w)
    (hret : (syncOne ft ok c v).ret = .ok) (hread : dbRead ft c v = none) :
    SameAsDefault ft c w (syncOne ft ok c v) := by
  obtain ⟨w', hw', -, hsync⟩ := syncOne_wrote_default hread hret
  obtain rfl : w = w' := Except.ok.inj (hw.symm.trans hw')
  rw [hsync]
  exact ⟨rfl, rfl⟩

/-- The RAM of an INT item tells its value. -/
theorem overlay_le4_inj (hsize : 4 ≤ c.item.ramSize) {x y : BitVec 32} :
    overlay (le4 x) c.ram = overlay (le4 y) c.ram ↔ x = y := by
  have hlen : (le4 x).length = (le4 y).length := rfl
  have hle : (le4 x).length ≤ c.ram.length := by
    rw [c.ramLen]
    exact hsize
  rw [overlay_inj hlen hle]
  constructor
  · intro h
    rw [← ofLe4_le4 x, h, ofLe4_le4]
  · rintro rfl
    rfl

theorem sync_int_iff (hint : c.item.type = .int) (hsize : 4 ≤ c.item.ramSize)
    (hw : defaultWrite ft c = .ok w) (hret : (syncOne ft ok c v).ret = .ok) :
    SameAsDefault ft c w (syncOne ft ok c v) ↔ ReadsDefault c v := by
  simp only [ReadsDefault, hint]
  cases hread : dbRead ft c v with
  | none =>
    refine iff_of_true (sameAsDefault_of_unread hw hret hread) ?_
    intro t x ht hx
    simp [dbRead, hint, ht, hx] at hread
  | some image =>
    have hpow : dbRead ft c.item.powerOn v = some image := by
      rw [← hread]
      simp only [dbRead, hint, ParamItem.powerOn]
    have hread' := hread
    simp only [dbRead, hint, Option.map_eq_some_iff, Option.bind_eq_some_iff] at hread'
    obtain ⟨x, ⟨t, ht, hx⟩, rfl⟩ := hread'
    obtain rfl := defaultWrite_int hint hw
    have hboot : bootRam ft c.item (some (intToStr (le4 c.defInt))) =
        overlay (le4 c.defInt) (zeros c.item.ramSize) :=
      (int_faithful hint (length_le4 _)).1
    rw [syncOne_of_read hread]
    unfold SameAsDefault
    rw [overlay_le4_inj hsize, bootRam_of_read hpow, hboot]
    constructor
    · rintro ⟨rfl, -⟩ t' x' ht' hx'
      rw [ht] at ht'
      cases ht'
      rw [hx] at hx'
      exact (Option.some.inj hx').symm
    · intro h
      obtain rfl := h t x ht hx
      exact ⟨rfl, rfl⟩

/-- A later boot loads a default string that was stored as it is exactly if the
cut at 128 bytes does not show.  A string that does not read back is replaced by
the default of that boot, which is another one if it is in RAM. -/
theorem bootRam_defStr_iff (hstr : c.item.type = .str) (hsize : 0 < c.item.ramSize)
    (hw : defaultWrite ft c = .ok w) :
    bootRam ft c.item (some c.defStr) = strncpyBuf c.item.ramSize c.defStr ↔ c.StrLasts := by
  have hnul : (0 : UInt8) ∉ c.defStr := zero_notMem_cstr _
  have hread : dbRead ft c.item.powerOn (some c.defStr) =
      (fdbKvGet (some c.defStr)).map (strncpyBuf c.item.ramSize) := by
    simp only [dbRead, ParamItem.powerOn, hstr]
  have hfull : ∀ s : Bytes, overlay (strncpyBuf c.item.ramSize s) (zeros c.item.ramSize) =
      strncpyBuf c.item.ramSize s := overlay_strncpyBuf c.item.powerOn
  rw [fdbKvGet_some] at hread
  split_ifs at hread with hgood
  · have hgood' : Readable c.defStr := hgood
    rw [bootRam_of_read hread, hfull, strncpyBuf_take_iff hnul, Cell.StrLasts]
    simp only [hgood', forall_const, not_true_eq_false, IsEmpty.forall_iff, and_true]
  · have hgood' : ¬ Readable c.defStr := hgood
    rw [Cell.StrLasts]
    simp only [hgood', IsEmpty.forall_iff, not_false_eq_true, forall_const, true_and]
    cases hval : c.item.defVal with
    | null => simp [defaultWrite, hstr, Cell.defRegion, hval, readStr] at hw
    | region bs =>
      have hpow : defaultWrite ft c.item.powerOn = .ok w := by
        rw [← hw]
        simp only [defaultWrite, Cell.defRegion, ParamItem.powerOn, hstr, hval]
      refine iff_of_true ?_ fun hram => absurd hram (by simp)
      rw [bootRam_of_default hread hpow, (defaultWrite_str hstr hw).1, hfull]
    | ram =>
      have hzero : (0 : UInt8) ∈ zeros c.item.ramSize := by
        rw [zeros, List.mem_replicate]
        exact ⟨by omega, rfl⟩
      have hempty : cstr (zeros c.item.ramSize) = [] := cstr_append_zeros List.not_mem_nil _
      have hpow : defaultWrite ft c.item.powerOn =
          .ok ⟨[], strncpyBuf c.item.ramSize []⟩ := by
        simp only [defaultWrite, Cell.defRegion, ParamItem.powerOn, hstr, hval,
          readStr_of_mem hzero, hempty]
      have hshort := (defaultWrite_str hstr hw).2 hval
      rw [bootRam_of_default hread hpow, hfull, strncpyBuf_eq_iff List.not_mem_nil hnul,
        List.take_nil, List.take_of_length_le (by omega), forall_prop_of_true rfl, eq_comm]

/-- A later boot loads the default string if some readable text fills the RAM
buffer like it. -/
theorem bootRam_defStr (hstr : c.item.type = .str) (hsize : 0 < c.item.ramSize)
    (hw : defaultWrite ft c = .ok w) {t : Bytes} (hprint : fdbIsStr t = true)
    (hlen : t.length ≤ strKvValueMaxSize)
    (heq : strncpyBuf c.item.ramSize t = strncpyBuf c.item.ramSize c.defStr) :
    bootRam ft c.item (some c.defStr) = strncpyBuf c.item.ramSize c.defStr := by
  have hnul : (0 : UInt8) ∉ c.defStr := zero_notMem_cstr _
  have hcut : t.take (c.item.ramSize - 1) = c.defStr.take (c.item.ramSize - 1) :=
    (strncpyBuf_eq_iff (zero_notMem_of_fdbIsStr hprint) hnul _).1 heq
  refine (bootRam_defStr_iff hstr hsize hw).mpr ⟨fun _ => ?_, fun hbad hval => ?_⟩
  · have hlens := congrArg List.length hcut
    rw [List.length_take, List.length_take] at hlens
    omega
  · -- a string in RAM that is not empty is a part of the readable text
    have hshort := (defaultWrite_str hstr hw).2 hval
    rw [List.take_of_length_le (by omega : c.defStr.length ≤ _)] at hcut
    by_contra hne
    refine hbad ⟨hne, ?_⟩
    rw [← hcut, fdbIsStr_iff]
    intro b hb
    exact (fdbIsStr_iff t).1 hprint b (List.mem_of_mem_take (List.mem_of_mem_take hb))

theorem sync_str_iff (hstr : c.item.type = .str) (hsize : 0 < c.item.ramSize)
    (hw : defaultWrite ft c = .ok w) (hret : (syncOne ft ok c v).ret = .ok) :
    SameAsDefault ft c w (syncOne ft ok c v) ↔ ReadsDefault c v := by
  simp only [ReadsDefault, hstr]
  have hread : ∀ d : Cell, d.item = c.item →
      dbRead ft d v = (fdbKvGet v).map (strncpyBuf c.item.ramSize) := by
    intro d hd
    simp only [dbRead, hd, hstr]
  cases hget : fdbKvGet v with
  | none =>
    have hnone : dbRead ft c v = none := by rw [hread c rfl, hget]; rfl
    refine iff_of_true (sameAsDefault_of_unread hw hret hnone) ?_
    intro t ht
    cases ht
  | some t =>
    have hsome : ∀ d : Cell, d.item = c.item →
        dbRead ft d v = some (strncpyBuf c.item.ramSize t) := by
      intro d hd
      rw [hread d hd, hget]
      rfl
    have hload : bootRam ft c.item v = strncpyBuf c.item.ramSize t := by
      rw [bootRam_of_read (hsome c.item.powerOn rfl)]
      exact overlay_strncpyBuf c.item.powerOn t
    obtain ⟨u, -, -, hprint, htake⟩ := fdbKvGet_eq_some hget
    have hlen : t.length ≤ strKvValueMaxSize := by
      rw [htake, List.length_take]
      omega
    have hwrite := (defaultWrite_str hstr hw).1
    rw [syncOne_of_read (hsome c rfl)]
    unfold SameAsDefault
    rw [hwrite]
    simp only [overlay_strncpyBuf, hload, Option.some_inj]
    constructor
    · rintro ⟨heq, -⟩ t' rfl
      exact heq
    · intro h
      refine ⟨h t rfl, ?_⟩
      rw [bootRam_defStr hstr hsize hw hprint hlen (h t rfl)]
      exact h t rfl

/-- A later boot loads what a reset of a BLOB item has stored. -/
theorem bootRam_defBlob (hblob : c.item.type = .blob) (hw : defaultWrite ft c = .ok w) :
    bootRam ft c.item (some c.defBlob) = fit c.item.ramSize c.defBlob := by
  by_cases hnil : c.defBlob = []
  · -- an empty value is not read, and the default is empty again
    obtain ⟨hvalue, hlen, -⟩ := defaultWrite_blob hblob hw
    have hdef : c.item.defSize = 0 := by
      rw [← hlen, hvalue, hnil, List.length_nil]
    have hpow : defaultWrite ft c.item.powerOn = .ok ⟨[], fit c.item.ramSize []⟩ := by
      cases hval : c.item.defVal with
      | null => simp [defaultWrite, hblob, Cell.defRegion, hval, readBytes] at hw
      | region bs =>
        simp [defaultWrite, Cell.defRegion, ParamItem.powerOn, hblob, hval, hdef, readBytes]
      | ram =>
        simp [defaultWrite, Cell.defRegion, ParamItem.powerOn, hblob, hval, hdef, readBytes]
    have hread : dbRead ft c.item.powerOn (some []) = none := dbRead_blob_nil hblob
    rw [hnil, bootRam_of_default hread hpow]
    show overlay (fit c.item.ramSize []) (zeros c.item.ramSize) = fit c.item.ramSize []
    rw [overlay_zeros, fit_of_length_eq (length_fit _ _)]
  · exact bootRam_blob hblob hnil

/-- The RAM of a BLOB item after its stored value was read. -/
theorem overlay_read_blob (c : Cell) (b : Bytes) :
    overlay (overlay (b.take c.ram.length) c.ram) c.ram = overlay b c.ram := by
  have hcut : overlay (b.take c.ram.length) c.ram = overlay b c.ram := by
    rw [overlay, overlay, List.take_take, Nat.min_self, List.length_take]
    rcases Nat.le_total b.length c.ram.length with hle | hle
    · rw [Nat.min_eq_right hle]
    · rw [Nat.min_eq_left hle, List.drop_length, List.drop_eq_nil_of_le hle]
  rw [hcut, overlay_of_length_le (by rw [length_overlay]),
    List.take_of_length_le (by rw [length_overlay])]

theorem sync_blob_iff (hblob : c.item.type = .blob) (hw : defaultWrite ft c = .ok w)
    (hret : (syncOne ft ok c v).ret = .ok) :
    SameAsDefault ft c w (syncOne ft ok c v) ↔ ReadsDefault c v := by
  simp only [ReadsDefault, hblob]
  by_cases hstored : ∃ b, v = some b ∧ b ≠ []
  · obtain ⟨b, rfl, hb⟩ := hstored
    obtain ⟨hvalue, hlen, himage⟩ := defaultWrite_blob hblob hw
    have hfull : overlay w.image c.ram = w.image := by
      have hwlen : w.image.length = c.ram.length := by
        rw [himage, c.ramLen]
        split_ifs
        · exact length_zeros _
        · exact length_fit _ _
      rw [overlay_of_length_le (by rw [hwlen]), List.take_of_length_le (by rw [hwlen])]
    have hclear := overlay_eq_fit_iff b c.ram
    rw [c.ramLen] at hclear
    rw [syncOne_of_read (dbRead_blob hblob hb)]
    unfold SameAsDefault
    rw [overlay_read_blob, hfull, himage, hvalue, bootRam_blob hblob hb, bootRam_defBlob hblob hw]
    constructor
    · rintro ⟨hram, hload⟩ b' hb' -
      cases hb'
      -- a default in RAM was cleared, so everything read must be zero
      have hzero : c.item.defVal = .ram → fit c.item.ramSize b = zeros c.item.ramSize := by
        intro hval
        rw [if_pos hval, ← c.ramLen] at hram
        rw [← c.ramLen]
        exact fit_of_overlay_eq_zeros hram
      refine ⟨hload, ?_, ?_⟩
      · rw [← hclear, hram]
        split_ifs with hval
        · exact (hzero hval).symm
        · exact hload.symm
      · intro hval
        apply eq_zeros_of_fit (hload.symm.trans (hzero hval))
        simp only [Cell.defBlob, Cell.defRegion, hval, Option.getD_some, List.length_take, c.ramLen]
        omega
    · intro h
      obtain ⟨hload, hdrop, hval⟩ := h b rfl hb
      refine ⟨?_, hload⟩
      rw [hclear.2 hdrop, hload]
      split_ifs with hram
      · rw [hval hram, fit_zeros]
      · rfl
  · have hnone : dbRead ft c v = none := by
      cases v with
      | none => simp [dbRead, hblob, fdbKvGetBlob]
      | some b =>
        have hb : b = [] := by
          by_contra hb
          exact hstored ⟨b, rfl, hb⟩
        rw [hb]
        exact dbRead_blob_nil hblob
    refine iff_of_true (sameAsDefault_of_unread hw hret hnone) ?_
    intro b hb hne
    exact absurd ⟨b, hb, hne⟩ hstored

/-- An item reads its default back exactly when its value reads as the
default. -/
theorem sync_iff (hitem : itemOk c.item = true)
    (htype : c.item.type = .int ∨ c.item.type = .str ∨ c.item.type = .blob)
    (hw : defaultWrite ft c = .ok w) (hret : (syncOne ft ok c v).ret = .ok) :
    SameAsDefault ft c w (syncOne ft ok c v) ↔ ReadsDefault c v := by
  simp only [itemOk, Bool.and_eq_true] at hitem
  rcases htype with hint | hstr | hblob
  · simp only [hint, decide_eq_true_eq] at hitem
    exact sync_int_iff hint hitem.2 hw hret
  · simp only [hstr, Bool.and_eq_true, decide_eq_true_eq] at hitem
    exact sync_str_iff hstr hitem.2.1 hw hret
  · exact sync_blob_iff hblob hw hret

end Types

/-! ## `flash_param_reset_all` -/

/-- What one key holds after a call of `fdb_kv_set_default` in the manager. -/
theorem fdbKvSetDefault_key {db db' : Fdb} {cells : List Cell} {out : SetDefault}
    (hnd : (cells.map Cell.key).Nodup) (h : fdbKvSetDefault db (cells.map defNode) out = some db')
    {c : Cell} (hc : c ∈ cells) :
    db' c.key = out.store c.key (defNode c).value (db c.key) := by
  cases out with
  | formatted created =>
    simp only [fdbKvSetDefault] at h
    split_ifs at h
    obtain rfl := Option.some.inj h
    have hfind : (cells.map defNode).find? (·.key = c.key) = some (defNode c) := by
      have hkey : (fun d : Cell => decide ((defNode d).key = c.key)) =
          fun d => decide (d.key = c.key) := rfl
      rw [List.find?_map]
      show ((cells.find? fun d => decide ((defNode d).key = c.key)).map defNode) = _
      rw [hkey, find?_key_of_mem hnd hc]
      rfl
    simp [hfind]
  | formatFailed lost =>
    simp only [fdbKvSetDefault] at h
    obtain rfl := Option.some.inj h
    rfl

/-- A call of `flash_param_reset_all` that returns `0` has synchronised every
item from what `fdb_kv_set_default` left under its key. -/
theorem flashParamResetAll_ok {ft : FloatText} {mgr : ParamMgr} {out : SetDefault}
    {writeOk : String → Bool} (h : (flashParamResetAll ft mgr out writeOk).ret = .ok) {c : Cell}
    (hc : c ∈ mgr.cells) :
    let s := syncOne ft (writeOk c.key) c
      (out.store c.key (defNode c).value (mgr.kvdb c.key))
    s.ret = .ok ∧
      (flashParamResetAll ft mgr out writeOk).mgr.ramOf c.key = some (overlay s.image c.ram) ∧
      (flashParamResetAll ft mgr out writeOk).mgr.kvdb c.key = s.stored := by
  intro s
  unfold flashParamResetAll at h ⊢
  split_ifs at h ⊢ with hinit
  have hok : mgr.initOk = true := by simpa using hinit
  have hnd := keys_nodup (mgr.accepted hok)
  cases hdb : fdbKvSetDefault mgr.kvdb (mgr.cells.map defNode) out with
  | none =>
    simp only [hdb] at h
    cases h
  | some db =>
    simp only [hdb] at h ⊢
    have hkey := fdbKvSetDefault_key hnd hdb hc
    have hall := forItems_ok db hnd h
    have hgo : ∀ c ∈ mgr.cells,
        GoesOn false ((fun c => syncOne ft (writeOk c.key) c) c (db c.key)).ret := by
      intro d hd
      rw [hall d hd]
      exact goesOn_ok false
    obtain ⟨hcells, hkv, -⟩ := forItems_spec db hnd hgo
    have hs : syncOne ft (writeOk c.key) c (db c.key) = s := by rw [hkey]
    refine ⟨?_, ?_, ?_⟩
    · rw [← hs]
      exact hall c hc
    · show ((forItems false (fun c => syncOne ft (writeOk c.key) c) db mgr.cells).cells.find?
        (·.key = c.key)).map (·.ram) = _
      rw [hcells, ← hs]
      exact find?_map_memcpy hnd hc _
    · rw [← hs]
      exact hkv c hc

/-- A call of `flash_param_reset` that returns `0` has written the default. -/
theorem flashParamReset_ok {ft : FloatText} {mgr : ParamMgr} {ok : Bool} {c : Cell}
    (hc : c ∈ mgr.cells) (h : (flashParamReset ft mgr (some c.key) ok).ret = .ok) :
    ∃ w, defaultWrite ft c = .ok w ∧
      (flashParamReset ft mgr (some c.key) ok).mgr.ramOf c.key =
        some (overlay w.image c.ram) ∧
      (flashParamReset ft mgr (some c.key) ok).mgr.kvdb c.key = some w.value := by
  rcases flashParamReset_cases ft mgr (some c.key) ok with heq | ⟨k, d, hk, hok, hd, heq⟩
  · rw [heq] at h
    cases h
  · cases hk
    rw [findItem_of_mem hok hc] at hd
    obtain rfl := Option.some.inj hd
    rw [heq, onItem_ret] at h
    rw [heq, onItem_mgr]
    obtain ⟨w, hw, -, hstep⟩ := commit_default_ok h
    have hstep' : resetOneLocked ft ok c (mgr.kvdb c.key) = _ := hstep
    refine ⟨w, hw, ?_, ?_⟩
    · rw [ParamMgr.ramOf, findItem_putItem, findItem_of_mem hok hc, hstep']
      simp
    · rw [putItem_kvdb, Function.update_self, hstep']

end Hc32Board.FlashParam
