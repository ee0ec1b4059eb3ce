import Hc32Board.FlashParam.FirstBoot

/-!
# Restoring all defaults

`flash_param_reset_all` against `flash_param_reset`.  For one item there are two
questions.

* Does `flash_param_reset` itself leave the default, with a zeroed tail, in RAM
  and for the next boot?  It does for an item of the usual shape (`DefaultLasts`).
  It does not clear the RAM behind an INT, it stores a string that is too long to
  be read back, and it clears a default that is in RAM before it copies it.
* Does `flash_param_reset_all` leave the same?  That depends on what
  `fdb_kv_set_default` left under the key (`RestoredReads`): nothing, the raw
  bytes of the default (`RawReads`), or the old value (`OldReads`).

`reset_all_restores_iff` puts the two together.
-/

namespace Hc32Board.FlashParam

open Hc32Board.CodeLib

/-! ## The conditions -/

/-- A default that `flash_param_reset` restores in full: the RAM behind an INT
is clear, a string is read back as it was stored, and a BLOB default is not in
the RAM that the reset clears, unless it is zero. -/
def DefaultLasts (c : Cell) : Prop :=
  match c.item.type with
  | .int => c.ram.drop 4 = zeros (c.item.ramSize - 4)
  | .str => c.StrLasts
  | .blob => c.item.defVal = .ram → c.defBlob = zeros c.defBlob.length
  | _ => True

/-- The bytes of the default record that FlashDB creates. -/
def Cell.rawDefault (c : Cell) : Bytes := (defNode c).value.getD []

/-- The raw bytes of the default are as good as the default.

* Four INT bytes do not look like a decimal number.  Of another length, they do
  not either, or they spell the default.
* The part of a string that is stored and read reaches to its end, or fills the
  RAM buffer.
* The RAM behind a BLOB is clear.  A BLOB of no bytes is stored as a string. -/
def RawReads (c : Cell) : Prop :=
  match c.item.type with
  | .int =>
    if c.item.defSize = 4 then LooksDecimal c.defInt = false
    else Readable c.rawDefault →
      ∀ x, intFromStr (c.rawDefault.take strKvValueMaxSize) = some x → x = c.defInt
  | .str => Readable c.rawDefault →
      c.defStr.length ≤ min c.rawDefault.length strKvValueMaxSize ∨
        c.item.ramSize ≤ min c.rawDefault.length strKvValueMaxSize + 1
  | .blob =>
    if c.item.defSize = 0 then c.rawDefault = []
    else c.ram.drop c.item.defSize = zeros (c.item.ramSize - c.item.defSize)
  | _ => True

/-- An old value that is still stored does not read, or shows the default. -/
def OldReads (c : Cell) (v : Bytes) : Prop :=
  match c.item.type with
  | .int => Readable v → ∀ x, intFromStr (v.take strKvValueMaxSize) = some x → x = c.defInt
  | .str => Readable v →
      (v.take strKvValueMaxSize).take (c.item.ramSize - 1) = c.defStr.take (c.item.ramSize - 1)
  | .blob => v ≠ [] →
      fit c.item.ramSize v = fit c.item.ramSize c.defBlob ∧
        c.ram.drop v.length = zeros (c.item.ramSize - v.length)
  | _ => True

/-- What `fdb_kv_set_default` left under the key is as good as the default. -/
def RestoredReads (c : Cell) (out : SetDefault) (old : Option Bytes) : Prop :=
  match out with
  | .formatted created => created c.key = true → RawReads c
  | .formatFailed lost => lost c.key = false → ∀ v, old = some v → OldReads c v

/-! ## `flash_param_reset` -/

section Reset

variable {ft : FloatText} {c : Cell} {w : Write}

theorem overlay_le4_eq_iff (c : Cell) (x : BitVec 32) :
    overlay (le4 x) c.ram = overlay (le4 x) (zeros c.item.ramSize) ↔
      c.ram.drop 4 = zeros (c.item.ramSize - 4) := by
  have hclear := overlay_eq_fit_iff (le4 x) c.ram
  rw [c.ramLen, length_le4] at hclear
  rw [overlay_zeros, hclear]

theorem length_defBlob_le (hval : c.item.defVal = .ram) : c.defBlob.length ≤ c.item.ramSize := by
  simp only [Cell.defBlob, Cell.defRegion, hval, Option.getD_some, List.length_take, c.ramLen]
  omega

theorem reset_restores_int (hint : c.item.type = .int) (hw : defaultWrite ft c = .ok w) :
    overlay w.image c.ram = c.defaultRam ∧ bootRam ft c.item (some w.value) = c.defaultRam ↔
      c.ram.drop 4 = zeros (c.item.ramSize - 4) := by
  obtain rfl := defaultWrite_int hint hw
  have hboot : bootRam ft c.item (some (intToStr (le4 c.defInt))) =
      overlay (le4 c.defInt) (zeros c.item.ramSize) :=
    (int_faithful hint (length_le4 _)).1
  rw [Cell.defaultRam_int hint, overlay_le4_eq_iff, hboot]
  exact and_iff_left rfl

theorem reset_restores_str (hstr : c.item.type = .str) (hsize : 0 < c.item.ramSize)
    (hw : defaultWrite ft c = .ok w) :
    overlay w.image c.ram = c.defaultRam ∧ bootRam ft c.item (some w.value) = c.defaultRam ↔
      c.StrLasts := by
  have hboot := bootRam_defStr_iff hstr hsize hw
  obtain ⟨rfl, -⟩ := defaultWrite_str hstr hw
  rw [Cell.defaultRam_str hstr, overlay_strncpyBuf, hboot]
  exact and_iff_right rfl

theorem reset_restores_blob (hblob : c.item.type = .blob) (hw : defaultWrite ft c = .ok w) :
    overlay w.image c.ram = c.defaultRam ∧ bootRam ft c.item (some w.value) = c.defaultRam ↔
      (c.item.defVal = .ram → c.defBlob = zeros c.defBlob.length) := by
  have hboot := bootRam_defBlob hblob hw
  obtain ⟨hvalue, -, himage⟩ := defaultWrite_blob hblob hw
  have hlen : w.image.length = c.ram.length := by
    rw [himage, c.ramLen]
    split_ifs
    · exact length_zeros _
    · exact length_fit _ _
  have hfull : overlay w.image c.ram = w.image := by
    rw [overlay_of_length_le (by rw [hlen]), List.take_of_length_le (by rw [hlen])]
  rw [Cell.defaultRam_blob hblob, hvalue, hboot, hfull, himage, and_iff_left rfl]
  split_ifs with hval
  · rw [forall_prop_of_true hval]
    constructor
    · intro h
      exact eq_zeros_of_fit h.symm (length_defBlob_le hval)
    · intro h
      rw [h, fit_zeros]
  · exact iff_of_true rfl fun h => absurd h hval

/-- The RAM and the next boot after a reset of one item. -/
theorem reset_restores_iff (hitem : itemOk c.item = true)
    (htype : c.item.type = .int ∨ c.item.type = .str ∨ c.item.type = .blob)
    (hw : defaultWrite ft c = .ok w) :
    overlay w.image c.ram = c.defaultRam ∧ bootRam ft c.item (some w.value) = c.defaultRam ↔
      DefaultLasts c := by
  simp only [itemOk, Bool.and_eq_true] at hitem
  unfold DefaultLasts
  rcases htype with hint | hstr | hblob
  · rw [reset_restores_int hint hw, hint]
  · simp only [hstr, Bool.and_eq_true, decide_eq_true_eq] at hitem
    rw [reset_restores_str hstr hitem.2.1 hw, hstr]
  · rw [reset_restores_blob hblob hw, hblob]

end Reset

/-! ## What FlashDB left -/

section Restored

variable {ft : FloatText} {c : Cell} {w : Write}

theorem fdbKvGet_some_iff {v t : Bytes} :
    fdbKvGet (some v) = some t ↔ Readable v ∧ t = v.take strKvValueMaxSize := by
  rw [fdbKvGet_some]
  split_ifs with h
  · rw [Option.some_inj, eq_comm]
    exact (and_iff_right h).symm
  · exact iff_of_false (by simp) fun hr => h hr.1

/-- A value under the key that reads as the default. -/
theorem readsDefault_some_iff (hlasts : DefaultLasts c) (v : Bytes) :
    ReadsDefault c (some v) ↔ OldReads c v := by
  unfold ReadsDefault OldReads
  unfold DefaultLasts at hlasts
  cases htype : c.item.type with
  | int =>
    simp only [fdbKvGet_some_iff]
    exact ⟨fun h hv x hx => h _ x ⟨hv, rfl⟩ hx, fun h t x ht hx => h ht.1 x (ht.2 ▸ hx)⟩
  | str =>
    simp only [fdbKvGet_some_iff]
    have hcut : Readable v → (strncpyBuf c.item.ramSize (v.take strKvValueMaxSize) =
        strncpyBuf c.item.ramSize c.defStr ↔ _) := fun hv =>
      strncpyBuf_eq_iff (zero_notMem_of_fdbIsStr hv.2) (zero_notMem_cstr _) _
    exact ⟨fun h hv => (hcut hv).mp (h _ ⟨hv, rfl⟩), fun h t ht => ht.2 ▸ (hcut ht.1).mpr (h ht.1)⟩
  | blob =>
    simp only [htype] at hlasts
    constructor
    · intro h hne
      obtain ⟨hfit, hdrop, -⟩ := h v rfl hne
      exact ⟨hfit, hdrop⟩
    · intro h b hb hne
      obtain rfl := Option.some.inj hb
      obtain ⟨hfit, hdrop⟩ := h hne
      exact ⟨hfit, hdrop, hlasts⟩
  | float | other => exact Iff.rfl

/-- The first bytes of a region, if there is no NUL among them, are those of its
C string. -/
theorem take_cstr {r : Bytes} {k : Nat} (h : (0 : UInt8) ∉ r.take k) :
    (cstr r).take k = r.take k := by
  conv_lhs => rw [← List.take_append_drop k r, cstr_append h]
  rcases Nat.lt_or_ge r.length k with hlt | hle
  · rw [List.drop_eq_nil_of_le hlt.le, show cstr ([] : Bytes) = [] from rfl, List.append_nil,
      List.take_take, Nat.min_self]
  · rw [List.take_append_of_le_length (by rw [List.length_take]; omega), List.take_take,
      Nat.min_self]

/-- What is read of the raw bytes of a string is the start of the string. -/
theorem take_rawDefault (hread : Readable c.rawDefault) :
    c.rawDefault.take strKvValueMaxSize =
      c.defStr.take (min c.rawDefault.length strKvValueMaxSize) := by
  have hnul := zero_notMem_of_fdbIsStr hread.2
  obtain ⟨raw, hraw⟩ : ∃ raw, (defNode c).value = some raw := by
    by_contra hnone
    have hvalue : (defNode c).value = none := by
      cases h : (defNode c).value with
      | none => rfl
      | some raw => exact absurd ⟨raw, h⟩ hnone
    exact hread.1 (by rw [Cell.rawDefault, hvalue]; rfl)
  have hself : c.rawDefault = raw := by rw [Cell.rawDefault, hraw]; rfl
  rw [hself] at hnul ⊢
  simp only [defNode] at hraw
  split_ifs at hraw with hzero
  · obtain ⟨r, hr, -, rfl⟩ := readStr_eq_some hraw
    rw [Cell.defStr, hr, Option.getD_some, ← List.take_take, List.take_take, Nat.min_comm,
      ← List.take_take, List.take_length]
  · obtain ⟨r, hr, hle, rfl⟩ := readBytes_eq_some hraw
    rw [List.take_take, Nat.min_comm] at hnul
    rw [Cell.defStr, hr, Option.getD_some, List.length_take_of_le hle, take_cstr hnul,
      List.take_take, Nat.min_comm]

theorem oldReads_raw_int (hint : c.item.type = .int) (hw : defaultWrite ft c = .ok w) :
    OldReads c c.rawDefault ↔ RawReads c := by
  simp only [OldReads, RawReads, hint]
  split_ifs with hfour
  · -- the raw bytes are those of the integer
    have hraw : c.rawDefault = le4 c.defInt := by
      simp only [defaultWrite, hint] at hw
      split at hw
      · rename_i d hd
        have hlen := readBytes_length hd
        obtain ⟨r, hr, -, rfl⟩ := readBytes_eq_some hd
        rw [Cell.rawDefault, defNode, hfour, if_neg (by decide), hd, Option.getD_some,
          Cell.defInt, hr, Option.getD_some, ← ofLe4_take, le4_ofLe4 hlen]
      · cases hw
    have htake : (le4 c.defInt).take strKvValueMaxSize = le4 c.defInt := rfl
    have hreadable : Readable (le4 c.defInt) ↔ fdbIsStr (le4 c.defInt) = true :=
      and_iff_right (by simp [le4])
    rw [hraw, hreadable, htake, LooksDecimal, Bool.and_eq_false_imp, Option.isSome_eq_false_iff,
      Option.isNone_iff_eq_none]
    constructor
    · intro h hprint
      cases hx : intFromStr (le4 c.defInt) with
      | none => rfl
      | some x => exact absurd (h hprint x hx) (intFromStr_raw_ne hprint hx)
    · intro h hprint x hx
      rw [h hprint] at hx
      cases hx
  · exact Iff.rfl

theorem oldReads_raw_str (hstr : c.item.type = .str) :
    OldReads c c.rawDefault ↔ RawReads c := by
  simp only [OldReads, RawReads, hstr]
  refine forall_congr' fun hread => ?_
  have hnul : (0 : UInt8) ∉ c.defStr := zero_notMem_cstr _
  rw [take_rawDefault hread, ← strncpyBuf_take_iff hnul,
    strncpyBuf_eq_iff (fun h => hnul (List.mem_of_mem_take h)) hnul]

/-- A string that is not empty does not show as zeros. -/
theorem fit_cstr_ne_zeros {n : Nat} (hn : 0 < n) {s : Bytes} (hs : cstr s ≠ []) :
    fit n (cstr s) ≠ zeros n := by
  intro h
  obtain ⟨b, rest, hb⟩ := List.exists_cons_of_ne_nil hs
  have hmem : b ∈ fit n (cstr s) := by
    rw [fit, hb]
    refine List.mem_append_left _ ?_
    rw [List.take_cons hn]
    exact List.mem_cons_self
  rw [h] at hmem
  have hzero : b = 0 := List.eq_of_mem_replicate hmem
  exact zero_notMem_cstr s (by rw [hb, hzero]; exact List.mem_cons_self)

/-- Without a size, the record is made from a C string. -/
theorem rawDefault_of_defSize_zero (hzero : c.item.defSize = 0) :
    ∃ s, c.rawDefault = cstr s := by
  rw [Cell.rawDefault, defNode, if_pos hzero]
  cases hs : readStr c.defRegion with
  | none => exact ⟨[], rfl⟩
  | some s =>
    obtain ⟨r, -, -, rfl⟩ := readStr_eq_some hs
    exact ⟨r, rfl⟩

theorem rawDefault_blob (hblob : c.item.type = .blob) (hsize : c.item.defSize ≠ 0)
    (hw : defaultWrite ft c = .ok w) : c.rawDefault = c.defBlob := by
  simp only [defaultWrite, hblob] at hw
  split at hw
  · rename_i d hd
    obtain ⟨r, hr, -, rfl⟩ := readBytes_eq_some hd
    rw [Cell.rawDefault, defNode, if_neg hsize, hd, Option.getD_some, Cell.defBlob, hr,
      Option.getD_some]
  · cases hw

theorem oldReads_raw_blob (hblob : c.item.type = .blob) (hsize : 0 < c.item.ramSize)
    (hw : defaultWrite ft c = .ok w) : OldReads c c.rawDefault ↔ RawReads c := by
  simp only [OldReads, RawReads, hblob]
  obtain ⟨hvalue, hlen, -⟩ := defaultWrite_blob hblob hw
  rw [hvalue] at hlen
  split_ifs with hzero
  · have hempty : c.defBlob = [] := List.eq_nil_of_length_eq_zero (hlen.trans hzero)
    rw [hempty]
    constructor
    · intro h
      by_contra hne
      obtain ⟨hfit, -⟩ := h hne
      obtain ⟨s, hs⟩ := rawDefault_of_defSize_zero hzero
      rw [hs] at hne hfit
      exact fit_cstr_ne_zeros hsize hne (hfit.trans (fit_zeros _ 0))
    · intro h hne
      exact absurd h hne
  · have hne : c.defBlob ≠ [] := by
      intro hnil
      rw [hnil] at hlen
      exact hzero hlen.symm
    rw [rawDefault_blob hblob hzero hw, forall_prop_of_true hne, hlen]
    exact and_iff_right rfl

theorem readsDefault_raw_iff (hitem : itemOk c.item = true)
    (htype : c.item.type = .int ∨ c.item.type = .str ∨ c.item.type = .blob)
    (hlasts : DefaultLasts c) (hw : defaultWrite ft c = .ok w) :
    ReadsDefault c (defNode c).value ↔ RawReads c := by
  have hraw : OldReads c c.rawDefault ↔ RawReads c := by
    simp only [itemOk, Bool.and_eq_true] at hitem
    rcases htype with hint | hstr | hblob
    · exact oldReads_raw_int hint hw
    · exact oldReads_raw_str hstr
    · simp only [hblob, Bool.and_eq_true, decide_eq_true_eq] at hitem
      exact oldReads_raw_blob hblob hitem.2.1 hw
  cases hvalue : (defNode c).value with
  | some raw =>
    have hself : c.rawDefault = raw := by rw [Cell.rawDefault, hvalue]; rfl
    rw [readsDefault_some_iff hlasts, ← hself, hraw]
  | none =>
    have hself : c.rawDefault = [] := by rw [Cell.rawDefault, hvalue]; rfl
    refine iff_of_true (readsDefault_none c) (hraw.mp ?_)
    rw [hself]
    unfold OldReads
    cases c.item.type with
    | int | str | blob => exact fun h => absurd rfl (by first | exact h.1 | exact h)
    | float | other => trivial

/-- What `fdb_kv_set_default` left under the key reads as the default. -/
theorem readsDefault_store_iff (hitem : itemOk c.item = true)
    (htype : c.item.type = .int ∨ c.item.type = .str ∨ c.item.type = .blob)
    (hlasts : DefaultLasts c) (hw : defaultWrite ft c = .ok w) (out : SetDefault)
    (old : Option Bytes) :
    ReadsDefault c (out.store c.key (defNode c).value old) ↔ RestoredReads c out old := by
  cases out with
  | formatted created =>
    simp only [SetDefault.store, RestoredReads]
    cases created c.key with
    | false => exact iff_of_true (readsDefault_none c) fun h => absurd h Bool.false_ne_true
    | true =>
      rw [if_pos rfl, forall_prop_of_true rfl]
      exact readsDefault_raw_iff hitem htype hlasts hw
  | formatFailed lost =>
    simp only [SetDefault.store, RestoredReads]
    cases lost c.key with
    | true => exact iff_of_true (readsDefault_none c) fun h => absurd h.symm Bool.false_ne_true
    | false =>
      rw [if_neg Bool.false_ne_true, forall_prop_of_true rfl]
      cases old with
      | none => exact iff_of_true (readsDefault_none c) fun v hv => absurd hv (by simp)
      | some v =>
        simp only [Option.some.injEq, forall_eq']
        exact readsDefault_some_iff hlasts v

end Restored

/-! ## `flash_param_reset_all` -/

/-- `flash_param_reset_all` against `flash_param_reset`, for one INT, STR or
BLOB item of any initialised manager and for every outcome of
`fdb_kv_set_default`.  If both return `0`, then they leave the same RAM bytes and
the same value for a later boot, and both are the default with a zeroed tail,
exactly when the default is one that `flash_param_reset` restores, and what
`fdb_kv_set_default` left under the key is as good as the default. -/
theorem reset_all_restores_iff (ft : FloatText) (mgr : ParamMgr) (out : SetDefault)
    (writeOk : String → Bool) (c : Cell) (hc : c ∈ mgr.cells)
    (htype : c.item.type = .int ∨ c.item.type = .str ∨ c.item.type = .blob)
    (hall : (flashParamResetAll ft mgr out writeOk).ret = .ok)
    (hreset : (flashParamReset ft mgr (some c.key) true).ret = .ok) :
    (((flashParamResetAll ft mgr out writeOk).mgr.ramOf c.key =
            (flashParamReset ft mgr (some c.key) true).mgr.ramOf c.key ∧
          bootRam ft c.item ((flashParamResetAll ft mgr out writeOk).mgr.kvdb c.key) =
            bootRam ft c.item ((flashParamReset ft mgr (some c.key) true).mgr.kvdb c.key)) ∧
        (flashParamResetAll ft mgr out writeOk).mgr.ramOf c.key = some c.defaultRam ∧
        bootRam ft c.item ((flashParamResetAll ft mgr out writeOk).mgr.kvdb c.key) =
          c.defaultRam) ↔
      DefaultLasts c ∧ RestoredReads c out (mgr.kvdb c.key) := by
  obtain ⟨hret, hram, hkv⟩ := flashParamResetAll_ok hall hc
  obtain ⟨w, hw, hram', hkv'⟩ := flashParamReset_ok hc hreset
  have hok : mgr.initOk = true := by
    by_contra hno
    simp [flashParamResetAll, Bool.eq_false_iff.2 hno] at hall
  have hitem := tableOk_itemOk (mgr.accepted hok) hc
  have hsync := sync_iff hitem htype hw hret
  have hrestores := reset_restores_iff hitem htype hw
  rw [hram, hram', hkv, hkv', Option.some_inj, Option.some_inj, ← hrestores]
  constructor
  · rintro ⟨⟨heq, hboot⟩, hdef, hdefBoot⟩
    have hlasts : _ ∧ _ := ⟨heq ▸ hdef, hboot ▸ hdefBoot⟩
    refine ⟨hlasts, ?_⟩
    rw [← readsDefault_store_iff hitem htype (hrestores.mp hlasts) hw]
    exact hsync.mp ⟨heq, hboot⟩
  · rintro ⟨hlasts, hreads⟩
    rw [← readsDefault_store_iff hitem htype (hrestores.mp hlasts) hw] at hreads
    obtain ⟨heq, hboot⟩ := hsync.mpr hreads
    exact ⟨⟨heq, hboot⟩, heq.trans hlasts.1, hboot.trans hlasts.2⟩

/-- A manager with one BLOB item whose default is shorter than its RAM, after
a `flash_param_set_blob` of five bytes. -/
def calMgr : ParamMgr :=
  (flashParamSetBlob
    (flashParamInit noFloat (.blank .blank []) .blank
      [(paramBlob "cal" (.region [1, 2, 3]) 3 8 .di).powerOn] false false allOk).mgr
    (some "cal") (some [7, 7, 7, 7, 7]) 5 true).mgr

/-- `flash_param_reset_all` keeps old bytes behind the default, although all
FlashDB calls succeed. -/
theorem reset_all_keeps_blob_tail :
    (flashParamResetAll noFloat calMgr (.formatted fun _ => true) fun _ => true).ret = .ok ∧
      (flashParamResetAll noFloat calMgr (.formatted fun _ => true) fun _ => true).mgr.ramOf
        "cal" = some [1, 2, 3, 7, 7, 0, 0, 0] ∧
      (flashParamReset noFloat calMgr (some "cal") true).ret = .ok ∧
      (flashParamReset noFloat calMgr (some "cal") true).mgr.ramOf "cal" =
        some [1, 2, 3, 0, 0, 0, 0, 0] := by
  decide

/-- When the record is missing afterwards, the default is written. -/
theorem reset_all_restores_missing :
    (flashParamResetAll noFloat calMgr (.formatted fun _ => false) fun _ => true).mgr.ramOf
        "cal" = (flashParamReset noFloat calMgr (some "cal") true).mgr.ramOf "cal" ∧
      (flashParamResetAll noFloat calMgr (.formatted fun _ => false) fun _ => true).mgr.ramOf
        "cal" = some [1, 2, 3, 0, 0, 0, 0, 0] := by
  have hiff := reset_all_restores_iff noFloat calMgr (.formatted fun _ => false) (fun _ => true)
    ⟨paramBlob "cal" (.region [1, 2, 3]) 3 8 .di, [7, 7, 7, 7, 7, 0, 0, 0], rfl⟩
    List.mem_cons_self (Or.inr (Or.inr rfl)) (by decide) (by decide)
  obtain ⟨⟨hsame, -⟩, hdefault, -⟩ := hiff.mpr
    ⟨fun hram => absurd hram (by simp [paramBlob]), fun h => absurd h Bool.false_ne_true⟩
  exact ⟨hsame, hdefault⟩

end Hc32Board.FlashParam
