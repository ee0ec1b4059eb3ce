import Hc32Board.FlashParam.Defaults

/-!
# First boot

On blank flash `fdb_kvdb_init` stores the raw bytes of every default, and
`flash_param_init` then synchronises each item from them.  A STR or BLOB
default comes back as it is.  The four raw bytes of an INT default are read
as decimal text.  Nearly always the read fails and the default is used, but
the bytes of some integers are decimal text (`LooksDecimal`), and then the
item gets the number they spell, which is never the default itself
(`intFromStr_raw_ne`).
-/

namespace Hc32Board.FlashParam

open Hc32Board.CodeLib

/-- An item from a macro with a default as the first boot expects it: a STR
default that is a printable string of 1 to 128 characters, or a BLOB default
of at least one byte. -/
inductive Bootable : ParamItem → Prop where
  | int (key : String) (d : BitVec 32) (n : Nat) (g : ParamGroup) : Bootable (paramInt key d n g)
  | float (key : String) (d : BitVec 32) (n : Nat) (g : ParamGroup) :
      Bootable (paramFloat key d n g)
  | str (key : String) (s : Bytes) (n : Nat) (g : ParamGroup) (hne : s ≠ [])
      (hlen : s.length ≤ strKvValueMaxSize) (hprint : fdbIsStr s = true) :
      Bootable (paramStr key s n g)
  | blob (key : String) (bs : Bytes) (defSz n : Nat) (g : ParamGroup) (h : defSz ≤ bs.length)
      (hpos : 0 < defSz) : Bootable (paramBlob key (.region bs) defSz n g)

theorem Bootable.fromMacro {it : ParamItem} (h : Bootable it) : FromMacro it := by
  cases h with
  | int key d n g => exact .int ..
  | float key d n g => exact .float ..
  | str key s n g => exact .str ..
  | blob key bs defSz n g h => exact .blob _ _ _ _ _ h

/-- The RAM of an item that holds its default. -/
def ParamItem.defaultRam (it : ParamItem) : Bytes := it.powerOn.defaultRam

/-- The four bytes of the integer are printable and spell a decimal number. -/
def LooksDecimal (d : BitVec 32) : Bool :=
  fdbIsStr (le4 d) && (intFromStr (le4 d)).isSome

/-- The number that the bytes of an integer spell is small, and the integer
itself is not. -/
theorem intFromStr_raw_ne {d x : BitVec 32} (hprint : fdbIsStr (le4 d) = true)
    (h : intFromStr (le4 d) = some x) : x ≠ d := by
  rintro rfl
  unfold intFromStr at h
  split at h
  · rename_i v hv
    have habs : v.natAbs < 10 ^ 4 := strtol_natAbs_lt hv
    split_ifs at h
    have hx := congrArg BitVec.toNat (Option.some.inj h)
    rw [BitVec.toNat_ofInt] at hx
    -- the highest byte is printable
    have htop : isPrint (UInt8.ofNat (x.toNat / 2 ^ 24)) = true :=
      (fdbIsStr_iff _).1 hprint _ (by simp [le4])
    simp only [isPrint, Bool.and_eq_true, decide_eq_true_eq, UInt8.le_iff_toNat_le,
      UInt8.lt_iff_toNat_lt, UInt8.toNat_ofNat'] at htop
    have h32 : (32 : UInt8).toNat = 32 := rfl
    have h127 : (127 : UInt8).toNat = 127 := rfl
    have hlt := x.isLt
    omega
  · cases h

/-! ## One item -/

/-- The record that FlashDB creates for an item on blank flash, if it creates
it. -/
theorem defNode_reads {it : ParamItem} (h : Bootable it)
    (hint : it.type = .int → LooksDecimal it.powerOn.defInt = false) :
    ReadsDefault it.powerOn (defNode it.powerOn).value := by
  cases h with
  | int key d n g =>
    have hdef : (paramInt key d n g).powerOn.defInt = d := ofLe4_le4 d
    have hnode : (defNode (paramInt key d n g).powerOn).value = some (le4 d) := rfl
    have hlook := hint rfl
    rw [hdef] at hlook
    show ∀ t x, fdbKvGet _ = some t → intFromStr t = some x → x = _
    intro t x ht hx
    rw [hnode] at ht
    obtain ⟨v, hv, -, hprint, htake⟩ := fdbKvGet_eq_some ht
    cases hv
    have ht' : t = le4 d := htake
    subst ht'
    simp [LooksDecimal, hprint, hx] at hlook
  | float key d n g => exact trivial
  | str key s n g hne hlen hprint =>
    have hnul := zero_notMem_of_fdbIsStr hprint
    have hdef : (paramStr key s n g).powerOn.defStr = s := cstr_append_zeros hnul 1
    have hnode : (defNode (paramStr key s n g).powerOn).value = some s := by
      have hlen0 : s.length ≠ 0 := by simpa using hne
      simp [defNode, paramStr, ParamItem.powerOn, Cell.defRegion, readBytes, hlen0]
    show ∀ t, fdbKvGet _ = some t → strncpyBuf _ t = strncpyBuf _ _
    intro t ht
    rw [hnode, fdbKvGet_of_printable hne hlen hprint] at ht
    rw [hdef, Option.some.inj ht]
  | blob key bs defSz n g h hpos =>
    have hdef : (paramBlob key (.region bs) defSz n g).powerOn.defBlob = bs.take defSz := rfl
    have hnode : (defNode (paramBlob key (.region bs) defSz n g).powerOn).value =
        some (bs.take defSz) := by
      have hpos' : defSz ≠ 0 := by omega
      simp [defNode, paramBlob, ParamItem.powerOn, Cell.defRegion, readBytes, hpos', h]
    intro b hb _
    rw [hnode] at hb
    cases hb
    refine ⟨by rw [hdef], ?_, ?_⟩
    · show (zeros n).drop _ = _
      rw [zeros, List.drop_replicate]
      rfl
    · intro hram
      cases hram

/-- The default write of an item on cleared RAM gives the default RAM. -/
theorem overlay_defaultWrite {ft : FloatText} {it : ParamItem} (hm : FromMacro it)
    (htype : it.type = .int ∨ it.type = .str ∨ it.type = .blob) {w : Write}
    (hw : defaultWrite ft it.powerOn = .ok w) :
    overlay w.image (zeros it.ramSize) = it.defaultRam := by
  unfold ParamItem.defaultRam
  rcases htype with hint | hstr | hblob
  · rw [Cell.defaultRam_int hint, defaultWrite_int hint hw]
    rfl
  · rw [Cell.defaultRam_str hstr, (defaultWrite_str hstr hw).1]
    exact overlay_strncpyBuf it.powerOn _
  · rw [Cell.defaultRam_blob hblob]
    have hregion : it.powerOn.item.defVal ≠ .ram := by
      cases hm with
      | int | float | str | blob =>
        simp [ParamItem.powerOn, paramInt, paramFloat, paramStr, paramBlob]
    rw [(defaultWrite_blob hblob hw).2.2, if_neg hregion]
    show overlay (fit it.ramSize _) _ = fit it.ramSize _
    rw [overlay_zeros, fit_of_length_eq (length_fit _ _)]

theorem readsDefault_none (c : Cell) : ReadsDefault c none := by
  unfold ReadsDefault
  split
  · intro t x ht
    simp at ht
  · intro t ht
    simp at ht
  · intro b hb
    cases hb
  · trivial

/-- A raw INT default that looks decimal is read as another number. -/
theorem dbRead_raw_int (ft : FloatText) {it : ParamItem} (h : Bootable it)
    (hint : it.type = .int) (hlook : LooksDecimal it.powerOn.defInt = true) :
    ∃ x, x ≠ it.powerOn.defInt ∧
      dbRead ft it.powerOn (defNode it.powerOn).value = some (le4 x) := by
  cases h with
  | int key d n g =>
    have hdef : (paramInt key d n g).powerOn.defInt = d := ofLe4_le4 d
    have hnode : (defNode (paramInt key d n g).powerOn).value = some (le4 d) := rfl
    rw [hdef] at hlook ⊢
    simp only [LooksDecimal, Bool.and_eq_true] at hlook
    obtain ⟨hprint, hsome⟩ := hlook
    obtain ⟨x, hx⟩ := Option.isSome_iff_exists.1 hsome
    refine ⟨x, intFromStr_raw_ne hprint hx, ?_⟩
    have hget : fdbKvGet (some (le4 d)) = some (le4 d) :=
      fdbKvGet_of_printable (by simp [le4]) (by simp [strKvValueMaxSize]) hprint
    rw [hnode]
    show ((fdbKvGet (some (le4 d))).bind intFromStr).map le4 = _
    rw [hget, Option.bind_some, hx, Option.map_some]
  | float | str | blob => cases hint

/-! ## The table -/

/-- The default records that a call of `fdb_kv_set_default` created. -/
def SetDefault.creates : SetDefault → String → Bool
  | .formatted created => created
  | .formatFailed _ => fun _ => false

/-- The database that `flash_param_init` opens on blank flash. -/
theorem blank_opened {cells : List Cell} {env : InitEnv} {db : Fdb}
    (hnd : (cells.map Cell.key).Nodup)
    (h : fdbKvdbInit .blank (cells.map defNode) env = .ok db) {c : Cell} (hc : c ∈ cells) :
    db c.key = if env.setDefault.creates c.key then (defNode c).value else none := by
  unfold fdbKvdbInit at h
  split_ifs at h
  cases hset : fdbKvSetDefault (fun _ => none) (cells.map defNode) env.setDefault with
  | none => simp [hset] at h
  | some db' =>
    simp only [hset, Except.ok.injEq] at h
    subst h
    rw [fdbKvSetDefault_key hnd hset hc]
    cases env.setDefault with
    | formatted created => rfl
    | formatFailed lost =>
      show (if lost c.key then none else none) = none
      split_ifs <;> rfl

/-- First boot, for every table from the macros and every outcome of the
default records.  If `flash_param_init` returns `0`, every INT, STR and BLOB
item holds its default exactly when no INT default that FlashDB stored looks
decimal. -/
theorem first_boot_defaults_iff (ft : FloatText) (items : List ParamItem)
    (hboot : ∀ it ∈ items, Bootable it) (mgr : ParamMgr) (lock unlock : Bool) (env : InitEnv)
    (hinit : (flashParamInit ft mgr .blank (items.map (·.powerOn)) lock unlock env).ret = .ok) :
    (∀ it ∈ items, it.type = .int ∨ it.type = .str ∨ it.type = .blob →
        (flashParamInit ft mgr .blank (items.map (·.powerOn)) lock unlock env).mgr.ramOf
          it.powerOn.key = some it.defaultRam) ↔
      ∀ it ∈ items, it.type = .int → env.setDefault.creates it.powerOn.key = true →
        LooksDecimal it.powerOn.defInt = false := by
  obtain ⟨db, hb⟩ := flashParamInit_ok hinit
  have hnd := keys_nodup hb.table
  have hin : ∀ it ∈ items, it.powerOn ∈ items.map (·.powerOn) := fun it hit =>
    List.mem_map_of_mem hit
  constructor
  · intro hall it hit hint hcreated
    by_contra hlook
    obtain ⟨x, hne, hread⟩ := dbRead_raw_int ft (hboot it hit) hint (by simpa using hlook)
    have hdb := blank_opened hnd hb.opened (hin it hit)
    rw [if_pos hcreated] at hdb
    have h := hall it hit (Or.inl hint)
    rw [hb.ramOf (hin it hit), hdb, syncOne_of_read hread, Option.some_inj] at h
    rw [ParamItem.defaultRam, Cell.defaultRam_int hint] at h
    have hsize : 4 ≤ it.powerOn.item.ramSize := by
      have hitem := tableOk_itemOk hb.table (hin it hit)
      have hint' : it.powerOn.item.type = .int := hint
      simp only [itemOk, hint', Bool.and_eq_true, decide_eq_true_eq] at hitem
      exact hitem.2
    exact hne ((overlay_le4_inj hsize).1 h)
  · intro hcond it hit htype
    have hm := (hboot it hit).fromMacro
    have hpow : FromMacro it.powerOn.item := hm
    obtain ⟨w, hw⟩ := hpow.defaultWrite_ok ft
    have hreads : ReadsDefault it.powerOn (db it.powerOn.key) := by
      rw [blank_opened hnd hb.opened (hin it hit)]
      split_ifs with hcreated
      · exact defNode_reads (hboot it hit) fun hint => hcond it hit hint hcreated
      · exact readsDefault_none _
    have hsame := (sync_iff (tableOk_itemOk hb.table (hin it hit)) htype hw
      (hb.sync _ (hin it hit))).2 hreads
    rw [hb.ramOf (hin it hit), ← overlay_defaultWrite hm htype hw]
    exact congrArg some hsame.1

/-- The default `0x31313131` becomes `1111` at the first boot. -/
theorem first_boot_1111 :
    (flashParamInit noFloat (.blank .blank []) .blank
        [(paramInt "mask" 0x31313131 4 .system).powerOn] false false allOk).ret = .ok ∧
      (flashParamInit noFloat (.blank .blank []) .blank
        [(paramInt "mask" 0x31313131 4 .system).powerOn] false false allOk).mgr.ramOf "mask" =
        some (le4 1111) := by
  decide

theorem first_boot_baud :
    (flashParamInit noFloat (.blank .blank []) .blank
        [(paramInt "baud" 115200 4 .comm).powerOn] false false allOk).mgr.ramOf "baud" =
      some (le4 115200) := by
  refine (first_boot_defaults_iff noFloat [paramInt "baud" 115200 4 .comm] ?_ (.blank .blank [])
    false false allOk (by decide)).2 ?_ _ List.mem_cons_self (Or.inl rfl)
  · intro it hit
    rw [List.mem_singleton.1 hit]
    exact .int ..
  · intro it hit _ _
    rw [List.mem_singleton.1 hit]
    decide

end Hc32Board.FlashParam
