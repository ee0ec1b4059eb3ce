import Hc32Board.FlashParam.Table

/-!
# Power cycles and string parameters

`powerCycle` clears the RAM of every item and runs `flash_param_init` again
on the database as it stands.  `powerCycle_ok` reads a successful power cycle
item by item: each item is synchronised from its own stored value.

A string parameter does not survive every power cycle.  `fdb_kv_get` returns
nothing for an empty value and for a value with a byte outside printable
ASCII among its first 128, and `_sync_one` then stores the default over it.
It also returns at most 128 bytes, which is less than a large RAM buffer
holds after `flash_param_set`.  `StrSurvives` is the set of strings that come
back.
-/

namespace Hc32Board.FlashParam

open Hc32Board.CodeLib

/-- Power off and on: RAM is cleared, the flash is kept, and
`flash_param_init` runs again with the same table and the same lock
functions. -/
def powerCycle (ft : FloatText) (mgr : ParamMgr) (env : InitEnv) : Outcome :=
  flashParamInit ft (.blank (.holds mgr.kvdb) []) (.holds mgr.kvdb)
    (mgr.cells.map fun c => c.item.powerOn) mgr.lock mgr.unlock env

/-- A set call of an item names the item's key. -/
theorem mem_syncOne_calls {ft : FloatText} {ok : Bool} {c : Cell} {stored : Option Bytes}
    {call : Call} (h : call ∈ (syncOne ft ok c stored).calls) :
    ∃ v b, call = .kvSet c.key v b := by
  unfold syncOne commit at h
  split at h
  · simp at h
  · split at h
    · simp at h
    · split_ifs at h <;> exact ⟨_, _, List.mem_singleton.1 h⟩

/-- A successful power cycle synchronises every item from its own stored
value. -/
theorem powerCycle_ok {ft : FloatText} {mgr : ParamMgr} {env : InitEnv}
    (h : (powerCycle ft mgr env).ret = .ok) {c : Cell} (hc : c ∈ mgr.cells) :
    let s := syncOne ft (env.writeOk c.key) c.item.powerOn (mgr.kvdb c.key)
    s.ret = .ok ∧
      (powerCycle ft mgr env).mgr.ramOf c.key = some (overlay s.image (zeros c.item.ramSize)) ∧
      (powerCycle ft mgr env).mgr.kvdb c.key = s.stored ∧
      ∀ v b, Call.kvSet c.key v b ∈ (powerCycle ft mgr env).calls ↔
        Call.kvSet c.key v b ∈ s.calls := by
  intro s
  obtain ⟨db, hb⟩ := flashParamInit_ok h
  have hmem : c.item.powerOn ∈ mgr.cells.map fun c => c.item.powerOn := List.mem_map_of_mem hc
  -- the flash is not blank, so the database is the one the manager left
  have hdb : db = mgr.kvdb := by
    have hopen := hb.opened
    unfold fdbKvdbInit at hopen
    split_ifs at hopen
    exact (Except.ok.inj hopen).symm
  subst hdb
  refine ⟨hb.sync _ hmem, hb.ramOf hmem, hb.kvdb_eq _ hmem, ?_⟩
  intro v b
  unfold powerCycle
  rw [hb.calls_eq, List.mem_flatMap]
  constructor
  · rintro ⟨d, hd, hcall⟩
    obtain ⟨v', b', heq⟩ := mem_syncOne_calls hcall
    have hkey : d.key = c.item.powerOn.key := (Call.kvSet.inj heq).1.symm
    have hsame : d = c.item.powerOn := by
      have h1 := find?_key_of_mem (keys_nodup hb.table) hd
      have h2 := find?_key_of_mem (keys_nodup hb.table) hmem
      rw [hkey, h2] at h1
      exact (Option.some.inj h1).symm
    subst hsame
    exact hcall
  · intro hcall
    exact ⟨_, hmem, hcall⟩

/-! ## Strings -/

/-- The strings that survive a power cycle in a RAM buffer of `ramSize`
bytes. -/
def StrSurvives (s : Bytes) (ramSize : Nat) : Prop :=
  s ≠ [] ∧ fdbIsStr (s.take strKvValueMaxSize) = true ∧
    (s.length ≤ strKvValueMaxSize ∨ ramSize ≤ strKvValueMaxSize + 1)

/-- The step of a successful `flash_param_set` of a string. -/
def strStep (c : Cell) (s : Bytes) : Step :=
  ⟨.ok, some s, strncpyBuf c.item.ramSize s, [.kvSet c.key s true]⟩

/-- A successful `flash_param_set` of a string stores the string and fills the
RAM buffer with it. -/
theorem flashParamSet_str_ok {ft : FloatText} {mgr : ParamMgr} {key : String} {c : Cell}
    {val : Bytes} {ok : Bool} (hc : mgr.findItem key = some c) (hstr : c.item.type = .str)
    (hset : (flashParamSet ft mgr (some key) (some val) ok).ret = .ok) :
    (flashParamSet ft mgr (some key) (some val) ok).mgr =
      mgr.putItem key (strStep c (cstr val)) := by
  rcases flashParamSet_cases ft mgr (some key) (some val) ok with
    hfail | ⟨k, v, d, hk, hv, -, hd, heq⟩
  · rw [hfail] at hset
    cases hset
  · cases hk
    cases hv
    obtain rfl : d = c := Option.some.inj (hd.symm.trans hc)
    rw [heq, onItem_ret] at hset
    rw [heq, onItem_mgr]
    have hstep : commit d (mgr.kvdb key) (setWrite ft d val) ok = strStep d (cstr val) := by
      simp only [setWrite, hstr, readStr, Option.bind_some] at hset ⊢
      split_ifs at hset ⊢
      · cases ok with
        | false => simp [commit] at hset
        | true => rfl
      · simp [commit] at hset
    rw [hstep]

theorem overlay_strncpyBuf (c : Cell) (s : Bytes) :
    overlay (strncpyBuf c.item.ramSize s) c.ram = strncpyBuf c.item.ramSize s := by
  rw [overlay_of_length_le (by rw [length_strncpyBuf, c.ramLen]), c.ramLen,
    List.take_of_length_le (by rw [length_strncpyBuf])]

/-- A default write that returns `0` has reached the database. -/
theorem commit_default_ok {ft : FloatText} {ok : Bool} {c : Cell} {stored : Option Bytes}
    (hret : (commit c stored (defaultWrite ft c) ok).ret = .ok) :
    ∃ w, defaultWrite ft c = .ok w ∧ ok = true ∧
      commit c stored (defaultWrite ft c) ok =
        ⟨.ok, some w.value, w.image, [.kvSet c.key w.value true]⟩ := by
  cases hw : defaultWrite ft c with
  | error r =>
    rw [hw] at hret
    obtain rfl : r = .ok := hret
    unfold defaultWrite at hw
    split at hw <;> (try split at hw) <;> simp at hw
  | ok w =>
    cases ok with
    | false => simp [hw, commit] at hret
    | true => exact ⟨w, rfl, rfl, rfl⟩

/-- A failed read with a successful return means that the default was
written. -/
theorem syncOne_wrote_default {ft : FloatText} {ok : Bool} {c : Cell} {stored : Option Bytes}
    (hread : dbRead ft c stored = none) (hret : (syncOne ft ok c stored).ret = .ok) :
    ∃ w, defaultWrite ft c = .ok w ∧ ok = true ∧
      syncOne ft ok c stored = ⟨.ok, some w.value, w.image, [.kvSet c.key w.value true]⟩ := by
  have hsync : syncOne ft ok c stored = commit c stored (defaultWrite ft c) ok := by
    rw [syncOne, hread]
  rw [hsync] at hret ⊢
  exact commit_default_ok hret

/-- Synchronising a string item from a stored string gives the bytes of a
fresh `flash_param_set`, and leaves the store alone, exactly for the strings
of `StrSurvives`. -/
theorem syncOne_str_iff {ft : FloatText} {ok : Bool} (c : Cell) {s : Bytes}
    (hstr : c.item.type = .str) (hnul : (0 : UInt8) ∉ s)
    (hret : (syncOne ft ok c (some s)).ret = .ok) :
    (overlay (syncOne ft ok c (some s)).image c.ram = strncpyBuf c.item.ramSize s ∧
      ∀ v b, Call.kvSet c.key v b ∉ (syncOne ft ok c (some s)).calls) ↔
      StrSurvives s c.item.ramSize := by
  have hread : dbRead ft c (some s) =
      (fdbKvGet (some s)).map (strncpyBuf c.item.ramSize) := by
    simp only [dbRead, hstr]
  unfold StrSurvives
  by_cases hgood : s ≠ [] ∧ fdbIsStr (s.take strKvValueMaxSize) = true
  · have hsync : syncOne ft ok c (some s) =
        ⟨.ok, some s, strncpyBuf c.item.ramSize (s.take strKvValueMaxSize), []⟩ := by
      rw [syncOne, hread, fdbKvGet_some, if_pos hgood]
      rfl
    rw [hsync, overlay_strncpyBuf, strncpyBuf_take_iff hnul]
    simp [hgood.1, hgood.2]
  · -- the read fails, so a successful `_sync_one` has written the default
    rw [fdbKvGet_some, if_neg hgood] at hread
    obtain ⟨w, -, -, hsync⟩ := syncOne_wrote_default hread hret
    constructor
    · rintro ⟨-, hnone⟩
      rw [hsync] at hnone
      exact absurd List.mem_cons_self (hnone w.value true)
    · rintro ⟨hne, hprint, -⟩
      exact absurd ⟨hne, hprint⟩ hgood

/-- A string parameter after `flash_param_set` and a power cycle.  Right after
the set the RAM buffer holds the string, cut to `ram_size - 1` bytes and
padded with zeros.  The power cycle restores these bytes and writes nothing
over the stored string exactly when the string is in `StrSurvives`. -/
theorem str_power_cycle_iff (ft : FloatText) (mgr : ParamMgr) (key : String) (c : Cell)
    (val : Bytes) (ok : Bool) (env : InitEnv) (hc : mgr.findItem key = some c)
    (hstr : c.item.type = .str)
    (hset : (flashParamSet ft mgr (some key) (some val) ok).ret = .ok)
    (hinit : (powerCycle ft (flashParamSet ft mgr (some key) (some val) ok).mgr env).ret = .ok) :
    (flashParamSet ft mgr (some key) (some val) ok).mgr.ramOf key =
        some (fit c.item.ramSize ((cstr val).take (c.item.ramSize - 1))) ∧
      (((powerCycle ft (flashParamSet ft mgr (some key) (some val) ok).mgr env).mgr.ramOf key =
            (flashParamSet ft mgr (some key) (some val) ok).mgr.ramOf key ∧
          ∀ v b, Call.kvSet key v b ∉
            (powerCycle ft (flashParamSet ft mgr (some key) (some val) ok).mgr env).calls) ↔
        StrSurvives (cstr val) c.item.ramSize) := by
  obtain ⟨hmem, rfl⟩ := findItem_eq_some hc
  rw [flashParamSet_str_ok hc hstr hset] at hinit ⊢
  -- the item after the set
  have hfind : (mgr.putItem c.key (strStep c (cstr val))).findItem c.key =
      some (c.memcpy (strncpyBuf c.item.ramSize (cstr val))) := by
    rw [findItem_putItem, hc]
    simp [strStep]
  have hram : (mgr.putItem c.key (strStep c (cstr val))).ramOf c.key =
      some (strncpyBuf c.item.ramSize (cstr val)) := by
    rw [ParamMgr.ramOf, hfind, Option.map_some, Cell.memcpy_ram, overlay_strncpyBuf]
  -- the power cycle reads the string back from its key
  obtain ⟨hret, hram', -, hcalls⟩ := powerCycle_ok hinit (findItem_eq_some hfind).1
  rw [putItem_kvdb, Cell.memcpy_key, Function.update_self] at hret hram' hcalls
  refine ⟨by rw [hram, strncpyBuf_of_no_nul (zero_notMem_cstr val)], ?_⟩
  rw [hram, hram', Option.some_inj]
  refine Iff.trans ?_ (syncOne_str_iff c.item.powerOn hstr (zero_notMem_cstr val) hret)
  constructor
  · rintro ⟨hbytes, hnone⟩
    exact ⟨hbytes, fun v b hin => hnone v b ((hcalls v b).2 hin)⟩
  · rintro ⟨hbytes, hnone⟩
    exact ⟨hbytes, fun v b hin => hnone v b ((hcalls v b).1 hin)⟩

/-! ## A one-item manager -/

/-- Every FlashDB call and every allocation succeeds. -/
def allOk : InitEnv := ⟨true, true, .formatted fun _ => true, fun _ => true⟩

/-- Float conversions for tables without a FLOAT item. -/
def noFloat : FloatText := ⟨fun _ => [], fun _ => none⟩

/-- A manager with one string item, after its first boot. -/
def nameMgr : ParamMgr :=
  (flashParamInit noFloat (.blank .blank []) .blank
    [(paramStr "name" (ascii "dev") 8 .system).powerOn] false false allOk).mgr

/-- The empty string is stored and accepted, and the next boot replaces it by
the default. -/
theorem empty_string_lost :
    (flashParamSet noFloat nameMgr (some "name") (some [0]) true).ret = .ok ∧
      (powerCycle noFloat (flashParamSet noFloat nameMgr (some "name") (some [0]) true).mgr
        allOk).ret = .ok ∧
      (flashParamSet noFloat nameMgr (some "name") (some [0]) true).mgr.ramOf "name" =
        some (zeros 8) ∧
      (powerCycle noFloat (flashParamSet noFloat nameMgr (some "name") (some [0]) true).mgr
        allOk).mgr.ramOf "name" = some (fit 8 (ascii "dev")) ∧
      Call.kvSet "name" (ascii "dev") true ∈ (powerCycle noFloat
        (flashParamSet noFloat nameMgr (some "name") (some [0]) true).mgr allOk).calls := by
  decide

theorem str_power_cycle_pump :
    (powerCycle noFloat
        (flashParamSet noFloat nameMgr (some "name") (some (ascii "pump" ++ [0])) true).mgr
        allOk).mgr.ramOf "name" =
      (flashParamSet noFloat nameMgr (some "name") (some (ascii "pump" ++ [0])) true).mgr.ramOf
        "name" := by
  have h := str_power_cycle_iff noFloat nameMgr "name"
    ((paramStr "name" (ascii "dev") 8 .system).powerOn.memcpy (fit 8 (ascii "dev")))
    (ascii "pump" ++ [0]) true allOk rfl rfl (by decide) (by decide)
  exact (h.2.2 ⟨by decide, by decide, Or.inl (by decide)⟩).1

end Hc32Board.FlashParam
