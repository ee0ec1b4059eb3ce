import Hc32Board.FlashParam.AppTable
import Hc32Board.FlashParam.ItemRegions
import Hc32Board.FlashParam.Lifecycle

/-!
# What the checks of `flash_param_init` are good for

A run initialises the manager with a table, any number of times and on any flash
content, and calls the functions of the manager in any order.  `InRegions` says
that a call stays inside the regions of the table.

* `apiCall_safe`: on a table of `Good` items no call faults, from any state that
  `TableInv` allows.
* `exists_init_fault`: a default that cannot be read is read by
  `flash_param_init`, on blank flash or on a database without the key.

`regions_safe_iff`: every run on an accepted table stays inside its regions,
exactly if every default can be read.
-/

namespace Hc32Board.FlashParam

open Hc32Board.CodeLib

/-! ## Calls on a table -/

/-- A call reads and writes inside the regions of the table.  The print functions
read the RAM of a STR item as a C string. -/
def InRegions (ft : FloatText) (mgr : ParamMgr) (op : ApiOp) : Prop :=
  (apiCall ft mgr op).ret ≠ .fault ∧
    ∀ c ∈ (apiCall ft mgr op).mgr.cells, RamInside ft c ∧
      ((apiCall ft mgr op).mgr.initOk = true → c.item.type = .str → 0 ∈ c.ram)

/-- A call on this table, with arguments that C can read. -/
def OnTable (items : List ParamItem) : ApiOp → Prop
  | .init _ cells _ _ _ => itemsOf cells = items ∧ ∀ c ∈ cells, RamString c
  | .param (.write (.set key val _)) => ∀ it ∈ items, ∀ region, it.key = key →
    val = some region → (it.normalForm region).isSome = true
  | .param (.write (.setBlob _ val valLen _)) => ∀ region, val = some region →
    valLen ≤ region.length
  | .param (.get _ buf size) => ∀ region n, buf = some region → size = some n →
    n ≤ region.length
  | _ => True

/-- The manager after a call. -/
def apiStep (ft : FloatText) (mgr : ParamMgr) (op : ApiOp) : ParamMgr := (apiCall ft mgr op).mgr

/-! ## Loops over the table -/

section Loops

variable {stop : Bool} {f : Cell → Option Bytes → Step}

theorem andThen_ne_fault {a b : Ret} (ha : a ≠ .fault) (hb : b ≠ .fault) :
    a.andThen b ≠ .fault := by
  cases a <;> cases b <;> simp_all [Ret.andThen]

theorem forItems_ne_fault {cells : List Cell}
    (h : ∀ c ∈ cells, ∀ stored, (f c stored).ret ≠ .fault) :
    ∀ db : Fdb, (forItems stop f db cells).ret ≠ .fault := by
  induction cells with
  | nil => exact fun db => by simp [forItems]
  | cons c cs ih =>
    intro db
    rw [forItems]
    dsimp only
    split_ifs
    · exact h c List.mem_cons_self _
    · exact andThen_ne_fault (h c List.mem_cons_self _)
        (ih (fun d hd => h d (List.mem_cons_of_mem c hd)) _)

/-- What every step of an item keeps, a loop over the table keeps. -/
theorem forItems_keeps {P : Cell → Prop} {cells : List Cell}
    (h : ∀ c ∈ cells, ∀ stored, P c → P (c.memcpy (f c stored).image)) :
    ∀ db : Fdb, (∀ c ∈ cells, P c) → ∀ c ∈ (forItems stop f db cells).cells, P c := by
  induction cells with
  | nil => exact fun _ hP => hP
  | cons c cs ih =>
    intro db hP d hd
    rw [forItems] at hd
    dsimp only at hd
    have hfirst := h c List.mem_cons_self (db c.key) (hP c List.mem_cons_self)
    split_ifs at hd
    · rcases List.mem_cons.mp hd with rfl | hd
      · exact hfirst
      · exact hP d (List.mem_cons_of_mem c hd)
    · rcases List.mem_cons.mp hd with rfl | hd
      · exact hfirst
      · exact ih (fun e he => h e (List.mem_cons_of_mem c he)) _
          (fun e he => hP e (List.mem_cons_of_mem c he)) d hd

/-- If no item fails and one faults, the loop faults. -/
theorem forItems_fault {cells : List Cell} : ∀ db : Fdb, (cells.map Cell.key).Nodup →
    (∀ c ∈ cells, (f c (db c.key)).ret ≠ .fail) →
    (∃ c ∈ cells, (f c (db c.key)).ret = .fault) → (forItems stop f db cells).ret = .fault := by
  induction cells with
  | nil => exact fun _ _ _ ⟨c, hc, _⟩ => absurd hc List.not_mem_nil
  | cons c cs ih =>
    intro db hnd hfail hfault
    rw [forItems]
    dsimp only
    by_cases hc : (f c (db c.key)).ret = .fault
    · rw [if_pos (.inl hc)]
      exact hc
    · have hgo : GoesOn stop (f c (db c.key)).ret := by
        rintro (h | ⟨-, h⟩)
        · exact hc h
        · exact hfail c List.mem_cons_self h
      -- the first item changes its own key only, so the others see `db`
      have hother : ∀ d ∈ cs,
          Function.update db c.key (f c (db c.key)).stored d.key = db d.key := fun d hd =>
        Function.update_of_ne (key_ne_of_nodup hnd hd) _ _
      have hrest : (forItems stop f (Function.update db c.key (f c (db c.key)).stored) cs).ret =
          .fault := by
        refine ih _ (List.nodup_cons.mp hnd).2 (fun d hd => ?_) ?_
        · rw [hother d hd]
          exact hfail d (List.mem_cons_of_mem c hd)
        · obtain ⟨d, hd, hdf⟩ := hfault
          rcases List.mem_cons.mp hd with rfl | hd
          · exact absurd hdf hc
          · exact ⟨d, hd, by rw [hother d hd]; exact hdf⟩
      rw [if_neg hgo]
      show (f c (db c.key)).ret.andThen _ = .fault
      rw [hrest]
      cases (f c (db c.key)).ret <;> rfl

end Loops

/-! ## Runs -/

/-- The manager has no table yet, or this one.  An initialised manager has
strings in the RAM of its STR items. -/
structure TableInv (items : List ParamItem) (mgr : ParamMgr) : Prop where
  table : mgr.cells = [] ∨ itemsOf mgr.cells = items
  opened : mgr.initOk = true → itemsOf mgr.cells = items
  strings : mgr.initOk = true → ∀ c ∈ mgr.cells, Terminated c

section Runs

variable {ft : FloatText} {items : List ParamItem} {mgr : ParamMgr}

/-- A manager that is down has nothing to keep but its table. -/
theorem TableInv.of_down (hdown : mgr.initOk = false)
    (htable : mgr.cells = [] ∨ itemsOf mgr.cells = items) : TableInv items mgr where
  table := htable
  opened := fun hopen => absurd hopen (by simp [hdown])
  strings := fun hopen => absurd hopen (by simp [hdown])

theorem good_of_mem (hgood : ∀ it ∈ items, Good it) {cells : List Cell}
    (htable : itemsOf cells = items) {c : Cell} (hc : c ∈ cells) : Good c.item :=
  hgood c.item (htable ▸ List.mem_map_of_mem hc)

/-- The records of the defaults can be read. -/
theorem defNodes_readable (hgood : ∀ it ∈ items, Good it) {cells : List Cell}
    (htable : itemsOf cells = items) (hram : ∀ c ∈ cells, RamString c) (db : Fdb)
    (out : SetDefault) : ∃ db', fdbKvSetDefault db (cells.map defNode) out = some db' := by
  have hall : (cells.map defNode).all (·.value.isSome) = true := by
    rw [List.all_map, List.all_eq_true]
    exact fun c hc => (good_of_mem hgood htable hc).defNode (hram c hc)
  cases out with
  | formatted created => exact ⟨_, if_pos hall⟩
  | formatFailed lost => exact ⟨_, rfl⟩

theorem TableInv.ramString (h : TableInv items mgr) (hok : mgr.initOk = true) {c : Cell}
    (hc : c ∈ mgr.cells) : RamString c :=
  fun _ => h.strings hok c hc

/-- An operation on one item keeps the invariant. -/
theorem TableInv.putItem (h : TableInv items mgr) {key : String} {s : Step}
    (hs : ∀ c ∈ mgr.cells, c.key = key → Terminated c → Terminated (c.memcpy s.image)) :
    TableInv items (mgr.putItem key s) where
  table := by
    rcases h.table with hnil | htable
    · exact .inl (List.map_eq_nil_iff.mpr hnil)
    · exact .inr ((itemsOf_map_memcpy _ _ _).trans htable)
  opened := fun hok => (itemsOf_map_memcpy _ _ _).trans (h.opened hok)
  strings := fun hok c hc => by
    obtain ⟨d, hd, rfl⟩ := List.mem_map.mp hc
    have hold := h.strings hok d hd
    split_ifs with hkey
    · exact hs d hd hkey hold
    · exact hold

/-- A loop over the table keeps the invariant. -/
theorem TableInv.putLoop (h : TableInv items mgr) {f : Cell → Option Bytes → Step} {db : Fdb}
    (hs : ∀ c ∈ mgr.cells, ∀ stored, Terminated c → Terminated (c.memcpy (f c stored).image)) :
    TableInv items (mgr.putLoop (forItems false f db mgr.cells) (itemsOf_forItems ..)) where
  table := by
    rcases h.table with hnil | htable
    · exact .inl (by show (forItems false f db mgr.cells).cells = []; rw [hnil]; rfl)
    · exact .inr ((itemsOf_forItems ..).trans htable)
  opened := fun hok => (itemsOf_forItems ..).trans (h.opened hok)
  strings := fun hok => forItems_keeps hs db (h.strings hok)

theorem onItem_safe (hgood : ∀ it ∈ items, Good it) (h : TableInv items mgr)
    (hok : mgr.initOk = true) {key : String} {c : Cell} (hfind : mgr.findItem key = some c)
    {f : Cell → Option Bytes → Step} (hret : (f c (mgr.kvdb key)).ret ≠ .fault)
    (himage : StrImage c (f c (mgr.kvdb key)).image) :
    (mgr.onItem key c f).ret ≠ .fault ∧ TableInv items (mgr.onItem key c f).mgr := by
  obtain ⟨hc, hkey⟩ := findItem_eq_some hfind
  refine ⟨hret, h.putItem fun d hd hdkey hold => ?_⟩
  have heq : some d = some c := by rw [← findItem_of_mem hok hd, hdkey, hfind]
  obtain rfl := Option.some.inj heq
  exact hold.memcpy (good_of_mem hgood (h.opened hok) hd).ok himage

/-- A value that the type of the item can read is written. -/
theorem setWrite_readable (ft : FloatText) {c : Cell} {val : Bytes}
    (h : (c.item.normalForm val).isSome = true) : ∃ w, setWrite ft c val = .ok w := by
  rw [← setWrite_image ft] at h
  cases hw : setWrite ft c val with
  | error r =>
    rw [hw] at h
    exact absurd h (by simp [imageOf, Except.toOption])
  | ok w => exact ⟨w, rfl⟩

section Writes

variable (hgood : ∀ it ∈ items, Good it) (h : TableInv items mgr)
include hgood h

theorem set_safe (ft : FloatText) {key : Option String} {val : Option Bytes} (ok : Bool)
    (hop : OnTable items (.param (.write (.set key val ok)))) :
    (flashParamSet ft mgr key val ok).ret ≠ .fault ∧
      TableInv items (flashParamSet ft mgr key val ok).mgr := by
  rcases flashParamSet_cases ft mgr key val ok with
    hrefused | ⟨k, v, c, rfl, rfl, hok, hfind, heq⟩
  · rw [hrefused]
    exact ⟨by simp, h⟩
  · obtain ⟨hc, hkey⟩ := findItem_eq_some hfind
    have hitem : c.item ∈ items := h.opened hok ▸ List.mem_map_of_mem hc
    have hw := setWrite_readable ft
      (hop c.item hitem v (by rw [itemOk_key (hgood _ hitem).ok, hkey]) rfl)
    rw [heq]
    exact onItem_safe hgood h hok hfind (commit_ne_fault hw)
      (commit_strImage fun w hw htype => .inr (setWrite_string hw htype))

theorem setBlob_safe {key : Option String} {val : Option Bytes} {valLen : Nat} (ok : Bool)
    (hop : OnTable items (.param (.write (.setBlob key val valLen ok)))) :
    (flashParamSetBlob mgr key val valLen ok).ret ≠ .fault ∧
      TableInv items (flashParamSetBlob mgr key val valLen ok).mgr := by
  rcases flashParamSetBlob_cases mgr key val valLen ok with
    hrefused | ⟨k, v, c, rfl, rfl, -, -, hblob, hok, hfind, heq⟩
  · rw [hrefused]
    exact ⟨by simp, h⟩
  · have hw : ∃ w, setBlobWrite c v valLen = .ok w := by
      rw [setBlobWrite, readBytes_of_le (hop v rfl)]
      exact ⟨_, rfl⟩
    rw [heq]
    refine onItem_safe hgood h hok hfind (commit_ne_fault hw) fun htype => ?_
    rw [hblob] at htype
    cases htype

theorem reset_safe (ft : FloatText) (key : Option String) (ok : Bool) :
    (flashParamReset ft mgr key ok).ret ≠ .fault ∧
      TableInv items (flashParamReset ft mgr key ok).mgr := by
  rcases flashParamReset_cases ft mgr key ok with hrefused | ⟨k, c, rfl, hok, hfind, heq⟩
  · rw [hrefused]
    exact ⟨by simp, h⟩
  · obtain ⟨hc, -⟩ := findItem_eq_some hfind
    rw [heq]
    exact onItem_safe hgood h hok hfind
      ((good_of_mem hgood (h.opened hok) hc).reset (h.ramString hok hc) ok _)
      (resetOneLocked_strImage ok _)

theorem groupReset_safe (ft : FloatText) (group : ParamGroup) (writeOk : String → Bool) :
    (flashParamGroupReset ft mgr group writeOk).ret ≠ .fault ∧
      TableInv items (flashParamGroupReset ft mgr group writeOk).mgr := by
  rw [flashParamGroupReset]
  split_ifs with hdown
  · exact ⟨by simp, h⟩
  · have hok : mgr.initOk = true := by simpa using hdown
    have hcell : ∀ c ∈ mgr.cells, Good c.item := fun c hc => good_of_mem hgood (h.opened hok) hc
    exact ⟨forItems_ne_fault
        (fun c hc stored => (hcell c hc).groupReset (h.ramString hok hc) group writeOk stored) _,
      h.putLoop fun c hc stored hold =>
        hold.memcpy (hcell c hc).ok (groupResetOne_strImage group writeOk stored)⟩

theorem write_safe (op : WriteOp) (hop : OnTable items (.param (.write op))) :
    (writeCall ft mgr op).ret ≠ .fault ∧ TableInv items (writeCall ft mgr op).mgr := by
  cases op with
  | set key val ok => exact set_safe hgood h ft ok hop
  | setBlob key val valLen ok => exact setBlob_safe hgood h ok hop
  | reset key ok => exact reset_safe hgood h ft key ok
  | groupReset group writeOk => exact groupReset_safe hgood h ft group writeOk

end Writes

theorem resetAll_safe (hgood : ∀ it ∈ items, Good it) (h : TableInv items mgr) (out : SetDefault)
    (writeOk : String → Bool) :
    (flashParamResetAll ft mgr out writeOk).ret ≠ .fault ∧
      TableInv items (flashParamResetAll ft mgr out writeOk).mgr := by
  rw [flashParamResetAll]
  split_ifs with hdown
  · exact ⟨by simp, h⟩
  · have hok : mgr.initOk = true := by simpa using hdown
    have hcell : ∀ c ∈ mgr.cells, Good c.item := fun c hc => good_of_mem hgood (h.opened hok) hc
    obtain ⟨db, hdb⟩ := defNodes_readable hgood (h.opened hok) (fun c hc => h.ramString hok hc)
      mgr.kvdb out
    rw [hdb]
    exact ⟨forItems_ne_fault
        (fun c hc stored => (hcell c hc).sync (h.ramString hok hc) _ stored) _,
      h.putLoop fun c hc stored hold => hold.memcpy (hcell c hc).ok (syncOne_strImage _ stored)⟩

/-- A loop of `_sync_one` that returns `0` leaves strings. -/
theorem syncLoop_terminated (hgood : ∀ it ∈ items, Good it) {cells : List Cell}
    (htable : itemsOf cells = items) (hram : ∀ c ∈ cells, RamString c)
    (hok : tableOk (itemsOf cells) = true) {writeOk : String → Bool} {db : Fdb}
    (h : (forItems true (fun c => syncOne ft (writeOk c.key) c) db cells).ret = .ok) :
    ∀ c ∈ (forItems true (fun c => syncOne ft (writeOk c.key) c) db cells).cells,
      Terminated c := by
  have hnd := keys_nodup hok
  have hall := forItems_ok db hnd h
  have hgo : ∀ c ∈ cells,
      GoesOn true ((fun c => syncOne ft (writeOk c.key) c) c (db c.key)).ret := by
    intro c hc
    rw [hall c hc]
    exact goesOn_ok true
  rw [(forItems_spec db hnd hgo).1]
  intro c hc
  obtain ⟨d, hd, rfl⟩ := List.mem_map.mp hc
  exact (good_of_mem hgood htable hd).syncOne_terminated (hram d hd) (hall d hd)

theorem init_safe (hgood : ∀ it ∈ items, Good it) (h : TableInv items mgr) (flash : Flash)
    {cells : List Cell} (htable : itemsOf cells = items) (hram : ∀ c ∈ cells, RamString c)
    (lock unlock : Bool) (env : InitEnv) :
    (flashParamInit ft mgr flash cells lock unlock env).ret ≠ .fault ∧
      TableInv items (flashParamInit ft mgr flash cells lock unlock env).mgr := by
  have hblank : TableInv items (.blank flash cells) := .of_down rfl (.inr htable)
  rw [flashParamInit]
  split_ifs with hnil hlocks hok hmalloc
  · exact ⟨by simp, h⟩
  · exact ⟨by simp, h⟩
  · exact ⟨by simp, hblank⟩
  · cases hdb : fdbKvdbInit flash (cells.map defNode) env with
    | error r =>
      refine ⟨?_, hblank⟩
      rintro rfl
      unfold fdbKvdbInit at hdb
      split_ifs at hdb
      · cases hdb
      · cases flash with
        | holds db => cases hdb
        | blank =>
          obtain ⟨db, hset⟩ := defNodes_readable hgood htable hram (fun _ => none)
            env.setDefault
          simp only [hset] at hdb
          cases hdb
    | ok db =>
      refine ⟨forItems_ne_fault
          (fun c hc stored => (good_of_mem hgood htable hc).sync (hram c hc) _ stored) _,
        .inr ((itemsOf_forItems ..).trans htable), fun _ => (itemsOf_forItems ..).trans htable,
        fun hopen => ?_⟩
      exact syncLoop_terminated hgood htable hram hok (of_decide_eq_true hopen)
  · exact ⟨by simp, h⟩

theorem get_safe {key : Option String} {buf : Option Bytes} {size : Option Nat}
    (hop : OnTable items (.param (.get key buf size))) :
    (flashParamGet mgr key buf size).ret ≠ .fault := by
  unfold flashParamGet
  split
  · rename_i k region n hinit
    have hlen := hop region n rfl rfl
    split
    · simp
    · split_ifs
      · simp
      · omega
      · simp
  · simp

theorem TableInv.closed (h : TableInv items mgr) : TableInv items mgr.closed :=
  .of_down rfl h.table

/-- One call, from any state that the invariant allows. -/
theorem apiCall_safe (ft : FloatText) (hgood : ∀ it ∈ items, Good it) (h : TableInv items mgr)
    {op : ApiOp} (hop : OnTable items op) :
    (apiCall ft mgr op).ret ≠ .fault ∧ TableInv items (apiCall ft mgr op).mgr := by
  cases op with
  | init flash cells lock unlock env => exact init_safe hgood h flash hop.1 hop.2 lock unlock env
  | deinit =>
    rw [apiCall, flashParamDeinit]
    split_ifs
    · exact ⟨by simp, h.closed⟩
    · exact ⟨by simp, h⟩
  | param op =>
    cases op with
    | write op => exact write_safe hgood h op hop
    | get key buf size => exact ⟨get_safe hop, h⟩
  | resetAll out writeOk => exact resetAll_safe hgood h out writeOk
  | foreach group cb =>
    rw [apiCall, flashParamForeach]
    split_ifs
    · exact ⟨by simp, h⟩
    · exact ⟨by simp, h⟩
  | print => exact ⟨by simp [apiCall, flashParamPrint], h⟩
  | printGroup group => exact ⟨by simp [apiCall, flashParamPrintGroup], h⟩

theorem TableInv.inRegions (hgood : ∀ it ∈ items, Good it) (h : TableInv items mgr) {op : ApiOp}
    (hop : OnTable items op) : InRegions ft mgr op := by
  obtain ⟨hret, hafter⟩ := apiCall_safe ft hgood h hop
  refine ⟨hret, fun c hc => ⟨?_, fun hok => hafter.strings hok c hc⟩⟩
  rcases hafter.table with hnil | htable
  · rw [hnil] at hc
    exact absurd hc List.not_mem_nil
  · have hgoodc := good_of_mem hgood htable hc
    exact ramInside_of_itemOk ft hgoodc.ok hgoodc.sized.1

end Runs

/-! ## The run that finds a bad default -/

/-- An item whose RAM has no NUL, unless it is a string. -/
def ParamItem.filled (it : ParamItem) : Cell where
  item := it
  ram := if it.type = .str then zeros it.ramSize else List.replicate it.ramSize 0xFF
  ramLen := by
    split_ifs
    · exact length_zeros _
    · exact List.length_replicate

/-- FlashDB takes the empty default for a C string, and there is no NUL. -/
theorem defNode_filled {it : ParamItem} (hsized : Sized it) (htype : it.type ≠ .str)
    (hzero : it.defSize = 0) : (defNode it.filled).value = none := by
  have hregion := hsized.2
  show (if it.defSize = 0 then readStr it.filled.defRegion
    else readBytes it.filled.defRegion it.defSize) = none
  rw [if_pos hzero]
  cases hval : it.defVal with
  | null =>
    rw [it.filled.defRegion_null hval]
    rfl
  | region bs =>
    rw [hval] at hregion
    dsimp only at hregion
    rw [if_neg htype, hzero] at hregion
    obtain rfl := List.length_eq_zero_iff.mp hregion
    rw [it.filled.defRegion_region hval]
    rfl
  | ram =>
    rw [it.filled.defRegion_ram hval]
    refine readStr_of_not_mem ?_
    rw [ParamItem.filled]
    dsimp only
    rw [if_neg htype]
    intro h
    exact absurd (List.eq_of_mem_replicate h) (by decide)

/-- A default that cannot be read stops the registration or the sync. -/
theorem unreadable_default (ft : FloatText) {it : ParamItem} (hsized : Sized it)
    (hbad : ¬ DefaultReadable it) :
    (defNode it.filled).value = none ∨ defaultWrite ft it.filled = .error .fault := by
  have hregion := hsized.2
  unfold DefaultReadable at hbad
  cases htype : it.type with
  | int | float =>
    have hitem : it.filled.item.type = it.type := rfl
    simp only [htype] at hbad
    cases hval : it.defVal with
    | null =>
      refine .inr ?_
      simp only [defaultWrite, hitem, htype, it.filled.defRegion_null hval]
      rfl
    | region bs =>
      refine .inr ?_
      rw [hval] at hregion hbad
      dsimp only at hregion hbad
      rw [htype, if_neg (by decide)] at hregion
      simp only [defaultWrite, hitem, htype, it.filled.defRegion_region hval]
      rw [readBytes_of_not_le (by omega)]
    | ram =>
      rw [hval] at hbad
      dsimp only at hbad
      exact .inl (defNode_filled hsized (by rw [htype]; decide) (by omega))
  | blob =>
    rw [htype] at hbad
    dsimp only at hbad
    exact .inl (defNode_filled hsized (by rw [htype]; decide) (by omega))
  | str | other =>
    rw [htype] at hbad
    exact absurd trivial hbad

section Faults

variable {ft : FloatText} {mgr : ParamMgr} {cells : List Cell}

theorem init_fault_of_defNode (hok : tableOk (itemsOf cells) = true)
    (h : ∃ c ∈ cells, (defNode c).value = none) :
    (flashParamInit ft mgr .blank cells false false allOk).ret = .fault := by
  obtain ⟨c, hc, hnone⟩ := h
  have hall : (cells.map defNode).all (·.value.isSome) = false := by
    rw [List.all_map, List.all_eq_false]
    exact ⟨c, hc, by simp [hnone]⟩
  have hdb : fdbKvdbInit .blank (cells.map defNode) allOk = .error .fault := by
    simp only [fdbKvdbInit, allOk, fdbKvSetDefault, hall]
    rfl
  rw [flashParamInit, if_neg (List.ne_nil_of_mem hc), if_neg (by decide), dif_pos hok,
    if_neg (by decide), hdb]

theorem dbRead_none (ft : FloatText) (c : Cell) : dbRead ft c none = none := by
  unfold dbRead
  cases c.item.type <;> rfl

/-- With a database that takes every write, the default of an accepted item is
written or faults. -/
theorem commit_true_ne_fail {c : Cell} (hok : itemOk c.item = true) {stored : Option Bytes} :
    (commit c stored (defaultWrite ft c) true).ret ≠ .fail := by
  unfold defaultWrite
  cases htype : c.item.type with
  | int | float | str | blob =>
    dsimp only
    split
    · simp [commit]
    · simp [commit]
  | other => simp [itemOk, htype] at hok

theorem init_fault_of_defaultWrite (hok : tableOk (itemsOf cells) = true)
    (h : ∃ c ∈ cells, defaultWrite ft c = .error .fault) :
    (flashParamInit ft mgr (.holds fun _ => none) cells false false allOk).ret = .fault := by
  obtain ⟨c, hc, hfault⟩ := h
  have hdb : fdbKvdbInit (.holds fun _ => none) (cells.map defNode) allOk =
      .ok fun _ => none := rfl
  have hsync : ∀ d, syncOne ft true d none = commit d none (defaultWrite ft d) true := fun d => by
    rw [syncOne, dbRead_none]
  rw [flashParamInit, if_neg (List.ne_nil_of_mem hc), if_neg (by decide), dif_pos hok,
    if_neg (by decide), hdb]
  refine forItems_fault _ (keys_nodup hok) (fun d hd => ?_) ⟨c, hc, ?_⟩
  · show (syncOne ft true d none).ret ≠ .fail
    rw [hsync]
    exact commit_true_ne_fail (tableOk_itemOk hok hd)
  · show (syncOne ft true c none).ret = .fault
    rw [hsync, hfault]
    rfl

end Faults

theorem itemsOf_filled (items : List ParamItem) : itemsOf (items.map (·.filled)) = items := by
  simp [itemsOf, ParamItem.filled, Function.comp_def]

theorem ramString_filled {it : ParamItem} (hok : itemOk it = true) : RamString it.filled := by
  intro _ htype
  have hstr : it.type = .str := htype
  have hpos : 0 < it.ramSize := by
    simp only [itemOk, hstr, Bool.and_eq_true, decide_eq_true_eq] at hok
    exact hok.2.1
  rw [ParamItem.filled]
  dsimp only
  rw [if_pos hstr, zeros, List.mem_replicate]
  exact ⟨by omega, rfl⟩

/-- A bad default is read by some initialisation. -/
theorem exists_init_fault (ft : FloatText) (mgr : ParamMgr) {items : List ParamItem}
    (hok : tableOk items = true) (hsized : ∀ it ∈ items, Sized it)
    (hbad : ∃ it ∈ items, ¬ DefaultReadable it) :
    ∃ flash, (flashParamInit ft mgr flash (items.map (·.filled)) false false allOk).ret =
      .fault := by
  obtain ⟨it, hit, hread⟩ := hbad
  have hmem : it.filled ∈ items.map (·.filled) := List.mem_map_of_mem hit
  have htable : tableOk (itemsOf (items.map (·.filled))) = true := by rw [itemsOf_filled, hok]
  rcases unreadable_default ft (hsized it hit) hread with hnode | hwrite
  · exact ⟨.blank, init_fault_of_defNode htable ⟨_, hmem, hnode⟩⟩
  · exact ⟨.holds fun _ => none, init_fault_of_defaultWrite htable ⟨_, hmem, hwrite⟩⟩

/-! ## The checks and the regions -/

/-- Every run on a table that `flash_param_init` accepts stays inside its
regions, exactly if every default can be read. -/
theorem regions_safe_iff (ft : FloatText) (items : List ParamItem) (hok : tableOk items = true)
    (hsized : ∀ it ∈ items, Sized it) :
    (∀ ops : List ApiOp, (∀ op ∈ ops, OnTable items op) →
      Along (apiStep ft) (InRegions ft) (.blank .blank []) ops) ↔
      ∀ it ∈ items, DefaultReadable it := by
  constructor
  · intro hsafe
    by_contra hbad
    push Not at hbad
    obtain ⟨flash, hfault⟩ := exists_init_fault ft (.blank .blank []) hok hsized hbad
    have hcells : ∀ c ∈ items.map (·.filled), RamString c := by
      intro c hc
      obtain ⟨it, hit, rfl⟩ := List.mem_map.mp hc
      exact ramString_filled (itemOk_of_mem hok hit)
    have hrun := hsafe [.init flash (items.map (·.filled)) false false allOk] fun op hop => by
      obtain rfl := List.mem_singleton.mp hop
      exact ⟨itemsOf_filled items, hcells⟩
    exact hrun.1.1 hfault
  · intro hread ops hops
    have hgood : ∀ it ∈ items, Good it := fun it hit =>
      ⟨itemOk_of_mem hok hit, hsized it hit, hread it hit⟩
    have hstart : TableInv items (.blank .blank []) := .of_down rfl (.inl rfl)
    have hstep : ∀ mgr op, TableInv items mgr → OnTable items op →
        InRegions ft mgr op ∧ TableInv items (apiStep ft mgr op) := fun mgr op h hop =>
      ⟨h.inRegions hgood hop, (apiCall_safe ft hgood h hop).2⟩
    exact along_of_invariant hstep ops _ hstart hops

/-! ## The table of the board, and two that fault -/

theorem sized_paramStr (key : String) (d : Bytes) {maxLen : Nat} (group : ParamGroup)
    (h : maxLen < 2 ^ 32) : Sized (paramStr key d maxLen group) :=
  ⟨h, d, rfl, rfl⟩

theorem sized_paramInt (key : String) (d : BitVec 32) {ramSize : Nat} (group : ParamGroup)
    (h : ramSize < 2 ^ 32) : Sized (paramInt key d ramSize group) :=
  ⟨h, length_le4 d⟩

theorem gItems_sized : ∀ it ∈ gItems, Sized it := by
  intro it hit
  simp only [gItems, List.mem_cons, List.not_mem_nil, or_false] at hit
  rcases hit with rfl | rfl | rfl | rfl | rfl | rfl | rfl
  · exact sized_paramStr _ _ _ (by decide)
  · exact sized_paramStr _ _ _ (by decide)
  · exact sized_paramInt _ _ _ (by decide)
  · exact sized_paramInt _ _ _ (by decide)
  · exact sized_paramInt _ _ _ (by decide)
  · exact sized_paramInt _ _ _ (by decide)
  · exact ⟨by decide, show 4 ≤ 4 from Nat.le_refl 4⟩

/-- The first boot of the board, a parameter set, and a reset of all. -/
def boardRun : List ApiOp :=
  [.init .blank (gItems.map (·.powerOn)) true true allOk,
    .param (.write (.set (some "do1_level") (some [1, 0, 0, 0]) true)),
    .resetAll (.formatted fun _ => true) (fun _ => true), .printGroup .system]

theorem boardRun_onTable : ∀ op ∈ boardRun, OnTable gItems op := by
  intro op hop
  simp only [boardRun, List.mem_cons, List.not_mem_nil, or_false] at hop
  rcases hop with rfl | rfl | rfl | rfl
  · refine ⟨rfl, fun c hc hval htype => ?_⟩
    obtain ⟨it, hit, rfl⟩ := List.mem_map.mp hc
    have hnone : ∀ it ∈ gItems, it.defVal = .ram → it.type ≠ .str := by decide
    exact absurd htype (hnone it hit hval)
  · rintro it hit region hkey ⟨⟩
    have hform : ∀ it ∈ gItems, it.key = some "do1_level" →
        (it.normalForm [1, 0, 0, 0]).isSome = true := by decide
    exact hform it hit hkey
  · trivial
  · trivial

theorem regions_safe_boardRun :
    Along (apiStep noFloat) (InRegions noFloat) (.blank .blank []) boardRun :=
  (regions_safe_iff noFloat gItems gItems_ok gItems_sized).mpr (by decide) boardRun
    boardRun_onTable

/-- An INT item with a `NULL` default, on a database without its key. -/
def nullInt : ParamItem := ⟨some "level", .null, 4, .int, true, 4, .do_⟩

/-- A BLOB item with an empty default, on blank flash. -/
def emptyBlob : ParamItem := paramBlob "cfg" (.region []) 0 4 .doTime

/-- Both tables are accepted.  The first dereferences `NULL` in `_sync_one`, the
second reads behind its default in `fdb_kv_set_default`. -/
theorem accepted_default_faults :
    tableOk [nullInt] = true ∧ Sized nullInt ∧
      OnTable [nullInt] (.init (.holds fun _ => none) [nullInt.powerOn] false false allOk) ∧
      ¬ InRegions noFloat (.blank .blank [])
        (.init (.holds fun _ => none) [nullInt.powerOn] false false allOk) ∧
      tableOk [emptyBlob] = true ∧ Sized emptyBlob ∧
      OnTable [emptyBlob] (.init .blank [emptyBlob.powerOn] false false allOk) ∧
      ¬ InRegions noFloat (.blank .blank [])
        (.init .blank [emptyBlob.powerOn] false false allOk) := by
  have hstring : ∀ it : ParamItem, it.defVal ≠ .ram →
      ∀ c ∈ [it.powerOn], RamString c := by
    intro it hval c hc
    obtain rfl := List.mem_singleton.mp hc
    exact fun h => absurd h hval
  refine ⟨by decide, ⟨by decide, trivial⟩, ⟨rfl, hstring _ (by decide)⟩, fun h => ?_, by decide,
    ⟨by decide, rfl⟩, ⟨rfl, hstring _ (by decide)⟩, fun h => ?_⟩
  · exact absurd (show (flashParamInit noFloat (.blank .blank []) (.holds fun _ => none)
      [nullInt.powerOn] false false allOk).ret = .fault by decide) h.1
  · exact absurd (show (flashParamInit noFloat (.blank .blank []) .blank
      [emptyBlob.powerOn] false false allOk).ret = .fault by decide) h.1

end Hc32Board.FlashParam
