import Hc32Board.FlashParam.Manager

/-!
# Items do not disturb each other

The keys of an accepted table are distinct, so a loop over the table treats
every item as if it were alone.  `forItems_spec` says so for a loop that goes
through, and `forItems_ok` for a loop that returns `0`.  The lemmas behind
them read the public functions off in these terms: `flashParamInit_ok` for
initialisation, `findItem_putItem` for the functions that take a key.
-/

namespace Hc32Board.FlashParam

open Hc32Board.CodeLib

/-! ## Keys -/

theorem itemOk_of_mem {items : List ParamItem} (h : tableOk items = true) {it : ParamItem}
    (hit : it ∈ items) : itemOk it = true := by
  simp only [tableOk, Bool.and_eq_true, List.all_eq_true] at h
  exact h.1 it hit

theorem tableOk_itemOk {cells : List Cell} (h : tableOk (itemsOf cells) = true) {c : Cell}
    (hc : c ∈ cells) : itemOk c.item = true :=
  itemOk_of_mem h (List.mem_map_of_mem hc)

theorem itemOk_key {c : Cell} (h : itemOk c.item = true) : c.item.key = some c.key := by
  simp only [itemOk, Bool.and_eq_true] at h
  obtain ⟨k, hk⟩ := Option.isSome_iff_exists.1 h.1.1
  simp [Cell.key, hk]

/-- The keys of an accepted table are distinct. -/
theorem keys_nodup {cells : List Cell} (h : tableOk (itemsOf cells) = true) :
    (cells.map Cell.key).Nodup := by
  have hnd : (cells.map (·.item.key)).Nodup := by
    simp only [tableOk, Bool.and_eq_true, decide_eq_true_eq] at h
    simpa [itemsOf, List.map_map, Function.comp_def] using h.2
  unfold List.Nodup at hnd ⊢
  rw [List.pairwise_map] at hnd ⊢
  apply hnd.imp_of_mem
  intro a b ha hb hne heq
  apply hne
  rw [itemOk_key (tableOk_itemOk h ha), itemOk_key (tableOk_itemOk h hb), heq]

theorem key_ne_of_nodup {c : Cell} {cs : List Cell} (h : ((c :: cs).map Cell.key).Nodup)
    {d : Cell} (hd : d ∈ cs) : d.key ≠ c.key := by
  rw [List.map_cons, List.nodup_cons] at h
  intro heq
  apply h.1
  rw [← heq]
  exact List.mem_map_of_mem hd

/-! ## Loops -/

section Loops

variable {stop : Bool} {f : Cell → Option Bytes → Step}

/-- The loop does not end at an item that returns `r`. -/
def GoesOn (stop : Bool) (r : Ret) : Prop := ¬ (r = .fault ∨ stop = true ∧ r = .fail)

theorem goesOn_ok (stop : Bool) : GoesOn stop .ok := by
  simp [GoesOn]

private theorem forItems_cons {c : Cell} {cs : List Cell} {db : Fdb} {r : Loop}
    (h : GoesOn stop (f c (db c.key)).ret)
    (hr : forItems stop f (Function.update db c.key (f c (db c.key)).stored) cs = r) :
    forItems stop f db (c :: cs) =
      ⟨(f c (db c.key)).ret.andThen r.ret, r.db, c.memcpy (f c (db c.key)).image :: r.cells,
        (f c (db c.key)).calls ++ r.calls⟩ := by
  unfold GoesOn at h
  rw [forItems, if_neg h, hr]

theorem andThen_eq_ok {a b : Ret} : a.andThen b = .ok ↔ a = .ok ∧ b = .ok := by
  cases a <;> cases b <;> simp [Ret.andThen]

/-- A loop that goes through treats every item with the value its key had at
the start. -/
theorem forItems_spec {cells : List Cell} : ∀ db : Fdb, (cells.map Cell.key).Nodup →
    (∀ c ∈ cells, GoesOn stop (f c (db c.key)).ret) →
    (forItems stop f db cells).cells = cells.map (fun c => c.memcpy (f c (db c.key)).image) ∧
    (∀ c ∈ cells, (forItems stop f db cells).db c.key = (f c (db c.key)).stored) ∧
    (∀ k, k ∉ cells.map Cell.key → (forItems stop f db cells).db k = db k) ∧
    (forItems stop f db cells).calls = cells.flatMap (fun c => (f c (db c.key)).calls) ∧
    ((forItems stop f db cells).ret = .ok ↔ ∀ c ∈ cells, (f c (db c.key)).ret = .ok) := by
  induction cells with
  | nil => intro db _ _; simp [forItems]
  | cons c cs ih =>
    intro db hnd hgo
    -- the first item changes its own key only, so the others see `db`
    have hother : ∀ d ∈ cs,
        Function.update db c.key (f c (db c.key)).stored d.key = db d.key := by
      intro d hd
      exact Function.update_of_ne (key_ne_of_nodup hnd hd) _ _
    have hnd' : (cs.map Cell.key).Nodup := (List.nodup_cons.1 hnd).2
    have hgo' : ∀ d ∈ cs, GoesOn stop
        (f d (Function.update db c.key (f c (db c.key)).stored d.key)).ret := by
      intro d hd
      rw [hother d hd]
      exact hgo d (List.mem_cons_of_mem c hd)
    obtain ⟨h1, h2, h3, h4, h5⟩ := ih _ hnd' hgo'
    rw [forItems_cons (hgo c List.mem_cons_self) rfl]
    refine ⟨?_, ?_, ?_, ?_, ?_⟩
    · show c.memcpy _ :: _ = c.memcpy _ :: _
      rw [h1]
      congr 1
      apply List.map_congr_left
      intro d hd
      rw [hother d hd]
    · intro d hd
      rcases List.mem_cons.1 hd with rfl | hd
      · have hnot : d.key ∉ cs.map Cell.key := (List.nodup_cons.1 hnd).1
        rw [h3 d.key hnot, Function.update_self]
      · rw [h2 d hd, hother d hd]
    · intro k hk
      rw [List.map_cons, List.mem_cons, not_or] at hk
      rw [h3 k hk.2, Function.update_of_ne hk.1]
    · show _ ++ _ = _
      rw [List.flatMap_cons, h4]
      congr 1
      apply List.flatMap_congr
      intro d hd
      rw [hother d hd]
    · rw [andThen_eq_ok, h5]
      constructor
      · rintro ⟨hc, hcs⟩ d hd
        rcases List.mem_cons.1 hd with rfl | hd
        · exact hc
        · rw [← hother d hd]
          exact hcs d hd
      · intro hall
        refine ⟨hall c List.mem_cons_self, ?_⟩
        intro d hd
        rw [hother d hd]
        exact hall d (List.mem_cons_of_mem c hd)

/-- A loop that returns `0` went through, and every item returned `0`. -/
theorem forItems_ok {cells : List Cell} : ∀ db : Fdb, (cells.map Cell.key).Nodup →
    (forItems stop f db cells).ret = .ok → ∀ c ∈ cells, (f c (db c.key)).ret = .ok := by
  induction cells with
  | nil => intro db _ _ c hc; simp at hc
  | cons c cs ih =>
    intro db hnd hret
    have hgo : GoesOn stop (f c (db c.key)).ret := by
      intro hstop
      rw [forItems, if_pos hstop] at hret
      have hok : (f c (db c.key)).ret = .ok := hret
      simp [hok] at hstop
    rw [forItems_cons hgo rfl, andThen_eq_ok] at hret
    intro d hd
    rcases List.mem_cons.1 hd with rfl | hd
    · exact hret.1
    · have := ih _ (List.nodup_cons.1 hnd).2 hret.2 d hd
      rwa [Function.update_of_ne (key_ne_of_nodup hnd hd)] at this

end Loops

/-! ## Finding an item -/

/-- The RAM bytes of the item with this key. -/
def ParamMgr.ramOf (mgr : ParamMgr) (key : String) : Option Bytes :=
  (mgr.findItem key).map (·.ram)

theorem findItem_eq_some {mgr : ParamMgr} {key : String} {c : Cell}
    (h : mgr.findItem key = some c) : c ∈ mgr.cells ∧ c.key = key := by
  have hkey := List.find?_some h
  exact ⟨List.mem_of_find?_eq_some h, by simpa using hkey⟩

theorem find?_key_of_mem {cells : List Cell} (hnd : (cells.map Cell.key).Nodup) {c : Cell}
    (hc : c ∈ cells) : cells.find? (·.key = c.key) = some c := by
  induction cells with
  | nil => simp at hc
  | cons d ds ih =>
    rcases List.mem_cons.1 hc with rfl | hc
    · simp
    · have hne : d.key ≠ c.key := (key_ne_of_nodup hnd hc).symm
      rw [List.find?_cons_of_neg (by simpa using hne)]
      exact ih (List.nodup_cons.1 hnd).2 hc

theorem findItem_of_mem {mgr : ParamMgr} (hok : mgr.initOk = true) {c : Cell}
    (hc : c ∈ mgr.cells) : mgr.findItem c.key = some c :=
  find?_key_of_mem (keys_nodup (mgr.accepted hok)) hc

/-- A map over the table that keeps the keys is seen by `find?`. -/
theorem find?_map_key (g : Cell → Cell) (hg : ∀ c, (g c).key = c.key) (cells : List Cell)
    (key : String) : (cells.map g).find? (·.key = key) = (cells.find? (·.key = key)).map g := by
  rw [List.find?_map]
  congr 2
  funext c
  simp [hg]

/-- The RAM of an item after a step of every item of the table. -/
theorem find?_map_memcpy {cells : List Cell} (hnd : (cells.map Cell.key).Nodup) {c : Cell}
    (hc : c ∈ cells) (image : Cell → Bytes) :
    ((cells.map fun d => d.memcpy (image d)).find? (·.key = c.key)).map (·.ram) =
      some (overlay (image c) c.ram) := by
  rw [find?_map_key _ (by intro d; rfl), find?_key_of_mem hnd hc]
  rfl

@[simp] theorem putItem_kvdb (mgr : ParamMgr) (key : String) (s : Step) :
    (mgr.putItem key s).kvdb = Function.update mgr.kvdb key s.stored := rfl

/-- An operation on a key changes the item of that key only. -/
theorem findItem_putItem (mgr : ParamMgr) (key k : String) (s : Step) :
    (mgr.putItem key s).findItem k =
      (mgr.findItem k).map fun c => if k = key then c.memcpy s.image else c := by
  unfold ParamMgr.findItem ParamMgr.putItem
  rw [find?_map_key _ (by intro c; split_ifs <;> rfl)]
  cases hfind : mgr.cells.find? (·.key = k) with
  | none => rfl
  | some c =>
    have hkey : c.key = k := by simpa using List.find?_some hfind
    simp [hkey]

@[simp] theorem onItem_ret (mgr : ParamMgr) (key : String) (c : Cell)
    (f : Cell → Option Bytes → Step) :
    (mgr.onItem key c f).ret = (f c (mgr.kvdb key)).ret := rfl

@[simp] theorem onItem_mgr (mgr : ParamMgr) (key : String) (c : Cell)
    (f : Cell → Option Bytes → Step) :
    (mgr.onItem key c f).mgr = mgr.putItem key (f c (mgr.kvdb key)) := rfl

/-! ## The functions that take a key -/

/-- `flash_param_set` refuses the call, or works on the item of the key. -/
theorem flashParamSet_cases (ft : FloatText) (mgr : ParamMgr) (key : Option String)
    (val : Option Bytes) (ok : Bool) :
    flashParamSet ft mgr key val ok = ⟨.fail, mgr, []⟩ ∨
      ∃ k v c, key = some k ∧ val = some v ∧ mgr.initOk = true ∧ mgr.findItem k = some c ∧
        flashParamSet ft mgr key val ok =
          mgr.onItem k c fun c stored => commit c stored (setWrite ft c v) ok := by
  unfold flashParamSet
  split
  · rename_i k v hok
    cases hfind : mgr.findItem k with
    | none => exact Or.inl rfl
    | some c => exact Or.inr ⟨k, v, c, rfl, rfl, hok, hfind, rfl⟩
  · exact Or.inl rfl

/-- `flash_param_set_blob` refuses the call, or works on a BLOB item with a
value that fits its RAM. -/
theorem flashParamSetBlob_cases (mgr : ParamMgr) (key : Option String) (val : Option Bytes)
    (valLen : Nat) (ok : Bool) :
    flashParamSetBlob mgr key val valLen ok = ⟨.fail, mgr, []⟩ ∨
      ∃ k v c, key = some k ∧ val = some v ∧ 0 < valLen ∧ valLen ≤ c.item.ramSize ∧
        c.item.type = .blob ∧ mgr.initOk = true ∧ mgr.findItem k = some c ∧
        flashParamSetBlob mgr key val valLen ok =
          mgr.onItem k c fun c stored => commit c stored (setBlobWrite c v valLen) ok := by
  unfold flashParamSetBlob
  split
  · rename_i k v hok
    split_ifs with hlen
    · exact Or.inl rfl
    · cases hfind : mgr.findItem k with
      | none => exact Or.inl rfl
      | some c =>
        dsimp only
        split_ifs with htype hsize
        · exact Or.inl rfl
        · exact Or.inl rfl
        · exact Or.inr ⟨k, v, c, rfl, rfl, by omega, by omega, not_not.1 htype, hok, hfind, rfl⟩
  · exact Or.inl rfl

/-- `flash_param_reset` refuses the call, or resets the item of the key. -/
theorem flashParamReset_cases (ft : FloatText) (mgr : ParamMgr) (key : Option String)
    (ok : Bool) :
    flashParamReset ft mgr key ok = ⟨.fail, mgr, []⟩ ∨
      ∃ k c, key = some k ∧ mgr.initOk = true ∧ mgr.findItem k = some c ∧
        flashParamReset ft mgr key ok = mgr.onItem k c (resetOneLocked ft ok) := by
  unfold flashParamReset
  split
  · rename_i k hok
    cases hfind : mgr.findItem k with
    | none => exact Or.inl rfl
    | some c => exact Or.inr ⟨k, c, rfl, hok, hfind, rfl⟩
  · exact Or.inl rfl

/-! ## Initialisation -/

/-- What a call of `flash_param_init` that returns `0` has done, over the
database `db` that FlashDB opened. -/
structure Booted (ft : FloatText) (flash : Flash) (cells : List Cell) (env : InitEnv) (db : Fdb)
    (o : Outcome) : Prop where
  opened : fdbKvdbInit flash (cells.map defNode) env = .ok db
  nonempty : cells ≠ []
  table : tableOk (itemsOf cells) = true
  initOk : o.mgr.initOk = true
  locks : o.mgr.lock = o.mgr.unlock
  sync : ∀ c ∈ cells, (syncOne ft (env.writeOk c.key) c (db c.key)).ret = .ok
  cells_eq : o.mgr.cells =
    cells.map fun c => c.memcpy (syncOne ft (env.writeOk c.key) c (db c.key)).image
  kvdb_eq : ∀ c ∈ cells,
    o.mgr.kvdb c.key = (syncOne ft (env.writeOk c.key) c (db c.key)).stored
  calls_eq : o.calls =
    cells.flatMap fun c => (syncOne ft (env.writeOk c.key) c (db c.key)).calls

theorem Booted.ramOf {ft : FloatText} {flash : Flash} {cells : List Cell} {env : InitEnv} {db : Fdb}
    {o : Outcome} (h : Booted ft flash cells env db o) {c : Cell} (hc : c ∈ cells) :
    o.mgr.ramOf c.key =
      some (overlay (syncOne ft (env.writeOk c.key) c (db c.key)).image c.ram) := by
  unfold ParamMgr.ramOf ParamMgr.findItem
  rw [h.cells_eq]
  exact find?_map_memcpy (keys_nodup h.table) hc _

theorem flashParamInit_ok {ft : FloatText} {mgr : ParamMgr} {flash : Flash} {cells : List Cell}
    {lock unlock : Bool} {env : InitEnv}
    (h : (flashParamInit ft mgr flash cells lock unlock env).ret = .ok) :
    ∃ db, Booted ft flash cells env db (flashParamInit ft mgr flash cells lock unlock env) := by
  unfold flashParamInit at h ⊢
  split_ifs at h ⊢ with h1 h2 h3 h4
  cases hdb : fdbKvdbInit flash (cells.map defNode) env with
  | error r =>
    have hbad : r ≠ .ok := by
      unfold fdbKvdbInit at hdb
      split_ifs at hdb
      · cases hdb; simp
      · split at hdb
        · cases hdb
        · split at hdb <;> cases hdb; simp
    simp only [hdb] at h
    exact absurd h hbad
  | ok db =>
    simp only [hdb] at h
    have hnd := keys_nodup h3
    have hall := forItems_ok db hnd h
    have hgo : ∀ c ∈ cells,
        GoesOn true ((fun c => syncOne ft (env.writeOk c.key) c) c (db c.key)).ret := by
      intro c hc
      rw [hall c hc]
      exact goesOn_ok true
    obtain ⟨hcells, hkv, -, hcalls, -⟩ := forItems_spec db hnd hgo
    exact ⟨db, hdb, h1, h3, by simp [ParamMgr.opened, h], not_not.1 h2, hall, hcells, hkv, hcalls⟩

/-- When `flash_param_init` returns `0`. -/
theorem flashParamInit_returns_ok {ft : FloatText} {mgr : ParamMgr} {flash : Flash}
    {cells : List Cell} {lock unlock : Bool} {env : InitEnv} {db : Fdb} (hne : cells ≠ [])
    (hlock : lock = unlock) (htable : tableOk (itemsOf cells) = true)
    (hmalloc : env.mallocOk = true) (hdb : fdbKvdbInit flash (cells.map defNode) env = .ok db)
    (hsync : ∀ c ∈ cells, (syncOne ft (env.writeOk c.key) c (db c.key)).ret = .ok) :
    (flashParamInit ft mgr flash cells lock unlock env).ret = .ok := by
  have hgo : ∀ c ∈ cells,
      GoesOn true ((fun c => syncOne ft (env.writeOk c.key) c) c (db c.key)).ret := by
    intro c hc
    rw [hsync c hc]
    exact goesOn_ok true
  obtain ⟨-, -, -, -, hret⟩ := forItems_spec db (keys_nodup htable) hgo
  unfold flashParamInit
  rw [if_neg hne, if_neg (not_not.2 hlock), dif_pos htable, if_neg (by simp [hmalloc])]
  simp only [hdb]
  exact hret.2 hsync

end Hc32Board.FlashParam
