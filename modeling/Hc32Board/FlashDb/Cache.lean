import Hc32Board.FlashDb.Kvdb

/-!
# The two caches

What the cache operations leave in the tables, as far as a reader can see it.

* `mem_updateSectorCache` and `mem_modifySectorCache`: an entry of the sector cache
  after an update is the new one, or an old one for another sector.  This needs
  `Distinct`: no two entries are for one sector.
* `KvCacheOk.update` and `KvCacheOk.delete`: what holds for the address of every live
  node of the KV cache before an update holds for the nodes of other names
  afterwards.  `update_kv_cache` looks at the first node with the check value of the
  name, live or not.  So a live node has to be the first one with its check value.
-/

namespace Hc32Board.FlashDb

open Hc32Board.CodeLib

/-! ## The sector cache -/

/-- No two entries are for one sector. -/
def Distinct (cache : List (Option SecInfo)) : Prop :=
  ∀ (i j : Nat) (u v : SecInfo), cache[i]? = some (some u) → cache[j]? = some (some v) →
    u.addr = v.addr → i = j

section SectorCache

variable {cache : List (Option SecInfo)} {addr : Nat} {info sector : SecInfo}

theorem mem_of_getSectorFromCache (h : getSectorFromCache cache addr = some info) :
    some info ∈ cache ∧ info.addr = addr := by
  rw [getSectorFromCache, Option.join_eq_some_iff] at h
  refine ⟨List.mem_of_find?_eq_some h, ?_⟩
  simpa using List.find?_some h

theorem getElem?_of_sectorCacheIdx {i : Nat} (h : sectorCacheIdx cache addr = some i) :
    ∃ u, cache[i]? = some (some u) ∧ u.addr = addr := by
  obtain ⟨hi, hp, -⟩ := List.findIdx?_eq_some_iff_getElem.mp h
  cases hu : cache[i] with
  | none => simp [hu] at hp
  | some u =>
    refine ⟨u, by rw [List.getElem?_eq_getElem hi, hu], ?_⟩
    simpa [hu] using hp

theorem addr_ne_of_sectorCacheIdx (h : sectorCacheIdx cache addr = none)
    (hmem : some info ∈ cache) : info.addr ≠ addr := by
  have := List.findIdx?_eq_none_iff.mp h (some info) hmem
  simpa using this

/-- An entry of a table with one slot changed. -/
theorem getElem?_set_cases {α : Type} {l : List α} {i j : Nat} {x y : α}
    (h : (l.set i x)[j]? = some y) : j = i ∧ y = x ∨ j ≠ i ∧ l[j]? = some y := by
  rcases eq_or_ne j i with rfl | hne
  · refine .inl ⟨rfl, ?_⟩
    rw [List.getElem?_set_self'] at h
    cases hl : l[j]? with
    | none => simp [hl] at h
    | some z => simpa [hl] using h.symm
  · rw [List.getElem?_set_ne hne.symm] at h
    exact .inr ⟨hne, h⟩

/-- One slot is changed to an entry for a sector that no other slot is for. -/
theorem Distinct.set (hd : Distinct cache) {i : Nat} {e : Option SecInfo}
    (h : ∀ u, e = some u → ∀ j v, j ≠ i → cache[j]? = some (some v) → v.addr ≠ u.addr) :
    Distinct (cache.set i e) := by
  intro j k u v hj hk heq
  rcases getElem?_set_cases hj with ⟨rfl, hu⟩ | ⟨hji, hgetj⟩ <;>
    rcases getElem?_set_cases hk with ⟨rfl, hv⟩ | ⟨hki, hgetk⟩
  · rfl
  · exact absurd heq.symm (h u hu.symm k v hki hgetk)
  · exact absurd heq (h v hv.symm j u hji hgetj)
  · exact hd j k u v hgetj hgetk heq

/-- `update_sector_cache` changes at most one slot, and no other slot is for this
sector. -/
theorem updateSectorCache_cases (hd : Distinct cache) (sector : SecInfo) :
    (updateSectorCache cache sector = cache ∧ ∀ v, some v ∈ cache → v.addr ≠ sector.addr) ∨
    ∃ i e, updateSectorCache cache sector = cache.set i e ∧
      (e = some sector ∧ sector.checkOk = true ∨ e = none) ∧
      ∀ (j : Nat) (v : SecInfo), j ≠ i → cache[j]? = some (some v) → v.addr ≠ sector.addr := by
  rw [updateSectorCache]
  split
  next i hidx =>
    obtain ⟨u, hu, haddr⟩ := getElem?_of_sectorCacheIdx hidx
    refine .inr ⟨i, _, rfl, ?_, fun j v hne hget hsame => hne ?_⟩
    · split_ifs with hok
      · exact .inl ⟨rfl, hok⟩
      · exact .inr rfl
    · exact hd j i v u hget hu (hsame.trans haddr.symm)
  next hidx =>
    have hne : ∀ v, some v ∈ cache → v.addr ≠ sector.addr := fun v =>
      addr_ne_of_sectorCacheIdx hidx
    split
    next i _ =>
      split_ifs with hok
      · exact .inr ⟨i, _, rfl, .inl ⟨rfl, hok⟩, fun j v _ hget => hne v (List.mem_of_getElem? hget)⟩
      · exact .inl ⟨rfl, hne⟩
    next => exact .inl ⟨rfl, hne⟩

theorem mem_updateSectorCache (hd : Distinct cache)
    (h : some info ∈ updateSectorCache cache sector) :
    info = sector ∧ sector.checkOk = true ∨ some info ∈ cache ∧ info.addr ≠ sector.addr := by
  rcases updateSectorCache_cases hd sector with ⟨heq, hne⟩ | ⟨i, e, heq, he, hne⟩ <;> rw [heq] at h
  · exact .inr ⟨h, hne info h⟩
  · obtain ⟨j, hj⟩ := List.mem_iff_getElem?.mp h
    rcases getElem?_set_cases hj with ⟨-, rfl⟩ | ⟨hji, hget⟩
    · rcases he with ⟨hs, hok⟩ | hnone
      · exact .inl ⟨Option.some.inj hs, hok⟩
      · cases hnone
    · exact .inr ⟨List.mem_of_getElem? hget, hne j info hji hget⟩

theorem Distinct.updateSectorCache (hd : Distinct cache) (sector : SecInfo) :
    Distinct (updateSectorCache cache sector) := by
  rcases updateSectorCache_cases hd sector with ⟨heq, -⟩ | ⟨i, e, heq, he, hne⟩ <;> rw [heq]
  · exact hd
  · refine hd.set fun u hu j v hji hget => ?_
    rcases he with ⟨hs, -⟩ | hnone
    · obtain rfl := Option.some.inj (hs.symm.trans hu)
      exact hne j v hji hget
    · exact absurd (hu.symm.trans hnone) (Option.some_ne_none u)

/-- A change of an entry in place.  The entry stays one for its sector. -/
theorem modifySectorCache_cases (hd : Distinct cache) (addr : Nat) (f : SecInfo → SecInfo) :
    (modifySectorCache cache addr f = cache ∧ ∀ v, some v ∈ cache → v.addr ≠ addr) ∨
    ∃ i u, modifySectorCache cache addr f = cache.set i (some (f u)) ∧ some u ∈ cache ∧
      u.addr = addr ∧
      ∀ (j : Nat) (v : SecInfo), j ≠ i → cache[j]? = some (some v) → v.addr ≠ addr := by
  rw [modifySectorCache]
  split
  next i hidx =>
    obtain ⟨u, hu, haddr⟩ := getElem?_of_sectorCacheIdx hidx
    refine .inr ⟨i, u, ?_, List.mem_of_getElem? hu, haddr, fun j v hne hget hsame => hne ?_⟩
    · obtain ⟨hi, hget⟩ := List.getElem?_eq_some_iff.mp hu
      rw [List.modify_eq_set, hu]
      rfl
    · exact hd j i v u hget hu (hsame.trans haddr.symm)
  next hidx => exact .inl ⟨rfl, fun v => addr_ne_of_sectorCacheIdx hidx⟩

theorem mem_modifySectorCache (hd : Distinct cache) {f : SecInfo → SecInfo}
    (h : some info ∈ modifySectorCache cache addr f) :
    ∃ u, some u ∈ cache ∧ (u.addr = addr ∧ info = f u ∨ u.addr ≠ addr ∧ info = u) := by
  rcases modifySectorCache_cases hd addr f with ⟨heq, hne⟩ | ⟨i, u, heq, hu, haddr, hne⟩ <;>
    rw [heq] at h
  · exact ⟨info, h, .inr ⟨hne info h, rfl⟩⟩
  · obtain ⟨j, hj⟩ := List.mem_iff_getElem?.mp h
    rcases getElem?_set_cases hj with ⟨-, hs⟩ | ⟨hji, hget⟩
    · exact ⟨u, hu, .inl ⟨haddr, Option.some.inj hs⟩⟩
    · exact ⟨info, List.mem_of_getElem? hget, .inr ⟨hne j info hji hget, rfl⟩⟩

theorem Distinct.modifySectorCache (hd : Distinct cache) (addr : Nat) {f : SecInfo → SecInfo}
    (hf : ∀ u, (f u).addr = u.addr) : Distinct (modifySectorCache cache addr f) := by
  rcases modifySectorCache_cases hd addr f with ⟨heq, -⟩ | ⟨i, u, heq, -, haddr, hne⟩ <;> rw [heq]
  · exact hd
  · refine hd.set fun v hv j w hji hget => ?_
    obtain rfl := Option.some.inj hv
    rw [hf, haddr]
    exact hne j w hji hget

end SectorCache

/-! ## The KV cache -/

/-- What a reader sees of the KV cache: the check value and the address of each
node. -/
def cacheView (cache : List KvCacheNode) : List (BitVec 16 × Option Nat) :=
  cache.map fun node => (node.nameCrc, node.addr)

/-- The address of every live node has the property, and a live node is the first one
with its check value. -/
structure KvCacheOk (P : BitVec 16 → Nat → Prop) (cache : List KvCacheNode) : Prop where
  live : ∀ (i : Nat) crc a, (cacheView cache)[i]? = some (crc, some a) → P crc a
  first : ∀ (i j : Nat) crc e a, i < j → (cacheView cache)[i]? = some (crc, e) →
    (cacheView cache)[j]? ≠ some (crc, some a)

section KvCache

variable {P Q : BitVec 16 → Nat → Prop} {cache cache' : List KvCacheNode}

theorem KvCacheOk.mono (h : KvCacheOk P cache) (hPQ : ∀ crc a, P crc a → Q crc a) :
    KvCacheOk Q cache :=
  ⟨fun i crc a hget => hPQ crc a (h.live i crc a hget), h.first⟩

/-- Only the activity of the nodes has changed. -/
theorem KvCacheOk.of_view_eq (h : KvCacheOk P cache) (heq : cacheView cache' = cacheView cache) :
    KvCacheOk P cache' :=
  ⟨heq ▸ h.live, heq ▸ h.first⟩

/-- One node is changed.  No node before it has the new check value, and no live node
behind it. -/
theorem KvCacheOk.of_view_set (h : KvCacheOk P cache) {i : Nat} {crc : BitVec 16} {e : Option Nat}
    (heq : cacheView cache' = (cacheView cache).set i (crc, e))
    (hfirst : ∀ (j : Nat) e', j ≠ i → (cacheView cache)[j]? = some (crc, e') → i < j ∧ e' = none)
    (hPQ : ∀ c a, c ≠ crc → P c a → Q c a) (he : ∀ a, e = some a → Q crc a) :
    KvCacheOk Q cache' := by
  constructor
  · intro j c a hget
    rw [heq] at hget
    rcases getElem?_set_cases hget with ⟨-, hval⟩ | ⟨hne, hold⟩
    · obtain ⟨hc, ha⟩ := Prod.mk.inj hval
      subst hc
      exact he a ha.symm
    · refine hPQ c a ?_ (h.live j c a hold)
      rintro rfl
      exact absurd (hfirst j _ hne hold).2 (Option.some_ne_none a)
  · intro j k c e' a hlt hj hk
    rw [heq] at hj hk
    rcases getElem?_set_cases hj with ⟨rfl, hvj⟩ | ⟨hji, hgetj⟩ <;>
      rcases getElem?_set_cases hk with ⟨rfl, hvk⟩ | ⟨hki, hgetk⟩
    · omega
    · obtain ⟨rfl, -⟩ := Prod.mk.inj hvj
      exact absurd (hfirst k _ hki hgetk).2 (Option.some_ne_none a)
    · obtain ⟨rfl, -⟩ := Prod.mk.inj hvk
      have := (hfirst j _ hji hgetj).1
      omega
    · exact h.first j k c e' a hlt hgetj hgetk

/-- The other nodes with the check value of the first one stand behind it and are not
live. -/
theorem KvCacheOk.behind_first (h : KvCacheOk P cache) {i : Nat} {crc : BitVec 16}
    {node : KvCacheNode} (hi : cache[i]? = some node) (hnode : node.nameCrc = crc)
    (hbefore : ∀ (j : Nat) n, j < i → cache[j]? = some n → n.nameCrc ≠ crc) (j : Nat)
    (e : Option Nat) (hji : j ≠ i) (hget : (cacheView cache)[j]? = some (crc, e)) :
    i < j ∧ e = none := by
  have hview : (cacheView cache)[i]? = some (crc, node.addr) := by
    rw [cacheView, List.getElem?_map, hi, ← hnode]
    rfl
  have hlt : i < j := by
    by_contra hge
    rw [cacheView, List.getElem?_map, Option.map_eq_some_iff] at hget
    obtain ⟨n, hn, hpair⟩ := hget
    exact hbefore j n (by omega) hn (Prod.mk.inj hpair).1
  refine ⟨hlt, ?_⟩
  cases e with
  | none => rfl
  | some a => exact absurd hget (h.first i j crc node.addr a hlt hview)

/-- The scan over nodes that are for other names. -/
theorem foldl_step_of_ne {crc : BitVec 16} {addr : Nat} :
    ∀ (nodes : List KvCacheNode) (s : CacheScan), s.found = false →
      (∀ node ∈ nodes, node.nameCrc ≠ crc) →
      (nodes.foldl (CacheScan.step crc addr) s).found = false ∧
        cacheView (nodes.foldl (CacheScan.step crc addr) s).passed =
          cacheView s.passed ++ cacheView nodes := by
  intro nodes
  induction nodes with
  | nil => exact fun s hs _ => ⟨hs, (List.append_nil _).symm⟩
  | cons node nodes ih =>
    intro s hs hne
    have hstep : (s.step crc addr node).found = false ∧
        cacheView (s.step crc addr node).passed =
          cacheView s.passed ++ [(node.nameCrc, node.addr)] := by
      rw [CacheScan.step]
      dsimp only
      rw [if_neg (by rw [hs]; decide), if_neg (hne node List.mem_cons_self)]
      split_ifs <;> exact ⟨hs, by simp [cacheView]⟩
    obtain ⟨hfound, hview⟩ := ih _ hstep.1 fun n hn => hne n (List.mem_cons_of_mem _ hn)
    refine ⟨hfound, ?_⟩
    rw [List.foldl_cons, hview, hstep.2, List.append_assoc]
    rfl

/-- Behind the node that was found the scan changes nothing. -/
theorem foldl_step_of_found {crc : BitVec 16} {addr : Nat} :
    ∀ (nodes : List KvCacheNode) (s : CacheScan), s.found = true →
      nodes.foldl (CacheScan.step crc addr) s = { s with passed := s.passed ++ nodes } := by
  intro nodes
  induction nodes with
  | nil => intro s _; rw [List.append_nil]; rfl
  | cons node nodes ih =>
    intro s hs
    have hstep : s.step crc addr node = { s with passed := s.passed ++ [node] } := by
      rw [CacheScan.step]
      exact if_pos hs
    rw [List.foldl_cons, hstep, ih { s with passed := s.passed ++ [node] } hs, List.append_assoc]
    rfl

/-- `update_kv_cache` sets one node, the first one with the check value of the name if
there is one. -/
theorem cacheView_updateKvCache (cache : List KvCacheNode) (name : Bytes) (addr : Nat) :
    (∀ node ∈ cache, node.nameCrc ≠ nameCrc name) ∧
      (cacheView (updateKvCache cache name addr) = cacheView cache ∨
        ∃ i, cacheView (updateKvCache cache name addr) =
          (cacheView cache).set i (nameCrc name, some addr)) ∨
    ∃ pre node post, cache = pre ++ node :: post ∧ node.nameCrc = nameCrc name ∧
      (∀ n ∈ pre, n.nameCrc ≠ nameCrc name) ∧
      cacheView (updateKvCache cache name addr) =
        (cacheView cache).set pre.length (nameCrc name, some addr) := by
  cases hfind : cache.find? fun node => node.nameCrc = nameCrc name with
  | some node =>
    obtain ⟨hnode, pre, post, hsplit, hpre⟩ := List.find?_eq_some_iff_append.mp hfind
    have hnode : node.nameCrc = nameCrc name := by simpa using hnode
    have hpre : ∀ n ∈ pre, n.nameCrc ≠ nameCrc name := fun n hn => by simpa using hpre n hn
    refine .inr ⟨pre, node, post, hsplit, hnode, hpre, ?_⟩
    -- the scan stops to change nodes behind the one it has found
    obtain ⟨hfound, hview⟩ := @foldl_step_of_ne (nameCrc name) addr pre
      ⟨[], false, none, 0xFFFF, none⟩ rfl hpre
    have hscan : ∃ passed, cacheView passed = cacheView pre ∧
        (updateKvCache cache name addr) = passed ++ { node with addr := some addr } :: post := by
      refine ⟨_, hview, ?_⟩
      generalize hs : pre.foldl (CacheScan.step (nameCrc name) addr)
        ⟨[], false, none, 0xFFFF, none⟩ = s at hfound
      have hstep : s.step (nameCrc name) addr node =
          { s with passed := s.passed ++ [{ node with addr := some addr }], found := true } := by
        rw [CacheScan.step]
        dsimp only
        rw [if_neg (by rw [hfound]; decide), if_pos hnode]
      rw [updateKvCache, hsplit, List.foldl_append, hs, List.foldl_cons, hstep,
        foldl_step_of_found _ _ rfl]
      simp
    obtain ⟨passed, hpassed, heq⟩ := hscan
    have hlen : pre.length = (cacheView pre).length := by rw [cacheView, List.length_map]
    rw [heq, hsplit, cacheView, List.map_append, List.map_cons, ← hnode]
    rw [show cacheView (pre ++ node :: post) =
      cacheView pre ++ (node.nameCrc, node.addr) :: cacheView post by simp [cacheView], hlen,
      List.set_append_right _ _ (Nat.le_refl _), Nat.sub_self]
    exact congrArg (· ++ (node.nameCrc, some addr) :: cacheView post) hpassed
  | none =>
    have hne : ∀ node ∈ cache, node.nameCrc ≠ nameCrc name := fun n hn => by
      simpa using List.find?_eq_none.mp hfind n hn
    refine .inl ⟨hne, ?_⟩
    obtain ⟨hfound, hview⟩ := @foldl_step_of_ne (nameCrc name) addr cache
      ⟨[], false, none, 0xFFFF, none⟩ rfl hne
    rw [updateKvCache]
    generalize cache.foldl (CacheScan.step (nameCrc name) addr)
      ⟨[], false, none, 0xFFFF, none⟩ = s at hfound hview ⊢
    have hset : ∀ i (node : KvCacheNode), cacheView (s.passed.set i node) =
        (cacheView cache).set i (node.nameCrc, node.addr) := by
      intro i node
      rw [cacheView, List.map_set]
      exact congrArg (fun l => l.set i (node.nameCrc, node.addr)) hview
    rw [if_neg (by rw [hfound]; decide)]
    split
    · exact .inr ⟨_, hset _ _⟩
    · exact .inr ⟨_, hset _ _⟩
    · exact .inl hview

/-- The table after `update_kv_cache` with an address that has the property. -/
theorem KvCacheOk.update (h : KvCacheOk P cache) {name : Bytes} {addr : Nat}
    (hPQ : ∀ crc a, crc ≠ nameCrc name → P crc a → Q crc a) (hnew : Q (nameCrc name) addr) :
    KvCacheOk Q (updateKvCache cache name addr) := by
  have he : ∀ a, some addr = some a → Q (nameCrc name) a := fun a ha => Option.some.inj ha ▸ hnew
  rcases cacheView_updateKvCache cache name addr with ⟨hne, hcase⟩ |
    ⟨pre, node, post, hsplit, hnode, hpre, heq⟩
  · have habsent : ∀ (j : Nat) e, (cacheView cache)[j]? ≠ some (nameCrc name, e) := by
      intro j e hget
      rw [cacheView, List.getElem?_map, Option.map_eq_some_iff] at hget
      obtain ⟨node, hnode, hpair⟩ := hget
      exact hne node (List.mem_of_getElem? hnode) (Prod.mk.inj hpair).1
    rcases hcase with heq | ⟨i, heq⟩
    · -- no slot was free
      have hmono : KvCacheOk Q cache := by
        refine ⟨fun i crc a hget => hPQ crc a ?_ (h.live i crc a hget), h.first⟩
        rintro rfl
        exact habsent i _ hget
      exact hmono.of_view_eq heq
    · exact h.of_view_set heq (fun j e' _ hget => absurd hget (habsent j e')) hPQ he
  · refine h.of_view_set heq (fun j e' hji hget => ?_) hPQ he
    refine h.behind_first (i := pre.length) (by rw [hsplit]; simp) hnode (fun k n hk hn => ?_) j e'
      hji hget
    rw [hsplit, List.getElem?_append_left hk] at hn
    exact hpre n (List.mem_of_getElem? hn)

/-- The table after `update_kv_cache` with no address. -/
theorem KvCacheOk.delete (h : KvCacheOk P cache) {name : Bytes}
    (hPQ : ∀ crc a, crc ≠ nameCrc name → P crc a → Q crc a) :
    KvCacheOk Q (deleteKvCache cache name) := by
  rw [deleteKvCache]
  split
  next i hidx =>
    obtain ⟨hi, hcrc, hbefore⟩ := List.findIdx?_eq_some_iff_getElem.mp hidx
    have hcrc : cache[i].nameCrc = nameCrc name := by simpa using hcrc
    have heq : cacheView (cache.modify i fun node => { node with addr := none, active := 0 }) =
        (cacheView cache).set i (nameCrc name, none) := by
      rw [List.modify_eq_set_getElem?, List.getElem?_eq_getElem hi, ← hcrc]
      exact List.map_set
    refine h.of_view_set heq (fun j e' hji hget => ?_) hPQ fun a ha => absurd ha.symm
      (Option.some_ne_none a)
    refine h.behind_first (List.getElem?_eq_getElem hi) hcrc (fun k n hk hn => ?_) j e' hji hget
    obtain ⟨hlt, rfl⟩ := List.getElem?_eq_some_iff.mp hn
    simpa using hbefore k hk
  next hidx =>
    refine ⟨fun i crc a hget => hPQ crc a ?_ (h.live i crc a hget), h.first⟩
    rintro rfl
    rw [cacheView, List.getElem?_map, Option.map_eq_some_iff] at hget
    obtain ⟨node, hnode, hpair⟩ := hget
    have := List.findIdx?_eq_none_iff.mp hidx node (List.mem_of_getElem? hnode)
    exact absurd (Prod.mk.inj hpair).1 (by simpa using this)

/-- A hit changes the activity of a node only. -/
theorem cacheView_hit (cache : List KvCacheNode) (i : Nat) :
    cacheView (cache.modify i KvCacheNode.hit) = cacheView cache := by
  refine List.ext_getElem? fun j => ?_
  rw [cacheView, cacheView, List.getElem?_map, List.getElem?_map, List.getElem?_modify]
  cases cache[j]? with
  | none => rfl
  | some node =>
    rw [Option.map_eq_map, Option.map_some, Option.map_some, Option.map_some]
    split_ifs <;> rfl

end KvCache

end Hc32Board.FlashDb
