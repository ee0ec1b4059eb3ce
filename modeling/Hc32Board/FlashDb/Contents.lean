import Hc32Board.FlashDb.Write
import Mathlib.Algebra.BigOperators.Group.Finset.Piecewise
import Mathlib.Algebra.Order.BigOperators.Group.Finset

/-!
# What the sectors stand for

The live records of a row of sectors stand for a map from keys to values.  The writes of
the database are three changes of the sectors: a record gets a later status (`markRec`),
a record is added (`addRec`) and a sector is formatted (`clearSec`).  For each of them
there is a lemma about the live records, and later proofs use these lemmas only.

A record that takes the place of another one is `replaceRec`.  `set_kv` uses it with
another value for the key, and `move_kv` with the same value in another sector.

`Within` bounds the space that the records of a map take.
-/

namespace Hc32Board.FlashDb

open Hc32Board.CodeLib

/-! ## Records under the changes -/

/-- The record at an offset of a sector. -/
def Sec.atOffset (s : Sec) (b : Nat) : Option Rec :=
  if sectorHdrDataSize ≤ b then recAt s.recs (b - sectorHdrDataSize) else none

section Records

variable {z n i o a : Nat} {st : Nat → Sec} {r : Rec} {key value : Bytes}

theorem storeRecAt_eq : storeRecAt z st a = (st (a / z)).atOffset (a % z) := rfl

theorem Sec.atOffset_withStatus (s : Sec) (o b : Nat) (t : KvStatus) :
    (s.withStatus o t).atOffset b =
      if b = sectorHdrDataSize + o then (s.atOffset b).map fun r => { r with status := t }
      else s.atOffset b := by
  unfold Sec.atOffset Sec.withStatus
  rw [recAt_setStatusAt]
  rcases Nat.lt_or_ge b sectorHdrDataSize with hlt | hge
  · rw [if_neg (Nat.not_le.mpr hlt), if_neg (Nat.not_le.mpr hlt), if_neg (by omega)]
  · rw [if_pos hge, if_pos hge]
    refine ite_congr (by rw [eq_iff_iff]; omega) (fun heq => ?_) fun _ => rfl
    rw [heq, Nat.add_sub_cancel_left]

theorem Sec.atOffset_append (s : Sec) (t : StoreStatus) (r : Rec) (b : Nat) :
    Sec.atOffset { s with store := t, recs := s.recs ++ [r] } b =
      if b = s.used then some r else s.atOffset b := by
  unfold Sec.atOffset Sec.used
  rw [recAt_concat]
  rcases Nat.lt_or_ge b sectorHdrDataSize with hlt | hge
  · rw [if_neg (by omega), if_neg (by omega), if_neg (by omega)]
  · rw [if_pos hge, if_pos hge]
    exact ite_congr (by rw [eq_iff_iff]; omega) (fun _ => rfl) fun _ => rfl

/-- The address of an offset in a sector. -/
theorem addr_eq_iff (ho : o < z) : a = i * z + o ↔ a / z = i ∧ a % z = o := by
  have hz : 0 < z := by omega
  constructor
  · rintro rfl
    rw [Nat.mul_comm, Nat.mul_add_mod, Nat.mod_eq_of_lt ho, Nat.mul_add_div hz,
      Nat.div_eq_of_lt ho]
    exact ⟨rfl, rfl⟩
  · rintro ⟨rfl, rfl⟩
    rw [Nat.mul_comm, Nat.div_add_mod]

theorem storeRecAt_markRec (ho : sectorHdrDataSize + o < z) (t : KvStatus) :
    storeRecAt z (markRec st i o t) a =
      if a = i * z + (sectorHdrDataSize + o) then
        (storeRecAt z st a).map fun r => { r with status := t }
      else storeRecAt z st a := by
  rw [storeRecAt_eq, storeRecAt_eq, markRec]
  by_cases hi : a / z = i
  · rw [hi, Function.update_self]
    refine (Sec.atOffset_withStatus (st i) o (a % z) t).trans
      (ite_congr ?_ (fun _ => rfl) fun _ => rfl)
    rw [eq_iff_iff, addr_eq_iff ho, and_iff_right hi]
  · rw [Function.update_of_ne hi, if_neg fun heq => hi ((addr_eq_iff ho).mp heq).1]

theorem storeRecAt_addRec (hused : (st i).used < z) (r : Rec) :
    storeRecAt z (addRec st i r) a =
      if a = i * z + (st i).used then some r else storeRecAt z st a := by
  rw [storeRecAt_eq, storeRecAt_eq, addRec]
  by_cases hi : a / z = i
  · rw [hi, Function.update_self, Sec.atOffset_append]
    refine ite_congr ?_ (fun _ => rfl) fun _ => rfl
    rw [eq_iff_iff, addr_eq_iff hused, and_iff_right hi]
  · rw [Function.update_of_ne hi, if_neg fun heq => hi ((addr_eq_iff hused).mp heq).1]

/-- Nothing is behind the last record. -/
theorem storeRecAt_used (hused : (st i).used < z) :
    storeRecAt z st (i * z + (st i).used) = none := by
  obtain ⟨hdiv, hmod⟩ := (addr_eq_iff hused).mp rfl
  rw [storeRecAt_eq, hdiv, hmod, Sec.atOffset, Sec.used, if_pos (Nat.le_add_right _ _),
    Nat.add_sub_cancel_left]
  cases hrec : recAt (st i).recs (recsLen (st i).recs) with
  | none => rfl
  | some r =>
    have hlt := recAt_lt hrec
    have hpos := r.len_pos
    omega

theorem storeRecAt_clearSec :
    storeRecAt z (clearSec st i) a = if a / z = i then none else storeRecAt z st a := by
  rw [storeRecAt_eq, storeRecAt_eq, clearSec]
  by_cases hi : a / z = i
  · rw [hi, Function.update_self, if_pos rfl, Sec.atOffset]
    split_ifs <;> rfl
  · rw [Function.update_of_ne hi, if_neg hi]

/-! ## Live records under the changes -/

theorem live_markRec (ho : sectorHdrDataSize + o < z) {t : KvStatus} (ht : t ≠ .write) :
    Live z n (markRec st i o t) a key value ↔
      Live z n st a key value ∧ a ≠ i * z + (sectorHdrDataSize + o) := by
  unfold Live
  rw [storeRecAt_markRec ho]
  by_cases heq : a = i * z + (sectorHdrDataSize + o)
  · rw [if_pos heq, Option.map_eq_some_iff]
    constructor
    · rintro ⟨-, r, -, hr⟩
      exact absurd (congrArg Rec.status hr) ht
    · exact fun h => absurd heq h.2
  · rw [if_neg heq]
    exact (and_iff_left heq).symm

theorem live_addRec (hi : i < n) (hused : (st i).used < z) (r : Rec) :
    Live z n (addRec st i r) a key value ↔
      a = i * z + (st i).used ∧ r = ⟨.write, key, value⟩ ∨ Live z n st a key value := by
  have hend := sector_end_le (z := z) hi
  unfold Live
  rw [storeRecAt_addRec hused]
  by_cases heq : a = i * z + (st i).used
  · rw [if_pos heq, heq, storeRecAt_used hused, Option.some_inj]
    constructor
    · exact fun h => .inl ⟨rfl, h.2⟩
    · rintro (⟨-, hr⟩ | ⟨-, hr⟩)
      · exact ⟨by omega, hr⟩
      · exact absurd hr.symm (Option.some_ne_none _)
  · rw [if_neg heq]
    constructor
    · exact .inr
    · rintro (⟨ha, -⟩ | h)
      · exact absurd ha heq
      · exact h

theorem live_clearSec :
    Live z n (clearSec st i) a key value ↔ Live z n st a key value ∧ a / z ≠ i := by
  unfold Live
  rw [storeRecAt_clearSec]
  by_cases hi : a / z = i
  · rw [if_pos hi]
    exact ⟨fun h => absurd h.2.symm (Option.some_ne_none _), fun h => absurd hi h.2⟩
  · rw [if_neg hi]
    exact (and_iff_left hi).symm

/-- Live records are a matter of the records only. -/
theorem live_congr {st' : Nat → Sec} (h : ∀ i, (st' i).recs = (st i).recs) :
    Live z n st' a key value ↔ Live z n st a key value := by
  unfold Live storeRecAt
  rw [h]

end Records

/-! ## A record in the place of another one -/

/-- The sectors when the record at offset `o` of sector `j` has given way to a record in
sector `i`. -/
def replaceRec (st : Nat → Sec) (j o i : Nat) (r : Rec) : Nat → Sec :=
  markRec (addRec (markRec st j o .preDelete) i r) j o .deleted

section Replace

variable {z n i j o a : Nat} {st : Nat → Sec} {r : Rec} {key value : Bytes}

theorem used_markRec (t : KvStatus) : (markRec st j o t i).used = (st i).used := by
  rw [markRec]
  rcases eq_or_ne i j with rfl | hne
  · rw [Function.update_self]
    exact Sec.used_withStatus (st i) o t
  · rw [Function.update_of_ne hne]

theorem live_replaceRec (hi : i < n) (hused : (st i).used < z) (ho : sectorHdrDataSize + o < z)
    (hold : storeRecAt z st (j * z + (sectorHdrDataSize + o)) ≠ none) (r : Rec) :
    Live z n (replaceRec st j o i r) a key value ↔
      a = i * z + (st i).used ∧ r = ⟨.write, key, value⟩ ∨
        Live z n st a key value ∧ a ≠ j * z + (sectorHdrDataSize + o) := by
  have hnew : i * z + (st i).used ≠ j * z + (sectorHdrDataSize + o) := by
    intro heq
    rw [← heq] at hold
    exact hold (storeRecAt_used hused)
  rw [replaceRec, live_markRec ho (by decide), live_addRec hi (by rw [used_markRec]; exact hused),
    used_markRec, live_markRec ho (by decide)]
  constructor
  · rintro ⟨hcase | hcase, hne⟩
    · exact .inl hcase
    · exact .inr hcase
  · rintro (⟨rfl, hr⟩ | hcase)
    · exact ⟨.inl ⟨rfl, hr⟩, hnew⟩
    · exact ⟨.inr hcase, hcase.2⟩

end Replace

/-! ## The map -/

/-- The live records stand for the map, with one record for each key of it. -/
structure Stands (z n : Nat) (st : Nat → Sec) (m : Bytes → Option Bytes) : Prop where
  holds : ∀ key value, m key = some value ↔ ∃ a, Live z n st a key value
  unique : ∀ key a a' value value', Live z n st a key value → Live z n st a' key value' → a = a'

section Stands

variable {z n i j o a : Nat} {st st' : Nat → Sec} {key value : Bytes} {m : Bytes → Option Bytes}

theorem Stands.eq_none (h : Stands z n st m) (hnone : ∀ a value, ¬ Live z n st a key value) :
    m key = none := by
  cases hm : m key with
  | none => rfl
  | some value =>
    obtain ⟨a, hlive⟩ := (h.holds key value).mp hm
    exact absurd hlive (hnone a value)

theorem Stands.congr (h : Stands z n st m)
    (heq : ∀ a key value, Live z n st' a key value ↔ Live z n st a key value) :
    Stands z n st' m where
  holds key value := by
    rw [h.holds]
    exact exists_congr fun a => (heq a key value).symm
  unique key a a' value value' hl hl' := h.unique key a a' value value' ((heq _ _ _).mp hl)
    ((heq _ _ _).mp hl')

/-- A key has one live record, and this one is gone. -/
theorem Stands.erase (h : Stands z n st m) (hlive : Live z n st a key value)
    (heq : ∀ a' k v, Live z n st' a' k v ↔ Live z n st a' k v ∧ a' ≠ a) :
    Stands z n st' (Function.update m key none) where
  holds k v := by
    rcases eq_or_ne k key with rfl | hne
    · rw [Function.update_self]
      refine ⟨fun hv => absurd hv.symm (Option.some_ne_none v), ?_⟩
      rintro ⟨a', hl⟩
      obtain ⟨hl, hne⟩ := (heq a' k v).mp hl
      exact absurd (h.unique k a' a v value hl hlive) hne
    · rw [Function.update_of_ne hne, h.holds]
      refine exists_congr fun a' => ?_
      rw [heq]
      refine (and_iff_left_of_imp ?_).symm
      rintro hl rfl
      have hrec := hl.2.symm.trans hlive.2
      exact hne (congrArg Rec.name (Option.some.inj hrec))
  unique k a1 a2 v v' hl hl' := h.unique k a1 a2 v v' ((heq _ _ _).mp hl).1 ((heq _ _ _).mp hl').1

/-- A key without a live record gets one. -/
theorem Stands.insert {b : Nat} (h : Stands z n st m) (hnone : ∀ a v, ¬ Live z n st a key v)
    (heq : ∀ a' k v, Live z n st' a' k v ↔
      a' = b ∧ (⟨.write, key, value⟩ : Rec) = ⟨.write, k, v⟩ ∨ Live z n st a' k v) :
    Stands z n st' (Function.update m key (some value)) where
  holds k v := by
    rcases eq_or_ne k key with rfl | hne
    · rw [Function.update_self, Option.some_inj]
      constructor
      · rintro rfl
        exact ⟨b, (heq b k value).mpr (.inl ⟨rfl, rfl⟩)⟩
      · rintro ⟨a', hl⟩
        rcases (heq a' k v).mp hl with ⟨-, hrec⟩ | hold
        · exact congrArg Rec.value hrec
        · exact absurd hold (hnone a' v)
    · rw [Function.update_of_ne hne, h.holds]
      refine exists_congr fun a' => ?_
      rw [heq]
      refine (or_iff_right ?_).symm
      rintro ⟨-, hrec⟩
      exact hne (congrArg Rec.name hrec).symm
  unique k a1 a2 v v' hl hl' := by
    rcases (heq a1 k v).mp hl with ⟨rfl, hrec⟩ | hold <;>
      rcases (heq a2 k v').mp hl' with ⟨rfl, hrec'⟩ | hold'
    · rfl
    · obtain rfl : key = k := congrArg Rec.name hrec
      exact absurd hold' (hnone a2 v')
    · obtain rfl : key = k := congrArg Rec.name hrec'
      exact absurd hold (hnone a1 v)
    · exact h.unique k a1 a2 v v' hold hold'

/-- The record of a key gives way to another one. -/
theorem Stands.replace {value' : Bytes} (h : Stands z n st m) (hi : i < n) (hused : (st i).used < z)
    (ho : sectorHdrDataSize + o < z)
    (hlive : Live z n st (j * z + (sectorHdrDataSize + o)) key value) :
    Stands z n (replaceRec st j o i ⟨.write, key, value'⟩)
      (Function.update m key (some value')) := by
  have hold : storeRecAt z st (j * z + (sectorHdrDataSize + o)) ≠ none := by
    rw [hlive.2]
    exact Option.some_ne_none _
  have hmid : ∀ a k v, Live z n (markRec st j o .preDelete) a k v ↔
      Live z n st a k v ∧ a ≠ j * z + (sectorHdrDataSize + o) := fun a k v =>
    live_markRec ho (by decide)
  have hnone : ∀ a v, ¬ Live z n (markRec st j o .preDelete) a key v := by
    intro a v hl
    obtain ⟨hl, hne⟩ := (hmid a key v).mp hl
    exact hne (h.unique key a _ v value hl hlive)
  have hidem : Function.update (Function.update m key none) key (some value') =
      Function.update m key (some value') := Function.update_idem _ _ _
  rw [← hidem]
  refine (h.erase hlive hmid).insert hnone (b := i * z + (st i).used) fun a k v => ?_
  rw [live_replaceRec hi hused ho hold, hmid]

/-! ## The space of a map -/

/-- The length of the record of a key. -/
def entryLen (m : Bytes → Option Bytes) (key : Bytes) : Nat :=
  (m key).elim 0 fun value => kvHdrDataSize + key.length + value.length

/-- The records of the map take `total` bytes at most. -/
def Within (m : Bytes → Option Bytes) (total : Nat) : Prop :=
  ∀ keys : Finset Bytes, ∑ key ∈ keys, entryLen m key ≤ total

theorem within_none : Within (fun _ => none) 0 := fun _ =>
  Nat.le_of_eq (Finset.sum_eq_zero fun _ _ => rfl)

theorem Within.update {total : Nat} (h : Within m total) (key value : Bytes) :
    Within (Function.update m key (some value))
      (total + (kvHdrDataSize + key.length + value.length)) := by
  intro keys
  have hle : ∀ k ∈ keys, entryLen (Function.update m key (some value)) k ≤
      entryLen m k + if k = key then kvHdrDataSize + key.length + value.length else 0 := by
    intro k _
    rcases eq_or_ne k key with rfl | hne
    · rw [entryLen, Function.update_self, if_pos rfl, Option.elim_some]
      omega
    · rw [entryLen, Function.update_of_ne hne, if_neg hne]
      exact Nat.le_refl _
  refine (Finset.sum_le_sum hle).trans ?_
  rw [Finset.sum_add_distrib, Finset.sum_ite_eq']
  have hold := h keys
  split_ifs <;> omega

/-- The records of a sector have different keys when all of them are live. -/
theorem Stands.nodup_names {db : Kvdb} (h : Stands z n st m) (hrep : Rep z n st db) (hi : i < n)
    (hlive : ∀ r ∈ (st i).recs, r.status = .write) : ((st i).recs.map Rec.name).Nodup := by
  have hsuffix : ∀ post pre, (st i).recs = pre ++ post → (post.map Rec.name).Nodup := by
    intro post
    induction post with
    | nil => exact fun _ _ => List.nodup_nil
    | cons r post ih =>
      intro pre hrecs
      rw [List.map_cons, List.nodup_cons]
      refine ⟨fun hmem => ?_, ih (pre ++ [r]) (by rw [hrecs, List.append_assoc]; rfl)⟩
      -- two records of one key are at one address
      obtain ⟨r', hr', hname⟩ := List.mem_map.mp hmem
      obtain ⟨mid, rest, rfl⟩ := List.append_of_mem hr'
      have hst := hlive r (by rw [hrecs]; simp)
      have hst' := hlive r' (by rw [hrecs]; simp)
      obtain ⟨status, name, value⟩ := r
      obtain ⟨status', name', value'⟩ := r'
      obtain rfl : status = .write := hst
      obtain rfl : status' = .write := hst'
      obtain rfl : name' = name := hname
      have hrecs' : (st i).recs =
          (pre ++ ⟨.write, name', value⟩ :: mid) ++ ⟨.write, name', value'⟩ :: rest := by
        rw [hrecs, List.append_assoc, List.cons_append]
      have haddr := h.unique name' _ _ value value' (hrep.live hi hrecs) (hrep.live hi hrecs')
      have hpos := Rec.len_pos ⟨.write, name', value⟩
      rw [recsLen_append, recsLen_cons] at haddr
      omega
  exact hsuffix _ [] rfl

/-- Live records take no more than the map. -/
theorem Stands.recsLen_le {db : Kvdb} {total : Nat} (h : Stands z n st m) (hrep : Rep z n st db)
    (hi : i < n) (hlive : ∀ r ∈ (st i).recs, r.status = .write) (hwithin : Within m total) :
    recsLen (st i).recs ≤ total := by
  have hlen : ∀ r ∈ (st i).recs, r.len = entryLen m r.name := by
    intro r hr
    obtain ⟨pre, post, hrecs⟩ := List.append_of_mem hr
    have hst := hlive r hr
    obtain ⟨status, name, value⟩ := r
    obtain rfl : status = .write := hst
    rw [entryLen, (h.holds name value).mpr ⟨_, hrep.live hi hrecs⟩]
    rfl
  have hsum := List.sum_toFinset (entryLen m) (h.nodup_names hrep hi hlive)
  rw [List.map_map] at hsum
  calc recsLen (st i).recs = ((st i).recs.map (entryLen m ∘ Rec.name)).sum := by
        rw [recsLen, List.map_congr_left hlen]
        rfl
    _ ≤ total := hsum ▸ hwithin _

end Stands

end Hc32Board.FlashDb
