import Hc32Board.FlashDb.KvdbWrite

/-!
# What a sector holds

A sector that the database has written is a list of records.  `SecAt` says that the
flash holds the bytes of such a sector and is erased behind them.

* `recAt` finds the record at an offset.  It is a function of the offset, so two
  records never share an address.
* `SecAt.setStatus`, `SecAt.append`, `SecAt.setStore`, `SecAt.setDirty` and
  `secAt_format` say what the writes of the database do to a sector.  Each of them
  programs bits from one to zero or writes to erased flash.
* `program_record` puts the five writes of a new record together.
-/

namespace Hc32Board.FlashDb

open Hc32Board.CodeLib

/-! ## Status bytes -/

def KvStatus.byte (s : KvStatus) : UInt8 := 0xFF >>> UInt8.ofNat s.index

def StoreStatus.byte (s : StoreStatus) : UInt8 := 0xFF >>> UInt8.ofNat s.index

def DirtyStatus.byte (s : DirtyStatus) : UInt8 := 0xFF >>> UInt8.ofNat s.index

/-- A table of one byte is read from that byte alone. -/
theorem fdbGetStatus_cons {num : Nat} (h : num ≤ 9) (b : UInt8) (rest : Bytes) :
    fdbGetStatus (b :: rest) num = fdbGetStatus [b] num := by
  have hloop : ∀ n ≤ 8, getStatusLoop (b :: rest) n = getStatusLoop [b] n := by
    intro n hn
    induction n with
    | zero => rfl
    | succ n ih =>
      rw [getStatusLoop, getStatusLoop, ih (by omega), Nat.div_eq_of_lt (by omega),
        List.getD_cons_zero, List.getD_cons_zero]
  exact hloop _ (by omega)

/-- A status byte reads as the status. -/
theorem KvStatus.ofIndex_byte (s : KvStatus) (rest : Bytes) :
    KvStatus.ofIndex (fdbGetStatus (s.byte :: rest) kvStatusNum) = s := by
  rw [fdbGetStatus_cons (by decide)]
  cases s <;> decide

theorem StoreStatus.ofIndex_byte (s : StoreStatus) (rest : Bytes) :
    StoreStatus.ofIndex (fdbGetStatus (s.byte :: rest) storeStatusNum) = s := by
  rw [fdbGetStatus_cons (by decide)]
  cases s <;> decide

theorem DirtyStatus.index_byte (s : DirtyStatus) (rest : Bytes) :
    fdbGetStatus (s.byte :: rest) dirtyStatusNum = s.index := by
  rw [fdbGetStatus_cons (by decide)]
  cases s <;> decide

theorem DirtyStatus.ofIndex_index (s : DirtyStatus) : DirtyStatus.ofIndex s.index = s := by
  cases s <;> rfl

/-- A later status is programmed over an earlier one. -/
theorem KvStatus.byte_and {s t : KvStatus} (h : s.index ≤ t.index) :
    s.byte &&& t.byte = t.byte := by
  revert h
  cases s <;> cases t <;> decide

theorem StoreStatus.byte_and {s t : StoreStatus} (h : s.index ≤ t.index) :
    s.byte &&& t.byte = t.byte := by
  revert h
  cases s <;> cases t <;> decide

theorem DirtyStatus.byte_and {s t : DirtyStatus} (h : s.index ≤ t.index) :
    s.byte &&& t.byte = t.byte := by
  revert h
  cases s <;> cases t <;> decide

/-! ## Records -/

structure Rec where
  status : KvStatus
  name : Bytes
  value : Bytes
deriving DecidableEq, Repr

def Rec.len (r : Rec) : Nat := kvHdrDataSize + r.name.length + r.value.length

/-- The record from its magic word on. -/
def Rec.data (r : Rec) : Bytes := kvHdr r.name r.value ++ r.name ++ r.value

def Rec.bytes (r : Rec) : Bytes := r.status.byte :: ([0xFF, 0xFF, 0xFF] ++ r.data)

@[simp] theorem length_kvHdr (key value : Bytes) : (kvHdr key value).length = 20 := rfl

@[simp] theorem Rec.length_data (r : Rec) : r.data.length + 4 = r.len := by
  simp only [Rec.data, List.length_append, length_kvHdr, Rec.len, kvHdrDataSize]
  omega

@[simp] theorem Rec.length_bytes (r : Rec) : r.bytes.length = r.len := by
  rw [← r.length_data]
  rfl

theorem Rec.len_pos (r : Rec) : 24 ≤ r.len := by
  unfold Rec.len kvHdrDataSize
  omega

/-- A record that `create_kv_blob` can have written. -/
structure Rec.Ok (r : Rec) : Prop where
  status : r.status = .write ∨ r.status = .preDelete ∨ r.status = .deleted
  name_lt : r.name.length < fdbKvNameMax
  no_nul : (0 : UInt8) ∉ r.name

def recsLen (rs : List Rec) : Nat := (rs.map Rec.len).sum

@[simp] theorem recsLen_nil : recsLen [] = 0 := rfl

@[simp] theorem recsLen_cons (r : Rec) (rs : List Rec) :
    recsLen (r :: rs) = r.len + recsLen rs := by
  simp [recsLen]

@[simp] theorem recsLen_append (rs rs' : List Rec) :
    recsLen (rs ++ rs') = recsLen rs + recsLen rs' := by
  simp [recsLen]

theorem length_flatMap_bytes (rs : List Rec) : (rs.flatMap Rec.bytes).length = recsLen rs := by
  induction rs with
  | nil => rfl
  | cons r rs ih => rw [List.flatMap_cons, List.length_append, ih, r.length_bytes, recsLen_cons]

/-- The record that starts at an offset. -/
def recAt : List Rec → Nat → Option Rec
  | [], _ => none
  | r :: rs, o => if o = 0 then some r else if o < r.len then none else recAt rs (o - r.len)

theorem recAt_append_cons (pre post : List Rec) (r : Rec) :
    recAt (pre ++ r :: post) (recsLen pre) = some r := by
  induction pre with
  | nil => rfl
  | cons p pre ih =>
    have hpos := p.len_pos
    rw [List.cons_append, recAt, recsLen_cons, if_neg (by omega), if_neg (by omega),
      Nat.add_sub_cancel_left, ih]

/-- A record that is found stands in the list. -/
theorem exists_of_recAt {rs : List Rec} {o : Nat} {r : Rec} (h : recAt rs o = some r) :
    ∃ pre post, rs = pre ++ r :: post ∧ o = recsLen pre := by
  induction rs generalizing o with
  | nil => exact absurd h (by simp [recAt])
  | cons p rs ih =>
    rw [recAt] at h
    split_ifs at h with hzero hlt
    · obtain rfl := Option.some.inj h
      exact ⟨[], rs, rfl, hzero⟩
    · obtain ⟨pre, post, rfl, ho⟩ := ih h
      exact ⟨p :: pre, post, rfl, by rw [recsLen_cons]; omega⟩

theorem recAt_lt {rs : List Rec} {o : Nat} {r : Rec} (h : recAt rs o = some r) :
    o + r.len ≤ recsLen rs := by
  obtain ⟨pre, post, rfl, rfl⟩ := exists_of_recAt h
  rw [recsLen_append, recsLen_cons]
  omega

theorem mem_of_recAt {rs : List Rec} {o : Nat} {r : Rec} (h : recAt rs o = some r) : r ∈ rs := by
  obtain ⟨pre, post, rfl, -⟩ := exists_of_recAt h
  simp

/-- A record behind the others. -/
theorem recAt_concat (rs : List Rec) (r : Rec) (o : Nat) :
    recAt (rs ++ [r]) o = if o = recsLen rs then some r else recAt rs o := by
  induction rs generalizing o with
  | nil =>
    rw [List.nil_append, recsLen_nil, recAt.eq_2, recAt.eq_1, recAt.eq_1, ite_self]
  | cons p rs ih =>
    have hpos := p.len_pos
    rw [List.cons_append, recAt, recAt, ih, recsLen_cons]
    split_ifs <;> first | rfl | omega

/-- The status of the record at an offset is changed. -/
def setStatusAt : List Rec → Nat → KvStatus → List Rec
  | [], _, _ => []
  | r :: rs, o, t =>
    if o = 0 then { r with status := t } :: rs
    else if o < r.len then r :: rs
    else r :: setStatusAt rs (o - r.len) t

theorem setStatusAt_append_cons (pre post : List Rec) (r : Rec) (t : KvStatus) :
    setStatusAt (pre ++ r :: post) (recsLen pre) t = pre ++ { r with status := t } :: post := by
  induction pre with
  | nil => rfl
  | cons p pre ih =>
    have hpos := p.len_pos
    rw [List.cons_append, setStatusAt, recsLen_cons, if_neg (by omega), if_neg (by omega),
      Nat.add_sub_cancel_left, ih]
    rfl

theorem recAt_setStatusAt (rs : List Rec) (o o' : Nat) (t : KvStatus) :
    recAt (setStatusAt rs o t) o' =
      if o' = o then (recAt rs o).map fun r => { r with status := t } else recAt rs o' := by
  induction rs generalizing o o' with
  | nil =>
    rw [setStatusAt, recAt]
    split_ifs <;> rfl
  | cons r rs ih =>
    have hpos := r.len_pos
    have hlen : ({ r with status := t } : Rec).len = r.len := rfl
    rcases Nat.eq_zero_or_pos o with rfl | ho
    · rw [setStatusAt, if_pos rfl, recAt, recAt, recAt, if_pos rfl, hlen]
      split_ifs <;> rfl
    rcases Nat.lt_or_ge o r.len with hlt | hge
    · rw [setStatusAt, if_neg (by omega), if_pos hlt]
      split_ifs with heq
      · rw [heq, recAt, if_neg (by omega), if_pos hlt]
        rfl
      · rfl
    · rw [setStatusAt, if_neg (by omega), if_neg (by omega), recAt, ih, recAt, recAt,
        if_neg (show ¬ o = 0 by omega), if_neg (show ¬ o < r.len by omega)]
      split_ifs <;> first | rfl | omega

theorem recsLen_setStatusAt (rs : List Rec) (o : Nat) (t : KvStatus) :
    recsLen (setStatusAt rs o t) = recsLen rs := by
  induction rs generalizing o with
  | nil => rfl
  | cons r rs ih =>
    rw [setStatusAt]
    split_ifs
    · rfl
    · rfl
    · rw [recsLen_cons, ih, recsLen_cons]

/-! ## Sectors -/

structure Sec where
  store : StoreStatus
  dirty : DirtyStatus
  recs : List Rec
deriving DecidableEq, Repr

/-- A formatted sector. -/
def Sec.blank : Sec := ⟨.empty, .no, []⟩

def Sec.used (s : Sec) : Nat := sectorHdrDataSize + recsLen s.recs

def Sec.bytes (s : Sec) : Bytes :=
  sectorHdr s.store.byte s.dirty.byte sectorNotCombined ++ s.recs.flatMap Rec.bytes

@[simp] theorem length_sectorHdr (store dirty : UInt8) (combined : BitVec 32) :
    (sectorHdr store dirty combined).length = sectorHdrDataSize := rfl

theorem Sec.length_bytes (s : Sec) : s.bytes.length = s.used := by
  rw [Sec.bytes, List.length_append, length_flatMap_bytes, length_sectorHdr, Sec.used]

/-- A sector that the database can have written, with sectors of `z` bytes. -/
structure Sec.Ok (z : Nat) (s : Sec) : Prop where
  room : s.used + fdbSecRemainThreshold < z
  recs : ∀ r ∈ s.recs, r.Ok
  store : s.store = .empty ∧ s.recs = [] ∧ s.dirty = .no ∨
    s.store = .using ∧ s.recs ≠ [] ∧ s.dirty ≠ .unused

theorem Sec.Ok.of_empty {z : Nat} {s : Sec} (h : s.Ok z) (hst : s.store = .empty) :
    s.recs = [] ∧ s.dirty = .no := by
  rcases h.store with ⟨-, hrecs, hclean⟩ | ⟨husing, -⟩
  · exact ⟨hrecs, hclean⟩
  · exact absurd (hst.symm.trans husing) StoreStatus.noConfusion

/-- The flash holds the sector at an address and is erased behind its records. -/
def SecAt (img : Image) (z a : Nat) (s : Sec) : Prop :=
  readRange img a z = s.bytes ++ List.replicate (z - s.used) 0xFF

section SecAt

variable {img : Image} {z a : Nat} {s : Sec}

theorem SecAt.used_le (h : SecAt img z a s) : s.used ≤ z := by
  have := congrArg List.length h
  rw [length_readRange, List.length_append, s.length_bytes] at this
  omega

/-- The header of a sector. -/
theorem SecAt.hdr (h : SecAt img z a s) :
    readRange img a sectorHdrDataSize =
      sectorHdr s.store.byte s.dirty.byte sectorNotCombined := by
  rw [SecAt, Sec.bytes, List.append_assoc] at h
  exact readRange_left h

section Record

variable {pre post : List Rec} {r : Rec}

/-- The sector around a record. -/
theorem SecAt.around (h : SecAt img z a s) (hrecs : s.recs = pre ++ r :: post) :
    readRange img a z =
      (sectorHdr s.store.byte s.dirty.byte sectorNotCombined ++ pre.flatMap Rec.bytes) ++ r.bytes ++
        (post.flatMap Rec.bytes ++ List.replicate (z - s.used) 0xFF) := by
  rw [SecAt, Sec.bytes, hrecs, List.flatMap_append, List.flatMap_cons] at h
  rw [h]
  simp only [List.append_assoc]

theorem length_before (store dirty : UInt8) (pre : List Rec) :
    (sectorHdr store dirty sectorNotCombined ++ pre.flatMap Rec.bytes).length =
      sectorHdrDataSize + recsLen pre := by
  rw [List.length_append, length_sectorHdr, length_flatMap_bytes]

/-- The bytes of a record. -/
theorem SecAt.record (h : SecAt img z a s) (hrecs : s.recs = pre ++ r :: post) :
    readRange img (a + (sectorHdrDataSize + recsLen pre)) r.len = r.bytes := by
  have hmid := readRange_mid (h.around hrecs)
  rwa [length_before, r.length_bytes] at hmid

/-- The status of a record is written. -/
theorem SecAt.setStatus (h : SecAt img z a s) (hrecs : s.recs = pre ++ r :: post) {t : KvStatus}
    (ht : r.status.index ≤ t.index) :
    SecAt (program img (a + (sectorHdrDataSize + recsLen pre)) [t.byte]) z a
      { s with recs := pre ++ { r with status := t } :: post } := by
  have hsplit : readRange img a z =
      (sectorHdr s.store.byte s.dirty.byte sectorNotCombined ++ pre.flatMap Rec.bytes) ++
        [r.status.byte] ++ (([0xFF, 0xFF, 0xFF] ++ r.data) ++
          (post.flatMap Rec.bytes ++ List.replicate (z - s.used) 0xFF)) := by
    rw [h.around hrecs, Rec.bytes]
    simp only [List.append_assoc, List.cons_append, List.nil_append]
  have hused : Sec.used { s with recs := pre ++ { r with status := t } :: post } = s.used := by
    rw [Sec.used, Sec.used, hrecs, recsLen_append, recsLen_append, recsLen_cons, recsLen_cons]
    rfl
  have hprog :=
    readRange_program_mid hsplit (show [t.byte].length = [r.status.byte].length from rfl)
  rw [length_before, List.zipWith_cons_cons, List.zipWith_nil_left, KvStatus.byte_and ht] at hprog
  rw [SecAt, hused, hprog, Sec.bytes, List.flatMap_append, List.flatMap_cons, Rec.bytes, Rec.data]
  simp only [Rec.data, List.append_assoc, List.cons_append, List.nil_append]

end Record

/-- A record is written behind the others. -/
theorem SecAt.append (h : SecAt img z a s) (r : Rec) (hroom : s.used + r.len ≤ z) :
    SecAt (program img (a + s.used) r.bytes) z a { s with recs := s.recs ++ [r] } := by
  have hused : Sec.used { s with recs := s.recs ++ [r] } = s.used + r.len := by
    rw [Sec.used, Sec.used, recsLen_append, recsLen_cons, recsLen_nil]
    omega
  have hle : r.bytes.length ≤ z - s.used := by
    rw [r.length_bytes]
    omega
  have hprog := readRange_program_erased h hle
  rw [s.length_bytes, r.length_bytes, Nat.sub_sub] at hprog
  rw [SecAt, hused, hprog, Sec.bytes, Sec.bytes, List.flatMap_append, List.flatMap_cons,
    List.flatMap_nil, List.append_nil]
  simp only [List.append_assoc]

/-- The store status is written. -/
theorem SecAt.setStore (h : SecAt img z a s) {t : StoreStatus} (ht : s.store.index ≤ t.index) :
    SecAt (program img a [t.byte]) z a { s with store := t } := by
  have hsplit : readRange img a z = [] ++ [s.store.byte] ++
      ([s.dirty.byte, 0xFF, 0xFF] ++ le4 sectorMagicWord ++ le4 sectorNotCombined ++
        le4 0xFFFFFFFF ++ s.recs.flatMap Rec.bytes ++ List.replicate (z - s.used) 0xFF) := h
  have hprog := readRange_program_mid hsplit (show [t.byte].length = [s.store.byte].length from rfl)
  rw [List.zipWith_cons_cons, List.zipWith_nil_left, StoreStatus.byte_and ht] at hprog
  exact hprog

/-- The dirty status is written. -/
theorem SecAt.setDirty (h : SecAt img z a s) {t : DirtyStatus} (ht : s.dirty.index ≤ t.index) :
    SecAt (program img (a + sectorDirtyOffset) [t.byte]) z a { s with dirty := t } := by
  have hsplit : readRange img a z = [s.store.byte] ++ [s.dirty.byte] ++
      ([0xFF, 0xFF] ++ le4 sectorMagicWord ++ le4 sectorNotCombined ++
        le4 0xFFFFFFFF ++ s.recs.flatMap Rec.bytes ++ List.replicate (z - s.used) 0xFF) := h
  have hprog := readRange_program_mid hsplit (show [t.byte].length = [s.dirty.byte].length from rfl)
  rw [List.zipWith_cons_cons, List.zipWith_nil_left, DirtyStatus.byte_and ht] at hprog
  exact hprog

/-- A sector is formatted. -/
theorem secAt_format (img : Image) (a : Nat) (hz : sectorHdrDataSize ≤ z) :
    SecAt (program (eraseRange img a z) a
      (sectorHdr StoreStatus.empty.byte DirtyStatus.no.byte sectorNotCombined)) z a Sec.blank := by
  have hsplit : readRange (eraseRange img a z) a z = [] ++ List.replicate z 0xFF :=
    readRange_eraseRange img a z
  have hprog := readRange_program_erased hsplit
    (show (sectorHdr StoreStatus.empty.byte DirtyStatus.no.byte sectorNotCombined).length ≤ z
      from hz)
  rw [length_sectorHdr] at hprog
  rw [SecAt, Sec.bytes, Sec.used, Sec.blank, List.flatMap_nil, recsLen_nil, List.append_nil]
  exact hprog

/-- A write beside a sector. -/
theorem SecAt.program_disjoint (h : SecAt img z a s) {b : Nat} {bs : Bytes}
    (hdisj : a + z ≤ b ∨ b + bs.length ≤ a) : SecAt (program img b bs) z a s := by
  rw [SecAt, readRange_program_disjoint hdisj]
  exact h

theorem SecAt.eraseRange_disjoint (h : SecAt img z a s) {b n : Nat}
    (hdisj : a + z ≤ b ∨ b + n ≤ a) : SecAt (eraseRange img b n) z a s := by
  rw [SecAt, readRange_eraseRange_disjoint hdisj]
  exact h

end SecAt

/-- The writes of a new record: the first status, the rest of the record and the second
status. -/
theorem program_record (img : Image) (a : Nat) (r : Rec) (hst : r.status = .write) :
    program (program (program img a [KvStatus.preWrite.byte]) (a + kvMagicOffset) r.data) a
      [KvStatus.write.byte] = program img a r.bytes := by
  have hbytes : r.bytes = [KvStatus.write.byte] ++ List.replicate 3 0xFF ++ r.data := by
    rw [Rec.bytes, hst]
    rfl
  rw [program_comm _ (a + kvMagicOffset), program_twice, KvStatus.byte_and (by decide), hbytes,
    ← program_append, program_append_ones]
  rfl

end Hc32Board.FlashDb
