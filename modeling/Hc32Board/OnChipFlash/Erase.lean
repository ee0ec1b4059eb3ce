import Hc32Board.OnChipFlash.Write

/-!
# Erasing the on-chip flash

`GetSectorNum` and `hc32_flash_erase` of `drv_flash_f4.c`, in 32-bit
arithmetic.

`GetSectorNum` rounds the end of the range up to a sector boundary and then
adds one, so the loop erases one sector more than the range touches.  A request
that reaches the last sector runs into the assertion of `EFM_SectorErase`
behind the end of the flash, and a request that does not start at a word runs
into another one with its first sector.

The range check adds the address and the size modulo `2 ^ 32`.  A request that
leaves the flash and comes back to its start passes it.

`erase_exact_iff` says for which requests the function erases the sectors of
the range and no other, as far as it returns without an error, and rejects a
range that is empty or leaves the flash.
-/

namespace Hc32Board.OnChipFlash

open Hc32Board.CodeLib
open Hc32Board.RtThread

/-! ## The driver -/

/-- `GetSectorNum`. -/
def getSectorNum (addr size : UInt32) : UInt32 :=
  let firstSector := addr / sectorSize
  let temp := addr + size
  let lastSector := temp / sectorSize
  let lastSector := if temp % sectorSize ≠ 0 then lastSector + 1 else lastSector
  lastSector - firstSector + 1

/-- A call of `hc32_flash_erase`. -/
structure EraseRun where
  img : Image
  /-- The sectors that were erased, in order. -/
  sectors : List Nat
  /-- The value that is returned, and `none` after a failed assertion. -/
  ret : Option Int

/-- The number of the sector of an address. -/
def sectorOf (addr : UInt32) : Nat := (addr / sectorSize).toNat

/-- The loop of `hc32_flash_erase`.  The first number is what is left of
`NumOfSectors`, the second is `SectorVal`. -/
def eraseLoop (ready : Nat → Bool) (size : UInt32) :
    Nat → Nat → UInt32 → Image → List Nat → EraseRun
  | 0, _, _, img, sectors => ⟨img, sectors, some size.toBitVec.toInt⟩
  | n + 1, i, addr, img, sectors =>
    match efmSectorErase (ready i) img addr with
    | none => ⟨img, sectors, none⟩
    | some (img', true) =>
      eraseLoop ready size n (i + 1) (addr + sectorSize) img' (sectors ++ [sectorOf addr])
    | some (img', false) => ⟨img', sectors ++ [sectorOf addr], some (-rtError)⟩

/-- `hc32_flash_erase`. -/
def hc32FlashErase (ready : Nat → Bool) (img : Image) (addr size : UInt32) : EraseRun :=
  if addr + size > flashEndAddress then ⟨img, [], some (-rtEInval)⟩
  else if size < 1 then ⟨img, [], some (-rtEInval)⟩
  else eraseLoop ready size (getSectorNum addr size).toNat 0 addr img []

/-! ## The image -/

theorem eraseRange_sector (img : Image) (addr : UInt32) (a : Nat) :
    eraseRange img (addr / sectorSize * sectorSize).toNat sectorSize.toNat a =
      if a / 0x2000 = sectorOf addr then 0xFF else img a := by
  have hstart : (addr / sectorSize * sectorSize).toNat = sectorOf addr * 0x2000 := by
    have h := addr.toNat_lt
    simp only [sectorOf, sectorSize, UInt32.toNat_mul, UInt32.toNat_div, UInt32.reduceToNat]
    omega
  rw [eraseRange, hstart, show sectorSize.toNat = 0x2000 from rfl]
  congr 1
  rw [eq_iff_iff]
  omega

/-- The image of a run: the sectors of the list have ones, and the others are
as they were. -/
def EraseRun.Shows (run : EraseRun) (img₀ : Image) : Prop :=
  ∀ a, run.img a = if a / 0x2000 ∈ run.sectors then 0xFF else img₀ a

theorem shows_erased {img img₀ : Image} {sectors : List Nat}
    (h : ∀ a, img a = if a / 0x2000 ∈ sectors then 0xFF else img₀ a) (addr : UInt32) (a : Nat) :
    eraseRange img (addr / sectorSize * sectorSize).toNat sectorSize.toNat a =
      if a / 0x2000 ∈ sectors ++ [sectorOf addr] then 0xFF else img₀ a := by
  rw [eraseRange_sector, h a]
  simp only [List.mem_append, List.mem_singleton]
  by_cases hlast : a / 0x2000 = sectorOf addr
  · rw [if_pos hlast, if_pos (.inr hlast)]
  · rw [if_neg hlast]
    simp only [hlast, or_false]

theorem efmSectorErase_cases (ready : Bool) (img : Image) (addr : UInt32) :
    efmSectorErase ready img addr = none ∨
      efmSectorErase ready img addr =
        some (eraseRange img (addr / sectorSize * sectorSize).toNat sectorSize.toNat, ready) := by
  unfold efmSectorErase
  split_ifs
  · exact .inr rfl
  · exact .inl rfl

theorem eraseLoop_shows (ready : Nat → Bool) (size : UInt32) (img₀ : Image) :
    ∀ (n i : Nat) (addr : UInt32) (img : Image) (sectors : List Nat),
      (∀ a, img a = if a / 0x2000 ∈ sectors then 0xFF else img₀ a) →
      (eraseLoop ready size n i addr img sectors).Shows img₀ := by
  intro n
  induction n with
  | zero => exact fun _ _ _ _ h => h
  | succ n ih =>
    intro i addr img sectors h
    rw [eraseLoop]
    rcases efmSectorErase_cases (ready i) img addr with he | he
    · rw [he]
      exact h
    · rw [he]
      cases ready i with
      | true => exact ih _ _ _ _ (shows_erased h addr)
      | false => exact shows_erased h addr

/-- What `sectors` says is what happened to the flash. -/
theorem erase_shows (ready : Nat → Bool) (img : Image) (addr size : UInt32) :
    (hc32FlashErase ready img addr size).Shows img := by
  have hnone : ∀ a, img a = if a / 0x2000 ∈ ([] : List Nat) then 0xFF else img a := by
    intro a
    rw [if_neg List.not_mem_nil]
  unfold hc32FlashErase
  split_ifs
  · exact hnone
  · exact hnone
  · exact eraseLoop_shows ready size img _ _ _ _ _ hnone

/-! ## The loop -/

theorem efmSectorErase_eq {addr : UInt32} (halign : addr.toNat % 4 = 0)
    (hin : addr.toNat ≤ 0x7FFFF) (ready : Bool) (img : Image) :
    efmSectorErase ready img addr =
      some (eraseRange img (addr / sectorSize * sectorSize).toNat sectorSize.toNat, ready) := by
  have hend : isEfmEraseAddr addr = true := decide_eq_true (UInt32.le_iff_toNat_le.mpr hin)
  rw [efmSectorErase, hend, (isAddrAlignWord_iff addr).mpr halign]
  rfl

theorem efmSectorErase_ne_none {ready : Bool} {img : Image} {addr : UInt32}
    (h : efmSectorErase ready img addr ≠ none) :
    addr.toNat % 4 = 0 ∧ addr.toNat ≤ 0x7FFFF := by
  unfold efmSectorErase at h
  split_ifs at h with hguard
  · obtain ⟨hend, halign⟩ := Bool.and_eq_true_iff.mp hguard
    exact ⟨(isAddrAlignWord_iff addr).mp halign,
      UInt32.le_iff_toNat_le.mp (of_decide_eq_true hend)⟩
  · exact absurd rfl h

theorem toNat_next {addr : UInt32} (h : addr.toNat ≤ 0x7FFFF) :
    (addr + sectorSize).toNat = addr.toNat + 0x2000 ∧
      sectorOf (addr + sectorSize) = sectorOf addr + 1 := by
  have hnext : (addr + sectorSize).toNat = addr.toNat + 0x2000 := by
    rw [UInt32.toNat_add, show sectorSize.toNat = 0x2000 from rfl]
    omega
  refine ⟨hnext, ?_⟩
  rw [sectorOf, sectorOf, UInt32.toNat_div, UInt32.toNat_div, hnext,
    show sectorSize.toNat = 0x2000 from rfl]
  omega

/-- A loop that stays inside the flash erases its sectors, if the controller is
always ready. -/
theorem eraseLoop_inside (size : UInt32) :
    ∀ (n i : Nat) (addr : UInt32) (img : Image) (sectors : List Nat),
      addr.toNat % 4 = 0 → addr.toNat + n * 0x2000 ≤ 0x80000 + 0x1FFF →
      (eraseLoop (fun _ => true) size n i addr img sectors).ret = some size.toBitVec.toInt ∧
        (eraseLoop (fun _ => true) size n i addr img sectors).sectors =
          sectors ++ (List.range n).map (sectorOf addr + ·) := by
  intro n
  induction n with
  | zero =>
    intro i addr img sectors _ _
    exact ⟨rfl, (List.append_nil _).symm⟩
  | succ n ih =>
    intro i addr img sectors halign hin
    have hle : addr.toNat ≤ 0x7FFFF := by omega
    obtain ⟨hnext, hsector⟩ := toNat_next hle
    have hrest := ih (i + 1) (addr + sectorSize)
      (eraseRange img (addr / sectorSize * sectorSize).toNat sectorSize.toNat)
      (sectors ++ [sectorOf addr]) (by omega) (by omega)
    rw [eraseLoop, efmSectorErase_eq halign hle]
    refine ⟨hrest.1, hrest.2.trans ?_⟩
    rw [hsector, List.range_succ_eq_map]
    simp [Function.comp_def, Nat.add_assoc, Nat.add_comm 1]

/-- A loop that returns without an error has stayed inside the flash. -/
theorem inside_of_eraseLoop (ready : Nat → Bool) (size : UInt32) :
    ∀ (n i : Nat) (addr : UInt32) (img : Image) (sectors : List Nat) (r : Int), n ≠ 0 →
      (eraseLoop ready size n i addr img sectors).ret = some r → 0 ≤ r →
      addr.toNat % 4 = 0 ∧ addr.toNat + n * 0x2000 ≤ 0x80000 + 0x1FFF := by
  intro n
  induction n with
  | zero => exact fun _ _ _ _ _ h => absurd rfl h
  | succ n ih =>
    intro i addr img sectors r _ hret hr
    have hne : efmSectorErase (ready i) img addr ≠ none := by
      intro hnone
      rw [eraseLoop, hnone] at hret
      exact absurd hret (by simp)
    obtain ⟨halign, hle⟩ := efmSectorErase_ne_none hne
    refine ⟨halign, ?_⟩
    obtain ⟨hnext, -⟩ := toNat_next hle
    rw [eraseLoop, efmSectorErase_eq halign hle] at hret
    cases hready : ready i with
    | false =>
      rw [hready] at hret
      obtain rfl := Option.some.inj hret
      exact absurd hr (show ¬ (0 : Int) ≤ -rtError by decide)
    | true =>
      rw [hready] at hret
      rcases Nat.eq_zero_or_pos n with rfl | hpos
      · omega
      · have hrest := ih _ _ _ _ r (Nat.ne_of_gt hpos) hret hr
        omega

/-- The loop does not forget a sector. -/
theorem mem_eraseLoop (ready : Nat → Bool) (size : UInt32) {k : Nat} :
    ∀ (n i : Nat) (addr : UInt32) (img : Image) (sectors : List Nat), k ∈ sectors →
      k ∈ (eraseLoop ready size n i addr img sectors).sectors := by
  intro n
  induction n with
  | zero => exact fun _ _ _ _ h => h
  | succ n ih =>
    intro i addr img sectors h
    rw [eraseLoop]
    split
    · exact h
    · exact ih _ _ _ _ (List.mem_append_left _ h)
    · exact List.mem_append_left _ h

/-- A loop that is entered erases a sector, or fails an assertion. -/
theorem eraseLoop_entered (ready : Nat → Bool) (size : UInt32) {n : Nat} (hn : n ≠ 0) (i : Nat)
    (addr : UInt32) (img : Image) (r : Int) :
    ¬ ((eraseLoop ready size n i addr img []).sectors = [] ∧
      (eraseLoop ready size n i addr img []).ret = some r) := by
  rintro ⟨hnone, hret⟩
  obtain ⟨m, rfl⟩ := Nat.exists_eq_succ_of_ne_zero hn
  rw [eraseLoop] at hnone hret
  split at hnone
  next he =>
    rw [he] at hret
    exact absurd hret (by simp)
  next img' he =>
    have hmem := mem_eraseLoop ready size (k := sectorOf addr) m (i + 1) (addr + sectorSize) img'
      ([] ++ [sectorOf addr]) (by simp)
    rw [hnone] at hmem
    exact List.not_mem_nil hmem
  next => exact absurd hnone (by simp)

/-! ## Which requests are handled -/

/-- The sector has a byte of the range. -/
def Intersects (addr size : UInt32) (k : Nat) : Prop :=
  k * 0x2000 < addr.toNat + size.toNat ∧ addr.toNat < (k + 1) * 0x2000

/-- What `hc32_flash_erase` should do.  If it returns without an error, it has
erased the sectors that intersect the range, and they are in the flash.  A
range that is empty or leaves the flash is rejected. -/
def ErasesExactly (addr size : UInt32) (run : EraseRun) : Prop :=
  (∀ r, run.ret = some r → 0 ≤ r →
    (∀ k, k ∈ run.sectors ↔ Intersects addr size k) ∧ ∀ k ∈ run.sectors, k < 64) ∧
  (size = 0 ∨ 0x80000 < addr.toNat + size.toNat →
    run.sectors = [] ∧ ∃ r, run.ret = some r ∧ r < 0)

/-- The request is rejected, or it does not return, or it comes back to the
sector before the one it starts in. -/
def EraseFits (addr size : Nat) : Prop :=
  size = 0 ∨ 0x80000 < (addr + size) % 2 ^ 32 ∨
    (addr + size < 2 ^ 32 ∧ (addr % 4 ≠ 0 ∨ 63 * 0x2000 < addr + size)) ∨
    (2 ^ 32 ≤ addr + size ∧ addr / 0x2000 = ((addr + size) % 2 ^ 32 + 0x1FFF) / 0x2000 + 1)

instance (addr size : Nat) : Decidable (EraseFits addr size) := by
  unfold EraseFits; infer_instance

theorem getSectorNum_toNat (addr size : UInt32) :
    (getSectorNum addr size).toNat =
      (((addr.toNat + size.toNat) % 2 ^ 32 + 0x1FFF) / 0x2000 + 1 + 2 ^ 32 -
        addr.toNat / 0x2000) % 2 ^ 32 := by
  have ha := addr.toNat_lt
  have htemp : (addr + size).toNat = (addr.toNat + size.toNat) % 2 ^ 32 := UInt32.toNat_add _ _
  have hlast : (if (addr + size) % sectorSize ≠ 0 then (addr + size) / sectorSize + 1
      else (addr + size) / sectorSize).toNat =
      ((addr.toNat + size.toNat) % 2 ^ 32 + 0x1FFF) / 0x2000 := by
    have hmod : (addr + size) % sectorSize = 0 ↔ (addr + size).toNat % 0x2000 = 0 := by
      rw [← UInt32.toNat_inj, UInt32.toNat_mod]
      rfl
    split_ifs with h
    · rw [Ne, hmod] at h
      rw [UInt32.toNat_add, UInt32.toNat_div, ← htemp, show sectorSize.toNat = 0x2000 from rfl,
        show (1 : UInt32).toNat = 1 from rfl]
      omega
    · rw [not_not, hmod] at h
      rw [UInt32.toNat_div, ← htemp, show sectorSize.toNat = 0x2000 from rfl]
      omega
  unfold getSectorNum
  dsimp only
  rw [UInt32.toNat_add, UInt32.toNat_sub, hlast, UInt32.toNat_div,
    show sectorSize.toNat = 0x2000 from rfl, show (1 : UInt32).toNat = 1 from rfl]
  omega

theorem erase_rejected (ready : Nat → Bool) (img : Image) {addr size : UInt32}
    (h : size.toNat = 0 ∨ 0x80000 < (addr.toNat + size.toNat) % 2 ^ 32) :
    hc32FlashErase ready img addr size = ⟨img, [], some (-rtEInval)⟩ := by
  have hend : addr + size > flashEndAddress ↔ 0x80000 < (addr.toNat + size.toNat) % 2 ^ 32 := by
    rw [gt_iff_lt, UInt32.lt_iff_toNat_lt, UInt32.toNat_add]
    rfl
  have hone : size < 1 ↔ size.toNat = 0 := by
    rw [UInt32.lt_iff_toNat_lt]
    exact Nat.lt_one_iff
  unfold hc32FlashErase
  split_ifs with h1 h2
  · rfl
  · rfl
  · rw [hend] at h1
    rw [hone] at h2
    exact absurd h (not_or.mpr ⟨h2, h1⟩)

theorem erase_accepted (ready : Nat → Bool) (img : Image) {addr size : UInt32}
    (hsize : size.toNat ≠ 0) (hend : (addr.toNat + size.toNat) % 2 ^ 32 ≤ 0x80000) :
    hc32FlashErase ready img addr size =
      eraseLoop ready size (getSectorNum addr size).toNat 0 addr img [] := by
  have h1 : ¬ addr + size > flashEndAddress := by
    rw [gt_iff_lt, UInt32.lt_iff_toNat_lt, UInt32.toNat_add]
    exact Nat.not_lt.mpr hend
  have h2 : ¬ size < 1 := by
    rw [UInt32.lt_iff_toNat_lt]
    exact fun h => hsize (Nat.lt_one_iff.mp h)
  rw [hc32FlashErase, if_neg h1, if_neg h2]

theorem erasesExactly_rejected (img : Image) (addr size : UInt32) :
    ErasesExactly addr size ⟨img, [], some (-rtEInval)⟩ := by
  refine ⟨?_, fun _ => ⟨rfl, -rtEInval, rfl, by decide⟩⟩
  intro r hr h0
  obtain rfl := Option.some.inj hr
  exact absurd h0 (by decide)

/-- A request that comes back to the sector before the one it starts in: the
number of sectors is zero, and the size is negative as a result. -/
theorem erasesExactly_wrapped (img : Image) (addr : UInt32) {size : UInt32}
    (hsize : 2 ^ 31 ≤ size.toNat) :
    ErasesExactly addr size ⟨img, [], some size.toBitVec.toInt⟩ := by
  have hneg : size.toBitVec.toInt < 0 := by
    rw [BitVec.toInt_neg_iff]
    show 2 ^ 32 ≤ 2 * size.toNat
    omega
  refine ⟨?_, fun _ => ⟨rfl, _, rfl, hneg⟩⟩
  intro r hr h0
  obtain rfl := Option.some.inj hr
  exact absurd h0 (Int.not_le.mpr hneg)

/-- A request inside the flash that does not return without an error. -/
theorem erasesExactly_inside {ready : Nat → Bool} {img : Image} {addr size : UInt32}
    (hin : InFlash addr size) (h : addr.toNat % 4 ≠ 0 ∨ 63 * 0x2000 < addr.toNat + size.toNat) :
    ErasesExactly addr size
      (eraseLoop ready size (getSectorNum addr size).toNat 0 addr img []) := by
  have hle := hin.le
  have hpos := hin.pos
  have hnum := getSectorNum_toNat addr size
  constructor
  · intro r hret hr
    have hn : (getSectorNum addr size).toNat ≠ 0 := by omega
    obtain ⟨halign, hinside⟩ := inside_of_eraseLoop ready size _ _ _ _ _ r hn hret hr
    omega
  · intro hout
    rcases hout with h0 | hout
    · rw [h0] at hpos
      exact absurd hpos (by decide)
    · omega

/-- A request inside the flash that starts at a word and ends before the last
sector: the sector behind the range is erased too. -/
theorem not_erasesExactly_inside (img : Image) {addr size : UInt32} (hin : InFlash addr size)
    (halign : addr.toNat % 4 = 0) (hend : addr.toNat + size.toNat ≤ 63 * 0x2000) :
    ¬ ErasesExactly addr size
      (eraseLoop (fun _ => true) size (getSectorNum addr size).toNat 0 addr img []) := by
  have hpos := hin.pos
  have hnum := getSectorNum_toNat addr size
  have hsector : sectorOf addr = addr.toNat / 0x2000 := UInt32.toNat_div _ _
  obtain ⟨hret, hsectors⟩ := eraseLoop_inside size (getSectorNum addr size).toNat 0 addr img []
    halign (by omega)
  intro hexact
  have hsize : (0 : Int) ≤ size.toBitVec.toInt := by
    rw [toInt_size (by omega)]
    omega
  have hlast : sectorOf addr + ((getSectorNum addr size).toNat - 1) ∈
      (eraseLoop (fun _ => true) size (getSectorNum addr size).toNat 0 addr img []).sectors := by
    rw [hsectors, List.nil_append]
    exact List.mem_map_of_mem (List.mem_range.mpr (by omega))
  have hmeets := (((hexact.1 _ hret hsize).1 _).mp hlast).1
  omega

/-- `hc32_flash_erase` does what it should exactly for the requests that it
rejects, that fail an assertion of the controller, or that come back to the
sector before their own.  A request that it carries out erases one sector too
many. -/
theorem erase_exact_iff (img : Image) (addr size : UInt32) :
    (∀ ready, ErasesExactly addr size (hc32FlashErase ready img addr size)) ↔
      EraseFits addr.toNat size.toNat := by
  have ha := addr.toNat_lt
  have hs := size.toNat_lt
  have hnum := getSectorNum_toNat addr size
  by_cases hreject : size.toNat = 0 ∨ 0x80000 < (addr.toNat + size.toNat) % 2 ^ 32
  · refine ⟨fun _ => ?_, fun _ ready => ?_⟩
    · rcases hreject with h | h
      · exact .inl h
      · exact .inr (.inl h)
    · rw [erase_rejected ready img hreject]
      exact erasesExactly_rejected img addr size
  obtain ⟨hsize, hend⟩ := not_or.mp hreject
  have hrun := fun ready => erase_accepted ready img hsize (Nat.not_lt.mp hend)
  rcases Nat.lt_or_ge (addr.toNat + size.toNat) (2 ^ 32) with hwrap | hwrap
  · -- the range is inside the flash
    have hin : InFlash addr size := ⟨by omega, by omega⟩
    constructor
    · intro h
      by_contra hnot
      unfold EraseFits at hnot
      refine not_erasesExactly_inside img hin (by omega) (by omega) ?_
      rw [← hrun]
      exact h _
    · intro h ready
      rw [hrun]
      unfold EraseFits at h
      exact erasesExactly_inside hin (by omega)
  · -- the sum of address and size has left the 32 bits
    constructor
    · intro h
      by_contra hnot
      unfold EraseFits at hnot
      obtain ⟨hnone, r, hret, -⟩ := (h fun _ => true).2 (.inr (by omega))
      rw [hrun] at hnone hret
      exact eraseLoop_entered _ size (by omega) 0 addr img r ⟨hnone, hret⟩
    · intro h ready
      unfold EraseFits at h
      have hzero : (getSectorNum addr size).toNat = 0 := by omega
      rw [hrun, hzero]
      exact erasesExactly_wrapped img addr (by omega)

/-- An erase of the first sector also erases the second. -/
theorem erase_one_too_many :
    (hc32FlashErase (fun _ => true) (fun _ => 0) 0 0x2000).ret = some 0x2000 ∧
      (hc32FlashErase (fun _ => true) (fun _ => 0) 0 0x2000).sectors = [0, 1] := by
  decide

end Hc32Board.OnChipFlash
