import Hc32Board.CodeLib.Run

/-!
# A store whose last write counts

The specification of a keyed store.  An action writes at most one value to each
key, and `written a k` is that value.  The store puts a written value into the
value it holds; `put` says how.

`run_store`: if a later put hides an earlier one, a key holds the last value
that was written to it, put into the value it had at the start.
-/

namespace Hc32Board.CodeLib

variable {κ ω ν α : Type}

/-- The store after an action. -/
def storeStep (put : ω → ν → ν) (written : α → κ → Option ω) (s : κ → ν) (a : α) : κ → ν :=
  fun k => (written a k).elim (s k) fun w => put w (s k)

/-- The last value that a run writes to a key. -/
def lastWrite (written : α → κ → Option ω) (acts : List α) (k : κ) : Option ω :=
  (acts.filterMap (written · k)).getLast?

section

variable {put : ω → ν → ν} {written : α → κ → Option ω} {s : κ → ν} {a : α} {acts : List α} {k : κ}

theorem storeStep_none (h : written a k = none) : storeStep put written s a k = s k := by
  rw [storeStep, h]
  rfl

theorem storeStep_some {w : ω} (h : written a k = some w) :
    storeStep put written s a k = put w (s k) := by
  rw [storeStep, h]
  rfl

theorem lastWrite_cons_none (h : written a k = none) :
    lastWrite written (a :: acts) k = lastWrite written acts k := by
  rw [lastWrite, List.filterMap_cons_none (f := (written · k)) h]
  rfl

theorem lastWrite_cons_some {w : ω} (h : written a k = some w) :
    lastWrite written (a :: acts) k = some ((lastWrite written acts k).getD w) := by
  rw [lastWrite, List.filterMap_cons_some (f := (written · k)) h, List.getLast?_cons]
  rfl

/-- The last write of a run is the write of one of its actions. -/
theorem exists_of_lastWrite {w : ω} (h : lastWrite written acts k = some w) :
    ∃ a ∈ acts, written a k = some w := by
  obtain ⟨a, ha, hw⟩ := List.mem_filterMap.mp (List.mem_of_getLast? h)
  exact ⟨a, ha, hw⟩

end

/-- A key holds what was last written to it. -/
theorem run_store {put : ω → ν → ν} {written : α → κ → Option ω}
    (hput : ∀ a b k x y v, written a k = some x → written b k = some y →
      put y (put x v) = put y v) (acts : List α) (k : κ) :
    ∀ s : κ → ν, run (storeStep put written) s acts k =
      (lastWrite written acts k).elim (s k) fun w => put w (s k) := by
  induction acts with
  | nil => intro s; rfl
  | cons a acts ih =>
    intro s
    show run (storeStep put written) (storeStep put written s a) acts k = _
    rw [ih]
    cases hw : written a k with
    | none => rw [lastWrite_cons_none hw, storeStep_none hw]
    | some w =>
      rw [lastWrite_cons_some hw, storeStep_some hw]
      cases hlast : lastWrite written acts k with
      | none => rfl
      | some y =>
        -- the later write hides the one of `a`
        obtain ⟨b, -, hb⟩ := exists_of_lastWrite hlast
        exact hput a b k w y (s k) hw hb

end Hc32Board.CodeLib
