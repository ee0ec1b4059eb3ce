import Hc32Board.CodeLib.Bytes
import Mathlib.Data.List.Induction
import Mathlib.Tactic.IntervalCases

/-!
# Decimal text

`formatD` is the text of `printf("%d")`, and `strtol` is the base-ten
`strtol` on a C string: blanks, an optional sign, digits.  `strtol` returns
the value and the rest of the text, and `none` when there is no digit (the
C function then reports `end == str`).  The value is an unbounded integer;
`inLong` is the test that sets `errno` on a target with a 32-bit `long`.

`strtol_formatD` is the round trip, and `strtol_decimal_append` is the same for
a number that is followed by other text.
-/

namespace Hc32Board.CodeLib

/-- `isdigit` in the C locale. -/
def isDigit (b : UInt8) : Bool := 48 ≤ b && b ≤ 57

/-- `isspace` in the C locale. -/
def isSpace (b : UInt8) : Bool := b == 32 || (9 ≤ b && b ≤ 13)

/-- The value of a list of digits. -/
def digitsValue (ds : Bytes) : Nat :=
  ds.foldl (fun n b => 10 * n + (b.toNat - 48)) 0

/-- The digits of a natural number, without leading zeros. -/
def decimal (n : Nat) : Bytes :=
  (Nat.toDigits 10 n).map fun c => UInt8.ofNat c.toNat

/-- `printf("%d")`. -/
def formatD : Int → Bytes
  | .ofNat n => decimal n
  | .negSucc n => 45 :: decimal (n + 1)

/-- An optional sign: whether the number is negative, and the text behind
the sign. -/
def scanSign : Bytes → Bool × Bytes
  | 45 :: s => (true, s)
  | 43 :: s => (false, s)
  | s => (false, s)

/-- Base-ten `strtol` on a C string. -/
def strtol (s : Bytes) : Option (Int × Bytes) :=
  let (neg, t) := scanSign (s.dropWhile isSpace)
  let ds := t.takeWhile isDigit
  if ds = [] then none
  else some (if neg then -(digitsValue ds : Int) else digitsValue ds, t.dropWhile isDigit)

/-- The value fits a 32-bit `long`, so `strtol` leaves `errno` alone. -/
def inLong (v : Int) : Bool := -(2 ^ 31) ≤ v && v < 2 ^ 31

/-! ## The digits of a number -/

private theorem digitChar_byte {d : Nat} (h : d < 10) :
    UInt8.ofNat (Nat.digitChar d).toNat = UInt8.ofNat (48 + d) := by
  interval_cases d <;> rfl

theorem decimal_eq (n : Nat) :
    decimal n = if n < 10 then [UInt8.ofNat (48 + n)]
      else decimal (n / 10) ++ [UInt8.ofNat (48 + n % 10)] := by
  rw [decimal, Nat.toDigits_eq_if (by decide)]
  split_ifs with h
  · rw [List.map_singleton, digitChar_byte h]
  · rw [List.map_append, List.map_singleton, digitChar_byte (Nat.mod_lt n (by decide)), decimal]

theorem decimal_ne_nil (n : Nat) : decimal n ≠ [] := by
  rw [decimal_eq]
  split_ifs <;> simp

private theorem isDigit_ofNat {d : Nat} (h : d < 10) : isDigit (UInt8.ofNat (48 + d)) = true := by
  interval_cases d <;> rfl

theorem isDigit_of_mem_decimal (n : Nat) : ∀ b ∈ decimal n, isDigit b = true := by
  induction n using Nat.strong_induction_on with
  | _ n ih =>
    rw [decimal_eq]
    split_ifs with h
    · intro b hb
      rw [List.mem_singleton.1 hb]
      exact isDigit_ofNat h
    · intro b hb
      rcases List.mem_append.1 hb with hb | hb
      · exact ih (n / 10) (by omega) b hb
      · rw [List.mem_singleton.1 hb]
        exact isDigit_ofNat (Nat.mod_lt n (by decide))

theorem digitsValue_append_one (ds : Bytes) (b : UInt8) :
    digitsValue (ds ++ [b]) = 10 * digitsValue ds + (b.toNat - 48) := by
  simp [digitsValue]

@[simp] theorem digitsValue_decimal (n : Nat) : digitsValue (decimal n) = n := by
  induction n using Nat.strong_induction_on with
  | _ n ih =>
    rw [decimal_eq]
    split_ifs with h
    · simp only [digitsValue, List.foldl_cons, List.foldl_nil, UInt8.toNat_ofNat']
      omega
    · rw [digitsValue_append_one, ih (n / 10) (by omega), UInt8.toNat_ofNat']
      omega

/-- A number of `k` digits is below `10 ^ k`. -/
theorem digitsValue_lt (ds : Bytes) (h : ∀ b ∈ ds, isDigit b = true) :
    digitsValue ds < 10 ^ ds.length := by
  induction ds using List.reverseRecOn with
  | nil => simp [digitsValue]
  | append_singleton ds b ih =>
    have hb : isDigit b = true := h b (by simp)
    have hds := ih fun x hx => h x (by simp [hx])
    simp only [isDigit, Bool.and_eq_true, decide_eq_true_eq, UInt8.le_iff_toNat_le] at hb
    have hb57 : b.toNat ≤ 57 := hb.2
    rw [digitsValue_append_one, List.length_append, List.length_singleton, pow_succ]
    omega

theorem length_decimal_le (k : Nat) : ∀ n, n < 10 ^ (k + 1) → (decimal n).length ≤ k + 1 := by
  induction k with
  | zero =>
    intro n hn
    rw [decimal_eq, if_pos (by omega), List.length_singleton]
  | succ k ih =>
    intro n hn
    rw [decimal_eq]
    split_ifs
    · simp
    · have hdiv : n / 10 < 10 ^ (k + 1) := by
        rw [Nat.div_lt_iff_lt_mul (by decide), ← pow_succ]
        exact hn
      rw [List.length_append, List.length_singleton]
      have := ih (n / 10) hdiv
      omega

/-- The text of a 32-bit number has at most eleven characters. -/
theorem length_formatD_le {v : Int} (h : inLong v = true) : (formatD v).length ≤ 11 := by
  simp only [inLong, Bool.and_eq_true, decide_eq_true_eq] at h
  cases v with
  | ofNat n =>
    have hn : n < 10 ^ (9 + 1) := by
      have h2 := h.2
      rw [Int.ofNat_eq_natCast] at h2
      omega
    have := length_decimal_le 9 n hn
    show (decimal n).length ≤ 11
    omega
  | negSucc n =>
    have hn : n + 1 < 10 ^ (9 + 1) := by
      have h1 := h.1
      rw [Int.negSucc_eq] at h1
      omega
    have := length_decimal_le 9 (n + 1) hn
    show (decimal (n + 1)).length + 1 ≤ 11
    omega

/-! ## The round trip -/

/-- The text of a number holds printable characters other than the blank. -/
theorem formatD_printable (v : Int) : ∀ b ∈ formatD v, 32 < b ∧ b < 127 := by
  have hdec : ∀ n, ∀ b ∈ decimal n, 32 < b ∧ b < 127 := by
    intro n b hb
    have h := isDigit_of_mem_decimal n b hb
    simp only [isDigit, Bool.and_eq_true, decide_eq_true_eq] at h
    have hlow : (32 : UInt8) < 48 := by decide
    have hhigh : (57 : UInt8) < 127 := by decide
    exact ⟨UInt8.lt_of_lt_of_le hlow h.1, UInt8.lt_of_le_of_lt h.2 hhigh⟩
  cases v with
  | ofNat n => exact hdec n
  | negSucc n =>
    intro b hb
    rcases List.mem_cons.1 hb with rfl | hb
    · decide
    · exact hdec _ b hb

theorem formatD_ne_nil (v : Int) : formatD v ≠ [] := by
  cases v with
  | ofNat n => exact decimal_ne_nil n
  | negSucc n => simp [formatD]

/-- The text does not go on with a digit. -/
def NoDigitNext (rest : Bytes) : Prop := ∀ c, rest.head? = some c → isDigit c = false

private theorem takeWhile_decimal (n : Nat) {rest : Bytes} (h : NoDigitNext rest) :
    (decimal n ++ rest).takeWhile isDigit = decimal n := by
  rw [List.takeWhile_append_of_pos (isDigit_of_mem_decimal n)]
  cases rest with
  | nil => exact List.append_nil _
  | cons c rest =>
    rw [List.takeWhile_cons_of_neg (by rw [h c rfl]; decide), List.append_nil]

private theorem dropWhile_decimal (n : Nat) {rest : Bytes} (h : NoDigitNext rest) :
    (decimal n ++ rest).dropWhile isDigit = rest := by
  rw [List.dropWhile_append_of_pos (isDigit_of_mem_decimal n)]
  cases rest with
  | nil => rfl
  | cons c rest => exact List.dropWhile_cons_of_neg (by rw [h c rfl]; decide)

/-- A digit is neither a blank nor a sign, so the text of a number starts
with its digits. -/
private theorem scanSign_decimal (n : Nat) (rest : Bytes) :
    scanSign ((decimal n ++ rest).dropWhile isSpace) = (false, decimal n ++ rest) := by
  obtain ⟨b, ds, hcons⟩ := List.exists_cons_of_ne_nil (decimal_ne_nil n)
  have hb := isDigit_of_mem_decimal n b (by simp [hcons])
  have hspace : isSpace b = false := by
    simp only [isDigit, Bool.and_eq_true, decide_eq_true_eq, UInt8.le_iff_toNat_le] at hb
    have h1 : 48 ≤ b.toNat := hb.1
    have hne : b ≠ 32 := by rintro rfl; exact absurd h1 (by decide)
    have hle : ¬ b ≤ 13 := by
      rw [UInt8.le_iff_toNat_le]
      have : (13 : UInt8).toNat = 13 := rfl
      omega
    simp [isSpace, hne, hle]
  have hminus : b ≠ 45 := by rintro rfl; exact absurd hb (by decide)
  have hplus : b ≠ 43 := by rintro rfl; exact absurd hb (by decide)
  rw [hcons, List.cons_append, List.dropWhile_cons_of_neg (by simp [hspace])]
  simp [scanSign, hminus, hplus]

/-- `strtol` reads the digits of a number and stops behind them. -/
theorem strtol_decimal_append (n : Nat) {rest : Bytes} (h : NoDigitNext rest) :
    strtol (decimal n ++ rest) = some ((n : Int), rest) := by
  rw [strtol, scanSign_decimal]
  dsimp only
  rw [takeWhile_decimal n h, dropWhile_decimal n h, if_neg (decimal_ne_nil n),
    digitsValue_decimal]
  rfl

/-- `strtol` reads back what `%d` prints, and reads all of it. -/
theorem strtol_formatD (v : Int) : strtol (formatD v) = some (v, []) := by
  have hend : NoDigitNext [] := fun c hc => absurd hc (by simp)
  cases v with
  | ofNat n =>
    have h := strtol_decimal_append n hend
    rw [List.append_nil] at h
    exact h
  | negSucc n =>
    have hsign :
        scanSign ((45 :: decimal (n + 1)).dropWhile isSpace) = (true, decimal (n + 1)) := by
      rw [List.dropWhile_cons_of_neg (by decide)]
      rfl
    have htake := takeWhile_decimal (n + 1) hend
    have hdrop := dropWhile_decimal (n + 1) hend
    rw [List.append_nil] at htake hdrop
    rw [formatD, strtol, hsign]
    simp only [htake, hdrop, decimal_ne_nil, if_false, if_true, digitsValue_decimal]
    rfl

private theorem length_scanSign_le (s : Bytes) : (scanSign s).2.length ≤ s.length := by
  unfold scanSign
  split <;> simp

/-- A text of `n` characters reads as a number of at most `n` digits. -/
theorem strtol_natAbs_lt {s r : Bytes} {v : Int} (h : strtol s = some (v, r)) :
    v.natAbs < 10 ^ s.length := by
  have hlen : (scanSign (s.dropWhile isSpace)).2.length ≤ s.length :=
    (length_scanSign_le _).trans (List.dropWhile_sublist _).length_le
  have hvalue : digitsValue ((scanSign (s.dropWhile isSpace)).2.takeWhile isDigit) <
      10 ^ s.length := by
    refine lt_of_lt_of_le (digitsValue_lt _ fun b hb => List.mem_takeWhile_imp hb) ?_
    exact Nat.pow_le_pow_right (by decide)
      ((List.takeWhile_sublist _).length_le.trans hlen)
  unfold strtol at h
  split at h
  rename_i neg t heq
  rw [heq] at hvalue
  dsimp only at h
  split_ifs at h
  all_goals
    obtain ⟨rfl, -⟩ := Prod.mk.inj (Option.some.inj h)
    simpa using hvalue

end Hc32Board.CodeLib
