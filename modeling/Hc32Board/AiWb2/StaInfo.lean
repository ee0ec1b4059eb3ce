import Hc32Board.AiWb2.Fields

/-!
# The station information

The first part of `aiwb2_get_netdev_info` of `at_device_aiwb2.c`: the response
to `AT+STAINFO?`.

    +STAINFO:<status>
    SSID:<ssid>
    Password:<password>
    <bssid>,<Security>,<MAC>,<ch>,<IP>,<gateway>
    OK

The loop over the lines sets the status, skips the lines that begin like the
first three, and stops at the first other line with six fields or more.  The
fields are counted from the end of that line, so that commas in one of the first
two do not matter.  But the splitter has room for twelve fields: of a longer
line the twelfth field is taken for the last one.

`staInfo_of_find_some` and `staInfo_of_find_none` say what is taken from the
lines of a response.
-/

namespace Hc32Board.AiWb2

open Hc32Board.CodeLib

/-! ## The function -/

/-- `AIWB2_STAINFO_FIELD_MAX`. -/
def staInfoFieldMax : Nat := 12

/-- The line begins with `SSID:` or `Password:`. -/
def isSsidOrPassword (line : Bytes) : Bool :=
  (ascii "SSID:").isPrefixOf (cstr line) || (ascii "Password:").isPrefixOf (cstr line)

/-- The loop over the lines.  The result is `stainfo_status`, `n` and
`field`. -/
def staLoop : List Bytes → Int → Nat → List Bytes → Option (Int × Nat × List Bytes)
  | [], status, n, field => some (status, n, field)
  | line :: lines, status, n, field =>
    match sscanf line "+STAINFO:%d" with
    | v :: _ => staLoop lines v n field
    | [] =>
      if isSsidOrPassword line then staLoop lines status n field
      else
        match aiwb2SplitFields (some line) field staInfoFieldMax with
        | none => none
        | some (n, field) =>
          if 6 ≤ n then some (status, n, field) else staLoop lines status n field

/-- The texts that are taken from the response.  They are empty if nothing was
taken. -/
structure StaTexts where
  gateway : Bytes
  ip : Bytes
  mac : Bytes
deriving DecidableEq, Repr

/-- `AT_ADDR_LEN`. -/
def atAddrLen : Nat := 32

/-- `rt_snprintf(dst, sizeof(dst), "%s", src)` into a buffer of
`AT_ADDR_LEN`. -/
def snprintfAddr (src : Bytes) : Bytes := (cstr src).take (atAddrLen - 1)

/-- The texts, from what the loop has left. -/
def staTake (status : Int) (n : Nat) (field : List Bytes) : StaTexts :=
  if 6 ≤ n ∧ status = 3 then
    ⟨snprintfAddr (field.getD (n - 1) []), snprintfAddr (field.getD (n - 2) []),
      if (cstr (field.getD (n - 4) [])).contains 58 then snprintfAddr (field.getD (n - 4) [])
      else []⟩
  else ⟨[], [], []⟩

/-- The part of `aiwb2_get_netdev_info` that parses `AT+STAINFO?`. -/
def staInfo (lines : List Bytes) : Option StaTexts :=
  (staLoop lines 0 0 (List.replicate staInfoFieldMax (zeros atAddrLen))).map fun r =>
    staTake r.1 r.2.1 r.2.2

/-! ## The line with the information -/

/-- The line is taken for one of the three lines before the comma line. -/
def Skipped (line : Bytes) : Prop :=
  sscanf line "+STAINFO:%d" ≠ [] ∨ isSsidOrPassword line = true

instance (line : Bytes) : Decidable (Skipped line) := by
  unfold Skipped; infer_instance

/-- The line that the loop over `AT+STAINFO?` stops at. -/
def isInfoLine (line : Bytes) : Bool := !decide (Skipped line) && 6 ≤ (fieldsOf line).length

/-- The status behind a line. -/
def statusAfter (status : Int) (line : Bytes) : Int :=
  (sscanf line "+STAINFO:%d").headD status

/-- The status behind the lines before that line. -/
def staStatus (lines : List Bytes) : Int :=
  (lines.takeWhile (!isInfoLine ·)).foldl statusAfter 0

/-- What is taken from the fields of that line: of the first twelve, the last, the
one before it and the fourth from the end, each cut to 31 characters. -/
def staTaken (fields : List Bytes) : StaTexts :=
  let n := min staInfoFieldMax fields.length
  let mac := (fields.getD (n - 4) []).take 31
  ⟨(fields.getD (n - 1) []).take 31, (fields.getD (n - 2) []).take 31,
    if 58 ∈ mac then mac else []⟩

/-! ## The loop -/

/-- The buffers before the loop. -/
def emptyFields : List Bytes := List.replicate staInfoFieldMax (zeros atAddrLen)

theorem fieldBuffers_emptyFields : FieldBuffers staInfoFieldMax emptyFields := by
  refine ⟨rfl, fun buf hbuf => ?_⟩
  rw [List.eq_of_mem_replicate hbuf]
  rfl

/-- A line that is not skipped is split. -/
theorem staLoop_split {line : Bytes} (hskip : ¬ Skipped line) (hline : cstr line ≠ [])
    {field : List Bytes} (hfield : FieldBuffers staInfoFieldMax field) (lines : List Bytes)
    (status : Int) (n : Nat) :
    staLoop (line :: lines) status n field =
      if 6 ≤ min staInfoFieldMax (fieldsOf line).length then
        some (status, min staInfoFieldMax (fieldsOf line).length,
          putFields field 0 ((fieldsOf line).take staInfoFieldMax))
      else
        staLoop lines status (min staInfoFieldMax (fieldsOf line).length)
          (putFields field 0 ((fieldsOf line).take staInfoFieldMax)) := by
  obtain ⟨hscan, hssid⟩ := not_or.mp hskip
  rw [staLoop, not_not.mp hscan]
  dsimp only
  rw [if_neg hssid, splitFields_eq hline hfield.length_eq.ge hfield.mem_length]

theorem staLoop_other {line : Bytes} (h : isInfoLine line = false) (lines : List Bytes)
    (status : Int) {n : Nat} (hn : n < 6) {field : List Bytes}
    (hfield : FieldBuffers staInfoFieldMax field) :
    ∃ n' field', n' < 6 ∧ FieldBuffers staInfoFieldMax field' ∧
      staLoop (line :: lines) status n field =
        staLoop lines (statusAfter status line) n' field' := by
  by_cases hskip : Skipped line
  · refine ⟨n, field, hn, hfield, ?_⟩
    rw [staLoop, statusAfter]
    cases hscan : sscanf line "+STAINFO:%d" with
    | cons v vs => rfl
    | nil =>
      rcases hskip with hskip | hskip
      · exact absurd hscan hskip
      · exact if_pos hskip
  · have hscan : sscanf line "+STAINFO:%d" = [] := not_not.mp (not_or.mp hskip).1
    have hstatus : statusAfter status line = status := by
      rw [statusAfter, hscan]
      rfl
    have hlen : (fieldsOf line).length < 6 := by
      rw [isInfoLine] at h
      simpa [hskip] using h
    rw [hstatus]
    by_cases hline : cstr line = []
    · refine ⟨0, field, by decide, hfield, ?_⟩
      have hssid : isSsidOrPassword line = false := by
        rw [isSsidOrPassword, hline]
        rfl
      rw [staLoop, hscan]
      dsimp only
      rw [hssid, splitFields_empty hline]
      rfl
    · have hmin : min staInfoFieldMax (fieldsOf line).length < 6 :=
        (Nat.min_le_right _ _).trans_lt hlen
      refine ⟨_, _, hmin, hfield.putFields (fieldsOf line), ?_⟩
      rw [staLoop_split hskip hline hfield, if_neg (Nat.not_le.mpr hmin)]

theorem staLoop_info {line : Bytes} (h : isInfoLine line = true) (lines : List Bytes)
    (status : Int) (n : Nat) {field : List Bytes} (hfield : FieldBuffers staInfoFieldMax field) :
    staLoop (line :: lines) status n field =
      some (status, min 12 (fieldsOf line).length,
        putFields field 0 ((fieldsOf line).take 12)) := by
  rw [isInfoLine, Bool.and_eq_true, decide_eq_true_eq, Bool.not_eq_true', decide_eq_false_iff_not]
    at h
  have hline : cstr line ≠ [] := by
    intro hnil
    rw [fieldsOf, hnil] at h
    exact absurd h.2 (by decide)
  rw [staLoop_split h.1 hline hfield, staInfoFieldMax, if_pos (by omega)]

/-- Without such a line the loop ends with fewer than six fields. -/
theorem staLoop_of_find_none {lines : List Bytes} (h : lines.find? isInfoLine = none) :
    ∀ (status : Int) {n : Nat}, n < 6 → ∀ {field : List Bytes}, FieldBuffers staInfoFieldMax field →
      ∃ status' n' field', n' < 6 ∧ staLoop lines status n field = some (status', n', field') := by
  induction lines with
  | nil => exact fun status n hn field _ => ⟨status, n, field, hn, rfl⟩
  | cons line lines ih =>
    intro status n hn field hfield
    have hline : isInfoLine line = false := by
      simpa using List.find?_eq_none.mp h line List.mem_cons_self
    rw [List.find?_cons_of_neg (by simp [hline])] at h
    obtain ⟨n', field', hn', hfield', heq⟩ := staLoop_other hline lines status hn hfield
    rw [heq]
    exact ih h _ hn' hfield'

/-- The loop stops at the first such line and has its fields. -/
theorem staLoop_of_find_some {lines : List Bytes} {line : Bytes}
    (h : lines.find? isInfoLine = some line) :
    ∀ (status : Int) {n : Nat}, n < 6 → ∀ {field : List Bytes}, FieldBuffers staInfoFieldMax field →
      ∃ field', FieldBuffers staInfoFieldMax field' ∧ staLoop lines status n field =
        some ((lines.takeWhile (!isInfoLine ·)).foldl statusAfter status,
          min 12 (fieldsOf line).length, putFields field' 0 ((fieldsOf line).take 12)) := by
  induction lines with
  | nil => exact absurd h (by simp)
  | cons first lines ih =>
    intro status n hn field hfield
    cases hfirst : isInfoLine first with
    | true =>
      rw [List.find?_cons_of_pos hfirst] at h
      obtain rfl := Option.some.inj h
      rw [List.takeWhile_cons_of_neg (by simp [hfirst])]
      exact ⟨field, hfield, staLoop_info hfirst lines status n hfield⟩
    | false =>
      rw [List.find?_cons_of_neg (by simp [hfirst])] at h
      obtain ⟨n', field', hn', hfield', heq⟩ := staLoop_other hfirst lines status hn hfield
      rw [heq, List.takeWhile_cons_of_pos (by simp [hfirst]), List.foldl_cons]
      exact ih h _ hn' hfield'

/-! ## What is taken -/

/-- The status and the fields that the loop has left give the texts. -/
theorem staTake_putFields {field : List Bytes} (hfield : FieldBuffers staInfoFieldMax field)
    {texts : List Bytes} (hsix : 6 ≤ texts.length) (h0 : ∀ text ∈ texts, (0 : UInt8) ∉ text)
    (status : Int) :
    staTake status (min staInfoFieldMax texts.length)
        (putFields field 0 (texts.take staInfoFieldMax)) =
      if status = 3 then staTaken texts else ⟨[], [], []⟩ := by
  obtain ⟨n, hn⟩ : ∃ n, min staInfoFieldMax texts.length = n := ⟨_, rfl⟩
  have hle : 6 ≤ n := by
    rw [← hn, staInfoFieldMax]
    omega
  have hcstr : ∀ i < n, cstr ((putFields field 0 (texts.take staInfoFieldMax)).getD i []) =
      (texts.getD i []).take 31 := fun i hi =>
    cstr_putFields_take hfield.length_eq.ge (hn ▸ hi) h0
  have haddr : ∀ i < n, snprintfAddr ((putFields field 0 (texts.take staInfoFieldMax)).getD i []) =
      (texts.getD i []).take 31 := by
    intro i hi
    rw [snprintfAddr, hcstr i hi, atAddrLen, List.take_take]
    rfl
  rw [staTake, staTaken, hn, haddr (n - 1) (by omega), haddr (n - 2) (by omega),
    haddr (n - 4) (by omega), hcstr (n - 4) (by omega)]
  simp only [hle, true_and, List.contains_iff_mem]

/-- Without a line with the information nothing is taken. -/
theorem staInfo_of_find_none {lines : List Bytes} (h : lines.find? isInfoLine = none) :
    staInfo lines = some ⟨[], [], []⟩ := by
  obtain ⟨status, n, field, hn, heq⟩ :=
    staLoop_of_find_none h 0 (show 0 < 6 by decide) fieldBuffers_emptyFields
  rw [staInfo, show List.replicate staInfoFieldMax (zeros atAddrLen) = emptyFields from rfl, heq,
    Option.map_some]
  dsimp only
  rw [staTake, if_neg fun hsix => absurd hsix.1 (Nat.not_le.mpr hn)]

/-- The texts are taken from the first line with the information, if the status
before it is 3. -/
theorem staInfo_of_find_some {lines : List Bytes} {line : Bytes}
    (h : lines.find? isInfoLine = some line) :
    staInfo lines =
      some (if staStatus lines = 3 then staTaken (fieldsOf line) else ⟨[], [], []⟩) := by
  obtain ⟨field, hfield, heq⟩ :=
    staLoop_of_find_some h 0 (show 0 < 6 by decide) fieldBuffers_emptyFields
  have hinfo := List.find?_some h
  rw [isInfoLine, Bool.and_eq_true, decide_eq_true_eq] at hinfo
  have hnul : ∀ text ∈ fieldsOf line, (0 : UInt8) ∉ text := fun text ht =>
    (isField_of_mem_fieldsOf text ht).2
  rw [staInfo, show List.replicate staInfoFieldMax (zeros atAddrLen) = emptyFields from rfl, heq,
    Option.map_some, staStatus, ← staTake_putFields hfield hinfo.2 hnul]
  rfl

end Hc32Board.AiWb2
