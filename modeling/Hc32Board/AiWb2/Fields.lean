import Mathlib.Data.List.GetD
import Hc32Board.CodeLib.ScanText

/-!
# The field splitter

`aiwb2_split_fields` of `at_device_aiwb2.c`.  It copies the fields of a line,
which are separated by commas and end with the line, into buffers of 32 bytes.
A longer field is cut, and the rest of it is skipped.

The pointer into the line is the rest of the C string, and its end is the NUL.
A store outside of a buffer, or outside of the buffers, makes the result
`none`.

`fieldsOf` says what the fields of a line are.  `splitFields_eq` says that the
function stores the first `max` of them and never leaves its buffers, and
`split_fields_spec` what the buffers then hold.
-/

namespace Hc32Board.AiWb2

open Hc32Board.CodeLib

/-! ## The function -/

/-- A comma, a carriage return or a line feed. -/
def isFieldEnd (c : UInt8) : Bool := c == 44 || c == 13 || c == 10

/-- `buf[i] = c`. -/
def setAt (buf : Bytes) (i : Nat) (c : UInt8) : Option Bytes :=
  if i < buf.length then some (buf.set i c) else none

/-- The loop that copies one field.  The result is the pointer, the buffer and
`len`. -/
def copyField : Bytes → Bytes → Nat → Option (Bytes × Bytes × Nat)
  | [], buf, len => some ([], buf, len)
  | c :: p, buf, len =>
    if !isFieldEnd c && len < 31 then (setAt buf len c).bind fun buf => copyField p buf (len + 1)
    else some (c :: p, buf, len)

/-- The outer loop.  `room` is `max - n`. -/
def splitLoop : Nat → Bytes → List Bytes → Nat → Option (Nat × List Bytes)
  | 0, _, field, n => some (n, field)
  | room + 1, p, field, n =>
    match field[n]? with
    | none => none
    | some buf =>
      match copyField p buf 0 with
      | none => none
      | some (p, buf, len) =>
        match setAt buf len 0 with
        | none => none
        | some buf =>
          let field := field.set n buf
          -- an over-long field: what is left of it is skipped
          let p := if p.head? ≠ some 44 ∧ len = 31 then p.dropWhile (!isFieldEnd ·) else p
          if p.head? = some 44 then splitLoop room p.tail field (n + 1)
          else some (n + 1, field)

/-- `aiwb2_split_fields`: the value it returns, and the buffers. -/
def aiwb2SplitFields (line : Option Bytes) (field : List Bytes) (max : Nat) :
    Option (Nat × List Bytes) :=
  match line with
  | none => some (0, field)
  | some line => if cstr line = [] then some (0, field) else splitLoop max (cstr line) field 0

/-! ## The fields of a line -/

/-- The text of a line before its first line end, split at the commas. -/
def fieldsOf (line : Bytes) : List Bytes := (upTo [13, 10] (cstr line)).splitOn 44

/-- A buffer after a field was stored. -/
def putField (buf text : Bytes) : Bytes := storeAt buf 0 (text.take 31 ++ [0])

/-- The buffers after fields were stored from index `n` on. -/
def putFields : List Bytes → Nat → List Bytes → List Bytes
  | field, _, [] => field
  | field, n, text :: texts =>
    putFields (field.set n (putField (field.getD n []) text)) (n + 1) texts

/-! ## One field -/

/-- A text without a field end. -/
def IsField (text : Bytes) : Prop := ∀ c ∈ text, isFieldEnd c = false

/-- The text goes on with a field end, or is at its end. -/
def AtFieldEnd (rest : Bytes) : Prop := ∀ c, rest.head? = some c → isFieldEnd c = true

theorem length_storeAt {buf bytes : Bytes} {i : Nat} (h : i + bytes.length ≤ buf.length) :
    (storeAt buf i bytes).length = buf.length := by
  simp only [storeAt, List.length_append, List.length_take, List.length_drop]
  omega

/-- The copy takes the field up to 31 characters. -/
theorem copyField_eq {text : Bytes} (htext : IsField text) {rest : Bytes}
    (hrest : AtFieldEnd rest) :
    ∀ (buf : Bytes) (len : Nat), buf.length = 32 → len ≤ 31 →
      copyField (text ++ rest) buf len =
        some (text.drop (31 - len) ++ rest, storeAt buf len (text.take (31 - len)),
          len + (text.take (31 - len)).length) := by
  induction text with
  | nil =>
    intro buf len _ _
    rw [List.take_nil, storeAt_nil, List.drop_nil]
    cases rest with
    | nil => rfl
    | cons c rest =>
      rw [List.nil_append, copyField, hrest c rfl]
      rfl
  | cons c text ih =>
    intro buf len hbuf hlen
    have hc : isFieldEnd c = false := htext c List.mem_cons_self
    rw [List.cons_append, copyField, hc]
    rcases Nat.lt_or_ge len 31 with hlt | hge
    · obtain ⟨k, hk⟩ : ∃ k, 31 - len = k + 1 := ⟨30 - len, by omega⟩
      have hrec := ih (fun x hx => htext x (List.mem_cons_of_mem c hx)) (buf.set len c) (len + 1)
        (by rw [List.length_set, hbuf]) (by omega)
      rw [show 31 - (len + 1) = k by omega, storeAt_cons (by omega)] at hrec
      rw [if_pos (by simpa using hlt), setAt, if_pos (by omega), Option.bind_some, hrec, hk,
        List.take_succ_cons, List.drop_succ_cons, List.length_cons]
      congr 3
      omega
    · rw [if_neg (by simp; omega), show 31 - len = 0 by omega, List.take_zero, storeAt_nil]
      rfl

theorem set_storeAt {buf bytes : Bytes} (h : bytes.length < buf.length) (c : UInt8) :
    (storeAt buf 0 bytes).set bytes.length c = storeAt buf 0 (bytes ++ [c]) := by
  have hrest : buf.drop (0 + bytes.length) = buf[bytes.length] :: buf.drop (bytes.length + 1) := by
    rw [Nat.zero_add, List.drop_eq_getElem_cons h]
  rw [storeAt, storeAt, hrest, List.take_zero, List.nil_append,
    List.set_append_right _ _ (Nat.le_refl _), Nat.sub_self, List.set_cons_zero]
  simp

theorem length_putField {buf : Bytes} (h : buf.length = 32) (text : Bytes) :
    (putField buf text).length = 32 := by
  rw [putField, length_storeAt, h]
  rw [List.length_append, List.length_take, List.length_singleton]
  omega

/-- The text behind a field, whether it was copied as a whole or not. -/
theorem skip_eq {text rest : Bytes} (htext : IsField text) (hrest : AtFieldEnd rest) :
    (if (text.drop 31 ++ rest).head? ≠ some 44 ∧ (text.take 31).length = 31
      then (text.drop 31 ++ rest).dropWhile (!isFieldEnd ·) else text.drop 31 ++ rest) = rest := by
  have hdrop : ∀ c ∈ text.drop 31, (!isFieldEnd c) = true := by
    intro c hc
    rw [htext c (List.mem_of_mem_drop hc)]
    rfl
  split_ifs with h
  · rw [List.dropWhile_append_of_pos hdrop]
    cases rest with
    | nil => rfl
    | cons c rest => exact List.dropWhile_cons_of_neg (by rw [hrest c rfl]; decide)
  · -- a comma, or fewer than 31 characters: nothing of the field is left
    cases htail : text.drop 31 with
    | nil => rfl
    | cons c tail =>
      exfalso
      rw [htail] at h hdrop
      refine h ⟨?_, ?_⟩
      · intro hc
        obtain rfl := Option.some.inj hc
        exact absurd (hdrop 44 List.mem_cons_self) (by decide)
      · have hlen := congrArg List.length htail
        rw [List.length_drop, List.length_cons] at hlen
        rw [List.length_take]
        omega

/-- One turn of the loop stores one field. -/
theorem splitLoop_field {text rest : Bytes} (htext : IsField text) (hrest : AtFieldEnd rest)
    (room : Nat) {n : Nat} {field : List Bytes} (hn : n < field.length)
    (hbuf : ∀ buf ∈ field, buf.length = 32) :
    splitLoop (room + 1) (text ++ rest) field n =
      if rest.head? = some 44 then
        splitLoop room rest.tail (field.set n (putField (field.getD n []) text)) (n + 1)
      else some (n + 1, field.set n (putField (field.getD n []) text)) := by
  have h32 : field[n].length = 32 := hbuf _ (List.getElem_mem hn)
  have hshort : (text.take 31).length < field[n].length := by
    rw [List.length_take]
    omega
  have hcopy := copyField_eq htext hrest field[n] 0 h32 (by omega)
  have hset : setAt (storeAt field[n] 0 (text.take 31)) (text.take 31).length 0 =
      some (putField field[n] text) := by
    rw [setAt, if_pos (by rw [length_storeAt (by omega)]; exact hshort), set_storeAt hshort]
    rfl
  rw [splitLoop, List.getElem?_eq_getElem hn, List.getD_eq_getElem _ _ hn]
  dsimp only
  rw [hcopy]
  dsimp only
  rw [Nat.zero_add, Nat.sub_zero, hset]
  dsimp only
  rw [skip_eq htext hrest]

/-! ## All fields -/

theorem mem_set_length {field : List Bytes} (hbuf : ∀ buf ∈ field, buf.length = 32) {n : Nat}
    (hn : n < field.length) (text : Bytes) :
    ∀ buf ∈ field.set n (putField (field.getD n []) text), buf.length = 32 := by
  intro buf hmem
  rcases List.mem_or_eq_of_mem_set hmem with h | rfl
  · exact hbuf buf h
  · rw [List.getD_eq_getElem _ _ hn]
    exact length_putField (hbuf _ (List.getElem_mem hn)) text

/-- The loop stores the fields of a text one by one, up to the room it has. -/
theorem splitLoop_fields {texts : List Bytes} (hne : texts ≠ [])
    (htexts : ∀ text ∈ texts, IsField text) {eol : Bytes} (heol : AtFieldEnd eol)
    (hcomma : eol.head? ≠ some 44) :
    ∀ (room n : Nat) (field : List Bytes), n + room ≤ field.length →
      (∀ buf ∈ field, buf.length = 32) →
      splitLoop room (List.intercalate [44] texts ++ eol) field n =
        some (n + min room texts.length, putFields field n (texts.take room)) := by
  induction texts with
  | nil => exact absurd rfl hne
  | cons text texts ih =>
    intro room n field hroom hbuf
    cases room with
    | zero =>
      rw [splitLoop, Nat.zero_min, List.take_zero]
      rfl
    | succ room =>
      have htext := htexts text List.mem_cons_self
      have hn : n < field.length := by omega
      cases texts with
      | nil =>
        rw [List.intercalate_singleton, splitLoop_field htext heol room hn hbuf, if_neg hcomma,
          List.take_succ_cons, List.take_nil, List.length_singleton, Nat.min_eq_right (by omega)]
        rfl
      | cons next texts =>
        have hrest : AtFieldEnd (44 :: (List.intercalate [44] (next :: texts) ++ eol)) := by
          intro c hc
          obtain rfl := Option.some.inj hc
          rfl
        have hrec := ih (by simp) (fun t ht => htexts t (List.mem_cons_of_mem text ht)) room (n + 1)
          (field.set n (putField (field.getD n []) text)) (by rw [List.length_set]; omega)
          (mem_set_length hbuf hn text)
        have hsplit : List.intercalate [44] (text :: next :: texts) ++ eol =
            text ++ 44 :: (List.intercalate [44] (next :: texts) ++ eol) := by
          rw [List.intercalate_cons_cons]
          simp
        rw [hsplit, splitLoop_field htext hrest room hn hbuf, if_pos List.head?_cons,
          List.tail_cons, hrec, List.take_succ_cons, putFields, List.length_cons (a := text)]
        congr 2
        omega

/-- A character of a field is a character of the text and no comma. -/
theorem mem_of_mem_splitOn {s : Bytes} : ∀ text ∈ s.splitOn 44, ∀ c ∈ text, c ∈ s ∧ c ≠ 44 := by
  induction s with
  | nil =>
    intro text htext c hc
    rw [List.splitOn_nil, List.mem_singleton] at htext
    rw [htext] at hc
    exact absurd hc List.not_mem_nil
  | cons b s ih =>
    have hrest : ∀ text ∈ s.splitOn 44, ∀ c ∈ text, c ∈ b :: s ∧ c ≠ 44 := fun text ht c hc =>
      ⟨List.mem_cons_of_mem b (ih text ht c hc).1, (ih text ht c hc).2⟩
    intro text htext c hc
    rw [List.splitOn_cons_eq_if_modifyHead] at htext
    split_ifs at htext with hb
    · rcases List.mem_cons.mp htext with rfl | htext
      · exact absurd hc List.not_mem_nil
      · exact hrest text htext c hc
    · cases hs : s.splitOn 44 with
      | nil => exact absurd hs (List.splitOn_ne_nil _ _)
      | cons first others =>
        rw [hs] at htext hrest
        rcases List.mem_cons.mp htext with rfl | htext
        · rcases List.mem_cons.mp hc with rfl | hc
          · exact ⟨List.mem_cons_self, by simpa using hb⟩
          · exact hrest first List.mem_cons_self c hc
        · exact hrest text (List.mem_cons_of_mem first htext) c hc

/-- The fields of a line have no comma, no line end and no NUL. -/
theorem isField_of_mem_fieldsOf {line : Bytes} :
    ∀ text ∈ fieldsOf line, IsField text ∧ (0 : UInt8) ∉ text := by
  intro text htext
  refine ⟨fun c hc => ?_, fun h0 => ?_⟩
  · obtain ⟨hmem, hcomma⟩ := mem_of_mem_splitOn text htext c hc
    obtain ⟨-, hstop⟩ := upTo_subset c hmem
    simp only [List.mem_cons, List.not_mem_nil, or_false, not_or] at hstop
    simp [isFieldEnd, hcomma, hstop]
  · obtain ⟨hmem, -⟩ := mem_of_mem_splitOn text htext 0 h0
    exact zero_notMem_cstr line (upTo_subset 0 hmem).1

theorem splitFields_empty {line : Bytes} (hline : cstr line = []) (field : List Bytes)
    (max : Nat) : aiwb2SplitFields (some line) field max = some (0, field) :=
  if_pos hline

/-- `aiwb2_split_fields` stores the first `max` fields of a line that is not
empty and returns their number. -/
theorem splitFields_eq {line : Bytes} (hline : cstr line ≠ []) {field : List Bytes} {max : Nat}
    (hmax : max ≤ field.length) (hbuf : ∀ buf ∈ field, buf.length = 32) :
    aiwb2SplitFields (some line) field max =
      some (min max (fieldsOf line).length, putFields field 0 ((fieldsOf line).take max)) := by
  have hfields : ∀ text ∈ fieldsOf line, IsField text := fun text h =>
    (isField_of_mem_fieldsOf text h).1
  have hsplit : cstr line = List.intercalate [44] (fieldsOf line) ++
      (cstr line).dropWhile (fun c => !([13, 10] : Bytes).contains c) := by
    rw [fieldsOf, List.intercalate_splitOn, upTo, List.takeWhile_append_dropWhile]
  have hend : ∀ c, ((cstr line).dropWhile fun c => !([13, 10] : Bytes).contains c).head? = some c →
      c = 13 ∨ c = 10 := by
    intro c hc
    have := List.head?_dropWhile_not (fun c => !([13, 10] : Bytes).contains c) (cstr line)
    rw [hc] at this
    simpa [or_iff_not_imp_left] using this
  have hne : fieldsOf line ≠ [] := List.splitOn_ne_nil _ _
  rw [aiwb2SplitFields, if_neg hline, hsplit,
    splitLoop_fields hne hfields ?_ ?_ max 0 field (by omega) hbuf, Nat.zero_add]
  · intro c hc
    rcases hend c hc with rfl | rfl <;> rfl
  · intro hc
    rcases hend 44 hc with h | h <;> exact absurd h (by decide)

/-! ## The buffers -/

theorem cstr_putField {buf text : Bytes} (h0 : (0 : UInt8) ∉ text) :
    cstr (putField buf text) = text.take 31 := by
  have hcut : (0 : UInt8) ∉ text.take 31 := fun h => h0 (List.mem_of_mem_take h)
  rw [putField, storeAt, List.take_zero, List.nil_append, List.append_assoc, cstr_append hcut]
  exact List.append_nil _

theorem length_putFields (field : List Bytes) (n : Nat) (texts : List Bytes) :
    (putFields field n texts).length = field.length := by
  induction texts generalizing field n with
  | nil => rfl
  | cons text texts ih => rw [putFields, ih, List.length_set]

theorem mem_putFields_length {texts : List Bytes} :
    ∀ {field : List Bytes} {n : Nat}, n + texts.length ≤ field.length →
      (∀ buf ∈ field, buf.length = 32) → ∀ buf ∈ putFields field n texts, buf.length = 32 := by
  induction texts with
  | nil => exact fun _ hbuf => hbuf
  | cons text texts ih =>
    intro field n hle hbuf
    rw [List.length_cons] at hle
    exact ih (by rw [List.length_set]; omega) (mem_set_length hbuf (by omega) text)

/-- An array of `max` buffers, with any content. -/
structure FieldBuffers (max : Nat) (field : List Bytes) : Prop where
  length_eq : field.length = max
  mem_length : ∀ buf ∈ field, buf.length = 32

theorem FieldBuffers.putFields {max : Nat} {field : List Bytes} (h : FieldBuffers max field)
    (texts : List Bytes) : FieldBuffers max (putFields field 0 (texts.take max)) := by
  refine ⟨(length_putFields ..).trans h.length_eq, mem_putFields_length ?_ h.mem_length⟩
  rw [List.length_take, h.length_eq]
  omega

theorem getD_set_of_ne {field : List Bytes} {n i : Nat} (h : n ≠ i) (buf : Bytes) :
    (field.set n buf).getD i [] = field.getD i [] := by
  rw [List.getD_eq_getElem?_getD, List.getElem?_set_ne h, ← List.getD_eq_getElem?_getD]

/-- A buffer in front of the fields is as it was. -/
theorem getD_putFields_of_lt {field : List Bytes} {n i : Nat} (h : i < n) (texts : List Bytes) :
    (putFields field n texts).getD i [] = field.getD i [] := by
  induction texts generalizing field n with
  | nil => rfl
  | cons text texts ih => rw [putFields, ih (by omega), getD_set_of_ne (by omega)]

/-- A buffer behind the fields is as it was. -/
theorem getD_putFields_of_ge {i : Nat} (texts : List Bytes) :
    ∀ {field : List Bytes} {n : Nat}, n + texts.length ≤ i →
      (putFields field n texts).getD i [] = field.getD i [] := by
  induction texts with
  | nil => exact fun _ => rfl
  | cons text texts ih =>
    intro field n h
    rw [List.length_cons] at h
    rw [putFields, ih (by omega), getD_set_of_ne (by omega)]

/-- Each buffer that the fields reach has its own field. -/
theorem getD_putFields (texts : List Bytes) :
    ∀ (field : List Bytes) (n i : Nat), n + texts.length ≤ field.length → i < texts.length →
      (putFields field n texts).getD (n + i) [] =
        putField (field.getD (n + i) []) (texts.getD i []) := by
  induction texts with
  | nil => exact fun _ _ _ _ h => absurd h (Nat.not_lt_zero _)
  | cons text texts ih =>
    intro field n i hle hi
    rw [List.length_cons] at hle hi
    rw [putFields]
    cases i with
    | zero =>
      have hset : (field.set n (putField (field.getD n []) text))[n]? =
          some (putField (field.getD n []) text) := List.getElem?_set_self (by omega)
      rw [show n + 0 = n from rfl, getD_putFields_of_lt (show n < n + 1 by omega),
        List.getD_eq_getElem?_getD, hset, Option.getD_some, List.getD_cons_zero]
    | succ i =>
      rw [show n + (i + 1) = n + 1 + i by omega, List.getD_cons_succ,
        ih _ (n + 1) i (by rw [List.length_set]; omega) (by omega), getD_set_of_ne (by omega)]

section Stored

variable {texts field : List Bytes} {max i : Nat} (hmax : max ≤ field.length)
  (hi : i < min max texts.length)
include hmax hi

/-- The buffer of a field that was stored. -/
theorem getD_putFields_take :
    (putFields field 0 (texts.take max)).getD i [] =
      putField (field.getD i []) (texts.getD i []) := by
  have hlen : (texts.take max).length = min max texts.length := List.length_take
  have htext : (texts.take max).getD i [] = texts.getD i [] := by
    rw [List.getD_eq_getElem?_getD, List.getElem?_take_of_lt (by omega),
      ← List.getD_eq_getElem?_getD]
  have hput := getD_putFields (texts.take max) field 0 i (by omega) (by omega)
  rw [Nat.zero_add, htext] at hput
  exact hput

/-- The buffer shows the field, cut to 31 characters. -/
theorem cstr_putFields_take (h0 : ∀ text ∈ texts, (0 : UInt8) ∉ text) :
    cstr ((putFields field 0 (texts.take max)).getD i []) = (texts.getD i []).take 31 := by
  have hi' : i < texts.length := by omega
  rw [getD_putFields_take hmax hi, List.getD_eq_getElem _ _ hi']
  exact cstr_putField (h0 _ (List.getElem_mem hi'))

end Stored

/-! ## The specification -/

/-- An empty string has no fields.  Any other string has those of `fieldsOf`: the
function returns their number, up to `max`, and the buffers have the fields in
their order, each cut to 31 characters with a NUL behind it.  No store leaves the
`max` buffers, and the buffers behind the last field are as they were. -/
theorem split_fields_spec (line : Bytes) (field : List Bytes) (max : Nat)
    (hmax : max ≤ field.length) (hbuf : ∀ buf ∈ field, buf.length = 32) :
    (cstr line = [] → aiwb2SplitFields (some line) field max = some (0, field)) ∧
    (cstr line ≠ [] → ∃ field',
      aiwb2SplitFields (some line) field max = some (min max (fieldsOf line).length, field') ∧
      (∀ i < min max (fieldsOf line).length,
        field'.getD i [] = putField (field.getD i []) ((fieldsOf line).getD i []) ∧
          cstr (field'.getD i []) = ((fieldsOf line).getD i []).take 31) ∧
      ∀ i, min max (fieldsOf line).length ≤ i → field'.getD i [] = field.getD i []) := by
  refine ⟨fun hempty => splitFields_empty hempty field max, fun hline => ?_⟩
  have hno : ∀ text ∈ fieldsOf line, (0 : UInt8) ∉ text := fun text h =>
    (isField_of_mem_fieldsOf text h).2
  refine ⟨_, splitFields_eq hline hmax hbuf, fun i hi => ?_, fun i hi => ?_⟩
  · exact ⟨getD_putFields_take hmax hi, cstr_putFields_take hmax hi hno⟩
  · have hlen : ((fieldsOf line).take max).length = min max (fieldsOf line).length :=
      List.length_take
    exact getD_putFields_of_ge _ (by omega)

/-- A line with a long field and an empty one, and with one field more than there
are buffers. -/
def wideLine : Bytes := ascii "1," ++ List.replicate 40 120 ++ ascii ",,2\r\n"

theorem split_wideLine :
    ∃ field', aiwb2SplitFields (some wideLine) (List.replicate 4 (zeros 32)) 3 =
        some (3, field') ∧
      cstr (field'.getD 1 []) = List.replicate 31 120 ∧ cstr (field'.getD 2 []) = [] ∧
      field'.getD 3 [] = zeros 32 := by
  have hfields : fieldsOf wideLine = [ascii "1", List.replicate 40 120, [], ascii "2"] := by
    decide +kernel
  obtain ⟨field', hsplit, hfield, hrest⟩ := (split_fields_spec wideLine
    (List.replicate 4 (zeros 32)) 3 (by decide) (by decide +kernel)).2 (by decide)
  rw [hfields] at hsplit hfield hrest
  exact ⟨field', hsplit, (hfield 1 (by decide)).2, (hfield 2 (by decide)).2, hrest 3 (by decide)⟩

end Hc32Board.AiWb2
