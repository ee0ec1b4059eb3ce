import Hc32Board.AiWb2.Fields
import Hc32Board.AtClient.Parse

/-!
# The connections of the module

`aiwb2_netdev_netstat` of `at_device_aiwb2.c`.  It asks the module with
`AT+SOCKET?` and prints a text for each line of the form

    <ConID>,<type>,<status>,<host>,<rport>,<lport>,<sConID>

A line of a server has an empty host, so the line cannot be scanned with `%[^,]`
and goes through `aiwb2_split_fields`.  Lines without exactly seven fields are
skipped.  The splitter has room for eight: with seven it could not tell a longer
line from one of the right length.

`netstat_texts` says what is printed.  The buffers are not cleared between two
lines, and a text still shows nothing of an earlier one.
-/

namespace Hc32Board.AiWb2

open Hc32Board.CodeLib
open Hc32Board.AtClient

/-! ## The function -/

/-- `AIWB2_NETSTAT_FIELD_MAX`. -/
def netstatFieldMax : Nat := 8

/-- The text of a line.  `ip` is the address of the interface. -/
def netstatText (ip : Bytes) (field : List Bytes) : Bytes :=
  cstr (field.getD 1 []) ++ ascii ": " ++ ip ++ ascii ":" ++ cstr (field.getD 5 []) ++
    ascii " ==> " ++ cstr (field.getD 3 []) ++ ascii ":" ++ cstr (field.getD 4 []) ++ ascii "\n"

/-- The loop over the lines, with the texts it prints. -/
def netstatLoop (ip : Bytes) : List Bytes → List Bytes → Option (List Bytes)
  | [], _ => some []
  | line :: lines, field =>
    if (ascii "OK").isPrefixOf (cstr line) then netstatLoop ip lines field
    else
      match aiwb2SplitFields (some line) field netstatFieldMax with
      | none => none
      | some (n, field) =>
        if n ≠ 7 then netstatLoop ip lines field
        else (netstatLoop ip lines field).map (netstatText ip field :: ·)

/-- `aiwb2_netdev_netstat`.  `device` tells whether there is a device of this
name and `respOk` whether there is memory for the response. -/
def aiwb2NetdevNetstat (device respOk : Bool) (ip : Bytes) (reply : Reply) :
    Option (List Bytes) :=
  if !device || !respOk then some []
  else
    match reply with
    | none => some []
    | some lines => netstatLoop ip lines (List.replicate netstatFieldMax (zeros 32))

/-! ## One line -/

/-- The line describes a connection. -/
def isConnection (line : Bytes) : Bool :=
  !(ascii "OK").isPrefixOf (cstr line) && (fieldsOf line).length == 7

/-- The text of a line with seven fields shows its own fields. -/
theorem netstatText_split {line : Bytes} (h7 : (fieldsOf line).length = 7) (ip : Bytes)
    {field : List Bytes} (h : FieldBuffers netstatFieldMax field) :
    netstatText ip (putFields field 0 ((fieldsOf line).take netstatFieldMax)) =
      netstatText ip ((fieldsOf line).map (·.take 31)) := by
  have hno : ∀ text ∈ fieldsOf line, (0 : UInt8) ∉ text := fun text h =>
    (isField_of_mem_fieldsOf text h).2
  have hshown : ∀ i < 7,
      cstr ((putFields field 0 ((fieldsOf line).take netstatFieldMax)).getD i []) =
        cstr (((fieldsOf line).map (·.take 31)).getD i []) := by
    intro i hi
    have hi' : i < (fieldsOf line).length := by omega
    have hput := cstr_putFields_take h.length_eq.ge (show i < min netstatFieldMax _ by
      unfold netstatFieldMax; omega) hno
    have hcut : ((fieldsOf line).map (·.take 31)).getD i [] =
        ((fieldsOf line).getD i []).take 31 := List.getD_map (fieldsOf line) [] (·.take 31)
    have hnul : (0 : UInt8) ∉ ((fieldsOf line).getD i []).take 31 := by
      rw [List.getD_eq_getElem _ _ hi']
      exact fun h => hno _ (List.getElem_mem hi') (List.mem_of_mem_take h)
    rw [hput, hcut, cstr_eq_self hnul]
  rw [netstatText, netstatText, hshown 1 (by decide), hshown 3 (by decide), hshown 4 (by decide),
    hshown 5 (by decide)]

section Line

variable {line : Bytes} {field : List Bytes} (h : FieldBuffers netstatFieldMax field) (ip : Bytes)
  (lines : List Bytes)
include h

/-- A line that is not empty and not the end of the response is split. -/
theorem netstatLoop_split (hok : ¬ (ascii "OK").isPrefixOf (cstr line) = true)
    (hline : cstr line ≠ []) :
    netstatLoop ip (line :: lines) field =
      let field' := putFields field 0 ((fieldsOf line).take netstatFieldMax)
      if min netstatFieldMax (fieldsOf line).length ≠ 7 then netstatLoop ip lines field'
      else (netstatLoop ip lines field').map (netstatText ip field' :: ·) := by
  rw [netstatLoop, if_neg hok, splitFields_eq hline h.length_eq.ge h.mem_length]

theorem netstatLoop_connection (hconn : isConnection line = true) :
    ∃ field', FieldBuffers netstatFieldMax field' ∧
      netstatLoop ip (line :: lines) field = (netstatLoop ip lines field').map
        (netstatText ip ((fieldsOf line).map (·.take 31)) :: ·) := by
  simp only [isConnection, Bool.and_eq_true, Bool.not_eq_true', beq_iff_eq] at hconn
  obtain ⟨hok, h7⟩ := hconn
  have hline : cstr line ≠ [] := by
    -- an empty line has one field
    intro hempty
    rw [fieldsOf, hempty] at h7
    exact absurd h7 (by decide)
  refine ⟨_, h.putFields (fieldsOf line), ?_⟩
  rw [netstatLoop_split h ip lines (by simp [hok]) hline]
  dsimp only
  rw [h7, if_neg (by decide), netstatText_split h7 ip h]

theorem netstatLoop_skipped (hskip : isConnection line = false) :
    ∃ field', FieldBuffers netstatFieldMax field' ∧
      netstatLoop ip (line :: lines) field = netstatLoop ip lines field' := by
  by_cases hok : (ascii "OK").isPrefixOf (cstr line) = true
  · exact ⟨field, h, by rw [netstatLoop, if_pos hok]⟩
  · have h7 : (fieldsOf line).length ≠ 7 := by simpa [isConnection, hok] using hskip
    by_cases hline : cstr line = []
    · refine ⟨field, h, ?_⟩
      rw [netstatLoop, if_neg hok, splitFields_empty hline]
      exact if_pos (by decide)
    · refine ⟨_, h.putFields (fieldsOf line), ?_⟩
      rw [netstatLoop_split h ip lines hok hline]
      exact if_pos (by unfold netstatFieldMax; omega)

end Line

/-! ## What is printed -/

/-- The loop prints the connections, from any content of the buffers. -/
theorem netstatLoop_eq (ip : Bytes) (lines : List Bytes) :
    ∀ {field : List Bytes}, FieldBuffers netstatFieldMax field →
      netstatLoop ip lines field = some ((lines.filter isConnection).map fun line =>
        netstatText ip ((fieldsOf line).map (·.take 31))) := by
  induction lines with
  | nil => exact fun _ => rfl
  | cons line lines ih =>
    intro field h
    cases hconn : isConnection line with
    | true =>
      obtain ⟨field', h', heq⟩ := netstatLoop_connection h ip lines hconn
      rw [heq, ih h', List.filter_cons_of_pos hconn, Option.map_some, List.map_cons]
    | false =>
      obtain ⟨field', h', heq⟩ := netstatLoop_skipped h ip lines hconn
      rw [heq, ih h', List.filter_cons_of_neg (by simp [hconn])]

/-- One text for each connection of the response, in its order.  A field of more
than 31 characters is cut. -/
theorem netstat_texts (ip : Bytes) (lines : List Bytes) :
    aiwb2NetdevNetstat true true ip (some lines) =
      some ((lines.filter isConnection).map fun line =>
        netstatText ip ((fieldsOf line).map (·.take 31))) := by
  refine netstatLoop_eq ip lines ⟨List.length_replicate, fun buf hbuf => ?_⟩
  rw [List.eq_of_mem_replicate hbuf, length_zeros]

/-- A client, a server without a host, and the end of the response. -/
example :
    aiwb2NetdevNetstat true true (ascii "10.0.0.2")
        (some [ascii "1,4,2,10.0.0.1,80,50000,0\r", ascii "3,3,3,,-1,1883,0\r", ascii "OK\r"]) =
      some [ascii "4: 10.0.0.2:50000 ==> 10.0.0.1:80\n", ascii "3: 10.0.0.2:1883 ==> :-1\n"] := by
  decide +kernel

end Hc32Board.AiWb2
