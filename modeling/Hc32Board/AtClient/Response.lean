import Hc32Board.AtClient.Line

/-!
# Responses

The response object of an AT command, and what `client_parser` of
`at_client.c` does with a line while a response is expected.

A response with `line_num = 0` ends with a line that begins with `OK`, with an
error line, or with a line that ends in the end sign.  A response with
`line_num = n` ends with its `n`-th line, whatever that line is.
-/

namespace Hc32Board.AtClient

open Hc32Board.CodeLib

/-- `struct at_response`.  `buf` holds the first `buf_len` bytes. -/
structure Resp where
  bufSize : Nat
  lineNum : Nat
  buf : Bytes
  lineCounts : Nat
deriving DecidableEq, Repr

/-- `at_create_resp`. -/
def atCreateResp (bufSize lineNum : Nat) : Resp := ⟨bufSize, lineNum, [], 0⟩

/-- `at_resp_status_t`. -/
inductive RespStatus where
  | ok | error | timeout | buffFull
deriving DecidableEq, Repr

/-- The line in the buffer, after its last byte was set to zero. -/
def terminated (line : Bytes) : Bytes := line.dropLast ++ [0]

/-- The line is copied into the response if it fits. -/
def Resp.addLine (r : Resp) (line : Bytes) : Option Resp :=
  if r.buf.length + line.length < r.bufSize then
    some { r with buf := r.buf ++ terminated line, lineCounts := r.lineCounts + 1 }
  else none

/-- The lines of a response, as `at_resp_get_line` steps through its buffer. -/
def respLines : Nat → Bytes → List Bytes
  | 0, _ => []
  | n + 1, buf => cstr buf :: respLines n (buf.drop ((cstr buf).length + 1))

/-- `rt_strstr`, on a text without the zero at its end. -/
def strstr (pat : Bytes) : Bytes → Bool
  | [] => pat.isEmpty
  | c :: text => pat.isPrefixOf (c :: text) || strstr pat text

/-- What a line did to a response. -/
structure Handled where
  resp : Resp
  status : RespStatus
  /-- The response is complete: the waiting thread is woken. -/
  ended : Bool

/-- `client_parser` on a line that is not a URC, while a response is
expected. -/
def handleLine (endSign : UInt8) (status : RespStatus) (resp : Resp) (line : Bytes) : Handled :=
  let endCh := line.getLastD 0
  let text := terminated line
  let r := (resp.addLine line).getD resp
  let status := if (resp.addLine line).isSome then status else .buffFull
  if endSign != 0 && endCh == endSign && r.lineNum == 0 then ⟨r, .ok, true⟩
  else if (ascii "OK").isPrefixOf text && r.lineNum == 0 then ⟨r, .ok, true⟩
  else if strstr (ascii "ERROR") (cstr text) || (ascii "FAIL").isPrefixOf text then
    ⟨r, .error, true⟩
  else if r.lineCounts == r.lineNum && r.lineNum != 0 then ⟨r, .ok, true⟩
  else ⟨r, status, false⟩

/-- The line begins with `OK`. -/
def okLine (line : Bytes) : Bool := (ascii "OK").isPrefixOf line

/-- The line ends in the character. -/
def endsIn (line : Bytes) (ch : UInt8) : Bool := line.getLast? == some ch

theorem endsIn_of_getLastD {line : Bytes} {ch : UInt8} (hne : ch ≠ 0)
    (h : line.getLastD 0 = ch) : endsIn line ch = true := by
  rw [List.getLastD_eq_getLast?] at h
  unfold endsIn
  cases hlast : line.getLast? with
  | none => rw [hlast] at h; exact absurd h.symm hne
  | some c => rw [hlast] at h; rw [← h]; exact beq_self_eq_true _

theorem addLine_lineNum (r : Resp) (line : Bytes) :
    ((r.addLine line).getD r).lineNum = r.lineNum := by
  unfold Resp.addLine
  split_ifs <;> rfl

theorem handleLine_lineNum (endSign : UInt8) (status : RespStatus) (r : Resp) (line : Bytes) :
    (handleLine endSign status r line).resp.lineNum = r.lineNum := by
  unfold handleLine
  dsimp only
  split_ifs <;> exact addLine_lineNum r line

/-- The zero that replaces the last byte is not part of `OK`. -/
theorem okLine_of_terminated {line : Bytes}
    (h : (ascii "OK").isPrefixOf (terminated line) = true) : okLine line = true := by
  rw [okLine, List.isPrefixOf_iff_prefix] at *
  rcases List.prefix_concat_iff.mp h with heq | hpre
  · have hlast := congrArg List.getLast? heq
    rw [List.getLast?_concat] at hlast
    exact absurd hlast (by decide)
  · exact hpre.trans (List.dropLast_prefix line)

/-- A line that goes on behind `OK` still begins with it. -/
theorem terminated_of_okLine {line : Bytes} (h : okLine line = true)
    (hlast : line.getLast? ≠ some 75) : (ascii "OK").isPrefixOf (terminated line) = true := by
  rw [okLine, List.isPrefixOf_iff_prefix] at *
  have hne : line ≠ [] := by
    intro hnil
    rw [hnil] at h
    exact absurd h (by decide)
  rw [← List.dropLast_append_getLast hne] at h
  rcases List.prefix_concat_iff.mp h with heq | hpre
  · rw [List.dropLast_append_getLast hne] at heq
    rw [← heq] at hlast
    exact absurd rfl hlast
  · exact hpre.trans (List.prefix_append _ _)

/-- A wait for `OK` that ends well has seen a line that begins with `OK`, if
the line does not end in the end sign. -/
theorem okLine_of_handleLine {endSign : UInt8} {status : RespStatus} {r : Resp} {line : Bytes}
    (hnum : r.lineNum = 0) (hsign : endsIn line endSign = false)
    (hended : (handleLine endSign status r line).ended = true)
    (hok : (handleLine endSign status r line).status = .ok) : okLine line = true := by
  have hnum' := (addLine_lineNum r line).trans hnum
  unfold handleLine at hended hok
  dsimp only at hended hok
  split_ifs at hended hok with h1 h2 h3 h4
  · -- ended by the end sign
    simp only [Bool.and_eq_true, bne_iff_ne, beq_iff_eq] at h1
    rw [endsIn_of_getLastD h1.1.1 h1.1.2] at hsign
    exact absurd hsign (by decide)
  · exact okLine_of_terminated (Bool.and_eq_true_iff.mp h2).1
  · rw [hnum'] at h4
    exact absurd h4 (by simp)

/-- A line that begins with `OK` ends a wait for `OK`. -/
theorem handleLine_of_okLine (endSign : UInt8) (status : RespStatus) {r : Resp} {line : Bytes}
    (hnum : r.lineNum = 0) (hok : okLine line = true) (hlast : line.getLast? ≠ some 75) :
    (handleLine endSign status r line).ended = true ∧
      (handleLine endSign status r line).status = .ok := by
  have hnum' := (addLine_lineNum r line).trans hnum
  have htext := terminated_of_okLine hok hlast
  unfold handleLine
  dsimp only
  rw [htext, hnum']
  split_ifs with h1 h2
  · exact ⟨rfl, rfl⟩
  · exact ⟨rfl, rfl⟩
  all_goals exact absurd rfl h2

end Hc32Board.AtClient
