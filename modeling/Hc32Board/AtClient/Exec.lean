import Hc32Board.AtClient.Parse

/-!
# A command and its response

`at_obj_exec_cmd` of `at_client.c` for a response that ends with `OK`, from the
characters of the serial device to the lines of the response.  The lock of the
client is held, so no socket send has set an end sign.

A line of the device goes three ways.

* The reader drops it, if it is longer than the line buffer.
* It is an event and goes to its handler.
* It is handled as a line of the response: it is copied if there is room for it,
  and may end the response.

`exec_eq` says what comes out for a device that sends whole lines, without the
buffers: `answerLines` works on lists of lines.
-/

namespace Hc32Board.AtClient

open Hc32Board.CodeLib

/-! ## The command -/

/-- `client_parser` while a response is expected.  The result is `none` if the
response does not end. -/
def parseResp (status : RespStatus) (resp : Resp) :
    List (Bytes × Option Urc) → Option (Resp × RespStatus)
  | [] => none
  | (_, some _) :: lines => parseResp status resp lines
  | (line, none) :: lines =>
    let h := handleLine 0 status resp line
    if h.ended then some (h.resp, h.status) else parseResp h.status h.resp lines

/-- What the waiting thread makes of a response. -/
def replyOf : Option (Resp × RespStatus) → Reply
  | some (resp, .ok) => some (respLines resp.lineCounts resp.buf)
  | _ => none

/-- `at_obj_exec_cmd`, for what the device sends in the time of the command. -/
def atObjExecCmd (bufsz respSize : Nat) (text : Bytes) : Reply :=
  replyOf
    (parseResp .ok (atCreateResp respSize 0) (readLines bufsz .enter (rxText 0 text)))

/-! ## The response as a list of lines -/

/-- A line as a response keeps it: it ends in CR, and the LF behind it is
replaced by a zero. -/
structure IsRespLine (line : Bytes) : Prop where
  no_nul : (0 : UInt8) ∉ line
  crlf : ∃ body, line = body ++ [13] ∧ CrlfAtEnd (body ++ [13, 10])

/-- A value is a line of a response. -/
theorem isRespLine_value {text : Bytes} (h : IsValue text) : IsRespLine (text ++ [13]) where
  no_nul := by
    simp only [List.mem_append, List.mem_singleton, not_or]
    exact ⟨fun h0 => (h 0 h0).1 rfl, by decide⟩
  crlf := ⟨text, rfl, crlfAtEnd_of_no_lf fun h10 => (h 10 h10).2.2 rfl⟩

/-- The line ends a response with an error. -/
def errorLine (line : Bytes) : Bool :=
  strstr (ascii "ERROR") line || (ascii "FAIL").isPrefixOf line

/-- The parser handles the line as a line of the response. -/
def heard (bufsz : Nat) (line : Bytes) : Bool :=
  decide (line.length + 1 ≤ bufsz) && (getUrcObj (line ++ [10])).isNone

/-- The bytes of a response with these lines. -/
def respBytes (lines : List Bytes) : Bytes := lines.flatMap (· ++ [0])

/-- The lines of a response after one more line, if there is room for it. -/
def hold (size : Nat) (lines : List Bytes) (line : Bytes) : List Bytes :=
  if (respBytes lines).length + (line.length + 1) < size then lines ++ [line] else lines

/-- What a command is answered with, by the lines that are handled. -/
def answerLines (size : Nat) : List Bytes → List Bytes → Reply
  | _, [] => none
  | held, line :: lines =>
    if okLine line then some (hold size held line)
    else if errorLine line then none
    else answerLines size (hold size held line) lines

theorem respBytes_append (lines lines' : List Bytes) :
    respBytes (lines ++ lines') = respBytes lines ++ respBytes lines' := List.flatMap_append

theorem respBytes_singleton (line : Bytes) : respBytes [line] = line ++ [0] :=
  List.flatMap_singleton ..

/-- The lines can be told apart by their zeros. -/
theorem respLines_respBytes {lines : List Bytes} (h : ∀ line ∈ lines, (0 : UInt8) ∉ line) :
    respLines lines.length (respBytes lines) = lines := by
  induction lines with
  | nil => rfl
  | cons line lines ih =>
    have hsplit : respBytes (line :: lines) = line ++ 0 :: respBytes lines := by
      simp [respBytes]
    have hcstr : cstr (line ++ 0 :: respBytes lines) = line := by
      rw [cstr_append (h line List.mem_cons_self)]
      exact List.append_nil _
    have hdrop : (line ++ 0 :: respBytes lines).drop (line.length + 1) = respBytes lines := by
      rw [List.drop_append]
      simp
    rw [List.length_cons, respLines, hsplit, hcstr, hdrop,
      ih fun l hl => h l (List.mem_cons_of_mem line hl)]

theorem mem_hold {size : Nat} {lines : List Bytes} {line l : Bytes} (h : l ∈ hold size lines line) :
    l ∈ lines ∨ l = line := by
  unfold hold at h
  split_ifs at h
  · exact (List.mem_append.mp h).imp_right List.mem_singleton.mp
  · exact .inl h

section Answer

variable {bufsz size : Nat} {line : Bytes}

/-- A line that does not end the response. -/
theorem answerLines_goes_on (hsize : size ≤ bufsz) (hurc : getUrcObj (line ++ [10]) = none)
    (hok : okLine line = false) (herror : ¬ (heard bufsz line = true ∧ errorLine line = true))
    (held lines : List Bytes) :
    answerLines size held ((line :: lines).filter (heard bufsz)) =
      answerLines size (hold size held line) (lines.filter (heard bufsz)) := by
  cases hheard : heard bufsz line with
  | true =>
    rw [List.filter_cons_of_pos hheard, answerLines, hok, if_neg Bool.false_ne_true,
      if_neg fun h => herror ⟨hheard, h⟩]
  | false =>
    -- a line that does not fit the line buffer does not fit the response
    have hlong : ¬ line.length + 1 ≤ bufsz := by simpa [heard, hurc] using hheard
    rw [List.filter_cons_of_neg (by simp [hheard]), hold, if_neg (by omega)]

/-- A line that ends the response with an error. -/
theorem answerLines_fails (hok : okLine line = false)
    (herror : heard bufsz line = true ∧ errorLine line = true) (held lines : List Bytes) :
    answerLines size held ((line :: lines).filter (heard bufsz)) = none := by
  rw [List.filter_cons_of_pos herror.1, answerLines, hok, if_neg Bool.false_ne_true,
    if_pos herror.2]

end Answer

/-! ## The parser -/

/-- A response that holds these lines. -/
def respOf (size : Nat) (lines : List Bytes) : Resp := ⟨size, 0, respBytes lines, lines.length⟩

theorem terminated_concat (line : Bytes) : terminated (line ++ [10]) = line ++ [0] := by
  rw [terminated, List.dropLast_concat]

theorem addLine_respOf (size : Nat) (lines : List Bytes) (line : Bytes) :
    ((respOf size lines).addLine (line ++ [10])).getD (respOf size lines) =
      respOf size (hold size lines line) := by
  have hlen : (line ++ [10]).length = line.length + 1 := by
    rw [List.length_append, List.length_singleton]
  unfold Resp.addLine hold respOf
  dsimp only
  rw [hlen]
  split_ifs
  · rw [Option.getD_some, terminated_concat, respBytes_append, respBytes_singleton,
      List.length_append, List.length_singleton]
  · rfl

/-- A zero at the end does not change what a text begins with. -/
theorem isPrefixOf_concat_zero {pat : Bytes} (hpat : (0 : UInt8) ∉ pat) (text : Bytes) :
    pat.isPrefixOf (text ++ [0]) = pat.isPrefixOf text := by
  rw [Bool.eq_iff_iff, List.isPrefixOf_iff_prefix, List.isPrefixOf_iff_prefix]
  refine ⟨fun h => ?_, fun h => h.trans (List.prefix_append _ _)⟩
  rcases List.prefix_concat_iff.mp h with heq | hpre
  · exact absurd (heq ▸ List.mem_append_right _ (List.mem_singleton_self 0)) hpat
  · exact hpre

/-- A line of a response that ends with `OK`. -/
theorem handleLine_respOf (size : Nat) (status : RespStatus) (lines : List Bytes) {line : Bytes}
    (hline : (0 : UInt8) ∉ line) :
    ∃ status', handleLine 0 status (respOf size lines) (line ++ [10]) =
      if okLine line then ⟨respOf size (hold size lines line), .ok, true⟩
      else if errorLine line then ⟨respOf size (hold size lines line), .error, true⟩
      else ⟨respOf size (hold size lines line), status', false⟩ := by
  have hcstr : cstr (line ++ [0]) = line := by
    rw [cstr_append hline]
    exact List.append_nil _
  refine ⟨if ((respOf size lines).addLine (line ++ [10])).isSome then status else .buffFull, ?_⟩
  unfold handleLine
  dsimp only
  rw [addLine_respOf, terminated_concat, hcstr, isPrefixOf_concat_zero (by decide),
    isPrefixOf_concat_zero (by decide)]
  simp only [bne_self_eq_false, Bool.false_and, Bool.false_eq_true, if_false, respOf,
    beq_self_eq_true, Bool.and_true, okLine, errorLine, Bool.and_false]
  rfl

theorem parseResp_heard (size : Nat) {lines : List Bytes} (hlines : ∀ l ∈ lines, (0 : UInt8) ∉ l)
    {held : List Bytes} (hheld : ∀ l ∈ held, (0 : UInt8) ∉ l) (status : RespStatus) :
    replyOf (parseResp status (respOf size held) (lines.map fun l => (l ++ [10], none))) =
      answerLines size held lines := by
  induction lines generalizing held status with
  | nil => rfl
  | cons line lines ih =>
    have hline := hlines line List.mem_cons_self
    have hnext : ∀ l ∈ hold size held line, (0 : UInt8) ∉ l := by
      intro l hl
      rcases mem_hold hl with hl | rfl
      · exact hheld l hl
      · exact hline
    obtain ⟨status', hstep⟩ := handleLine_respOf size status held hline
    rw [List.map_cons, parseResp, hstep, answerLines]
    by_cases hok : okLine line = true
    · rw [if_pos hok, if_pos hok]
      exact congrArg some (respLines_respBytes hnext)
    · rw [if_neg hok, if_neg hok]
      by_cases herror : errorLine line = true
      · rw [if_pos herror, if_pos herror]
        rfl
      · rw [if_neg herror, if_neg herror]
        exact ih (fun l hl => hlines l (List.mem_cons_of_mem line hl)) hnext status'

/-! ## The device -/

/-- Whole lines are read one by one, if they fit the line buffer. -/
theorem readLines_lines (bufsz : Nat) {lines : List Bytes} (hlines : ∀ l ∈ lines, IsRespLine l) :
    readLines bufsz .enter (rxText 0 (lines.flatMap (· ++ [10]))) =
      (lines.filter fun l => decide (l.length + 1 ≤ bufsz)).map
        fun l => (l ++ [10], getUrcObj (l ++ [10])) := by
  induction lines with
  | nil => rfl
  | cons line lines ih =>
    obtain ⟨body, rfl, hcrlf⟩ := (hlines line List.mem_cons_self).crlf
    have htext : (rxText 0 (body ++ [13, 10])).map (·.ch) = body ++ [13, 10] := by
      rw [rxText, List.map_map]
      exact List.map_id _
    have hcut : ∀ x ∈ rxText 0 (body ++ [13, 10]), x.cuts = false := by
      intro x hx
      obtain ⟨ch, -, rfl⟩ := List.mem_map.mp hx
      rfl
    have hsplit : rxText 0 (((body ++ [13]) :: lines).flatMap (· ++ [10])) =
        rxText 0 (body ++ [13, 10]) ++ rxText 0 (lines.flatMap (· ++ [10])) := by
      rw [rxText, rxText, rxText, ← List.map_append]
      congr 1
      simp
    rw [hsplit, readLines_line bufsz htext hcrlf hcut,
      ih fun l hl => hlines l (List.mem_cons_of_mem _ hl), List.filter_cons]
    have hlen : (body ++ [13]).length + 1 ≤ bufsz ↔ body.length + 2 ≤ bufsz := by
      rw [List.length_append, List.length_singleton]
    simp only [decide_eq_true_eq, hlen]
    split_ifs
    · rw [List.map_cons, List.append_assoc]
      rfl
    · rfl

/-- Events are no lines of the response. -/
theorem parseResp_events (status : RespStatus) (resp : Resp) (lines : List Bytes) :
    parseResp status resp (lines.map fun l => (l ++ [10], getUrcObj (l ++ [10]))) =
      parseResp status resp
        ((lines.filter fun l => (getUrcObj (l ++ [10])).isNone).map
          fun l => (l ++ [10], none)) := by
  induction lines generalizing status resp with
  | nil => rfl
  | cons line lines ih =>
    rw [List.map_cons, List.filter_cons]
    cases hurc : getUrcObj (line ++ [10]) with
    | none =>
      rw [Option.isNone_none, if_pos rfl, List.map_cons, parseResp, parseResp, ih]
    | some u =>
      rw [Option.isNone_some, if_neg Bool.false_ne_true, parseResp, ih]

/-- A command for a device that answers with whole lines. -/
theorem exec_eq (bufsz respSize : Nat) {lines : List Bytes} (hlines : ∀ l ∈ lines, IsRespLine l) :
    atObjExecCmd bufsz respSize (lines.flatMap (· ++ [10])) =
      answerLines respSize [] (lines.filter (heard bufsz)) := by
  have hnul : ∀ l ∈ lines.filter (heard bufsz), (0 : UInt8) ∉ l := fun l hl =>
    (hlines l (List.mem_of_mem_filter hl)).no_nul
  have hfilter : (lines.filter fun l => decide (l.length + 1 ≤ bufsz)).filter
      (fun l => (getUrcObj (l ++ [10])).isNone) = lines.filter (heard bufsz) := by
    rw [List.filter_filter]
    congr 1
    funext l
    exact Bool.and_comm _ _
  rw [← parseResp_heard respSize hnul (fun l hl => absurd hl List.not_mem_nil) .ok, atObjExecCmd,
    readLines_lines bufsz hlines, parseResp_events, hfilter]
  rfl

end Hc32Board.AtClient
