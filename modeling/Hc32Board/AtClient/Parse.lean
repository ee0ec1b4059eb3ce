import Hc32Board.AtClient.Response
import Hc32Board.CodeLib.ScanText

/-!
# Parsing a response

`at_resp_get_line_by_kw` and `at_resp_parse_line_args_by_kw` of `at_client.c`,
on the lines of a response.  A line is a C string: `client_parser` has put a
zero in the place of its line feed, and the carriage return is still there.

The keyword may stand anywhere in a line, but the formats of the Ai-WB2 driver
begin with it.  A line that has something before the keyword is found and then
does not scan.
-/

namespace Hc32Board.AtClient

open Hc32Board.CodeLib

/-- What a command was answered with.  `none` is a failed `at_obj_exec_cmd`. -/
abbrev Reply := Option (List Bytes)

/-- `at_resp_get_line_by_kw`. -/
def atRespGetLineByKw (lines : List Bytes) (keyword : String) : Option Bytes :=
  lines.find? fun line => strstr (ascii keyword) (cstr line)

/-- `at_resp_parse_line_args_by_kw` for a format with texts. -/
def atRespParseTextsByKw (lines : List Bytes) (keyword : String)
    (format : List TextDirective) : List Bytes :=
  match atRespGetLineByKw lines keyword with
  | some line => sscanfTexts line format
  | none => []

/-- `at_resp_parse_line_args_by_kw` for a format with numbers. -/
def atRespParseIntsByKw (lines : List Bytes) (keyword format : String) : List Int :=
  match atRespGetLineByKw lines keyword with
  | some line => sscanf line format
  | none => []

/-- The value that `keyword:%[^\r\n]` gives on the first line with the
keyword. -/
def kwValue (lines : List Bytes) (keyword : String) : Option Bytes :=
  (atRespParseTextsByKw lines keyword (literal keyword ++ [.notIn [13, 10]])).head?

/-- The text of a value: no NUL and no line end. -/
def IsValue (text : Bytes) : Prop := ∀ c ∈ text, c ≠ 0 ∧ c ≠ 13 ∧ c ≠ 10

theorem isValue_append {a b : Bytes} (ha : IsValue a) (hb : IsValue b) : IsValue (a ++ b) :=
  fun c hc => (List.mem_append.mp hc).elim (ha c) (hb c)

/-- The characters behind the keyword of a line that begins with it are its
value, up to the carriage return. -/
theorem kwValue_of_line {lines : List Bytes} {keyword : String} {text : Bytes}
    (hkw : (0 : UInt8) ∉ ascii keyword) (htext : IsValue text) (hne : text ≠ [])
    (hline : atRespGetLineByKw lines keyword = some (ascii keyword ++ text ++ [13])) :
    kwValue lines keyword = some text := by
  have h0 : (0 : UInt8) ∉ ascii keyword ++ text ++ [13] := by
    simp only [List.mem_append, List.mem_singleton, not_or]
    exact ⟨⟨hkw, fun h => (htext 0 h).1 rfl⟩, by decide⟩
  have hupTo : upTo [13, 10] (text ++ [13]) = text := by
    refine upTo_append ?_ ?_
    · intro c hc
      simp [(htext c hc).2.1, (htext c hc).2.2]
    · intro c hc
      obtain rfl := Option.some.inj hc
      decide
  rw [kwValue, atRespParseTextsByKw, hline]
  dsimp only
  rw [sscanfTexts, cstr_eq_self h0, literal, List.append_assoc, scanTexts_literal, scanTexts, hupTo,
    if_neg hne]
  rfl

end Hc32Board.AtClient
