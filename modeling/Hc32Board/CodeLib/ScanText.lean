import Hc32Board.CodeLib.Scanf

/-!
# Scanning for texts

`sscanf` for formats made of plain characters and negated sets, `%[^...]`.  A
set conversion takes the characters up to the first one of the set, at least
one of them, and has no limit.  The result is the list of converted texts, each
without the NUL that the C function stores behind it.
-/

namespace Hc32Board.CodeLib

/-- One directive of a format for texts. -/
inductive TextDirective where
  | char (c : UInt8)
  /-- `%[^...]`, with the characters of the set. -/
  | notIn (stops : Bytes)
deriving DecidableEq, Repr

/-- The directives of a literal. -/
def literal (s : String) : List TextDirective := (ascii s).map .char

/-- The part of a text before the first character of a set. -/
def upTo (stops s : Bytes) : Bytes := s.takeWhile fun c => !stops.contains c

/-- The texts that a list of directives converts, on a C string. -/
def scanTexts : List TextDirective → Bytes → List Bytes
  | [], _ => []
  | .char c :: ds, b :: s => if b = c then scanTexts ds s else []
  | .char _ :: _, [] => []
  | .notIn stops :: ds, s =>
    if upTo stops s = [] then []
    else upTo stops s :: scanTexts ds (s.drop (upTo stops s).length)

/-- `sscanf(data, format, ...)` on the C string at the start of `data`. -/
def sscanfTexts (data : Bytes) (format : List TextDirective) : List Bytes :=
  scanTexts format (cstr data)

/-- A literal matches a text that begins with it. -/
theorem scanTexts_literal (pre s : Bytes) (ds : List TextDirective) :
    scanTexts (pre.map .char ++ ds) (pre ++ s) = scanTexts ds s := by
  induction pre with
  | nil => rfl
  | cons c pre ih =>
    rw [List.map_cons, List.cons_append, List.cons_append, scanTexts, if_pos rfl]
    exact ih

/-- A text without a character of the set, up to one or up to the end. -/
theorem upTo_append {stops text rest : Bytes} (htext : ∀ c ∈ text, c ∉ stops)
    (hrest : ∀ c, rest.head? = some c → c ∈ stops) : upTo stops (text ++ rest) = text := by
  have hin : ∀ c ∈ text, (!stops.contains c) = true := by
    intro c hc
    simpa using htext c hc
  rw [upTo, List.takeWhile_append_of_pos hin]
  cases rest with
  | nil => exact List.append_nil _
  | cons c rest =>
    rw [List.takeWhile_cons_of_neg (by simpa using hrest c rfl), List.append_nil]

theorem upTo_subset {stops s : Bytes} : ∀ c ∈ upTo stops s, c ∈ s ∧ c ∉ stops := by
  intro c hc
  exact ⟨(List.takeWhile_prefix _).subset hc, by simpa using List.mem_takeWhile_imp hc⟩

end Hc32Board.CodeLib
