import Hc32Board.CodeLib.Decimal

/-!
# Scanning with a format

`sscanf` for formats made of plain characters, blanks and `%d`.  A blank of
the format matches any run of blanks of the text, also an empty one.  The
result is the list of converted integers, so its length is what the C function
returns.  A number outside the range of a 32-bit `long` is saturated.
-/

namespace Hc32Board.CodeLib

/-- One directive of a scan format. -/
inductive Directive where
  | char (c : UInt8)
  | blank
  | int
deriving DecidableEq, Repr

/-- The directives of a format text. -/
def directives : Bytes → List Directive
  | 37 :: 100 :: s => .int :: directives s
  | c :: s => (if isSpace c then .blank else .char c) :: directives s
  | [] => []

/-- The value that `%d` stores for a number in the text. -/
def saturate (v : Int) : Int := max (-(2 ^ 31)) (min v (2 ^ 31 - 1))

/-- The integers that a list of directives converts, on a C string. -/
def scan : List Directive → Bytes → List Int
  | [], _ => []
  | .char c :: ds, b :: s => if b = c then scan ds s else []
  | .char _ :: _, [] => []
  | .blank :: ds, s => scan ds (s.dropWhile isSpace)
  | .int :: ds, s =>
    match strtol s with
    | some (v, rest) => saturate v :: scan ds rest
    | none => []

/-- `sscanf(data, format, ...)` on the C string at the start of `data`. -/
def sscanf (data : Bytes) (format : String) : List Int :=
  scan (directives (ascii format)) (cstr data)

/-- A literal matches a text that begins with it. -/
theorem scan_literal (pre s : Bytes) (ds : List Directive) :
    scan (pre.map .char ++ ds) (pre ++ s) = scan ds s := by
  induction pre with
  | nil => rfl
  | cons c pre ih =>
    rw [List.map_cons, List.cons_append, List.cons_append, scan, if_pos rfl]
    exact ih

theorem saturate_of_lt {n : Nat} (h : n < 2 ^ 31) : saturate n = n := by
  unfold saturate
  omega

/-- `%d` takes a number of the text. -/
theorem scan_int_decimal {n : Nat} (hn : n < 2 ^ 31) {rest : Bytes} (hrest : NoDigitNext rest)
    (ds : List Directive) :
    scan (.int :: ds) (decimal n ++ rest) = (n : Int) :: scan ds rest := by
  rw [scan, strtol_decimal_append n hrest]
  dsimp only
  rw [saturate_of_lt hn]

end Hc32Board.CodeLib
