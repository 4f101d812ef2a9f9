/-
# Reports

A report shows an error to the writer of the source text, in five lines:

    Error: UnexpectedToken (Unexpected token: `123`)
    -> main.unit:1:5
      |
    1 | unit 123;
      | -----^

The bars stand under each other, one blank behind the widest line number, and the caret stands
as many characters behind the blank after its bar as the error's column counts bytes.

A line of carets that is wider than `Report.maxCaret` cannot be laid out, and then there is no
report at all: `render?_isSome_iff`.
-/
import UnitLang.Error
import UnitLang.Text.Line

namespace UnitLang.Report

/-- The widest line of dashes with a caret behind them: widths are sixteen-bit numbers. -/
def maxCaret : Nat := 65535

/-- `n` copies of a character. -/
def fill (n : Nat) (c : Char) : String := String.ofList (List.replicate n c)

/-- The headline: the cause, and the tip if there is one. -/
def headline (c : Cause) : String :=
  match c.tip? with
  | none => s!"Error: {c.name}"
  | some tip => s!"Error: {c.name} ({tip})"

/-- The bar below or above a line number, which stands under the bar beside the number. -/
def bar (line : Nat) : String := fill ((toString line).length + 1) ' ' ++ "|"

/-- Dashes for the bytes before the column, and a caret below it. -/
def caret (column : Nat) : String := fill column '-' ++ "^"

/-- The five lines of a report on `e`, which was found in `source`, the text of `file`. -/
def lines (e : Error) (source file : String) : List String :=
  let p := e.position
  [headline e.cause,
   s!"-> {file}:{p.line}:{p.column}",
   bar p.line,
   s!"{p.line} | {Text.line source p.line}",
   bar p.line ++ " " ++ caret p.column]

/-- The report on `e`, unless its caret would stand too far to the right. -/
def render? (e : Error) (source file : String) : Option String :=
  if e.position.column < maxCaret then
    some (String.join ((lines e source file).map (· ++ "\n")))
  else none

theorem render?_isSome_iff (e : Error) (source file : String) :
    (render? e source file).isSome ↔ e.position.column < maxCaret := by
  unfold render?; split <;> simp_all

end UnitLang.Report
