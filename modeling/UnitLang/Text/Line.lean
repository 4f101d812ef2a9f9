/-
# One line of a text

Lines are ended by a line feed, and a report shows a line without its end.  A carriage return
before the line feed belongs to the end too, so exactly one is dropped from the end of the line.
-/

namespace UnitLang.Text

/-- The text up to the first line feed, after `below` line feeds have been passed; nothing if
there are fewer. -/
def rawLine : Nat → List Char → List Char
  | 0, text => text.takeWhile (· ≠ '\n')
  | below + 1, text =>
    match text.dropWhile (· ≠ '\n') with
    | [] => []
    | _ :: rest => rawLine below rest

/-- `text` without the carriage return that ends it, if one does. -/
def dropReturn (text : List Char) : List Char :=
  if text.getLast? = some '\r' then text.dropLast else text

/-- The text of line `number`, counted from 1, without its end.  Line 0 is taken for line 1, and
a line past the last is empty. -/
def line (source : String) (number : Nat) : String :=
  String.ofList (dropReturn (rawLine (number - 1) source.toList))

end UnitLang.Text
