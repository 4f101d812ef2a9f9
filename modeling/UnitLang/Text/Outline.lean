/-
# Outlines of structured values

A value is shown for inspection as an outline: names, and brackets around parts.  The same
outline has two layouts.

* `Outline.inline` writes it on one line: `Name { key: x, other: [y, z] }`, `Name(x)`.
* `Outline.indented` gives every part a line of its own, four spaces further in than the bracket
  that holds it and with a comma behind it.  A group without parts stays on one line.
-/

namespace UnitLang.Text

/-- How the parts of a group are bracketed: named parts in braces, parts of a tuple in
parentheses, items of a sequence in square brackets. -/
inductive Brackets where
  | braces
  | parens
  | square
deriving DecidableEq, Repr

/-- A value to show: a word, a bracketed group behind its name, or a part with its key. -/
inductive Outline where
  | word (text : String)
  | group (name : String) (brackets : Brackets) (parts : List Outline)
  | keyed (key : String) (value : Outline)

namespace Outline

/-! ## 1. Short ways to write an outline -/

/-- A group of keyed parts: `Name { key: value, .. }`. -/
def record (name : String) (parts : List (String × Outline)) : Outline :=
  .group name .braces (parts.map fun (key, value) => .keyed key value)

/-- A name applied to one part: `Name(value)`. -/
def wrap (name : String) (value : Outline) : Outline := .group name .parens [value]

/-- A sequence of items: `[x, y]`. -/
def sequence (items : List Outline) : Outline := .group "" .square items

/-- A part that may be missing: `Some(value)` or `None`. -/
def optional : Option Outline → Outline
  | some value => wrap "Some" value
  | none => .word "None"

/-- A number, in decimal digits. -/
def number (n : Nat) : Outline := .word (toString n)

/-! ## 2. The two layouts -/

/-- The opening bracket; a brace stands apart from the name. -/
def opening : Brackets → String
  | .braces => " \x7b"
  | .parens => "("
  | .square => "["

/-- The closing bracket. -/
def closing : Brackets → String
  | .braces => "\x7d"
  | .parens => ")"
  | .square => "]"

/-- The blank inside braces on one line; the other brackets stand close. -/
def padding : Brackets → String
  | .braces => " "
  | _ => ""

mutual

/-- The outline on one line. -/
def inline : Outline → String
  | .word text => text
  | .keyed key value => key ++ ": " ++ value.inline
  | .group name b parts =>
    name ++ opening b ++ padding b ++ ", ".intercalate (inlines parts) ++ padding b ++ closing b

/-- Several outlines, each on one line. -/
def inlines : List Outline → List String
  | [] => []
  | part :: parts => part.inline :: inlines parts

end

/-- The blanks before a line that is `depth` brackets deep. -/
def indent (depth : Nat) : String := String.ofList (List.replicate (4 * depth) ' ')

mutual

/-- The outline over several lines, the first of which is already `depth` brackets deep. -/
def indented (depth : Nat) : Outline → String
  | .word text => text
  | .keyed key value => key ++ ": " ++ value.indented depth
  | .group name b [] => name ++ opening b ++ closing b
  | .group name b (part :: parts) =>
    name ++ opening b ++ "\n" ++ String.join (indentedParts (depth + 1) (part :: parts)) ++
      indent depth ++ closing b

/-- The lines of several parts, each `depth` brackets deep and with a comma behind it. -/
def indentedParts (depth : Nat) : List Outline → List String
  | [] => []
  | part :: parts =>
    (indent depth ++ part.indented depth ++ ",\n") :: indentedParts depth parts

end

end Outline

end UnitLang.Text
