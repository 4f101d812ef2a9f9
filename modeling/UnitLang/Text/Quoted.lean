/-
# Quoted text

A message that cites a piece of source text puts it between double quotes, so that its end and
its invisible characters can be seen.  Inside the quotes

* the double quote, the backslash, and the four controls NUL, tab, carriage return and line feed
  have a two-character form;
* any other unmarked character is written `\u{..}`, by its code point in lower-case hexadecimal
  without leading zeros;
* every other character, the apostrophe included, stands for itself.
-/
import UnitLang.Text.Unmarked

namespace UnitLang.Text

/-- The letter that stands behind a backslash for `c`, if `c` has a two-character form. -/
def shortForm? : Char → Option Char
  | '"' => some '"'
  | '\\' => some '\\'
  | '\x00' => some '0'
  | '\t' => some 't'
  | '\r' => some 'r'
  | '\n' => some 'n'
  | _ => none

/-- How `c` is written between quotes. -/
def quoteChar (c : Char) : List Char :=
  match shortForm? c with
  | some letter => ['\\', letter]
  | none => if isUnmarked c then ['\\', 'u', '\x7b'] ++ Nat.toDigits 16 c.toNat ++ ['\x7d'] else [c]

/-- `text` between double quotes. -/
def quote (text : String) : String :=
  String.ofList ('"' :: text.toList.flatMap quoteChar ++ ['"'])

end UnitLang.Text
