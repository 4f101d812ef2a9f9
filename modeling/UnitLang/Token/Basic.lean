/-
# Tokens

A token is a kind, the piece of source text it was read from, and where that piece stands.  Two
texts show a token: `Token.listing`, a line of a token list, and `Token.summary`, two lines in
braces that leave out the place.
-/
import UnitLang.Position
import UnitLang.Token.Kind

namespace UnitLang

/-- A token. -/
structure Token where
  kind : Kind
  value : String
  span : Span
deriving DecidableEq, Repr, Inhabited

namespace Token

/-- The text that stands for the end of the input, which has none of its own. -/
def endText : String := "$"

/-- The token that stands at the end of the input. -/
def endOfInput (p : Position) : Token := ⟨.endOfInput, endText, ⟨p, p⟩⟩

/-- Whether this is the end of the input. -/
def isEnd (t : Token) : Bool := t.kind = .endOfInput

/-- The line for `t` in a token list: where it begins, its kind, and in parentheses its text if
the kind does not settle it. -/
def listing (t : Token) : String :=
  let value := if t.kind.showsValue then t.value else ""
  s!"{t.span.start.line}:{t.span.start.column} {t.kind.name} ({value})"

/-- Kind and text of `t`, whatever the kind. -/
def summary (t : Token) : String :=
  s!"Token \x7b\nkind: {t.kind.name},\nvalue: {t.value}\x7d"

end Token

end UnitLang
