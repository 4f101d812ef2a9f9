/-
# Errors

An error is a cause and the place where it was noticed.  There are three categories.  A lexical
error says that no rule matches a character; a syntax error says that the grammar does not allow
the next token; an internal error says that the parse table and the actions disagree, which no
source text can bring about but which the operations on parts can.

Each cause has a name, a message that quotes the text it concerns, and, unless it is internal, a
tip for the reader, which shows that text as it is.
-/
import UnitLang.Tree.Outline

namespace UnitLang

open Text (Outline quote)

/-! ## 1. Misfits of a reduction -/

/-- Why the symbols handed to a reduction do not fit it. -/
inductive Misfit where
  /-- A lexeme was expected and a node was found. -/
  | notLexeme
  /-- A node was expected and the lexeme `text` was found. -/
  | notNode (text : String)
  /-- A node of shape `wanted` was expected and one of shape `found` was found. -/
  | wrongShape (wanted found : Shape)
  /-- There were too few symbols. -/
  | ranOut
  /-- The path of an import does not end in a name. -/
  | namelessPath
  /-- No production has this number. -/
  | unknownProduction
  /-- The stack is shorter than the production. -/
  | shortStack
  /-- The action left symbols over. -/
  | leftover
  /-- There is no tree to accept. -/
  | noTree
  /-- A reason given in words. -/
  | stated (message : String)
deriving DecidableEq, Repr, Inhabited

namespace Misfit

/-- A shape with its indefinite article. -/
def withArticle : Shape → String
  | .identifier => "an Identifier"
  | s => "a " ++ s.name

/-- The misfit in words. -/
def message : Misfit → String
  | notLexeme => "expected a lexeme, found a node"
  | notNode text => "expected a node, found lexeme " ++ quote text
  | wrongShape wanted found => s!"expected {withArticle wanted}, found {found.name}"
  | ranOut => "ran out of symbols"
  | namelessPath => "path does not end in an identifier"
  | unknownProduction => "unknown production"
  | shortStack => "not enough symbols on the stack"
  | leftover => "symbols left over after the action"
  | noTree => "no tree to accept"
  | stated message => message

end Misfit

/-! ## 2. Causes -/

/-- What went wrong. -/
inductive Cause where
  /-- No lexical rule matches at the character `text`. -/
  | unrecognisedToken (text : String)
  /-- The grammar does not allow the token `text` here. -/
  | unexpectedToken (text : String)
  /-- The input ends inside a program. -/
  | unexpectedEndOfInput
  /-- The input goes on at the token `text` behind a complete program. -/
  | trailingInput (text : String)
  /-- The table has no way on from `state` by `symbol`. -/
  | invalidTransition (state : Nat) (symbol : String)
  /-- The symbols on the stack do not fit `production`. -/
  | malformedReduction (production : Nat) (misfit : Misfit)
deriving DecidableEq, Repr, Inhabited

/-- The side that an error comes from: the text's characters, its structure, or the tables. -/
inductive Category where
  | lexical
  | syntactic
  | internal
deriving DecidableEq, Repr, Inhabited

/-- The name under which a category is reported. -/
def Category.name : Category → String
  | lexical => "Lexical"
  | syntactic => "Syntax"
  | internal => "Internal"

namespace Cause

/-- The category of a cause. -/
def category : Cause → Category
  | unrecognisedToken _ => .lexical
  | unexpectedToken _ | unexpectedEndOfInput | trailingInput _ => .syntactic
  | invalidTransition .. | malformedReduction .. => .internal

/-- The name under which a cause is reported. -/
def name : Cause → String
  | unrecognisedToken _ => "UnrecognisedToken"
  | unexpectedToken _ => "UnexpectedToken"
  | unexpectedEndOfInput => "UnexpectedEndOfInput"
  | trailingInput _ => "TrailingInput"
  | invalidTransition .. => "InvalidTransition"
  | malformedReduction .. => "MalformedReduction"

/-- The cause in words. -/
def message : Cause → String
  | unrecognisedToken text => "unrecognised token: " ++ quote text
  | unexpectedToken text => "unexpected token: " ++ quote text
  | unexpectedEndOfInput => "unexpected end of input"
  | trailingInput text => "trailing input after accept: " ++ quote text
  | invalidTransition state symbol => s!"no valid transition on {symbol} in state {state}"
  | malformedReduction production misfit =>
    s!"production {production} could not be reduced: {misfit.message}"

/-- Advice for the writer of the source text; an internal error is not theirs to mend. -/
def tip? : Cause → Option String
  | unrecognisedToken text => some s!"Unrecognised character `{text}`"
  | unexpectedToken text => some s!"Unexpected token: `{text}`"
  | unexpectedEndOfInput => some "Input ended early, did you miss a semicolon?"
  | trailingInput text => some s!"Input continues after a complete program at `{text}`"
  | invalidTransition .. | malformedReduction .. => none

/-- A cause as an outline, by its name and what it concerns. -/
def outline : Cause → Outline
  | unrecognisedToken text => .record "UnrecognisedToken" [("token", .word (quote text))]
  | unexpectedToken text => .record "UnexpectedToken" [("token", .word (quote text))]
  | unexpectedEndOfInput => .word "UnexpectedEndOfInput"
  | trailingInput text => .record "TrailingInput" [("token", .word (quote text))]
  | invalidTransition state symbol =>
    .record "InvalidTransition" [("state", .number state), ("symbol", .word (quote symbol))]
  | malformedReduction production misfit =>
    .record "MalformedReduction"
      [("production", .number production), ("message", .word (quote misfit.message))]

end Cause

/-! ## 3. Errors -/

/-- A cause and its place. -/
structure Error where
  cause : Cause
  position : Position
deriving DecidableEq, Repr, Inhabited

namespace Error

/-- The cause in words, and the line and column of its place. -/
def message (e : Error) : String :=
  s!"{e.cause.message} at {e.position.line}:{e.position.column}"

/-- An error as an outline. -/
def outline (e : Error) : Outline :=
  .record "Error" [("internal_error", e.cause.outline), ("position", e.position.outline)]

end Error

end UnitLang
