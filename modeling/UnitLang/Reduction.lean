/-
# Reductions

A reduction hands the values of a right-hand side to the action of its production, which takes
them one by one from the right and builds a tree.  What has been taken stays taken, also when it
turns out not to fit; so an action gives back the values it did not reach together with its tree
or the reason why there is none.

The actions know nothing of the productions that name them.  That each takes just as many values
as its productions have symbols is a fact about the two (`Grammar.productions`), not a check.
-/
import UnitLang.Error
import UnitLang.Grammar.Basic
import UnitLang.ParseStack

namespace UnitLang

/-- A computation that takes values from the right; the rightmost value comes first. -/
abbrev Taking := ExceptT Misfit (StateM (List Value))

namespace Taking

/-! ## 1. Taking one value -/

/-- Takes the rightmost value. -/
def value : Taking Value := do
  match ← get with
  | [] => throw .ranOut
  | v :: rest =>
    set rest
    return v

/-- Takes a lexeme. -/
def lexeme : Taking Lexeme := do
  match ← value with
  | .lexeme l => return l
  | .node _ => throw .notLexeme

/-- Takes a tree. -/
def node : Taking Node := do
  match ← value with
  | .node n => return n
  | .lexeme l => throw (.notNode l.text)

/-- Takes a tree of the shape `wanted`, and gives what `view?` sees in it. -/
def shaped {α : Type} (wanted : Shape) (view? : Node → Option α) : Taking α := do
  let n ← node
  match view? n with
  | some a => return a
  | none => throw (.wrongShape wanted n.shape)

/-- Takes a list. -/
def list : Taking (List Node) := shaped .list Node.asList?

/-- Takes an identifier. -/
def identifier : Taking Identifier := shaped .identifier Node.asIdentifier?

/-- Takes an import. -/
def imported : Taking Import := shaped .imported Node.asImport?

end Taking

/-! ## 2. The actions -/

namespace Action

open Taking

/-- The tree that an action builds. -/
def build : Action → Taking Node
  | .keep => node
  | .firstClause => do
    let _ ← lexeme
    let clause ← node
    return .list [clause]
  | .nextClause => do
    let _ ← lexeme
    let clause ← node
    let program ← list
    return .list (program ++ [clause])
  | .name => do
    let l ← lexeme
    return .identifier ⟨l.text, l.span⟩
  | .firstItem => do
    let item ← node
    return .list [item]
  | .nextItem => do
    let item ← node
    let _ ← lexeme
    let items ← list
    return .list (items ++ [item])
  | .wholePath => do
    let path ← list
    match Import.ofPath? path with
    | some i => return i.toNode
    | none => throw .namelessPath
  | .member => do
    let member ← identifier
    let _ ← lexeme
    let path ← list
    return (Import.withMember path member).toNode
  | .rename => do
    let knownAs ← identifier
    let _ ← lexeme
    let i ← imported
    return (i.rename knownAs).toNode
  | .unit => do
    let path ← list
    let _ ← lexeme
    return .unit path
  | .uses => do
    let imports ← list
    let _ ← lexeme
    return .uses imports

/-- Runs an action on the values of a right-hand side, given in source order.  The values it did
not take are given back, the rightmost first. -/
def run (a : Action) (values : List Value) : Except Misfit Node × List Value :=
  a.build.run.run values.reverse

end Action

end UnitLang
