/-
# Programs

A parsed tree has the form of a program: clauses, each a unit with its path or a list of imports,
each of these with a path, perhaps a member, and a name.  Here a program is written with types
of its own, which leave no other form.  `Program.toNode` gives its tree, and `Program.text` its
source text in canonical layout:

    unit a.b;
    uses c, d.e\f, g as h;

An import is written with `as` only where its name is not the one it has by default
(`Using.defaultName?`): the member's, or else the last name of the path.
-/
import UnitLang.Token.Rule
import UnitLang.Tree.Basic

namespace UnitLang

/-! ## 1. Clauses -/

/-- An import with the names it consists of. -/
structure Using where
  path : List Identifier
  member : Option Identifier
  knownAs : Identifier
deriving DecidableEq, Repr

/-- A clause of a program. -/
inductive Clause where
  | unit (path : List Identifier)
  | uses (imports : List Using)
deriving DecidableEq, Repr

namespace Using

/-- The name of an import that is not renamed: the member's if there is one, and otherwise the
last of the path. -/
def defaultName? (u : Using) : Option Identifier := u.member <|> u.path.getLast?

/-- The import as it stands in a tree. -/
def toNode (u : Using) : Node := .imported (u.path.map .identifier) u.member u.knownAs

end Using

/-- The clause as it stands in a tree. -/
def Clause.toNode : Clause → Node
  | unit path => .unit (path.map .identifier)
  | uses imports => .uses (imports.map Using.toNode)

/-- A program: its clauses in order. -/
abbrev Program := List Clause

/-- The tree of a program. -/
def Program.toNode (p : Program) : Node := .list (p.map Clause.toNode)

/-! ## 2. Well-formed programs -/

/-- Whether `name` can be the name of an identifier: it has the form of a word and is not
reserved. -/
def IsName (name : String) : Prop :=
  (∃ c rest, name.toList = c :: rest ∧ isWordStart c = true ∧ rest.all isWordPart = true) ∧
    Reserved.kind? name = none

/-- An import with a path, whose names can all be written. -/
def Using.WellFormed (u : Using) : Prop :=
  u.path ≠ [] ∧ (∀ id ∈ u.path, IsName id.name) ∧ (∀ id ∈ u.member, IsName id.name) ∧
    IsName u.knownAs.name

/-- A clause with at least one part, whose names can all be written. -/
def Clause.WellFormed : Clause → Prop
  | unit path => path ≠ [] ∧ ∀ id ∈ path, IsName id.name
  | uses imports => imports ≠ [] ∧ ∀ u ∈ imports, u.WellFormed

/-- A program with at least one clause, all of them well formed. -/
def Program.WellFormed (p : Program) : Prop := p ≠ [] ∧ ∀ c ∈ p, c.WellFormed

/-! ## 3. Canonical text -/

/-- The names of a path, with a dot between two. -/
def pathText (path : List Identifier) : String := ".".intercalate (path.map (·.name))

/-- An import, with its member behind a backslash and its name behind `as` where they are not
understood. -/
def Using.text (u : Using) : String :=
  let member := match u.member with
    | some m => "\\" ++ m.name
    | none => ""
  let renamed :=
    if u.defaultName?.map (·.name) = some u.knownAs.name then "" else " as " ++ u.knownAs.name
  pathText u.path ++ member ++ renamed

/-- A clause, with the semicolon that ends it. -/
def Clause.text : Clause → String
  | unit path => "unit " ++ pathText path ++ ";"
  | uses imports => "uses " ++ ", ".intercalate (imports.map Using.text) ++ ";"

/-- A program, with a line for each clause. -/
def Program.text (p : Program) : String := String.join (p.map fun c => c.text ++ "\n")

end UnitLang
