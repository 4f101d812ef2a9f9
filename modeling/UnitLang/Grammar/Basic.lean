/-
# The grammar

A program is a non-empty sequence of clauses, each ended by a semicolon.

     0  Start      → Program
     1  Program    → Clause ;
     2  Program    → Program Clause ;
     3  Clause     → UnitDecl
     4  Clause     → UsesDecl
     5  Ident      → IDENTIFIER
     6  Path       → Ident
     7  Path       → Path . Ident
     8  Import     → Path
     9  Import     → Path \ Ident
    10  Import     → Import as Ident
    11  UnitDecl   → unit Path
    12  UsesDecl   → uses ImportList
    13  ImportList → Import
    14  ImportList → ImportList , Import

Every sequence is built on its left, so that a parser that reduces as soon as it can needs only
a stack of bounded depth.  Each production names the action that builds its tree from the trees
of its right-hand side (`Reduction`).
-/
import UnitLang.Token.Kind

namespace UnitLang

/-! ## 1. Symbols -/

/-- A nonterminal of the grammar. -/
inductive Nonterminal where
  | start
  | program
  | clause
  | ident
  | imported
  | unitDecl
  | path
  | usesDecl
  | importList
deriving DecidableEq, Repr, Inhabited

namespace Nonterminal

/-- Every nonterminal. -/
def all : List Nonterminal :=
  [start, program, clause, ident, imported, unitDecl, path, usesDecl, importList]

theorem mem_all (n : Nonterminal) : n ∈ all := by cases n <;> decide

/-- The name of a nonterminal. -/
def name : Nonterminal → String
  | start => "Start"
  | program => "Program"
  | clause => "Clause"
  | ident => "Ident"
  | imported => "Import"
  | unitDecl => "UnitDecl"
  | path => "Path"
  | usesDecl => "UsesDecl"
  | importList => "ImportList"

/-- The nonterminal of a name. -/
def ofName? (text : String) : Option Nonterminal := all.find? (·.name = text)

theorem ofName?_name (n : Nonterminal) : ofName? n.name = some n := by cases n <;> decide

end Nonterminal

/-- A symbol of the grammar. -/
inductive Symbol where
  | terminal (k : Kind)
  | nonterminal (n : Nonterminal)
deriving DecidableEq, Repr, Inhabited

/-- The name of a symbol. -/
def Symbol.name : Symbol → String
  | terminal k => k.name
  | nonterminal n => n.name

/-! ## 2. Productions -/

/-- How the tree for a left-hand side is built from the right-hand side. -/
inductive Action where
  /-- Keeps the one tree there is. -/
  | keep
  /-- Begins a program with its first clause, which a semicolon ends. -/
  | firstClause
  /-- Adds a clause, which a semicolon ends, to a program. -/
  | nextClause
  /-- Makes a lexeme an identifier. -/
  | name
  /-- Begins a list with its first item. -/
  | firstItem
  /-- Adds an item to a list, behind a separator. -/
  | nextItem
  /-- Imports a whole path. -/
  | wholePath
  /-- Imports a member of a path. -/
  | member
  /-- Gives an import another name. -/
  | rename
  /-- Makes a path a unit clause, behind its keyword. -/
  | unit
  /-- Makes a list of imports a uses clause, behind its keyword. -/
  | uses
deriving DecidableEq, Repr, Inhabited

/-- A production: what it makes, from which symbols, and by which action. -/
structure Production where
  lhs : Nonterminal
  rhs : List Symbol
  action : Action
deriving DecidableEq, Repr, Inhabited

/-- The number of symbols on the right-hand side. -/
def Production.length (p : Production) : Nat := p.rhs.length

instance : Coe Nonterminal Symbol := ⟨.nonterminal⟩

instance : Coe Kind Symbol := ⟨.terminal⟩

namespace Grammar

open Nonterminal

/-- The productions, by their numbers. -/
def productions : List Production :=
  [⟨start, [program], .keep⟩,
   ⟨program, [clause, Kind.semicolon], .firstClause⟩,
   ⟨program, [program, clause, Kind.semicolon], .nextClause⟩,
   ⟨clause, [unitDecl], .keep⟩,
   ⟨clause, [usesDecl], .keep⟩,
   ⟨ident, [Kind.identifier], .name⟩,
   ⟨path, [ident], .firstItem⟩,
   ⟨path, [path, Kind.dot, ident], .nextItem⟩,
   ⟨imported, [path], .wholePath⟩,
   ⟨imported, [path, Kind.backslash, ident], .member⟩,
   ⟨imported, [imported, Kind.asKw, ident], .rename⟩,
   ⟨unitDecl, [Kind.unitKw, path], .unit⟩,
   ⟨usesDecl, [Kind.usesKw, importList], .uses⟩,
   ⟨importList, [imported], .firstItem⟩,
   ⟨importList, [importList, Kind.comma, imported], .nextItem⟩]

/-- The production with the number `id`. -/
def production? (id : Nat) : Option Production := productions[id]?

theorem mem_of_production? {id : Nat} {p : Production} (h : production? id = some p) :
    p ∈ productions := List.mem_of_getElem? h

/-- No production is empty. -/
theorem length_pos {p : Production} (h : p ∈ productions) : 0 < p.length := by
  revert p; decide

end Grammar

end UnitLang
