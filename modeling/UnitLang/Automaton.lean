/-
# The parse table

The table drives a shift-reduce parser for the grammar: an automaton with twenty-four states,
in each of which a symbol may have an entry.  Under a terminal the entry says what to do when it
is the next token: shift it, reduce by a production, or accept.  Under a nonterminal it says
where to go when a reduction has made it.

Every state but the first is entered by one symbol only (`entered`), and a reduction in a state
has that symbol at the end of its right-hand side.  Three checks of the whole table say so
(`table_enters`, `table_ends`, `height_lt_of_single`), and they bound the work between two
tokens: a reduction of a single symbol replaces it by one of smaller `height`.
-/
import UnitLang.Grammar.Basic

namespace UnitLang

/-- An entry of the parse table. -/
inductive Entry where
  /-- Push the next token and go to a state. -/
  | shift (state : Nat)
  /-- Reduce by a production. -/
  | reduce (production : Nat)
  /-- Go to a state, after a reduction. -/
  | transit (state : Nat)
  /-- The program is complete. -/
  | accept
deriving DecidableEq, Repr, Inhabited

namespace Entry

/-- The state to which an entry leads by the symbol it stands under. -/
def target? : Entry → Option Nat
  | shift state | transit state => some state
  | _ => none

/-- The production by which an entry reduces. -/
def production? : Entry → Option Nat
  | reduce production => some production
  | _ => none

end Entry

namespace Automaton

open Nonterminal Entry

/-! ## 1. The table -/

/-- A row of the table: the entries of one state. -/
abbrev Row := List (Symbol × Entry)

/-- A row that reduces by `production` before each of `kinds`. -/
def reduceOn (kinds : List Kind) (production : Nat) : Row :=
  kinds.map fun k => (.terminal k, reduce production)

/-- What may follow an identifier in a path or an import. -/
def afterPath : List Kind := [.semicolon, .dot, .backslash, .asKw, .comma]

/-- What may follow an import. -/
def afterImport : List Kind := [.semicolon, .asKw, .comma]

/-- What may follow a clause with its semicolon. -/
def afterClause : List Kind := [.unitKw, .usesKw, .endOfInput]

/-- The rows, by their states. -/
def table : List Row :=
  [
   /- 0: nothing -/
   [(program, transit 1), (clause, transit 2), (unitDecl, transit 3),
    (usesDecl, transit 4), (Kind.unitKw, shift 5), (Kind.usesKw, shift 6)],
   /- 1: a program -/
   [(clause, transit 7), (unitDecl, transit 3), (usesDecl, transit 4),
    (Kind.unitKw, shift 5), (Kind.usesKw, shift 6), (Kind.endOfInput, accept)],
   /- 2: the first clause -/
   [(Kind.semicolon, shift 23)],
   /- 3: a unit clause -/
   [(Kind.semicolon, reduce 3)],
   /- 4: a uses clause -/
   [(Kind.semicolon, reduce 4)],
   /- 5: `unit` -/
   [(ident, transit 10), (path, transit 9), (Kind.identifier, shift 11)],
   /- 6: `uses` -/
   [(ident, transit 10), (imported, transit 15), (path, transit 16),
    (importList, transit 14), (Kind.identifier, shift 11)],
   /- 7: a program and a clause -/
   [(Kind.semicolon, shift 8)],
   /- 8: a program, a clause and its semicolon -/
   reduceOn afterClause 2,
   /- 9: `unit` and a path -/
   [(Kind.semicolon, reduce 11), (Kind.dot, shift 12)],
   /- 10: the first name of a path -/
   reduceOn afterPath 6,
   /- 11: a word -/
   reduceOn afterPath 5,
   /- 12: a path and a dot -/
   [(ident, transit 13), (Kind.identifier, shift 11)],
   /- 13: a path, a dot and a name -/
   reduceOn afterPath 7,
   /- 14: `uses` and a list of imports -/
   [(Kind.semicolon, reduce 12), (Kind.comma, shift 17)],
   /- 15: the first import of a list -/
   [(Kind.semicolon, reduce 13), (Kind.asKw, shift 19), (Kind.comma, reduce 13)],
   /- 16: the path of an import -/
   [(Kind.semicolon, reduce 8), (Kind.dot, shift 12), (Kind.backslash, shift 21),
    (Kind.asKw, reduce 8), (Kind.comma, reduce 8)],
   /- 17: a list of imports and a comma -/
   [(ident, transit 10), (imported, transit 18), (path, transit 16),
    (Kind.identifier, shift 11)],
   /- 18: a list of imports, a comma and an import -/
   [(Kind.semicolon, reduce 14), (Kind.asKw, shift 19), (Kind.comma, reduce 14)],
   /- 19: an import and `as` -/
   [(ident, transit 20), (Kind.identifier, shift 11)],
   /- 20: an import, `as` and a name -/
   reduceOn afterImport 10,
   /- 21: a path and a backslash -/
   [(ident, transit 22), (Kind.identifier, shift 11)],
   /- 22: a path, a backslash and a name -/
   reduceOn afterImport 9,
   /- 23: the first clause and its semicolon -/
   reduceOn afterClause 1]

/-- The row of a state. -/
def row? (state : Nat) : Option Row := table[state]?

/-- The entry of `symbol` in `state`. -/
def lookup? (state : Nat) (symbol : Symbol) : Option Entry := do
  let row ← row? state
  row.lookup symbol

/-! ## 2. A row, sorted -/

/-- The class of a symbol, by name. -/
def className : Symbol → String
  | .terminal _ => "terminal"
  | .nonterminal _ => "nonterminal"

/-- Whether `a` is listed before `b`: by class, and within a class by name. -/
def listedBefore (a b : Symbol) : Bool :=
  if className a = className b then a.name ≤ b.name else className a ≤ className b

/-- The entries of a state in the order in which they are listed. -/
def listing? (state : Nat) : Option Row :=
  (row? state).map fun row => row.mergeSort fun a b => listedBefore a.1 b.1

/-! ## 3. What enters a state, and what ends in it -/

/-- The symbol by which each state is entered; there is none for the first. -/
def entered : List (Option Symbol) :=
  [none, some program, some clause, some unitDecl, some usesDecl,
   some Kind.unitKw, some Kind.usesKw, some clause, some Kind.semicolon, some path,
   some ident, some Kind.identifier, some Kind.dot, some ident, some importList,
   some imported, some path, some Kind.comma, some imported, some Kind.asKw,
   some ident, some Kind.backslash, some ident, some Kind.semicolon]

/-- The symbol by which `state` is entered. -/
def enteredBy? (state : Nat) : Option Symbol := (entered[state]?).join

/-- How many reductions of a single symbol may follow each other from a symbol on. -/
def height : Symbol → Nat
  | .terminal .identifier => 4
  | .nonterminal .ident => 3
  | .nonterminal .path => 2
  | .nonterminal .imported | .nonterminal .unitDecl | .nonterminal .usesDecl
  | .nonterminal .program => 1
  | _ => 0

/-- The height of the symbol by which `state` is entered. -/
def stateHeight (state : Nat) : Nat := ((enteredBy? state).map height).getD 0

/-- What holds of all entries of the table holds of an entry that is looked up. -/
theorem lookup?_induction {P : Nat → Symbol → Entry → Prop}
    (h : ∀ p ∈ table.zipIdx, ∀ e ∈ p.1, P p.2 e.1 e.2) {state : Nat} {symbol : Symbol}
    {entry : Entry} (he : lookup? state symbol = some entry) : P state symbol entry := by
  obtain ⟨row, hrow, hl⟩ := Option.bind_eq_some_iff.mp he
  have hmem : (row, state) ∈ table.zipIdx := by
    rw [List.mem_zipIdx_iff_getElem?]; exact hrow
  have hin : (symbol, entry) ∈ row := by
    obtain ⟨a, b, rfl, -⟩ := List.lookup_eq_some_iff.mp hl
    simp
  exact h _ hmem _ hin

/-- A shift or a transition by a symbol leads to a state that is entered by it. -/
theorem table_enters {state next : Nat} {symbol : Symbol} {entry : Entry}
    (h : lookup? state symbol = some entry) (hn : entry.target? = some next) :
    enteredBy? next = some symbol := by
  have key := lookup?_induction (P := fun _ symbol entry =>
    entry.target?.all fun next => enteredBy? next = some symbol) (by decide) h
  simpa [hn] using key

/-- A reduction in a state is by a production whose right-hand side ends with the symbol by which
the state is entered. -/
theorem table_ends {state id : Nat} {symbol : Symbol}
    (h : lookup? state symbol = some (.reduce id)) :
    ∃ p, Grammar.production? id = some p ∧ p.rhs.getLast? = enteredBy? state := by
  have key := lookup?_induction (P := fun state _ entry =>
    entry.production?.all fun id =>
      (Grammar.production? id).any fun p => p.rhs.getLast? = enteredBy? state) (by decide) h
  simpa [Entry.production?, Option.any_eq_true] using key

/-- A production with a single symbol on its right-hand side makes a lower symbol of it. -/
theorem height_lt_of_single {p : Production} {symbol : Symbol} (hp : p ∈ Grammar.productions)
    (h : p.rhs = [symbol]) : height p.lhs < height symbol := by
  have key : ∀ p ∈ Grammar.productions, p.rhs.length = 1 →
      height p.lhs < height (p.rhs.headD default) := by decide
  simpa [h] using key p hp (by simp [h])

/-- The end of the input is never shifted. -/
theorem lookup?_endOfInput_ne_shift (state next : Nat) :
    lookup? state (.terminal .endOfInput) ≠ some (.shift next) := by
  intro h
  have := lookup?_induction (P := fun _ symbol entry =>
    symbol = .terminal .endOfInput → entry.target? = none) (by decide) h
  simp [Entry.target?] at this

end Automaton

end UnitLang
