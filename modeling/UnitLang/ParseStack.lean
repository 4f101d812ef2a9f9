/-
# The parse stack

The stack of a shift-reduce parser holds the states of the automaton and, with each, the symbol
by which it was entered: a lexeme that was shifted or a tree that was built.  At the bottom,
under all cells, lies state 0, which no symbol enters and which cannot be popped.

Several symbols are popped in one step, all or none, and are handed over in source order, the
deepest first (`popSymbols?_eq_some_iff`).
-/
import UnitLang.Token.Basic
import UnitLang.Tree.Basic

namespace UnitLang

/-- The text of a shifted token and its place. -/
structure Lexeme where
  text : String
  span : Span
deriving DecidableEq, Repr, Inhabited

/-- The lexeme of a token. -/
def Token.lexeme (t : Token) : Lexeme := ⟨t.value, t.span⟩

/-- What stands for a grammar symbol on the stack: a lexeme for a terminal, a tree for a
nonterminal. -/
inductive Value where
  | lexeme (l : Lexeme)
  | node (n : Node)
deriving DecidableEq, Inhabited

/-- A state, and the value of the symbol by which it was entered. -/
structure Cell where
  state : Nat
  value : Value
deriving DecidableEq, Inhabited

/-- A parse stack, by the cells above its bottom, the top one first. -/
structure ParseStack where
  cells : List Cell
deriving DecidableEq, Inhabited

namespace ParseStack

/-- The stack that holds its bottom only. -/
def empty : ParseStack := ⟨[]⟩

/-- The stack with everything above its bottom removed. -/
def reset (s : ParseStack) : ParseStack := { s with cells := [] }

/-- The state on top. -/
def topState (s : ParseStack) : Nat :=
  match s.cells with
  | [] => 0
  | cell :: _ => cell.state

/-- The number of symbols on the stack. -/
def depth (s : ParseStack) : Nat := s.cells.length

/-- Whether the stack holds its bottom only. -/
def isBottom (s : ParseStack) : Bool := s.cells.isEmpty

/-- Goes to `state` by a value. -/
def push (s : ParseStack) (state : Nat) (value : Value) : ParseStack :=
  ⟨⟨state, value⟩ :: s.cells⟩

/-- Goes to `state` by a lexeme. -/
def shift (s : ParseStack) (state : Nat) (l : Lexeme) : ParseStack := s.push state (.lexeme l)

/-- Goes to `state` by a tree. -/
def pushNode (s : ParseStack) (state : Nat) (n : Node) : ParseStack := s.push state (.node n)

/-- Removes the top cell; the bottom stays. -/
def pop? (s : ParseStack) : Option (Cell × ParseStack) :=
  match s.cells with
  | [] => none
  | cell :: below => some (cell, ⟨below⟩)

/-- Removes the top `count` cells and gives their values in source order; nothing is removed if
there are fewer. -/
def popSymbols? (s : ParseStack) (count : Nat) : Option (List Value × ParseStack) :=
  if count ≤ s.depth then
    some (((s.cells.take count).map (·.value)).reverse, ⟨s.cells.drop count⟩)
  else none

@[simp] theorem topState_push (s : ParseStack) (state : Nat) (v : Value) :
    (s.push state v).topState = state := rfl

@[simp] theorem depth_push (s : ParseStack) (state : Nat) (v : Value) :
    (s.push state v).depth = s.depth + 1 := rfl

theorem reset_eq_empty (s : ParseStack) : s.reset = empty := rfl

theorem isBottom_iff (s : ParseStack) : s.isBottom = true ↔ s.depth = 0 := by
  simp [isBottom, depth]

theorem popSymbols?_eq_some_iff {s below : ParseStack} {count : Nat} {values : List Value} :
    s.popSymbols? count = some (values, below) ↔
      ∃ top, s.cells = top ++ below.cells ∧ top.length = count ∧
        values = (top.map (·.value)).reverse := by
  unfold popSymbols?
  constructor
  · intro h
    split at h
    · cases h
      exact ⟨s.cells.take count, by simp, by simp_all [depth], rfl⟩
    · simp at h
  · rintro ⟨top, hs, rfl, rfl⟩
    cases below
    simp_all [depth]

theorem depth_of_popSymbols? {s below : ParseStack} {count : Nat} {values : List Value}
    (h : s.popSymbols? count = some (values, below)) : s.depth = below.depth + count := by
  obtain ⟨top, hs, rfl, -⟩ := popSymbols?_eq_some_iff.mp h
  simp [depth, hs, Nat.add_comm]

end ParseStack

end UnitLang
