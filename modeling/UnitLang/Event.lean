/-
# Events

A parse leaves a log of what it did: the tokens it read, the shifts and reductions it made, the
clauses it completed, and its success.  Steps are told in more detail than results, on two
levels.
-/
import UnitLang.Grammar.Basic
import UnitLang.Token.Basic
import UnitLang.Tree.Basic

namespace UnitLang

/-- Something that happened during a parse. -/
inductive Event where
  /-- A token was read; the end of the input is not told. -/
  | token (t : Token)
  /-- A token of some kind was shifted from `state` to `next`. -/
  | shift (state next : Nat) (kind : Kind)
  /-- A production was reduced, which uncovered `previous` and went to `next`. -/
  | reduce (production previous next : Nat) (lhs : Nonterminal)
  /-- A unit clause was built, whose path has this length. -/
  | unitPath (length : Nat)
  /-- A uses clause was built, with this many imports. -/
  | usesImports (count : Nat)
  /-- The program was accepted. -/
  | accepted (shape : Shape)
  /-- The program was executed. -/
  | executed (shape : Shape)
deriving DecidableEq, Repr

/-- How much detail an event is. -/
inductive Level where
  | trace
  | debug
deriving DecidableEq, Repr

/-- The name of a level. -/
def Level.name : Level → String
  | trace => "TRACE"
  | debug => "DEBUG"

namespace Event

/-- The level of an event. -/
def level : Event → Level
  | token _ | shift .. | reduce .. => .trace
  | _ => .debug

/-- The message of an event. -/
def message : Event → String
  | token _ => "token"
  | shift .. => "shift"
  | reduce .. => "reduce"
  | unitPath _ => "unit path"
  | usesImports _ => "uses imports"
  | accepted _ => "accepted"
  | executed _ => "exec"

/-- What is told when `t` is read. -/
def ofToken (t : Token) : List Event := if t.isEnd then [] else [.token t]

/-- What is told when an action has built `n`: a clause is told with the number of its parts. -/
def ofNode (a : Action) (n : Node) : List Event :=
  match a, n with
  | .unit, .unit path => [.unitPath path.length]
  | .uses, .uses imports => [.usesImports imports.length]
  | _, _ => []

theorem forall_ofToken {P : Event → Prop} {t : Token} (h : P (.token t)) :
    ∀ e ∈ ofToken t, P e := by
  unfold ofToken
  split <;> simp [h]

theorem forall_ofNode {P : Event → Prop} {a : Action} {n : Node}
    (hunit : ∀ length, P (.unitPath length)) (huses : ∀ count, P (.usesImports count)) :
    ∀ e ∈ ofNode a n, P e := by
  unfold ofNode
  split <;> simp [hunit, huses]

end Event

end UnitLang
