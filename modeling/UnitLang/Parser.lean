/-
# The parser

The parser reads the tokens of a scanner one at a time and keeps one of them, the lookahead,
undecided.  The table tells from the state on top of the stack and from the kind of the lookahead
what to do:

* reduce: the values of a right-hand side leave the stack, their tree enters it (`reduce`), and
  the same lookahead is looked at again (`settle`);
* shift: the next token is read, and then the old lookahead enters the stack (`run`);
* accept: the one tree on the stack is the result (`accept`);
* nothing: the lookahead is an error (`reject`).

The first error ends the parse.  A parser can be used again, for another source, whatever state
it was left in.

Both loops end.  Between two tokens a reduction either makes the stack shorter or, replacing a
single symbol, lowers the height of the state on top (`measure_reduce`); a shift uses up a token,
and the end of the input is never shifted (`kind_ne_endOfInput_of_settle`).
-/
import UnitLang.Automaton
import UnitLang.Event
import UnitLang.Reduction
import UnitLang.Scanner

namespace UnitLang

open Automaton (lookup? stateHeight)

/-! ## 1. One reduction -/

/-- The stack after a reduction, and what is told about it. -/
structure Reduced where
  stack : ParseStack
  events : List Event

/-- Reduces the top of a stack by the production with the number `id`. -/
def reduce (id : Nat) (stack : ParseStack) : Except Cause Reduced := do
  let some production := Grammar.production? id
    | throw (.malformedReduction id .unknownProduction)
  let some (values, below) := stack.popSymbols? production.length
    | throw (.malformedReduction id .shortStack)
  match production.action.run values with
  | (.error misfit, _) => throw (.malformedReduction id misfit)
  | (.ok _, _ :: _) => throw (.malformedReduction id .leftover)
  | (.ok node, []) =>
    let previous := below.topState
    match lookup? previous (.nonterminal production.lhs) with
    | some (.transit next) =>
      return ⟨below.pushNode next node,
        Event.ofNode production.action node ++ [.reduce id previous next production.lhs]⟩
    | _ => throw (.invalidTransition previous production.lhs.name)

/-- A successful reduction pops a right-hand side and goes to a state that its left-hand side
enters. -/
theorem exists_of_reduce {id : Nat} {stack : ParseStack} {r : Reduced}
    (h : reduce id stack = .ok r) :
    ∃ p values below next node, Grammar.production? id = some p ∧
      stack.popSymbols? p.length = some (values, below) ∧
      p.action.run values = (.ok node, []) ∧
      lookup? below.topState (.nonterminal p.lhs) = some (.transit next) ∧
      r = ⟨below.pushNode next node,
        Event.ofNode p.action node ++ [.reduce id below.topState next p.lhs]⟩ := by
  unfold reduce at h
  split at h
  · rename_i p hp
    split at h
    · rename_i values below hpop
      split at h
      · cases h
      · cases h
      · rename_i node hrun
        dsimp only at h
        split at h
        · rename_i next hnext
          cases h
          exact ⟨p, values, below, next, node, hp, hpop, hrun, hnext, rfl⟩
        · cases h
    · cases h
  · cases h

/-- A reduction that the table asks for makes the stack shorter, or keeps its depth and lowers the
height of the state on top. -/
theorem measure_reduce {id : Nat} {symbol : Symbol} {stack : ParseStack} {r : Reduced}
    (he : lookup? stack.topState symbol = some (.reduce id)) (h : reduce id stack = .ok r) :
    r.stack.depth < stack.depth ∨
      r.stack.depth = stack.depth ∧
        stateHeight r.stack.topState < stateHeight stack.topState := by
  obtain ⟨p, values, below, next, node, hp, hpop, -, hnext, rfl⟩ := exists_of_reduce h
  have hmem := Grammar.mem_of_production? hp
  have hpos := Grammar.length_pos hmem
  have hdepth := ParseStack.depth_of_popSymbols? hpop
  simp only [ParseStack.pushNode, ParseStack.depth_push, ParseStack.topState_push]
  rcases Nat.lt_or_ge 1 p.length with hlen | hlen
  · left; omega
  · right
    refine ⟨by omega, ?_⟩
    obtain ⟨X, hX⟩ : ∃ X, p.rhs = [X] := List.length_eq_one_iff.mp (by
      unfold Production.length at hpos hlen; omega)
    obtain ⟨p', hp', hend⟩ := Automaton.table_ends he
    cases hp.symm.trans hp'
    have henter := Automaton.table_enters hnext rfl
    have := Automaton.height_lt_of_single hmem hX
    rw [hX] at hend
    simpa [stateHeight, henter, ← hend] using this

/-! ## 2. All reductions before a token -/

/-- What the table asks for when no reduction is left to do. -/
inductive Verdict where
  /-- Shift the lookahead and go to a state. -/
  | shift (next : Nat)
  /-- The program is complete. -/
  | accept
  /-- The lookahead is not allowed. -/
  | reject
  /-- The table and the stack disagree. -/
  | broken (cause : Cause)

/-- The stack after all reductions that a lookahead asks for, the log of them, and what to do
next. -/
structure Settled where
  stack : ParseStack
  log : List Event
  verdict : Verdict

/-- Does all reductions that a lookahead of this kind asks for.  The log holds the latest event
first. -/
def settle (kind : Kind) (stack : ParseStack) (log : List Event) : Settled :=
  match _he : lookup? stack.topState (.terminal kind) with
  | some (.reduce id) =>
    match _h : reduce id stack with
    | .ok r => settle kind r.stack (r.events.reverse ++ log)
    | .error cause => ⟨stack, log, .broken cause⟩
  | some (.shift next) => ⟨stack, log, .shift next⟩
  | some .accept => ⟨stack, log, .accept⟩
  | some (.transit _) => ⟨stack, log, .broken (.invalidTransition stack.topState kind.name)⟩
  | none => ⟨stack, log, .reject⟩
termination_by (stack.depth, stateHeight stack.topState)
decreasing_by
  rcases measure_reduce _he _h with h | ⟨h, h'⟩
  · exact Prod.Lex.left _ _ h
  · rw [h]; exact Prod.Lex.right _ h'

/-- A shift is asked for by the table, in the state then on top. -/
theorem lookup?_of_settle {kind : Kind} {stack : ParseStack} {log : List Event} {next : Nat}
    (h : (settle kind stack log).verdict = .shift next) :
    lookup? (settle kind stack log).stack.topState (.terminal kind) = some (.shift next) := by
  fun_induction settle kind stack log with
  | case1 stack log id he r hr ih => exact ih h
  | case2 => cases h
  | case3 stack log next' he => cases h; exact he
  | case4 => cases h
  | case5 => cases h
  | case6 => cases h

/-- The end of the input is never shifted. -/
theorem kind_ne_endOfInput_of_settle {kind : Kind} {stack : ParseStack} {log : List Event}
    {next : Nat} (h : (settle kind stack log).verdict = .shift next) : kind ≠ .endOfInput := by
  rintro rfl
  exact Automaton.lookup?_endOfInput_ne_shift _ _ (lookup?_of_settle h)

/-! ## 3. The parser -/

/-- A parser: its scanner, its stack, and the log of the present parse, the latest event first. -/
structure Parser where
  scanner : Scanner
  stack : ParseStack
  log : List Event

namespace Parser

/-- A parser that has read nothing. -/
def new : Parser := ⟨.ofSource "", .empty, []⟩

/-- Accepts the program: its tree is the only one on the stack, and nothing is left to read. -/
def accept (p : Parser) (lookahead : Token) : Except Error Node × Parser :=
  match p.stack.pop? with
  | some (⟨_, .node n⟩, below) =>
    if below.isBottom && !p.scanner.hasMore then
      (.ok n, { p with stack := below, log := .accepted n.shape :: p.log })
    else
      (.error ⟨.trailingInput lookahead.value, lookahead.span.start⟩, { p with stack := below })
  | some (_, below) =>
    (.error ⟨.malformedReduction 0 .noTree, lookahead.span.start⟩, { p with stack := below })
  | none => (.error ⟨.malformedReduction 0 .noTree, lookahead.span.start⟩, p)

/-- The error at a lookahead that is not allowed. -/
def reject (p : Parser) (lookahead : Token) : Error :=
  if lookahead.isEnd && !p.scanner.hasMore then ⟨.unexpectedEndOfInput, lookahead.span.start⟩
  else ⟨.unexpectedToken lookahead.value, lookahead.span.start⟩

/-- Parses on from a lookahead. -/
def run (p : Parser) (lookahead : Token) : Except Error Node × Parser :=
  let settled := settle lookahead.kind p.stack p.log
  let p' : Parser := { p with stack := settled.stack, log := settled.log }
  match _h : settled.verdict with
  | .shift next =>
    let log := .shift settled.stack.topState next lookahead.kind :: settled.log
    match _ht : p.scanner.nextToken with
    | (.ok t, scanner) =>
      run ⟨scanner, settled.stack.shift next lookahead.lexeme, Event.ofToken t ++ log⟩ t
    | (.error e, scanner) => (.error e, { p' with scanner, log })
  | .accept => p'.accept lookahead
  | .reject => (.error (p'.reject lookahead), p')
  | .broken cause => (.error ⟨cause, lookahead.span.start⟩, p')
termination_by p.scanner.ahead + (!lookahead.isEnd).toNat
decreasing_by
  have hk := kind_ne_endOfInput_of_settle _h
  cases hs : p.scanner.ended with
  | true =>
    have := Scanner.nextToken_of_ended hs
    rw [_ht] at this
    cases this
    simp [hk, Token.isEnd, Token.endOfInput]
  | false =>
    have := Scanner.ahead_nextToken_lt _ht hs
    have := Bool.toNat_le (!t.isEnd)
    simp only [Token.isEnd, hk, decide_false, Bool.not_false, Bool.toNat_true] at *
    omega

/-- Parses a source: its tree is the list of its clauses in order. -/
def parse (p : Parser) (source : String) : Except Error Node × Parser :=
  let stack := p.stack.reset
  match (p.scanner.load source).nextToken with
  | (.ok t, scanner) => run ⟨scanner, stack, Event.ofToken t⟩ t
  | (.error e, scanner) => (.error e, ⟨scanner, stack, []⟩)

end Parser

/-- Parses a source with a parser of its own. -/
def parse (source : String) : Except Error Node := (Parser.new.parse source).1

end UnitLang
