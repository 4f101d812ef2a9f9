/-
# Turns, one after the other

The loop of the parser as a sequence: a parse begins with reading the first token
(`Parser.begin`), and each turn leads to the next (`Turn.next`).  Parsing is following the sequence
to its end (`Parser.parse_eq_finish`).

Each turn but the last makes one move, a shift or a reduction, so the moves in the log tell which
turn of the sequence a head of the loop is (`Parser.Visits.turns`); and what the sequence leads to
is a head that the parse visits (`Parser.visits_of_turns`).
-/
import UnitLang.Proofs.Parser.Moves

namespace UnitLang

/-! ## 1. The sequence -/

namespace Turn

/-- The turn behind a turn; there is none behind the last. -/
def next : Turn → Turn
  | again p lookahead => p.turn lookahead
  | done outcome => done outcome

/-- The parser as a turn has left it. -/
def parser : Turn → Parser
  | again p _ => p
  | done outcome => outcome.2

/-- The lookahead of the turn to come. -/
def lookahead? : Turn → Option Token
  | again _ lookahead => some lookahead
  | done _ => none

/-- The result of the last turn. -/
def result? : Turn → Option (Except Error Node)
  | again .. => none
  | done outcome => some outcome.1

end Turn

namespace Parser

variable {p q q' : Parser} {source : String} {lookahead lookahead' : Token} {n : Nat}

/-- How a parse begins: with the first token, unless there is none. -/
def begin (p : Parser) (source : String) : Turn :=
  match (p.scanner.load source).nextToken with
  | (.ok t, scanner) => .again ⟨scanner, p.stack.reset, Event.ofToken t⟩ t
  | (.error e, scanner) => .done (.error e, ⟨scanner, p.stack.reset, []⟩)

/-- Parsing is taking turns from the beginning. -/
theorem parse_eq_finish (p : Parser) (source : String) :
    p.parse source = finish (p.begin source) := by
  rcases ht : (p.scanner.load source).nextToken with ⟨e | t, scanner⟩ <;>
    simp [parse, begin, finish, ht]

theorem finish_next (turn : Turn) : finish turn.next = finish turn := by
  cases turn with
  | again p lookahead => exact (run_eq_turn p lookahead).symm
  | done outcome => rfl

theorem finish_iterate (n : Nat) (turn : Turn) : finish (Turn.next^[n] turn) = finish turn := by
  induction n with
  | zero => rfl
  | succ n ih => rw [Function.iterate_succ_apply', finish_next, ih]

/-- The result that the sequence comes to is what is parsed. -/
theorem parse_eq_of_result? {result : Except Error Node}
    (h : (Turn.next^[n] (p.begin source)).result? = some result) :
    p.parse source = (result, (Turn.next^[n] (p.begin source)).parser) := by
  rw [parse_eq_finish, ← finish_iterate n]
  generalize Turn.next^[n] (p.begin source) = turn at h ⊢
  cases turn with
  | again q lookahead => cases h
  | done outcome =>
    cases h
    rfl

/-! ## 2. The heads along the sequence -/

/-- A turn that is not the last makes one move. -/
theorem length_moves_turn (h : turn q lookahead = .again q' lookahead') :
    q'.moves.length = q.moves.length + 1 := by
  rcases turn_eq_again h with ⟨next, scanner, -, -, rfl⟩ | ⟨id, r, -, hr, rfl, rfl⟩
  · exact congrArg List.length (moves_afterShift q lookahead lookahead' next scanner)
  · obtain ⟨production, values, below, next, node, -, -, -, -, rfl⟩ := exists_of_reduce hr
    have hmoves := moves_afterReduce q id production below node next
    rw [afterReduce] at hmoves
    rw [List.reverse_append]
    exact congrArg List.length hmoves

/-- **A head of the loop is reached in as many turns as moves were made.** -/
theorem Visits.turns (h : Visits p source q lookahead) :
    Turn.next^[q.moves.length] (p.begin source) = .again q lookahead := by
  induction h with
  | @start t scanner ht =>
    rw [moves, filter_isMove_ofToken, List.length_nil, Function.iterate_zero_apply, begin, ht]
  | next _ hturn ih =>
    rw [length_moves_turn hturn, Function.iterate_succ_apply', ih, Turn.next, hturn]

/-- **The sequence leads to heads of the loop.** -/
theorem visits_of_turns (h : Turn.next^[n] (p.begin source) = .again q lookahead) :
    Visits p source q lookahead := by
  induction n generalizing q lookahead with
  | zero =>
    rw [Function.iterate_zero_apply, begin] at h
    split at h
    · rename_i ht
      cases h
      exact .start ht
    · cases h
  | succ n ih =>
    rw [Function.iterate_succ_apply'] at h
    generalize hturn : Turn.next^[n] (p.begin source) = turn at h
    cases turn with
    | again q₀ lookahead₀ => exact (ih hturn).next h
    | done outcome => cases h

/-- The head that so many turns lead to. -/
theorem visits_of_lookahead? (h : (Turn.next^[n] (p.begin source)).lookahead? = some lookahead) :
    Visits p source (Turn.next^[n] (p.begin source)).parser lookahead := by
  generalize hturn : Turn.next^[n] (p.begin source) = turn at h
  cases turn with
  | again q lookahead' =>
    cases h
    exact visits_of_turns hturn
  | done outcome => cases h

end Parser

end UnitLang
