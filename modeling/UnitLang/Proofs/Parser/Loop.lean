/-
# The loop of the parser, turn by turn

`Parser.run` does all reductions before a token in one go.  Here the same loop is cut into single
turns, each of which looks at the table once (`Parser.turn`): it reduces, or it shifts and reads
on, or it is the last.  `run_eq_turn` says that running is taking turns until one is the last.

`Parser.Visits` collects the heads of the loop, a parser and its lookahead, that are met while a
source is parsed.  What one turn preserves therefore holds at all of them, by induction.  From each
of them the parse goes on to its end (`Visits.parse_eq_run`), and there is a last one
(`Visits.exists_last`).
-/
import UnitLang.Parser
import Mathlib.Data.Prod.Lex

namespace UnitLang

open Automaton (lookup?)

/-! ## 1. Settling, reduction by reduction -/

section Settle

variable {k : Kind} {s : ParseStack} {id next : Nat} {r : Reduced} {cause : Cause}

theorem settle_of_reduce (he : lookup? s.topState (.terminal k) = some (.reduce id))
    (hr : reduce id s = .ok r) (log : List Event) :
    settle k s log = settle k r.stack (r.events.reverse ++ log) := by
  rw [settle]
  split <;> rename_i he' <;> cases he.symm.trans he'
  split <;> rename_i hr' <;> cases hr.symm.trans hr'
  rfl

theorem settle_of_broken (he : lookup? s.topState (.terminal k) = some (.reduce id))
    (hr : reduce id s = .error cause) (log : List Event) :
    settle k s log = ⟨s, log, .broken cause⟩ := by
  rw [settle]
  split <;> rename_i he' <;> cases he.symm.trans he'
  split <;> rename_i hr' <;> cases hr.symm.trans hr'
  rfl

theorem settle_of_shift (he : lookup? s.topState (.terminal k) = some (.shift next))
    (log : List Event) : settle k s log = ⟨s, log, .shift next⟩ := by
  rw [settle]
  split <;> rename_i he' <;> cases he.symm.trans he'
  rfl

theorem settle_of_accept (he : lookup? s.topState (.terminal k) = some .accept)
    (log : List Event) : settle k s log = ⟨s, log, .accept⟩ := by
  rw [settle]
  split <;> rename_i he' <;> cases he.symm.trans he'
  rfl

theorem settle_of_transit (he : lookup? s.topState (.terminal k) = some (.transit next))
    (log : List Event) :
    settle k s log = ⟨s, log, .broken (.invalidTransition s.topState k.name)⟩ := by
  rw [settle]
  split <;> rename_i he' <;> cases he.symm.trans he'
  rfl

theorem settle_of_none (he : lookup? s.topState (.terminal k) = none) (log : List Event) :
    settle k s log = ⟨s, log, .reject⟩ := by
  rw [settle]
  split <;> rename_i he' <;> cases he.symm.trans he'
  rfl

/-- The log has no influence on what is settled. -/
theorem settle_log (k : Kind) (s : ParseStack) (log log' : List Event) :
    (settle k s log').stack = (settle k s log).stack ∧
      (settle k s log').verdict = (settle k s log).verdict := by
  fun_induction settle k s log generalizing log' with
  | case1 s log id he r hr ih =>
    rw [settle_of_reduce he hr]
    exact ih _
  | case2 s log id he cause hr => rw [settle_of_broken he hr]; exact ⟨rfl, rfl⟩
  | case3 s log next he => rw [settle_of_shift he]; exact ⟨rfl, rfl⟩
  | case4 s log he => rw [settle_of_accept he]; exact ⟨rfl, rfl⟩
  | case5 s log next he => rw [settle_of_transit he]; exact ⟨rfl, rfl⟩
  | case6 s log he => rw [settle_of_none he]; exact ⟨rfl, rfl⟩

/-- What is settled after a reduction is what is settled before it. -/
theorem settled_of_reduce (he : lookup? s.topState (.terminal k) = some (.reduce id))
    (hr : reduce id s = .ok r) :
    (settle k s []).stack = (settle k r.stack []).stack ∧
      (settle k s []).verdict = (settle k r.stack []).verdict := by
  rw [settle_of_reduce he hr]
  exact settle_log k r.stack [] _

end Settle

/-! ## 2. One turn -/

/-- What a turn of the loop leads to: another turn, or the outcome of the parse. -/
inductive Turn where
  | again (p : Parser) (lookahead : Token)
  | done (outcome : Except Error Node × Parser)

namespace Parser

/-- One turn of the loop: one look at the table. -/
def turn (p : Parser) (lookahead : Token) : Turn :=
  match lookup? p.stack.topState (.terminal lookahead.kind) with
  | some (.shift next) =>
    let log := .shift p.stack.topState next lookahead.kind :: p.log
    match p.scanner.nextToken with
    | (.ok t, scanner) =>
      .again ⟨scanner, p.stack.shift next lookahead.lexeme, Event.ofToken t ++ log⟩ t
    | (.error e, scanner) => .done (.error e, { p with scanner, log })
  | some (.reduce id) =>
    match reduce id p.stack with
    | .ok r => .again { p with stack := r.stack, log := r.events.reverse ++ p.log } lookahead
    | .error cause => .done (.error ⟨cause, lookahead.span.start⟩, p)
  | some .accept => .done (p.accept lookahead)
  | some (.transit _) =>
    .done (.error ⟨.invalidTransition p.stack.topState lookahead.kind.name,
      lookahead.span.start⟩, p)
  | none => .done (.error (p.reject lookahead), p)

/-- What is left to do when all reductions before the lookahead are done. -/
def conclude (scanner : Scanner) (lookahead : Token) (s : Settled) : Turn :=
  match s.verdict with
  | .shift next =>
    let log := .shift s.stack.topState next lookahead.kind :: s.log
    match scanner.nextToken with
    | (.ok t, scanner) =>
      .again ⟨scanner, s.stack.shift next lookahead.lexeme, Event.ofToken t ++ log⟩ t
    | (.error e, scanner) => .done (.error e, ⟨scanner, s.stack, log⟩)
  | .accept => .done (accept ⟨scanner, s.stack, s.log⟩ lookahead)
  | .reject =>
    .done (.error (reject ⟨scanner, s.stack, s.log⟩ lookahead), ⟨scanner, s.stack, s.log⟩)
  | .broken cause => .done (.error ⟨cause, lookahead.span.start⟩, ⟨scanner, s.stack, s.log⟩)

/-- Takes turns from here on. -/
def finish : Turn → Except Error Node × Parser
  | .again p lookahead => run p lookahead
  | .done outcome => outcome

theorem run_eq_conclude (p : Parser) (lookahead : Token) :
    run p lookahead = finish (conclude p.scanner lookahead
      (settle lookahead.kind p.stack p.log)) := by
  rw [run]
  split
  · rename_i next hv
    simp only [conclude, hv]
    split <;> simp only [finish, *]
  · rename_i hv
    simp only [conclude, hv, finish]
  · rename_i hv
    simp only [conclude, hv, finish]
  · rename_i hv
    simp only [conclude, hv, finish]

/-- **Running is taking turns until one is the last.** -/
theorem run_eq_turn (p : Parser) (lookahead : Token) :
    run p lookahead = finish (turn p lookahead) := by
  rw [run_eq_conclude]
  unfold turn
  cases he : lookup? p.stack.topState (.terminal lookahead.kind) with
  | none => rw [settle_of_none he]; rfl
  | some entry =>
    cases entry with
    | shift next => rw [settle_of_shift he]; rfl
    | accept => rw [settle_of_accept he]; rfl
    | transit next => rw [settle_of_transit he]; rfl
    | reduce id =>
      dsimp only
      cases hr : reduce id p.stack with
      | ok r => rw [settle_of_reduce he hr, finish, run_eq_conclude]
      | error cause => rw [settle_of_broken he hr]; rfl

/-! ## 3. What a turn can be -/

variable {p p' : Parser} {lookahead lookahead' : Token} {outcome : Except Error Node × Parser}

/-- A turn that is not the last shifts and reads on, or reduces. -/
theorem turn_eq_again (h : turn p lookahead = .again p' lookahead') :
    (∃ next scanner,
      lookup? p.stack.topState (.terminal lookahead.kind) = some (.shift next) ∧
      p.scanner.nextToken = (.ok lookahead', scanner) ∧
      p' = ⟨scanner, p.stack.shift next lookahead.lexeme,
        Event.ofToken lookahead' ++ .shift p.stack.topState next lookahead.kind :: p.log⟩) ∨
    (∃ id r,
      lookup? p.stack.topState (.terminal lookahead.kind) = some (.reduce id) ∧
      reduce id p.stack = .ok r ∧ lookahead' = lookahead ∧
      p' = { p with stack := r.stack, log := r.events.reverse ++ p.log }) := by
  unfold turn at h
  split at h
  · rename_i next he
    dsimp only at h
    split at h
    · rename_i t scanner ht
      cases h
      exact .inl ⟨next, scanner, he, ht, rfl⟩
    · cases h
  · rename_i id he
    split at h
    · rename_i r hr
      cases h
      exact .inr ⟨id, r, he, hr, rfl, rfl⟩
    · cases h
  · cases h
  · cases h
  · cases h

/-- Only tokens are shifted, never the end of the input. -/
theorem kind_ne_endOfInput_of_lookup? {state next : Nat} {k : Kind}
    (h : lookup? state (.terminal k) = some (.shift next)) : k ≠ .endOfInput := by
  rintro rfl
  exact Automaton.lookup?_endOfInput_ne_shift _ _ h

/-- A shift reads on. -/
theorem turn_of_shift {t : Token} {scanner : Scanner} {next : Nat}
    (he : lookup? p.stack.topState (.terminal lookahead.kind) = some (.shift next))
    (ht : p.scanner.nextToken = (.ok t, scanner)) :
    turn p lookahead = .again ⟨scanner, p.stack.shift next lookahead.lexeme,
      Event.ofToken t ++ .shift p.stack.topState next lookahead.kind :: p.log⟩ t := by
  simp [turn, he, ht]

/-- A reduction leaves the lookahead. -/
theorem turn_of_reduce {id : Nat} {r : Reduced}
    (he : lookup? p.stack.topState (.terminal lookahead.kind) = some (.reduce id))
    (hr : reduce id p.stack = .ok r) :
    turn p lookahead =
      .again { p with stack := r.stack, log := r.events.reverse ++ p.log } lookahead := by
  simp [turn, he, hr]

/-- Where one tree is on the stack and nothing is left to read, that tree is accepted, and the log
tells so. -/
theorem accept_alone {state : Nat} {n : Node} (hcells : p.stack.cells = [⟨state, .node n⟩])
    (hmore : p.scanner.hasMore = false) (lookahead : Token) :
    (p.accept lookahead).1 = .ok n ∧ (p.accept lookahead).2.log = .accepted n.shape :: p.log := by
  unfold accept ParseStack.pop?
  rw [hcells]
  simp [ParseStack.isBottom, hmore]

/-! ## 4. The loop ends -/

/-- What is left to do at the head of the loop: items to read first, then the depth of the stack,
then the height of the state on top. -/
def work (p : Parser) (lookahead : Token) : Nat ×ₗ Nat ×ₗ Nat :=
  toLex (p.scanner.ahead + (!lookahead.isEnd).toNat,
    toLex (p.stack.depth, Automaton.stateHeight p.stack.topState))

/-- Every turn but the last leaves less to do. -/
theorem work_turn_lt (h : turn p lookahead = .again p' lookahead') :
    work p' lookahead' < work p lookahead := by
  rcases turn_eq_again h with ⟨next, scanner, he, ht, rfl⟩ | ⟨id, r, he, hr, rfl, rfl⟩
  · refine Prod.Lex.toLex_lt_toLex.mpr (.inl ?_)
    have hk := kind_ne_endOfInput_of_lookup? he
    cases hs : p.scanner.ended with
    | true =>
      have hend := Scanner.nextToken_of_ended hs
      rw [ht] at hend
      cases hend
      simp [Token.isEnd, Token.endOfInput, hk]
    | false =>
      have hlt := Scanner.ahead_nextToken_lt ht hs
      have hle := Bool.toNat_le (!lookahead'.isEnd)
      simp only [Token.isEnd, hk, decide_false, Bool.not_false, Bool.toNat_true] at *
      omega
  · refine Prod.Lex.toLex_lt_toLex.mpr (.inr ⟨rfl, ?_⟩)
    rcases measure_reduce he hr with hlt | ⟨heq, hlt⟩
    · exact Prod.Lex.toLex_lt_toLex.mpr (.inl hlt)
    · exact Prod.Lex.toLex_lt_toLex.mpr (.inr ⟨heq, hlt⟩)

/-- Whatever a last turn has, and an earlier one inherits from the next, a run has. -/
theorem run_induction {motive : Parser → Token → Except Error Node × Parser → Prop}
    (done : ∀ p lookahead outcome, turn p lookahead = .done outcome →
      motive p lookahead outcome)
    (again : ∀ p lookahead p' lookahead' outcome, turn p lookahead = .again p' lookahead' →
      motive p' lookahead' outcome → motive p lookahead outcome)
    (p : Parser) (lookahead : Token) : motive p lookahead (run p lookahead) := by
  rw [run_eq_turn]
  match h : turn p lookahead with
  | .done outcome => exact done _ _ _ h
  | .again p' lookahead' => exact again _ _ _ _ _ h (run_induction done again p' lookahead')
termination_by work p lookahead
decreasing_by exact work_turn_lt h

/-! ## 5. The heads of the loop that a parse visits -/

/-- While `p` parses `source`, the loop stands at this parser and this lookahead. -/
inductive Visits (p : Parser) (source : String) : Parser → Token → Prop where
  | start {t : Token} {scanner : Scanner} :
      (p.scanner.load source).nextToken = (.ok t, scanner) →
      Visits p source ⟨scanner, p.stack.reset, Event.ofToken t⟩ t
  | next {q q' : Parser} {lookahead lookahead' : Token} :
      Visits p source q lookahead → turn q lookahead = .again q' lookahead' →
      Visits p source q' lookahead'

/-- A parse ends as the turns do that are taken from a head that it visits. -/
theorem Visits.parse_eq_run {source : String} {q : Parser} (h : Visits p source q lookahead) :
    p.parse source = run q lookahead := by
  induction h with
  | start ht =>
    unfold parse
    dsimp only
    rw [ht]
  | next _ hturn ih => rw [ih, run_eq_turn, hturn, finish]

/-- From a visited head the run goes on through visited heads to its last turn. -/
theorem Visits.exists_last {source : String} {q : Parser} (h : Visits p source q lookahead) :
    ∃ q' lookahead', Visits p source q' lookahead' ∧
      turn q' lookahead' = .done (run q lookahead) := by
  refine run_induction (motive := fun q lookahead outcome => Visits p source q lookahead →
    ∃ q' lookahead', Visits p source q' lookahead' ∧ turn q' lookahead' = .done outcome)
    ?_ ?_ q lookahead h
  · intro q lookahead outcome hdone hvis
    exact ⟨q, lookahead, hvis, hdone⟩
  · intro q lookahead q' lookahead' outcome hagain ih hvis
    exact ih (hvis.next hagain)

end Parser

end UnitLang
