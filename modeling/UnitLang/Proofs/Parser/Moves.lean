/-
# From head to head, and how a parse ends

At a head of the loop where the invariant holds there is little that a turn can do.  It shifts the
lookahead and reads the next item, or it reduces, and then nothing of the reduction can go wrong
(`ParseStack.Reduces`).  The parser that comes next is the same with a longer log
(`Parser.afterShift`, `Parser.afterReduce`).  So what holds at the first head, and what a shift and
a reduction keep, holds at every head (`Visits.induction`).

A last turn has one of four forms, each with its outcome and with the log it leaves
(`Parser.Ends`), and a parse ends with one of them unless there is no first token
(`Parser.parse_ends`).
-/
import UnitLang.Proofs.Parser.Invariant

namespace UnitLang

open Automaton (lookup? Path)

/-! ## 1. Shifts and reductions -/

/-- The states on the stack, the top one first and the first state at the bottom. -/
def ParseStack.states (s : ParseStack) : List Nat := s.cells.map (·.state) ++ [0]

@[simp] theorem ParseStack.states_push (s : ParseStack) (state : Nat) (v : Value) :
    (s.push state v).states = state :: s.states := rfl

@[simp] theorem ParseStack.head?_states (s : ParseStack) : s.states.head? = some s.topState := by
  cases s with
  | mk cells => cases cells <;> rfl

/-- Before a token of this kind the table asks for a reduction, and it can be made: the values of
the right-hand side come off the stack, the action makes a tree of them, and the stack below goes
on by the left-hand side. -/
structure ParseStack.Reduces (s : ParseStack) (k : Kind) (id : Nat) (production : Production)
    (values : List Value) (below : ParseStack) (node : Node) (next : Nat) : Prop where
  entry : lookup? s.topState (.terminal k) = some (.reduce id)
  production? : Grammar.production? id = some production
  pop : s.popSymbols? production.length = some (values, below)
  fits : List.Forall₂ Symbol.Fits production.rhs values
  run : production.action.run values = (.ok node, [])
  goto : lookup? below.topState (.nonterminal production.lhs) = some (.transit next)

namespace ParseStack.Reduces

variable {s below : ParseStack} {k : Kind} {id next : Nat} {production : Production}
  {values : List Value} {node : Node}

/-- The values that come off the stack lie above those that stay. -/
theorem values_eq (h : s.Reduces k id production values below node next) :
    s.values = below.values ++ values := by
  obtain ⟨top, hcells, -, rfl⟩ := popSymbols?_eq_some_iff.mp h.pop
  simp [ParseStack.values, hcells]

/-- Below the states of the right-hand side are those that stay. -/
theorem drop_states (h : s.Reduces k id production values below node next) :
    s.states.drop production.length = below.states := by
  obtain ⟨top, hcells, hlen, -⟩ := popSymbols?_eq_some_iff.mp h.pop
  rw [states, hcells, List.map_append, List.append_assoc]
  exact List.drop_left' (by rw [List.length_map, hlen])

/-- What the walk back along the right-hand side finds is what the reduction uncovers. -/
theorem uncovers {good : Nat → Bool} {Xs : List Symbol}
    (h : s.Reduces k id production values below node next) (hpath : Path s Xs)
    (hu : Automaton.uncovers good production.rhs.reverse s.topState = true) :
    ∃ Ys, Xs = Ys ++ production.rhs ∧ Path below Ys ∧ good below.topState = true := by
  obtain ⟨top, below', Ys, hcells, hlen, hXs, hbelow, hgood⟩ := hpath.pop hu
  obtain ⟨top', hcells', hlen', -⟩ := popSymbols?_eq_some_iff.mp h.pop
  rw [List.length_reverse] at hlen
  obtain ⟨-, hcells''⟩ := List.append_inj (hcells.symm.trans hcells') (hlen.trans hlen'.symm)
  obtain rfl : below' = below := by cases below'; cases below; exact congrArg _ hcells''
  exact ⟨Ys, by rw [hXs, List.reverse_reverse], hbelow, hgood⟩

end ParseStack.Reduces

/-- Whether an event tells of a shift or of a reduction. -/
def Event.isMove : Event → Bool
  | shift .. | reduce .. => true
  | _ => false

namespace Parser

/-- The parser that has shifted the lookahead and then read `t`. -/
def afterShift (q : Parser) (lookahead : Token) (next : Nat) (scanner : Scanner) (t : Token) :
    Parser :=
  ⟨scanner, q.stack.shift next lookahead.lexeme,
    Event.ofToken t ++ .shift q.stack.topState next lookahead.kind :: q.log⟩

/-- The parser that has reduced: it has told what the action tells, and then of the reduction. -/
def afterReduce (q : Parser) (id : Nat) (production : Production) (below : ParseStack)
    (node : Node) (next : Nat) : Parser :=
  { q with
    stack := below.pushNode next node
    log := .reduce id below.topState next production.lhs ::
      ((Event.ofNode production.action node).reverse ++ q.log) }

/-- The shifts and reductions that were made, the latest first. -/
def moves (q : Parser) : List Event := q.log.filter Event.isMove

theorem filter_isMove_ofToken (t : Token) : (Event.ofToken t).filter Event.isMove = [] :=
  List.filter_eq_nil_iff.mpr (Event.forall_ofToken Bool.false_ne_true)

theorem filter_isMove_ofNode (a : Action) (n : Node) :
    (Event.ofNode a n).filter Event.isMove = [] :=
  List.filter_eq_nil_iff.mpr
    (Event.forall_ofNode (fun _ => Bool.false_ne_true) fun _ => Bool.false_ne_true)

theorem moves_afterShift (q : Parser) (lookahead t : Token) (next : Nat) (scanner : Scanner) :
    (q.afterShift lookahead next scanner t).moves =
      .shift q.stack.topState next lookahead.kind :: q.moves := by
  rw [moves, afterShift, List.filter_append, filter_isMove_ofToken]
  rfl

theorem moves_afterReduce (q : Parser) (id : Nat) (production : Production) (below : ParseStack)
    (node : Node) (next : Nat) :
    (q.afterReduce id production below node next).moves =
      .reduce id below.topState next production.lhs :: q.moves := by
  simp only [moves, afterReduce, List.filter_cons, List.filter_append, List.filter_reverse,
    filter_isMove_ofNode, Event.isMove]
  rfl

section Moves

variable {p q q' : Parser} {source : String} {is : Items} {shifted : List Token}
  {lookahead lookahead' t : Token} {scanner : Scanner} {id next : Nat}
  {outcome : Except Error Node × Parser}

/-- A shift keeps the invariant, with one more token shifted. -/
theorem Invariant.shift (h : Invariant is shifted q lookahead)
    (he : lookup? q.stack.topState (.terminal lookahead.kind) = some (.shift next))
    (ht : q.scanner.nextToken = (.ok t, scanner)) :
    Invariant is (shifted ++ [lookahead]) (q.afterShift lookahead next scanner t) t := by
  obtain ⟨hs, his⟩ := h.ahead.shift (kind_ne_endOfInput_of_lookup? he)
  exact ⟨h.holds.shift he, .of_nextToken_ok hs his ht⟩

/-- Where the table asks for a reduction, the turn makes it and keeps the invariant. -/
theorem Invariant.exists_reduces (h : Invariant is shifted q lookahead)
    (he : lookup? q.stack.topState (.terminal lookahead.kind) = some (.reduce id)) :
    ∃ production values below node next,
      q.stack.Reduces lookahead.kind id production values below node next ∧
      turn q lookahead = .again (q.afterReduce id production below node next) lookahead ∧
      Invariant is shifted (q.afterReduce id production below node next) lookahead := by
  obtain ⟨production, values, below, node, next, hp, hpop, hfits, hrun, hgoto, hreduce, hholds⟩ :=
    h.holds.exists_reduce he
  refine ⟨production, values, below, node, next, ⟨he, hp, hpop, hfits, hrun, hgoto⟩, ?_,
    hholds, h.ahead⟩
  rw [turn_of_reduce he hreduce, afterReduce, List.reverse_append]
  rfl

/-- **What a shift and a reduction keep holds at every head of the loop**, if it holds at the
first. -/
theorem Visits.induction {motive : List Token → Parser → Token → Prop}
    (start : ∀ {t scanner}, (p.scanner.load source).nextToken = (.ok t, scanner) →
      motive [] ⟨scanner, .empty, Event.ofToken t⟩ t)
    (shift : ∀ {shifted q lookahead next t scanner},
      Invariant (itemsOf source) shifted q lookahead →
      lookup? q.stack.topState (.terminal lookahead.kind) = some (.shift next) →
      q.scanner.nextToken = (.ok t, scanner) → motive shifted q lookahead →
      motive (shifted ++ [lookahead]) (q.afterShift lookahead next scanner t) t)
    (reduce : ∀ {shifted q lookahead id production values below node next},
      Invariant (itemsOf source) shifted q lookahead →
      q.stack.Reduces lookahead.kind id production values below node next →
      motive shifted q lookahead →
      motive shifted (q.afterReduce id production below node next) lookahead)
    (h : Visits p source q lookahead) :
    ∃ shifted, Invariant (itemsOf source) shifted q lookahead ∧ motive shifted q lookahead := by
  induction h with
  | start ht =>
    exact ⟨[], ⟨ParseStack.holds_empty, .of_nextToken_ok rfl rfl ht⟩, start ht⟩
  | next _ hturn ih =>
    obtain ⟨shifted, hinv, hmotive⟩ := ih
    rcases turn_eq_again hturn with ⟨next, scanner, he, ht, rfl⟩ | ⟨id, _, he, -, -, -⟩
    · exact ⟨_, hinv.shift he ht, shift hinv he ht hmotive⟩
    · obtain ⟨_, _, _, _, _, hreduces, hturn', hinv'⟩ := hinv.exists_reduces he
      cases hturn.symm.trans hturn'
      exact ⟨shifted, hinv', reduce hinv hreduces hmotive⟩

/-! ## 2. The last turn -/

/-- How a parse ends at a head of the loop: the outcome, and the log. -/
inductive Ends (is : Items) (shifted : List Token) (q : Parser) (lookahead : Token) :
    Except Error Node → List Event → Prop where
  /-- The lookahead was to be shifted, and the item behind it is an error. -/
  | lexical {next : Nat} {e : Error} :
      lookup? q.stack.topState (.terminal lookahead.kind) = some (.shift next) →
      is = ⟨shifted ++ [lookahead], .failed e⟩ →
      Ends is shifted q lookahead (.error e)
        (.shift q.stack.topState next lookahead.kind :: q.log)
  /-- The tokens are a program, whose tree lies on the stack. -/
  | accepted {state : Nat} {n : Node} :
      lookup? q.stack.topState (.terminal lookahead.kind) = some .accept →
      lookahead.kind = .endOfInput → is = ⟨shifted, .ended lookahead.span.start⟩ →
      q.stack.cells = [⟨state, .node n⟩] → Builds [.nonterminal .program] shifted [.node n] →
      Ends is shifted q lookahead (.ok n) (.accepted n.shape :: q.log)
  /-- The lookahead is a token that cannot go on. -/
  | unexpected :
      lookup? q.stack.topState (.terminal lookahead.kind) = none →
      lookahead.kind ≠ .endOfInput →
      Ends is shifted q lookahead (.error ⟨.unexpectedToken lookahead.value, lookahead.span.start⟩)
        q.log
  /-- The input is at its end too early. -/
  | unfinished :
      lookup? q.stack.topState (.terminal lookahead.kind) = none →
      lookahead.kind = .endOfInput → is = ⟨shifted, .ended lookahead.span.start⟩ →
      Ends is shifted q lookahead (.error ⟨.unexpectedEndOfInput, lookahead.span.start⟩) q.log

/-- **A last turn ends in one of these ways.** -/
theorem Invariant.ends (h : Invariant is shifted q lookahead)
    (hdone : turn q lookahead = .done outcome) :
    Ends is shifted q lookahead outcome.1 outcome.2.log := by
  cases he : lookup? q.stack.topState (.terminal lookahead.kind) with
  | none =>
    simp only [turn, he, Turn.done.injEq] at hdone
    subst hdone
    by_cases hk : lookahead.kind = .endOfInput
    · obtain ⟨hmore, his⟩ := h.ahead.eq_ended hk
      have hreject : q.reject lookahead = ⟨.unexpectedEndOfInput, lookahead.span.start⟩ := by
        simp [reject, Token.isEnd, hk, hmore]
      rw [hreject]
      exact .unfinished he hk his
    · have hreject : q.reject lookahead =
          ⟨.unexpectedToken lookahead.value, lookahead.span.start⟩ := by
        simp [reject, Token.isEnd, hk]
      rw [hreject]
      exact .unexpected he hk
  | some entry =>
    cases entry with
    | shift next =>
      obtain ⟨hs, his⟩ := h.ahead.shift (kind_ne_endOfInput_of_lookup? he)
      rcases ht : q.scanner.nextToken with ⟨e | t, scanner⟩
      · simp only [turn, he, ht, Turn.done.injEq] at hdone
        subst hdone
        exact .lexical he (Ahead.eq_failed_of_nextToken_error hs his ht)
      · cases (turn_of_shift he ht).symm.trans hdone
    | reduce id =>
      obtain ⟨_, _, _, _, _, -, hturn, -⟩ := h.exists_reduces he
      cases hturn.symm.trans hdone
    | transit next => exact absurd he (Automaton.lookup?_terminal_ne_transit _ _ _)
    | accept =>
      simp only [turn, he, Turn.done.injEq] at hdone
      subst hdone
      have hk : lookahead.kind = .endOfInput := by simpa using (Automaton.table_accepts he).1
      obtain ⟨hmore, his⟩ := h.ahead.eq_ended hk
      obtain ⟨state, n, hcells, hb⟩ := h.holds.accept he
      obtain ⟨hok, hlog⟩ := accept_alone hcells hmore lookahead
      rw [hok, hlog]
      exact .accepted he hk his hcells hb

/-- A last turn at a head that a parse visits ends the parse. -/
theorem Visits.ends (h : Visits p source q lookahead)
    (hinv : Invariant (itemsOf source) shifted q lookahead)
    (hdone : turn q lookahead = .done outcome) :
    Ends (itemsOf source) shifted q lookahead (p.parse source).1 (p.parse source).2.log := by
  rw [h.parse_eq_run, run_eq_turn, hdone]
  exact hinv.ends hdone

/-- **A parse ends at a head of the loop**, unless the first item is an error. -/
theorem parse_ends (p : Parser) (source : String) :
    (∃ e, itemsOf source = ⟨[], .failed e⟩ ∧ (p.parse source).1 = .error e ∧
      (p.parse source).2.log = []) ∨
    ∃ q lookahead, Visits p source q lookahead ∧
      ∀ shifted, Invariant (itemsOf source) shifted q lookahead →
        Ends (itemsOf source) shifted q lookahead (p.parse source).1 (p.parse source).2.log := by
  rcases ht : (p.scanner.load source).nextToken with ⟨e | t, scanner⟩
  · refine .inl ⟨e, Ahead.eq_failed_of_nextToken_error rfl rfl ht, ?_, ?_⟩ <;> simp [parse, ht]
  · obtain ⟨q, lookahead, hvisits, hdone⟩ := (Visits.start ht).exists_last
    exact .inr ⟨q, lookahead, hvisits, fun _ hinv => hvisits.ends hinv hdone⟩

end Moves

end Parser

end UnitLang
