/-
# The answer of a parse, as a function of the items

The parser reads one item at a time and has no way back, so what it answers is a function of the
stack it has and of the items that are still to come: `answer`.  One equation for each kind of
entry says how the function goes on (`answer_cons_of_shift`, `answer_of_reduce`, ...), and
`parse_eq_answer` says that parsing a source is answering its items, whatever the parser did
before.

A stack matters to the answer only by how it goes on from there.  That is what makes it possible
to compare two stacks: `answer ts e s = answer ts e s'` says that `s` and `s'` are alike before
the tokens `ts`.
-/
import UnitLang.Proofs.Parser.Moves

namespace UnitLang

open Automaton (lookup?)

/-! ## 1. The function -/

/-- What a parse answers that has this stack, while these tokens and this ending are to come. -/
def answer : List Token → Ending → ParseStack → Except Error Node
  | [], .failed e, _ => .error e
  | [], .ended p, s =>
    match (settle .endOfInput s []).verdict, (settle .endOfInput s []).stack.cells with
    | .accept, [⟨_, .node n⟩] => .ok n
    | _, _ => .error ⟨.unexpectedEndOfInput, p⟩
  | t :: ts, e, s =>
    match (settle t.kind s []).verdict with
    | .shift next => answer ts e ((settle t.kind s []).stack.shift next t.lexeme)
    | _ => .error ⟨.unexpectedToken t.value, t.span.start⟩

section Equations

variable {s : ParseStack} {t : Token} {ts : List Token} {e : Ending} {id next : Nat}
  {r : Reduced}

/-- A shifted token leaves the others to come. -/
theorem answer_cons_of_shift
    (he : lookup? s.topState (.terminal t.kind) = some (.shift next)) :
    answer (t :: ts) e s = answer ts e (s.shift next t.lexeme) := by
  rw [answer, settle_of_shift he]

/-- A reduction leaves all to come. -/
theorem answer_of_reduce
    (he : lookup? s.topState (.terminal (nextKind ts)) = some (.reduce id))
    (hr : reduce id s = .ok r) : answer ts e s = answer ts e r.stack := by
  obtain ⟨hstack, hverdict⟩ := settled_of_reduce he hr
  cases ts with
  | nil =>
    change (settle .endOfInput s []).stack = _ at hstack
    change (settle .endOfInput s []).verdict = _ at hverdict
    cases e with
    | failed e => rfl
    | ended p => rw [answer, answer, hstack, hverdict]; rfl
  | cons t ts =>
    change (settle t.kind s []).stack = _ at hstack
    change (settle t.kind s []).verdict = _ at hverdict
    rw [answer, answer, hstack, hverdict]
    rfl

theorem answer_cons_of_none (he : lookup? s.topState (.terminal t.kind) = none) :
    answer (t :: ts) e s = .error ⟨.unexpectedToken t.value, t.span.start⟩ := by
  rw [answer, settle_of_none he]

theorem answer_nil_of_none {p : Position}
    (he : lookup? s.topState (.terminal .endOfInput) = none) :
    answer [] (.ended p) s = .error ⟨.unexpectedEndOfInput, p⟩ := by
  rw [answer, settle_of_none he]

theorem answer_nil_of_accept {p : Position} {state : Nat} {n : Node}
    (he : lookup? s.topState (.terminal .endOfInput) = some .accept)
    (hs : s.cells = [⟨state, .node n⟩]) : answer [] (.ended p) s = .ok n := by
  rw [answer, settle_of_accept he, hs]

/-- The smallest program opens a unit of one name. -/
theorem answer_unit {keyword name semicolon : Token} (hkeyword : keyword.kind = .unitKw)
    (hname : name.kind = .identifier) (hsemicolon : semicolon.kind = .semicolon) (p : Position) :
    answer [keyword, name, semicolon] (.ended p) .empty =
      .ok (.list [.unit [.identifier ⟨name.value, name.span⟩]]) := by
  obtain ⟨_, _, _⟩ := keyword
  obtain ⟨_, _, _⟩ := name
  obtain ⟨_, _, _⟩ := semicolon
  subst hkeyword hname hsemicolon
  rw [answer_cons_of_shift rfl, answer_cons_of_shift rfl]
  -- The name is a path, the path a unit, and that a clause.
  rw [answer_of_reduce rfl rfl, answer_of_reduce rfl rfl, answer_of_reduce rfl rfl,
    answer_of_reduce rfl rfl]
  rw [answer_cons_of_shift rfl, answer_of_reduce rfl rfl]
  exact answer_nil_of_accept rfl rfl

end Equations

/-! ## 2. What is settled -/

/-- All reductions before a lookahead succeed, and the stack holds the same tokens behind them.
What the table says there is the verdict. -/
theorem ParseStack.Holds.settle {k : Kind} {s : ParseStack} {shifted : List Token}
    (h : s.Holds shifted) (log : List Event) :
    (settle k s log).stack.Holds shifted ∧
      ((∃ next, (settle k s log).verdict = .shift next ∧
          lookup? (settle k s log).stack.topState (.terminal k) = some (.shift next)) ∨
        ((settle k s log).verdict = .accept ∧
          lookup? (settle k s log).stack.topState (.terminal k) = some .accept) ∨
        ((settle k s log).verdict = .reject ∧
          lookup? (settle k s log).stack.topState (.terminal k) = none)) := by
  fun_induction UnitLang.settle k s log with
  | case1 s log id he r hr ih =>
    obtain ⟨_, _, _, _, _, -, -, -, -, -, hreduce, hholds⟩ := h.exists_reduce he
    cases hr.symm.trans hreduce
    exact ih hholds
  | case2 s log id he cause hr =>
    obtain ⟨_, _, _, _, _, -, -, -, -, -, hreduce, -⟩ := h.exists_reduce he
    cases hr.symm.trans hreduce
  | case3 s log next he => exact ⟨h, .inl ⟨next, rfl, he⟩⟩
  | case4 s log he => exact ⟨h, .inr (.inl ⟨rfl, he⟩)⟩
  | case5 s log next he => exact absurd he (Automaton.lookup?_terminal_ne_transit _ _ _)
  | case6 s log he => exact ⟨h, .inr (.inr ⟨rfl, he⟩)⟩

namespace ParseStack

variable {s : ParseStack} {shifted : List Token}

/-- Before a token, a stack either goes on to one stack, whatever comes behind the token, or the
token is an error, whatever comes behind it. -/
theorem Holds.answer_cons (h : s.Holds shifted) (t : Token) (ht : t.kind ≠ .endOfInput) :
    (∃ s' : ParseStack, s'.Holds (shifted ++ [t]) ∧
      ∀ ts e, answer (t :: ts) e s = answer ts e s') ∨
    ∀ ts e, answer (t :: ts) e s = .error ⟨.unexpectedToken t.value, t.span.start⟩ := by
  obtain ⟨hholds, ⟨next, hv, he⟩ | ⟨hv, he⟩ | ⟨hv, he⟩⟩ := h.settle (k := t.kind) []
  · refine .inl ⟨_, hholds.shift he, fun ts e => ?_⟩
    rw [answer, hv]
  · exact absurd (by simpa using (Automaton.table_accepts he).1) ht
  · refine .inr fun ts e => ?_
    rw [answer, hv]

/-- At the end of the input, a stack either is left with the tree of a program, or the end is an
error. -/
theorem Holds.answer_nil (h : s.Holds shifted) :
    (∃ n, Builds [.nonterminal .program] shifted [.node n] ∧
      ∀ p, answer [] (.ended p) s = .ok n) ∨
    ∀ p, answer [] (.ended p) s = .error ⟨.unexpectedEndOfInput, p⟩ := by
  obtain ⟨hholds, ⟨next, hv, he⟩ | ⟨hv, he⟩ | ⟨hv, he⟩⟩ := h.settle (k := .endOfInput) []
  · exact absurd he (Automaton.lookup?_endOfInput_ne_shift _ _)
  · obtain ⟨state, n, hcells, hb⟩ := hholds.accept he
    refine .inl ⟨n, hb, fun p => ?_⟩
    rw [answer, hv, hcells]
  · refine .inr fun p => ?_
    rw [answer, hv]

end ParseStack

/-! ## 3. A parse answers its items -/

namespace Parser

variable {is : Items} {shifted : List Token} {q q' : Parser} {lookahead lookahead' : Token}
  {outcome : Except Error Node × Parser}

/-- A last turn answers the items that are not on the stack. -/
theorem Invariant.answer_of_done (h : Invariant is shifted q lookahead)
    (hdone : turn q lookahead = .done outcome) :
    outcome.1 = answer (is.tokens.drop shifted.length) is.ending q.stack := by
  have hend := h.ends hdone
  generalize outcome.1 = result at hend ⊢
  generalize outcome.2.log = log at hend
  cases hend with
  | lexical he his =>
    rw [his, List.drop_left, answer_cons_of_shift he]
    rfl
  | accepted he hk his hcells _ =>
    rw [hk] at he
    rw [his, List.drop_length, answer_nil_of_accept he hcells]
  | unexpected he hk =>
    cases h.ahead with
    | token _ _ his => rw [his, List.drop_left, answer_cons_of_none he]
    | ended => exact absurd rfl hk
  | unfinished he hk his =>
    rw [hk] at he
    rw [his, List.drop_length, answer_nil_of_none he]

/-- A turn that is not the last leaves the answer as it is. -/
theorem Invariant.answer_of_again (h : Invariant is shifted q lookahead)
    (hagain : turn q lookahead = .again q' lookahead') :
    ∃ shifted', Invariant is shifted' q' lookahead' ∧
      answer (is.tokens.drop shifted.length) is.ending q.stack =
        answer (is.tokens.drop shifted'.length) is.ending q'.stack := by
  rcases turn_eq_again hagain with ⟨next, scanner, he, ht, rfl⟩ | ⟨id, r, he, hr, rfl, rfl⟩
  · obtain ⟨hs, his⟩ := h.ahead.shift (kind_ne_endOfInput_of_lookup? he)
    refine ⟨shifted ++ [lookahead], ⟨h.holds.shift he, .of_nextToken_ok hs his ht⟩, ?_⟩
    have hdrop : is.tokens.drop shifted.length =
        lookahead :: is.tokens.drop (shifted ++ [lookahead]).length := by
      rw [his]
      simp
    rw [hdrop]
    exact answer_cons_of_shift he
  · obtain ⟨_, _, _, _, _, -, -, -, -, -, hreduce, hholds⟩ := h.holds.exists_reduce he
    cases hr.symm.trans hreduce
    refine ⟨shifted, ⟨hholds, h.ahead⟩, ?_⟩
    rw [← h.ahead.nextKind_drop] at he
    exact answer_of_reduce he hr

/-- **A run answers the items that are not on the stack.** -/
theorem Invariant.run_fst (h : Invariant is shifted q lookahead) :
    (run q lookahead).1 = answer (is.tokens.drop shifted.length) is.ending q.stack := by
  refine run_induction (motive := fun q lookahead outcome => ∀ shifted,
    Invariant is shifted q lookahead →
      outcome.1 = answer (is.tokens.drop shifted.length) is.ending q.stack)
    ?_ ?_ q lookahead shifted h
  · intro q lookahead outcome hdone shifted h
    exact h.answer_of_done hdone
  · intro q lookahead q' lookahead' outcome hagain ih shifted h
    obtain ⟨shifted', h', heq⟩ := h.answer_of_again hagain
    rw [heq]
    exact ih shifted' h'

/-- **A parse answers the items of its source**, whatever the parser did before. -/
theorem parse_eq_answer (p : Parser) (source : String) :
    (p.parse source).1 = answer (itemsOf source).tokens (itemsOf source).ending .empty := by
  unfold parse
  dsimp only
  split
  · rename_i t scanner ht
    have hinv : Invariant (itemsOf source) [] ⟨scanner, p.stack.reset, Event.ofToken t⟩ t :=
      ⟨ParseStack.holds_empty, .of_nextToken_ok rfl rfl ht⟩
    exact hinv.run_fst
  · rename_i e scanner ht
    have his : itemsOf source = ⟨[], .failed e⟩ := Ahead.eq_failed_of_nextToken_error rfl rfl ht
    rw [his]
    rfl

theorem itemsOf_unit : itemsOf "unit a;" =
    ⟨[⟨.unitKw, "unit", ⟨⟨0, 1, 0⟩, ⟨4, 1, 4⟩⟩⟩, ⟨.identifier, "a", ⟨⟨5, 1, 5⟩, ⟨6, 1, 6⟩⟩⟩,
      ⟨.semicolon, ";", ⟨⟨6, 1, 6⟩, ⟨7, 1, 7⟩⟩⟩], .ended ⟨7, 1, 7⟩⟩ := by decide +kernel

/-- A source of the smallest program. -/
theorem parse_unit (p : Parser) : (p.parse "unit a;").1 =
    .ok (.list [.unit [.identifier ⟨"a", ⟨⟨5, 1, 5⟩, ⟨6, 1, 6⟩⟩⟩]]) := by
  rw [parse_eq_answer, itemsOf_unit]
  exact answer_unit rfl rfl rfl _

end Parser

end UnitLang
