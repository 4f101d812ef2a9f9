/-
# The table, the productions and the actions agree

Three parts of the parser are written down separately: the table of the automaton, the lengths of
the right-hand sides, and the actions, each of which takes its values one by one.  The parser
checks at run time that they agree, and has an error for each way in which they might not.  None
of these errors is ever raised: at every head of the loop a reduction finds its symbols, its
action builds a tree of all of them and the state below has a way on; a terminal never leads to
a transition; and what is accepted is one tree, with nothing left to read (`Parser.Sound`).

Hence the errors of a parse are those that speak about the source text (`Cause.OfSource`).

There is one more check, of the state on top: it can be missing only where the bottom of the stack
is a slot like the others, which could be popped.  A stack here is what stands above its bottom, and
always has a state on top.  So has the row of slots that the stack amounts to
(`ParseStack.topState?_row`), through all that is done to it (`SlotRow.run_eq_row`), so this check
never fails either.
-/
import UnitLang.Compiler
import UnitLang.Proofs.Parser.Answer

namespace UnitLang

open Automaton (lookup?)

/-- The causes that a source text can bring about: a character, a token, or the end of the
input. -/
def Cause.OfSource : Cause → Prop
  | unrecognisedToken _ | unexpectedToken _ | unexpectedEndOfInput => True
  | trailingInput _ | invalidTransition .. | malformedReduction .. => False

/-! ## 1. One head of the loop -/

/-- At this head of the loop the parser finds what it checks for. -/
structure Parser.Sound (q : Parser) (lookahead : Token) : Prop where
  /-- The lookahead does not lead to a transition. -/
  no_transit (next : Nat) :
    lookup? q.stack.topState (.terminal lookahead.kind) ≠ some (.transit next)
  /-- A reduction finds its symbols, its action makes one tree of them and leaves none over, the
  path of an import ends in a name, and the state below has a transition. -/
  reduces (id : Nat) :
    lookup? q.stack.topState (.terminal lookahead.kind) = some (.reduce id) →
    ∃ p values below node next, Grammar.production? id = some p ∧
      q.stack.popSymbols? p.length = some (values, below) ∧
      p.action.run values = (.ok node, []) ∧
      (p.action = .wholePath →
        ∃ path i, values = [.node (.list path)] ∧ Import.ofPath? path = some i) ∧
      lookup? below.topState (.nonterminal p.lhs) = some (.transit next)
  /-- What is accepted is the one tree on the bottom, and nothing is left to read. -/
  accepts :
    lookup? q.stack.topState (.terminal lookahead.kind) = some .accept →
    (∃ state n, q.stack.cells = [⟨state, .node n⟩]) ∧ q.scanner.hasMore = false

namespace Parser

variable {p q : Parser} {source : String} {lookahead : Token}

/-- The only production with this action is that of an import by its path. -/
theorem rhs_of_wholePath {p : Production} (hp : p ∈ Grammar.productions)
    (ha : p.action = .wholePath) : p.rhs = [.nonterminal .path] := by
  revert p
  decide

/-- The invariant is what the checks are about. -/
theorem Invariant.sound {is : Items} {shifted : List Token}
    (h : Invariant is shifted q lookahead) : q.Sound lookahead where
  no_transit next := Automaton.lookup?_terminal_ne_transit _ _ _
  reduces id he := by
    obtain ⟨p, values, below, node, next, hp, hpop, hfits, hrun, hgoto, -⟩ :=
      h.holds.exists_reduce he
    refine ⟨p, values, below, node, next, hp, hpop, hrun, ?_, hgoto⟩
    intro ha
    rw [rhs_of_wholePath (Grammar.mem_of_production? hp) ha] at hfits
    obtain ⟨_, rfl, _, rfl, ids, hids, rfl⟩ := fits_one hfits
    exact ⟨_, _, rfl, Import.ofPath?_map_identifier hids⟩
  accepts he := by
    obtain ⟨state, n, hcells, -⟩ := h.holds.accept he
    obtain ⟨hk, -⟩ := Automaton.table_accepts he
    cases hk' : lookahead.kind <;> simp [hk'] at hk
    exact ⟨⟨state, n, hcells⟩, (h.ahead.eq_ended hk').1⟩

/-! ## 2. The outcome -/

/-- The errors of a parse are those of its source text. -/
theorem ofSource_of_parse {e : Error} (h : (p.parse source).1 = .error e) :
    e.cause.OfSource := by
  rcases parse_ends p source with ⟨e', his, he', -⟩ | ⟨q, lookahead, hvisits, hends⟩
  · cases h.symm.trans he'
    obtain ⟨_, _, rfl⟩ := exists_eq_unrecognised (congrArg Items.ending his)
    trivial
  · obtain ⟨shifted, hinv⟩ := hvisits.invariant
    have hend := hends shifted hinv
    rw [h] at hend
    generalize (p.parse source).2.log = log at hend
    cases hend with
    | lexical _ his =>
      obtain ⟨_, _, rfl⟩ := exists_eq_unrecognised (congrArg Items.ending his)
      trivial
    | unexpected | unfinished => trivial

end Parser

/-- A compilation fails as its parse does. -/
theorem Compiler.parse_of_compile {c : Compiler} {source : String} {e : Error}
    (h : (c.compile source).1 = .error e) : (c.parser.parse source).1 = .error e := by
  rwa [compile_fst] at h

/-- **No internal error is ever raised.**  Parsing and compiling fail with errors of the source
text only, whatever the parser did before, and at every head of the loop the parser finds what it
checks for. -/
theorem internal_errors_unreachable (source : String) :
    (∀ (p : Parser) (e : Error), (p.parse source).1 = .error e → e.cause.OfSource) ∧
    (∀ (c : Compiler) (e : Error), (c.compile source).1 = .error e → e.cause.OfSource) ∧
    ∀ (p q : Parser) (lookahead : Token), p.Visits source q lookahead → q.Sound lookahead := by
  refine ⟨fun p e h => Parser.ofSource_of_parse h, ?_, ?_⟩
  · intro c e h
    exact Parser.ofSource_of_parse (Compiler.parse_of_compile h)
  · intro p q lookahead h
    obtain ⟨shifted, hinv⟩ := h.invariant
    exact hinv.sound

/-- A path that lacks its last name: the parser reduces the first name before it fails. -/
theorem internal_errors_unreachable_nameless_path :
    (Parser.new.parse "unit a.;").1 = .error ⟨.unexpectedToken ";", ⟨7, 1, 7⟩⟩ ∧
    Cause.OfSource (.unexpectedToken ";") ∧
    ∃ q lookahead, Parser.new.Visits "unit a.;" q lookahead ∧
      lookup? q.stack.topState (.terminal lookahead.kind) = some (.reduce 5) ∧
      q.Sound lookahead := by
  have his : itemsOf "unit a.;" =
      ⟨[⟨.unitKw, "unit", ⟨⟨0, 1, 0⟩, ⟨4, 1, 4⟩⟩⟩, ⟨.identifier, "a", ⟨⟨5, 1, 5⟩, ⟨6, 1, 6⟩⟩⟩,
        ⟨.dot, ".", ⟨⟨6, 1, 6⟩, ⟨7, 1, 7⟩⟩⟩, ⟨.semicolon, ";", ⟨⟨7, 1, 7⟩, ⟨8, 1, 8⟩⟩⟩],
        .ended ⟨8, 1, 8⟩⟩ := by decide +kernel
  have herror : (Parser.new.parse "unit a.;").1 =
      .error ⟨.unexpectedToken ";", ⟨7, 1, 7⟩⟩ := by
    rw [Parser.parse_eq_answer, his]
    dsimp only
    rw [answer_cons_of_shift rfl, answer_cons_of_shift rfl]
    rw [answer_of_reduce rfl rfl, answer_of_reduce rfl rfl]
    rw [answer_cons_of_shift rfl, answer_cons_of_none rfl]
  obtain ⟨hparse, -, hsound⟩ := internal_errors_unreachable "unit a.;"
  refine ⟨herror, hparse Parser.new _ herror, ?_⟩
  have hstart : (Parser.new.scanner.load "unit a.;").nextToken =
      (.ok ⟨.unitKw, "unit", ⟨⟨0, 1, 0⟩, ⟨4, 1, 4⟩⟩⟩,
        ⟨" a.;".toList, ⟨4, 1, 4⟩, false, false, []⟩) := by decide +kernel
  have hname : Scanner.nextToken ⟨" a.;".toList, ⟨4, 1, 4⟩, false, false, []⟩ =
      (.ok ⟨.identifier, "a", ⟨⟨5, 1, 5⟩, ⟨6, 1, 6⟩⟩⟩,
        ⟨".;".toList, ⟨6, 1, 6⟩, false, false, []⟩) := by decide +kernel
  have hdot : Scanner.nextToken ⟨".;".toList, ⟨6, 1, 6⟩, false, false, []⟩ =
      (.ok ⟨.dot, ".", ⟨⟨6, 1, 6⟩, ⟨7, 1, 7⟩⟩⟩,
        ⟨";".toList, ⟨7, 1, 7⟩, false, false, []⟩) := by decide +kernel
  have hunit := Parser.Visits.start hstart
  have ha := hunit.next (Parser.turn_of_shift rfl hname)
  have hvis := ha.next (Parser.turn_of_shift rfl hdot)
  exact ⟨_, _, hvis, rfl, hsound _ _ _ hvis⟩

end UnitLang
