/-
# How deep the stack gets

The stack of a parse never holds more than seven symbols, however long the source is and however
many clauses, imports, names and other names it has.  At every head of the loop the states on the
stack are a path of the automaton, and a path is no deeper than its last state allows
(`Automaton.Path.depth_le`).  Between two heads the stack only gets shorter: a reduction takes
symbols off before it adds one, and so does the end of the parse (`Parser.HasStack`).

Seven symbols are there when the new name of an import is read, behind a comma in a clause that is
not the first one.
-/
import UnitLang.Proofs.Automaton.Bounds
import UnitLang.Proofs.Parser.Stack
import UnitLang.Proofs.Parser.Turns

namespace UnitLang

open Automaton (lookup? enteredBy? enteredBy?_of_next? deepest deepest_le Path)

/-- The symbols along a path are those by which its states are entered. -/
theorem Automaton.Path.map_some_eq {s : ParseStack} {Xs : List Symbol} (h : Path s Xs) :
    Xs.map some = ((s.cells.map (·.state)).map enteredBy?).reverse := by
  induction h with
  | empty => rfl
  | push v _ hn ih => simp [ParseStack.push, ih, enteredBy?_of_next? hn]

namespace Parser

/-- The stacks that a parser has while it parses a source: the one it begins with, those at the
heads of the loop, those that a reduction uncovers, and the one that is left at the end. -/
inductive HasStack (p : Parser) (source : String) : ParseStack → Prop where
  | first : HasStack p source p.stack.reset
  | head {q : Parser} {lookahead : Token} :
      Visits p source q lookahead → HasStack p source q.stack
  | below {q : Parser} {lookahead : Token} {id : Nat} {production : Production}
      {values : List Value} {below : ParseStack} :
      Visits p source q lookahead →
      lookup? q.stack.topState (.terminal lookahead.kind) = some (.reduce id) →
      Grammar.production? id = some production →
      q.stack.popSymbols? production.length = some (values, below) →
      HasStack p source below
  | last : HasStack p source (p.parse source).2.stack

section Depth

variable {p q : Parser} {source : String} {lookahead : Token} {s : ParseStack}
  {outcome : Except Error Node × Parser}

theorem Visits.depth_le (h : Visits p source q lookahead) : q.stack.depth ≤ 7 := by
  obtain ⟨shifted, ⟨Xs, hpath, -⟩, -⟩ := h.invariant
  exact hpath.depth_le.trans (deepest_le _)

/-- To accept takes the program off the stack. -/
theorem depth_accept_le (q : Parser) (lookahead : Token) :
    (q.accept lookahead).2.stack.depth ≤ q.stack.depth := by
  obtain ⟨scanner, ⟨cells⟩, log⟩ := q
  cases cells with
  | nil => exact Nat.zero_le _
  | cons cell cells =>
    have hle : (⟨cells⟩ : ParseStack).depth ≤ (⟨cell :: cells⟩ : ParseStack).depth :=
      Nat.le_succ _
    obtain ⟨state, l | n⟩ := cell
    · exact hle
    · simp only [accept, ParseStack.pop?]
      split <;> exact hle

/-- A last turn adds nothing to the stack. -/
theorem depth_le_of_done (h : turn q lookahead = .done outcome) :
    outcome.2.stack.depth ≤ q.stack.depth := by
  unfold turn at h
  split at h
  · dsimp only at h
    split at h
    · cases h
    · cases h
      exact Nat.le_refl _
  · split at h
    · cases h
    · cases h
      exact Nat.le_refl _
  · cases h
    exact depth_accept_le q lookahead
  · cases h
    exact Nat.le_refl _
  · cases h
    exact Nat.le_refl _

/-- The parser is left with a stack that is no deeper than before. -/
theorem depth_parse_le (p : Parser) (source : String) : (p.parse source).2.stack.depth ≤ 7 := by
  rcases ht : (p.scanner.load source).nextToken with ⟨e | t, scanner⟩
  · have hparse : (p.parse source).2.stack = .empty := by
      simp [parse, ht, ParseStack.reset_eq_empty]
    rw [hparse]
    exact Nat.zero_le _
  · obtain ⟨q, lookahead, hvisits, hdone⟩ := (Visits.start (p := p) ht).exists_last
    rw [(Visits.start (p := p) ht).parse_eq_run]
    exact (depth_le_of_done hdone).trans hvisits.depth_le

theorem HasStack.depth_le (h : HasStack p source s) : s.depth ≤ 7 := by
  cases h with
  | first => exact Nat.zero_le _
  | head hvisits => exact hvisits.depth_le
  | below hvisits _ _ hpop =>
    have hdepth := ParseStack.depth_of_popSymbols? hpop
    have hhead := hvisits.depth_le
    omega
  | last => exact depth_parse_le p source

/-- Behind the first clause and an import, the new name of the next import is the seventh symbol. -/
theorem exists_hasStack_deepest (p : Parser) :
    ∃ s, p.HasStack "unit m; uses a, b as c;" s ∧ s.depth = 7 ∧
      s.Linked [.nonterminal .program, .terminal .usesKw, .nonterminal .importList,
        .terminal .comma, .nonterminal .imported, .terminal .asKw, .terminal .identifier] := by
  have hlookahead : (Turn.next^[21] (new.begin "unit m; uses a, b as c;")).lookahead?.isSome =
      true := by decide +kernel
  have hstates : (Turn.next^[21] (new.begin "unit m; uses a, b as c;")).parser.stack.cells.map
      (·.state) = [11, 19, 18, 17, 14, 6, 1] := by decide +kernel
  obtain ⟨lookahead, hsome⟩ := Option.isSome_iff_exists.mp hlookahead
  have hvisits : p.Visits "unit m; uses a, b as c;" _ lookahead :=
    visits_of_lookahead? (p := p) (n := 21) hsome
  obtain ⟨shifted, ⟨Xs, hpath, hbuilds⟩, -⟩ := hvisits.invariant
  have hXs : Xs.map some = [Symbol.nonterminal .program, .terminal .usesKw,
      .nonterminal .importList, .terminal .comma, .nonterminal .imported, .terminal .asKw,
      .terminal .identifier].map some := by
    refine hpath.map_some_eq.trans ?_
    change (List.map enteredBy? ((Turn.next^[21] (new.begin
      "unit m; uses a, b as c;")).parser.stack.cells.map (·.state))).reverse = _
    rw [hstates]
    rfl
  obtain rfl := (List.map_inj_right fun _ _ => Option.some.inj).mp hXs
  exact ⟨_, .head hvisits, (List.length_map _).symm.trans (congrArg List.length hstates),
    hpath.linked hbuilds.fits⟩

end Depth

end Parser

/-- **The stack of a parse is bounded.**  Whatever the source, no stack that a parser has while it
parses holds more than seven symbols.  Seven is the least bound: there is a source for which the
program, `uses`, the imports, a comma, an import, `as` and a name lie on the stack. -/
theorem stack_depth_le_seven (p : Parser) :
    (∀ source s, p.HasStack source s → s.depth ≤ 7) ∧
    ∃ source s, p.HasStack source s ∧ s.depth = 7 ∧
      s.Linked [.nonterminal .program, .terminal .usesKw, .nonterminal .importList,
        .terminal .comma, .nonterminal .imported, .terminal .asKw, .terminal .identifier] :=
  ⟨fun _ _ h => h.depth_le, _, p.exists_hasStack_deepest⟩

/-- Names and other names do not pile up. -/
theorem stack_depth_le_seven_chain :
    ∃ s, Parser.new.HasStack "uses a.b.c.d as e as f as g as h;" s ∧
      s.cells.map (·.state) = [11, 19, 15, 6] ∧ s.depth ≤ 7 := by
  have hlookahead : (Turn.next^[31] (Parser.new.begin
      "uses a.b.c.d as e as f as g as h;")).lookahead?.isSome = true := by decide +kernel
  obtain ⟨lookahead, hsome⟩ := Option.isSome_iff_exists.mp hlookahead
  have hstack := Parser.HasStack.head (Parser.visits_of_lookahead? hsome)
  exact ⟨_, hstack, by decide +kernel, (stack_depth_le_seven Parser.new).1 _ _ hstack⟩

end UnitLang
