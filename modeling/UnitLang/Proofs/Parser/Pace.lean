/-
# The pace of a parse

A parse is over soon.  Between two shifts there are at most six reductions: each of them leads to a
state with less of them before it (`Automaton.pending`), whatever the symbols are that it takes
together.  A shift takes the next token off those that are to come (`Parser.toCome`).  So the turns
of a parse are at most seven for each token and seven more (`Parser.Visits.paced`).

For a source that is accepted the reductions can be counted exactly.  They are the steps of a
derivation of its kinds, and each kind brings a number of steps along (`Grammar.steps`).
-/
import UnitLang.Proofs.Automaton.Bounds
import UnitLang.Proofs.Grammar.Counting
import UnitLang.Proofs.Parser.Replay
import UnitLang.Proofs.Parser.Turns

namespace UnitLang

open Grammar
open Automaton (lookup? next?_nonterminal_iff pending pending_le)

/-! ## 1. Reductions in a row -/

section Bursts

variable {es moves : List Event} {e : Event}

/-- How many moves were made since the last shift, the latest first. -/
def burst (moves : List Event) : Nat := (moves.takeWhile (·.shifted?.isNone)).length

/-- Wherever there is no shift among the moves, there are at most six of them in a row. -/
def Brief (moves : List Event) : Prop :=
  ∀ es, es <:+: moves → (∀ e ∈ es, e.shifted? = none) → es.length ≤ 6

@[simp] theorem burst_shift (state next : Nat) (k : Kind) (moves : List Event) :
    burst (.shift state next k :: moves) = 0 := by
  simp [burst, Event.shifted?]

@[simp] theorem burst_reduce (id previous next : Nat) (A : Nonterminal) (moves : List Event) :
    burst (.reduce id previous next A :: moves) = burst moves + 1 := by
  simp [burst, Event.shifted?]

theorem length_le_burst (hlatest : es <+: moves) (hes : ∀ e ∈ es, e.shifted? = none) :
    es.length ≤ burst moves := by
  obtain ⟨rest, rfl⟩ := hlatest
  rw [burst, List.takeWhile_append_of_pos fun e he => by rw [hes e he]; rfl, List.length_append]
  omega

theorem Brief.nil : Brief [] := by
  intro es hes _
  rw [List.infix_nil.mp hes]
  exact Nat.zero_le _

/-- A row of moves is the latest one or lies further back. -/
theorem Brief.cons (h : Brief moves) (hburst : burst (e :: moves) ≤ 6) : Brief (e :: moves) := by
  intro es hrow hes
  rcases List.infix_cons_iff.mp hrow with hlatest | hrow
  · exact (length_le_burst hlatest hes).trans hburst
  · exact h es hrow hes

/-- A shift begins a new row. -/
theorem Brief.shift (h : Brief moves) (state next : Nat) (k : Kind) :
    Brief (.shift state next k :: moves) := h.cons (by simp)

end Bursts

/-! ## 2. At the heads of the loop -/

/-- A reduction leads to a state with fewer reductions before it. -/
theorem ParseStack.Reduces.pending_lt {s below : ParseStack} {Xs : List Symbol} {k : Kind}
    {id next : Nat} {production : Production} {values : List Value} {node : Node}
    (h : s.Reduces k id production values below node next) (hpath : Automaton.Path s Xs) :
    pending next < pending s.topState := by
  obtain ⟨p, hp, hu⟩ := Automaton.table_settles h.entry
  cases h.production?.symm.trans hp
  obtain ⟨-, -, -, hgood⟩ := h.uncovers hpath hu
  rw [next?_nonterminal_iff.mpr h.goto] at hgood
  exact of_decide_eq_true hgood

namespace Parser

/-- The moves made so far are few, and they still are with the reductions that may follow. -/
structure Paced (shifted : List Token) (q : Parser) : Prop where
  brief : Brief q.moves
  row : burst q.moves + pending q.stack.topState ≤ 6
  total : q.moves.length + pending q.stack.topState ≤ 7 * shifted.length + 6

/-- The tokens that are to come, the lookahead first. -/
def toCome (q : Parser) (lookahead : Token) : List Token :=
  if lookahead.isEnd then [] else lookahead :: q.scanner.items.tokens

section Heads

variable {p q q' : Parser} {source : String} {is : Items} {shifted : List Token}
  {lookahead lookahead' t : Token} {scanner : Scanner} {id next : Nat} {production : Production}
  {values : List Value} {below : ParseStack} {node : Node}

theorem Paced.start (t : Token) (scanner : Scanner) :
    Paced [] ⟨scanner, .empty, Event.ofToken t⟩ := by
  have hmoves : moves ⟨scanner, .empty, Event.ofToken t⟩ = [] := filter_isMove_ofToken t
  have hfirst : pending ParseStack.empty.topState = 0 := rfl
  constructor
  · exact hmoves ▸ .nil
  · rw [hmoves, hfirst]
    decide
  · rw [hmoves, hfirst]
    decide

/-- After a shift there may be six reductions. -/
theorem Paced.shift (h : Paced shifted q) :
    Paced (shifted ++ [lookahead]) (q.afterShift lookahead next scanner t) := by
  have hmoves := moves_afterShift q lookahead t next scanner
  have hnext : pending (q.afterShift lookahead next scanner t).stack.topState ≤ 6 := pending_le _
  have htotal := h.total
  constructor
  · rw [hmoves]
    exact h.brief.shift _ _ _
  · rw [hmoves, burst_shift]
    omega
  · rw [hmoves, List.length_cons, List.length_append, List.length_singleton]
    omega

/-- A reduction is one of those that there may be. -/
theorem Paced.reduce (h : Paced shifted q) (hlt : pending next < pending q.stack.topState) :
    Paced shifted (q.afterReduce id production below node next) := by
  have hmoves := moves_afterReduce q id production below node next
  have htop : (q.afterReduce id production below node next).stack.topState = next := rfl
  have hrow := h.row
  have htotal := h.total
  constructor
  · rw [hmoves]
    refine h.brief.cons ?_
    rw [burst_reduce]
    omega
  · rw [hmoves, burst_reduce, htop]
    omega
  · rw [hmoves, List.length_cons, htop]
    omega

/-- **The pace is kept at every head of the loop.** -/
theorem Visits.paced (h : Visits p source q lookahead) :
    ∃ shifted, Invariant (itemsOf source) shifted q lookahead ∧ Paced shifted q := by
  refine Visits.induction (motive := fun shifted q _ => Paced shifted q) ?_ ?_ ?_ h
  · intro t scanner _
    exact .start t scanner
  · intro shifted q lookahead next t scanner _ _ _ hpaced
    exact hpaced.shift
  · intro shifted q lookahead id production values below node next hinv hr hpaced
    obtain ⟨Xs, hpath, -⟩ := hinv.holds
    exact hpaced.reduce (hr.pending_lt hpath)

/-- The tokens of the items are the shifted ones and those to come. -/
theorem Invariant.tokens_eq (h : Invariant is shifted q lookahead) :
    is.tokens = shifted ++ q.toCome lookahead := by
  obtain ⟨-, hahead⟩ := h
  unfold toCome
  cases hahead with
  | token _ hk his => simp [his, Token.isEnd, hk]
  | ended _ his => simp [his, Token.isEnd, Token.endOfInput]

/-- **A shift takes the next token off those that are to come, a reduction none.** -/
theorem Invariant.toCome_of_turn (h : Invariant is shifted q lookahead)
    (hturn : turn q lookahead = .again q' lookahead') :
    (∃ next, q'.moves = .shift q.stack.topState next lookahead.kind :: q.moves ∧
      q.toCome lookahead = lookahead :: q'.toCome lookahead') ∨
    (∃ id previous next lhs, q'.moves = .reduce id previous next lhs :: q.moves ∧
      q.toCome lookahead = q'.toCome lookahead') := by
  have htokens := h.tokens_eq
  rcases turn_eq_again hturn with ⟨next, scanner, he, ht, rfl⟩ | ⟨id, _, he, -, -, -⟩
  · refine .inl ⟨next, moves_afterShift q lookahead lookahead' next scanner, ?_⟩
    have htokens' := (h.shift he ht).tokens_eq
    rw [List.append_assoc] at htokens'
    exact List.append_cancel_left (htokens.symm.trans htokens')
  · obtain ⟨production, values, below, node, next, -, hturn', hinv'⟩ := h.exists_reduces he
    cases hturn.symm.trans hturn'
    exact .inr ⟨_, _, _, _, moves_afterReduce q id production below node next,
      List.append_cancel_left (htokens.symm.trans hinv'.tokens_eq)⟩

/-! ## 3. At the end -/

variable {outcome : Except Error Node} {log : List Event}

/-- Behind the last head there are no more reductions. -/
theorem Ends.brief (h : Ends is shifted q lookahead outcome log) (hbrief : Brief q.moves) :
    Brief (log.filter Event.isMove) := by
  cases h with
  | lexical => exact hbrief.shift _ _ _
  | accepted => exact hbrief
  | unexpected => exact hbrief
  | unfinished => exact hbrief

/-- Each token takes seven turns at most, and seven more do for the end. -/
theorem exists_turns (p : Parser) (source : String) :
    ∃ n ≤ 7 * ((itemsOf source).tokens.length + 1),
      Turn.next^[n] (p.begin source) = .done (p.parse source) := by
  rcases ht : (p.scanner.load source).nextToken with ⟨e | t, scanner⟩
  · refine ⟨0, Nat.zero_le _, ?_⟩
    simp [begin, parse, ht]
  · obtain ⟨q, lookahead, hvisits, hdone⟩ := (Visits.start (p := p) ht).exists_last
    obtain ⟨shifted, hinv, hpaced⟩ := hvisits.paced
    have htokens := congrArg List.length hinv.tokens_eq
    have htotal := hpaced.total
    rw [List.length_append] at htokens
    refine ⟨q.moves.length + 1, by omega, ?_⟩
    rw [Function.iterate_succ_apply', hvisits.turns, Turn.next, hdone,
      (Visits.start ht).parse_eq_run]

/-- No parse makes more than six reductions in a row. -/
theorem brief_moves (p : Parser) (source : String) : Brief (p.parse source).2.moves := by
  rcases parse_ends p source with ⟨e, -, -, hlog⟩ | ⟨q, lookahead, hvisits, hends⟩
  · rw [moves, hlog]
    exact .nil
  · obtain ⟨shifted, hinv, hpaced⟩ := hvisits.paced
    exact (hends shifted hinv).brief hpaced.brief

end Heads

end Parser

/-- **A parse keeps pace with its source.**  It ends, after at most seven turns for each token and
seven more.  Of its moves, as the log tells them, at most six follow each other without a shift
among them.  Each move is made in a turn of its own; a shift takes the next token off those that
are to come, and a reduction leaves them.  If the source is accepted, there is one shift for each
of its tokens but the end of the input, in order, and the number of reductions is known from the
kinds: five for each `unit`, seven for each `uses`, four for each comma, two for each dot and each
`as`, and one for each backslash. -/
theorem parse_keeps_pace (p : Parser) (source : String) :
    (∃ n ≤ 7 * ((itemsOf source).tokens.length + 1),
      Turn.next^[n] (p.begin source) = .done (p.parse source)) ∧
    (∀ es, es <:+: (p.parse source).2.moves → (∀ e ∈ es, e.shifted? = none) → es.length ≤ 6) ∧
    (∀ q lookahead q' lookahead', p.Visits source q lookahead →
      q.turn lookahead = .again q' lookahead' →
      (∃ next, q'.moves = .shift q.stack.topState next lookahead.kind :: q.moves ∧
        q.toCome lookahead = lookahead :: q'.toCome lookahead') ∨
      (∃ id previous next lhs, q'.moves = .reduce id previous next lhs :: q.moves ∧
        q.toCome lookahead = q'.toCome lookahead')) ∧
    ∀ n, (p.parse source).1 = .ok n →
      ∃ ts stop, tokenize source = .ok (ts ++ [Token.endOfInput stop]) ∧
        (∀ t ∈ ts, t.kind ≠ .endOfInput) ∧
        ∃ w, ts.map (·.kind) = w ∧ (p.parse source).2.shiftedKinds = w ∧
          (p.parse source).2.reductions.length =
            5 * w.count .unitKw + 7 * w.count .usesKw + 4 * w.count .comma +
              2 * w.count .dot + 2 * w.count .asKw + w.count .backslash := by
  refine ⟨Parser.exists_turns p source, Parser.brief_moves p source, ?_, ?_⟩
  · intro q lookahead q' lookahead' hvisits hturn
    obtain ⟨shifted, hinv⟩ := hvisits.invariant
    exact hinv.toCome_of_turn hturn
  · intro n hok
    obtain ⟨ts, stop, his, hshifted, -, hderives⟩ := Parser.certified_of_ok hok
    refine ⟨ts, stop, tokenize_eq_ok_iff.mpr ⟨ts, stop, his, rfl⟩, ?_, _, rfl, hshifted, ?_⟩
    · have hkinds := kind_ne_endOfInput_of_mem_itemsOf source
      rw [his] at hkinds
      exact hkinds
    · rw [hderives.length_eq_stepsAll, stepsAll_eq]

/-- One token of each kind that counts, and the reductions of all of them. -/
theorem parse_keeps_pace_each :
    (∃ n, (Parser.new.parse "unit a; uses b\\c, d.e as f;").1 = .ok n) ∧
      (Parser.new.parse "unit a; uses b\\c, d.e as f;").2.shiftedKinds =
        [.unitKw, .identifier, .semicolon, .usesKw, .identifier, .backslash, .identifier, .comma,
          .identifier, .dot, .identifier, .asKw, .identifier, .semicolon] ∧
      (Parser.new.parse "unit a; uses b\\c, d.e as f;").2.reductions.length =
        5 + 7 + 4 + 2 + 2 + 1 := by
  have hresult : ((Turn.next^[36] (Parser.new.begin "unit a; uses b\\c, d.e as f;")).result?.any
      Except.isOk) = true := by decide +kernel
  have hkinds : (Turn.next^[36] (Parser.new.begin
      "unit a; uses b\\c, d.e as f;")).parser.shiftedKinds =
        [.unitKw, .identifier, .semicolon, .usesKw, .identifier, .backslash, .identifier, .comma,
          .identifier, .dot, .identifier, .asKw, .identifier, .semicolon] := by decide +kernel
  obtain ⟨result, hsome, hok⟩ := (Option.any_eq_true _ _).mp hresult
  have hparse := Parser.parse_eq_of_result? hsome
  obtain ⟨n, rfl⟩ : ∃ n, result = .ok n := by
    cases result with
    | ok n => exact ⟨n, rfl⟩
    | error e => cases hok
  obtain ⟨-, -, -, haccepted⟩ := parse_keeps_pace Parser.new "unit a; uses b\\c, d.e as f;"
  obtain ⟨ts, stop, -, -, w, -, hshifted, hlength⟩ := haccepted n (by rw [hparse])
  rw [hparse] at hshifted hlength ⊢
  obtain rfl := hkinds.symm.trans hshifted
  exact ⟨⟨n, rfl⟩, hkinds, hlength⟩

end UnitLang
