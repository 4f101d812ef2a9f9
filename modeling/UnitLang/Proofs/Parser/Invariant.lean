/-
# The invariant of the parser

Between two turns of the loop the parser knows two things about the tokens of its source.  Those
it has shifted are on the stack: the states are a path of the automaton, and the symbols along it
carry the values on the stack and stand for just these tokens (`ParseStack.Holds`).  The others
are ahead: the lookahead is the next of them, and the scanner still has the rest (`Ahead`).

A shift moves the lookahead from one side to the other (`Holds.shift`, `Ahead.shift`).  A
reduction keeps the tokens apart as they are, and it always succeeds (`Holds.exists_reduce`): the
right-hand side lies on top because the stack is a path, its action succeeds because the values
have the shapes of their symbols, and the state below has a way on.  So both hold at every head
of the loop (`Parser.Visits.invariant`).
-/
import UnitLang.Proofs.Automaton.Path
import UnitLang.Proofs.Grammar.Building
import UnitLang.Proofs.Parser.Loop
import UnitLang.Proofs.Token.Items

namespace UnitLang

open Automaton (lookup? next? Path)

/-! ## 1. What a stack holds -/

namespace ParseStack

/-- The values on the stack, from the bottom up. -/
def values (s : ParseStack) : List Value := (s.cells.map (·.value)).reverse

@[simp] theorem values_push (s : ParseStack) (state : Nat) (v : Value) :
    (s.push state v).values = s.values ++ [v] := by
  simp [values, push]

/-- The stack is a path of the automaton, whose symbols carry the values on it and stand for the
tokens. -/
def Holds (s : ParseStack) (ts : List Token) : Prop := ∃ Xs, Path s Xs ∧ Builds Xs ts s.values

theorem holds_empty : empty.Holds [] := ⟨[], .empty, .nil⟩

variable {s : ParseStack} {ts : List Token}

/-- A shifted token is held behind the others. -/
theorem Holds.shift {t : Token} {next : Nat} (h : s.Holds ts)
    (he : lookup? s.topState (.terminal t.kind) = some (.shift next)) :
    (s.shift next t.lexeme).Holds (ts ++ [t]) := by
  obtain ⟨Xs, hpath, hb⟩ := h
  refine ⟨Xs ++ [.terminal t.kind], hpath.push _ (Automaton.next?_terminal_iff.mpr he), ?_⟩
  rw [ParseStack.shift, values_push]
  exact hb.append (.singleton_lexeme t)

/-- What the walk back from the top finds lies on the stack, as symbols and as values. -/
theorem Holds.pop {good : Nat → Bool} {Zs : List Symbol} (h : s.Holds ts)
    (hu : Automaton.uncovers good Zs.reverse s.topState = true) :
    ∃ values below ts₁ ts₂, s.popSymbols? Zs.length = some (values, below) ∧
      ts = ts₁ ++ ts₂ ∧ below.Holds ts₁ ∧ Builds Zs ts₂ values ∧ good below.topState = true := by
  obtain ⟨Xs, hpath, hb⟩ := h
  obtain ⟨top, below, Ys, hcells, hlen, hXs, hbelow, hgood⟩ := hpath.pop hu
  rw [List.length_reverse] at hlen
  rw [List.reverse_reverse] at hXs
  have hvalues : s.values = below.values ++ (top.map (·.value)).reverse := by
    simp [values, hcells]
  rw [hXs, hvalues] at hb
  obtain ⟨ts₁, ts₂, hts, hb₁, hb₂⟩ := hb.cut_at (by simp [hlen])
  exact ⟨_, below, ts₁, ts₂, popSymbols?_eq_some_iff.mpr ⟨top, hcells, hlen, rfl⟩, hts,
    ⟨Ys, hbelow, hb₁⟩, hb₂, hgood⟩

/-- **A reduction that the table asks for succeeds**, and the stack holds the same tokens. -/
theorem Holds.exists_reduce {X : Symbol} {id : Nat} (h : s.Holds ts)
    (he : lookup? s.topState X = some (.reduce id)) :
    ∃ p values below node next, Grammar.production? id = some p ∧
      s.popSymbols? p.length = some (values, below) ∧
      List.Forall₂ Symbol.Fits p.rhs values ∧
      p.action.run values = (.ok node, []) ∧
      lookup? below.topState (.nonterminal p.lhs) = some (.transit next) ∧
      reduce id s = .ok ⟨below.pushNode next node,
        Event.ofNode p.action node ++ [.reduce id below.topState next p.lhs]⟩ ∧
      (below.pushNode next node).Holds ts := by
  obtain ⟨p, hp, hu⟩ := Automaton.table_reduces he
  obtain ⟨values, below, ts₁, ts₂, hpop, rfl, ⟨Xs, hpath, hb₁⟩, hb₂, hgood⟩ := h.pop hu
  have hmem := Grammar.mem_of_production? hp
  obtain ⟨node, hrun, -⟩ := exists_run_of_fits hmem hb₂.fits
  obtain ⟨next, hnext⟩ := Option.isSome_iff_exists.mp hgood
  have hgoto := Automaton.next?_nonterminal_iff.mp hnext
  refine ⟨p, values, below, node, next, hp, hpop, hb₂.fits, hrun, hgoto, ?_, ?_⟩
  · unfold reduce Production.length
    simp only [hp, hpop, hrun, hgoto]
    rfl
  · refine ⟨Xs ++ [.nonterminal p.lhs], hpath.push _ hnext, ?_⟩
    rw [pushNode, values_push]
    exact hb₁.append (.singleton_node hmem hb₂ hrun)

/-- Where the table accepts, the stack holds one tree, which is a program's. -/
theorem Holds.accept {X : Symbol} (h : s.Holds ts)
    (he : lookup? s.topState X = some .accept) :
    ∃ state n, s.cells = [⟨state, .node n⟩] ∧ Builds [.nonterminal .program] ts [.node n] := by
  obtain ⟨-, hu⟩ := Automaton.table_accepts he
  have hu' : Automaton.uncovers (· = 0) [Symbol.nonterminal .program].reverse s.topState :=
    hu
  obtain ⟨values, below, ts₁, ts₂, hpop, rfl, ⟨Xs, hpath, hb₁⟩, hb₂, hgood⟩ := h.pop hu'
  obtain ⟨rfl, rfl⟩ := hpath.eq_empty (of_decide_eq_true hgood)
  cases hb₁
  obtain ⟨top, hcells, hlen, rfl⟩ := popSymbols?_eq_some_iff.mp hpop
  obtain ⟨⟨state, v⟩, rfl⟩ := List.length_eq_one_iff.mp hlen
  obtain ⟨_, hv, n, rfl, -⟩ := fits_one hb₂.fits
  cases hv
  exact ⟨state, n, hcells, hb₂⟩

end ParseStack

/-! ## 2. What is ahead -/

/-- The kind of the item that comes next, when it is a token or the end of the input. -/
def nextKind (ts : List Token) : Kind := (ts.head?.map (·.kind)).getD .endOfInput

/-- Of the items, these tokens are shifted; the lookahead is the next item, and the scanner has
those behind it. -/
inductive Ahead (is : Items) (shifted : List Token) : Scanner → Token → Prop where
  | token {scanner : Scanner} {t : Token} :
      scanner.ended = false → t.kind ≠ .endOfInput →
      is = ⟨shifted ++ t :: scanner.items.tokens, scanner.items.ending⟩ →
      Ahead is shifted scanner t
  | ended {scanner : Scanner} {p : Position} :
      scanner.ended = true → is = ⟨shifted, .ended p⟩ →
      Ahead is shifted scanner (.endOfInput p)

namespace Ahead

variable {is : Items} {shifted : List Token} {scanner scanner' : Scanner} {t : Token}

/-- The token that a scanner hands out next is the lookahead then. -/
theorem of_nextToken_ok (hs : scanner.ended = false)
    (his : is = ⟨shifted ++ scanner.items.tokens, scanner.items.ending⟩)
    (h : scanner.nextToken = (.ok t, scanner')) : Ahead is shifted scanner' t := by
  rcases Scanner.nextToken_items hs with ⟨t', s', ht, hs', hk, hitems⟩ |
    ⟨p, s', ht, hs', hitems⟩ | ⟨e, s', ht, -⟩
  · cases h.symm.trans ht
    exact .token hs' hk (by rw [his, hitems])
  · cases h.symm.trans ht
    exact .ended hs' (by rw [his, hitems, List.append_nil])
  · cases h.symm.trans ht

/-- The error that a scanner hands out ends the items. -/
theorem eq_failed_of_nextToken_error {e : Error} (hs : scanner.ended = false)
    (his : is = ⟨shifted ++ scanner.items.tokens, scanner.items.ending⟩)
    (h : scanner.nextToken = (.error e, scanner')) : is = ⟨shifted, .failed e⟩ := by
  rcases Scanner.nextToken_items hs with ⟨t', s', ht, -⟩ | ⟨p, s', ht, -⟩ | ⟨e', s', ht, hitems⟩
  · cases h.symm.trans ht
  · cases h.symm.trans ht
  · cases h.symm.trans ht
    rw [his, hitems, List.append_nil]

/-- With the lookahead shifted, the items of the scanner are those to come. -/
theorem shift (h : Ahead is shifted scanner t) (hk : t.kind ≠ .endOfInput) :
    scanner.ended = false ∧
      is = ⟨(shifted ++ [t]) ++ scanner.items.tokens, scanner.items.ending⟩ := by
  cases h with
  | token hs _ his => exact ⟨hs, by rw [his, List.append_assoc]; rfl⟩
  | ended => exact absurd rfl hk

/-- At the end of the input nothing more is to come. -/
theorem eq_ended (h : Ahead is shifted scanner t) (hk : t.kind = .endOfInput) :
    scanner.hasMore = false ∧ is = ⟨shifted, .ended t.span.start⟩ := by
  cases h with
  | token _ hk' _ => exact absurd hk hk'
  | ended hs his => exact ⟨by simp [Scanner.hasMore, hs], his⟩

/-- The kind of the lookahead is that of the next item. -/
theorem nextKind_drop (h : Ahead is shifted scanner t) :
    nextKind (is.tokens.drop shifted.length) = t.kind := by
  cases h with
  | token _ _ his => simp [his, nextKind]
  | ended _ his => simp [his, nextKind, Token.endOfInput]

end Ahead

/-! ## 3. The invariant -/

namespace Parser

/-- Of the items, these tokens are on the stack, and the others are ahead. -/
structure Invariant (is : Items) (shifted : List Token) (q : Parser) (lookahead : Token) :
    Prop where
  holds : q.stack.Holds shifted
  ahead : Ahead is shifted q.scanner lookahead

variable {is : Items} {shifted : List Token} {q q' : Parser} {lookahead lookahead' : Token}

/-- **A turn keeps the invariant**: a shift with one more token on the stack, a reduction with the
same ones. -/
theorem Invariant.of_turn (h : Invariant is shifted q lookahead)
    (ht : turn q lookahead = .again q' lookahead') :
    Invariant is (shifted ++ [lookahead]) q' lookahead' ∨ Invariant is shifted q' lookahead' := by
  rcases turn_eq_again ht with ⟨next, scanner, he, hnext, rfl⟩ | ⟨id, r, he, hr, rfl, rfl⟩
  · left
    obtain ⟨hs, his⟩ := h.ahead.shift (kind_ne_endOfInput_of_lookup? he)
    exact ⟨h.holds.shift he, .of_nextToken_ok hs his hnext⟩
  · right
    obtain ⟨p, values, below, node, next, -, -, -, -, -, hreduce, hholds⟩ :=
      h.holds.exists_reduce he
    cases hr.symm.trans hreduce
    exact ⟨hholds, h.ahead⟩

/-- **The invariant holds at every head of the loop.** -/
theorem Visits.invariant {p : Parser} {source : String} (h : Visits p source q lookahead) :
    ∃ shifted, Invariant (itemsOf source) shifted q lookahead := by
  induction h with
  | start ht => exact ⟨[], ParseStack.holds_empty, .of_nextToken_ok rfl rfl ht⟩
  | next _ ht ih =>
    obtain ⟨shifted, hinv⟩ := ih
    rcases hinv.of_turn ht with h | h
    · exact ⟨_, h⟩
    · exact ⟨_, h⟩

end Parser

end UnitLang
