/-
# What lies on the stack

At every head of the loop the states on the stack are a path of the automaton from its first state
on.  Each was entered from the one below it by just one symbol, and its cell holds a value of the
shape of that symbol (`ParseStack.Linked`).  The symbols along the path derive the tokens before
the lookahead, and these are the tokens that the log says were shifted.

The path and its values are part of the invariant that every turn preserves
(`Parser.Invariant`); what is added here is that the symbols are read off the states, and that
the log agrees with the stack (`Parser.Logged`).
-/
import UnitLang.Proofs.Parser.Moves

namespace UnitLang

open Grammar
open Automaton (lookup? next? enteredBy?_of_next? next?_terminal_iff next?_nonterminal_iff Path)

/-! ## 1. Cells on cells -/

/-- From a state the table leads by a symbol to the next: it shifts, or it has a transition. -/
def Automaton.Leads (state : Nat) (X : Symbol) (next : Nat) : Prop :=
  lookup? state X = some (.shift next) ∨ lookup? state X = some (.transit next)

/-- The states of the stack are reached one from the other, from the bottom up, each by the one
symbol that leads there, and the cells hold values of the shapes of these symbols. -/
inductive ParseStack.Linked : ParseStack → List Symbol → Prop where
  | bottom : Linked .empty []
  | cell {s : ParseStack} {Xs : List Symbol} {X : Symbol} {state : Nat} {v : Value} :
      Linked s Xs → Automaton.Leads s.topState X state →
      (∀ Y, Automaton.Leads s.topState Y state → Y = X) → X.Fits v →
      Linked (s.push state v) (Xs ++ [X])

section Cells

variable {s : ParseStack} {Xs : List Symbol} {X Y : Symbol} {state next : Nat}

theorem Automaton.leads_iff : Leads state X next ↔ next? state X = some next := by
  constructor
  · rintro (h | h)
    · rw [next?, h]
      rfl
    · rw [next?, h]
      rfl
  · intro h
    cases X with
    | terminal k => exact .inl (next?_terminal_iff.mp h)
    | nonterminal A => exact .inr (next?_nonterminal_iff.mp h)

/-- Only one symbol leads to a state. -/
theorem Automaton.Leads.unique (h : Leads state X next) (h' : Leads state Y next) : Y = X := by
  have hX := enteredBy?_of_next? (leads_iff.mp h)
  have hY := enteredBy?_of_next? (leads_iff.mp h')
  exact Option.some.inj (hY.symm.trans hX)

/-- A path whose values have the shapes of its symbols. -/
theorem Automaton.Path.linked (h : Path s Xs) (hfits : List.Forall₂ Symbol.Fits Xs s.values) :
    s.Linked Xs := by
  induction h with
  | empty => exact .bottom
  | @push s Xs X state v _ hnext ih =>
    rw [← List.forall₂_reverse_iff, ParseStack.values_push, List.reverse_append,
      List.reverse_append] at hfits
    obtain ⟨hv, hbelow⟩ := List.forall₂_cons.mp hfits
    have hleads : Leads s.topState X state := leads_iff.mpr hnext
    exact .cell (ih (List.forall₂_reverse_iff.mp hbelow)) hleads (fun _ hY => hleads.unique hY) hv

end Cells

/-! ## 2. The log -/

/-- The kind of token that was shifted. -/
def Event.shifted? : Event → Option Kind
  | shift _ _ kind => some kind
  | _ => none

/-- The token that was read. -/
def Event.token? : Event → Option Token
  | token t => some t
  | _ => none

namespace Parser

/-- The kinds of the tokens shifted so far, in order. -/
def shiftedKinds (q : Parser) : List Kind := q.log.reverse.filterMap Event.shifted?

/-- The tokens read so far, in order. -/
def tokensRead (q : Parser) : List Token := q.log.reverse.filterMap Event.token?

/-- The log tells of these tokens as shifted, and of the lookahead as read behind them, unless it
is the end of the input. -/
structure Logged (q : Parser) (shifted : List Token) (lookahead : Token) : Prop where
  shiftedKinds_eq : q.shiftedKinds = shifted.map (·.kind)
  tokensRead_eq : q.tokensRead = shifted ++ if lookahead.isEnd then [] else [lookahead]

section Turns

variable {p q : Parser} {source : String} {shifted : List Token} {lookahead lookahead' : Token}

theorem filterMap_shifted?_ofToken (t : Token) :
    (Event.ofToken t).reverse.filterMap Event.shifted? = [] := by
  rw [List.filterMap_reverse, List.reverse_eq_nil_iff, List.filterMap_eq_nil_iff]
  exact Event.forall_ofToken rfl

theorem filterMap_token?_ofToken (t : Token) :
    (Event.ofToken t).reverse.filterMap Event.token? = if t.isEnd then [] else [t] := by
  unfold Event.ofToken
  split <;> rfl

theorem filterMap_shifted?_ofNode (a : Action) (n : Node) :
    (Event.ofNode a n).filterMap Event.shifted? = [] :=
  List.filterMap_eq_nil_iff.mpr (Event.forall_ofNode (fun _ => rfl) fun _ => rfl)

theorem filterMap_token?_ofNode (a : Action) (n : Node) :
    (Event.ofNode a n).filterMap Event.token? = [] :=
  List.filterMap_eq_nil_iff.mpr (Event.forall_ofNode (fun _ => rfl) fun _ => rfl)

/-- At the beginning nothing is shifted. -/
theorem Logged.start (t : Token) (scanner : Scanner) :
    Logged ⟨scanner, .empty, Event.ofToken t⟩ [] t where
  shiftedKinds_eq := filterMap_shifted?_ofToken t
  tokensRead_eq := filterMap_token?_ofToken t

/-- Shifting is told with the kind of the lookahead, reading on with the token that is read. -/
theorem Logged.shift {next : Nat} {scanner : Scanner} (h : q.Logged shifted lookahead)
    (hk : lookahead.kind ≠ .endOfInput) :
    (q.afterShift lookahead next scanner lookahead').Logged (shifted ++ [lookahead])
      lookahead' where
  shiftedKinds_eq := by
    have hold := h.shiftedKinds_eq
    rw [shiftedKinds] at hold ⊢
    rw [afterShift, List.reverse_append, List.reverse_cons, List.filterMap_append,
      List.filterMap_append, filterMap_shifted?_ofToken, hold]
    simp [Event.shifted?]
  tokensRead_eq := by
    have hold := h.tokensRead_eq
    have hend : lookahead.isEnd = false := decide_eq_false hk
    rw [tokensRead, hend, if_neg Bool.false_ne_true] at hold
    rw [tokensRead, afterShift, List.reverse_append, List.reverse_cons, List.filterMap_append,
      List.filterMap_append, filterMap_token?_ofToken, hold]
    simp [Event.token?]

/-- Reducing tells of no token. -/
theorem Logged.reduce {id next : Nat} {production : Production} {below : ParseStack} {node : Node}
    (h : q.Logged shifted lookahead) :
    (q.afterReduce id production below node next).Logged shifted lookahead := by
  constructor
  · rw [← h.shiftedKinds_eq]
    simp [shiftedKinds, afterReduce, filterMap_shifted?_ofNode, Event.shifted?]
  · rw [← h.tokensRead_eq]
    simp [tokensRead, afterReduce, filterMap_token?_ofNode, Event.token?]

/-- **The log is in step with the stack at every head of the loop**: both have one more token after
a shift, and the same ones after a reduction. -/
theorem Visits.logged (h : Visits p source q lookahead) :
    ∃ shifted, Invariant (itemsOf source) shifted q lookahead ∧ q.Logged shifted lookahead := by
  refine Visits.induction (motive := fun shifted q lookahead => q.Logged shifted lookahead)
    ?_ ?_ ?_ h
  · intro t scanner _
    exact .start t scanner
  · intro shifted q lookahead next t scanner _ he _ hlog
    exact hlog.shift (kind_ne_endOfInput_of_lookup? he)
  · intro shifted q lookahead id production values below node next _ _ hlog
    exact hlog.reduce

end Turns

end Parser

/-! ## 3. The stack at a head of the loop -/

section Heads

variable {p q : Parser} {source : String} {lookahead : Token}

/-- **The stack is a path of the automaton that derives the tokens before the lookahead.**  Its
states are linked from the bottom up by one symbol each, of whose shape the value is; these
symbols derive, in order, the kinds of the tokens shifted so far.  The items of the source are
these tokens, then the lookahead, and then what the scanner still has; and the log tells of the
same tokens as shifted, and of them and the lookahead as read. -/
theorem stack_linked_of_visits (h : p.Visits source q lookahead) :
    ∃ shifted Xs, q.stack.Linked Xs ∧ DerivesAll Xs (shifted.map (·.kind)) ∧
      Ahead (itemsOf source) shifted q.scanner lookahead ∧
      q.shiftedKinds = shifted.map (·.kind) ∧
      q.tokensRead = shifted ++ if lookahead.isEnd then [] else [lookahead] := by
  obtain ⟨shifted, ⟨⟨Xs, hpath, hbuilds⟩, hahead⟩, hlogged⟩ := h.logged
  exact ⟨shifted, Xs, hpath.linked hbuilds.fits, hbuilds.derivesAll, hahead,
    hlogged.shiftedKinds_eq, hlogged.tokensRead_eq⟩

/-- Before the dot, the name behind `unit` has become a path. -/
theorem stack_linked_of_visits_path :
    ∃ q lookahead, Parser.new.Visits "unit a.b;" q lookahead ∧
      q.stack.cells = [⟨9, .node (.list [.identifier ⟨"a", ⟨⟨5, 1, 5⟩, ⟨6, 1, 6⟩⟩⟩])⟩,
        ⟨5, .lexeme ⟨"unit", ⟨⟨0, 1, 0⟩, ⟨4, 1, 4⟩⟩⟩⟩] ∧
      ∃ shifted Xs, q.stack.Linked Xs ∧ DerivesAll Xs (shifted.map (·.kind)) ∧
        Ahead (itemsOf "unit a.b;") shifted q.scanner lookahead ∧
        q.shiftedKinds = shifted.map (·.kind) ∧
        q.tokensRead = shifted ++ if lookahead.isEnd then [] else [lookahead] := by
  have hstart : (Parser.new.scanner.load "unit a.b;").nextToken =
      (.ok ⟨.unitKw, "unit", ⟨⟨0, 1, 0⟩, ⟨4, 1, 4⟩⟩⟩,
        ⟨" a.b;".toList, ⟨4, 1, 4⟩, false, false, []⟩) := by decide +kernel
  have hname : Scanner.nextToken ⟨" a.b;".toList, ⟨4, 1, 4⟩, false, false, []⟩ =
      (.ok ⟨.identifier, "a", ⟨⟨5, 1, 5⟩, ⟨6, 1, 6⟩⟩⟩,
        ⟨".b;".toList, ⟨6, 1, 6⟩, false, false, []⟩) := by decide +kernel
  have hdot : Scanner.nextToken ⟨".b;".toList, ⟨6, 1, 6⟩, false, false, []⟩ =
      (.ok ⟨.dot, ".", ⟨⟨6, 1, 6⟩, ⟨7, 1, 7⟩⟩⟩,
        ⟨"b;".toList, ⟨7, 1, 7⟩, false, false, []⟩) := by decide +kernel
  have hunit := Parser.Visits.start hstart
  have ha := hunit.next (Parser.turn_of_shift rfl hname)
  have hident := ha.next (Parser.turn_of_shift rfl hdot)
  have hpath := hident.next (Parser.turn_of_reduce rfl rfl)
  have hvis := hpath.next (Parser.turn_of_reduce rfl rfl)
  exact ⟨_, _, hvis, rfl, stack_linked_of_visits hvis⟩

end Heads

end UnitLang
