/-
# Stacks as paths of the automaton

The states on a parse stack, read from the bottom up, are a path of the automaton: each is
reached from the one below it by one symbol (`Path`).  What the parser relies on when it reduces
is a fact about all such paths, of any length, and it is found by walking the table backwards.

`uncovers good Zs state` walks back from `state` along the symbols `Zs`, through every state from
which the last step can have come, and asks of each state it ends in that it is `good`.  It is a
finite check, and `Path.pop` carries it over to stacks: if the check succeeds at the state on
top, then the symbols on top are `Zs`, and a good state lies below them.

Two checks of the whole table follow.  Where the table reduces, the right-hand side lies on top
and the state below it has a way on by the left-hand side (`table_reduces`); where it accepts,
a program lies on the bottom and the input is at its end (`table_accepts`).
-/
import UnitLang.Automaton
import UnitLang.ParseStack

namespace UnitLang

/-- Whether an entry is a transition. -/
def Entry.isTransit : Entry → Bool
  | transit _ => true
  | _ => false

/-- Whether a symbol is a nonterminal. -/
def Symbol.isNonterminal : Symbol → Bool
  | nonterminal _ => true
  | _ => false

namespace Automaton

/-! ## 1. Steps of the automaton -/

/-- The state to which `X` leads from `state`. -/
def next? (state : Nat) (X : Symbol) : Option Nat := (lookup? state X).bind Entry.target?

/-- Every step leads to a state that is entered by its symbol. -/
theorem enteredBy?_of_next? {state next : Nat} {X : Symbol} (h : next? state X = some next) :
    enteredBy? next = some X := by
  obtain ⟨entry, he, hn⟩ := Option.bind_eq_some_iff.mp h
  exact table_enters he hn

/-- Only the states of the table lead anywhere. -/
theorem lt_of_next? {state next : Nat} {X : Symbol} (h : next? state X = some next) :
    state < table.length := by
  obtain ⟨entry, he, -⟩ := Option.bind_eq_some_iff.mp h
  obtain ⟨row, hrow, -⟩ := Option.bind_eq_some_iff.mp he
  exact (List.getElem?_eq_some_iff.mp hrow).1

/-- The transitions are the entries under nonterminals. -/
theorem isTransit_eq {state : Nat} {X : Symbol} {entry : Entry}
    (h : lookup? state X = some entry) : entry.isTransit = X.isNonterminal :=
  lookup?_induction (P := fun _ X entry => entry.isTransit = X.isNonterminal) (by decide) h

theorem lookup?_terminal_ne_transit (state next : Nat) (k : Kind) :
    lookup? state (.terminal k) ≠ some (.transit next) := by
  intro h
  exact absurd (isTransit_eq h) (by simp [Entry.isTransit, Symbol.isNonterminal])

/-- By a terminal the automaton goes on where the table shifts. -/
theorem next?_terminal_iff {state next : Nat} {k : Kind} :
    next? state (.terminal k) = some next ↔ lookup? state (.terminal k) = some (.shift next) := by
  constructor
  · intro h
    obtain ⟨entry, he, hn⟩ := Option.bind_eq_some_iff.mp h
    have hclass := isTransit_eq he
    cases entry with
    | shift state' => cases hn; exact he
    | transit state' => simp [Entry.isTransit, Symbol.isNonterminal] at hclass
    | reduce id => cases hn
    | accept => cases hn
  · intro h
    simp [next?, h, Entry.target?]

/-- By a nonterminal the automaton goes on where the table has a transition. -/
theorem next?_nonterminal_iff {state next : Nat} {A : Nonterminal} :
    next? state (.nonterminal A) = some next ↔
      lookup? state (.nonterminal A) = some (.transit next) := by
  constructor
  · intro h
    obtain ⟨entry, he, hn⟩ := Option.bind_eq_some_iff.mp h
    have hclass := isTransit_eq he
    cases entry with
    | transit state' => cases hn; exact he
    | shift state' => simp [Entry.isTransit, Symbol.isNonterminal] at hclass
    | reduce id => cases hn
    | accept => cases hn
  · intro h
    simp [next?, h, Entry.target?]

/-! ## 2. Paths -/

/-- The states of the stack are a path of the automaton, by these symbols from the bottom up. -/
inductive Path : ParseStack → List Symbol → Prop where
  | empty : Path .empty []
  | push {s : ParseStack} {Xs : List Symbol} {X : Symbol} {state : Nat} (v : Value) :
      Path s Xs → next? s.topState X = some state → Path (s.push state v) (Xs ++ [X])

/-- Only the bottom is in the first state. -/
theorem Path.eq_empty {s : ParseStack} {Xs : List Symbol} (h : Path s Xs)
    (hs : s.topState = 0) : s = .empty ∧ Xs = [] := by
  cases h with
  | empty => exact ⟨rfl, rfl⟩
  | push v h hn =>
    have henter := enteredBy?_of_next? hn
    rw [ParseStack.topState_push] at hs
    rw [hs] at henter
    exact absurd henter (by simp [enteredBy?, entered])

/-! ## 3. Walking back -/

/-- The states from which `X` leads to `state`. -/
def sources (X : Symbol) (state : Nat) : List Nat :=
  (List.range table.length).filter fun s => next? s X = some state

theorem mem_sources {state next : Nat} {X : Symbol} (h : next? state X = some next) :
    state ∈ sources X next := by
  simp [sources, lt_of_next? h, h]

/-- Whether every path to `state` ends with the symbols `Zs`, the last one first, and passes
through a good state before them. -/
def uncovers (good : Nat → Bool) : List Symbol → Nat → Bool
  | [], state => good state
  | Z :: Zs, state => enteredBy? state = some Z && (sources Z state).all (uncovers good Zs)

/-- **What is checked at the state on top lies on the stack.**  The induction is on the symbols
that are walked back; the stack loses one cell with each. -/
theorem Path.pop {good : Nat → Bool} {Zs : List Symbol} {s : ParseStack} {Xs : List Symbol}
    (h : Path s Xs) (hu : uncovers good Zs s.topState = true) :
    ∃ top below Ys, s.cells = top ++ below.cells ∧ top.length = Zs.length ∧
      Xs = Ys ++ Zs.reverse ∧ Path below Ys ∧ good below.topState = true := by
  induction Zs generalizing s Xs with
  | nil => exact ⟨[], s, Xs, rfl, rfl, by simp, h, hu⟩
  | cons Z Zs ih =>
    simp only [uncovers, Bool.and_eq_true, decide_eq_true_eq, List.all_eq_true] at hu
    obtain ⟨henter, hall⟩ := hu
    cases h with
    | empty => exact absurd henter (by simp [ParseStack.topState, ParseStack.empty, enteredBy?,
        entered])
    | @push s Xs X state v h hn =>
      rw [ParseStack.topState_push] at henter hall
      obtain rfl : X = Z := Option.some.inj ((enteredBy?_of_next? hn).symm.trans henter)
      obtain ⟨top, below, Ys, hcells, hlen, rfl, hbelow, hgood⟩ := ih h (hall _ (mem_sources hn))
      refine ⟨⟨state, v⟩ :: top, below, Ys, ?_, by simp [hlen], by simp, hbelow, hgood⟩
      simp [ParseStack.push, hcells]

/-! ## 4. Two checks of the table -/

/-- Where the table reduces, there is such a production, its right-hand side lies on top, and the
state below it has a way on by its left-hand side. -/
theorem table_reduces {state id : Nat} {X : Symbol} (h : lookup? state X = some (.reduce id)) :
    ∃ p, Grammar.production? id = some p ∧
      uncovers (fun s => (next? s (.nonterminal p.lhs)).isSome) p.rhs.reverse state = true := by
  have key := lookup?_induction (P := fun state _ entry =>
    entry.production?.all fun id =>
      (Grammar.production? id).any fun p =>
        uncovers (fun s => (next? s (.nonterminal p.lhs)).isSome) p.rhs.reverse state = true)
    (by decide +kernel) h
  simpa [Entry.production?, Option.any_eq_true] using key

/-- Where the table accepts, the input is at its end and a program lies on the bottom. -/
theorem table_accepts {state : Nat} {X : Symbol} (h : lookup? state X = some .accept) :
    X = .terminal .endOfInput ∧ uncovers (· = 0) [.nonterminal .program] state = true :=
  lookup?_induction (P := fun state X entry => entry = .accept →
    X = .terminal .endOfInput ∧ uncovers (· = 0) [.nonterminal .program] state = true)
    (by decide +kernel) h rfl

end Automaton

end UnitLang
