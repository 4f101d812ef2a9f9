/-
# Every stack can be finished

The symbols on a parse stack can always be finished to a program, whatever path of the automaton
they are.  From each state there is a way out: some production has its first symbols on top, the
others are added by an example of each (`Grammar.sample`), and the left-hand side takes the place
of them all.  `exits` names the production for each state, and how many of its symbols are
there.

Following the exits comes to an end, because the state they lead to always has a smaller rank, and
only the state behind a program has none.  Both are checked for all states at once
(`table_exits`), and `Path.exists_completion` follows the exits on a stack.
-/
import UnitLang.Grammar.Derivation
import UnitLang.Proofs.Automaton.Path

namespace UnitLang

open Nonterminal

/-! ## 1. Examples of each symbol -/

namespace Grammar

/-- Kinds that a symbol derives. -/
def sample : Symbol → List Kind
  | .terminal k => [k]
  | .nonterminal A =>
    match A with
    | ident | path | imported | importList => [.identifier]
    | unitDecl | clause => [.unitKw, .identifier]
    | usesDecl => [.usesKw, .identifier]
    | program | start => [.unitKw, .identifier, .semicolon]

/-- What the examples of a right-hand side make is derived by its left-hand side. -/
theorem derives_of_production? (id : Nat) {p : Production} {w : List Kind}
    (hp : production? id = some p) (h : DerivesAll p.rhs w) : Derives (.nonterminal p.lhs) w :=
  .nonterminal (mem_of_production? hp) h

theorem derives_sample (X : Symbol) : Derives X (sample X) := by
  have one {X : Symbol} {w : List Kind} (h : Derives X w) : DerivesAll [X] w :=
    derivesAll_singleton_iff.mpr h
  have hident : Derives (.nonterminal ident) [.identifier] :=
    derives_of_production? 5 rfl (one (.terminal _))
  have hpath : Derives (.nonterminal path) [.identifier] :=
    derives_of_production? 6 rfl (one hident)
  have himported : Derives (.nonterminal imported) [.identifier] :=
    derives_of_production? 8 rfl (one hpath)
  have hlist : Derives (.nonterminal importList) [.identifier] :=
    derives_of_production? 13 rfl (one himported)
  have hunit : Derives (.nonterminal unitDecl) [.unitKw, .identifier] :=
    derives_of_production? 11 rfl (.cons (.terminal .unitKw) (one hpath))
  have huses : Derives (.nonterminal usesDecl) [.usesKw, .identifier] :=
    derives_of_production? 12 rfl (.cons (.terminal .usesKw) (one hlist))
  have hclause : Derives (.nonterminal clause) [.unitKw, .identifier] :=
    derives_of_production? 3 rfl (one hunit)
  have hprogram : Derives (.nonterminal program) [.unitKw, .identifier, .semicolon] :=
    derives_of_production? 1 rfl (.cons hclause (one (.terminal .semicolon)))
  have hstart : Derives (.nonterminal start) [.unitKw, .identifier, .semicolon] :=
    derives_of_production? 0 rfl (one hprogram)
  cases X with
  | terminal k => exact .terminal k
  | nonterminal A => cases A <;> assumption

theorem derivesAll_sample (Xs : List Symbol) : DerivesAll Xs (Xs.flatMap sample) := by
  induction Xs with
  | nil => exact .nil
  | cons X Xs ih => exact .cons (derives_sample X) ih

end Grammar

/-! ## 2. The ways out -/

namespace Automaton

open Grammar

/-- A way out of a state: a production, how many of its symbols lie on top, and how many ways out
may follow. -/
structure Exit where
  production : Nat
  dot : Nat
  rank : Nat

/-- The ways out of the states, in order. -/
def exits : List Exit :=
  [⟨1, 0, 1⟩, ⟨0, 1, 0⟩, ⟨1, 1, 1⟩, ⟨3, 1, 2⟩, ⟨4, 1, 2⟩, ⟨11, 1, 3⟩, ⟨12, 1, 3⟩, ⟨2, 2, 1⟩,
   ⟨2, 3, 1⟩, ⟨11, 2, 3⟩, ⟨6, 1, 6⟩, ⟨5, 1, 7⟩, ⟨7, 2, 6⟩, ⟨7, 3, 6⟩, ⟨12, 2, 3⟩, ⟨13, 1, 4⟩,
   ⟨8, 1, 5⟩, ⟨14, 2, 4⟩, ⟨14, 3, 4⟩, ⟨10, 2, 5⟩, ⟨10, 3, 5⟩, ⟨9, 2, 5⟩, ⟨9, 3, 5⟩, ⟨1, 2, 1⟩]

/-- How many ways out may follow each other from a state on. -/
def rank (state : Nat) : Nat := ((exits[state]?).map (·.rank)).getD 0

/-- From every state but the one behind a program, the first symbols of some production lie on
top, and its left-hand side leads to a state of smaller rank. -/
theorem table_exits {state : Nat} (h : state < table.length) (hne : state ≠ 1) :
    ∃ x p, exits[state]? = some x ∧ production? x.production = some p ∧
      uncovers (fun s => (next? s (.nonterminal p.lhs)).any (rank · < rank state))
        (p.rhs.take x.dot).reverse state = true := by
  have key : ∀ state ∈ List.range table.length, state ≠ 1 →
      (exits[state]?).any fun x => (production? x.production).any fun p =>
        uncovers (fun s => (next? s (.nonterminal p.lhs)).any (rank · < rank state))
          (p.rhs.take x.dot).reverse state := by decide +kernel
  obtain ⟨x, hx, hany⟩ := (Option.any_eq_true _ _).mp (key state (List.mem_range.mpr h) hne)
  obtain ⟨p, hp, hu⟩ := (Option.any_eq_true _ _).mp hany
  exact ⟨x, p, hx, hp, hu⟩

/-- Behind a program there is nothing but its beginning. -/
theorem uncovers_program : uncovers (· = 0) [.nonterminal program] 1 = true := by decide +kernel

/-- The states on a stack are states of the table. -/
theorem Path.topState_lt {s : ParseStack} {Xs : List Symbol} (h : Path s Xs) :
    s.topState < table.length := by
  cases h with
  | empty => decide
  | push v h hn =>
    have henter := enteredBy?_of_next? hn
    rw [ParseStack.topState_push]
    rcases Nat.lt_or_ge _ entered.length with hlt | hge
    · exact hlt
    · rw [enteredBy?, List.getElem?_eq_none hge] at henter
      cases henter

/-! ## 3. Following them -/

/-- **Every stack can be finished.**  Some kinds make a sentence of whatever the symbols on a
stack derive.  The induction is on the rank of the state on top. -/
theorem Path.exists_completion {s : ParseStack} {Xs : List Symbol} (h : Path s Xs) :
    ∃ v, ∀ w, DerivesAll Xs w → IsSentence (w ++ v) := by
  by_cases hs : s.topState = 1
  · obtain ⟨_, below, Ys, -, -, rfl, hbelow, hgood⟩ := h.pop (hs ▸ uncovers_program)
    obtain ⟨-, rfl⟩ := hbelow.eq_empty (of_decide_eq_true hgood)
    refine ⟨[], fun w hw => ?_⟩
    rw [List.append_nil]
    exact derivesAll_singleton_iff.mp hw
  · obtain ⟨x, p, -, hp, hu⟩ := table_exits h.topState_lt hs
    obtain ⟨_, below, Ys, -, -, rfl, hbelow, hgood⟩ := h.pop hu
    obtain ⟨next, hnext, hrank⟩ := (Option.any_eq_true _ _).mp hgood
    have hpath : Path (below.push next default) (Ys ++ [.nonterminal p.lhs]) :=
      hbelow.push default hnext
    have hlt : rank next < rank s.topState := of_decide_eq_true hrank
    obtain ⟨v, hv⟩ := hpath.exists_completion
    refine ⟨(p.rhs.drop x.dot).flatMap sample ++ v, fun w hw => ?_⟩
    rw [List.reverse_reverse] at hw
    obtain ⟨w₁, w₂, rfl, hw₁, hw₂⟩ := derivesAll_append_iff.mp hw
    have hrhs : DerivesAll p.rhs (w₂ ++ (p.rhs.drop x.dot).flatMap sample) := by
      simpa using hw₂.append (derivesAll_sample (p.rhs.drop x.dot))
    have hlhs := derivesAll_singleton_iff.mpr (derives_of_production? _ hp hrhs)
    simpa using hv _ (hw₁.append hlhs)
termination_by rank s.topState
decreasing_by exact hlt

end Automaton

end UnitLang
