/-
# Two bounds of the automaton

Each state has two numbers that bound what the parser can do with it on top of the stack.

`deepest` is the greatest number of symbols on such a stack.  It grows with every step of the
automaton (`deepest_lt_of_next?`), so no path of the automaton passes through a state twice.  That
it can grow with every step is due to the lists of the grammar, which are all built on their left:
an item is part of its list before the next one is read.

`pending` is the greatest number of reductions that may follow each other from such a stack on,
before a token is shifted.  It falls with every reduction, whichever state the reduction uncovers
(`table_settles`).  The depth of the stack would not do as a measure, since a production of a
single symbol keeps it.
-/
import UnitLang.Proofs.Automaton.Path

namespace UnitLang.Automaton

/-- A number of a state is within the bound of all. -/
theorem getD_le {ns : List Nat} {n : Nat} (h : ∀ m ∈ ns, m ≤ n) (state : Nat) :
    ns.getD state 0 ≤ n := by
  rw [List.getD_eq_getElem?_getD]
  cases hm : ns[state]? with
  | none => exact Nat.zero_le n
  | some m => exact h m (List.mem_of_getElem? hm)

/-! ## 1. The depth of a stack -/

/-- The greatest depths of the stacks, by the states on top. -/
def depths : List Nat :=
  [0, 1, 1, 2, 2, 2, 2, 2, 3, 3, 5, 7, 6, 7, 3, 3, 5, 4, 5, 6, 7, 6, 7, 2]

/-- The greatest depth of a stack with `state` on top. -/
def deepest (state : Nat) : Nat := depths.getD state 0

theorem deepest_le (state : Nat) : deepest state ≤ 7 := getD_le (by decide) state

/-- Every step leads to a state for deeper stacks. -/
theorem deepest_lt_of_next? {state next : Nat} {X : Symbol} (h : next? state X = some next) :
    deepest state < deepest next := by
  obtain ⟨entry, he, hn⟩ := Option.bind_eq_some_iff.mp h
  have key := lookup?_induction (P := fun state _ entry =>
    entry.target?.all fun next => deepest state < deepest next) (by decide) he
  simpa [hn] using key

/-- **A stack is no deeper than the state on top allows.** -/
theorem Path.depth_le {s : ParseStack} {Xs : List Symbol} (h : Path s Xs) :
    s.depth ≤ deepest s.topState := by
  induction h with
  | empty => decide
  | push v _ hn ih =>
    have hlt := deepest_lt_of_next? hn
    rw [ParseStack.depth_push, ParseStack.topState_push]
    omega

/-! ## 2. Reductions that follow each other -/

/-- The greatest numbers of reductions before a shift, by the states on top. -/
def pendings : List Nat :=
  [0, 0, 0, 1, 1, 0, 0, 0, 1, 2, 5, 6, 0, 5, 2, 3, 4, 0, 3, 0, 4, 0, 4, 1]

/-- The greatest number of reductions before a shift, with `state` on top. -/
def pending (state : Nat) : Nat := pendings.getD state 0

theorem pending_le (state : Nat) : pending state ≤ 6 := getD_le (by decide) state

/-- Where the table reduces, the state below the right-hand side goes on by the left-hand side to
a state with fewer reductions before it. -/
theorem table_settles {state id : Nat} {X : Symbol} (h : lookup? state X = some (.reduce id)) :
    ∃ p, Grammar.production? id = some p ∧
      uncovers (fun s => (next? s (.nonterminal p.lhs)).any (pending · < pending state))
        p.rhs.reverse state = true := by
  have key := lookup?_induction (P := fun state _ entry =>
    entry.production?.all fun id =>
      (Grammar.production? id).any fun p =>
        uncovers (fun s => (next? s (.nonterminal p.lhs)).any (pending · < pending state))
          p.rhs.reverse state = true)
    (by decide +kernel) h
  simpa [Entry.production?, Option.any_eq_true] using key

end UnitLang.Automaton
