/-
# What may come next

The table reduces by looking at one token.  For each nonterminal `follow` lists the kinds that
may come behind it in a program, and for each symbol `first` lists those with which it may begin.
The two lists are checked against the productions (`exists_first_of_derives`,
`followedBy_rhs`), and then the table against the lists (`table_walks`): from every state that
has a way on by a nonterminal, the automaton can walk along each of its right-hand sides, and
where it ends up it reduces by that production, whichever kind that may follow comes next.

This is what completeness needs: wherever a derivation has to go, the table goes too.
-/
import UnitLang.Grammar.Derivation
import UnitLang.Proofs.Automaton.Path

namespace UnitLang

open Grammar Nonterminal

/-! ## 1. Beginnings -/

namespace Grammar

/-- The kinds with which what a symbol derives may begin. -/
def first : Symbol → List Kind
  | .terminal k => [k]
  | .nonterminal A =>
    match A with
    | ident | path | imported | importList => [.identifier]
    | unitDecl => [.unitKw]
    | usesDecl => [.usesKw]
    | clause | program | start => [.unitKw, .usesKw]

/-- The kinds that come next if these symbols do and `after` may come behind them. -/
def firsts (after : List Kind) : List Symbol → List Kind
  | [] => after
  | X :: _ => first X

/-- A left-hand side begins as its right-hand side does. -/
theorem firsts_rhs_subset {p : Production} (hp : p ∈ productions) :
    ∀ k ∈ firsts [] p.rhs, k ∈ first (.nonterminal p.lhs) := by
  revert p
  decide

/-- What a symbol derives is not empty and begins with one of its first kinds. -/
theorem exists_first_of_derives {X : Symbol} {w : List Kind} (h : Derives X w) :
    ∃ k v, w = k :: v ∧ k ∈ first X := by
  refine Derives.rec (motive_1 := fun X w _ => ∃ k v, w = k :: v ∧ k ∈ first X)
    (motive_2 := fun Xs w _ => Xs ≠ [] → ∃ k v, w = k :: v ∧ k ∈ firsts [] Xs) ?_ ?_ ?_ ?_ h
  · intro k
    exact ⟨k, [], rfl, List.mem_singleton_self k⟩
  · intro p w hp _ ih
    have hne : p.rhs ≠ [] := List.ne_nil_of_length_pos (length_pos hp)
    obtain ⟨k, v, rfl, hk⟩ := ih hne
    exact ⟨k, v, rfl, firsts_rhs_subset hp k hk⟩
  · intro hne
    exact absurd rfl hne
  · intro X Xs v w _ _ ih _ _
    obtain ⟨k, v, rfl, hk⟩ := ih
    exact ⟨k, v ++ w, rfl, hk⟩

/-! ## 2. Followers -/

/-- The kinds that may come behind a nonterminal. -/
def follow : Nonterminal → List Kind
  | ident | path => [.semicolon, .dot, .backslash, .asKw, .comma]
  | imported => [.semicolon, .asKw, .comma]
  | importList => [.semicolon, .comma]
  | unitDecl | usesDecl | clause => [.semicolon]
  | program => [.unitKw, .usesKw, .endOfInput]
  | start => [.endOfInput]

theorem follow_ne_nil (A : Nonterminal) : follow A ≠ [] := by cases A <;> decide

/-- Whether each nonterminal among the symbols is followed only by what may follow it, when
`after` may come behind them all. -/
def followedBy (after : List Kind) : List Symbol → Bool
  | [] => true
  | .terminal _ :: Xs => followedBy after Xs
  | .nonterminal A :: Xs => (firsts after Xs).all (· ∈ follow A) && followedBy after Xs

/-- A right-hand side followed by what may follow its left-hand side keeps to the lists. -/
theorem followedBy_rhs {p : Production} (hp : p ∈ productions) :
    followedBy (follow p.lhs) p.rhs = true := by
  revert p
  decide

end Grammar

/-! ## 3. Walks of the automaton -/

namespace Automaton

/-- Where the symbols lead to from a state, one after the other. -/
def walk (state : Nat) : List Symbol → Option Nat
  | [] => some state
  | X :: Xs => (next? state X).bind fun next => walk next Xs

theorem walk_cons_iff {state last : Nat} {X : Symbol} {Xs : List Symbol} :
    walk state (X :: Xs) = some last ↔
      ∃ next, next? state X = some next ∧ walk next Xs = some last := by
  simp [walk, Option.bind_eq_some_iff]

theorem walk_singleton_iff {state last : Nat} {X : Symbol} :
    walk state [X] = some last ↔ next? state X = some last := by
  simp [walk]

/-- **The table goes wherever a production goes.**  From a state with a way on by the left-hand
side one can walk along the right-hand side, and reduces there before all that may follow. -/
theorem table_walks {state next id : Nat} {p : Production}
    (hp : production? id = some p) (h : next? state (.nonterminal p.lhs) = some next) :
    ∃ last, walk state p.rhs = some last ∧
      ∀ k ∈ follow p.lhs, lookup? last (.terminal k) = some (.reduce id) := by
  have key := lookup?_induction (P := fun state X _ =>
    ∀ q ∈ productions.zipIdx, X = .nonterminal q.1.lhs →
      (walk state q.1.rhs).any fun last =>
        (follow q.1.lhs).all fun k => lookup? last (.terminal k) = some (.reduce q.2))
    (by decide +kernel) (next?_nonterminal_iff.mp h)
  have hmem : (p, id) ∈ productions.zipIdx := by
    rw [List.mem_zipIdx_iff_getElem?]
    exact hp
  simpa [Option.any_eq_true] using key _ hmem rfl

end Automaton

end UnitLang
