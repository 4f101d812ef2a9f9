/-
# What the grammar derives

`Derives X w` says that the symbol `X` derives the kinds `w`: a terminal derives itself, and a
nonterminal derives what one of its right-hand sides does, symbol by symbol.  The relation is
read off the productions and knows nothing of the parse table.

`DerivesAll.append` and `derivesAll_append_iff`: sequences derive piece by piece, so a derivation
can be cut and joined at any symbol.
-/
import UnitLang.Grammar.Basic

namespace UnitLang.Grammar

mutual

/-- A symbol derives a sequence of kinds. -/
inductive Derives : Symbol → List Kind → Prop where
  | terminal (k : Kind) : Derives (.terminal k) [k]
  | nonterminal {p : Production} {w : List Kind} :
      p ∈ productions → DerivesAll p.rhs w → Derives (.nonterminal p.lhs) w

/-- A sequence of symbols derives a sequence of kinds, symbol by symbol. -/
inductive DerivesAll : List Symbol → List Kind → Prop where
  | nil : DerivesAll [] []
  | cons {X : Symbol} {Xs : List Symbol} {v w : List Kind} :
      Derives X v → DerivesAll Xs w → DerivesAll (X :: Xs) (v ++ w)

end

/-- The kinds of a complete program, the end of the input not among them. -/
def IsSentence (w : List Kind) : Prop := Derives (.nonterminal .program) w

/-- The kinds with which some complete program begins. -/
def IsViable (w : List Kind) : Prop := ∃ v, IsSentence (w ++ v)

theorem derives_terminal_iff {k : Kind} {w : List Kind} : Derives (.terminal k) w ↔ w = [k] := by
  constructor
  · intro h
    cases h
    rfl
  · rintro rfl
    exact .terminal k

theorem derivesAll_nil_iff {w : List Kind} : DerivesAll [] w ↔ w = [] := by
  constructor
  · intro h
    cases h
    rfl
  · rintro rfl
    exact .nil

theorem derivesAll_cons_iff {X : Symbol} {Xs : List Symbol} {w : List Kind} :
    DerivesAll (X :: Xs) w ↔ ∃ u v, w = u ++ v ∧ Derives X u ∧ DerivesAll Xs v := by
  constructor
  · intro h
    cases h with
    | cons hX hXs => exact ⟨_, _, rfl, hX, hXs⟩
  · rintro ⟨u, v, rfl, hX, hXs⟩
    exact .cons hX hXs

theorem derivesAll_singleton_iff {X : Symbol} {w : List Kind} :
    DerivesAll [X] w ↔ Derives X w := by
  constructor
  · intro h
    obtain ⟨u, v, rfl, hX, hv⟩ := derivesAll_cons_iff.mp h
    rw [derivesAll_nil_iff.mp hv, List.append_nil]
    exact hX
  · intro h
    simpa using DerivesAll.cons h .nil

theorem DerivesAll.append {Xs Ys : List Symbol} {v w : List Kind} (hX : DerivesAll Xs v)
    (hY : DerivesAll Ys w) : DerivesAll (Xs ++ Ys) (v ++ w) := by
  induction Xs generalizing v with
  | nil =>
    rw [derivesAll_nil_iff.mp hX]
    exact hY
  | cons X Xs ih =>
    obtain ⟨a, b, rfl, ha, hb⟩ := derivesAll_cons_iff.mp hX
    rw [List.append_assoc]
    exact .cons ha (ih hb)

/-- What two sequences of symbols derive together is what the first derives, followed by what the
second derives. -/
theorem derivesAll_append_iff {Xs Ys : List Symbol} {w : List Kind} :
    DerivesAll (Xs ++ Ys) w ↔ ∃ u v, w = u ++ v ∧ DerivesAll Xs u ∧ DerivesAll Ys v := by
  constructor
  · intro h
    induction Xs generalizing w with
    | nil => exact ⟨[], w, rfl, .nil, h⟩
    | cons X Xs ih =>
      obtain ⟨a, b, rfl, ha, hb⟩ := derivesAll_cons_iff.mp h
      obtain ⟨u, v, rfl, hu, hv⟩ := ih hb
      exact ⟨a ++ u, v, by rw [List.append_assoc], .cons ha hu, hv⟩
  · rintro ⟨u, v, rfl, hu, hv⟩
    exact hu.append hv

end UnitLang.Grammar
