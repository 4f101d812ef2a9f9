/-
# Rightmost derivations

A derivation can be written as a sequence of steps, each of which replaces one nonterminal of a
form by a right-hand side.  It is a rightmost one if it always replaces the last nonterminal, so
that only terminals stand behind the place of a step (`RightStep`).  The numbers of the productions
then say all about it (`RightDerives`).

A parser that reduces from the bottom up makes these steps in reverse.  Its first step is the last
of the derivation, which is why `RightDerives` can be taken apart at both ends.
-/
import UnitLang.Grammar.Derivation

namespace UnitLang.Grammar

/-- Kinds as symbols. -/
def leaves (w : List Kind) : List Symbol := w.map .terminal

@[simp] theorem leaves_nil : leaves [] = [] := rfl

@[simp] theorem leaves_cons (k : Kind) (w : List Kind) :
    leaves (k :: w) = .terminal k :: leaves w := rfl

@[simp] theorem leaves_append (v w : List Kind) : leaves (v ++ w) = leaves v ++ leaves w :=
  List.map_append

theorem nonterminal_notMem_leaves (A : Nonterminal) (w : List Kind) :
    Symbol.nonterminal A ∉ leaves w := by
  simp [leaves]

theorem leaves_inj {v w : List Kind} : leaves v = leaves w ↔ v = w :=
  List.map_inj_right fun _ _ h => Symbol.terminal.inj h

/-- The last nonterminal of a form is replaced by a right-hand side of the production `id`. -/
inductive RightStep (id : Nat) : List Symbol → List Symbol → Prop where
  | replace {p : Production} (front : List Symbol) (w : List Kind) : production? id = some p →
      RightStep id (front ++ .nonterminal p.lhs :: leaves w) (front ++ p.rhs ++ leaves w)

/-- Steps by these productions, in order, lead from one form to another. -/
inductive RightDerives : List Symbol → List Nat → List Symbol → Prop where
  | nil (Xs : List Symbol) : RightDerives Xs [] Xs
  | cons {Xs Ys Zs : List Symbol} {id : Nat} {ids : List Nat} :
      RightStep id Xs Ys → RightDerives Ys ids Zs → RightDerives Xs (id :: ids) Zs

section Steps

variable {Xs Ys Zs : List Symbol} {id : Nat} {ids : List Nat}

/-- A step does not touch terminals behind the form. -/
theorem RightStep.append_leaves (h : RightStep id Xs Ys) (v : List Kind) :
    RightStep id (Xs ++ leaves v) (Ys ++ leaves v) := by
  obtain ⟨front, w, hp⟩ := h
  simpa using RightStep.replace front (w ++ v) hp

theorem RightDerives.append_leaves (h : RightDerives Xs ids Ys) (v : List Kind) :
    RightDerives (Xs ++ leaves v) ids (Ys ++ leaves v) := by
  induction h with
  | nil Xs => exact .nil _
  | cons hstep _ ih => exact .cons (hstep.append_leaves v) ih

theorem rightDerives_nil_iff : RightDerives Xs [] Zs ↔ Zs = Xs := by
  constructor
  · intro h
    cases h
    rfl
  · rintro rfl
    exact .nil _

theorem rightDerives_cons_iff :
    RightDerives Xs (id :: ids) Zs ↔ ∃ Ys, RightStep id Xs Ys ∧ RightDerives Ys ids Zs := by
  constructor
  · intro h
    cases h with
    | cons hstep h => exact ⟨_, hstep, h⟩
  · rintro ⟨Ys, hstep, h⟩
    exact .cons hstep h

/-- The last step of a derivation. -/
theorem rightDerives_concat_iff :
    RightDerives Xs (ids ++ [id]) Zs ↔ ∃ Ys, RightDerives Xs ids Ys ∧ RightStep id Ys Zs := by
  induction ids generalizing Xs with
  | nil =>
    simp [rightDerives_cons_iff, rightDerives_nil_iff]
  | cons id' ids ih =>
    simp only [List.cons_append, rightDerives_cons_iff, ih]
    constructor
    · rintro ⟨Ws, hfirst, Ys, hmiddle, hlast⟩
      exact ⟨Ys, ⟨Ws, hfirst, hmiddle⟩, hlast⟩
    · rintro ⟨Ys, ⟨Ws, hfirst, hmiddle⟩, hlast⟩
      exact ⟨Ws, hfirst, Ys, hmiddle, hlast⟩

end Steps

/-- Only the first production makes the start symbol. -/
theorem eq_zero_of_lhs_eq_start {id : Nat} {p : Production} (hp : production? id = some p)
    (h : p.lhs = .start) : id = 0 ∧ p.rhs = [.nonterminal .program] := by
  have hmem : (p, id) ∈ productions.zipIdx := List.mem_zipIdx_iff_getElem?.mpr hp
  have key : ∀ q ∈ productions.zipIdx, q.1.lhs = .start →
      q.2 = 0 ∧ q.1.rhs = [.nonterminal .program] := by decide
  exact key _ hmem h

/-- A derivation from the start symbol goes on from a program. -/
theorem rightDerives_start_iff {ids : List Nat} {w : List Kind} :
    RightDerives [.nonterminal .start] ids (leaves w) ↔
      ∃ ids', ids = 0 :: ids' ∧ RightDerives [.nonterminal .program] ids' (leaves w) := by
  constructor
  · intro h
    cases ids with
    | nil =>
      have hleaves := rightDerives_nil_iff.mp h
      exact absurd (hleaves ▸ List.mem_cons_self) (nonterminal_notMem_leaves .start w)
    | cons id ids =>
      obtain ⟨Ys, hstep, hrest⟩ := rightDerives_cons_iff.mp h
      generalize hX : [Symbol.nonterminal .start] = Xs at hstep
      obtain ⟨front, v, hp⟩ := hstep
      rcases List.append_eq_singleton_iff.mp hX.symm with ⟨rfl, hlast⟩ | ⟨-, hlast⟩
      · obtain ⟨hlhs, hv⟩ := List.cons_eq_cons.mp hlast
        obtain ⟨rfl, hrhs⟩ := eq_zero_of_lhs_eq_start hp (Symbol.nonterminal.inj hlhs)
        rw [hv, hrhs] at hrest
        exact ⟨ids, rfl, hrest⟩
      · cases hlast
  · rintro ⟨ids', rfl, h⟩
    exact .cons (.replace [] [] (rfl : production? 0 = some productions[0])) h

end UnitLang.Grammar
