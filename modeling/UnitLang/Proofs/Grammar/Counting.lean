/-
# How long a rightmost derivation is

The number of steps in a derivation of some kinds depends on the kinds alone.  Each kind brings
along a number of steps (`steps`): `unit` those that make a clause of one name and add it to the
program, a dot those that make a name and add it to its path, and so on.

The proof weighs forms.  A terminal weighs the steps that it brings along, and a nonterminal what
makes every step of the grammar add just one (`weight_rhs`), which may be less than nothing.  A
program weighs nothing, so the weight of the kinds it derives is the number of the steps.
-/
import UnitLang.Proofs.Grammar.Rightmost

namespace UnitLang.Grammar

open Nonterminal

/-- The steps of a derivation that a kind brings along. -/
def steps : Kind → Nat
  | .unitKw => 5
  | .usesKw => 7
  | .comma => 4
  | .dot => 2
  | .asKw => 2
  | .backslash => 1
  | _ => 0

/-- The steps that kinds bring along together. -/
def stepsAll : List Kind → Nat
  | [] => 0
  | k :: w => steps k + stepsAll w

/-- What a symbol weighs in a form. -/
def weight : Symbol → Int
  | .terminal k => steps k
  | .nonterminal A =>
    match A with
    | ident => -1
    | path => -2
    | imported => -3
    | importList => -4
    | unitDecl | usesDecl => 2
    | clause => 1
    | program => 0
    | start => -1

/-- What the symbols of a form weigh together. -/
def weightAll : List Symbol → Int
  | [] => 0
  | X :: Xs => weight X + weightAll Xs

theorem weightAll_append (Xs Ys : List Symbol) :
    weightAll (Xs ++ Ys) = weightAll Xs + weightAll Ys := by
  induction Xs with
  | nil => simp [weightAll]
  | cons X Xs ih => rw [List.cons_append, weightAll, weightAll, ih, Int.add_assoc]

/-- A right-hand side weighs one more than its left-hand side. -/
theorem weight_rhs {p : Production} (hp : p ∈ productions) :
    weightAll p.rhs = weight (.nonterminal p.lhs) + 1 := by
  revert p
  decide

section Steps

variable {Xs Ys : List Symbol} {id : Nat} {ids : List Nat} {w : List Kind}

theorem RightStep.weightAll_eq (h : RightStep id Xs Ys) : weightAll Ys = weightAll Xs + 1 := by
  obtain ⟨front, w, hp⟩ := h
  have hrhs := weight_rhs (mem_of_production? hp)
  rw [weightAll_append, weightAll_append, weightAll_append, hrhs, weightAll]
  omega

theorem RightDerives.weightAll_eq (h : RightDerives Xs ids Ys) :
    weightAll Ys = weightAll Xs + ids.length := by
  induction h with
  | nil Xs => simp
  | cons hstep _ ih =>
    rw [ih, hstep.weightAll_eq, List.length_cons]
    omega

theorem weightAll_leaves (w : List Kind) : weightAll (leaves w) = stepsAll w := by
  induction w with
  | nil => rfl
  | cons k w ih =>
    rw [leaves_cons, weightAll, ih, stepsAll, weight]
    omega

/-- **A derivation from a program has the steps that its kinds bring along.** -/
theorem RightDerives.length_eq_stepsAll (h : RightDerives [.nonterminal program] ids (leaves w)) :
    ids.length = stepsAll w := by
  have hweight := h.weightAll_eq
  have hprogram : weightAll [.nonterminal program] = 0 := by decide
  rw [weightAll_leaves, hprogram] at hweight
  omega

/-- The steps, kind by kind. -/
theorem stepsAll_eq (w : List Kind) :
    stepsAll w = 5 * w.count .unitKw + 7 * w.count .usesKw + 4 * w.count .comma +
      2 * w.count .dot + 2 * w.count .asKw + w.count .backslash := by
  induction w with
  | nil => rfl
  | cons k w ih =>
    rw [stepsAll, ih]
    cases k <;> simp [steps] <;> omega

end Steps

end UnitLang.Grammar
