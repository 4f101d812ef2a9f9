/-
# There is only one rightmost derivation

What a rightmost step has put into a form can be found again: the automaton walks along the form
up to the end of the right-hand side, and there the table reduces by the production, because the
kind that comes next may follow it (`Grammar.RightForm.exists_handle`).  Two steps to the same form
are therefore one.  If one right-hand side ended before the other, the table would have to shift
there and to reduce (`Grammar.Handle.unique`).

So a derivation can be followed back from its end, one step at a time, and there is only one to
each form (`rightDerives_program_unique`).  The walks and the kinds that may follow are those that
the table was checked against (`Automaton.table_walks`); here they are kept along a derivation
(`RightForm`).
-/
import UnitLang.Proofs.Automaton.Lookahead
import UnitLang.Proofs.Grammar.Rightmost
import Mathlib.Data.List.Induction

namespace UnitLang

open Grammar Nonterminal
open Automaton (lookup? next? walk)

/-! ## 1. Walks and followers of appended symbols -/

section Appended

variable {Xs Ys : List Symbol} {after after' : List Kind} {state last : Nat}

theorem Automaton.walk_append_iff :
    walk state (Xs ++ Ys) = some last ↔
      ∃ middle, walk state Xs = some middle ∧ walk middle Ys = some last := by
  induction Xs generalizing state with
  | nil => simp [walk]
  | cons X Xs ih =>
    simp only [List.cons_append, Automaton.walk_cons_iff, ih]
    constructor
    · rintro ⟨next, hnext, middle, hXs, hYs⟩
      exact ⟨middle, ⟨next, hnext, hXs⟩, hYs⟩
    · rintro ⟨middle, ⟨next, hnext, hXs⟩, hYs⟩
      exact ⟨next, hnext, middle, hXs, hYs⟩

theorem Grammar.firsts_append (after : List Kind) (Xs Ys : List Symbol) :
    firsts after (Xs ++ Ys) = firsts (firsts after Ys) Xs := by
  cases Xs <;> rfl

theorem Grammar.followedBy_append :
    followedBy after (Xs ++ Ys) = (followedBy (firsts after Ys) Xs && followedBy after Ys) := by
  induction Xs with
  | nil => rfl
  | cons X Xs ih =>
    cases X with
    | terminal k => exact ih
    | nonterminal A =>
      rw [List.cons_append, followedBy, followedBy, ih, firsts_append, Bool.and_assoc]

/-- Fewer kinds behind the symbols do no harm. -/
theorem Grammar.followedBy_mono (h : followedBy after Xs = true) (hsub : ∀ k ∈ after', k ∈ after) :
    followedBy after' Xs = true := by
  induction Xs with
  | nil => rfl
  | cons X Xs ih =>
    cases X with
    | terminal k => exact ih h
    | nonterminal A =>
      simp only [followedBy, Bool.and_eq_true, List.all_eq_true, decide_eq_true_eq] at h ⊢
      refine ⟨fun k hk => h.1 k ?_, ih h.2⟩
      cases Xs with
      | nil => exact hsub k hk
      | cons Y Ys => exact hk

/-- A right-hand side in the place of its left-hand side keeps to the lists. -/
theorem Grammar.followedBy_replace {p : Production} (hp : p ∈ productions)
    (h : followedBy after (Xs ++ .nonterminal p.lhs :: Ys) = true) :
    followedBy after (Xs ++ p.rhs ++ Ys) = true := by
  simp only [followedBy_append, followedBy, Bool.and_eq_true, List.all_eq_true,
    decide_eq_true_eq] at h
  obtain ⟨hbefore, hlhs, hbehind⟩ := h
  rw [List.append_assoc, followedBy_append, followedBy_append, firsts_append, Bool.and_eq_true,
    Bool.and_eq_true]
  refine ⟨followedBy_mono hbefore fun k hk => ?_, followedBy_mono (followedBy_rhs hp) hlhs, hbehind⟩
  obtain ⟨X, Zs, hrhs⟩ := List.exists_cons_of_ne_nil (List.ne_nil_of_length_pos (length_pos hp))
  rw [hrhs] at hk
  exact firsts_rhs_subset hp k (by rw [hrhs]; exact hk)

/-- The kind that comes next, or the end of the input. -/
def Grammar.firstKind (w : List Kind) : Kind := w.headD .endOfInput

theorem Grammar.firsts_leaves (w : List Kind) :
    firsts [.endOfInput] (leaves w) = [firstKind w] := by
  cases w <;> rfl

end Appended

/-! ## 2. Forms of a rightmost derivation -/

/-- A form that may come up in a rightmost derivation of a program: each nonterminal is followed
by what may follow it, and the automaton can walk up to where only terminals are left. -/
structure Grammar.RightForm (Xs : List Symbol) : Prop where
  followed : followedBy [.endOfInput] Xs = true
  walks : ∃ Ys w state, Xs = Ys ++ leaves w ∧ walk 0 Ys = some state

/-- The automaton walks along these symbols, and where it ends up the table reduces by `id` before
the first of these kinds. -/
def Grammar.Handle (id : Nat) (Ys : List Symbol) (w : List Kind) : Prop :=
  ∃ last, walk 0 Ys = some last ∧ lookup? last (.terminal (firstKind w)) = some (.reduce id)

section Forms

variable {Xs Ys Ys' Zs front : List Symbol} {w w' : List Kind} {id id' : Nat} {ids ids' : List Nat}
  {p : Production}

/-- A nonterminal stands before the terminals at the end of a form. -/
theorem Grammar.exists_append_of_leaves {A : Nonterminal}
    (h : front ++ .nonterminal A :: Xs = Ys ++ leaves w) :
    ∃ Zs, Ys = front ++ .nonterminal A :: Zs := by
  rcases List.append_eq_append_iff.mp h with ⟨us, rfl, hus⟩ | ⟨us, rfl, hus⟩
  · cases us with
    | nil =>
      rw [List.nil_append] at hus
      exact absurd (hus ▸ List.mem_cons_self) (nonterminal_notMem_leaves A w)
    | cons X us =>
      obtain ⟨rfl, -⟩ := List.cons_eq_cons.mp hus
      exact ⟨us, rfl⟩
  · exact absurd (hus ▸ by simp) (nonterminal_notMem_leaves A w)

/-- A derivation of a program begins with such a form. -/
theorem Grammar.rightForm_program : RightForm [.nonterminal program] where
  followed := by decide
  walks := ⟨[.nonterminal program], [], 1, rfl, by decide⟩

/-- **The right-hand side that a step puts into a form is a handle there.** -/
theorem Grammar.RightForm.exists_handle (h : RightForm (front ++ .nonterminal p.lhs :: leaves w))
    (hp : production? id = some p) : Handle id (front ++ p.rhs) w := by
  obtain ⟨hfollowed, Ys, v, state, heq, hwalk⟩ := h
  obtain ⟨Zs, rfl⟩ := exists_append_of_leaves heq
  obtain ⟨middle, hfront, hwalk⟩ := Automaton.walk_append_iff.mp hwalk
  obtain ⟨next, hnext, -⟩ := Automaton.walk_cons_iff.mp hwalk
  obtain ⟨last, hrhs, hreduces⟩ := Automaton.table_walks hp hnext
  refine ⟨last, Automaton.walk_append_iff.mpr ⟨middle, hfront, hrhs⟩, hreduces _ ?_⟩
  simp only [followedBy_append, followedBy, firsts_leaves, Bool.and_eq_true, List.all_eq_true,
    decide_eq_true_eq, List.mem_singleton, forall_eq] at hfollowed
  exact hfollowed.2.1

/-- **A step keeps a form one of a rightmost derivation.** -/
theorem Grammar.RightForm.step (h : RightForm Xs) (hstep : RightStep id Xs Ys) : RightForm Ys := by
  obtain ⟨front, w, hp⟩ := hstep
  obtain ⟨last, hwalk, -⟩ := h.exists_handle hp
  exact ⟨followedBy_replace (mem_of_production? hp) h.followed, _, w, last, rfl, hwalk⟩

theorem Grammar.RightDerives.rightForm (h : RightDerives Xs ids Ys) (hX : RightForm Xs) :
    RightForm Ys := by
  induction h with
  | nil => exact hX
  | cons hstep _ ih => exact ih (hX.step hstep)

/-! ## 3. Following a derivation back -/

/-- Where a handle ends the table does not shift, so no other ends behind it. -/
theorem Grammar.Handle.eq_nil (h : Handle id Ys w) (h' : Handle id' (Ys ++ Zs) w')
    (hw : leaves w = Zs ++ leaves w') : Zs = [] := by
  cases Zs with
  | nil => rfl
  | cons Z Zs =>
    cases w with
    | nil => cases hw
    | cons k w =>
      obtain ⟨rfl, -⟩ := List.cons_eq_cons.mp hw
      obtain ⟨last, hwalk, hreduce⟩ := h
      obtain ⟨last', hwalk', -⟩ := h'
      obtain ⟨middle, hmiddle, hrest⟩ := Automaton.walk_append_iff.mp hwalk'
      obtain rfl : last = middle := Option.some.inj (hwalk.symm.trans hmiddle)
      obtain ⟨next, hnext, -⟩ := Automaton.walk_cons_iff.mp hrest
      cases hreduce.symm.trans (Automaton.next?_terminal_iff.mp hnext)

/-- **A form has at most one handle**: where it ends, and by which production. -/
theorem Grammar.Handle.unique (h : Handle id Ys w) (h' : Handle id' Ys' w')
    (heq : Ys ++ leaves w = Ys' ++ leaves w') : Ys = Ys' ∧ w = w' ∧ id = id' := by
  have hends : Ys = Ys' ∧ leaves w = leaves w' := by
    rcases List.append_eq_append_iff.mp heq with ⟨us, rfl, hus⟩ | ⟨us, rfl, hus⟩
    · obtain rfl := h.eq_nil h' hus
      exact ⟨(List.append_nil _).symm, hus⟩
    · obtain rfl := h'.eq_nil h hus
      exact ⟨List.append_nil _, hus.symm⟩
  obtain ⟨rfl, hw⟩ := hends
  obtain rfl := leaves_inj.mp hw
  obtain ⟨last, hwalk, hreduce⟩ := h
  obtain ⟨last', hwalk', hreduce'⟩ := h'
  obtain rfl : last = last' := Option.some.inj (hwalk.symm.trans hwalk')
  cases hreduce.symm.trans hreduce'
  exact ⟨rfl, rfl, rfl⟩

/-- **Two steps to the same form are one.** -/
theorem Grammar.RightStep.unique (h : RightStep id Xs Zs) (h' : RightStep id' Ys Zs)
    (hX : RightForm Xs) (hY : RightForm Ys) : id = id' ∧ Xs = Ys := by
  obtain ⟨front, w, hp⟩ := h
  generalize hZ : front ++ _ ++ leaves w = Zs at h'
  obtain ⟨front', w', hp'⟩ := h'
  obtain ⟨hends, rfl, rfl⟩ := (hX.exists_handle hp).unique (hY.exists_handle hp') hZ
  cases hp.symm.trans hp'
  obtain rfl := List.append_cancel_right hends
  exact ⟨rfl, rfl⟩

/-- No step leads to the form with which a derivation of a program begins: behind a program the
table accepts. -/
theorem Grammar.RightForm.not_rightStep_program (h : RightForm Xs) :
    ¬ RightStep id Xs [.nonterminal program] := by
  intro hstep
  generalize hY : [Symbol.nonterminal program] = Ys at hstep
  obtain ⟨front, w, hp⟩ := hstep
  obtain ⟨last, hwalk, hreduce⟩ := h.exists_handle hp
  obtain ⟨X, rest, hrhs⟩ :=
    List.exists_cons_of_ne_nil (List.ne_nil_of_length_pos (length_pos (mem_of_production? hp)))
  obtain rfl : w = [] := by
    have hlen := congrArg List.length hY
    simp only [hrhs, leaves, List.length_append, List.length_map, List.length_cons,
      List.length_nil] at hlen
    exact List.length_eq_zero_iff.mp (by omega)
  rw [leaves_nil, List.append_nil] at hY
  rw [← hY] at hwalk
  obtain rfl : 1 = last := Option.some.inj hwalk
  cases hreduce

/-- **There is only one rightmost derivation of a form from a program.**  The induction follows
both derivations back from their ends. -/
theorem Grammar.rightDerives_program_unique (h : RightDerives [.nonterminal program] ids Zs)
    (h' : RightDerives [.nonterminal program] ids' Zs) : ids = ids' := by
  induction ids using List.reverseRecOn generalizing Zs ids' with
  | nil =>
    obtain rfl := rightDerives_nil_iff.mp h
    rcases List.eq_nil_or_concat ids' with rfl | ⟨init, id, rfl⟩
    · rfl
    · rw [List.concat_eq_append] at h'
      obtain ⟨Ys, hinit, hlast⟩ := rightDerives_concat_iff.mp h'
      exact absurd hlast (hinit.rightForm rightForm_program).not_rightStep_program
  | append_singleton init id ih =>
    obtain ⟨Xs, hinit, hlast⟩ := rightDerives_concat_iff.mp h
    have hX := hinit.rightForm rightForm_program
    rcases List.eq_nil_or_concat ids' with rfl | ⟨init', id', rfl⟩
    · obtain rfl := rightDerives_nil_iff.mp h'
      exact absurd hlast hX.not_rightStep_program
    · rw [List.concat_eq_append] at h' ⊢
      obtain ⟨Ys, hinit', hlast'⟩ := rightDerives_concat_iff.mp h'
      obtain ⟨rfl, rfl⟩ := hlast.unique hlast' hX (hinit'.rightForm rightForm_program)
      rw [ih hinit hinit']

end Forms

end UnitLang
