/-
# Sentences, clause by clause

A sentence is a row of clauses, each ended by a semicolon, and a clause has no semicolon in it.
`IsClauses` says so from the left to the right, where the grammar builds programs on their left;
`isSentence_iff` says that both are the same.

So where a sentence ends can be told from its beginning.  Behind a sentence there is a sentence
just when both together are one (`IsSentence.append_iff`), and what may go on behind a sentence is
what may begin one (`IsSentence.isViable_append_iff`).
-/
import UnitLang.Grammar.Derivation
import Mathlib.Data.List.Basic

namespace UnitLang.Grammar

/-! ## 1. What is not derived -/

/-- Good symbols do not derive a kind that is not good, if all productions of a good symbol have
good symbols alone. -/
theorem notMem_of_derives {k : Kind} (good : Symbol → Prop) (hk : ¬ good (.terminal k))
    (hrhs : ∀ p ∈ productions, good (.nonterminal p.lhs) → ∀ Y ∈ p.rhs, good Y) {X : Symbol}
    {w : List Kind} (h : Derives X w) (hX : good X) : k ∉ w := by
  refine Derives.rec (motive_1 := fun X w _ => good X → k ∉ w)
    (motive_2 := fun Xs w _ => (∀ Y ∈ Xs, good Y) → k ∉ w) ?_ ?_ ?_ ?_ h hX
  · intro j hj hmem
    rw [List.mem_singleton.mp hmem] at hk
    exact hk hj
  · intro p w hp _ ih hlhs
    exact ih (hrhs p hp hlhs)
  · intro _ hmem
    cases hmem
  · intro Y Ys v w _ _ ihY ihYs hgood hmem
    obtain ⟨hY, hYs⟩ := List.forall_mem_cons.mp hgood
    rcases List.mem_append.mp hmem with hmem | hmem
    · exact ihY hY hmem
    · exact ihYs hYs hmem

/-- The end of the input is not among what a symbol other than itself derives. -/
theorem endOfInput_notMem_of_derives {X : Symbol} {w : List Kind} (h : Derives X w)
    (hX : X ≠ .terminal .endOfInput) : Kind.endOfInput ∉ w :=
  notMem_of_derives (· ≠ .terminal .endOfInput) (by simp) (by decide) h hX

/-- A clause has no semicolon in it. -/
theorem semicolon_notMem_of_derives {w : List Kind} (h : Derives (.nonterminal .clause) w) :
    Kind.semicolon ∉ w :=
  notMem_of_derives (· ∉ [.terminal .semicolon, .nonterminal .program, .nonterminal .start])
    (by simp) (by decide) h (by decide)

/-! ## 2. Rows of clauses -/

/-- Clauses, each with its semicolon, one behind the other. -/
inductive IsClauses : List Kind → Prop where
  | nil : IsClauses []
  | cons {c w : List Kind} :
      Derives (.nonterminal .clause) c → IsClauses w → IsClauses (c ++ .semicolon :: w)

section Rows

variable {c v w : List Kind}

theorem IsClauses.append (hv : IsClauses v) (hw : IsClauses w) : IsClauses (v ++ w) := by
  induction hv with
  | nil => exact hw
  | cons hc _ ih =>
    rw [List.append_assoc]
    exact .cons hc ih

/-- **Where a row of clauses ends shows**: if more behind it makes a row too, that is a row. -/
theorem IsClauses.of_append (hv : IsClauses v) (h : IsClauses (v ++ w)) : IsClauses w := by
  induction hv with
  | nil => exact h
  | @cons c v hc _ ih =>
    generalize hrow : (c ++ .semicolon :: v) ++ w = row at h
    cases h with
    | nil => simp at hrow
    | @cons c' v' hc' hv' =>
      rw [List.append_assoc, List.cons_append] at hrow
      -- Neither clause has a semicolon, so both end at the first one.
      have hlen : c.length = c'.length := by
        have hfirst := congrArg (List.idxOf .semicolon) hrow
        rw [List.idxOf_append_of_notMem (semicolon_notMem_of_derives hc),
          List.idxOf_append_of_notMem (semicolon_notMem_of_derives hc')] at hfirst
        simpa using hfirst
      obtain ⟨-, htail⟩ := List.append_inj hrow hlen
      obtain ⟨-, rfl⟩ := List.cons_eq_cons.mp htail
      exact ih hv'

/-! ## 3. Sentences -/

/-- A program begins with a clause. -/
def firstClause : Production :=
  ⟨.program, [.nonterminal .clause, .terminal .semicolon], .firstClause⟩

/-- A program goes on with a clause. -/
def nextClause : Production :=
  ⟨.program, [.nonterminal .program, .nonterminal .clause, .terminal .semicolon], .nextClause⟩

theorem firstClause_mem : firstClause ∈ productions := by decide

theorem nextClause_mem : nextClause ∈ productions := by decide

/-- There are no other productions of a program. -/
theorem eq_of_lhs_eq_program {p : Production} (hp : p ∈ productions) (h : p.lhs = .program) :
    p = firstClause ∨ p = nextClause := by
  revert h p
  decide

theorem derivesAll_clause_iff :
    DerivesAll [.nonterminal .clause, .terminal .semicolon] w ↔
      ∃ c, w = c ++ [.semicolon] ∧ Derives (.nonterminal .clause) c := by
  constructor
  · intro h
    obtain ⟨c, _, rfl, hc, hs⟩ := derivesAll_cons_iff.mp h
    rw [derives_terminal_iff.mp (derivesAll_singleton_iff.mp hs)]
    exact ⟨c, rfl, hc⟩
  · rintro ⟨c, rfl, hc⟩
    exact .cons hc (derivesAll_singleton_iff.mpr (.terminal .semicolon))

/-- One clause is a sentence. -/
theorem isSentence_clause (hc : Derives (.nonterminal .clause) c) :
    IsSentence (c ++ [.semicolon]) :=
  .nonterminal firstClause_mem (derivesAll_clause_iff.mpr ⟨c, rfl, hc⟩)

/-- A sentence and one more clause are a sentence. -/
theorem IsSentence.append_clause (hv : IsSentence v) (hc : Derives (.nonterminal .clause) c) :
    IsSentence (v ++ (c ++ [.semicolon])) :=
  .nonterminal nextClause_mem (.cons hv (derivesAll_clause_iff.mpr ⟨c, rfl, hc⟩))

/-- A sentence and more clauses are a sentence. -/
theorem IsSentence.append_clauses (hv : IsSentence v) (hw : IsClauses w) :
    IsSentence (v ++ w) := by
  induction hw generalizing v with
  | nil => simpa using hv
  | cons hc _ ih => simpa using ih (hv.append_clause hc)

/-- A sentence is one clause, or a sentence and one more. -/
theorem isSentence_cases (h : IsSentence v) :
    (∃ c, v = c ++ [.semicolon] ∧ Derives (.nonterminal .clause) c) ∨
      ∃ u c, v = u ++ (c ++ [.semicolon]) ∧ IsSentence u ∧ Derives (.nonterminal .clause) c := by
  unfold IsSentence at h
  generalize hX : Symbol.nonterminal .program = X at h
  cases h with
  | terminal k => cases hX
  | @nonterminal p w hp hrhs =>
    rcases eq_of_lhs_eq_program hp (Symbol.nonterminal.inj hX).symm with rfl | rfl
    · exact .inl (derivesAll_clause_iff.mp hrhs)
    · obtain ⟨u, _, rfl, hu, hrest⟩ := derivesAll_cons_iff.mp hrhs
      obtain ⟨c, rfl, hc⟩ := derivesAll_clause_iff.mp hrest
      exact .inr ⟨u, c, rfl, hu, hc⟩

theorem IsSentence.isClauses (h : IsSentence v) : IsClauses v := by
  induction v using (measure List.length).wf.induction with
  | _ v ih =>
    rcases isSentence_cases h with ⟨c, rfl, hc⟩ | ⟨u, c, rfl, hu, hc⟩
    · exact .cons hc .nil
    · have hlt : u.length < (u ++ (c ++ [Kind.semicolon])).length := by
        simp only [List.length_append, List.length_singleton]
        omega
      exact (ih u hlt hu).append (.cons hc .nil)

theorem IsSentence.ne_nil (h : IsSentence v) : v ≠ [] := by
  rcases isSentence_cases h with ⟨c, rfl, -⟩ | ⟨u, c, rfl, -, -⟩
  · simp
  · simp

/-- **A sentence is a row of clauses** that is not empty. -/
theorem isSentence_iff : IsSentence v ↔ IsClauses v ∧ v ≠ [] := by
  constructor
  · intro h
    exact ⟨h.isClauses, h.ne_nil⟩
  · rintro ⟨h, hne⟩
    cases h with
    | nil => exact absurd rfl hne
    | cons hc hw => simpa using (isSentence_clause hc).append_clauses hw

/-- Behind a sentence, a sentence is what makes both together one. -/
theorem IsSentence.append_iff (hv : IsSentence v) (hne : w ≠ []) :
    IsSentence (v ++ w) ↔ IsSentence w := by
  constructor
  · intro h
    exact isSentence_iff.mpr ⟨hv.isClauses.of_append h.isClauses, hne⟩
  · intro hw
    exact hv.append_clauses hw.isClauses

/-- Behind a sentence, what may go on is what may begin one. -/
theorem IsSentence.isViable_append_iff (hv : IsSentence v) : IsViable (v ++ w) ↔ IsViable w := by
  constructor
  · rintro ⟨z, hz⟩
    rw [List.append_assoc] at hz
    by_cases hne : w ++ z = []
    · obtain ⟨rfl, -⟩ := List.append_eq_nil_iff.mp hne
      exact ⟨v, hv⟩
    · exact ⟨z, (hv.append_iff hne).mp hz⟩
  · rintro ⟨z, hz⟩
    refine ⟨z, ?_⟩
    rw [List.append_assoc]
    exact hv.append_clauses hz.isClauses

end Rows

end UnitLang.Grammar
