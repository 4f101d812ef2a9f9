/-
# The first item that cannot go on

The parser fails at the first item with which what it has read is not the beginning of a program
any more, and never later, although the table may let it reduce several times before it notices.

Tokens have one of two effects on a parser at its beginning, whatever comes behind them.  Either
they lead to a stack that holds them (`Reads`), and every stack can be finished to a program, so
they are the beginning of one.  Or one of them is an error (`StopsAt`), and then no program begins
so, because it would be accepted.  Hence tokens are read just when they are viable
(`isViable_iff_reads`).

`Items.Fails` says which item of a text is the first that cannot go on and what error it is, by
the grammar alone.  There is at most one such error (`Items.Fails.unique`), and there is none in a
sentence.  The error of a parse is this one (`answer_error_iff_fails`).
-/
import UnitLang.Proofs.Automaton.Completion
import UnitLang.Proofs.Parser.Acceptance
import Mathlib.Data.List.Induction

namespace UnitLang

open Grammar

/-! ## 1. Viable beginnings -/

section Viable

variable {s : ParseStack} {ts us before after : List Token} {t : Token}

/-- The beginning of a viable beginning is one. -/
theorem Grammar.IsViable.of_append {u v : List Kind} (h : IsViable (u ++ v)) : IsViable u := by
  obtain ⟨w, hw⟩ := h
  exact ⟨v ++ w, by simpa using hw⟩

/-- The tokens before a place are viable if those up to a later place are. -/
theorem isViable_of_beginning (h : IsViable (us.map (·.kind))) (hpre : ts <+: us) :
    IsViable (ts.map (·.kind)) := by
  obtain ⟨vs, rfl⟩ := hpre
  rw [List.map_append] at h
  exact h.of_append

/-- A stack can be finished, so the tokens it holds are viable. -/
theorem ParseStack.Holds.isViable (h : s.Holds ts) : IsViable (ts.map (·.kind)) := by
  obtain ⟨Xs, hpath, hb⟩ := h
  obtain ⟨v, hv⟩ := hpath.exists_completion
  exact ⟨v, hv _ hb.derivesAll⟩

/-- From the beginning, the tokens lead to this stack, whatever comes behind them. -/
structure Reads (ts : List Token) (s : ParseStack) : Prop where
  holds : s.Holds ts
  answer_append (us : List Token) (e : Ending) :
    answer (ts ++ us) e .empty = answer us e s

/-- Behind these tokens, the next is an error, whatever comes behind it. -/
def StopsAt (before : List Token) (t : Token) : Prop :=
  ∀ us e, answer (before ++ t :: us) e .empty =
    .error ⟨.unexpectedToken t.value, t.span.start⟩

/-- Tokens are read, or one of them is an error. -/
theorem reads_or_stops (hts : ∀ t ∈ ts, t.kind ≠ .endOfInput) :
    (∃ s, Reads ts s) ∨
      ∃ before t after, ts = before ++ t :: after ∧ (∃ s, Reads before s) ∧ StopsAt before t := by
  induction ts using List.reverseRecOn with
  | nil => exact .inl ⟨.empty, ParseStack.holds_empty, fun _ _ => rfl⟩
  | append_singleton ts t ih =>
    obtain ⟨hts, ht⟩ := List.forall_mem_append.mp hts
    rcases ih hts with ⟨s, hs⟩ | ⟨before, t', after, rfl, hbefore, hstops⟩
    · rcases hs.holds.answer_cons t (ht t (List.mem_singleton_self t)) with
        ⟨s', hholds, heq⟩ | heq
      · refine .inl ⟨s', hholds, fun us e => ?_⟩
        rw [List.append_assoc, hs.answer_append]
        exact heq us e
      · refine .inr ⟨ts, t, [], rfl, ⟨s, hs⟩, fun us e => ?_⟩
        rw [hs.answer_append, heq]
    · exact .inr ⟨before, t', after ++ [t], by simp, hbefore, hstops⟩

/-- No program begins with an error: it would be accepted. -/
theorem StopsAt.not_isViable (h : StopsAt before t) :
    ¬ IsViable ((before ++ [t]).map (·.kind)) := by
  rintro ⟨v, hv⟩
  -- Any tokens of the kinds `v` will do.
  obtain ⟨us, rfl⟩ : ∃ us : List Token, us.map (·.kind) = v :=
    ⟨v.map fun k => ⟨k, "", default⟩, by simp [Function.comp_def]⟩
  rw [← List.map_append] at hv
  obtain ⟨n, hn⟩ := exists_answer_of_isSentence .start hv
  rw [List.append_assoc, List.singleton_append, h] at hn
  cases hn

/-- **Tokens are read just when they are viable.** -/
theorem isViable_iff_reads (hts : ∀ t ∈ ts, t.kind ≠ .endOfInput) :
    IsViable (ts.map (·.kind)) ↔ ∃ s, Reads ts s := by
  constructor
  · intro h
    rcases reads_or_stops hts with hs | ⟨before, t, after, rfl, -, hstops⟩
    · exact hs
    · exact absurd (isViable_of_beginning h ⟨after, by simp⟩) hstops.not_isViable
  · rintro ⟨s, hs⟩
    exact hs.holds.isViable

end Viable

/-! ## 2. The first error of some items -/

/-- The first of the items that cannot go on, as an error: a token with which the beginning is not
viable any more, the end of the input behind a beginning that is no program yet, or the error
that ends the items. -/
inductive Items.Fails (is : Items) : Error → Prop where
  | token {before after : List Token} {t : Token} :
      is.tokens = before ++ t :: after → IsViable (before.map (·.kind)) →
      ¬ IsViable ((before ++ [t]).map (·.kind)) →
      Fails is ⟨.unexpectedToken t.value, t.span.start⟩
  | ended {p : Position} :
      is.ending = .ended p → IsViable (is.tokens.map (·.kind)) →
      ¬ IsSentence (is.tokens.map (·.kind)) → Fails is ⟨.unexpectedEndOfInput, p⟩
  | lexical {e : Error} :
      is.ending = .failed e → IsViable (is.tokens.map (·.kind)) → Fails is e

namespace Items.Fails

variable {is : Items} {e e' : Error}

/-- Where one token is the first that cannot go on, the tokens are not viable. -/
theorem not_isViable {before after : List Token} {t : Token}
    (h : is.tokens = before ++ t :: after) (hbad : ¬ IsViable ((before ++ [t]).map (·.kind))) :
    ¬ IsViable (is.tokens.map (·.kind)) := by
  intro hall
  exact hbad (isViable_of_beginning hall ⟨after, by simp [h]⟩)

/-- Of two tokens that cannot go on, the first is not behind the second. -/
theorem length_le {before after before' after' : List Token} {t t' : Token}
    (h : before ++ t :: after = before' ++ t' :: after')
    (hbad : ¬ IsViable ((before ++ [t]).map (·.kind)))
    (hgood : IsViable (before'.map (·.kind))) : before'.length ≤ before.length := by
  by_contra hlt
  have hpre : before ++ [t] <+: before' := by
    have hpre' : before ++ [t] <+: before' ++ t' :: after' := ⟨after, by simp [h]⟩
    exact List.prefix_of_prefix_length_le hpre' (List.prefix_append _ _) (by simp; omega)
  exact hbad (isViable_of_beginning hgood hpre)

/-- There is at most one first item that cannot go on. -/
theorem unique (h : is.Fails e) (h' : is.Fails e') : e = e' := by
  cases h with
  | token hts hgood hbad =>
    cases h' with
    | token hts' hgood' hbad' =>
      have heq := hts.symm.trans hts'
      have hlen := Nat.le_antisymm (length_le heq.symm hbad' hgood) (length_le heq hbad hgood')
      obtain ⟨rfl, htail⟩ := List.append_inj heq hlen
      cases htail
      rfl
    | ended _ hall _ => exact absurd hall (not_isViable hts hbad)
    | lexical _ hall => exact absurd hall (not_isViable hts hbad)
  | ended hend hall _ =>
    cases h' with
    | token hts' _ hbad' => exact absurd hall (not_isViable hts' hbad')
    | ended hend' _ _ => cases hend.symm.trans hend'; rfl
    | lexical hend' _ => cases hend.symm.trans hend'
  | lexical hend hall =>
    cases h' with
    | token hts' _ hbad' => exact absurd hall (not_isViable hts' hbad')
    | ended hend' _ _ => cases hend.symm.trans hend'
    | lexical hend' _ => cases hend.symm.trans hend'; rfl

/-- A sentence that is at its end has no such item. -/
theorem not_of_isSentence {p : Position} (h : is.Fails e) (hend : is.ending = .ended p) :
    ¬ IsSentence (is.tokens.map (·.kind)) := by
  intro hsentence
  have hall : IsViable (is.tokens.map (·.kind)) := ⟨[], by simpa using hsentence⟩
  cases h with
  | token hts _ hbad => exact not_isViable hts hbad hall
  | ended _ _ hnot => exact hnot hsentence
  | lexical hend' _ => cases hend.symm.trans hend'

end Items.Fails

/-- Items are answered with a tree or with an error at their first item that cannot go on. -/
theorem exists_answer_or_fails {is : Items} (hts : ∀ t ∈ is.tokens, t.kind ≠ .endOfInput) :
    (∃ n p, answer is.tokens is.ending .empty = .ok n ∧ is.ending = .ended p ∧
      IsSentence (is.tokens.map (·.kind))) ∨
    ∃ e, answer is.tokens is.ending .empty = .error e ∧ is.Fails e := by
  rcases reads_or_stops hts with ⟨s, hs⟩ | ⟨before, t, after, htoks, ⟨s, hs⟩, hstops⟩
  · have hanswer := hs.answer_append [] is.ending
    rw [List.append_nil] at hanswer
    cases hend : is.ending with
    | failed e =>
      rw [hend] at hanswer
      exact .inr ⟨e, hanswer, .lexical hend hs.holds.isViable⟩
    | ended p =>
      rw [hend] at hanswer
      rcases hs.holds.answer_nil with ⟨n, hb, heq⟩ | heq
      · exact .inl ⟨n, p, hanswer.trans (heq p), rfl, derivesAll_singleton_iff.mp hb.derivesAll⟩
      · refine .inr ⟨_, hanswer.trans (heq p), .ended hend hs.holds.isViable ?_⟩
        intro hsentence
        obtain ⟨n, hn⟩ := exists_answer_of_isSentence p hsentence
        cases hn.symm.trans (hanswer.trans (heq p))
  · refine .inr ⟨_, ?_, .token htoks hs.holds.isViable hstops.not_isViable⟩
    rw [htoks]
    exact hstops after is.ending

/-- **The error of a parse is at the first item that cannot go on.** -/
theorem answer_error_iff_fails {is : Items} {e : Error}
    (hts : ∀ t ∈ is.tokens, t.kind ≠ .endOfInput) :
    answer is.tokens is.ending .empty = .error e ↔ is.Fails e := by
  rcases exists_answer_or_fails hts with ⟨n, p, hn, hend, hsentence⟩ | ⟨e', he', hfails⟩
  · constructor
    · intro he
      cases hn.symm.trans he
    · intro h
      exact absurd hsentence (h.not_of_isSentence hend)
  · constructor
    · intro he
      cases he'.symm.trans he
      exact hfails
    · intro h
      rw [he', hfails.unique h]

end UnitLang
