/-
# Texts with another tail

What is read up to a place in a text depends on what stands there by one character only: each
match stops at the next character or goes on with it.  The one rule that asks for two characters
is that of whole numbers, which a dot and a digit would make a fraction.  So behind a character
that is neither a digit nor a dot the text may be another one (`Lexes.change_tail`).

A character where no rule matches is such a character.  No rule matches there when the rest of the
text is replaced by a line feed and any text either (`Rule.first?_newline_eq_none`): a quote is not
closed on its line, a slash is alone, and a character that begins no lexeme begins none before
another text.  An opening brace is the exception, because an annotation may be closed on a later
line.
-/
import UnitLang.Proofs.Token.Splitting

namespace UnitLang

open Rule (first? matched?_append_iff matched?_of_first?)

/-! ## 1. Where no rule matches -/

namespace Rule

section Stuck

variable {c : Char} {text tail : List Char}

/-- No rule is the first to match just when none matches. -/
theorem first?_eq_none_iff : first? text = none ↔ ∀ r : Rule, r.matched? text = none := by
  simp [first?, mem_all]

/-- A run does not begin at a character that does not pass. -/
theorem run?_cons_eq_none_iff {p : Char → Bool} : run? p (c :: tail) = none ↔ p c = false := by
  cases hc : p c with
  | false => simp [run?, hc]
  | true =>
    obtain ⟨n, hn⟩ := exists_run?_cons hc tail
    simp [hn]

/-- Where no rule matches, no number begins. -/
theorem isDigit_eq_false_of_first? (h : first? (c :: tail) = none) : c.isDigit = false :=
  run?_cons_eq_none_iff.mp (first?_eq_none_iff.mp h integer)

/-- A dot is always matched. -/
theorem ne_dot_of_first? (h : first? (c :: tail) = none) : c ≠ '.' := by
  rintro rfl
  have hdot := first?_eq_none_iff.mp h dot
  cases hdot

/-- **No rule comes to match before a line feed**, unless it is an annotation that is closed
behind it. -/
theorem first?_newline_eq_none (h : first? (c :: tail) = none) (hc : c ≠ '\x7b')
    (v : List Char) : first? (c :: '\n' :: v) = none := by
  have hdigit := isDigit_eq_false_of_first? h
  rw [first?_eq_none_iff] at h ⊢
  intro r
  cases r with
  -- These look at the first character alone.
  | dot => exact h dot
  | comma => exact h comma
  | semicolon => exact h semicolon
  | backslash => exact h backslash
  | blanks => exact run?_cons_eq_none_iff.mpr (run?_cons_eq_none_iff.mp (h blanks))
  | integer => exact run?_cons_eq_none_iff.mpr hdigit
  | float =>
    rw [matched?, float?, run?_cons_eq_none_iff.mpr hdigit]
    rfl
  | word =>
    have hword : isWordStart c = false := by
      have hnone := h word
      simpa [matched?, word?] using hnone
    simp [matched?, word?, hword]
  -- These would have to go on behind the line feed.
  | braces => simp [matched?, braces?, hc]
  | lineComment => simp [matched?, lineComment?]
  | quoted => simp [matched?, quoted?, closed?]

end Stuck

end Rule

/-! ## 2. Another tail -/

section Tails

variable {p q : Position} {a b text rest tail : List Char} {ts before after : List Token}
  {t : Token} {c : Char} {r : Rule}

/-- The first match is known again before another tail, if the character behind the match, or
behind what follows it, is the same and makes no fraction. -/
theorem Rule.first?_change_tail (h : first? (a ++ (b ++ c :: tail)) = some (r, a.length))
    (hdigit : c.isDigit = false) (hdot : c ≠ '.') (tail' : List Char) :
    first? (a ++ (b ++ c :: tail')) = some (r, a.length) := by
  obtain ⟨-, hstop⟩ := matched?_append_iff.mp (matched?_of_first? h)
  refine first?_append_congr h ?_ ?_
  · cases b with
    | nil => exact hstop
    | cons d b => exact hstop
  · rintro rfl
    have hnone : float.matched? (a ++ (b ++ c :: tail)) = none :=
      matched?_eq_none_of_first? h (by decide)
    rw [← List.append_assoc] at hnone ⊢
    have hfront : float? (a ++ b) = none := by
      cases hn : float? (a ++ b) with
      | none => rfl
      | some n => exact absurd hnone (float?_append_ne_none hn _)
    exact float?_append_other hfront hdigit hdot tail'

/-- **The tail may be another one**: the tokens before a character that makes no fraction are the
same, and lead to the same place. -/
theorem Lexes.change_tail (h : Lexes p text ts q (c :: tail)) (hdigit : c.isDigit = false)
    (hdot : c ≠ '.') (tail' : List Char) :
    ∃ front, text = front ++ c :: tail ∧ q = p.advance front ∧
      Lexes p (front ++ c :: tail') ts q (c :: tail') := by
  generalize hrest : c :: tail = rest at h
  induction h with
  | here p text =>
    subst hrest
    exact ⟨[], rfl, rfl, .here p _⟩
  | @silent p q a text rest ts r hf hk _ ih =>
    obtain ⟨front, rfl, rfl, hlexes⟩ := ih hrest
    subst hrest
    refine ⟨a ++ front, (List.append_assoc ..).symm, (Position.advance_append ..).symm, ?_⟩
    rw [List.append_assoc]
    exact .silent (Rule.first?_change_tail hf hdigit hdot tail') hk hlexes
  | @token p q a text rest ts r k hf hk _ ih =>
    obtain ⟨front, rfl, rfl, hlexes⟩ := ih hrest
    subst hrest
    refine ⟨a ++ front, (List.append_assoc ..).symm, (Position.advance_append ..).symm, ?_⟩
    rw [List.append_assoc]
    exact .token (Rule.first?_change_tail hf hdigit hdot tail') hk hlexes

/-- The text can be cut behind each of its tokens. -/
theorem Lexes.cut_behind_token (h : Lexes p text (before ++ t :: after) q rest) :
    ∃ middle, Lexes p text (before ++ [t]) t.span.stop middle := by
  generalize hts : before ++ t :: after = ts at h
  induction h generalizing before with
  | here => simp at hts
  | silent hf hk _ ih =>
    obtain ⟨middle, hlexes⟩ := ih hts
    exact ⟨middle, .silent hf hk hlexes⟩
  | @token p q a text rest ts r k hf hk _ ih =>
    cases before with
    | nil =>
      obtain ⟨rfl, -⟩ := List.cons_eq_cons.mp hts
      exact ⟨text, .token hf hk (.here _ _)⟩
    | cons t' before =>
      obtain ⟨rfl, htail⟩ := List.cons_eq_cons.mp hts
      obtain ⟨middle, hlexes⟩ := ih htail
      exact ⟨middle, .token hf hk hlexes⟩

end Tails

end UnitLang
