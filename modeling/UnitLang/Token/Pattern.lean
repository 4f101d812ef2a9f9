/-
# Patterns

A pattern describes texts: a character of a class, the end of the text, one pattern behind
another, one or else another, and one as often as possible.  A pattern matches at the beginning of
a text in no way, in one or in several.  `Pattern.ways` lists them in order of preference: a
repetition goes on before it stops, and the first of two alternatives comes first.  The first way
in the list is the one that is taken.

`Rule.pattern` writes the lexical rules as patterns.
-/
import UnitLang.Token.Rule

namespace UnitLang

/-! ## 1. Patterns and their ways -/

/-- A pattern of characters. -/
inductive Pattern where
  /-- A character that passes the test. -/
  | one (p : Char → Bool)
  /-- Nothing, where the text ends. -/
  | atEnd
  /-- The one and then the other. -/
  | seq (x y : Pattern)
  /-- The one, or else the other. -/
  | alt (x y : Pattern)
  /-- As often as possible, also not at all. -/
  | many (x : Pattern)

namespace Pattern

/-- The ways to match as often as possible what matches in these ways.  A turn that matches nothing
is no turn. -/
def repeated (ways : List Char → List Nat) (text : List Char) : List Nat :=
  ((ways text).flatMap fun n =>
    if _h : 0 < n ∧ n ≤ text.length then (repeated ways (text.drop n)).map (n + ·) else []) ++ [0]
termination_by text.length
decreasing_by
  simp only [List.length_drop]
  omega

/-- How many characters the pattern can match at the beginning of a text, the preferred number
first. -/
def ways : Pattern → List Char → List Nat
  | one _, [] => []
  | one p, c :: _ => if p c then [1] else []
  | atEnd, [] => [0]
  | atEnd, _ :: _ => []
  | seq x y, text => (x.ways text).flatMap fun n => (y.ways (text.drop n)).map (n + ·)
  | alt x y, text => x.ways text ++ y.ways text
  | many x, text => repeated x.ways text

section Ways

variable {x : Pattern} {text : List Char} {n : Nat}

theorem ways_seq (x y : Pattern) (text : List Char) :
    (seq x y).ways text =
      (x.ways text).flatMap fun n => (y.ways (text.drop n)).map (n + ·) := rfl

theorem ways_alt (x y : Pattern) (text : List Char) :
    (alt x y).ways text = x.ways text ++ y.ways text := rfl

/-- A repetition takes a turn and is repeated behind it, or it stops. -/
theorem ways_many (x : Pattern) (text : List Char) :
    (many x).ways text = ((x.ways text).flatMap fun n =>
      if 0 < n ∧ n ≤ text.length then ((many x).ways (text.drop n)).map (n + ·)
      else []) ++ [0] := by
  rw [ways, repeated]
  simp only [dite_eq_ite]
  rfl

theorem length_drop_lt (h : 0 < n ∧ n ≤ text.length) :
    (text.drop n).length < text.length := by
  rw [List.length_drop]
  omega

/-- A way takes no more characters than there are. -/
theorem le_of_mem_ways (h : n ∈ x.ways text) : n ≤ text.length := by
  induction x generalizing text n with
  | one p =>
    cases text with
    | nil => cases h
    | cons c text =>
      simp only [ways] at h
      split at h
      · cases List.mem_singleton.mp h
        simp
      · cases h
  | atEnd =>
    cases text with
    | nil =>
      cases List.mem_singleton.mp h
      exact Nat.le_refl 0
    | cons c text => cases h
  | seq x y ihx ihy =>
    rw [ways_seq] at h
    obtain ⟨m, hm, h⟩ := List.mem_flatMap.mp h
    obtain ⟨k, hk, rfl⟩ := List.mem_map.mp h
    have hx := ihx hm
    have hy := ihy hk
    rw [List.length_drop] at hy
    omega
  | alt x y ihx ihy =>
    rw [ways_alt] at h
    rcases List.mem_append.mp h with h | h
    · exact ihx h
    · exact ihy h
  | many x ih =>
    induction text using (measure List.length).wf.induction generalizing n with
    | _ text iht =>
      rw [ways_many] at h
      rcases List.mem_append.mp h with h | h
      · obtain ⟨m, hm, h⟩ := List.mem_flatMap.mp h
        split at h
        · rename_i hpos
          obtain ⟨k, hk, rfl⟩ := List.mem_map.mp h
          have hlater := iht _ (length_drop_lt hpos) hk
          rw [List.length_drop] at hlater
          omega
        · cases h
      · cases List.mem_singleton.mp h
        exact Nat.zero_le _

end Ways

/-! ## 2. The rules as patterns -/

/-- This character. -/
def mark (c : Char) : Pattern := one (· = c)

/-- Once, and then as often as possible. -/
def run (x : Pattern) : Pattern := seq x (many x)

/-- A piece of a quotation: a character other than the quote `q`, the backslash and the line feed,
or a backslash and a character behind it. -/
def piece (q : Char) : Pattern :=
  alt (one fun c => c ≠ q ∧ c ≠ '\\' ∧ c ≠ '\n') (seq (mark '\\') (one (· ≠ '\n')))

/-- Pieces of a quotation between two quotes `q`. -/
def quotation (q : Char) : Pattern := seq (mark q) (seq (many (piece q)) (mark q))

end Pattern

open Pattern in
/-- The rule as a pattern. -/
def Rule.pattern : Rule → Pattern
  | dot => mark '.'
  | comma => mark ','
  | blanks => run (one Text.isBlank)
  | braces => seq (mark '\x7b') (seq (many (one (· ≠ '\x7d'))) (mark '\x7d'))
  | lineComment =>
    seq (mark '/') (seq (mark '/') (seq (many (one (· ≠ '\n'))) (alt (mark '\n') atEnd)))
  | float => seq (run (one Char.isDigit)) (seq (mark '.') (run (one Char.isDigit)))
  | integer => run (one Char.isDigit)
  | quoted => alt (quotation '"') (quotation '\'')
  | word => seq (one isWordStart) (many (one isWordPart))
  | semicolon => mark ';'
  | backslash => mark '\\'

end UnitLang
