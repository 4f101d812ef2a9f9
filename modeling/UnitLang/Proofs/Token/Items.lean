/-
# The items of a text, match by match

`scan` and `items` recurse on the text that is left, and each of their steps is one of four: the
text is at its end, or no rule matches, or a silent rule does, or a rule that yields a token.
This file states the four as equations, and as one induction on a text (`lex_induction`), so that
what follows need not look at the recursions again.

From there: no token is the end of the input (`kind_ne_endOfInput_of_mem_items`), a failure is a
character where no rule matches (`exists_eq_unrecognised`), and a scanner hands out the items of
its text one by one (`Scanner.nextToken_items`).
-/
import UnitLang.Scanner

namespace UnitLang

open Rule (first?)

/-! ## 1. The four steps -/

section Steps

variable {p : Position} {text : List Char} {r : Rule} {n : Nat} {k : Kind}

theorem scan_nil (p : Position) : scan p [] = .ended p := by
  have h : first? [] = none := by decide
  rw [scan]
  split
  · rename_i hr
    rw [h] at hr
    cases hr
  · rfl

theorem scan_stuck {c : Char} {rest : List Char} (h : first? (c :: rest) = none) :
    scan p (c :: rest) = .stuck p c (c :: rest) := by
  rw [scan]
  split
  · rename_i hr
    rw [h] at hr
    cases hr
  · rfl

theorem scan_silent (h : first? text = some (r, n)) (hk : r.kind? (text.take n) = none) :
    scan p text = scan (p.advance (text.take n)) (text.drop n) := by
  rw [scan]
  split
  · rename_i hr
    rw [h] at hr
    cases hr
    rw [hk]
  · rename_i hr
    rw [h] at hr
    cases hr

theorem scan_token (h : first? text = some (r, n)) (hk : r.kind? (text.take n) = some k) :
    scan p text = .token (Token.cut k p text n) (text.drop n) := by
  rw [scan]
  split
  · rename_i hr
    rw [h] at hr
    cases hr
    rw [hk]
  · rename_i hr
    rw [h] at hr
    cases hr

/-- Items are scanned one after the other. -/
theorem items_eq_scan (p : Position) (text : List Char) :
    items p text =
      match scan p text with
      | .token t rest => ⟨t :: (items t.span.stop rest).tokens, (items t.span.stop rest).ending⟩
      | .ended p => ⟨[], .ended p⟩
      | .stuck p c _ => ⟨[], .failed (.unrecognised p c)⟩ := by
  rw [items]
  split <;> simp only [*]

theorem items_nil (p : Position) : items p [] = ⟨[], .ended p⟩ := by
  rw [items_eq_scan, scan_nil]

theorem items_stuck {c : Char} {rest : List Char} (h : first? (c :: rest) = none) :
    items p (c :: rest) = ⟨[], .failed (.unrecognised p c)⟩ := by
  rw [items_eq_scan, scan_stuck h]

theorem items_silent (h : first? text = some (r, n)) (hk : r.kind? (text.take n) = none) :
    items p text = items (p.advance (text.take n)) (text.drop n) := by
  rw [items_eq_scan, scan_silent h hk, ← items_eq_scan]

theorem items_token (h : first? text = some (r, n)) (hk : r.kind? (text.take n) = some k) :
    items p text =
      ⟨Token.cut k p text n :: (items (p.advance (text.take n)) (text.drop n)).tokens,
        (items (p.advance (text.take n)) (text.drop n)).ending⟩ := by
  rw [items_eq_scan, scan_token h hk]
  rfl

/-- Induction along the matches of a text. -/
theorem lex_induction {motive : Position → List Char → Prop} (nil : ∀ p, motive p [])
    (stuck : ∀ p c rest, first? (c :: rest) = none → motive p (c :: rest))
    (silent : ∀ p text r n, first? text = some (r, n) → r.kind? (text.take n) = none →
      motive (p.advance (text.take n)) (text.drop n) → motive p text)
    (token : ∀ p text r n k, first? text = some (r, n) → r.kind? (text.take n) = some k →
      motive (p.advance (text.take n)) (text.drop n) → motive p text)
    (p : Position) (text : List Char) : motive p text := by
  match h : first? text with
  | none =>
    cases text with
    | nil => exact nil p
    | cons c rest => exact stuck p c rest h
  | some (r, n) =>
    have ih := lex_induction nil stuck silent token (p.advance (text.take n)) (text.drop n)
    cases hk : r.kind? (text.take n) with
    | none => exact silent p text r n h hk ih
    | some k => exact token p text r n k h hk ih
termination_by text.length
decreasing_by
  have := Rule.matched?_bounds (Rule.matched?_of_first? h)
  simp only [List.length_drop]
  omega

end Steps

/-! ## 2. What holds of all items -/

/-- No reserved word, and no other word, stands for the end of the input. -/
theorem Reserved.kindOf_ne_endOfInput (word : String) : Reserved.kindOf word ≠ .endOfInput := by
  unfold Reserved.kindOf Reserved.kind?
  cases h : Reserved.words.lookup word with
  | none => simp
  | some k =>
    obtain ⟨l₁, l₂, hw, -⟩ := List.lookup_eq_some_iff.mp h
    have hall : ∀ e ∈ Reserved.words, e.2 ≠ .endOfInput := by decide
    exact hall (word, k) (by rw [hw]; simp)

theorem Rule.kind?_ne_endOfInput {r : Rule} {lexeme : List Char} {k : Kind}
    (h : r.kind? lexeme = some k) : k ≠ .endOfInput := by
  cases r with
  | word =>
    cases h
    exact Reserved.kindOf_ne_endOfInput _
  | dot | comma | float | integer | quoted | semicolon | backslash =>
    cases h
    decide
  | blanks | braces | lineComment => cases h

/-- The end of the input is not among the tokens. -/
theorem kind_ne_endOfInput_of_mem_items {p : Position} {text : List Char} {t : Token}
    (h : t ∈ (items p text).tokens) : t.kind ≠ .endOfInput := by
  induction p, text using lex_induction with
  | nil p => simp [items_nil] at h
  | stuck p c rest hf => simp [items_stuck hf] at h
  | silent p text r n hf hk ih =>
    rw [items_silent hf hk] at h
    exact ih h
  | token p text r n k hf hk ih =>
    rw [items_token hf hk] at h
    rcases List.mem_cons.mp h with rfl | h
    · exact Rule.kind?_ne_endOfInput hk
    · exact ih h

theorem kind_ne_endOfInput_of_mem_itemsOf (source : String) :
    ∀ t ∈ (itemsOf source).tokens, t.kind ≠ .endOfInput :=
  fun _ => kind_ne_endOfInput_of_mem_items

/-- The tokens of a text end with an error only at a character where no rule matches. -/
theorem exists_eq_unrecognised {p : Position} {text : List Char} {e : Error}
    (h : (items p text).ending = .failed e) : ∃ q c, e = .unrecognised q c := by
  induction p, text using lex_induction with
  | nil p => simp [items_nil] at h
  | stuck p c rest hf =>
    rw [items_stuck hf] at h
    cases h
    exact ⟨p, c, rfl⟩
  | silent p text r n hf hk ih =>
    rw [items_silent hf hk] at h
    exact ih h
  | token p text r n k hf hk ih =>
    rw [items_token hf hk] at h
    exact ih h

theorem scan_kind_ne_endOfInput {p : Position} {text rest : List Char} {t : Token}
    (h : scan p text = .token t rest) : t.kind ≠ .endOfInput := by
  have hmem : t ∈ (items p text).tokens := by
    rw [items_eq_scan, h]
    exact List.mem_cons_self
  exact kind_ne_endOfInput_of_mem_items hmem

/-- Tokenizing a source succeeds just when its items end at the end of the text. -/
theorem tokenize_eq_ok_iff {source : String} {tokens : List Token} :
    tokenize source = .ok tokens ↔
      ∃ ts p, itemsOf source = ⟨ts, .ended p⟩ ∧ tokens = ts ++ [Token.endOfInput p] := by
  unfold tokenize Items.complete
  obtain ⟨ts, e⟩ := itemsOf source
  cases e with
  | ended p =>
    constructor
    · intro h
      cases h
      exact ⟨ts, p, rfl, rfl⟩
    · rintro ⟨_, _, his, rfl⟩
      cases his
      rfl
  | failed e =>
    constructor
    · intro h
      cases h
    · rintro ⟨_, _, his, -⟩
      cases his

/-- It fails with the error that ends them. -/
theorem tokenize_eq_error_iff {source : String} {e : Error} :
    tokenize source = .error e ↔ (itemsOf source).ending = .failed e := by
  unfold tokenize Items.complete
  split <;> simp [*]

/-! ## 3. A scanner hands out the items of its text -/

namespace Scanner

/-- The items that are still to come. -/
def items (s : Scanner) : Items := UnitLang.items s.position s.rest

/-- Before its end, a scanner hands out the first of the items that are still to come, and the
others are to come then. -/
theorem nextToken_items {s : Scanner} (hs : s.ended = false) :
    (∃ t s', s.nextToken = (.ok t, s') ∧ s'.ended = false ∧ t.kind ≠ .endOfInput ∧
      s.items = ⟨t :: s'.items.tokens, s'.items.ending⟩) ∨
    (∃ p s', s.nextToken = (.ok (.endOfInput p), s') ∧ s'.ended = true ∧
      s.items = ⟨[], .ended p⟩) ∨
    (∃ e s', s.nextToken = (.error e, s') ∧ s.items = ⟨[], .failed e⟩) := by
  unfold nextToken items
  rw [hs, items_eq_scan]
  cases h : scan s.position s.rest with
  | token t rest => exact .inl ⟨t, _, rfl, rfl, scan_kind_ne_endOfInput h, rfl⟩
  | ended p => exact .inr (.inl ⟨p, _, rfl, rfl, rfl⟩)
  | stuck p c rest => exact .inr (.inr ⟨_, _, rfl, rfl⟩)

end Scanner

end UnitLang
