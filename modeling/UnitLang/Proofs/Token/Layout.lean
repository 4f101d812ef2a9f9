/-
# Layout

Layout is what stands between tokens: white space, annotations in braces and line comments.
`IsLayout` says so of a text without speaking of rules, as a row of complete silent spans, and
`IsClosingLayout` of a text at whose end a line comment may be cut off.

The scanner agrees.  Layout before any text is passed over (`items_layout`), and what is passed
over before a token or before an end is layout (`Lexes.exists_gap`).  So each token stands behind
layout and the token before it (`Lexes.exists_token`), and the text of a token holds no line feed.
-/
import UnitLang.Proofs.Token.Splitting

namespace UnitLang

open Rule (first? matched?_append_iff matched?_of_first?)

/-! ## 1. Silent spans -/

/-- A complete silent span: white space, an annotation up to its first closing brace, or a line
comment with the line feed that ends it. -/
inductive IsSilentSpan : List Char → Prop where
  | blanks {a : List Char} :
      a ≠ [] → (∀ c ∈ a, Text.isBlank c = true) → IsSilentSpan a
  | braces {body : List Char} :
      '\x7d' ∉ body → IsSilentSpan ('\x7b' :: (body ++ ['\x7d']))
  | comment {body : List Char} :
      '\n' ∉ body → IsSilentSpan ('/' :: '/' :: (body ++ ['\n']))

/-- Complete silent spans, one behind the other. -/
inductive IsLayout : List Char → Prop where
  | nil : IsLayout []
  | span {a b : List Char} : IsSilentSpan a → IsLayout b → IsLayout (a ++ b)

/-- Layout at the end of a text: behind complete silent spans there may be a line comment that
runs to the end. -/
inductive IsClosingLayout : List Char → Prop where
  | complete {a : List Char} : IsLayout a → IsClosingLayout a
  | comment {a body : List Char} :
      IsLayout a → '\n' ∉ body → IsClosingLayout (a ++ '/' :: '/' :: body)

section Spans

variable {a b w : List Char} {c : Char}

/-- A silent span is a lexeme of a silent rule. -/
theorem IsSilentSpan.exists_lexeme (h : IsSilentSpan a) :
    ∃ r ∈ [Rule.blanks, Rule.braces, Rule.lineComment], r.Lexeme a := by
  cases h with
  | blanks hne ha => exact ⟨.blanks, by simp, hne, ha⟩
  | braces hbody => exact ⟨.braces, by simp, _, rfl, hbody⟩
  | comment hbody => exact ⟨.lineComment, by simp, _, hbody, .inl rfl⟩

theorem IsSilentSpan.ne_nil (h : IsSilentSpan a) : a ≠ [] := by
  obtain ⟨r, -, hr⟩ := h.exists_lexeme
  exact hr.ne_nil

theorem IsSilentSpan.beginsLayout (h : IsSilentSpan (c :: a)) : Rule.BeginsLayout c := by
  obtain ⟨r, hmem, hr⟩ := h.exists_lexeme
  have hleader := hr.leader_eq
  simp only [List.mem_cons, List.not_mem_nil, or_false] at hmem
  rcases hmem with rfl | rfl | rfl
  · simp [Rule.BeginsLayout, hleader, Rule.family]
  · simp [Rule.BeginsLayout, hleader, Rule.family]
  · simp [Rule.BeginsLayout, hleader, Rule.family]

theorem IsLayout.beginsLayout (h : IsLayout (c :: w)) : Rule.BeginsLayout c := by
  generalize htext : c :: w = text at h
  cases h with
  | nil => cases htext
  | @span a b ha hb =>
    obtain ⟨d, a, rfl⟩ := List.exists_cons_of_ne_nil ha.ne_nil
    obtain ⟨rfl, -⟩ := List.cons_eq_cons.mp htext
    exact ha.beginsLayout

end Spans

/-! ## 2. Layout is passed over -/

section Passing

variable {p : Position} {a w : List Char}

/-- A silent span is passed over, whatever stands behind it. -/
theorem items_span (h : IsSilentSpan a) (v : List Char) :
    items p (a ++ v) = items (p.advance a) v := by
  cases h with
  | blanks _ ha => exact items_blanks ha v
  | @braces body hbody =>
    have hmatch : Rule.braces.matched? ('\x7b' :: (body ++ ['\x7d']) ++ v) =
        some ('\x7b' :: (body ++ ['\x7d'])).length :=
      matched?_append_iff.mpr ⟨⟨body, rfl, hbody⟩, fun _ _ => rfl⟩
    exact items_append_silent (Rule.first?_of_matched? hmatch (by simp)) rfl
  | @comment body hbody =>
    have hstop : Rule.lineComment.Stops ('/' :: '/' :: (body ++ ['\n'])) v := by
      intro c _
      simp [Rule.goesOn, List.getLast?_cons]
    have hmatch : Rule.lineComment.matched? ('/' :: '/' :: (body ++ ['\n']) ++ v) =
        some ('/' :: '/' :: (body ++ ['\n'])).length :=
      matched?_append_iff.mpr ⟨⟨body, hbody, .inl rfl⟩, hstop⟩
    exact items_append_silent (Rule.first?_of_matched? hmatch (by simp)) rfl

/-- **Layout is passed over**, whatever stands behind it. -/
theorem items_layout (h : IsLayout w) (v : List Char) :
    items p (w ++ v) = items (p.advance w) v := by
  induction h generalizing p with
  | nil => rfl
  | span ha _ ih => rw [List.append_assoc, items_span ha, ih, Position.advance_append]

/-- A text of layout has no tokens. -/
theorem items_closingLayout (h : IsClosingLayout w) : items p w = ⟨[], .ended (p.advance w)⟩ := by
  cases h with
  | complete ha =>
    have hitems := items_layout (p := p) ha []
    rwa [List.append_nil, items_nil] at hitems
  | @comment a body ha hbody =>
    have hmatch : Rule.lineComment.matched? ('/' :: '/' :: body ++ []) =
        some ('/' :: '/' :: body).length :=
      matched?_append_iff.mpr ⟨⟨body, hbody, .inr rfl⟩, Rule.stops_nil _ _⟩
    have hitems := items_append_silent (p := p.advance a)
      (Rule.first?_of_matched? hmatch (by simp)) rfl
    rw [List.append_nil, items_nil, ← Position.advance_append] at hitems
    rw [items_layout ha, hitems]

end Passing

/-! ## 3. What is passed over is layout -/

section Gaps

variable {p q : Position} {a text rest : List Char} {ts : List Token} {r : Rule}

/-- A silent match is a silent span, or a line comment at the end of the text. -/
theorem isSilentSpan_of_first? (h : first? (a ++ text) = some (r, a.length))
    (hk : r.kind? a = none) :
    IsSilentSpan a ∨ text = [] ∧ ∃ body, a = '/' :: '/' :: body ∧ '\n' ∉ body := by
  obtain ⟨hform, hstop⟩ := matched?_append_iff.mp (matched?_of_first? h)
  cases r with
  | blanks => exact .inl (.blanks hform.1 hform.2)
  | braces =>
    obtain ⟨body, rfl, hbody⟩ := hform
    exact .inl (.braces hbody)
  | lineComment =>
    obtain ⟨body, hbody, rfl | rfl⟩ := hform
    · exact .inl (.comment hbody)
    · cases text with
      | nil => exact .inr ⟨rfl, body, rfl, hbody⟩
      | cons c text =>
        -- Before more text the comment stops only at its line feed, which it does not have.
        have hlast : ('/' :: '/' :: body).getLast? = some '\n' := by
          simpa [Rule.goesOn] using hstop c rfl
        have hmem := List.mem_of_getLast? hlast
        simp [hbody] at hmem
  | dot | comma | float | integer | quoted | word | semicolon | backslash => cases hk

/-- What is passed over without a token is layout. -/
theorem Lexes.exists_gap (h : Lexes p text [] q rest) :
    ∃ gap, text = gap ++ rest ∧ q = p.advance gap ∧
      (IsLayout gap ∨ rest = [] ∧ IsClosingLayout gap) := by
  generalize hts : ([] : List Token) = ts at h
  induction h with
  | here p text => exact ⟨[], rfl, rfl, .inl .nil⟩
  | silent hf hk hlexes ih =>
    obtain ⟨gap, rfl, rfl, hgap⟩ := ih hts
    refine ⟨_ ++ gap, (List.append_assoc ..).symm, (Position.advance_append ..).symm, ?_⟩
    rcases isSilentSpan_of_first? hf hk with ha | ⟨hnil, body, rfl, hbody⟩
    · rcases hgap with hgap | ⟨rfl, hgap | ⟨hgap, hbody⟩⟩
      · exact .inl (.span ha hgap)
      · exact .inl (.span ha hgap)
      · refine .inr ⟨rfl, ?_⟩
        rw [← List.append_assoc]
        exact .comment (.span ha hgap) hbody
    · obtain ⟨rfl, rfl⟩ := List.append_eq_nil_iff.mp hnil
      rw [List.append_nil]
      exact .inr ⟨rfl, .comment .nil hbody⟩
  | token => cases hts

end Gaps

/-! ## 4. A token and what stands before it -/

/-- The token is these characters, read at this position by the rule for its kind. -/
structure Token.IsRead (t : Token) (p : Position) (value : List Char) : Prop where
  exists_rule : ∃ r : Rule, r.Lexeme value ∧ r.kind? value = some t.kind
  value_eq : t.value = String.ofList value
  start_eq : t.span.start = p
  stop_eq : t.span.stop = p.advance value

section Tokens

variable {p q : Position} {text rest value : List Char} {ts before after : List Token} {t : Token}

/-- A closed quote holds no line feed. -/
theorem Rule.newline_notMem_of_closed? {quote : Char} {escaped : Bool} {body : List Char}
    (h : closed? quote escaped body = some body.length) : '\n' ∉ body := by
  induction body generalizing escaped with
  | nil => exact List.not_mem_nil
  | cons c body ih =>
    unfold closed? at h
    split at h
    · cases h
    · rename_i hc
      have hrest : '\n' ∉ body := by
        split at h
        · exact ih (by simpa using h)
        · split at h
          · cases List.eq_nil_of_length_eq_zero (by simpa using h)
            exact List.not_mem_nil
          · exact ih (by simpa using h)
      exact List.not_mem_cons_of_ne_of_not_mem (Ne.symm hc) hrest

/-- A closed quote ends with the quote. -/
theorem Rule.getLast?_of_closed? {quote : Char} {escaped : Bool} {body : List Char}
    (h : closed? quote escaped body = some body.length) : body.getLast? = some quote := by
  induction body generalizing escaped with
  | nil => cases h
  | cons c body ih =>
    -- A quote that is closed later is not closed by `c`.
    have hlater {escaped : Bool} (h : closed? quote escaped body = some body.length) :
        (c :: body).getLast? = some quote := by
      rw [List.getLast?_cons, ih h]
      rfl
    unfold closed? at h
    split at h
    · cases h
    · split at h
      · exact hlater (by simpa using h)
      · split at h
        · rename_i hc
          cases List.eq_nil_of_length_eq_zero (by simpa using h)
          rw [hc]
          rfl
        · exact hlater (by simpa using h)

/-- A token that is not quoted holds no white space. -/
theorem Rule.Lexeme.blank_notMem {r : Rule} {k : Kind} {c : Char} (h : r.Lexeme value)
    (hk : r.kind? value = some k) (hquoted : r ≠ .quoted) (hc : Text.isBlank c = true) :
    c ∉ value := by
  have hlayout : BeginsLayout c := by
    rw [BeginsLayout, leader_of_isBlank hc]
    exact List.mem_cons_self
  have hdigit : ∀ d ∈ value, d.isDigit = true → d ≠ c := by
    rintro d - hd rfl
    exact Bool.false_ne_true (hlayout.isDigit_eq_false.symm.trans hd)
  cases r with
  | dot | comma | semicolon | backslash =>
    cases h
    rw [List.mem_singleton]
    rintro rfl
    exact absurd hc (by decide)
  | integer => exact fun hmem => hdigit c hmem (h.2 c hmem) rfl
  | float =>
    obtain ⟨whole, fraction, rfl, -, -, hwhole, hfraction⟩ := h
    intro hmem
    rcases List.mem_append.mp hmem with hmem' | hmem'
    · exact hdigit c hmem (hwhole c hmem') rfl
    · rcases List.mem_cons.mp hmem' with heq | hmem'
      · exact hlayout.ne_dot heq
      · exact hdigit c hmem (hfraction c hmem') rfl
  | word =>
    obtain ⟨d, rest, rfl, hd, hrest⟩ := h
    intro hmem
    rcases List.mem_cons.mp hmem with rfl | hmem
    · exact hlayout.leader_ne (by decide) (leader_of_isWordStart hd)
    · exact Bool.false_ne_true (hlayout.isWordPart_eq_false.symm.trans (hrest c hmem))
  | quoted => exact absurd rfl hquoted
  | blanks | braces | lineComment => cases hk

/-- A token holds no line feed. -/
theorem Rule.Lexeme.newline_notMem {r : Rule} {k : Kind} (h : r.Lexeme value)
    (hk : r.kind? value = some k) : '\n' ∉ value := by
  by_cases hquoted : r = .quoted
  · subst hquoted
    obtain ⟨quote, body, rfl, hquote, hclosed⟩ := h
    refine List.not_mem_cons_of_ne_of_not_mem ?_ (newline_notMem_of_closed? hclosed)
    rcases hquote with rfl | rfl <;> decide
  · exact h.blank_notMem hk hquoted (by decide)

/-- A token does not end with a carriage return. -/
theorem Rule.Lexeme.getLast?_ne_return {r : Rule} {k : Kind} (h : r.Lexeme value)
    (hk : r.kind? value = some k) : value.getLast? ≠ some '\r' := by
  by_cases hquoted : r = .quoted
  · subst hquoted
    obtain ⟨quote, body, rfl, hquote, hclosed⟩ := h
    rw [List.getLast?_cons, getLast?_of_closed? hclosed]
    rcases hquote with rfl | rfl <;> decide
  · exact fun hlast => h.blank_notMem hk hquoted (by decide) (List.mem_of_getLast? hlast)

namespace Token.IsRead

theorem getLast?_ne_return (h : t.IsRead p value) : value.getLast? ≠ some '\r' := by
  obtain ⟨r, hform, hk⟩ := h.exists_rule
  exact hform.getLast?_ne_return hk

theorem newline_notMem (h : t.IsRead p value) : '\n' ∉ value := by
  obtain ⟨r, hform, hk⟩ := h.exists_rule
  exact hform.newline_notMem hk

theorem value_ne_nil (h : t.IsRead p value) : value ≠ [] := by
  obtain ⟨r, hform, -⟩ := h.exists_rule
  exact hform.ne_nil

/-- A token stands on one line. -/
theorem line_eq (h : t.IsRead p value) : t.span.start.line = t.span.stop.line := by
  rw [h.start_eq, h.stop_eq, Position.line_advance, List.count_eq_zero.mpr h.newline_notMem]
  rfl

end Token.IsRead

/-- **The first token stands behind layout**, and the others behind it. -/
theorem Lexes.exists_token (h : Lexes p text (t :: ts) q rest) :
    ∃ gap value middle, text = gap ++ (value ++ middle) ∧ IsLayout gap ∧
      t.IsRead (p.advance gap) value ∧ Lexes t.span.stop middle ts q rest := by
  generalize hts : t :: ts = all at h
  induction h with
  | here => cases hts
  | silent hf hk _ ih =>
    obtain ⟨gap, value, middle, rfl, hgap, hread, hlexes⟩ := ih hts
    refine ⟨_ ++ gap, value, middle, (List.append_assoc ..).symm, ?_, ?_, hlexes⟩
    · rcases isSilentSpan_of_first? hf hk with ha | ⟨hnil, -⟩
      · exact .span ha hgap
      · have hnil' := (List.append_eq_nil_iff.mp (List.append_eq_nil_iff.mp hnil).2).1
        exact absurd hnil' hread.value_ne_nil
    · rwa [Position.advance_append]
  | @token p q a text rest ts r k hf hk hlexes =>
    obtain ⟨rfl, rfl⟩ := List.cons_eq_cons.mp hts
    obtain ⟨hform, -⟩ := matched?_append_iff.mp (matched?_of_first? hf)
    exact ⟨[], a, text, rfl, .nil, ⟨⟨r, hform, hk⟩, rfl, rfl, rfl⟩, hlexes⟩

/-- Where the last of these tokens ends; at `p` if there are none. -/
def stopOf (p : Position) (ts : List Token) : Position := ts.foldl (fun _ t => t.span.stop) p

/-- Behind the first tokens of a text the text can be cut. -/
theorem Lexes.cut_behind (h : Lexes p text (before ++ after) q rest) :
    ∃ front middle, text = front ++ middle ∧ stopOf p before = p.advance front ∧
      Lexes (stopOf p before) middle after q rest := by
  induction before generalizing p text with
  | nil => exact ⟨[], text, rfl, rfl, h⟩
  | cons t before ih =>
    obtain ⟨gap, value, middle, rfl, -, hread, hlexes⟩ := h.exists_token
    obtain ⟨front, middle, rfl, hstop, hlexes⟩ := ih hlexes
    refine ⟨gap ++ (value ++ front), middle, by simp, ?_, hlexes⟩
    rw [Position.advance_append, Position.advance_append, ← hread.stop_eq, ← hstop]
    rfl

end Tokens

end UnitLang
