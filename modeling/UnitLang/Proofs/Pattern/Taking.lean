/-
# What a pattern takes

A way of a pattern is a number of characters.  Seen as a piece of the text, it is what the pattern
takes there (`Takes`), and what a pattern takes is put together from what its parts take, one
equivalence for each kind of pattern.

For the rules this leads to their lexemes (`takes_pattern_iff`).  Only a line comment depends on
what stands behind it: without its line feed it is taken at the end of the text.
-/
import UnitLang.Proofs.Token.Lexeme
import UnitLang.Token.Pattern

namespace UnitLang.Pattern

/-! ## 1. What a pattern takes -/

/-- One of the ways of the pattern is to take `a` where `b` follows. -/
def Takes (x : Pattern) (a b : List Char) : Prop := a.length ∈ x.ways (a ++ b)

section Taking

variable {x y : Pattern} {p : Char → Bool} {a b text : List Char} {n : Nat} {c q : Char}

/-- A way is a piece of the text that the pattern takes. -/
theorem takes_of_mem (h : n ∈ x.ways text) : x.Takes (text.take n) (text.drop n) := by
  rw [Takes, List.take_append_drop, List.length_take, Nat.min_eq_left (le_of_mem_ways h)]
  exact h

theorem takes_one_iff : (one p).Takes a b ↔ ∃ c, a = [c] ∧ p c = true := by
  cases a with
  | nil =>
    cases b with
    | nil => simp [Takes, ways]
    | cons d b =>
      simp only [Takes, ways, List.nil_append]
      split <;> simp
  | cons c a =>
    simp only [Takes, ways, List.cons_append]
    split
    · rename_i hc
      have hmem : a.length + 1 ∈ [1] ↔ a = [] := by simp
      rw [List.length_cons, hmem]
      constructor
      · rintro rfl
        exact ⟨c, rfl, hc⟩
      · rintro ⟨d, heq, -⟩
        exact (List.cons_eq_cons.mp heq).2
    · rename_i hc
      simp [hc]

theorem takes_mark_iff : (mark c).Takes a b ↔ a = [c] := by
  simp [mark, takes_one_iff]

theorem takes_atEnd_iff : atEnd.Takes a b ↔ a = [] ∧ b = [] := by
  cases a with
  | nil => cases b <;> simp [Takes, ways]
  | cons c a => simp [Takes, ways]

theorem takes_alt_iff : (alt x y).Takes a b ↔ x.Takes a b ∨ y.Takes a b := List.mem_append

/-- A text can be cut where its length can. -/
theorem exists_append_of_add {m : Nat} (h : n + m = a.length) :
    ∃ a₁ a₂, a = a₁ ++ a₂ ∧ a₁.length = n ∧ a₂.length = m := by
  refine ⟨a.take n, a.drop n, (List.take_append_drop n a).symm, ?_, ?_⟩
  · rw [List.length_take, Nat.min_eq_left (by omega)]
  · rw [List.length_drop]
    omega

theorem takes_seq_iff :
    (seq x y).Takes a b ↔ ∃ a₁ a₂, a = a₁ ++ a₂ ∧ x.Takes a₁ (a₂ ++ b) ∧ y.Takes a₂ b := by
  rw [Takes, ways_seq, List.mem_flatMap]
  constructor
  · rintro ⟨n, hn, h⟩
    obtain ⟨m, hm, hlen⟩ := List.mem_map.mp h
    obtain ⟨a₁, a₂, rfl, rfl, rfl⟩ := exists_append_of_add hlen
    rw [List.append_assoc] at hn hm
    rw [List.drop_left] at hm
    exact ⟨a₁, a₂, rfl, hn, hm⟩
  · rintro ⟨a₁, a₂, rfl, hx, hy⟩
    refine ⟨a₁.length, by rwa [List.append_assoc], List.mem_map.mpr ⟨a₂.length, ?_, ?_⟩⟩
    · rwa [List.append_assoc, List.drop_left]
    · rw [List.length_append]

/-- Nothing is taken, or something and then again. -/
theorem takes_many_iff :
    (many x).Takes a b ↔
      a = [] ∨ ∃ a₁ a₂, a₁ ≠ [] ∧ a = a₁ ++ a₂ ∧ x.Takes a₁ (a₂ ++ b) ∧ (many x).Takes a₂ b := by
  rw [Takes, ways_many, List.mem_append, List.mem_singleton, List.length_eq_zero_iff, or_comm]
  refine or_congr_right ?_
  rw [List.mem_flatMap]
  constructor
  · rintro ⟨n, hn, h⟩
    split at h
    · rename_i hpos
      obtain ⟨m, hm, hlen⟩ := List.mem_map.mp h
      obtain ⟨a₁, a₂, rfl, rfl, rfl⟩ := exists_append_of_add hlen
      rw [List.append_assoc] at hn hm
      rw [List.drop_left] at hm
      exact ⟨a₁, a₂, List.length_pos_iff.mp hpos.1, rfl, hn, hm⟩
    · cases h
  · rintro ⟨a₁, a₂, hne, rfl, hx, hy⟩
    refine ⟨a₁.length, by rwa [List.append_assoc], ?_⟩
    have hpos := List.length_pos_iff.mpr hne
    rw [if_pos ⟨hpos, by simp only [List.length_append]; omega⟩]
    refine List.mem_map.mpr ⟨a₂.length, ?_, ?_⟩
    · rwa [List.append_assoc, List.drop_left]
    · rw [List.length_append]

/-- Characters of a class, as many as there are or fewer. -/
theorem takes_many_one_iff : (many (one p)).Takes a b ↔ ∀ c ∈ a, p c = true := by
  induction a with
  | nil => simpa using takes_many_iff.mpr (.inl rfl)
  | cons c a ih =>
    rw [takes_many_iff, List.forall_mem_cons, ← ih]
    constructor
    · rintro (h | ⟨a₁, a₂, -, heq, hx, hy⟩)
      · cases h
      · obtain ⟨d, rfl, hd⟩ := takes_one_iff.mp hx
        cases heq
        exact ⟨hd, hy⟩
    · rintro ⟨hc, hy⟩
      exact .inr ⟨[c], a, List.cons_ne_nil _ _, rfl, takes_one_iff.mpr ⟨c, rfl, hc⟩, hy⟩

/-- A character, and then what follows it. -/
theorem takes_one_seq_iff :
    (seq (one p) y).Takes a b ↔ ∃ c rest, a = c :: rest ∧ p c = true ∧ y.Takes rest b := by
  rw [takes_seq_iff]
  constructor
  · rintro ⟨a₁, a₂, rfl, hx, hy⟩
    obtain ⟨c, rfl, hc⟩ := takes_one_iff.mp hx
    exact ⟨c, a₂, rfl, hc, hy⟩
  · rintro ⟨c, rest, rfl, hc, hy⟩
    exact ⟨[c], rest, rfl, takes_one_iff.mpr ⟨c, rfl, hc⟩, hy⟩

theorem takes_mark_seq_iff :
    (seq (mark c) y).Takes a b ↔ ∃ rest, a = c :: rest ∧ y.Takes rest b := by
  rw [mark, takes_one_seq_iff]
  constructor
  · rintro ⟨d, rest, rfl, hd, hy⟩
    obtain rfl : d = c := by simpa using hd
    exact ⟨rest, rfl, hy⟩
  · rintro ⟨rest, rfl, hy⟩
    exact ⟨c, rest, rfl, by simp, hy⟩

theorem takes_run_iff : (run (one p)).Takes a b ↔ a ≠ [] ∧ ∀ c ∈ a, p c = true := by
  rw [run, takes_one_seq_iff]
  constructor
  · rintro ⟨c, rest, rfl, hc, hy⟩
    exact ⟨List.cons_ne_nil _ _, List.forall_mem_cons.mpr ⟨hc, takes_many_one_iff.mp hy⟩⟩
  · rintro ⟨hne, ha⟩
    obtain ⟨c, rest, rfl⟩ := List.exists_cons_of_ne_nil hne
    obtain ⟨hc, hrest⟩ := List.forall_mem_cons.mp ha
    exact ⟨c, rest, rfl, hc, takes_many_one_iff.mpr hrest⟩

/-- Everything before a character. -/
theorem takes_others_iff : (many (one (· ≠ c))).Takes a b ↔ c ∉ a := by
  rw [takes_many_one_iff]
  constructor
  · intro h hmem
    simpa using h c hmem
  · intro h d hd
    exact decide_eq_true fun heq => h (heq ▸ hd)

theorem takes_piece_iff :
    (piece q).Takes a b ↔
      (∃ c, a = [c] ∧ c ≠ q ∧ c ≠ '\\' ∧ c ≠ '\n') ∨ ∃ c, a = ['\\', c] ∧ c ≠ '\n' := by
  rw [piece, takes_alt_iff, takes_one_iff, takes_mark_seq_iff]
  simp only [decide_eq_true_eq, takes_one_iff]
  refine or_congr_right ?_
  constructor
  · rintro ⟨rest, rfl, d, rfl, hd⟩
    exact ⟨d, rfl, hd⟩
  · rintro ⟨d, rfl, hd⟩
    exact ⟨_, rfl, d, rfl, hd⟩

/-- The search for the closing quote passes over a piece of a quotation. -/
theorem closed?_piece {rest : List Char} (hq : q ≠ '\\') (ha : (piece q).Takes a b) :
    Rule.closed? q false (a ++ rest) = (Rule.closed? q false rest).map (· + a.length) := by
  rcases takes_piece_iff.mp ha with ⟨c, rfl, hcq, hcb, hcn⟩ | ⟨c, rfl, hcn⟩
  · simp [Rule.closed?, hcq, hcb, hcn]
  · simp [Rule.closed?, hcn, hq.symm, Function.comp_def]

/-- Where the search succeeds it stands at the quote, or a piece of the quotation comes first. -/
theorem eq_or_piece_of_closed? (h : Rule.closed? q false a = some n) (b : List Char) :
    (∃ rest, a = q :: rest) ∨ ∃ u v, u ≠ [] ∧ a = u ++ v ∧ (piece q).Takes u (v ++ b) := by
  cases a with
  | nil => cases h
  | cons c a =>
    by_cases hcq : c = q
    · exact .inl ⟨a, by rw [hcq]⟩
    · have hcn : c ≠ '\n' := by
        rintro rfl
        simp [Rule.closed?] at h
      by_cases hcb : c = '\\'
      · subst hcb
        cases a with
        | nil => simp [Rule.closed?, hcq] at h
        | cons d a =>
          have hdn : d ≠ '\n' := by
            rintro rfl
            simp [Rule.closed?, hcq] at h
          exact .inr ⟨['\\', d], a, List.cons_ne_nil _ _, rfl,
            takes_piece_iff.mpr (.inr ⟨d, rfl, hdn⟩)⟩
      · exact .inr ⟨[c], a, List.cons_ne_nil _ _, rfl,
          takes_piece_iff.mpr (.inl ⟨c, rfl, hcq, hcb, hcn⟩)⟩

theorem length_lt_append {u v : List Char} (hne : u ≠ []) : v.length < (u ++ v).length := by
  have hpos := List.length_pos_iff.mpr hne
  rw [List.length_append]
  omega

/-- **The pieces of a quotation and the quote behind them** are what the search for the closing
quote finds. -/
theorem takes_pieces_iff (hq : q ≠ '\\') (hn : q ≠ '\n') :
    (seq (many (piece q)) (mark q)).Takes a b ↔ Rule.closed? q false a = some a.length := by
  rw [takes_seq_iff]
  simp only [takes_mark_iff]
  constructor
  · rintro ⟨a₁, a₂, rfl, ha, rfl⟩
    induction a₁ using (measure List.length).wf.induction with
    | _ a₁ ih =>
      rcases takes_many_iff.mp ha with rfl | ⟨u, v, hne, rfl, hu, hv⟩
      · simp [Rule.closed?, hn]
      · rw [List.append_assoc, closed?_piece hq hu, ih v (length_lt_append hne) hv]
        simp [Nat.add_comm]
  · intro h
    induction a using (measure List.length).wf.induction with
    | _ a ih =>
      rcases eq_or_piece_of_closed? h b with ⟨rest, rfl⟩ | ⟨u, v, hne, rfl, hu⟩
      · have hlen : rest.length = 0 := by simpa [Rule.closed?, hn] using h
        obtain rfl := List.length_eq_zero_iff.mp hlen
        exact ⟨[], [q], rfl, takes_many_iff.mpr (.inl rfl), rfl⟩
      · rw [closed?_piece hq hu] at h
        obtain ⟨m, hm, hlen⟩ := Option.map_eq_some_iff.mp h
        have hv : Rule.closed? q false v = some v.length := by
          rw [hm, List.length_append] at *
          congr 1
          omega
        obtain ⟨v₁, v₂, rfl, hmany, rfl⟩ := ih v (length_lt_append hne) hv
        refine ⟨u ++ v₁, [q], by rw [List.append_assoc], ?_, rfl⟩
        rw [List.append_assoc] at hu
        exact takes_many_iff.mpr (.inr ⟨u, v₁, hne, rfl, hu, hmany⟩)

theorem takes_quotation_iff (hq : q = '"' ∨ q = '\'') :
    (quotation q).Takes a b ↔
      ∃ body, a = q :: body ∧ Rule.closed? q false body = some body.length := by
  have hpieces (body : List Char) := takes_pieces_iff (a := body) (b := b) (q := q)
    (by rcases hq with rfl | rfl <;> decide) (by rcases hq with rfl | rfl <;> decide)
  simp only [quotation, takes_mark_seq_iff, hpieces]

end Taking

/-! ## 2. A pattern takes the lexemes of its rule -/

section Lexemes

variable {r : Rule} {a b text : List Char} {n : Nat}

theorem takes_float_iff :
    Rule.float.pattern.Takes a b ↔ Rule.float.Lexeme a := by
  rw [Rule.pattern, takes_seq_iff]
  simp only [takes_run_iff, takes_mark_seq_iff]
  constructor
  · rintro ⟨whole, _, rfl, ⟨hne, hwhole⟩, fraction, rfl, hne', hfraction⟩
    exact ⟨whole, fraction, rfl, hne, hne', hwhole, hfraction⟩
  · rintro ⟨whole, fraction, rfl, hne, hne', hwhole, hfraction⟩
    exact ⟨whole, '.' :: fraction, rfl, ⟨hne, hwhole⟩, fraction, rfl, hne', hfraction⟩

theorem takes_braces_iff : Rule.braces.pattern.Takes a b ↔ Rule.braces.Lexeme a := by
  rw [Rule.pattern, takes_mark_seq_iff]
  simp only [takes_seq_iff, takes_others_iff, takes_mark_iff]
  constructor
  · rintro ⟨_, rfl, body, _, rfl, hbody, rfl⟩
    exact ⟨body, rfl, hbody⟩
  · rintro ⟨body, rfl, hbody⟩
    exact ⟨_, rfl, body, _, rfl, hbody, rfl⟩

/-- A line comment is taken with the line feed that ends it, or at the end of the text. -/
theorem takes_lineComment_iff :
    Rule.lineComment.pattern.Takes a b ↔
      Rule.lineComment.Lexeme a ∧ (a.getLast? = some '\n' ∨ b = []) := by
  simp only [Rule.pattern, takes_mark_seq_iff]
  simp only [takes_seq_iff, takes_others_iff, takes_alt_iff, takes_mark_iff, takes_atEnd_iff]
  constructor
  · rintro ⟨_, rfl, _, rfl, body, _, rfl, hbody, rfl | ⟨rfl, rfl⟩⟩
    · exact ⟨⟨body, hbody, .inl rfl⟩, .inl (by simp [List.getLast?_cons])⟩
    · exact ⟨⟨body, hbody, .inr (by simp)⟩, .inr rfl⟩
  · rintro ⟨⟨body, hbody, rfl | rfl⟩, hend⟩
    · exact ⟨_, rfl, _, rfl, body, _, rfl, hbody, .inl rfl⟩
    · have hlast : ('/' :: '/' :: body).getLast? ≠ some '\n' := by
        intro hlast
        have hmem := List.mem_of_getLast? hlast
        simp [hbody] at hmem
      rcases hend with h | rfl
      · exact absurd h hlast
      · exact ⟨_, rfl, body, rfl, body, [], by simp, hbody, .inr ⟨rfl, rfl⟩⟩

theorem takes_word_iff : Rule.word.pattern.Takes a b ↔ Rule.word.Lexeme a := by
  simp only [Rule.pattern, takes_one_seq_iff, takes_many_one_iff, Rule.Lexeme]

theorem takes_quoted_iff : Rule.quoted.pattern.Takes a b ↔ Rule.quoted.Lexeme a := by
  rw [Rule.pattern, takes_alt_iff, takes_quotation_iff (.inl rfl), takes_quotation_iff (.inr rfl)]
  constructor
  · rintro (⟨body, rfl, hbody⟩ | ⟨body, rfl, hbody⟩)
    · exact ⟨'"', body, rfl, .inl rfl, hbody⟩
    · exact ⟨'\'', body, rfl, .inr rfl, hbody⟩
  · rintro ⟨q, body, rfl, rfl | rfl, hbody⟩
    · exact .inl ⟨body, rfl, hbody⟩
    · exact .inr ⟨body, rfl, hbody⟩

/-- **A pattern takes the lexemes of its rule**, but a line comment that has not come to its line
feed it takes at the end of the text only. -/
theorem takes_pattern_iff :
    r.pattern.Takes a b ↔
      r.Lexeme a ∧ (r = .lineComment → a.getLast? = some '\n' ∨ b = []) := by
  cases r with
  | dot | comma | semicolon | backslash => simpa [Rule.pattern, Rule.Lexeme] using takes_mark_iff
  | blanks | integer => simpa [Rule.pattern, Rule.Lexeme] using takes_run_iff
  | braces => simpa using takes_braces_iff
  | lineComment => simpa using takes_lineComment_iff
  | float => simpa using takes_float_iff
  | quoted => simpa using takes_quoted_iff
  | word => simpa using takes_word_iff

end Lexemes

end UnitLang.Pattern
