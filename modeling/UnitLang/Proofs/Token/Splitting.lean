/-
# Texts cut between two matches

`Lexes p text ts q rest` says that reading the tokens `ts` from `text`, which begins at `p`, leads
to `q`, where `rest` is left and no match is begun.  Every token of a text begins at such a place,
and so does the end of the text or the character where no rule matches (`exists_lexes_of_tokens`,
`exists_lexes_all`).

Such a place is where a text can be cut.  Without the rest there are the same tokens before it,
and the text ends there (`Lexes.cut_off`, `Lexes.items`).  With layout there and another text
behind it, the items of that text follow the tokens (`Lexes.items_append_layout`): the layout may
become part of white space, but no token goes on with it.  Only a line comment that the end of the
text cuts off would go on, and a line feed ends it too (`Lexes.items_newline`).

Any kinds can be had so: `Kind.spelling` spells one token of each kind, and `spell` writes a
text with these tokens (`items_spell`).
-/
import UnitLang.Proofs.Token.Items
import UnitLang.Proofs.Token.Lexeme

namespace UnitLang

open Rule (first? Lexeme matched?_append_iff matched?_of_first?)

/-! ## 1. Cuts -/

/-- Reading these tokens leads from one place in a text to another, with no match begun there. -/
inductive Lexes : Position → List Char → List Token → Position → List Char → Prop where
  | here (p : Position) (text : List Char) : Lexes p text [] p text
  | silent {p q : Position} {a text rest : List Char} {ts : List Token} {r : Rule} :
      first? (a ++ text) = some (r, a.length) → r.kind? a = none →
      Lexes (p.advance a) text ts q rest → Lexes p (a ++ text) ts q rest
  | token {p q : Position} {a text rest : List Char} {ts : List Token} {r : Rule} {k : Kind} :
      first? (a ++ text) = some (r, a.length) → r.kind? a = some k →
      Lexes (p.advance a) text ts q rest →
      Lexes p (a ++ text) (⟨k, String.ofList a, ⟨p, p.advance a⟩⟩ :: ts) q rest

section Cuts

variable {p q : Position} {a text rest front : List Char} {ts before after : List Token}
  {t : Token} {r : Rule} {k : Kind}

theorem items_append_silent (h : first? (a ++ text) = some (r, a.length))
    (hk : r.kind? a = none) : items p (a ++ text) = items (p.advance a) text := by
  have hitems := items_silent (p := p) h (by simpa using hk)
  simpa using hitems

theorem items_append_token (h : first? (a ++ text) = some (r, a.length))
    (hk : r.kind? a = some k) :
    items p (a ++ text) =
      ⟨⟨k, String.ofList a, ⟨p, p.advance a⟩⟩ :: (items (p.advance a) text).tokens,
        (items (p.advance a) text).ending⟩ := by
  have hitems := items_token (p := p) h (by simpa using hk)
  simpa [Token.cut] using hitems

/-- The items behind a cut follow the tokens before it. -/
theorem Lexes.items (h : Lexes p text ts q rest) :
    items p text = ⟨ts ++ (UnitLang.items q rest).tokens, (UnitLang.items q rest).ending⟩ := by
  induction h with
  | here p text => rfl
  | silent hf hk _ ih => rw [items_append_silent hf hk, ih]
  | token hf hk _ ih => rw [items_append_token hf hk, ih, List.cons_append]

/-- A match at the beginning of a text, as a piece of it. -/
theorem exists_append_of_first? {n : Nat} (h : first? text = some (r, n)) :
    ∃ a rest, text = a ++ rest ∧ a.length = n := by
  obtain ⟨a, rest, heq, hlen, -, -⟩ := Rule.exists_lexeme_of_matched? (matched?_of_first? h)
  exact ⟨a, rest, heq, hlen⟩

/-- Before every token the text can be cut. -/
theorem exists_lexes_of_tokens (h : (items p text).tokens = before ++ t :: after) :
    ∃ rest, Lexes p text before t.span.start rest := by
  induction p, text using lex_induction generalizing before with
  | nil p => simp [items_nil] at h
  | stuck p c rest hf => simp [items_stuck hf] at h
  | silent p text r n hf hk ih =>
    rw [items_silent hf hk] at h
    obtain ⟨rest, hrest⟩ := ih h
    obtain ⟨a, text, rfl, rfl⟩ := exists_append_of_first? hf
    rw [List.take_left] at hk hrest
    rw [List.drop_left] at hrest
    exact ⟨rest, .silent hf hk hrest⟩
  | token p text r n k hf hk ih =>
    rw [items_token hf hk] at h
    obtain ⟨a, text, rfl, rfl⟩ := exists_append_of_first? hf
    cases before with
    | nil =>
      obtain ⟨rfl, -⟩ := List.cons_eq_cons.mp h
      exact ⟨_, .here p _⟩
    | cons t' before =>
      obtain ⟨rfl, htail⟩ := List.cons_eq_cons.mp h
      obtain ⟨rest, hrest⟩ := ih htail
      rw [List.take_left] at hk hrest
      rw [List.drop_left] at hrest
      refine ⟨rest, ?_⟩
      have := Lexes.token hf hk hrest
      simpa [Token.cut] using this

/-- Behind all tokens the text can be cut, at its end or where no rule matches. -/
theorem exists_lexes_all (p : Position) (text : List Char) :
    ∃ q rest, Lexes p text (items p text).tokens q rest ∧
      ((items p text).ending = .ended q ∧ rest = [] ∨
        ∃ c tail, (items p text).ending = .failed (.unrecognised q c) ∧ rest = c :: tail ∧
          first? rest = none) := by
  induction p, text using lex_induction with
  | nil p =>
    rw [items_nil]
    exact ⟨p, [], .here p [], .inl ⟨rfl, rfl⟩⟩
  | stuck p c rest hf =>
    rw [items_stuck hf]
    exact ⟨p, c :: rest, .here p _, .inr ⟨c, rest, rfl, rfl, hf⟩⟩
  | silent p text r n hf hk ih =>
    obtain ⟨q, rest, hrest, hend⟩ := ih
    rw [items_silent hf hk]
    obtain ⟨a, text, rfl, rfl⟩ := exists_append_of_first? hf
    rw [List.take_left] at hk
    rw [List.take_left, List.drop_left] at hrest hend ⊢
    exact ⟨q, rest, .silent hf hk hrest, hend⟩
  | token p text r n k hf hk ih =>
    obtain ⟨q, rest, hrest, hend⟩ := ih
    obtain ⟨a, text, rfl, rfl⟩ := exists_append_of_first? hf
    rw [List.take_left] at hk
    rw [List.take_left, List.drop_left] at hrest hend
    rw [items_append_token hf hk]
    exact ⟨q, rest, .token hf hk hrest, hend⟩

/-- A token is what the first rule matches, at a place of the text. -/
theorem exists_match_of_mem (h : t ∈ (items p text).tokens) :
    ∃ front value after r, text = front ++ (value ++ after) ∧
      first? (value ++ after) = some (r, value.length) ∧ r.kind? value = some t.kind ∧
      t.value = String.ofList value ∧ t.span.start = p.advance front := by
  induction p, text using lex_induction with
  | nil p => simp [items_nil] at h
  | stuck p c rest hf => simp [items_stuck hf] at h
  | silent p text r n hf hk ih =>
    rw [items_silent hf hk] at h
    obtain ⟨front, value, after, r', htext, hmatch⟩ := ih h
    refine ⟨text.take n ++ front, value, after, r', ?_, ?_⟩
    · rw [List.append_assoc, ← htext, List.take_append_drop]
    · rwa [Position.advance_append]
  | token p text r n k hf hk ih =>
    rw [items_token hf hk] at h
    rcases List.mem_cons.mp h with rfl | h
    · obtain ⟨a, rest, rfl, rfl⟩ := exists_append_of_first? hf
      rw [List.take_left] at hk
      exact ⟨[], a, rest, r, rfl, hf, hk, by simp [Token.cut], rfl⟩
    · obtain ⟨front, value, after, r', htext, hmatch⟩ := ih h
      refine ⟨text.take n ++ front, value, after, r', ?_, ?_⟩
      · rw [List.append_assoc, ← htext, List.take_append_drop]
      · rwa [Position.advance_append]

/-- Where a text comes to its end, all of it has been read. -/
theorem lexes_of_ended (h : items p text = ⟨ts, .ended q⟩) : Lexes p text ts q [] := by
  obtain ⟨q', rest, hlexes, hend⟩ := exists_lexes_all p text
  rw [h] at hlexes hend
  rcases hend with ⟨hq, rfl⟩ | ⟨c, tail, hc, -⟩
  · cases hq
    exact hlexes
  · cases hc

/-- Where no rule matches, the text before the character has been read. -/
theorem lexes_of_failed {e : Error} (h : items p text = ⟨ts, .failed e⟩) :
    ∃ c tail, Lexes p text ts e.position (c :: tail) := by
  obtain ⟨q', rest, hlexes, hend⟩ := exists_lexes_all p text
  rw [h] at hlexes hend
  rcases hend with ⟨hq, -⟩ | ⟨c, tail, hc, rfl, -⟩
  · cases hq
  · cases hc
    exact ⟨c, tail, hlexes⟩

/-- **A text can be cut off**: what is before a cut has the same tokens. -/
theorem Lexes.cut_off (h : Lexes p text ts q rest) :
    ∃ front, text = front ++ rest ∧ q = p.advance front ∧ Lexes p front ts q [] := by
  induction h with
  | here p text => exact ⟨[], rfl, rfl, .here p []⟩
  | silent hf hk _ ih =>
    obtain ⟨front, rfl, rfl, hfront⟩ := ih
    refine ⟨_ ++ front, (List.append_assoc ..).symm, (Position.advance_append ..).symm, ?_⟩
    exact .silent (Rule.first?_of_append hf) hk hfront
  | token hf hk _ ih =>
    obtain ⟨front, rfl, rfl, hfront⟩ := ih
    refine ⟨_ ++ front, (List.append_assoc ..).symm, (Position.advance_append ..).symm, ?_⟩
    exact .token (Rule.first?_of_append hf) hk hfront

/-- What is read to the end has been passed over. -/
theorem Lexes.eq_advance (h : Lexes p text ts q []) : q = p.advance text := by
  obtain ⟨front, htext, rfl, -⟩ := h.cut_off
  rw [htext, List.append_nil]

end Cuts

/-! ## 2. Layout at a cut -/

/-- The last match of the text is a line comment that the end of the text cuts off. -/
def EndsInComment (p : Position) (text : List Char) : Prop :=
  ∃ ts q body, Lexes p text ts q ('/' :: '/' :: body) ∧ '\n' ∉ body

section Layout

variable {p q : Position} {a v front rest : List Char} {ts : List Token} {c : Char}

/-- From the end of a text there is no way on. -/
theorem Lexes.of_nil (h : Lexes p [] ts q rest) : ts = [] ∧ q = p := by
  generalize htext : ([] : List Char) = text at h
  cases h with
  | here => exact ⟨rfl, rfl⟩
  | silent hf _ _ =>
    have hpos := Rule.matched?_pos (matched?_of_first? hf)
    cases (List.append_eq_nil_iff.mp htext.symm).1
    exact absurd hpos (Nat.lt_irrefl 0)
  | token hf _ _ =>
    have hpos := Rule.matched?_pos (matched?_of_first? hf)
    cases (List.append_eq_nil_iff.mp htext.symm).1
    exact absurd hpos (Nat.lt_irrefl 0)

theorem isBlank_newline : ∀ c ∈ ['\n'], Text.isBlank c = true :=
  List.forall_mem_singleton.mpr (by decide)

/-- White space before a text that does not begin with any is passed over. -/
theorem items_blanks_of_head (ha : ∀ c ∈ a, Text.isBlank c = true)
    (hv : ∀ c ∈ v.head?, Text.isBlank c = false) :
    items p (a ++ v) = items (p.advance a) v := by
  by_cases hne : a = []
  · subst hne
    rfl
  · exact items_append_silent (Rule.first?_blanks hne ha hv) rfl

/-- White space is passed over, also as a part of more white space. -/
theorem items_blanks (ha : ∀ c ∈ a, Text.isBlank c = true) (v : List Char) :
    items p (a ++ v) = items (p.advance a) v := by
  obtain ⟨b, w, rfl, hb, hw⟩ := Rule.exists_run_append Text.isBlank v
  rw [← List.append_assoc, items_blanks_of_head (List.forall_mem_append.mpr ⟨ha, hb⟩) hw,
    items_blanks_of_head hb hw, Position.advance_append]

/-- A line comment at the end of a text that has no line feed is cut off. -/
theorem EndsInComment.of_lexeme (h : Rule.lineComment.Lexeme a)
    (hlast : a.getLast? ≠ some '\n') : EndsInComment p a := by
  obtain ⟨body, hbody, rfl | rfl⟩ := h
  · exact absurd (by simp [List.getLast?_cons]) hlast
  · exact ⟨[], p, body, .here p _, hbody⟩

/-- **Layout at a cut is layout behind the tokens before it**: no match goes on with it, but that
white space becomes more white space and that a line feed ends a line comment. -/
theorem Lexes.items_append_layout (h : Lexes p front ts q rest) (hrest : rest = [])
    (hc : Rule.BeginsLayout c) (hopen : EndsInComment p front → c = '\n') (v : List Char) :
    UnitLang.items p (front ++ c :: v) =
      ⟨ts ++ (UnitLang.items q (c :: v)).tokens, (UnitLang.items q (c :: v)).ending⟩ := by
  induction h with
  | here p text =>
    subst hrest
    rfl
  | @silent p q a text rest ts r hf hk hlexes ih =>
    obtain ⟨hform, hstop⟩ := matched?_append_iff.mp (matched?_of_first? hf)
    have hopen' (hcomment : EndsInComment (p.advance a) text) : c = '\n' := by
      obtain ⟨ts, q, body, hlexes, hbody⟩ := hcomment
      exact hopen ⟨ts, q, body, .silent hf hk hlexes, hbody⟩
    rw [List.append_assoc]
    rcases hstop.append_layout hc v with hstop | ⟨rfl, hr⟩
    · rw [items_append_silent (Rule.first?_append_layout hf hc hstop) hk]
      exact ih hrest hopen'
    · -- The match is the last one, and takes in some of the layout.
      obtain ⟨rfl, rfl⟩ := hlexes.of_nil
      rw [List.nil_append, List.nil_append]
      rcases hr with rfl | ⟨rfl, hlast⟩
      · exact items_blanks hform.2 (c :: v)
      · rw [List.append_nil] at hopen
        obtain rfl := hopen (.of_lexeme hform hlast)
        have hcomment := items_append_silent (p := p)
          (Rule.first?_comment_newline hform hlast v) rfl
        have hblank := items_blanks (p := p.advance a) isBlank_newline v
        rw [List.singleton_append] at hblank
        rw [hblank, ← Position.advance_append, ← hcomment, List.append_assoc]
        rfl
  | @token p q a text rest ts r k hf hk hlexes ih =>
    obtain ⟨-, hstop⟩ := matched?_append_iff.mp (matched?_of_first? hf)
    have hopen' (hcomment : EndsInComment (p.advance a) text) : c = '\n' := by
      obtain ⟨ts, q, body, hlexes, hbody⟩ := hcomment
      exact hopen ⟨_, q, body, .token hf hk hlexes, hbody⟩
    rw [List.append_assoc]
    rcases hstop.append_layout hc v with hstop | ⟨rfl, rfl | ⟨rfl, -⟩⟩
    · rw [items_append_token (Rule.first?_append_layout hf hc hstop) hk, ih hrest hopen',
        List.cons_append]
    · cases hk
    · cases hk

/-- **A line feed at a cut ends nothing but layout**: the items of the text behind it follow. -/
theorem Lexes.items_newline (h : Lexes p front ts q []) (v : List Char) :
    UnitLang.items p (front ++ '\n' :: v) =
      ⟨ts ++ (UnitLang.items (q.after '\n') v).tokens,
        (UnitLang.items (q.after '\n') v).ending⟩ := by
  have hblank : UnitLang.items q ('\n' :: v) = UnitLang.items (q.after '\n') v :=
    items_blanks isBlank_newline v
  rw [h.items_append_layout rfl (by decide) (fun _ => rfl), hblank]

end Layout

/-! ## 3. Texts with given tokens -/

/-- A text that is a token of this kind; the end of the input has none. -/
def Kind.spelling : Kind → List Char
  | endOfInput => []
  | identifier => "a".toList
  | bool => "true".toList
  | int => "0".toList
  | float => "0.0".toList
  | string => "\"\"".toList
  | dot => ".".toList
  | comma => ",".toList
  | semicolon => ";".toList
  | backslash => "\\".toList
  | unitKw => "unit".toList
  | usesKw => "uses".toList
  | asKw => "as".toList
  | constKw => "const".toList
  | varKw => "var".toList
  | beginKw => "begin".toList
  | ifKw => "if".toList
  | thenKw => "then".toList
  | elseKw => "else".toList
  | caseKw => "case".toList
  | isKw => "is".toList
  | endKw => "end".toList
  | constructorKw => "constructor".toList
  | functionKw => "function".toList

/-- A text with tokens of these kinds, one on each line. -/
def spell (ks : List Kind) : List Char := ks.flatMap fun k => k.spelling ++ ['\n']

/-- A spelling on a line of its own is read as its kind. -/
theorem first?_spelling {k : Kind} (hk : k ≠ .endOfInput) (v : List Char) :
    ∃ r, first? (k.spelling ++ (['\n'] ++ v)) = some (r, k.spelling.length) ∧
      r.kind? k.spelling = some k := by
  cases k with
  | endOfInput => exact absurd rfl hk
  | dot => exact ⟨.dot, rfl, rfl⟩
  | comma => exact ⟨.comma, rfl, rfl⟩
  | semicolon => exact ⟨.semicolon, rfl, rfl⟩
  | backslash => exact ⟨.backslash, rfl, rfl⟩
  | int => exact ⟨.integer, rfl, rfl⟩
  | float => exact ⟨.float, rfl, rfl⟩
  | string => exact ⟨.quoted, rfl, rfl⟩
  | _ => exact ⟨.word, rfl, by decide⟩

/-- **A spelled text has the tokens it spells.** -/
theorem items_spell {ks : List Kind} (hks : ∀ k ∈ ks, k ≠ .endOfInput) (p : Position) :
    (items p (spell ks)).tokens.map (·.kind) = ks ∧
      ∃ q, (items p (spell ks)).ending = .ended q := by
  induction ks generalizing p with
  | nil =>
    change (items p []).tokens.map (·.kind) = [] ∧ ∃ q, (items p []).ending = .ended q
    rw [items_nil]
    exact ⟨rfl, p, rfl⟩
  | cons k ks ih =>
    obtain ⟨hk, hks⟩ := List.forall_mem_cons.mp hks
    obtain ⟨r, hf, hr⟩ := first?_spelling hk (spell ks)
    have hsplit : spell (k :: ks) = k.spelling ++ (['\n'] ++ spell ks) := by
      simp [spell]
    obtain ⟨hkinds, q, hend⟩ := ih hks ((p.advance k.spelling).advance ['\n'])
    rw [hsplit, items_append_token hf hr, items_blanks isBlank_newline]
    exact ⟨by rw [List.map_cons, hkinds], q, hend⟩

end UnitLang
