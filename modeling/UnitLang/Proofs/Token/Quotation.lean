/-
# Where a quotation closes

The search for the quote that closes a quotation goes from the left to the right and takes each
backslash with the character that it escapes.  Whether a quote is escaped can also be seen from the
right: it is, just when an odd number of backslashes stand directly before it.  `escapes` carries
along whether the next character is escaped, and `foldl_escapes_iff` reads this off the backslashes.

So a quotation closes behind the first quote with an even number of backslashes before it, unless a
line feed comes before that (`closed?_eq_some_iff`, `closed?_iff_closes`).  No other character has
any influence: where the text has another one in its place, the quotation closes at the same place
(`closed?_congr`).
-/
import UnitLang.Proofs.Token.Tail
import Mathlib.Algebra.Group.Nat.Even
import Mathlib.Data.List.DropRight
import Mathlib.Data.List.Forall2
import Mathlib.Data.List.Induction

namespace UnitLang.Rule

/-! ## 1. Escapes, from the left and from the right -/

/-- Whether the character behind `c` is escaped, if `c` is or is not. -/
def escapes (escaped : Bool) (c : Char) : Bool := !escaped && decide (c = '\\')

/-- How many backslashes stand at the end of the text. -/
def backslashesAtEnd (text : List Char) : Nat := (text.rtakeWhile (· = '\\')).length

/-- **The character behind a text is escaped** just when an odd number of backslashes end it. -/
theorem foldl_escapes_iff (text : List Char) :
    text.foldl escapes false = false ↔ Even (backslashesAtEnd text) := by
  induction text using List.reverseRecOn with
  | nil => simp [backslashesAtEnd]
  | append_singleton text c ih =>
    rw [List.foldl_append, List.foldl_cons, List.foldl_nil, escapes, backslashesAtEnd]
    by_cases hc : c = '\\'
    · rw [List.rtakeWhile_concat_pos _ _ _ (by simpa using hc), List.length_append,
        List.length_singleton, Nat.even_add_one, ← backslashesAtEnd, ← ih, hc]
      simp
    · rw [List.rtakeWhile_concat_neg _ _ _ (by simpa using hc)]
      simp [hc]

/-! ## 2. The search for the closing quote -/

/-- The first quote `q` in the text that is not escaped stands between `body` and `rest`, where
`escaped` says whether the first character is. -/
structure FirstUnescaped (q : Char) (escaped : Bool) (text body rest : List Char) : Prop where
  cut : text = body ++ q :: rest
  unescaped : body.foldl escapes escaped = false
  first : ∀ body' rest', text = body' ++ q :: rest' → body'.foldl escapes escaped = false →
    body.length ≤ body'.length

section Search

variable {q c d : Char} {escaped : Bool} {text text' body rest : List Char} {n : Nat}

theorem firstUnescaped_nil : ¬ FirstUnescaped q escaped [] body rest := by
  intro h
  have hcut := h.cut
  simp at hcut

/-- A quote that is not escaped is the first. -/
theorem firstUnescaped_here_iff :
    FirstUnescaped q false (q :: text) body rest ↔ body = [] ∧ rest = text := by
  constructor
  · intro h
    have hle := h.first [] text rfl rfl
    obtain rfl := List.length_eq_zero_iff.mp (Nat.le_zero.mp hle)
    exact ⟨rfl, (List.cons_eq_cons.mp h.cut).2.symm⟩
  · rintro ⟨rfl, rfl⟩
    exact ⟨rfl, rfl, fun _ _ _ _ => Nat.zero_le _⟩

/-- Any other character is passed over. -/
theorem firstUnescaped_cons_iff (hc : ¬ (escaped = false ∧ c = q)) :
    FirstUnescaped q escaped (c :: text) body rest ↔
      ∃ body', body = c :: body' ∧ FirstUnescaped q (escapes escaped c) text body' rest := by
  have hbody {body rest : List Char} (hcut : c :: text = body ++ q :: rest)
      (hescaped : body.foldl escapes escaped = false) :
      ∃ body', body = c :: body' ∧ text = body' ++ q :: rest := by
    cases body with
    | nil => exact absurd ⟨hescaped, (List.cons_eq_cons.mp hcut).1⟩ hc
    | cons d body =>
      obtain ⟨rfl, htext⟩ := List.cons_eq_cons.mp hcut
      exact ⟨body, rfl, htext⟩
  constructor
  · intro h
    obtain ⟨body', rfl, htext⟩ := hbody h.cut h.unescaped
    refine ⟨body', rfl, htext, h.unescaped, ?_⟩
    intro body'' rest'' hcut hescaped
    have hle := h.first (c :: body'') rest'' (by rw [hcut]; rfl) hescaped
    exact Nat.le_of_succ_le_succ hle
  · rintro ⟨body', rfl, h⟩
    refine ⟨by rw [h.cut]; rfl, h.unescaped, ?_⟩
    intro body'' rest'' hcut hescaped
    obtain ⟨body'', rfl, htext⟩ := hbody hcut hescaped
    exact Nat.succ_le_succ (h.first body'' rest'' htext hescaped)

theorem closed?_cons (hn : c ≠ '\n') (hc : ¬ (escaped = false ∧ c = q)) :
    closed? q escaped (c :: text) = (closed? q (escapes escaped c) text).map (· + 1) := by
  cases escaped with
  | true => simp [closed?, escapes, hn]
  | false =>
    have hcq : c ≠ q := fun heq => hc ⟨rfl, heq⟩
    simp [closed?, escapes, hn, hcq]

/-- **The search finds the first quote that is not escaped**, if no line feed comes before it. -/
theorem closed?_eq_some_iff (hq : q ≠ '\n') :
    closed? q escaped text = some n ↔
      ∃ body rest, FirstUnescaped q escaped text body rest ∧ '\n' ∉ body ∧ n = body.length + 1 := by
  induction text generalizing escaped n with
  | nil => simp [closed?, firstUnescaped_nil]
  | cons c text ih =>
    by_cases hc : escaped = false ∧ c = q
    · obtain ⟨rfl, rfl⟩ := hc
      simp only [firstUnescaped_here_iff, closed?, if_neg hq]
      constructor
      · intro h
        exact ⟨[], text, ⟨rfl, rfl⟩, List.not_mem_nil, by simpa using h.symm⟩
      · rintro ⟨body, rest, ⟨rfl, rfl⟩, -, rfl⟩
        simp
    · simp only [firstUnescaped_cons_iff hc]
      by_cases hn : c = '\n'
      · subst hn
        constructor
        · intro h
          simp [closed?] at h
        · rintro ⟨body, rest, ⟨body', rfl, -⟩, hbody, -⟩
          simp at hbody
      · rw [closed?_cons hn hc, Option.map_eq_some_iff]
        constructor
        · rintro ⟨m, hm, rfl⟩
          obtain ⟨body, rest, hfirst, hbody, rfl⟩ := ih.mp hm
          exact ⟨c :: body, rest, ⟨body, rfl, hfirst⟩,
            List.not_mem_cons_of_ne_of_not_mem (Ne.symm hn) hbody, rfl⟩
        · rintro ⟨_, rest, ⟨body, rfl, hfirst⟩, hbody, rfl⟩
          have hrest : '\n' ∉ body := fun h => hbody (List.mem_cons_of_mem _ h)
          exact ⟨_, ih.mpr ⟨body, rest, hfirst, hrest, rfl⟩, rfl⟩

/-! ## 3. Closing by parity -/

/-- A quotation that `q` has opened before the text closes behind `body`: there stands the first
quote with an even number of backslashes before it, and no line feed comes before that. -/
structure Closes (q : Char) (text body rest : List Char) : Prop where
  cut : text = body ++ q :: rest
  even : Even (backslashesAtEnd body)
  first : ∀ body' rest', text = body' ++ q :: rest' → Even (backslashesAtEnd body') →
    body.length ≤ body'.length
  newline_notMem : '\n' ∉ body

theorem closes_iff :
    Closes q text body rest ↔ FirstUnescaped q false text body rest ∧ '\n' ∉ body := by
  constructor
  · intro h
    refine ⟨⟨h.cut, (foldl_escapes_iff body).mpr h.even, ?_⟩, h.newline_notMem⟩
    intro body' rest' hcut hescaped
    exact h.first body' rest' hcut ((foldl_escapes_iff body').mp hescaped)
  · rintro ⟨h, hbody⟩
    refine ⟨h.cut, (foldl_escapes_iff body).mp h.unescaped, ?_, hbody⟩
    intro body' rest' hcut heven
    exact h.first body' rest' hcut ((foldl_escapes_iff body').mpr heven)

/-- **The search finds where the quotation closes.** -/
theorem closed?_iff_closes (hq : q ≠ '\n') :
    closed? q false text = some n ↔ ∃ body rest, Closes q text body rest ∧ n = body.length + 1 := by
  rw [closed?_eq_some_iff hq]
  simp only [closes_iff, and_assoc]

theorem quoted?_iff_closes (hq : q = '"' ∨ q = '\'') :
    quoted? (q :: text) = some n ↔ ∃ body rest, Closes q text body rest ∧ n = body.length + 2 := by
  have hn : q ≠ '\n' := by rcases hq with rfl | rfl <;> decide
  simp only [quoted?, if_pos hq, Option.map_eq_some_iff, closed?_iff_closes hn]
  constructor
  · rintro ⟨_, ⟨body, rest, hcloses, rfl⟩, rfl⟩
    exact ⟨body, rest, hcloses, rfl⟩
  · rintro ⟨body, rest, hcloses, rfl⟩
    exact ⟨_, ⟨body, rest, hcloses, rfl⟩, rfl⟩

/-- Only the rule for quotations matches at a quote. -/
theorem eq_quoted_of_matched? {r : Rule} (hq : q = '"' ∨ q = '\'')
    (h : r.matched? (q :: text) = some n) : r = quoted := by
  have hleader : leader q = some quoted := by rcases hq with rfl | rfl <;> rfl
  exact eq_of_leader hleader (by decide) h

theorem first?_of_closes (hq : q = '"' ∨ q = '\'') (h : Closes q text body rest) :
    first? (q :: text) = some (quoted, body.length + 2) :=
  first?_of_matched? ((quoted?_iff_closes hq).mpr ⟨body, rest, h, rfl⟩) (by simp)

/-- Where no quotation closes, no rule matches at the quote. -/
theorem matched?_eq_none_of_not_closes (hq : q = '"' ∨ q = '\'')
    (h : ∀ body rest, ¬ Closes q text body rest) (r : Rule) : r.matched? (q :: text) = none := by
  cases hn : r.matched? (q :: text) with
  | none => rfl
  | some n =>
    obtain rfl := eq_quoted_of_matched? hq hn
    obtain ⟨body, rest, hcloses, -⟩ := (quoted?_iff_closes hq).mp hn
    exact absurd hcloses (h body rest)

/-! ## 4. What has no influence -/

/-- The same character, or two of which neither has a meaning between quotes `q`. -/
def AlikeWithin (q c d : Char) : Prop :=
  c = d ∨ c ∉ [q, '\\', '\n'] ∧ d ∉ [q, '\\', '\n']

theorem AlikeWithin.eq_iff {e : Char} (h : AlikeWithin q c d) (he : e ∈ [q, '\\', '\n']) :
    c = e ↔ d = e := by
  rcases h with rfl | ⟨hc, hd⟩
  · rfl
  · constructor
    · rintro rfl
      exact absurd he hc
    · rintro rfl
      exact absurd he hd

/-- **A character without a meaning may be another one.** -/
theorem closed?_congr (h : List.Forall₂ (AlikeWithin q) text text') :
    closed? q escaped text = closed? q escaped text' := by
  induction h generalizing escaped with
  | nil => rfl
  | cons hc _ ih =>
    simp only [closed?, hc.eq_iff (e := q) (by simp), hc.eq_iff (e := '\\') (by simp),
      hc.eq_iff (e := '\n') (by simp), ih]

end Search

end UnitLang.Rule

namespace UnitLang

open Rule (first? Closes AlikeWithin)

/-- **A quotation closes by the parity of backslashes.**  At a quote only the rule for quotations
can match.  It matches up to the first quote of this kind that has an even number of backslashes
before it, if there is one and no line feed comes before; the token is the text up to there with
both quotes.  Otherwise no rule matches, and reading fails at the opening quote.  Characters other
than this quote, the backslash and the line feed may be other ones without any difference. -/
theorem quotation_closes_by_parity {q : Char} (hq : q = '"' ∨ q = '\'') (text : List Char) :
    (∀ n, Rule.quoted.matched? (q :: text) = some n ↔
      ∃ body rest, Closes q text body rest ∧ n = body.length + 2) ∧
    (∀ body rest, Closes q text body rest → ∀ p,
      scan p (q :: text) = .token ⟨.string, String.ofList (q :: (body ++ [q])),
        ⟨p, p.advance (q :: (body ++ [q]))⟩⟩ rest) ∧
    ((∀ body rest, ¬ Closes q text body rest) →
      (∀ r : Rule, r.matched? (q :: text) = none) ∧
        ∀ p, items p (q :: text) = ⟨[], .failed (.unrecognised p q)⟩) ∧
    ∀ text', List.Forall₂ (AlikeWithin q) text text' →
      Rule.quoted.matched? (q :: text') = Rule.quoted.matched? (q :: text) := by
  refine ⟨fun n => Rule.quoted?_iff_closes hq, ?_, ?_, ?_⟩
  · intro body rest h p
    have htext : q :: text = q :: (body ++ [q]) ++ rest := by rw [h.cut]; simp
    have hlen : body.length + 2 = (q :: (body ++ [q])).length := by simp
    have hfirst := Rule.first?_of_closes hq h
    rw [htext, hlen] at hfirst
    rw [htext, scan_token (k := .string) hfirst rfl, Token.cut, List.take_left, List.drop_left]
  · intro h
    have hnone := Rule.matched?_eq_none_of_not_closes hq h
    exact ⟨hnone, fun p => items_stuck (Rule.first?_eq_none_iff.mpr hnone)⟩
  · intro text' h
    simp only [Rule.matched?, Rule.quoted?, if_pos hq, Rule.closed?_congr h]

/-- The first quote behind the opening one is escaped.  The second has two backslashes before it, of
which one escapes the other, so the quotation closes; with three it would not.  The slashes, the
brace and the other quote may be letters. -/
theorem quotation_closes_by_parity_two_backslashes :
    Closes '"' "//\x7b'\\\"\\\\\" x".toList "//\x7b'\\\"\\\\".toList " x".toList ∧
    scan .start "\"//\x7b'\\\"\\\\\" x".toList =
      .token ⟨.string, "\"//\x7b'\\\"\\\\\"", ⟨⟨0, 1, 0⟩, ⟨10, 1, 10⟩⟩⟩ " x".toList ∧
    items .start "\"//\x7b'\\\"\\\\\\\" x".toList = ⟨[], .failed (.unrecognised ⟨0, 1, 0⟩ '"')⟩ ∧
    Rule.quoted.matched? "\"abcd\\\"\\\\\" x".toList = some 10 := by
  obtain ⟨hmatch, hscan, -, hcongr⟩ :=
    quotation_closes_by_parity (.inl rfl) "//\x7b'\\\"\\\\\" x".toList
  have hcloses :
      Closes '"' "//\x7b'\\\"\\\\\" x".toList "//\x7b'\\\"\\\\".toList " x".toList := by
    obtain ⟨body, rest, h, hn⟩ := (hmatch 10).mp (by decide +kernel)
    have hcut : "//\x7b'\\\"\\\\".toList ++ '"' :: " x".toList = body ++ '"' :: rest := h.cut
    have hlen : body.length = 8 := by omega
    obtain ⟨rfl, htail⟩ := List.append_inj hcut (hlen ▸ rfl)
    obtain ⟨-, rfl⟩ := List.cons_eq_cons.mp htail
    exact h
  refine ⟨hcloses, hscan _ _ hcloses .start, ?_, ?_⟩
  · obtain ⟨hmatch, -, hfail, -⟩ :=
      quotation_closes_by_parity (.inl rfl) "//\x7b'\\\"\\\\\\\" x".toList
    refine (hfail fun body rest h => ?_).2 .start
    have hsome := (hmatch _).mpr ⟨body, rest, h, rfl⟩
    have hnone : Rule.quoted.matched? ('"' :: "//\x7b'\\\"\\\\\\\" x".toList) = none := by
      decide +kernel
    rw [hnone] at hsome
    cases hsome
  · have halike : List.Forall₂ (AlikeWithin '"') "//\x7b'\\\"\\\\\" x".toList
        "abcd\\\"\\\\\" x".toList := by
      simp [AlikeWithin]
    rw [← (hmatch 10).mpr ⟨_, _, hcloses, rfl⟩]
    exact hcongr _ halike

end UnitLang
