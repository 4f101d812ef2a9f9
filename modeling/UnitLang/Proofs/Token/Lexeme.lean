/-
# What a rule matches, and where it stops

Each rule matches texts of one form, its lexemes (`Rule.Lexeme`).  Whether it matches a lexeme at
the beginning of a longer text depends, beyond the lexeme, on the next character only: some rules
would go on with it (`Rule.goesOn`).  `matched?_append_iff` says both at once,

    r.matched? (a ++ b) = some a.length ↔ r.Lexeme a ∧ r.Stops a b

so a match is known again wherever the same lexeme stands before a text that does not go on with
it.

The rules do not compete: the first character of a text tells which rule can match there, but for
whole numbers and numbers with a fraction, which both begin with a digit (`leader_eq`).  So a rule
that matches is the first that does, unless it is a whole number and a fraction follows
(`first?_of_matched?`).
-/
import UnitLang.Token.Rule
import Mathlib.Data.List.Basic
import Mathlib.Data.List.TakeWhile

namespace UnitLang.Rule

/-! ## 1. Lexemes -/

/-- The texts that a rule matches as a whole. -/
def Lexeme : Rule → List Char → Prop
  | dot, a => a = ['.']
  | comma, a => a = [',']
  | blanks, a => a ≠ [] ∧ ∀ c ∈ a, Text.isBlank c = true
  | braces, a => ∃ body, a = '\x7b' :: (body ++ ['\x7d']) ∧ '\x7d' ∉ body
  | lineComment, a =>
    ∃ body, '\n' ∉ body ∧ (a = '/' :: '/' :: (body ++ ['\n']) ∨ a = '/' :: '/' :: body)
  | float, a =>
    ∃ whole fraction, a = whole ++ '.' :: fraction ∧ whole ≠ [] ∧ fraction ≠ [] ∧
      (∀ c ∈ whole, c.isDigit = true) ∧ ∀ c ∈ fraction, c.isDigit = true
  | integer, a => a ≠ [] ∧ ∀ c ∈ a, c.isDigit = true
  | quoted, a => ∃ q body, a = q :: body ∧ (q = '"' ∨ q = '\'') ∧
      closed? q false body = some body.length
  | word, a => ∃ c rest, a = c :: rest ∧ isWordStart c = true ∧ ∀ d ∈ rest, isWordPart d = true
  | semicolon, a => a = [';']
  | backslash, a => a = ['\\']

/-- Whether the rule would go on from `a` with this character. -/
def goesOn : Rule → List Char → Char → Bool
  | blanks, _, c => Text.isBlank c
  | lineComment, a, _ => a.getLast? ≠ some '\n'
  | float, _, c | integer, _, c => c.isDigit
  | word, _, c => isWordPart c
  | _, _, _ => false

/-- Whether the rule stops behind `a` when `b` follows. -/
def Stops (r : Rule) (a b : List Char) : Prop := ∀ c ∈ b.head?, r.goesOn a c = false

theorem stops_nil (r : Rule) (a : List Char) : r.Stops a [] := by
  intro c hc
  cases hc

/-! ## 2. Each rule matches its lexemes -/

section Forms

variable {a b : List Char} {p : Char → Bool} {c q : Char}

/-- A run ends just behind `a`. -/
theorem length_takeWhile_append_iff :
    ((a ++ b).takeWhile p).length = a.length ↔
      (∀ c ∈ a, p c = true) ∧ ∀ c ∈ b.head?, p c = false := by
  induction a with
  | nil =>
    cases b with
    | nil => simp
    | cons c b => cases hc : p c <;> simp [hc]
  | cons c a ih =>
    cases hc : p c with
    | false => simp [hc]
    | true => simpa [hc] using ih

/-- Every text is a run, which may be empty, and what follows it. -/
theorem exists_run_append (p : Char → Bool) (text : List Char) :
    ∃ u v, text = u ++ v ∧ (∀ c ∈ u, p c = true) ∧ ∀ c ∈ v.head?, p c = false := by
  refine ⟨text.takeWhile p, text.dropWhile p, List.takeWhile_append_dropWhile.symm,
    fun c hc => List.mem_takeWhile_imp hc, fun c hc => ?_⟩
  have hnot := List.head?_dropWhile_not p text
  rw [Option.mem_def.mp hc] at hnot
  simpa using hnot

theorem mark?_append_iff : mark? c (a ++ b) = some a.length ↔ a = [c] := by
  cases a with
  | nil =>
    constructor
    · intro h
      exact absurd (mark?_bounds h).1 (Nat.lt_irrefl 0)
    · intro h
      cases h
  | cons d a =>
    simp only [List.cons_append, mark?]
    split
    · simp_all [eq_comm]
    · simp_all

theorem run?_append_iff :
    run? p (a ++ b) = some a.length ↔
      (a ≠ [] ∧ ∀ c ∈ a, p c = true) ∧ ∀ c ∈ b.head?, p c = false := by
  have hrun : run? p (a ++ b) = some a.length ↔
      a ≠ [] ∧ ((a ++ b).takeWhile p).length = a.length := by
    unfold run?
    cases hlen : ((a ++ b).takeWhile p).length with
    | zero => cases a <;> simp
    | succ n => cases a <;> simp
  rw [hrun, length_takeWhile_append_iff, and_assoc]

/-- What comes before the first `d`, and what comes from there on. -/
theorem takeWhile_ne_append (h : c ∉ a) :
    (a ++ c :: b).takeWhile (· ≠ c) = a ∧ (a ++ c :: b).dropWhile (· ≠ c) = c :: b := by
  have hpos : ∀ d ∈ a, decide (d ≠ c) = true := by
    intro d hd
    exact decide_eq_true fun heq => h (heq ▸ hd)
  rw [List.takeWhile_append_of_pos hpos, List.dropWhile_append_of_pos hpos]
  simp

/-- Without a `d` nothing is left. -/
theorem takeWhile_ne_self (h : c ∉ a) :
    a.takeWhile (· ≠ c) = a ∧ a.dropWhile (· ≠ c) = [] := by
  have hpos : ∀ d ∈ a, decide (d ≠ c) = true := by
    intro d hd
    exact decide_eq_true fun heq => h (heq ▸ hd)
  exact ⟨List.takeWhile_eq_self_iff.mpr hpos, List.dropWhile_eq_nil_iff.mpr hpos⟩

theorem braces?_closed (h : '\x7d' ∉ a) :
    braces? ('\x7b' :: (a ++ '\x7d' :: b)) = some (a.length + 2) := by
  obtain ⟨htake, hdrop⟩ := takeWhile_ne_append (b := b) h
  simp only [braces?, htake, hdrop]

theorem braces?_open (h : '\x7d' ∉ a) : braces? ('\x7b' :: a) = none := by
  simp only [braces?, (takeWhile_ne_self h).2]

theorem braces?_append_iff :
    braces? (a ++ b) = some a.length ↔
      ∃ body, a = '\x7b' :: (body ++ ['\x7d']) ∧ '\x7d' ∉ body := by
  constructor
  · intro h
    cases a with
    | nil => exact absurd (braces?_bounds h).1 (Nat.lt_irrefl 0)
    | cons c a =>
      by_cases hc : c = '\x7b'
      · subst hc
        by_cases hmem : '\x7d' ∈ a ++ b
        · obtain ⟨body, rest, hsplit, hbody⟩ := List.eq_append_cons_of_mem hmem
          rw [List.cons_append, hsplit, braces?_closed hbody] at h
          have hlen : a.length = (body ++ ['\x7d']).length := by
            simpa using (Option.some.inj h).symm
          have heq : a ++ b = (body ++ ['\x7d']) ++ rest := by simpa using hsplit
          exact ⟨body, congrArg _ (List.append_inj heq hlen).1, hbody⟩
        · rw [List.cons_append, braces?_open hmem] at h
          cases h
      · simp [braces?, hc] at h
  · rintro ⟨body, rfl, hbody⟩
    simpa using braces?_closed (b := b) hbody

/-- Without two slashes there is no line comment. -/
theorem lineComment?_eq_none (h : ¬ ['/', '/'] <+: a) : lineComment? a = none := by
  unfold lineComment?
  split
  · exact absurd ⟨_, rfl⟩ h
  · rfl

theorem lineComment?_closed (h : '\n' ∉ a) :
    lineComment? ('/' :: '/' :: (a ++ '\n' :: b)) = some (a.length + 3) := by
  obtain ⟨htake, hdrop⟩ := takeWhile_ne_append (b := b) h
  simp only [lineComment?, htake, hdrop]

theorem lineComment?_open (h : '\n' ∉ a) :
    lineComment? ('/' :: '/' :: a) = some (a.length + 2) := by
  obtain ⟨htake, hdrop⟩ := takeWhile_ne_self h
  simp only [lineComment?, htake, hdrop]

theorem lineComment?_append_iff :
    lineComment? (a ++ b) = some a.length ↔
      (∃ body, '\n' ∉ body ∧ (a = '/' :: '/' :: (body ++ ['\n']) ∨ a = '/' :: '/' :: body)) ∧
        ∀ c ∈ b.head?, decide (a.getLast? ≠ some '\n') = false := by
  constructor
  · intro h
    obtain ⟨text, htext⟩ : ∃ text, a ++ b = '/' :: '/' :: text := by
      unfold lineComment? at h
      split at h
      · exact ⟨_, by assumption⟩
      · cases h
    rw [htext] at h
    by_cases hmem : '\n' ∈ text
    · obtain ⟨body, rest, rfl, hbody⟩ := List.eq_append_cons_of_mem hmem
      rw [lineComment?_closed hbody] at h
      have hlen : a.length = ('/' :: '/' :: (body ++ ['\n'])).length := by
        simpa using (Option.some.inj h).symm
      have heq : a ++ b = ('/' :: '/' :: (body ++ ['\n'])) ++ rest := by simpa using htext
      obtain rfl := (List.append_inj heq hlen).1
      exact ⟨⟨body, hbody, .inl rfl⟩, fun c _ => by simp [List.getLast?_cons]⟩
    · rw [lineComment?_open hmem] at h
      have hlen : a.length = ('/' :: '/' :: text).length := by
        simpa using (Option.some.inj h).symm
      have heq : a ++ b = ('/' :: '/' :: text) ++ [] := by simpa using htext
      obtain ⟨rfl, rfl⟩ := List.append_inj heq hlen
      exact ⟨⟨text, hmem, .inr rfl⟩, fun c hc => by cases hc⟩
  · rintro ⟨⟨body, hbody, rfl | rfl⟩, hstop⟩
    · simpa using lineComment?_closed (b := b) hbody
    · cases b with
      | nil => simpa using lineComment?_open hbody
      | cons c b =>
        have hlast : ('/' :: '/' :: body).getLast? = some '\n' := by simpa using hstop c rfl
        have hmem := List.mem_of_getLast? hlast
        simp [hbody] at hmem

/-- A run and what follows it. -/
theorem exists_of_run? {n : Nat} {text : List Char} (h : run? p text = some n) :
    ∃ u v, text = u ++ v ∧ u.length = n ∧ (u ≠ [] ∧ ∀ c ∈ u, p c = true) ∧
      ∀ c ∈ v.head?, p c = false := by
  have hlen : (text.take n).length = n := by
    rw [List.length_take]
    exact Nat.min_eq_left (run?_bounds h).2
  refine ⟨text.take n, text.drop n, (List.take_append_drop n text).symm, hlen, ?_⟩
  refine run?_append_iff.mp ?_
  rw [List.take_append_drop, hlen, h]

theorem float?_append_iff :
    float? (a ++ b) = some a.length ↔
      (∃ whole fraction, a = whole ++ '.' :: fraction ∧ whole ≠ [] ∧ fraction ≠ [] ∧
        (∀ c ∈ whole, c.isDigit = true) ∧ ∀ c ∈ fraction, c.isDigit = true) ∧
      ∀ c ∈ b.head?, c.isDigit = false := by
  constructor
  · intro h
    obtain ⟨n, hn, h⟩ := Option.bind_eq_some_iff.mp h
    obtain ⟨whole, rest, htext, rfl, ⟨hne, hwhole⟩, -⟩ := exists_of_run? hn
    rw [htext, List.drop_left] at h
    split at h
    · rename_i rest
      obtain ⟨m, hm, h⟩ := Option.bind_eq_some_iff.mp h
      obtain ⟨fraction, rest, rfl, rfl, ⟨hne', hfraction⟩, hstop⟩ := exists_of_run? hm
      have hlen : a.length = (whole ++ '.' :: fraction).length := by
        simpa [Nat.add_assoc, Nat.add_comm 1] using (Option.some.inj h).symm
      have heq : a ++ b = (whole ++ '.' :: fraction) ++ rest := by simpa using htext
      obtain ⟨rfl, rfl⟩ := List.append_inj heq hlen
      exact ⟨⟨whole, fraction, rfl, hne, hne', hwhole, hfraction⟩, hstop⟩
    · cases h
  · rintro ⟨⟨whole, fraction, rfl, hne, hne', hwhole, hfraction⟩, hstop⟩
    have hn : run? Char.isDigit (whole ++ '.' :: (fraction ++ b)) = some whole.length :=
      run?_append_iff.mpr ⟨⟨hne, hwhole⟩, by simp⟩
    have hm : run? Char.isDigit (fraction ++ b) = some fraction.length :=
      run?_append_iff.mpr ⟨⟨hne', hfraction⟩, hstop⟩
    simp [float?, hn, hm, Nat.add_assoc, Nat.add_comm 1]

/-- Where a quote closes does not depend on what follows. -/
theorem closed?_append_iff {escaped : Bool} :
    closed? q escaped (a ++ b) = some a.length ↔ closed? q escaped a = some a.length := by
  induction a generalizing escaped with
  | nil =>
    constructor
    · intro h
      exact absurd (closed?_bounds h).1 (Nat.lt_irrefl 0)
    · intro h
      cases h
  | cons c a ih =>
    simp only [List.cons_append, List.length_cons, closed?]
    split
    · rfl
    · split
      · simpa using ih
      · split
        · rfl
        · simpa using ih

theorem quoted?_append_iff :
    quoted? (a ++ b) = some a.length ↔
      ∃ q body, a = q :: body ∧ (q = '"' ∨ q = '\'') ∧
        closed? q false body = some body.length := by
  cases a with
  | nil =>
    constructor
    · intro h
      exact absurd (quoted?_bounds h).1 (Nat.lt_irrefl 0)
    · rintro ⟨q, body, h, -⟩
      cases h
  | cons q a =>
    simp only [List.cons_append, List.length_cons, quoted?]
    split
    · rename_i hq
      constructor
      · intro h
        have hclosed : closed? q false (a ++ b) = some a.length := by simpa using h
        exact ⟨q, a, rfl, hq, closed?_append_iff.mp hclosed⟩
      · rintro ⟨_, _, heq, -, hclosed⟩
        cases heq
        simpa using closed?_append_iff.mpr hclosed
    · rename_i hq
      simp [hq]

theorem word?_append_iff :
    word? (a ++ b) = some a.length ↔
      (∃ c rest, a = c :: rest ∧ isWordStart c = true ∧ ∀ d ∈ rest, isWordPart d = true) ∧
        ∀ c ∈ b.head?, isWordPart c = false := by
  cases a with
  | nil =>
    constructor
    · intro h
      exact absurd (word?_bounds h).1 (Nat.lt_irrefl 0)
    · rintro ⟨⟨c, rest, h, -⟩, -⟩
      cases h
  | cons c a =>
    simp only [List.cons_append, List.length_cons, word?]
    split
    · rename_i hc
      constructor
      · intro h
        have hlen : ((a ++ b).takeWhile isWordPart).length = a.length := by simpa using h
        obtain ⟨ha, hstop⟩ := length_takeWhile_append_iff.mp hlen
        exact ⟨⟨c, a, rfl, hc, ha⟩, hstop⟩
      · rintro ⟨⟨_, _, heq, -, ha⟩, hstop⟩
        cases heq
        simpa using length_takeWhile_append_iff.mpr ⟨ha, hstop⟩
    · rename_i hc
      simp [hc]

end Forms

/-- **A rule matches just its lexemes**, where it stops behind them. -/
theorem matched?_append_iff {r : Rule} {a b : List Char} :
    r.matched? (a ++ b) = some a.length ↔ r.Lexeme a ∧ r.Stops a b := by
  cases r with
  | dot | comma | semicolon | backslash =>
    simpa [matched?, Lexeme, Stops, goesOn] using mark?_append_iff
  | blanks | integer => exact run?_append_iff
  | braces => simpa [matched?, Lexeme, Stops, goesOn] using braces?_append_iff
  | lineComment => exact lineComment?_append_iff
  | float => exact float?_append_iff
  | quoted => simpa [matched?, Lexeme, Stops, goesOn] using quoted?_append_iff
  | word => exact word?_append_iff

/-- A match is a lexeme at the beginning of the text. -/
theorem exists_lexeme_of_matched? {r : Rule} {text : List Char} {n : Nat}
    (h : r.matched? text = some n) :
    ∃ a b, text = a ++ b ∧ a.length = n ∧ r.Lexeme a ∧ r.Stops a b := by
  have hlen : (text.take n).length = n := by
    rw [List.length_take]
    exact Nat.min_eq_left (matched?_le h)
  refine ⟨text.take n, text.drop n, (List.take_append_drop n text).symm, hlen, ?_⟩
  refine matched?_append_iff.mp ?_
  rw [List.take_append_drop, hlen, h]

theorem Lexeme.ne_nil {r : Rule} {a : List Char} (h : r.Lexeme a) : a ≠ [] := by
  have hmatch := matched?_append_iff.mpr ⟨h, stops_nil r a⟩
  exact List.ne_nil_of_length_pos (matched?_pos hmatch)

/-! ## 3. The first character tells the rule -/

/-- The characters that begin the lexemes of one rule only. -/
def marks : List (Char × Rule) :=
  [('.', dot), (',', comma), ('\x7b', braces), ('/', lineComment), ('"', quoted), ('\'', quoted),
   (';', semicolon), ('\\', backslash)]

/-- The rule whose lexemes begin with a character, numbers with a fraction counted as whole
numbers. -/
def leader (c : Char) : Option Rule :=
  match marks.lookup c with
  | some r => some r
  | none =>
    if c.isDigit then some integer
    else if isWordStart c then some word
    else if Text.isBlank c then some blanks
    else none

/-- The rule, numbers with a fraction counted as whole numbers. -/
def family : Rule → Rule
  | float => integer
  | r => r

section Leader

variable {c : Char}

/-- A character of a class to which no mark belongs is no mark. -/
theorem lookup_marks_eq_none {p : Char → Bool} (hp : ∀ e ∈ marks, p e.1 = false)
    (h : p c = true) : marks.lookup c = none := by
  rw [List.lookup_eq_none_iff]
  intro e he
  by_contra hce
  obtain rfl : c = e.1 := by simpa using hce
  rw [hp e he] at h
  cases h

theorem isDigit_iff_toNat : c.isDigit = true ↔ 48 ≤ c.toNat ∧ c.toNat ≤ 57 :=
  Char.isDigit_iff_toNat

theorem isWordStart_iff_toNat :
    isWordStart c = true ↔
      (65 ≤ c.toNat ∧ c.toNat ≤ 90) ∨ (97 ≤ c.toNat ∧ c.toNat ≤ 122) ∨ c.toNat = 95 := by
  rw [isWordStart_iff, ← Char.toNat_inj]
  simp only [Char.le_def, UInt32.le_iff_toNat_le]
  rfl

theorem leader_of_isDigit (h : c.isDigit = true) : leader c = some integer := by
  rw [leader, lookup_marks_eq_none (by decide) h]
  simp [h]

theorem leader_of_isWordStart (h : isWordStart c = true) : leader c = some word := by
  have hdigit : c.isDigit = false := by
    rw [Bool.eq_false_iff, ne_eq, isDigit_iff_toNat]
    rw [isWordStart_iff_toNat] at h
    omega
  rw [leader, lookup_marks_eq_none (by decide) h]
  simp [h, hdigit]

theorem leader_of_isBlank (h : Text.isBlank c = true) : leader c = some blanks := by
  have hranges := h
  simp only [Text.isBlank, Text.blankRanges, List.any_cons, List.any_nil, Bool.or_eq_true,
    Bool.and_eq_true, decide_eq_true_eq, Bool.or_false] at hranges
  have hdigit : c.isDigit = false := by
    rw [Bool.eq_false_iff, ne_eq, isDigit_iff_toNat]
    omega
  have hword : isWordStart c = false := by
    rw [Bool.eq_false_iff, ne_eq, isWordStart_iff_toNat]
    omega
  rw [leader, lookup_marks_eq_none (by decide) h]
  simp [h, hdigit, hword]

/-- A word is continued by what begins one, and by digits. -/
theorem isWordPart_eq (c : Char) : isWordPart c = (isWordStart c || c.isDigit) := by
  unfold isWordPart isWordStart Char.isAlphanum
  rw [Bool.or_assoc, Bool.or_comm c.isDigit, ← Bool.or_assoc]

end Leader

/-- The first character of a lexeme tells its rule. -/
theorem Lexeme.leader_eq {r : Rule} {c : Char} {a : List Char} (h : r.Lexeme (c :: a)) :
    leader c = some r.family := by
  cases r with
  | dot | comma | semicolon | backslash =>
    cases h
    rfl
  | blanks => exact leader_of_isBlank (h.2 c List.mem_cons_self)
  | integer => exact leader_of_isDigit (h.2 c List.mem_cons_self)
  | braces =>
    obtain ⟨body, heq, -⟩ := h
    cases heq
    rfl
  | lineComment =>
    obtain ⟨body, -, heq | heq⟩ := h <;> cases heq <;> rfl
  | float =>
    obtain ⟨whole, fraction, heq, hne, -, hwhole, -⟩ := h
    cases whole with
    | nil => exact absurd rfl hne
    | cons d whole =>
      cases heq
      exact leader_of_isDigit (hwhole c List.mem_cons_self)
  | quoted =>
    obtain ⟨q, body, heq, rfl | rfl, -⟩ := h <;> cases heq <;> rfl
  | word =>
    obtain ⟨d, rest, heq, hd, -⟩ := h
    cases heq
    exact leader_of_isWordStart hd

/-- Whether layout can begin with this character: white space, a brace, or a slash. -/
def BeginsLayout (c : Char) : Prop := leader c ∈ [some blanks, some braces, some lineComment]

instance (c : Char) : Decidable (BeginsLayout c) :=
  inferInstanceAs (Decidable (leader c ∈ [some blanks, some braces, some lineComment]))

namespace BeginsLayout

variable {c : Char}

/-- A character that leads another rule does not begin layout. -/
theorem leader_ne {r : Rule} (h : BeginsLayout c) (hr : r ∉ [blanks, braces, lineComment]) :
    leader c ≠ some r := by
  intro hleader
  rw [BeginsLayout, hleader] at h
  simp only [List.mem_cons, Option.some.injEq, List.not_mem_nil, or_false] at h hr
  exact hr h

theorem isDigit_eq_false (h : BeginsLayout c) : c.isDigit = false := by
  by_contra hdigit
  exact h.leader_ne (by decide) (leader_of_isDigit (by simpa using hdigit))

theorem isWordPart_eq_false (h : BeginsLayout c) : isWordPart c = false := by
  have hstart : isWordStart c = false := by
    by_contra hstart
    exact h.leader_ne (by decide) (leader_of_isWordStart (by simpa using hstart))
  rw [isWordPart_eq, hstart, h.isDigit_eq_false]
  rfl

theorem ne_dot (h : BeginsLayout c) : c ≠ '.' := by
  rintro rfl
  exact h.leader_ne (r := dot) (by decide) rfl

end BeginsLayout

/-- The first character of a text tells which rule can match. -/
theorem leader_of_matched? {r : Rule} {c : Char} {text : List Char} {n : Nat}
    (h : r.matched? (c :: text) = some n) : leader c = some r.family := by
  obtain ⟨a, b, heq, -, ha, -⟩ := exists_lexeme_of_matched? h
  cases a with
  | nil => exact absurd rfl ha.ne_nil
  | cons d a =>
    obtain ⟨rfl, -⟩ := List.cons_eq_cons.mp heq
    exact ha.leader_eq

/-- Where the first character does not lead numbers, only the rule that it leads can match. -/
theorem eq_of_leader {r r' : Rule} {c : Char} {text : List Char} {n : Nat}
    (hleader : leader c = some r') (hr : r' ≠ integer) (h : r.matched? (c :: text) = some n) :
    r = r' := by
  have hfamily : r' = r.family := Option.some.inj (hleader.symm.trans (leader_of_matched? h))
  cases r with
  | float => exact absurd hfamily hr
  | _ => exact hfamily.symm

/-- Two rules that match the same text are of one family. -/
theorem family_eq_of_matched? {r r' : Rule} {text : List Char} {n n' : Nat}
    (h : r.matched? text = some n) (h' : r'.matched? text = some n') : r.family = r'.family := by
  cases text with
  | nil => exact absurd (matched?_le h) (Nat.not_le_of_lt (matched?_pos h))
  | cons c text => exact Option.some.inj ((leader_of_matched? h).symm.trans (leader_of_matched? h'))

/-! ## 4. The first rule that matches -/

/-- The first of these rules that matches at the beginning of `text`, and how much it matches. -/
def firstOf? (rules : List Rule) (text : List Char) : Option (Rule × Nat) :=
  rules.findSome? fun r => (r.matched? text).map (r, ·)

section First

variable {rules : List Rule} {r r' : Rule} {text : List Char} {n : Nat}

theorem firstOf?_all (text : List Char) : firstOf? all text = first? text := rfl

theorem matched?_of_firstOf? (h : firstOf? rules text = some (r, n)) :
    r.matched? text = some n := by
  obtain ⟨r', -, h⟩ := List.exists_of_findSome?_eq_some h
  obtain ⟨n', hn, he⟩ := Option.map_eq_some_iff.mp h
  cases he
  exact hn

theorem firstOf?_eq_none_iff :
    firstOf? rules text = none ↔ ∀ r ∈ rules, r.matched? text = none := by
  simp [firstOf?]

/-- No rule that is tried before the first that matches does match. -/
theorem matched?_eq_none_of_firstOf? (h : firstOf? rules text = some (r, n))
    (hlt : rules.idxOf r' < rules.idxOf r) : r'.matched? text = none := by
  obtain ⟨l₁, s, l₂, hrules, hs, hnone⟩ := List.findSome?_eq_some_iff.mp h
  obtain ⟨m, hm, heq⟩ := Option.map_eq_some_iff.mp hs
  cases heq
  have hmem : r' ∈ l₁ := by
    by_contra hmem
    have hle : rules.idxOf r ≤ l₁.length := by
      rw [hrules, List.idxOf_append]
      split
      · exact Nat.le_of_lt (List.idxOf_lt_length_of_mem (by assumption))
      · simp
    have hge : l₁.length ≤ rules.idxOf r' := by
      rw [hrules, List.idxOf_append, if_neg hmem]
      exact Nat.le_add_left _ _
    omega
  simpa using hnone r' hmem

/-- A rule that matches is the first that does, unless another of its family is tried before it
and matches too. -/
theorem firstOf?_of_matched? (hmem : r ∈ rules) (h : r.matched? text = some n)
    (hbefore : ∀ r', r' ≠ r → r'.family = r.family → rules.idxOf r' < rules.idxOf r →
      r'.matched? text = none) : firstOf? rules text = some (r, n) := by
  cases hfirst : firstOf? rules text with
  | none => cases h.symm.trans (firstOf?_eq_none_iff.mp hfirst r hmem)
  | some found =>
    obtain ⟨r', n'⟩ := found
    have h' := matched?_of_firstOf? hfirst
    by_cases heq : r' = r
    · subst heq
      cases h.symm.trans h'
      rfl
    · have hidx : rules.idxOf r ≠ rules.idxOf r' := fun hidx =>
        heq ((List.idxOf_inj hmem).mp hidx).symm
      rcases Nat.lt_or_gt_of_ne hidx with hlt | hlt
      · cases h.symm.trans (matched?_eq_none_of_firstOf? hfirst hlt)
      · cases h'.symm.trans (hbefore r' heq (family_eq_of_matched? h' h) hlt)

/-- No rule that is tried before the first that matches does match. -/
theorem matched?_eq_none_of_first? (h : first? text = some (r, n))
    (hlt : all.idxOf r' < all.idxOf r) : r'.matched? text = none :=
  matched?_eq_none_of_firstOf? ((firstOf?_all text).trans h) hlt

/-- Only whole numbers and numbers with a fraction are of one family. -/
theorem eq_or_of_family_eq (h : r.family = r'.family) :
    r = r' ∨ r = float ∧ r' = integer ∨ r = integer ∧ r' = float := by
  cases r <;> cases r' <;> simp_all [family]

/-- **A rule that matches is the first that does**, unless it is a whole number where a fraction
follows. -/
theorem first?_of_matched? (h : r.matched? text = some n)
    (hfloat : r = integer → float? text = none) : first? text = some (r, n) := by
  rw [← firstOf?_all]
  refine firstOf?_of_matched? (mem_all r) h fun r' hne hfamily hlt => ?_
  rcases eq_or_of_family_eq hfamily with rfl | ⟨rfl, rfl⟩ | ⟨rfl, rfl⟩
  · exact absurd rfl hne
  · exact hfloat rfl
  · exact absurd hlt (by decide)

end First

/-! ## 5. The same lexeme before another text -/

section Tail

variable {r : Rule} {a b v t : List Char} {n : Nat} {c : Char}

/-- The first match is known again before another text with which it does not go on, if no
fraction comes about. -/
theorem first?_append_congr (h : first? (a ++ b) = some (r, a.length)) (hstop : r.Stops a t)
    (hfloat : r = integer → float? (a ++ t) = none) : first? (a ++ t) = some (r, a.length) := by
  obtain ⟨ha, -⟩ := matched?_append_iff.mp (matched?_of_first? h)
  exact first?_of_matched? (matched?_append_iff.mpr ⟨ha, hstop⟩) hfloat

/-- A run begins at every character that passes. -/
theorem exists_run?_cons {p : Char → Bool} (hc : p c = true) (t : List Char) :
    ∃ n, run? p (c :: t) = some n := by
  refine ⟨(t.takeWhile p).length + 1, ?_⟩
  unfold run?
  simp [hc]

/-- A fraction stays one in a longer text. -/
theorem float?_append_ne_none (h : float? t = some n) (v : List Char) :
    float? (t ++ v) ≠ none := by
  obtain ⟨_, rest, rfl, -, hform, -⟩ := exists_lexeme_of_matched? (r := float) h
  obtain ⟨whole, fraction, rfl, hne, hne', hwhole, hfraction⟩ := hform
  obtain ⟨d, fraction, rfl⟩ := List.exists_cons_of_ne_nil hne'
  -- Behind the dot there may be more digits now, but not fewer.
  obtain ⟨m, hm⟩ := exists_run?_cons (hfraction d List.mem_cons_self) (fraction ++ rest ++ v)
  obtain ⟨digits, tail, htail, -, ⟨hdne, hdigits⟩, hstop⟩ := exists_of_run? hm
  have hmatch := float?_append_iff.mpr
    ⟨⟨whole, digits, rfl, hne, hdne, hwhole, hdigits⟩, hstop⟩
  have heq : whole ++ '.' :: d :: fraction ++ rest ++ v = whole ++ '.' :: digits ++ tail := by
    simpa using htail
  rw [heq, hmatch]
  simp

/-- A lexeme without `c` lies before every `c`. -/
theorem exists_of_append_eq (h : a ++ b = t ++ c :: v) (hc : c ∉ a) :
    ∃ u, t = a ++ u ∧ b = u ++ c :: v := by
  rcases List.append_eq_append_iff.mp h with ⟨u, rfl, hb⟩ | ⟨u, rfl, hb⟩
  · exact ⟨u, rfl, hb⟩
  · cases u with
    | nil => exact ⟨[], by simp, by simpa using hb.symm⟩
    | cons d u =>
      obtain ⟨rfl, -⟩ := List.cons_eq_cons.mp hb
      simp at hc

/-- A character that is neither a digit nor a dot makes no fraction. -/
theorem float?_append_other (h : float? t = none) (hdigit : c.isDigit = false) (hdot : c ≠ '.')
    (v : List Char) : float? (t ++ c :: v) = none := by
  cases hn : float? (t ++ c :: v) with
  | none => rfl
  | some n =>
    obtain ⟨a, b, heq, -, hform, hstop⟩ := exists_lexeme_of_matched? (r := float) hn
    have hnot : c ∉ a := by
      obtain ⟨whole, fraction, rfl, -, -, hwhole, hfraction⟩ := hform
      intro hmem
      rcases List.mem_append.mp hmem with hmem | hmem
      · exact Bool.false_ne_true (hdigit.symm.trans (hwhole c hmem))
      · rcases List.mem_cons.mp hmem with heq | hmem
        · exact hdot heq
        · exact Bool.false_ne_true (hdigit.symm.trans (hfraction c hmem))
    obtain ⟨u, rfl, rfl⟩ := exists_of_append_eq heq.symm hnot
    have hstop' : float.Stops a u := by
      cases u with
      | nil => exact stops_nil _ _
      | cons c u => exact hstop
    cases h.symm.trans (matched?_append_iff.mpr ⟨hform, hstop'⟩)

/-- The first match is known again when the text is cut off behind it. -/
theorem first?_of_append (h : first? (a ++ (b ++ v)) = some (r, a.length)) :
    first? (a ++ b) = some (r, a.length) := by
  obtain ⟨-, hstop⟩ := matched?_append_iff.mp (matched?_of_first? h)
  refine first?_append_congr h ?_ ?_
  · cases b with
    | nil => exact stops_nil _ _
    | cons c b => exact hstop
  · rintro rfl
    cases hn : float? (a ++ b) with
    | none => rfl
    | some n =>
      have hnone : float.matched? (a ++ (b ++ v)) = none :=
        matched?_eq_none_of_first? h (by decide)
      rw [← List.append_assoc] at hnone
      exact absurd hnone (float?_append_ne_none hn v)

/-- The first match is known again when layout follows the text, if the rule does not go on with
the layout. -/
theorem first?_append_layout (h : first? (a ++ b) = some (r, a.length)) (hc : BeginsLayout c)
    (hstop : r.Stops a (b ++ c :: v)) :
    first? (a ++ (b ++ c :: v)) = some (r, a.length) := by
  refine first?_append_congr h hstop ?_
  rintro rfl
  have hnone : float.matched? (a ++ b) = none := matched?_eq_none_of_first? h (by decide)
  rw [← List.append_assoc]
  exact float?_append_other hnone hc.isDigit_eq_false hc.ne_dot v

/-- Only two rules go on with layout, and only where the text was at its end: white space, and a
line comment that has no line feed yet. -/
theorem Stops.append_layout (h : r.Stops a b) (hc : BeginsLayout c) (v : List Char) :
    r.Stops a (b ++ c :: v) ∨
      b = [] ∧ (r = blanks ∨ r = lineComment ∧ a.getLast? ≠ some '\n') := by
  cases b with
  | cons d b => exact .inl h
  | nil =>
    have hstops (hgo : r.goesOn a c = false) : r.Stops a ([] ++ c :: v) := by
      intro d hd
      cases hd
      exact hgo
    cases r with
    | blanks => exact .inr ⟨rfl, .inl rfl⟩
    | lineComment =>
      by_cases hlast : a.getLast? = some '\n'
      · exact .inl (hstops (by simp [goesOn, hlast]))
      · exact .inr ⟨rfl, .inr ⟨rfl, hlast⟩⟩
    | float | integer => exact .inl (hstops hc.isDigit_eq_false)
    | word => exact .inl (hstops hc.isWordPart_eq_false)
    | _ => exact .inl (hstops rfl)

/-- A line feed completes a line comment. -/
theorem first?_comment_newline (h : lineComment.Lexeme a) (hlast : a.getLast? ≠ some '\n')
    (v : List Char) : first? ((a ++ ['\n']) ++ v) = some (lineComment, (a ++ ['\n']).length) := by
  have hform : lineComment.Lexeme (a ++ ['\n']) := by
    obtain ⟨body, hbody, rfl | rfl⟩ := h
    · exact absurd (by simp [List.getLast?_cons]) hlast
    · exact ⟨body, hbody, .inl rfl⟩
  have hstop : lineComment.Stops (a ++ ['\n']) v := by
    intro c _
    simp [goesOn]
  exact first?_of_matched? (matched?_append_iff.mpr ⟨hform, hstop⟩) (by simp)

/-- White space is passed over as a whole. -/
theorem first?_blanks (hne : a ≠ []) (ha : ∀ c ∈ a, Text.isBlank c = true)
    (hv : ∀ c ∈ v.head?, Text.isBlank c = false) : first? (a ++ v) = some (blanks, a.length) :=
  first?_of_matched? (matched?_append_iff.mpr ⟨⟨hne, ha⟩, hv⟩) (by simp)

end Tail

end UnitLang.Rule
