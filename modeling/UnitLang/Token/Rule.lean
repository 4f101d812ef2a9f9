/-
# Lexical rules

Eleven rules say what a source text is made of.  A rule looks at the text from some place on and
either matches a number of its characters or does not match (`Rule.matched?`).  The rules are
tried in the order of `Rule.all`, and the first that matches wins (`Rule.first?`).  Three rules
are silent: they describe layout and yield no token (`Rule.kind?`).

The scanner relies on two facts: a rule that matches matches at least one character
(`matched?_pos`), and never more than there are (`matched?_le`).
-/
import UnitLang.Text.Blank
import UnitLang.Token.Reserved

namespace UnitLang

/-! ## 1. Characters of words and numbers -/

/-- Whether `c` may begin a word: an ASCII letter or the underscore. -/
def isWordStart (c : Char) : Bool := c.isAlpha || c == '_'

/-- Whether `c` may continue a word: an ASCII letter or digit, or the underscore. -/
def isWordPart (c : Char) : Bool := c.isAlphanum || c == '_'

theorem isWordStart_iff {c : Char} :
    isWordStart c = true ↔ ('A' ≤ c ∧ c ≤ 'Z') ∨ ('a' ≤ c ∧ c ≤ 'z') ∨ c = '_' := by
  change ((decide ('A' ≤ c ∧ c ≤ 'Z') || (decide ('a' ≤ c) && decide (c ≤ 'z'))) || c == '_') =
    true ↔ _
  simp only [Bool.or_eq_true, Bool.and_eq_true, decide_eq_true_eq, beq_iff_eq, or_assoc]

theorem isWordPart_iff {c : Char} :
    isWordPart c = true ↔ isWordStart c = true ∨ ('0' ≤ c ∧ c ≤ '9') := by
  change ((c.isAlpha || (decide ('0' ≤ c) && decide (c ≤ '9'))) || c == '_') = true ↔
    (c.isAlpha || c == '_') = true ∨ _
  simp only [Bool.or_eq_true, Bool.and_eq_true, decide_eq_true_eq, beq_iff_eq, or_right_comm]

/-! ## 2. What each rule matches -/

/-- A lexical rule. -/
inductive Rule where
  | dot
  | comma
  | blanks
  | braces
  | lineComment
  | float
  | integer
  | quoted
  | word
  | semicolon
  | backslash
deriving DecidableEq, Repr

namespace Rule

/-- The rules, in the order in which they are tried.  A number with a fraction is tried before a
whole number, which would match its first half. -/
def all : List Rule :=
  [dot, comma, blanks, braces, lineComment, float, integer, quoted, word, semicolon, backslash]

theorem mem_all (r : Rule) : r ∈ all := by cases r <;> decide

/-- One character, if the text begins with it. -/
def mark? (c : Char) : List Char → Option Nat
  | [] => none
  | d :: _ => if d = c then some 1 else none

/-- A run of characters that pass `p`, if there is at least one. -/
def run? (p : Char → Bool) (text : List Char) : Option Nat :=
  match (text.takeWhile p).length with
  | 0 => none
  | n + 1 => some (n + 1)

/-- An opening brace and everything up to the first closing one, which must be there. -/
def braces? : List Char → Option Nat
  | '\x7b' :: text =>
    match text.dropWhile (· ≠ '\x7d') with
    | [] => none
    | _ :: _ => some ((text.takeWhile (· ≠ '\x7d')).length + 2)
  | _ => none

/-- Two slashes and the rest of the line, with the line feed that ends it if there is one. -/
def lineComment? : List Char → Option Nat
  | '/' :: '/' :: text =>
    match text.dropWhile (· ≠ '\n') with
    | [] => some ((text.takeWhile (· ≠ '\n')).length + 2)
    | _ :: _ => some ((text.takeWhile (· ≠ '\n')).length + 3)
  | _ => none

/-- Digits, a dot, and digits. -/
def float? (text : List Char) : Option Nat := do
  let whole ← run? Char.isDigit text
  match text.drop whole with
  | '.' :: rest =>
    let fraction ← run? Char.isDigit rest
    return whole + 1 + fraction
  | _ => none

/-- The text up to and including the first quote `q` that is not escaped.  A backslash escapes
the character behind it, `escaped` says that one stands before this text, and a line feed ends
the search. -/
def closed? (q : Char) : Bool → List Char → Option Nat
  | _, [] => none
  | escaped, c :: text =>
    if c = '\n' then none
    else if escaped then (closed? q false text).map (· + 1)
    else if c = q then some 1
    else (closed? q (c = '\\') text).map (· + 1)

/-- A quote, single or double, and everything up to the quote of its kind that closes it. -/
def quoted? : List Char → Option Nat
  | [] => none
  | q :: text => if q = '"' ∨ q = '\'' then (closed? q false text).map (· + 1) else none

/-- A character that begins words, and all that continue the word. -/
def word? : List Char → Option Nat
  | [] => none
  | c :: text => if isWordStart c then some ((text.takeWhile isWordPart).length + 1) else none

/-- How many characters the rule matches at the beginning of `text`. -/
def matched? : Rule → List Char → Option Nat
  | dot, text => mark? '.' text
  | comma, text => mark? ',' text
  | blanks, text => run? Text.isBlank text
  | braces, text => braces? text
  | lineComment, text => lineComment? text
  | float, text => float? text
  | integer, text => run? Char.isDigit text
  | quoted, text => quoted? text
  | word, text => word? text
  | semicolon, text => mark? ';' text
  | backslash, text => mark? '\\' text

/-- The first rule that matches at the beginning of `text`, and how much it matches. -/
def first? (text : List Char) : Option (Rule × Nat) :=
  all.findSome? fun r => (r.matched? text).map (r, ·)

/-- The kind of token that `lexeme`, matched by the rule, becomes; none for layout. -/
def kind? : Rule → List Char → Option Kind
  | dot, _ => some .dot
  | comma, _ => some .comma
  | blanks, _ => none
  | braces, _ => none
  | lineComment, _ => none
  | float, _ => some .float
  | integer, _ => some .int
  | quoted, _ => some .string
  | word, lexeme => some (Reserved.kindOf (String.ofList lexeme))
  | semicolon, _ => some .semicolon
  | backslash, _ => some .backslash

/-! ## 3. A match is never empty and never longer than the text -/

theorem mark?_bounds {c : Char} {text : List Char} {n : Nat} (h : mark? c text = some n) :
    0 < n ∧ n ≤ text.length := by
  cases text with
  | nil => simp [mark?] at h
  | cons d text =>
    simp only [mark?] at h
    split at h
    · cases h
      simp
    · cases h

theorem run?_bounds {p : Char → Bool} {text : List Char} {n : Nat} (h : run? p text = some n) :
    0 < n ∧ n ≤ text.length := by
  have hle : (text.takeWhile p).length ≤ text.length := (List.takeWhile_sublist p).length_le
  unfold run? at h
  split at h
  · cases h
  · cases h
    omega

/-- What is taken and what is dropped at a test make up the text. -/
theorem length_takeWhile_add (p : Char → Bool) (text : List Char) :
    (text.takeWhile p).length + (text.dropWhile p).length = text.length := by
  rw [← List.length_append, List.takeWhile_append_dropWhile]

theorem braces?_bounds {text : List Char} {n : Nat} (h : braces? text = some n) :
    0 < n ∧ n ≤ text.length := by
  unfold braces? at h
  split at h
  · rename_i rest
    have := length_takeWhile_add (· ≠ '\x7d') rest
    split at h
    · simp at h
    · simp_all; omega
  · simp at h

theorem lineComment?_bounds {text : List Char} {n : Nat} (h : lineComment? text = some n) :
    0 < n ∧ n ≤ text.length := by
  unfold lineComment? at h
  split at h
  · rename_i rest
    have := length_takeWhile_add (· ≠ '\n') rest
    split at h
    · cases h
      simp only [List.length_cons]
      omega
    · rename_i hrest
      rw [hrest, List.length_cons] at this
      cases h
      simp only [List.length_cons]
      omega
  · simp at h

theorem float?_bounds {text : List Char} {n : Nat} (h : float? text = some n) :
    0 < n ∧ n ≤ text.length := by
  unfold float? at h
  obtain ⟨whole, hw, h⟩ := Option.bind_eq_some_iff.mp h
  split at h
  · rename_i rest hr
    obtain ⟨fraction, hf, h⟩ := Option.bind_eq_some_iff.mp h
    have hlen : (text.drop whole).length = rest.length + 1 := by simp [hr]
    have := run?_bounds hf
    simp only [List.length_drop, Option.pure_def, Option.some.injEq] at hlen h
    omega
  · simp at h

theorem closed?_bounds {q : Char} {escaped : Bool} {text : List Char} {n : Nat}
    (h : closed? q escaped text = some n) : 0 < n ∧ n ≤ text.length := by
  induction text generalizing escaped n with
  | nil => simp [closed?] at h
  | cons c text ih =>
    have step {e : Bool} (h : (closed? q e text).map (· + 1) = some n) :
        0 < n ∧ n ≤ (c :: text).length := by
      obtain ⟨m, hm, rfl⟩ := Option.map_eq_some_iff.mp h
      have := ih hm
      simp; omega
    unfold closed? at h
    split at h
    · simp at h
    · split at h
      · exact step h
      · split at h
        · simp at h; simp; omega
        · exact step h

theorem quoted?_bounds {text : List Char} {n : Nat} (h : quoted? text = some n) :
    0 < n ∧ n ≤ text.length := by
  cases text with
  | nil => simp [quoted?] at h
  | cons q text =>
    simp only [quoted?] at h
    split at h
    · obtain ⟨m, hm, rfl⟩ := Option.map_eq_some_iff.mp h
      have := closed?_bounds hm
      simp; omega
    · simp at h

theorem word?_bounds {text : List Char} {n : Nat} (h : word? text = some n) :
    0 < n ∧ n ≤ text.length := by
  cases text with
  | nil => simp [word?] at h
  | cons c text =>
    have := (List.takeWhile_sublist (l := text) isWordPart).length_le
    simp only [word?] at h
    split at h
    · cases h
      simp only [List.length_cons]
      omega
    · cases h

theorem matched?_bounds {r : Rule} {text : List Char} {n : Nat} (h : r.matched? text = some n) :
    0 < n ∧ n ≤ text.length := by
  cases r with
  | dot | comma | semicolon | backslash => exact mark?_bounds h
  | blanks | integer => exact run?_bounds h
  | braces => exact braces?_bounds h
  | lineComment => exact lineComment?_bounds h
  | float => exact float?_bounds h
  | quoted => exact quoted?_bounds h
  | word => exact word?_bounds h

/-- A rule that matches matches at least one character. -/
theorem matched?_pos {r : Rule} {text : List Char} {n : Nat} (h : r.matched? text = some n) :
    0 < n := (matched?_bounds h).1

/-- A rule matches no more characters than there are. -/
theorem matched?_le {r : Rule} {text : List Char} {n : Nat} (h : r.matched? text = some n) :
    n ≤ text.length := (matched?_bounds h).2

/-- The rule that wins does match. -/
theorem matched?_of_first? {r : Rule} {text : List Char} {n : Nat}
    (h : first? text = some (r, n)) : r.matched? text = some n := by
  obtain ⟨r', -, h⟩ := List.exists_of_findSome?_eq_some h
  obtain ⟨n', hn, he⟩ := Option.map_eq_some_iff.mp h
  cases he
  exact hn

end Rule

end UnitLang
