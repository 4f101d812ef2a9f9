/-
# The first match and the longest

The rules are tried in order, and the first that matches wins; within a rule the preferred way of
its pattern wins.  Nothing of this depends on preferences.

* A rule matches in the preferred way of its pattern (`head?_ways_pattern`), which is the longest
  (`le_of_mem_ways_pattern`): the order of the ways is that of their lengths, a way is a lexeme, and
  where a lexeme stands the rule matches it or a longer one (`Lexeme.exists_matched?`).
* Two rules match the same text only if one is that of whole numbers and the other that of numbers
  with a fraction, which matches more.  So the rules may be tried in any other order in which the
  fraction comes first, and all items stay the same (`itemsBy_eq_items`).

A token is therefore as long as it can be.  A word is not followed by a character that could
continue it, and a whole number neither by a digit nor by a fraction.
-/
import UnitLang.Proofs.Pattern.Order
import UnitLang.Proofs.Pattern.Taking
import UnitLang.Proofs.Text.Place
import UnitLang.Proofs.Token.Splitting

namespace UnitLang

/-! ## 1. The way that a rule takes -/

namespace Rule

section Longest

variable {r : Rule} {a b text : List Char} {n : Nat}

/-- A lexeme goes on with the characters that the rule would go on with. -/
theorem Lexeme.append_run {u : List Char} (h : r.Lexeme a) (hr : r ≠ lineComment)
    (hu : ∀ c ∈ u, r.goesOn a c = true) : r.Lexeme (a ++ u) := by
  cases u with
  | nil => rwa [List.append_nil]
  | cons c u =>
    cases r with
    | blanks | integer => exact ⟨by simp, List.forall_mem_append.mpr ⟨h.2, hu⟩⟩
    | float =>
      obtain ⟨whole, fraction, rfl, hne, hne', hwhole, hfraction⟩ := h
      exact ⟨whole, fraction ++ c :: u, by simp, hne, by simp, hwhole,
        List.forall_mem_append.mpr ⟨hfraction, hu⟩⟩
    | word =>
      obtain ⟨d, rest, rfl, hd, hrest⟩ := h
      exact ⟨d, rest ++ c :: u, rfl, hd, List.forall_mem_append.mpr ⟨hrest, hu⟩⟩
    | lineComment => exact absurd rfl hr
    | _ => cases hu c List.mem_cons_self

/-- What a rule would go on with depends on the lexeme for line comments only. -/
theorem goesOn_append (hr : r ≠ lineComment) (a u : List Char) :
    r.goesOn (a ++ u) = r.goesOn a := by
  cases r with
  | lineComment => exact absurd rfl hr
  | _ => rfl

/-- Behind two slashes there is a line comment, which the next line feed ends. -/
theorem exists_lineComment {body : List Char} (hbody : '\n' ∉ body) (b : List Char) :
    ∃ n, lineComment? ('/' :: '/' :: (body ++ b)) = some n ∧ body.length + 2 ≤ n := by
  by_cases hmem : '\n' ∈ body ++ b
  · obtain ⟨front, rest, hsplit, hfront⟩ := List.eq_append_cons_of_mem hmem
    obtain ⟨u, rfl, -⟩ := exists_of_append_eq hsplit hbody
    refine ⟨_, hsplit ▸ lineComment?_closed hfront, ?_⟩
    rw [List.length_append]
    omega
  · refine ⟨_, lineComment?_open hmem, ?_⟩
    rw [List.length_append]
    omega

/-- Where a lexeme stands, the rule matches it or a longer one. -/
theorem Lexeme.exists_matched? (h : r.Lexeme a) (b : List Char) :
    ∃ n, r.matched? (a ++ b) = some n ∧ a.length ≤ n := by
  by_cases hr : r = lineComment
  · subst hr
    by_cases hlast : a.getLast? = some '\n'
    · have hstop : lineComment.Stops a b := fun c _ => by simp [goesOn, hlast]
      exact ⟨_, matched?_append_iff.mpr ⟨h, hstop⟩, Nat.le_refl _⟩
    · obtain ⟨body, hbody, rfl | rfl⟩ := h
      · exact absurd (by simp [List.getLast?_cons]) hlast
      · exact exists_lineComment hbody b
  · obtain ⟨u, v, rfl, hu, hv⟩ := exists_run_append (r.goesOn a) b
    have hstop : r.Stops (a ++ u) v := by
      intro c hc
      rw [goesOn_append hr]
      exact hv c hc
    rw [← List.append_assoc]
    exact ⟨_, matched?_append_iff.mpr ⟨h.append_run hr hu, hstop⟩, by simp⟩

/-- What a rule matches is a way of its pattern. -/
theorem mem_ways_of_matched? (h : r.matched? text = some n) : n ∈ r.pattern.ways text := by
  obtain ⟨a, b, rfl, rfl, hform, hstop⟩ := exists_lexeme_of_matched? h
  refine Pattern.takes_pattern_iff.mpr ⟨hform, ?_⟩
  rintro rfl
  cases b with
  | nil => exact .inr rfl
  | cons c b => exact .inl (by simpa [goesOn] using hstop c rfl)

/-- **A rule matches as much as its pattern can in any way.** -/
theorem le_of_mem_ways_pattern (h : n ∈ r.pattern.ways text) :
    ∃ m, r.matched? text = some m ∧ n ≤ m := by
  have hform := (Pattern.takes_pattern_iff.mp (Pattern.takes_of_mem h)).1
  obtain ⟨m, hm, hle⟩ := hform.exists_matched? (text.drop n)
  rw [List.take_append_drop] at hm
  rw [List.length_take, Nat.min_eq_left (Pattern.le_of_mem_ways h)] at hle
  exact ⟨m, hm, hle⟩

/-- **A rule matches in the way that its pattern prefers.** -/
theorem head?_ways_pattern (r : Rule) (text : List Char) :
    (r.pattern.ways text).head? = r.matched? text := by
  cases hways : r.pattern.ways text with
  | nil =>
    cases hm : r.matched? text with
    | none => rfl
    | some n =>
      have hmem := mem_ways_of_matched? hm
      rw [hways] at hmem
      cases hmem
  | cons n ns =>
    obtain ⟨m, hm, hle⟩ := le_of_mem_ways_pattern (hways ▸ List.mem_cons_self)
    have hdescending := Pattern.descending_pattern r text
    have hmem := mem_ways_of_matched? hm
    rw [hways] at hdescending hmem
    -- The longest way is the first, as those behind the first are shorter.
    rcases List.mem_cons.mp hmem with rfl | hlater
    · exact hm.symm
    · have hlt := (List.pairwise_cons.mp hdescending).1 m hlater
      omega

theorem ways_pattern_eq_nil_iff : r.pattern.ways text = [] ↔ r.matched? text = none := by
  rw [← head?_ways_pattern, List.head?_eq_none_iff]

end Longest

end Rule

/-! ## 2. The order of the rules -/

namespace Rule

section Orders

variable {rules : List Rule} {r r' : Rule} {text : List Char} {n : Nat}

/-- The rule for numbers with a fraction matches more than that for whole numbers. -/
theorem lt_of_float {m : Nat} (h : float.matched? text = some m)
    (h' : integer.matched? text = some n) : n < m := by
  obtain ⟨a, b, rfl, rfl, hform, -⟩ := exists_lexeme_of_matched? h
  obtain ⟨whole, fraction, rfl, hne, -, hwhole, -⟩ := hform
  have hrun : integer.matched? (whole ++ '.' :: fraction ++ b) = some whole.length := by
    rw [List.append_assoc]
    exact matched?_append_iff.mpr ⟨⟨hne, hwhole⟩, fun c hc => by cases hc; rfl⟩
  cases h'.symm.trans hrun
  simp

/-- **The first rule that matches matches most.** -/
theorem le_of_first? {m : Nat} (h : first? text = some (r, n)) (h' : r'.matched? text = some m) :
    m ≤ n := by
  have hr := matched?_of_first? h
  rcases eq_or_of_family_eq (family_eq_of_matched? h' hr) with rfl | ⟨rfl, rfl⟩ | ⟨rfl, rfl⟩
  · cases h'.symm.trans hr
    exact Nat.le_refl _
  · cases h'.symm.trans (matched?_eq_none_of_first? h (by decide))
  · exact Nat.le_of_lt (lt_of_float hr h')

/-- Rules with fractions before whole numbers may be tried in any order. -/
theorem firstOf?_eq_first? (hperm : rules.Perm all) (hlt : rules.idxOf float < rules.idxOf integer)
    (text : List Char) : firstOf? rules text = first? text := by
  cases hfirst : first? text with
  | none =>
    rw [← firstOf?_all, firstOf?_eq_none_iff] at hfirst
    exact firstOf?_eq_none_iff.mpr fun r _ => hfirst r (mem_all r)
  | some found =>
    obtain ⟨r, n⟩ := found
    refine firstOf?_of_matched? (hperm.mem_iff.mpr (mem_all r)) (matched?_of_first? hfirst) ?_
    intro r' hne hfamily hbefore
    rcases eq_or_of_family_eq hfamily with rfl | ⟨rfl, rfl⟩ | ⟨rfl, rfl⟩
    · exact absurd rfl hne
    · exact matched?_eq_none_of_first? hfirst (by decide)
    · exact absurd hlt (Nat.lt_asymm hbefore)

/-- With whole numbers before fractions no fraction is ever read. -/
theorem firstOf?_of_integer (hperm : rules.Perm all) (hlt : rules.idxOf integer < rules.idxOf float)
    (h : integer.matched? text = some n) : firstOf? rules text = some (integer, n) := by
  refine firstOf?_of_matched? (hperm.mem_iff.mpr (mem_all _)) h ?_
  intro r' hne hfamily hbefore
  rcases eq_or_of_family_eq hfamily with rfl | ⟨rfl, -⟩ | ⟨-, heq⟩
  · exact absurd rfl hne
  · exact absurd hlt (Nat.lt_asymm hbefore)
  · cases heq

end Orders

end Rule

/-- The tokens of `text`, which begins at `p`, with the rules tried in this order. -/
def itemsBy (rules : List Rule) (p : Position) (text : List Char) : Items :=
  match _h : Rule.firstOf? rules text with
  | some (r, n) =>
    let later := itemsBy rules (p.advance (text.take n)) (text.drop n)
    match r.kind? (text.take n) with
    | some kind => ⟨Token.cut kind p text n :: later.tokens, later.ending⟩
    | none => later
  | none =>
    match text with
    | [] => ⟨[], .ended p⟩
    | c :: _ => ⟨[], .failed (.unrecognised p c)⟩
termination_by text.length
decreasing_by
  have := Rule.matched?_bounds (Rule.matched?_of_firstOf? _h)
  simp only [List.length_drop]
  omega

section Items

open Rule (first? firstOf?)

variable {rules : List Rule} {p : Position} {text : List Char} {r : Rule} {n : Nat}

theorem itemsBy_of_some (h : firstOf? rules text = some (r, n)) :
    itemsBy rules p text =
      match r.kind? (text.take n) with
      | some kind =>
        ⟨Token.cut kind p text n :: (itemsBy rules (p.advance (text.take n)) (text.drop n)).tokens,
          (itemsBy rules (p.advance (text.take n)) (text.drop n)).ending⟩
      | none => itemsBy rules (p.advance (text.take n)) (text.drop n) := by
  rw [itemsBy]
  split
  · rename_i hr
    rw [h] at hr
    cases hr
    rfl
  · rename_i hr
    rw [h] at hr
    cases hr

theorem itemsBy_of_none (h : firstOf? rules text = none) :
    itemsBy rules p text =
      match text with
      | [] => ⟨[], .ended p⟩
      | c :: _ => ⟨[], .failed (.unrecognised p c)⟩ := by
  rw [itemsBy]
  split
  · rename_i hr
    rw [h] at hr
    cases hr
  · rfl

/-- **The items depend on the rules only through the first that matches.** -/
theorem itemsBy_eq_items (h : ∀ text, firstOf? rules text = first? text) (p : Position)
    (text : List Char) : itemsBy rules p text = items p text := by
  induction p, text using lex_induction with
  | nil p =>
    have hf : first? [] = none := by decide
    rw [itemsBy_of_none ((h []).trans hf), items_nil]
  | stuck p c rest hf => rw [itemsBy_of_none ((h _).trans hf), items_stuck hf]
  | silent p text r n hf hk ih => rw [itemsBy_of_some ((h _).trans hf), hk, items_silent hf hk, ih]
  | token p text r n k hf hk ih => rw [itemsBy_of_some ((h _).trans hf), hk, items_token hf hk, ih]

end Items

/-! ## 3. Tokens are as long as they can be -/

namespace Kind

/-- The kinds of words: names, the truth values and the keywords. -/
def isWord : Kind → Bool
  | endOfInput | int | float | string | dot | comma | semicolon | backslash => false
  | _ => true

end Kind

theorem Reserved.isWord_kindOf (word : String) : (Reserved.kindOf word).isWord = true := by
  unfold Reserved.kindOf Reserved.kind?
  cases h : Reserved.words.lookup word with
  | none => rfl
  | some k =>
    obtain ⟨l₁, l₂, hw, -⟩ := List.lookup_eq_some_iff.mp h
    have hall : ∀ e ∈ Reserved.words, e.2.isWord = true := by decide
    exact hall (word, k) (by rw [hw]; simp)

namespace Rule

section Kinds

variable {r : Rule} {a b : List Char} {k : Kind}

theorem eq_word_of_kind? (h : r.kind? a = some k) (hk : k.isWord = true) :
    r = word ∧ k = Reserved.kindOf (String.ofList a) := by
  cases r with
  | word => exact ⟨rfl, (Option.some.inj h).symm⟩
  | dot | comma | float | integer | quoted | semicolon | backslash =>
    cases h
    cases hk
  | blanks | braces | lineComment => cases h

theorem eq_integer_of_kind? (h : r.kind? a = some .int) : r = integer := by
  cases r with
  | integer => rfl
  | word =>
    have hword := Reserved.isWord_kindOf (String.ofList a)
    rw [Option.some.inj h] at hword
    cases hword
  | dot | comma | float | quoted | semicolon | backslash | blanks | braces | lineComment => cases h

/-- A word is not followed by a character that could continue it. -/
theorem head?_of_word (h : first? (a ++ b) = some (word, a.length)) :
    ∀ c ∈ b.head?, isWordPart c = false :=
  (matched?_append_iff.mp (matched?_of_first? h)).2

/-- A whole number is not followed by a digit, and not by a fraction. -/
theorem head?_of_integer (h : first? (a ++ b) = some (integer, a.length)) :
    (∀ c ∈ b.head?, c.isDigit = false) ∧
      ∀ c rest, b = '.' :: c :: rest → c.isDigit = false := by
  obtain ⟨⟨hne, ha⟩, hstop⟩ := matched?_append_iff.mp (matched?_of_first? h)
  refine ⟨hstop, ?_⟩
  rintro c rest rfl
  by_contra hc
  have hform : float.Lexeme (a ++ ['.', c]) :=
    ⟨a, [c], rfl, hne, List.cons_ne_nil _ _, ha, List.forall_mem_singleton.mpr (by simpa using hc)⟩
  obtain ⟨n, hn, -⟩ := hform.exists_matched? rest
  rw [List.append_assoc] at hn
  cases hn.symm.trans (matched?_eq_none_of_first? h (by decide))

end Kinds

end Rule

/-- The token comes to its end where `after` follows: a word is reserved or not as a whole and no
letter, digit or underscore goes on with it, and neither a digit nor a fraction goes on with a whole
number. -/
structure Token.EndsBefore (t : Token) (after : List Char) : Prop where
  word : t.kind.isWord = true →
    t.kind = Reserved.kindOf t.value ∧ ∀ c ∈ after.head?, isWordPart c = false
  integer : t.kind = .int →
    (∀ c ∈ after.head?, c.isDigit = false) ∧
      ∀ c rest, after = '.' :: c :: rest → c.isDigit = false

/-- Tokens come to their end in the source. -/
theorem exists_endsBefore {source : String} {t : Token} (ht : t ∈ (itemsOf source).tokens) :
    ∃ before after : String, source = before ++ t.value ++ after ∧
      before.utf8ByteSize = t.span.start.offset ∧ t.EndsBefore after.toList := by
  obtain ⟨front, value, after, r, htext, hfirst, hk, hvalue, hstart⟩ := exists_match_of_mem ht
  obtain ⟨hsource, hsize⟩ := Position.cut_advance_start htext
  refine ⟨String.ofList front, String.ofList after, ?_, by rw [hsize, hstart], ?_⟩
  · rw [hsource, hvalue, String.ofList_append, String.append_assoc]
  · rw [String.toList_ofList]
    constructor
    · intro hword
      obtain ⟨rfl, hkind⟩ := Rule.eq_word_of_kind? hk hword
      exact ⟨by rw [hkind, hvalue], Rule.head?_of_word hfirst⟩
    · intro hint
      rw [hint] at hk
      obtain rfl := Rule.eq_integer_of_kind? hk
      exact Rule.head?_of_integer hfirst

/-- **The first match is the longest.**  The rules are tried in order, and of a rule the preferred
way is taken; what is found is the longest way of all rules.  Only a whole number and a number with
a fraction match the same text.  So the order of the rules has no influence on the items but for
this pair, and words and whole numbers come to their end where they could not go on. -/
theorem first_match_is_longest :
    (∀ text, Rule.first? text =
      Rule.all.findSome? fun r => (r.pattern.ways text).head?.map (r, ·)) ∧
    (∀ text r n, Rule.first? text = some (r, n) →
      n ∈ r.pattern.ways text ∧ ∀ r' : Rule, ∀ m ∈ r'.pattern.ways text, m ≤ n) ∧
    (∀ text, Rule.first? text = none → ∀ r : Rule, r.pattern.ways text = []) ∧
    (∀ text (r r' : Rule), r.pattern.ways text ≠ [] → r'.pattern.ways text ≠ [] →
      r = r' ∨ r = .float ∧ r' = .integer ∨ r = .integer ∧ r' = .float) ∧
    (∀ rules : List Rule, rules.Perm Rule.all → rules.idxOf .float < rules.idxOf .integer →
      ∀ source : String, itemsBy rules .start source.toList = itemsOf source) ∧
    (∀ rules : List Rule, rules.Perm Rule.all → rules.idxOf .integer < rules.idxOf .float →
      itemsBy rules .start "1.2".toList ≠ itemsOf "1.2") ∧
    ∀ source, ∀ t ∈ (itemsOf source).tokens,
      ∃ before after : String, source = before ++ t.value ++ after ∧
        before.utf8ByteSize = t.span.start.offset ∧ t.EndsBefore after.toList := by
  have hways {r : Rule} {text : List Char} (h : r.pattern.ways text ≠ []) :
      ∃ n, r.matched? text = some n := by
    cases hn : r.matched? text with
    | none => exact absurd (Rule.ways_pattern_eq_nil_iff.mpr hn) h
    | some n => exact ⟨n, rfl⟩
  refine ⟨?_, ?_, ?_, ?_, ?_, ?_, fun source t => exists_endsBefore⟩
  · intro text
    simp only [Rule.first?, Rule.head?_ways_pattern]
  · intro text r n h
    refine ⟨Rule.mem_ways_of_matched? (Rule.matched?_of_first? h), ?_⟩
    intro r' m hm
    obtain ⟨k, hk, hle⟩ := Rule.le_of_mem_ways_pattern hm
    exact Nat.le_trans hle (Rule.le_of_first? h hk)
  · intro text h r
    rw [← Rule.firstOf?_all, Rule.firstOf?_eq_none_iff] at h
    exact Rule.ways_pattern_eq_nil_iff.mpr (h r (Rule.mem_all r))
  · intro text r r' h h'
    obtain ⟨n, hn⟩ := hways h
    obtain ⟨n', hn'⟩ := hways h'
    exact Rule.eq_or_of_family_eq (Rule.family_eq_of_matched? hn hn')
  · intro rules hperm hlt source
    exact itemsBy_eq_items (Rule.firstOf?_eq_first? hperm hlt) .start source.toList
  · intro rules hperm hlt heq
    have hfirst : Rule.firstOf? rules "1.2".toList = some (.integer, 1) :=
      Rule.firstOf?_of_integer hperm hlt rfl
    rw [itemsBy_of_some hfirst] at heq
    have hkinds := congrArg (fun is => is.tokens.head?.map (·.kind)) heq
    have hfloat : (itemsOf "1.2").tokens.head?.map (·.kind) = some .float := by decide +kernel
    rw [hfloat] at hkinds
    cases hkinds

/-- A fraction is the longest match before a dot, and a word that begins with a keyword is none.
The rules may be tried from the last to the first but for whole numbers. -/
theorem first_match_is_longest_fraction :
    (∀ r' : Rule, ∀ m ∈ r'.pattern.ways "1.25.x".toList, m ≤ 4) ∧
    (∀ r : Rule, r.pattern.ways "@x".toList = []) ∧
    itemsBy [.backslash, .semicolon, .word, .quoted, .float, .integer, .lineComment, .braces,
        .blanks, .comma, .dot] .start "uses units.as1, 1.5.2;".toList =
      itemsOf "uses units.as1, 1.5.2;" ∧
    itemsBy [.backslash, .semicolon, .word, .quoted, .integer, .float, .lineComment, .braces,
        .blanks, .comma, .dot] .start "1.2".toList ≠ itemsOf "1.2" ∧
    ∃ before after : String, "a units//b" = before ++ "units" ++ after ∧
      before.utf8ByteSize = 2 ∧ ∀ c ∈ after.toList.head?, isWordPart c = false := by
  obtain ⟨-, hlongest, hnone, -, horder, hpair, hends⟩ := first_match_is_longest
  have hword : (⟨.identifier, "units", ⟨⟨2, 1, 2⟩, ⟨7, 1, 7⟩⟩⟩ : Token) ∈
      (itemsOf "a units//b").tokens := by decide +kernel
  obtain ⟨before, after, hsource, hsize, hend⟩ := hends _ _ hword
  exact ⟨(hlongest _ .float 4 (by decide)).2, hnone _ (by decide),
    horder _ (by decide) (by decide) _, hpair _ (by decide) (by decide),
    before, after, hsource, hsize, (hend.word rfl).2⟩

end UnitLang
