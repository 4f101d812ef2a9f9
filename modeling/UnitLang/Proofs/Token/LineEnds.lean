/-
# Items with carriage returns

A carriage return before a line feed changes no token.  White space and line comments take the
return up, an annotation holds it like any other character, and no other rule matches beyond the
end of a line: a string that meets one is not closed, with a return or without, escaped or not.
So a rule matches what it matched, with the returns in it (`matched?_withReturns`).

Reading therefore goes along with putting returns in: the items are the same, each at the place
that has the same text before it (`itemsOf_crlf`).
-/
import UnitLang.Proofs.Scanner.Session
import UnitLang.Proofs.Text.LineEnds
import UnitLang.Proofs.Token.Moving

namespace UnitLang

open Text (withReturns withReturns_cons withReturns_append withReturns_eq_self
  takeWhile_withReturns)

/-! ## 1. What each rule matches -/

namespace Rule

section Forms

variable {c q : Char} {p : Char → Bool} {text : List Char} {n : Nat}

/-- How many characters the first `n` are when the returns are put in. -/
def lengthWithReturns (text : List Char) (n : Nat) : Nat := (withReturns (text.take n)).length

theorem lengthWithReturns_append (a b : List Char) :
    lengthWithReturns (a ++ b) a.length = (withReturns a).length := by
  rw [lengthWithReturns, List.take_left]

/-- What is matched with returns is what was matched, with returns. -/
theorem map_lengthWithReturns {match? : List Char → Option Nat} {a b : List Char}
    (h : match? (a ++ b) = some a.length)
    (hreturns : match? (withReturns a ++ withReturns b) = some (withReturns a).length) :
    match? (withReturns (a ++ b)) = (match? (a ++ b)).map (lengthWithReturns (a ++ b)) := by
  rw [withReturns_append, hreturns, h, Option.map_some, lengthWithReturns_append]

theorem mark?_withReturns (hreturn : c ≠ '\r') (hnewline : c ≠ '\n') (text : List Char) :
    mark? c (withReturns text) = mark? c text := by
  cases text with
  | nil => rfl
  | cons d text =>
    by_cases hd : d = '\n'
    · subst hd
      simp [mark?, hreturn.symm, hnewline.symm]
    · rw [withReturns_cons hd, mark?, mark?]

/-- A run of characters among which are both or neither of the two is a run with returns. -/
theorem run?_withReturns (hp : p '\r' = p '\n') (text : List Char) :
    run? p (withReturns text) = (run? p text).map (lengthWithReturns text) := by
  have hlength := lengthWithReturns_append (text.takeWhile p) (text.dropWhile p)
  rw [List.takeWhile_append_dropWhile] at hlength
  rw [run?, run?, takeWhile_withReturns hp, ← hlength]
  cases hrun : text.takeWhile p with
  | nil => rfl
  | cons c run =>
    have hne : withReturns (c :: run) ≠ [] := mt Text.withReturns_eq_nil_iff.mp (by simp)
    obtain ⟨n, hn⟩ := Nat.exists_eq_add_one_of_ne_zero (mt List.eq_nil_of_length_eq_zero hne)
    rw [hrun, hn, List.length_cons] at hlength
    simp only [List.length_cons, hlength, Option.map_some]

/-- A run without line feeds stays as long as it is. -/
theorem run?_withReturns_eq (hreturn : p '\r' = false) (hnewline : p '\n' = false)
    (text : List Char) : run? p (withReturns text) = run? p text := by
  have hnot : '\n' ∉ text.takeWhile p := by
    intro hmem
    rw [List.mem_takeWhile_imp hmem] at hnewline
    cases hnewline
  rw [run?, takeWhile_withReturns (hreturn.trans hnewline.symm), withReturns_eq_self hnot, run?]

theorem braces?_eq_none (h : ¬ ['\x7b'] <+: text) : braces? text = none := by
  unfold braces?
  split
  · exact absurd ⟨_, rfl⟩ h
  · rfl

theorem braces?_withReturns (text : List Char) :
    braces? (withReturns text) = (braces? text).map (lengthWithReturns text) := by
  by_cases hbrace : ['\x7b'] <+: text
  · obtain ⟨text, rfl⟩ := hbrace
    rw [List.singleton_append]
    by_cases hmem : '\x7d' ∈ text
    · obtain ⟨body, rest, rfl, hbody⟩ := List.eq_append_cons_of_mem hmem
      have hbody' : '\x7d' ∉ withReturns body :=
        mt (Text.mem_withReturns_iff (by decide)).mp hbody
      have hsplit : '\x7b' :: (body ++ '\x7d' :: rest) =
          '\x7b' :: (body ++ ['\x7d']) ++ rest := by simp
      rw [hsplit]
      refine map_lengthWithReturns (braces?_append_iff.mpr ⟨body, rfl, hbody⟩)
        (braces?_append_iff.mpr ⟨withReturns body, ?_, hbody'⟩)
      rw [withReturns_cons (by decide), withReturns_append]
      rfl
    · have hmem' : '\x7d' ∉ withReturns text :=
        mt (Text.mem_withReturns_iff (by decide)).mp hmem
      rw [withReturns_cons (by decide), braces?_open hmem', braces?_open hmem, Option.map_none]
  · have hbrace' : ¬ ['\x7b'] <+: withReturns text :=
      mt (Text.prefix_withReturns_iff (by decide) (by decide)).mp hbrace
    rw [braces?_eq_none hbrace', braces?_eq_none hbrace, Option.map_none]

theorem lineComment?_withReturns (text : List Char) :
    lineComment? (withReturns text) = (lineComment? text).map (lengthWithReturns text) := by
  by_cases hslashes : ['/', '/'] <+: text
  · obtain ⟨text, rfl⟩ := hslashes
    by_cases hmem : '\n' ∈ text
    · obtain ⟨body, rest, rfl, hbody⟩ := List.eq_append_cons_of_mem hmem
      -- The return is the last character of the comment's body.
      have hbody' : '\n' ∉ body ++ ['\r'] := by simpa using hbody
      have hsplit : ['/', '/'] ++ (body ++ '\n' :: rest) =
          '/' :: '/' :: (body ++ ['\n']) ++ rest := by simp
      have hreturns : withReturns ('/' :: '/' :: (body ++ ['\n'])) =
          '/' :: '/' :: (body ++ ['\r'] ++ ['\n']) := by
        simp [withReturns_cons, withReturns_eq_self hbody]
      rw [hsplit]
      refine map_lengthWithReturns (lineComment?_append_iff.mpr ⟨⟨body, hbody, .inl rfl⟩, ?_⟩)
        (lineComment?_append_iff.mpr ⟨⟨body ++ ['\r'], hbody', .inl hreturns⟩, ?_⟩)
      · simp [List.getLast?_cons]
      · simp [hreturns, List.getLast?_cons]
    · have hself : withReturns ('/' :: '/' :: text) = '/' :: '/' :: text :=
        withReturns_eq_self (by simpa using hmem)
      rw [← List.append_nil (['/', '/'] ++ text)]
      exact map_lengthWithReturns
        (lineComment?_append_iff.mpr ⟨⟨text, hmem, .inr rfl⟩, fun _ h => by cases h⟩)
        (lineComment?_append_iff.mpr ⟨⟨text, hmem, .inr hself⟩, fun _ h => by cases h⟩)
  · have hslashes' : ¬ ['/', '/'] <+: withReturns text :=
      mt (Text.prefix_withReturns_iff (by decide) (by decide)).mp hslashes
    rw [lineComment?_eq_none hslashes', lineComment?_eq_none hslashes, Option.map_none]

theorem float?_withReturns (text : List Char) : float? (withReturns text) = float? text := by
  rw [float?, float?, run?_withReturns_eq (by decide) (by decide)]
  cases hwhole : run? Char.isDigit text with
  | none => rfl
  | some whole =>
    obtain ⟨u, v, rfl, rfl, ⟨-, hu⟩, -⟩ := exists_of_run? hwhole
    have hnot : '\n' ∉ u := fun hmem => absurd (hu _ hmem) (by decide)
    rw [withReturns_append, withReturns_eq_self hnot]
    simp only [Option.bind_eq_bind, Option.bind_some, List.drop_left]
    cases v with
    | nil => rfl
    | cons c v =>
      by_cases hc : c = '\n'
      · subst hc
        rfl
      · rw [withReturns_cons hc]
        by_cases hdot : c = '.'
        · subst hdot
          simp only [run?_withReturns_eq (p := Char.isDigit) (by decide) (by decide)]
        · simp [hdot]

/-- The end of a line is not passed, whichever way it is ended. -/
theorem closed?_withReturns (hq : q ≠ '\r') (escaped : Bool) (text : List Char) :
    closed? q escaped (withReturns text) = closed? q escaped text := by
  induction text generalizing escaped with
  | nil => rfl
  | cons c text ih =>
    by_cases hc : c = '\n'
    · subst hc
      have hnewline (escaped : Bool) (rest : List Char) :
          closed? q escaped ('\n' :: rest) = none := by
        rw [closed?, if_pos rfl]
      rw [Text.withReturns_newline, hnewline, closed?, if_neg (by decide), if_neg hq.symm,
        hnewline, hnewline, Option.map_none, ite_self]
    · rw [withReturns_cons hc, closed?, closed?, ih, ih]

theorem quoted?_withReturns (text : List Char) : quoted? (withReturns text) = quoted? text := by
  cases text with
  | nil => rfl
  | cons q text =>
    by_cases hq : q = '\n'
    · subst hq
      rfl
    · rw [withReturns_cons hq, quoted?, quoted?]
      split
      · rename_i hquote
        have hreturn : q ≠ '\r' := by
          rcases hquote with rfl | rfl <;> decide
        rw [closed?_withReturns hreturn]
      · rfl

theorem word?_withReturns (text : List Char) : word? (withReturns text) = word? text := by
  cases text with
  | nil => rfl
  | cons c text =>
    by_cases hc : c = '\n'
    · subst hc
      rfl
    · have hnot : '\n' ∉ text.takeWhile isWordPart := by
        intro hmem
        exact absurd (List.mem_takeWhile_imp hmem) (by decide)
      rw [withReturns_cons hc, word?, word?, takeWhile_withReturns (by decide),
        withReturns_eq_self hnot]

end Forms

section Matches

variable {r : Rule} {a : List Char}

/-- A token has no line end, so it is as long as before. -/
theorem map_lengthWithReturns_eq_self (hr : ∀ a, (r.kind? a).isSome) (text : List Char) :
    (r.matched? text).map (lengthWithReturns text) = r.matched? text := by
  cases hn : r.matched? text with
  | none => rfl
  | some n =>
    obtain ⟨a, b, rfl, rfl, hform, -⟩ := exists_lexeme_of_matched? hn
    obtain ⟨k, hk⟩ := Option.isSome_iff_exists.mp (hr a)
    rw [Option.map_some, lengthWithReturns_append, withReturns_eq_self (hform.newline_notMem hk)]

/-- **A rule matches what it matched**, with the returns in it. -/
theorem matched?_withReturns (r : Rule) (text : List Char) :
    r.matched? (withReturns text) = (r.matched? text).map (lengthWithReturns text) := by
  cases r with
  | dot | comma | semicolon | backslash =>
    rw [map_lengthWithReturns_eq_self fun _ => rfl]
    exact mark?_withReturns (by decide) (by decide) text
  | blanks => exact run?_withReturns (by decide) text
  | braces => exact braces?_withReturns text
  | lineComment => exact lineComment?_withReturns text
  | float =>
    rw [map_lengthWithReturns_eq_self fun _ => rfl]
    exact float?_withReturns text
  | integer =>
    rw [map_lengthWithReturns_eq_self fun _ => rfl]
    exact run?_withReturns_eq (by decide) (by decide) text
  | quoted =>
    rw [map_lengthWithReturns_eq_self fun _ => rfl]
    exact quoted?_withReturns text
  | word =>
    rw [map_lengthWithReturns_eq_self fun _ => rfl]
    exact word?_withReturns text

theorem first?_withReturns (text : List Char) :
    first? (withReturns text) = (first? text).map (Prod.map id (lengthWithReturns text)) := by
  rw [first?, first?, List.map_findSome?]
  refine congrArg all.findSome? (funext fun r => ?_)
  rw [matched?_withReturns, Function.comp_apply, Option.map_map, Option.map_map]
  rfl

/-- What is matched is of the same kind with returns. -/
theorem kind?_withReturns (h : r.Lexeme a) : r.kind? (withReturns a) = r.kind? a := by
  cases r with
  | word => rw [withReturns_eq_self (h.newline_notMem rfl)]
  | _ => rfl

end Matches

end Rule

/-! ## 2. The items of a text -/

section Reading

variable {source : String} {front text : List Char} {r : Rule} {n : Nat}

theorem Rule.take_lengthWithReturns (text : List Char) (n : Nat) :
    (withReturns text).take (lengthWithReturns text n) = withReturns (text.take n) := by
  conv_lhs => rw [← List.take_append_drop n text, withReturns_append]
  rw [List.take_append_drop, lengthWithReturns, List.take_left]

theorem Rule.drop_lengthWithReturns (text : List Char) (n : Nat) :
    (withReturns text).drop (lengthWithReturns text n) = withReturns (text.drop n) := by
  conv_lhs => rw [← List.take_append_drop n text, withReturns_append]
  rw [List.take_append_drop, lengthWithReturns, List.drop_left]

/-- The first rule that matches is the same, with the returns in what it matches. -/
theorem Rule.first?_withReturns_of_eq (h : first? text = some (r, n)) :
    first? (withReturns text) = some (r, lengthWithReturns text n) := by
  rw [first?_withReturns, h]
  rfl

/-- What is matched first is of the same kind with returns. -/
theorem Rule.kind?_take_withReturns (h : first? text = some (r, n)) :
    r.kind? ((withReturns text).take (lengthWithReturns text n)) = r.kind? (text.take n) := by
  obtain ⟨a, b, rfl, rfl, hform, -⟩ := exists_lexeme_of_matched? (matched?_of_first? h)
  rw [take_lengthWithReturns, List.take_left, kind?_withReturns hform]

theorem Rule.newline_notMem_take {k : Kind} (h : first? text = some (r, n))
    (hk : r.kind? (text.take n) = some k) : '\n' ∉ text.take n := by
  obtain ⟨a, b, rfl, rfl, hform, -⟩ := exists_lexeme_of_matched? (matched?_of_first? h)
  rw [List.take_left] at hk ⊢
  exact hform.newline_notMem hk

theorem Rule.first?_newline_ne_none (text : List Char) : first? ('\n' :: text) ≠ none := by
  intro h
  have hblank := List.findSome?_eq_none_iff.mp h blanks (mem_all blanks)
  simp [matched?, run?, show Text.isBlank '\n' = true by decide] at hblank

/-- What a scan finds, at its place in the source with returns. -/
def Scan.withReturns (source : String) : Scan → Scan
  | token t rest => .token (t.move (.withReturns source)) (Text.withReturns rest)
  | ended p => .ended (p.withReturns source)
  | stuck p c rest => .stuck (p.withReturns source) c (Text.withReturns rest)

/-- **Reading goes along with putting returns in.**  Behind any beginning of the source, the same
token is found, where the same text stands before it. -/
theorem scan_withReturns (h : source.toList = front ++ text) :
    scan (Position.start.advance (withReturns front)) (withReturns text) =
      (scan (Position.start.advance front) text).withReturns source := by
  induction hp : Position.start.advance front, text using lex_induction generalizing front with
  | nil p =>
    rw [Text.withReturns_nil, scan_nil, scan_nil, ← hp, ← Position.withReturns_advance h]
    rfl
  | stuck p c rest hfirst =>
    have hc : c ≠ '\n' := by
      rintro rfl
      exact Rule.first?_newline_ne_none rest hfirst
    have hfirst' : Rule.first? (c :: withReturns rest) = none := by
      rw [← withReturns_cons hc, Rule.first?_withReturns, hfirst]
      rfl
    rw [withReturns_cons hc, scan_stuck hfirst', scan_stuck hfirst, ← hp,
      ← Position.withReturns_advance h, Scan.withReturns, withReturns_cons hc]
  | silent p text r n hfirst hk ih =>
    have hsource : source.toList = (front ++ text.take n) ++ text.drop n := by
      rw [List.append_assoc, List.take_append_drop, h]
    have hp' : Position.start.advance (front ++ text.take n) = p.advance (text.take n) := by
      rw [Position.advance_append, hp]
    have hk' := (Rule.kind?_take_withReturns hfirst).trans hk
    rw [scan_silent (Rule.first?_withReturns_of_eq hfirst) hk', Rule.take_lengthWithReturns,
      Rule.drop_lengthWithReturns, ← Position.advance_append, ← withReturns_append,
      ih hsource hp', scan_silent hfirst hk]
  | token p text r n k hfirst hk ih =>
    have hsource : source.toList = (front ++ text.take n) ++ text.drop n := by
      rw [List.append_assoc, List.take_append_drop, h]
    have hnewline := Rule.newline_notMem_take hfirst hk
    have hk' := (Rule.kind?_take_withReturns hfirst).trans hk
    rw [scan_token (Rule.first?_withReturns_of_eq hfirst) hk', scan_token hfirst hk, Token.cut,
      Rule.take_lengthWithReturns, Rule.drop_lengthWithReturns, ← Position.advance_append,
      ← withReturns_append, ← Position.withReturns_advance h,
      ← Position.withReturns_advance hsource, withReturns_eq_self hnewline,
      Position.advance_append, hp]
    rfl

/-- So all items are the same, each where the same text stands before it. -/
theorem items_withReturns (h : source.toList = front ++ text) :
    items (Position.start.advance (withReturns front)) (withReturns text) =
      (items (Position.start.advance front) text).move (.withReturns source) := by
  induction hlength : text.length using Nat.strong_induction_on generalizing front text with
  | _ length ih =>
    subst hlength
    rw [items_eq_scan, items_eq_scan, scan_withReturns h]
    have hlexes := lexes_of_scan (Position.start.advance front) text
    cases hscan : scan (Position.start.advance front) text with
    | token t rest =>
      rw [hscan] at hlexes
      obtain ⟨shown, rfl, hstop, -⟩ := hlexes.cut_off
      have hsource : source.toList = (front ++ shown) ++ rest := by
        rw [List.append_assoc, h]
      have hrest := ih rest.length (length_lt_of_scan_token hscan) hsource rfl
      rw [← Position.withReturns_advance hsource, Position.advance_append, ← hstop] at hrest
      simp only [Scan.withReturns, Token.move, Span.move, hrest]
      rfl
    | ended q => rfl
    | stuck q c rest => rfl

/-- The items of a source with returns are those without, at their places there. -/
theorem itemsOf_crlf (source : String) :
    itemsOf (Text.crlf source) = (itemsOf source).move (.withReturns source) := by
  have h := items_withReturns (List.nil_append source.toList).symm
  rwa [itemsOf, itemsOf, Text.crlf, String.toList_ofList]

end Reading

/-! ## 3. Scanners in use -/

/-- The scanner at its place in the source with returns. -/
def Scanner.withReturns (source : String) (s : Scanner) : Scanner :=
  { s with rest := Text.withReturns s.rest, position := s.position.withReturns source }

/-- The step with returns in the source that it may load. -/
def Scanner.Step.withReturns : Scanner.Step → Scanner.Step
  | load source => .load (Text.crlf source)
  | a => a

/-- The session with returns in its source, all it has handed out at its place there. -/
def Session.withReturns (x : Session) : Session :=
  ⟨Text.crlf x.source, x.delivered.map (Items.moveItem (.withReturns x.source)),
    x.scanner.withReturns x.source⟩

section Scanners

variable {source : String} {s : Scanner} {x : Session}

/-- One call hands out the same item and leads to the same place. -/
theorem Scanner.nextToken_withReturns (h : s.Follows source) :
    (s.withReturns source).nextToken =
      (Items.moveItem (.withReturns source) s.nextToken.1, s.nextToken.2.withReturns source) := by
  obtain ⟨front, hsource, hposition⟩ := h.exists_front
  cases hended : s.ended with
  | true =>
    rw [nextToken_of_ended hended, nextToken_of_ended (s := s.withReturns source) hended]
    rfl
  | false =>
    have hscan := scan_withReturns hsource
    rw [← Position.withReturns_advance hsource, ← hposition] at hscan
    simp only [nextToken, Scanner.withReturns, hended, Bool.false_eq_true, if_false, hscan]
    cases scan s.position s.rest with
    | token t rest => rfl
    | ended q => rfl
    | stuck q c rest => rfl

theorem Scanner.ofSource_crlf (source : String) :
    ofSource (Text.crlf source) = (ofSource source).withReturns source := by
  have hstart := Position.withReturns_advance (List.nil_append source.toList).symm
  rw [Text.withReturns_nil, Position.advance_nil] at hstart
  rw [ofSource, ofSource, Scanner.withReturns, Text.crlf, String.toList_ofList, hstart]

namespace Session

/-- A step does the same with returns. -/
theorem step_withReturns (h : x.Sound) (a : Scanner.Step) :
    x.withReturns.step a.withReturns = (x.step a).withReturns := by
  have hnext := Scanner.nextToken_withReturns h.scanner
  cases a with
  | nextToken => simp [step, Scanner.Step.withReturns, Session.withReturns, hnext]
  | next =>
    have hflags : ((x.scanner.withReturns x.source).failed ||
        (x.scanner.withReturns x.source).ended) = (x.scanner.failed || x.scanner.ended) := rfl
    by_cases hstopped : (x.scanner.failed || x.scanner.ended) = true
    · simp [step, Scanner.Step.withReturns, Session.withReturns, Scanner.next?, hflags, hstopped]
    · simp [step, Scanner.Step.withReturns, Session.withReturns, Scanner.next?, hflags, hstopped,
        hnext]
  | load source =>
    rw [Scanner.Step.withReturns, step, step, Scanner.load_eq_ofSource,
      Scanner.load_eq_ofSource, Scanner.ofSource_crlf]
    rfl
  | enter m => rfl
  | leave =>
    unfold step Scanner.leave?
    cases hentered : x.scanner.entered with
    | nil => simp [Scanner.Step.withReturns, Session.withReturns, Scanner.withReturns, hentered]
    | cons m below =>
      simp [Scanner.Step.withReturns, Session.withReturns, Scanner.withReturns, hentered]

/-- **A session is the same with returns**, step by step, whatever the steps. -/
theorem run_withReturns (source : String) (steps : List Scanner.Step) :
    run (Text.crlf source) (steps.map Scanner.Step.withReturns) =
      (run source steps).withReturns := by
  have hsteps (x : Session) (h : x.Sound) :
      (steps.map Scanner.Step.withReturns).foldl step x.withReturns =
        (steps.foldl step x).withReturns := by
    induction steps generalizing x with
    | nil => rfl
    | cons a steps ih =>
      rw [List.map_cons, List.foldl_cons, List.foldl_cons, step_withReturns h a]
      exact ih _ (sound_step h a)
  have hstart : start (Text.crlf source) = (start source).withReturns := by
    rw [start, start, Scanner.ofSource_crlf]
    rfl
  rw [run, run, hstart]
  exact hsteps _ (sound_start source)

end Session

end Scanners

end UnitLang
