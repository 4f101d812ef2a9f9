/-
# The positions of a parse

Whatever is reported about a source is reported at a place in it: the error of a parse, and the
identifiers of its tree.  `Position.IsIn` says what this means by the text before the place.

An error stands where the source can be cut (`Items.Fails.exists_lexes`).  An identifier is what
some token spells (`Builds.exists_token`), and a token stands where it is read.  That scanners
keep to their source is what `Session` says of them, in any use.

A scanner here carries its column along.  One that keeps the bytes before its line instead has the
column as a difference, and in any use there is such a scanner with the same positions
(`ByteScanner.exists_standsFor_run`): its line has begun (`ByteScanner.Progresses.line_begun`), so
the difference is never cut off at zero.
-/
import UnitLang.Proofs.Grammar.Making
import UnitLang.Proofs.Parser.EarliestError
import UnitLang.Proofs.Program.Reading
import UnitLang.Proofs.Scanner.Session

namespace UnitLang

/-! ## 1. Tokens and errors -/

/-- The tokens of a source stand in it. -/
theorem itemIn_of_mem_itemsOf {source : String} {t : Token} (h : t ∈ (itemsOf source).tokens) :
    ItemIn source (.ok t) := by
  obtain ⟨q, rest, hlexes, -⟩ := exists_lexes_all .start source.toList
  exact ((Scanner.Follows.ofSource source).of_lexes hlexes).2 t h

/-- The first item that cannot go on stands in the source. -/
theorem Items.Fails.position_isIn {source : String} {e : Error} (h : (itemsOf source).Fails e) :
    e.position.IsIn source := by
  obtain ⟨ts, rest, hlexes, -⟩ := h.exists_lexes
  obtain ⟨front, hsource, hposition, -⟩ := hlexes.cut_off
  rw [hposition]
  exact Position.isIn_advance_start hsource

/-! ## 2. Trees -/

/-- The identifiers of a parsed tree stand in the source. -/
theorem Parser.span_isIn_of_parse {p : Parser} {source : String} {n : Node} {id : Identifier}
    (h : (p.parse source).1 = .ok n) (hid : id ∈ n.allIdentifiers) :
    id.span.start.IsIn source ∧ id.span.stop.IsIn source := by
  obtain ⟨ts, stop, his, hb⟩ := parse_eq_ok_iff.mp h
  obtain ⟨t, ht, rfl⟩ := hb.exists_token (List.mem_singleton_self _) hid
  obtain ⟨hstart, hstop, -⟩ := itemIn_of_mem_itemsOf (t := t) (by rwa [his])
  exact ⟨hstart, hstop⟩

/-- **All positions are those of places in the source.**  After any steps the scanner is at a place
of the source it was loaded with last, at its end once the end of the input has been handed out,
and what it has handed out since stands there, each token on one line.  The error of a parse
stands in its source, and so do the identifiers of a parsed tree. -/
theorem positions_isIn :
    (∀ first steps, let x := Session.run first steps
      x.scanner.position.IsIn x.source ∧
        (x.scanner.ended = true → x.scanner.position.offset = x.source.utf8ByteSize) ∧
        ∀ item ∈ x.delivered, ItemIn x.source item) ∧
    ∀ (p : Parser) (source : String),
      (∀ e, (p.parse source).1 = .error e → e.position.IsIn source) ∧
        ∀ n, (p.parse source).1 = .ok n →
          ∀ id ∈ n.allIdentifiers, id.span.start.IsIn source ∧ id.span.stop.IsIn source := by
  constructor
  · intro first steps x
    have hsound : x.Sound := Session.sound_run first steps
    exact ⟨hsound.scanner.position_isIn, hsound.scanner.offset_of_ended, hsound.delivered⟩
  · intro p source
    constructor
    · intro e he
      exact ((p.parse_error_iff_fails source e).mp he).position_isIn
    · intro n hn id hid
      exact Parser.span_isIn_of_parse hn hid

/-- A scanner at its end stays there, an error stands behind a text with a longer character, and a
path may be on a line below its keyword. -/
theorem positions_isIn_below :
    ((Session.run "a\n" [.nextToken, .nextToken, .nextToken]).scanner.ended = true ∧
      (⟨2, 2, 0⟩ : Position).IsIn "a\n") ∧
    (Except.error (.unrecognised ⟨6, 3, 0⟩ '@') ∈ (Session.run "a"
        [.nextToken, .load "'é'\n\n@", .enter .initial, .nextToken, .leave, .next]).delivered ∧
      (⟨6, 3, 0⟩ : Position).IsIn "'é'\n\n@") ∧
    ((Parser.new.parse "unit\n ;").1 = .error ⟨.unexpectedToken ";", ⟨6, 2, 1⟩⟩ ∧
      (⟨6, 2, 1⟩ : Position).IsIn "unit\n ;") ∧
    (Parser.new.parse "unit\na;").1 =
        .ok (.list [.unit [.identifier ⟨"a", ⟨⟨5, 2, 0⟩, ⟨6, 2, 1⟩⟩⟩]]) ∧
      (⟨5, 2, 0⟩ : Position).IsIn "unit\na;" ∧ (⟨6, 2, 1⟩ : Position).IsIn "unit\na;" := by
  refine ⟨?_, ?_, ?_, ?_⟩
  · have hended : (Session.run "a\n" [.nextToken, .nextToken, .nextToken]).scanner =
        ⟨[], ⟨2, 2, 0⟩, true, false, []⟩ := by decide +kernel
    obtain ⟨hplace, -, -⟩ :=
      positions_isIn.1 "a\n" [.nextToken, .nextToken, .nextToken]
    rw [hended] at hplace ⊢
    exact ⟨rfl, hplace⟩
  · have hmem : Except.error (.unrecognised ⟨6, 3, 0⟩ '@') ∈ (Session.run "a"
        [.nextToken, .load "'é'\n\n@", .enter .initial, .nextToken, .leave, .next]).delivered := by
      decide +kernel
    obtain ⟨-, -, hitems⟩ := positions_isIn.1 "a"
      [.nextToken, .load "'é'\n\n@", .enter .initial, .nextToken, .leave, .next]
    have hsource : (Session.run "a" [.nextToken, .load "'é'\n\n@", .enter .initial, .nextToken,
        .leave, .next]).source = "'é'\n\n@" := by decide +kernel
    rw [hsource] at hitems
    exact ⟨hmem, hitems _ hmem⟩
  · have his : itemsOf "unit\n ;" =
        ⟨[⟨.unitKw, "unit", ⟨⟨0, 1, 0⟩, ⟨4, 1, 4⟩⟩⟩, ⟨.semicolon, ";", ⟨⟨6, 2, 1⟩, ⟨7, 2, 2⟩⟩⟩],
          .ended ⟨7, 2, 2⟩⟩ := by decide +kernel
    have herror : (Parser.new.parse "unit\n ;").1 =
        .error ⟨.unexpectedToken ";", ⟨6, 2, 1⟩⟩ := by
      rw [Parser.parse_eq_answer, his]
      dsimp only
      rw [answer_cons_of_shift rfl, answer_cons_of_none rfl]
    exact ⟨herror, (positions_isIn.2 Parser.new _).1 _ herror⟩
  · have his : itemsOf "unit\na;" =
        ⟨[⟨.unitKw, "unit", ⟨⟨0, 1, 0⟩, ⟨4, 1, 4⟩⟩⟩, ⟨.identifier, "a", ⟨⟨5, 2, 0⟩, ⟨6, 2, 1⟩⟩⟩,
          ⟨.semicolon, ";", ⟨⟨6, 2, 1⟩, ⟨7, 2, 2⟩⟩⟩], .ended ⟨7, 2, 2⟩⟩ := by decide +kernel
    have hok : (Parser.new.parse "unit\na;").1 =
        .ok (.list [.unit [.identifier ⟨"a", ⟨⟨5, 2, 0⟩, ⟨6, 2, 1⟩⟩⟩]]) := by
      rw [Parser.parse_eq_answer, his]
      exact answer_unit rfl rfl rfl _
    exact ⟨hok, (positions_isIn.2 Parser.new _).2 _ hok _ (List.mem_singleton_self _)⟩

end UnitLang
