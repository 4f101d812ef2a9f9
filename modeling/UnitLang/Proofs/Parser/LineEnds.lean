/-
# Parsing with carriage returns

Whether the lines of a source end in a line feed or in a carriage return and a line feed makes no
difference but for the offsets.  The tokens are the same, each at its place there
(`itemsOf_crlf`), so the tree is (`Parser.parse_ok_of_items_move`), and so is the error
(`Parser.parse_error_of_items_move`).  A report on it names the line and the column, which are the
same, and shows the line without its end.
-/
import UnitLang.Proofs.Parser.Joining
import UnitLang.Proofs.Token.LineEnds
import UnitLang.Report

namespace UnitLang

open Text (crlf)

/-! ## 1. Moved items, moved outcome -/

section Moved

variable {p : Parser} {source source' : String} {f : Position → Position}

/-- Where the items are moved, the tree is. -/
theorem Parser.parse_ok_of_items_move (h : itemsOf source' = (itemsOf source).move f) {n : Node}
    (hn : (p.parse source).1 = .ok n) : (p.parse source').1 = .ok (n.move f) := by
  obtain ⟨ts, stop, hitems, hbuilds⟩ := parse_eq_ok_iff.mp hn
  refine parse_eq_ok_iff.mpr ⟨ts.map (Token.move f), f stop, ?_, hbuilds.move f⟩
  rw [h, hitems]
  rfl

/-- Where the items are moved, the error is. -/
theorem Parser.parse_error_of_items_move (h : itemsOf source' = (itemsOf source).move f) {e : Error}
    (he : (p.parse source).1 = .error e) : (p.parse source').1 = .error (e.move f) := by
  rw [parse_error_iff_fails, h]
  exact ((p.parse_error_iff_fails source e).mp he).move f

end Moved

/-! ## 2. Reports -/

/-- An error of a source is reported as it is with returns, if there was none. -/
theorem Report.render?_crlf {source : String} (h : '\r' ∉ source.toList) (e : Error)
    (file : String) :
    render? (e.move (.withReturns source)) (crlf source) file = render? e source file := by
  have hlines : lines (e.move (.withReturns source)) (crlf source) file = lines e source file := by
    simp only [lines, Text.line_crlf h]
    rfl
  rw [render?, render?, hlines]
  rfl

/-! ## 3. The same source -/

section Source

variable {source : String}

/-- **A source with returns is the same source.**  A scanner hands out the same items, at the same
lines and columns and with offsets that count the returns, in whatever way it is used; a parse
has the same tree or the same error, at its place there; and reports on the two errors are the
same. -/
theorem crlf_same (p : Parser) (h : '\r' ∉ source.toList) :
    (itemsOf (crlf source)).toList =
        (itemsOf source).toList.map (Items.moveItem (.withReturns source)) ∧
      (∀ steps, Session.run (crlf source) (steps.map Scanner.Step.withReturns) =
        (Session.run source steps).withReturns) ∧
      (∀ n, (p.parse source).1 = .ok n →
        (p.parse (crlf source)).1 = .ok (n.move (.withReturns source))) ∧
      ∀ e, (p.parse source).1 = .error e →
        (p.parse (crlf source)).1 = .error (e.move (.withReturns source)) ∧
          ∀ file, e.position.column < Report.maxCaret →
            ∃ report, Report.render? e source file = some report ∧
              Report.render? (e.move (.withReturns source)) (crlf source) file = some report := by
  have hitems := itemsOf_crlf source
  refine ⟨?_, Session.run_withReturns source, ?_, ?_⟩
  · rw [hitems, Items.toList_move]
  · intro n hn
    exact Parser.parse_ok_of_items_move hitems hn
  · intro e he
    refine ⟨Parser.parse_error_of_items_move hitems he, ?_⟩
    intro file hcolumn
    obtain ⟨report, hreport⟩ :=
      Option.isSome_iff_exists.mp ((Report.render?_isSome_iff e source file).mpr hcolumn)
    exact ⟨report, hreport, (Report.render?_crlf h e file).trans hreport⟩

/-- An error behind an annotation of two lines, on the third. -/
theorem crlf_same_annotation :
    '\r' ∉ "unit\n\x7b\n\x7da b;".toList ∧
      crlf "unit\n\x7b\n\x7da b;" = "unit\r\n\x7b\r\n\x7da b;" ∧
      (Parser.new.parse "unit\n\x7b\n\x7da b;").1 = .error ⟨.unexpectedToken "b", ⟨10, 3, 3⟩⟩ ∧
      (Parser.new.parse "unit\r\n\x7b\r\n\x7da b;").1 =
        .error ⟨.unexpectedToken "b", ⟨12, 3, 3⟩⟩ ∧
      ∃ report,
        Report.render? ⟨.unexpectedToken "b", ⟨10, 3, 3⟩⟩ "unit\n\x7b\n\x7da b;" "f" =
            some report ∧
          Report.render? ⟨.unexpectedToken "b", ⟨12, 3, 3⟩⟩ "unit\r\n\x7b\r\n\x7da b;" "f" =
            some report := by
  have hreturn : '\r' ∉ "unit\n\x7b\n\x7da b;".toList := by decide
  have hcrlf : crlf "unit\n\x7b\n\x7da b;" = "unit\r\n\x7b\r\n\x7da b;" := by decide
  have his : itemsOf "unit\n\x7b\n\x7da b;" =
      ⟨[⟨.unitKw, "unit", ⟨⟨0, 1, 0⟩, ⟨4, 1, 4⟩⟩⟩, ⟨.identifier, "a", ⟨⟨8, 3, 1⟩, ⟨9, 3, 2⟩⟩⟩,
        ⟨.identifier, "b", ⟨⟨10, 3, 3⟩, ⟨11, 3, 4⟩⟩⟩,
        ⟨.semicolon, ";", ⟨⟨11, 3, 4⟩, ⟨12, 3, 5⟩⟩⟩], .ended ⟨12, 3, 5⟩⟩ := by decide +kernel
  have herror : (Parser.new.parse "unit\n\x7b\n\x7da b;").1 =
      .error ⟨.unexpectedToken "b", ⟨10, 3, 3⟩⟩ := by
    rw [Parser.parse_eq_answer, his]
    dsimp only
    rw [answer_cons_of_shift rfl, answer_cons_of_shift rfl, answer_cons_of_none rfl]
  obtain ⟨-, -, -, herrors⟩ := crlf_same Parser.new hreturn
  obtain ⟨herror', hreports⟩ := herrors _ herror
  have hmoved : (⟨.unexpectedToken "b", ⟨10, 3, 3⟩⟩ : Error).move
      (.withReturns "unit\n\x7b\n\x7da b;") = ⟨.unexpectedToken "b", ⟨12, 3, 3⟩⟩ := by decide
  rw [hmoved, hcrlf] at herror'
  have hreport := hreports "f" (by decide)
  rw [hmoved, hcrlf] at hreport
  exact ⟨hreturn, hcrlf, herror, herror', hreport⟩

end Source

end UnitLang
