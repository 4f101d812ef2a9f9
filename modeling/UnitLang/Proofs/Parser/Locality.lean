/-
# The text that settles an error

Whether a text fails, and where, is settled as soon as the item at which it fails has been read.
Cut off the text behind this item and go on with any other lines, and the error is the same
(`Parser.SettledAt`).

For a token that cannot go on, the text is cut behind a token, and a line feed there changes no
token before it.  For a character that no rule matches, the tail of the text is exchanged
(`Lexes.change_tail`), and no rule comes to match before a line feed.  Both are the first item that
cannot go on in the one text as in the other, because the tokens before them are the same.  Only an
opening brace is not settled: a closing one on a later line makes an annotation of it.
-/
import UnitLang.Proofs.Parser.EarliestError
import UnitLang.Proofs.Token.Tail

namespace UnitLang

open Grammar
open Rule (first?)

/-- The error is settled at this offset of the source: with any lines below the text before it,
the parse fails with this error. -/
def Parser.SettledAt (p : Parser) (source : String) (offset : Nat) (e : Error) : Prop :=
  ∃ before after, source = before ++ after ∧ before.utf8ByteSize = offset ∧
    ∀ v, (p.parse (before ++ "\n" ++ v)).1 = .error e

section Settling

variable {p : Parser} {source : String} {e : Error}

/-- **A token that cannot go on** is the first such item whatever lines follow it. -/
theorem Parser.settledAt_of_token {before after : List Token} {t : Token}
    (htoks : (itemsOf source).tokens = before ++ t :: after)
    (hgood : IsViable (before.map (·.kind)))
    (hbad : ¬ IsViable ((before ++ [t]).map (·.kind))) :
    p.SettledAt source t.span.stop.offset ⟨.unexpectedToken t.value, t.span.start⟩ := by
  obtain ⟨q, rest, hlexes, -⟩ := exists_lexes_all .start source.toList
  rw [← itemsOf, htoks] at hlexes
  obtain ⟨middle, hmiddle⟩ := hlexes.cut_behind_token
  obtain ⟨front, hfront, hstop, hcut⟩ := hmiddle.cut_off
  obtain ⟨hsource, hsize⟩ := Position.cut_advance_start hfront
  rw [← hstop] at hsize
  refine ⟨String.ofList front, String.ofList middle, hsource, hsize, fun v => ?_⟩
  have htext : (String.ofList front ++ "\n" ++ v).toList = front ++ '\n' :: v.toList := by simp
  have hitems : (itemsOf (String.ofList front ++ "\n" ++ v)).tokens =
      before ++ t :: (items (t.span.stop.after '\n') v.toList).tokens := by
    rw [itemsOf, htext, hcut.items_newline, List.append_assoc, List.singleton_append]
  exact (p.parse_error_iff_fails _ _).mpr (.token hitems hgood hbad)

/-- **A character that no rule matches**, but an opening brace, is matched by no rule whatever
lines follow it. -/
theorem Parser.settledAt_of_lexical {c : Char} {q : Position}
    (hend : (itemsOf source).ending = .failed (.unrecognised q c)) (hc : c ≠ '\x7b')
    (hgood : IsViable ((itemsOf source).tokens.map (·.kind))) :
    p.SettledAt source (q.offset + c.utf8Size) (.unrecognised q c) := by
  obtain ⟨q', rest, hlexes, hlast⟩ := exists_lexes_all .start source.toList
  rw [← itemsOf, hend] at hlast
  rcases hlast with ⟨heq, -⟩ | ⟨c', tail, heq, rfl, hstuck⟩
  · cases heq
  · obtain ⟨rfl, rfl⟩ : c = c' ∧ q = q' := by
      simpa [Error.unrecognised, String.singleton_inj] using heq
    rw [← itemsOf] at hlexes
    have hstuck' (v : List Char) : first? (c :: '\n' :: v) = none :=
      Rule.first?_newline_eq_none hstuck hc v
    have hchange := hlexes.change_tail (Rule.isDigit_eq_false_of_first? hstuck)
      (Rule.ne_dot_of_first? hstuck)
    obtain ⟨front, hfront, rfl, -⟩ := hchange tail
    have hcut : source.toList = (front ++ [c]) ++ tail := by
      rw [hfront, List.append_assoc, List.singleton_append]
    obtain ⟨hsource, hsize⟩ := Position.cut_advance_start hcut
    refine ⟨String.ofList (front ++ [c]), String.ofList tail, hsource, ?_, fun v => ?_⟩
    · rw [hsize, Position.advance_append, Position.advance_cons, Position.advance_nil,
        Position.offset_after]
    · have htext : (String.ofList (front ++ [c]) ++ "\n" ++ v).toList =
          front ++ c :: '\n' :: v.toList := by simp
      obtain ⟨front', hfront', -, hlexes'⟩ := hchange ('\n' :: v.toList)
      obtain rfl : front' = front := List.append_cancel_right (hfront'.symm.trans hfront)
      have hitems := hlexes'.items
      rw [items_stuck (hstuck' v.toList), List.append_nil, ← htext] at hitems
      refine (p.parse_error_iff_fails _ _).mpr (.lexical ?_ ?_)
      · rw [itemsOf, hitems]
      · rw [itemsOf, hitems]
        exact hgood

end Settling

/-- **The text up to the item at which a parse fails settles its error.**  A token that cannot go
on stands in the source at the place of the error, and its end settles it; a character that no rule
matches, unless it is an opening brace, settles the error itself. -/
theorem parse_error_settled {p : Parser} {source : String} {e : Error}
    (he : (p.parse source).1 = .error e) :
    (∀ text, e.cause = .unexpectedToken text →
      ∃ t ∈ (itemsOf source).tokens, t.value = text ∧ t.span.start = e.position ∧
        p.SettledAt source t.span.stop.offset e) ∧
    ∀ text, e.cause = .unrecognisedToken text → text ≠ "\x7b" →
      p.SettledAt source (e.position.offset + text.utf8ByteSize) e := by
  rcases (p.parse_error_iff_fails source e).mp he with
    ⟨htoks, hgood, hbad⟩ | ⟨hend, -, -⟩ | ⟨hend, hgood⟩
  · refine ⟨fun text htext => ?_, nofun⟩
    cases htext
    exact ⟨_, by simp [htoks], rfl, rfl, Parser.settledAt_of_token htoks hgood hbad⟩
  · exact ⟨nofun, nofun⟩
  · obtain ⟨q, c, rfl⟩ := exists_eq_unrecognised hend
    refine ⟨nofun, fun text htext hne => ?_⟩
    cases htext
    have hc : c ≠ '\x7b' := by
      rintro rfl
      exact hne rfl
    rw [String.utf8ByteSize_singleton]
    exact Parser.settledAt_of_lexical hend hc hgood

/-- A keyword is no name, whatever follows it; and a quotation mark opens no literal that a later
line could close. -/
theorem parse_error_settled_keyword_open :
    (Parser.new.parse "unit as;").1 = .error ⟨.unexpectedToken "as", ⟨5, 1, 5⟩⟩ ∧
      Parser.new.SettledAt "unit as;" 7 ⟨.unexpectedToken "as", ⟨5, 1, 5⟩⟩ ∧
      (Parser.new.parse "unit \"a;").1 = .error ⟨.unrecognisedToken "\"", ⟨5, 1, 5⟩⟩ ∧
      Parser.new.SettledAt "unit \"a;" 6 ⟨.unrecognisedToken "\"", ⟨5, 1, 5⟩⟩ := by
  have hkeyword : itemsOf "unit as;" =
      ⟨[⟨.unitKw, "unit", ⟨⟨0, 1, 0⟩, ⟨4, 1, 4⟩⟩⟩, ⟨.asKw, "as", ⟨⟨5, 1, 5⟩, ⟨7, 1, 7⟩⟩⟩,
        ⟨.semicolon, ";", ⟨⟨7, 1, 7⟩, ⟨8, 1, 8⟩⟩⟩], .ended ⟨8, 1, 8⟩⟩ := by decide +kernel
  have hopen : itemsOf "unit \"a;" =
      ⟨[⟨.unitKw, "unit", ⟨⟨0, 1, 0⟩, ⟨4, 1, 4⟩⟩⟩],
        .failed (.unrecognised ⟨5, 1, 5⟩ '\"')⟩ := by decide +kernel
  have herror : (Parser.new.parse "unit as;").1 =
      .error ⟨.unexpectedToken "as", ⟨5, 1, 5⟩⟩ := by
    rw [Parser.parse_eq_answer, hkeyword]
    dsimp only
    rw [answer_cons_of_shift rfl, answer_cons_of_none rfl]
  have herror' : (Parser.new.parse "unit \"a;").1 =
      .error ⟨.unrecognisedToken "\"", ⟨5, 1, 5⟩⟩ := by
    rw [Parser.parse_eq_answer, hopen]
    dsimp only
    rw [answer_cons_of_shift rfl]
    rfl
  refine ⟨herror, ?_, herror', (parse_error_settled herror').2 _ rfl (by decide)⟩
  obtain ⟨t, ht, htext, -, hsettled⟩ := (parse_error_settled herror).1 _ rfl
  obtain rfl : t = ⟨.asKw, "as", ⟨⟨5, 1, 5⟩, ⟨7, 1, 7⟩⟩⟩ := by
    rw [hkeyword] at ht
    simp only [List.mem_cons, List.not_mem_nil, or_false] at ht
    rcases ht with rfl | rfl | rfl
    · exact absurd htext (by decide)
    · rfl
    · exact absurd htext (by decide)
  exact hsettled

/-- An opening brace settles nothing: closed on the next line, it is an annotation. -/
example : (Parser.new.parse "\x7b").1 = .error ⟨.unrecognisedToken "\x7b", ⟨0, 1, 0⟩⟩ ∧
    (Parser.new.parse ("\x7b" ++ "\n" ++ "\x7d")).1 =
      .error ⟨.unexpectedEndOfInput, ⟨3, 2, 1⟩⟩ := by
  have hopen : itemsOf "\x7b" = ⟨[], .failed (.unrecognised ⟨0, 1, 0⟩ '\x7b')⟩ := by decide +kernel
  have hclosed : itemsOf ("\x7b" ++ "\n" ++ "\x7d") = ⟨[], .ended ⟨3, 2, 1⟩⟩ := by decide +kernel
  rw [Parser.parse_eq_answer, Parser.parse_eq_answer, hopen, hclosed]
  exact ⟨rfl, answer_nil_of_none rfl⟩

end UnitLang
