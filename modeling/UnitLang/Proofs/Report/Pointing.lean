/-
# Reports point at the error

The caret of a report stands below the text that the error is about.  Two things make this so.  An
error has a place in the source where that text stands on one line (`Error.ArisesIn`): a character
where no rule matches, a token, or the end.  And what a report puts before the line that it shows
has as many characters as what it puts before the caret (`firstAt_bar`, `firstAt_caret`).

What is shown of the line is cut off at the end only, by a carriage return, and no character where
no rule matches and no token ends with one.
-/
import UnitLang.Report
import UnitLang.Proofs.Parser.EarliestError
import UnitLang.Proofs.Text.Line
import UnitLang.Proofs.Token.Tail

namespace UnitLang

/-! ## 1. Where errors arise -/

/-- A token of a source stands in it. -/
theorem exists_isRead_of_mem {source : String} {t : Token} (ht : t ∈ (itemsOf source).tokens) :
    ∃ front value after, source.toList = front ++ (value ++ after) ∧
      t.IsRead (Position.start.advance front) value := by
  obtain ⟨q, rest, hlexes, -⟩ := exists_lexes_all .start source.toList
  obtain ⟨before, later, htoks⟩ := List.append_of_mem ht
  rw [← itemsOf, htoks] at hlexes
  obtain ⟨front, gap, value, middle, hsource, -, -, hread⟩ := hlexes.at_token
  exact ⟨front ++ gap, value, middle ++ rest, by rw [hsource, List.append_assoc], hread⟩

/-- The errors of a source, each with the text at its place. -/
inductive Error.ArisesIn (source : String) : Error → Prop where
  /-- No rule matches at the character `c`, so it is not white space. -/
  | character {front after : List Char} {c : Char} :
      source.toList = front ++ ([c] ++ after) → Text.isBlank c = false →
      ArisesIn source (.unrecognised (Position.start.advance front) c)
  /-- The token cannot stand where it stands. -/
  | token {front value after : List Char} {t : Token} :
      source.toList = front ++ (value ++ after) → t ∈ (itemsOf source).tokens →
      t.IsRead (Position.start.advance front) value →
      ArisesIn source ⟨.unexpectedToken t.value, t.span.start⟩
  /-- The source ends too early. -/
  | ended : ArisesIn source ⟨.unexpectedEndOfInput, Position.start.advance source.toList⟩

namespace Error.ArisesIn

variable {p : Parser} {source : String} {e : Error}

theorem of_ending (h : (itemsOf source).ending = .failed e) : e.ArisesIn source := by
  obtain ⟨q, rest, hlexes, hend⟩ := exists_lexes_all .start source.toList
  rw [← itemsOf, h] at hend
  rcases hend with ⟨hq, -⟩ | ⟨c, tail, hc, rfl, hnone⟩
  · cases hq
  · cases hc
    obtain ⟨front, hsource, rfl, -⟩ := hlexes.cut_off
    have hblank := Rule.first?_eq_none_iff.mp hnone .blanks
    exact .character hsource (Rule.run?_cons_eq_none_iff.mp hblank)

theorem of_fails (h : (itemsOf source).Fails e) : e.ArisesIn source := by
  cases h with
  | @token before after t htoks _ _ =>
    have ht : t ∈ (itemsOf source).tokens := by simp [htoks]
    obtain ⟨front, value, after, hsource, hread⟩ := exists_isRead_of_mem ht
    exact .token hsource ht hread
  | @ended stop hend _ _ =>
    have his : itemsOf source = ⟨(itemsOf source).tokens, .ended stop⟩ := by rw [← hend]
    rw [(lexes_of_ended his).eq_advance]
    exact .ended
  | lexical hend _ => exact .of_ending hend

/-- **Every error arises in its source.** -/
theorem of_error (h : tokenize source = .error e ∨ (p.parse source).1 = .error e) :
    e.ArisesIn source := by
  rcases h with h | h
  · exact .of_ending (tokenize_eq_error_iff.mp h)
  · exact .of_fails ((p.parse_error_iff_fails source e).mp h)

/-- The place of an error is not at the end of a line that a line feed ends. -/
theorem exists_place (h : e.ArisesIn source) :
    ∃ front rest, source.toList = front ++ rest ∧ e.position = Position.start.advance front ∧
      rest.head? ≠ some '\n' := by
  cases h with
  | @character front after c hsource hblank =>
    refine ⟨front, _, hsource, rfl, ?_⟩
    rintro ⟨⟩
    exact absurd hblank (by decide)
  | @token front value after t hsource _ hread =>
    refine ⟨front, _, hsource, hread.start_eq, ?_⟩
    obtain ⟨c, value, rfl⟩ := List.exists_cons_of_ne_nil hread.value_ne_nil
    rintro ⟨⟩
    exact hread.newline_notMem List.mem_cons_self
  | ended => exact ⟨source.toList, [], (List.append_nil _).symm, rfl, by simp⟩

/-- The headline is one line. -/
theorem newline_notMem_headline (h : e.ArisesIn source) :
    '\n' ∉ (Report.headline e.cause).toList := by
  cases h with
  | @character front after c _ hblank =>
    have hc : c ≠ '\n' := by
      rintro rfl
      exact absurd hblank (by decide)
    simp [Report.headline, Error.unrecognised, Cause.tip?, Cause.name, toString, hc.symm]
  | token _ _ hread =>
    have hvalue := hread.newline_notMem
    simp [Report.headline, Cause.tip?, Cause.name, toString, hread.value_eq, hvalue]
  | ended => exact (by decide : '\n' ∉ (Report.headline .unexpectedEndOfInput).toList)

end Error.ArisesIn

/-! ## 2. The columns of a report -/

/-- The first `c` of the text is behind `i` bytes. -/
def FirstAt (c : Char) (text : String) (i : Nat) : Prop :=
  ∃ before after, text = before ++ String.singleton c ++ after ∧ c ∉ before.toList ∧
    before.utf8ByteSize = i

namespace Report

section Columns

variable {c : Char} {n : Nat}

@[simp] theorem toList_fill (n : Nat) (c : Char) : (fill n c).toList = List.replicate n c :=
  String.toList_ofList

theorem utf8ByteSize_fill (hc : c.utf8Size = 1) (n : Nat) : (fill n c).utf8ByteSize = n := by
  rw [fill, String.utf8ByteSize_ofList]
  induction n with
  | zero => rfl
  | succ n ih => rw [List.replicate_succ, String.utf8Len_cons, ih, hc]

theorem isDigit_of_mem_toString (h : c ∈ (toString n).toList) : c.isDigit = true := by
  rw [Nat.toString_eq_repr, Nat.toList_repr] at h
  exact Nat.isDigit_of_mem_toDigits (by decide) (by decide) h

/-- A number is written with digits only. -/
theorem notMem_toString (hc : c.isDigit = false) (n : Nat) : c ∉ (toString n).toList :=
  fun hmem => Bool.false_ne_true (hc.symm.trans (isDigit_of_mem_toString hmem))

theorem utf8Size_of_isDigit (h : c.isDigit = true) : c.utf8Size = 1 := by
  have hrange := Rule.isDigit_iff_toNat.mp h
  have hascii : c.toNat ≤ 127 := Nat.le_trans hrange.2 (by decide)
  exact Char.utf8Size_eq_one_iff.mpr (UInt32.le_iff_toNat_le.mpr hascii)

/-- A number takes as many bytes as it has characters. -/
theorem length_toString (n : Nat) : (toString n).length = (toString n).utf8ByteSize := by
  have hdigits : ∀ c ∈ (toString n).toList, c.isDigit = true := fun _ => isDigit_of_mem_toString
  rw [← String.utf8Len_toList, ← String.length_toList]
  generalize (toString n).toList = text at hdigits
  induction text with
  | nil => rfl
  | cons c text ih =>
    obtain ⟨hc, htext⟩ := List.forall_mem_cons.mp hdigits
    rw [String.utf8Len_cons, List.length_cons, ih htext, utf8Size_of_isDigit hc]

/-- The bytes before the bar. -/
theorem utf8ByteSize_gutter (line : Nat) :
    (fill ((toString line).length + 1) ' ').utf8ByteSize = (toString line).utf8ByteSize + 1 := by
  rw [utf8ByteSize_fill rfl, length_toString]

theorem firstAt_bar (line : Nat) (after : String) :
    FirstAt '|' (bar line ++ after) ((toString line).utf8ByteSize + 1) :=
  ⟨_, after, rfl, by simp, utf8ByteSize_gutter line⟩

theorem firstAt_bar_shown (line : Nat) (text : String) :
    FirstAt '|' (toString line ++ " | " ++ text) ((toString line).utf8ByteSize + 1) := by
  refine ⟨toString line ++ " ", " " ++ text, ?_, ?_, ?_⟩
  · simp only [String.append_assoc]
    rfl
  · rw [String.toList_append, List.mem_append, not_or]
    exact ⟨notMem_toString (by decide) line, by decide⟩
  · rw [String.utf8ByteSize_append]
    rfl

/-- The bytes before the caret are those before the line that is shown, and as many as the column
counts. -/
theorem firstAt_caret (line column : Nat) :
    FirstAt '^' (bar line ++ " " ++ caret column)
      ((toString line ++ " | ").utf8ByteSize + column) := by
  refine ⟨bar line ++ " " ++ fill column '-', "", ?_, ?_, ?_⟩
  · simp only [caret, String.append_assoc]
    rfl
  · simp [bar]
  · rw [String.utf8ByteSize_append, String.utf8ByteSize_append, bar, String.utf8ByteSize_append,
      utf8ByteSize_gutter, utf8ByteSize_fill rfl, String.utf8ByteSize_append]
    rfl

end Columns

/-- Five lines that point at the place of an error. -/
structure PointsAt (e : Error) (source headline place above shown below : String) : Prop where
  /-- Each of them is one line. -/
  newline_notMem : ∀ l ∈ [headline, place, above, shown, below], '\n' ∉ l.toList
  /-- The fourth shows the line of the place. -/
  shown_eq : shown = toString e.position.line ++ " | " ++ Text.line source e.position.line
  /-- The bars stand under each other. -/
  bars : ∃ i, FirstAt '|' above i ∧ FirstAt '|' shown i ∧ FirstAt '|' below i
  /-- The caret stands below the byte of the line that the column counts. -/
  caret : FirstAt '^' below
    ((toString e.position.line ++ " | ").utf8ByteSize + e.position.column)

/-- A report with a headline of one line points at the place of its error. -/
theorem exists_pointsAt {e : Error} {file : String} (source : String)
    (hheadline : '\n' ∉ (headline e.cause).toList) (hfile : '\n' ∉ file.toList)
    (hcolumn : e.position.column < maxCaret) :
    ∃ headline place above shown below,
      render? e source file =
        some (String.join ([headline, place, above, shown, below].map (· ++ "\n"))) ∧
      PointsAt e source headline place above shown below := by
  have hline := notMem_toString (c := '\n') (by decide) e.position.line
  have hcolumn' := notMem_toString (c := '\n') (by decide) e.position.column
  -- The five lines are those of `lines`.
  refine ⟨_, _, _, _, _, if_pos hcolumn, ?_, rfl, ⟨_, ?_, firstAt_bar_shown _ _, ?_⟩,
    firstAt_caret _ _⟩
  · simp only [List.forall_mem_cons, List.not_mem_nil, false_imp_iff, implies_true, and_true]
    refine ⟨hheadline, ?_, ?_, ?_, ?_⟩
    · simp only [String.toList_append, List.mem_append, not_or, and_assoc]
      exact ⟨by decide, hfile, by decide, hline, by decide, hcolumn'⟩
    · simp [bar]
    · simp only [String.toList_append, List.mem_append, not_or]
      exact ⟨⟨hline, by decide⟩, Text.newline_notMem_line source _⟩
    · simp [bar, caret]
  · have hbar := firstAt_bar e.position.line ""
    rwa [String.append_empty] at hbar
  · rw [String.append_assoc]
    exact firstAt_bar _ _

end Report

/-! ## 3. What the caret points at -/

/-- The text stands at this place of the source, and is shown as a whole where the column says. -/
structure ShownAt (source text : String) (q : Position) : Prop where
  ne_empty : text ≠ ""
  in_source : IsSlice source text q.offset (q.offset + text.utf8ByteSize)
  in_line : IsSlice (Text.line source q.line) text q.column (q.column + text.utf8ByteSize)

section Shown

variable {source : String} {front value after : List Char} {e : Error}

theorem shownAt_advance_start (h : source.toList = front ++ (value ++ after))
    (hnewline : '\n' ∉ value) (hne : value ≠ []) (hreturn : value.getLast? ≠ some '\r') :
    ShownAt source (String.ofList value) (Position.start.advance front) where
  ne_empty := by simpa using hne
  in_source := by
    have hslice := isSlice_advance front value after
    rw [← h, String.ofList_toList, Position.advance_append, Position.offset_advance _ value,
      ← String.utf8ByteSize_ofList value] at hslice
    exact hslice
  in_line := by
    obtain ⟨more, hline⟩ := Text.exists_line_eq_append h hnewline hne hreturn
    refine ⟨_, more, hline, ?_, rfl⟩
    rw [String.utf8ByteSize_ofList, Position.column_advance_start]

/-- A character where no rule matches is shown. -/
theorem Error.ArisesIn.shownAt_of_unrecognised {text : String} (h : e.ArisesIn source)
    (hcause : e.cause = .unrecognisedToken text) :
    (∃ c, text = String.singleton c) ∧ ShownAt source text e.position := by
  cases h with
  | @character front after c hsource hblank =>
    cases hcause
    have hnot {d : Char} (hd : Text.isBlank d = true) : d ≠ c := by
      rintro rfl
      exact Bool.false_ne_true (hblank.symm.trans hd)
    have hshown := shownAt_advance_start hsource (by simpa using hnot (by decide))
      (List.cons_ne_nil c []) (by simpa using (hnot (by decide)).symm)
    exact ⟨⟨c, rfl⟩, hshown⟩
  | token => cases hcause
  | ended => cases hcause

/-- A token that cannot stand where it stands is shown. -/
theorem Error.ArisesIn.shownAt_of_unexpected {text : String} (h : e.ArisesIn source)
    (hcause : e.cause = .unexpectedToken text) :
    (∃ t ∈ (itemsOf source).tokens, t.value = text ∧ t.span.start = e.position) ∧
      ShownAt source text e.position := by
  cases h with
  | character => cases hcause
  | @token front value after t hsource ht hread =>
    cases hcause
    refine ⟨⟨t, ht, rfl, rfl⟩, ?_⟩
    rw [hread.value_eq, hread.start_eq]
    exact shownAt_advance_start hsource hread.newline_notMem hread.value_ne_nil
      hread.getLast?_ne_return
  | ended => cases hcause

/-- Where the source ends too early, its last line is shown up to there. -/
theorem Error.ArisesIn.column_of_ended (h : e.ArisesIn source)
    (hcause : e.cause = .unexpectedEndOfInput) :
    e.position.column = (Text.line source e.position.line).utf8ByteSize +
      if source.toList.getLast? = some '\r' then 1 else 0 := by
  cases h with
  | character => cases hcause
  | token => cases hcause
  | ended => exact Text.column_eq_line_of_end source

/-- **Reports point at the error.**  A report has five lines, which show the line of the error and
have a caret below its column.  There the character that is not recognised or the token that is not
expected is shown as a whole; where the source ends too early, the line is shown up to there, but
for a carriage return at its end. -/
theorem report_points_at_error (p : Parser) (file : String)
    (he : tokenize source = .error e ∨ (p.parse source).1 = .error e)
    (hcolumn : e.position.column < Report.maxCaret) (hfile : '\n' ∉ file.toList) :
    (∃ headline place above shown below,
      Report.render? e source file =
        some (String.join ([headline, place, above, shown, below].map (· ++ "\n"))) ∧
      Report.PointsAt e source headline place above shown below) ∧
    (∀ text, e.cause = .unrecognisedToken text →
      (∃ c, text = String.singleton c) ∧ ShownAt source text e.position) ∧
    (∀ text, e.cause = .unexpectedToken text →
      (∃ t ∈ (itemsOf source).tokens, t.value = text ∧ t.span.start = e.position) ∧
        ShownAt source text e.position) ∧
    (e.cause = .unexpectedEndOfInput →
      e.position.column = (Text.line source e.position.line).utf8ByteSize +
        if source.toList.getLast? = some '\r' then 1 else 0) := by
  have harises := Error.ArisesIn.of_error he
  exact ⟨Report.exists_pointsAt source harises.newline_notMem_headline hfile hcolumn,
    fun _ => harises.shownAt_of_unrecognised, fun _ => harises.shownAt_of_unexpected,
    harises.column_of_ended⟩

/-- The caret counts bytes, so two for the letter in quotes.  The last source ends in a carriage
return, which is not shown. -/
theorem report_points_at_error_bytes :
    (tokenize "'é' @\r\n" = .error (.unrecognised ⟨5, 1, 5⟩ '@') ∧
      (∃ headline place above shown below,
        Report.render? (.unrecognised ⟨5, 1, 5⟩ '@') "'é' @\r\n" "a.unit" =
          some (String.join ([headline, place, above, shown, below].map (· ++ "\n"))) ∧
        Report.PointsAt (.unrecognised ⟨5, 1, 5⟩ '@') "'é' @\r\n"
          headline place above shown below) ∧
      ShownAt "'é' @\r\n" "@" ⟨5, 1, 5⟩) ∧
    ((Parser.new.parse "unit\n ;").1 = .error ⟨.unexpectedToken ";", ⟨6, 2, 1⟩⟩ ∧
      ShownAt "unit\n ;" ";" ⟨6, 2, 1⟩) ∧
    (Parser.new.parse "unit\r").1 = .error ⟨.unexpectedEndOfInput, ⟨5, 1, 5⟩⟩ ∧
      5 = (Text.line "unit\r" 1).utf8ByteSize + 1 := by
  refine ⟨?_, ?_, ?_⟩
  · have herror : tokenize "'é' @\r\n" = .error (.unrecognised ⟨5, 1, 5⟩ '@') := by
      decide +kernel
    obtain ⟨hreport, hcharacter, -, -⟩ := report_points_at_error Parser.new "a.unit"
      (.inl herror) (by decide) (by decide)
    exact ⟨herror, hreport, (hcharacter _ rfl).2⟩
  · have his : itemsOf "unit\n ;" =
        ⟨[⟨.unitKw, "unit", ⟨⟨0, 1, 0⟩, ⟨4, 1, 4⟩⟩⟩, ⟨.semicolon, ";", ⟨⟨6, 2, 1⟩, ⟨7, 2, 2⟩⟩⟩],
          .ended ⟨7, 2, 2⟩⟩ := by decide +kernel
    have herror : (Parser.new.parse "unit\n ;").1 =
        .error ⟨.unexpectedToken ";", ⟨6, 2, 1⟩⟩ := by
      rw [Parser.parse_eq_answer, his]
      dsimp only
      rw [answer_cons_of_shift rfl, answer_cons_of_none rfl]
    obtain ⟨-, -, htoken, -⟩ := report_points_at_error _ "a.unit" (.inr herror) (by decide)
      (by decide)
    exact ⟨herror, (htoken _ rfl).2⟩
  · have his : itemsOf "unit\r" =
        ⟨[⟨.unitKw, "unit", ⟨⟨0, 1, 0⟩, ⟨4, 1, 4⟩⟩⟩], .ended ⟨5, 1, 5⟩⟩ := by decide +kernel
    have herror : (Parser.new.parse "unit\r").1 =
        .error ⟨.unexpectedEndOfInput, ⟨5, 1, 5⟩⟩ := by
      rw [Parser.parse_eq_answer, his]
      dsimp only
      rw [answer_cons_of_shift rfl, answer_nil_of_none rfl]
    obtain ⟨-, -, -, hended⟩ := report_points_at_error _ "a.unit" (.inr herror) (by decide)
      (by decide)
    exact ⟨herror, hended rfl⟩

end Shown

end UnitLang
