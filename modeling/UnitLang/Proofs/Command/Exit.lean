/-
# Reports that cannot be laid out, and the exit status

A report draws a dash for each byte of the line before the error, and a line of dashes that is too
wide cannot be laid out (`Report.maxCaret`).  So whether there is a report does not depend on the
error alone: it depends on how many bytes stand on its line before it
(`Error.ArisesIn.exists_report_iff`).  Nothing bounds them, since a line may be as long as it likes:
an error behind that many blanks (`Command.farError`) has no report, and the program crashes over
it.

Otherwise the exit status tells what it should: 0 for a program and 1 for an error, the lexical one
first if the tokens are to be shown (`Command.Meets`).
-/
import UnitLang.Proofs.Command.Verdict

namespace UnitLang

/-! ## 1. Which errors have a report -/

section Reported

variable {source : String} {e : Error}

/-- There is a report on an error just when the bytes before it on its line are few enough. -/
theorem Error.ArisesIn.exists_report_iff (h : e.ArisesIn source) :
    ∃ front rest, source.toList = front ++ rest ∧ e.position = Position.start.advance front ∧
      ∀ file, (∃ report, Report.render? e source file = some report) ↔
        String.utf8Len (lastLine front) < Report.maxCaret := by
  obtain ⟨front, rest, hsource, hplace, -⟩ := h.exists_place
  refine ⟨front, rest, hsource, hplace, fun file => ?_⟩
  rw [← Option.isSome_iff_exists, Report.render?_isSome_iff, hplace,
    Position.column_advance_start]

end Reported

/-! ## 2. The error that the program has to report -/

namespace Command

/-- The program meets this error in the source.  With the tokens to be shown, a lexical error
anywhere comes before the error of the parse. -/
inductive Meets (o : Options) (source : String) : Error → Prop where
  | lexical {e : Error} :
      o.showTokens = true → tokenize source = .error e → Meets o source e
  | parse {e : Error} :
      (o.showTokens = true → ∃ tokens, tokenize source = .ok tokens) →
      (Parser.new.parse source).1 = .error e → Meets o source e

section Exit

variable {o : Options} {source printed file : String} {e : Error}

theorem Meets.arisesIn (h : Meets o source e) : e.ArisesIn source := by
  cases h with
  | lexical _ h => exact .of_error (p := .new) (.inl h)
  | parse _ h => exact .of_error (.inr h)

/-- An error ends the program with 1 if there is a report on it, and with a crash otherwise. -/
theorem exit_failure (printed : String) (e : Error) (source file : String) :
    (failure printed e source file).exit =
      if e.position.column < Report.maxCaret then 1 else crashStatus := by
  unfold failure Report.render?
  split_ifs <;> rfl

/-- What the program does about the error that it meets. -/
theorem Meets.exists_process_eq (h : Meets o source e) :
    ∃ printed, process o source = failure printed e source o.file := by
  cases h with
  | lexical hshow h => exact ⟨"", process_of_lexical hshow h⟩
  | parse htokens h =>
    cases hshow : o.showTokens with
    | false =>
      have htok : o.showTokens = true → tokenize source = .ok [] := by simp [hshow]
      exact ⟨_, process_of_error htok h⟩
    | true =>
      obtain ⟨tokens, htok⟩ := htokens hshow
      exact ⟨_, process_of_error (fun _ => htok) h⟩

/-- The program meets an error, or the source is a program. -/
theorem exists_meets_or_ok (o : Options) (source : String) :
    (∃ e, Meets o source e) ∨ ∃ tree, (Parser.new.parse source).1 = .ok tree := by
  cases h : (Parser.new.parse source).1 with
  | ok tree => exact .inr ⟨tree, rfl⟩
  | error e =>
    cases htok : tokenize source with
    | ok tokens => exact .inl ⟨e, .parse (fun _ => ⟨tokens, htok⟩) h⟩
    | error e' =>
      cases hshow : o.showTokens with
      | false => exact .inl ⟨e, .parse (by simp [hshow]) h⟩
      | true => exact .inl ⟨e', .lexical hshow htok⟩

variable {args : List String} {read : String → Except Unreadable String} {tree : Node}

theorem exit_run_of_meets (hargs : Request.ofArgs args = .process o)
    (hread : read o.file = .ok source) (h : Meets o source e) :
    (run args read).exit = if e.position.column < Report.maxCaret then 1 else crashStatus := by
  obtain ⟨printed, hprocess⟩ := h.exists_process_eq
  rw [run_of_process hargs hread, hprocess, exit_failure]

theorem exit_run_of_ok (hargs : Request.ofArgs args = .process o)
    (hread : read o.file = .ok source) (h : (Parser.new.parse source).1 = .ok tree) :
    (run args read).exit = 0 := by
  obtain ⟨tokens, htokens⟩ := Parser.exists_tokenize_of_ok h
  rw [run_of_process hargs hread, process_of_ok htokens h]

/-- Where all lines are short, the program does not crash. -/
theorem exit_run_of_lines
    (hlines : ∀ l ∈ Text.lines source.toList, String.utf8Len l < Report.maxCaret)
    (hargs : Request.ofArgs args = .process o) (hread : read o.file = .ok source) :
    (run args read).exit = 0 ∨ (run args read).exit = 1 := by
  rcases exists_meets_or_ok o source with ⟨e, hmeets⟩ | ⟨tree, hok⟩
  · rw [exit_run_of_meets hargs hread hmeets, if_pos (hmeets.arisesIn.column_lt hlines)]
    exact .inr rfl
  · exact .inl (exit_run_of_ok hargs hread hok)

end Exit

/-! ## 3. Errors far to the right -/

/-- A source whose one error stands behind so many blanks. -/
def farError (blanks : Nat) : String := String.ofList (List.replicate blanks ' ' ++ ['@'])

theorem advance_blanks (q : Position) (n : Nat) :
    q.advance (List.replicate n ' ') = ⟨q.offset + n, q.line, q.column + n⟩ := by
  induction n generalizing q with
  | zero => rfl
  | succ n ih =>
    have hafter : q.after ' ' = ⟨q.offset + 1, q.line, q.column + 1⟩ := rfl
    rw [List.replicate_succ, Position.advance_cons, ih, hafter, Nat.add_assoc, Nat.add_assoc,
      Nat.add_comm 1]

theorem itemsOf_farError (n : Nat) :
    itemsOf (farError n) = ⟨[], .failed (.unrecognised ⟨n, 1, n⟩ '@')⟩ := by
  have hblank : ∀ c ∈ List.replicate n ' ', Text.isBlank c = true := by
    intro c hc
    rw [(List.mem_replicate.mp hc).2]
    decide
  have hnone : Rule.first? ['@'] = none := by decide +kernel
  rw [itemsOf, farError, String.toList_ofList, items_blanks hblank, items_stuck hnone,
    advance_blanks, Position.start, Nat.zero_add]

theorem tokenize_farError (n : Nat) :
    tokenize (farError n) = .error (.unrecognised ⟨n, 1, n⟩ '@') := by
  rw [tokenize_eq_error_iff, itemsOf_farError]

theorem parse_farError (n : Nat) :
    (Parser.new.parse (farError n)).1 = .error (.unrecognised ⟨n, 1, n⟩ '@') := by
  rw [Parser.parse_eq_answer, itemsOf_farError]
  rfl

/-- Whatever is to be shown, this is the one error that the program meets. -/
theorem meets_farError_iff {o : Options} {n : Nat} {e : Error} :
    Meets o (farError n) e ↔ e = .unrecognised ⟨n, 1, n⟩ '@' := by
  constructor
  · intro h
    cases h with
    | lexical _ h => exact Except.error.inj (h.symm.trans (tokenize_farError n))
    | parse _ h => exact Except.error.inj (h.symm.trans (parse_farError n))
  · rintro rfl
    cases hshow : o.showTokens with
    | true => exact .lexical hshow (tokenize_farError n)
    | false => exact .parse (by simp [hshow]) (parse_farError n)

/-- **An error is reported unless it stands too far to the right on its line.**  There is a report
on an error of a source just when there are fewer bytes before it on its line than a line of dashes
can have.  On a file that can be read the program ends with 0 if the source is a program;
otherwise it meets an error, and ends with 1 if there is a report on it, and with a crash if not.
So where all lines are short, all errors are reported, and it ends with 0 or 1. -/
theorem report_unless_far_right (p : Parser) (source : String) :
    (∀ e, (tokenize source = .error e ∨ (p.parse source).1 = .error e) →
      ∃ front rest, source.toList = front ++ rest ∧ e.position = Position.start.advance front ∧
        ∀ file, (∃ report, Report.render? e source file = some report) ↔
          String.utf8Len (lastLine front) < Report.maxCaret) ∧
    (∀ args read o, Request.ofArgs args = .process o → read o.file = .ok source →
      ((∃ tree, (Parser.new.parse source).1 = .ok tree) ∧ (run args read).exit = 0) ∨
      ∃ e, Meets o source e ∧
        (run args read).exit = if e.position.column < Report.maxCaret then 1 else crashStatus) ∧
    ((∀ l ∈ Text.lines source.toList, String.utf8Len l < Report.maxCaret) →
      (∀ e file, (tokenize source = .error e ∨ (p.parse source).1 = .error e) →
        ∃ report, Report.render? e source file = some report) ∧
      ∀ args read o, Request.ofArgs args = .process o → read o.file = .ok source →
        (run args read).exit = 0 ∨ (run args read).exit = 1) := by
  refine ⟨?_, ?_, ?_⟩
  · intro e he
    exact (Error.ArisesIn.of_error he).exists_report_iff
  · intro args read o hargs hread
    rcases exists_meets_or_ok o source with ⟨e, hmeets⟩ | ⟨tree, hok⟩
    · exact .inr ⟨e, hmeets, exit_run_of_meets hargs hread hmeets⟩
    · exact .inl ⟨⟨tree, hok⟩, exit_run_of_ok hargs hread hok⟩
  · intro hlines
    refine ⟨fun e file he => (Error.ArisesIn.of_error he).exists_report hlines file, ?_⟩
    intro args read o hargs hread
    exact exit_run_of_lines hlines hargs hread

/-- One blank less, and there is a report. -/
theorem report_unless_far_right_last :
    tokenize (farError 65534) = .error (.unrecognised ⟨65534, 1, 65534⟩ '@') ∧
      (∃ report, Report.render? (.unrecognised ⟨65534, 1, 65534⟩ '@') (farError 65534) "a.unit" =
        some report) ∧
      Request.ofArgs ["a.unit"] = .process ⟨"a.unit", false, false⟩ ∧
      (run ["a.unit"] fun _ => .ok (farError 65534)).exit = 1 := by
  have herror := tokenize_farError 65534
  have hargs : Request.ofArgs ["a.unit"] = .process ⟨"a.unit", false, false⟩ := by decide +kernel
  obtain ⟨hreport, hexit, -⟩ := report_unless_far_right Parser.new (farError 65534)
  obtain ⟨front, rest, -, hplace, hiff⟩ := hreport _ (.inl herror)
  have hcolumn := congrArg Position.column hplace
  rw [Position.column_advance_start] at hcolumn
  refine ⟨herror, (hiff "a.unit").mpr ?_, hargs, ?_⟩
  · rw [← hcolumn]
    decide
  · rcases hexit _ (fun _ => .ok (farError 65534)) _ hargs rfl with
      ⟨⟨tree, hok⟩, -⟩ | ⟨e, hmeets, hstatus⟩
    · cases hok.symm.trans (parse_farError 65534)
    · rw [hstatus, meets_farError_iff.mp hmeets]
      exact if_pos (by decide)

/-- Not every error has a report, and not every file that can be read ends the program with 0 or
1. -/
theorem far_error_crashes :
    (tokenize (farError 65535) = .error (.unrecognised ⟨65535, 1, 65535⟩ '@') ∧
      Report.render? (.unrecognised ⟨65535, 1, 65535⟩ '@') (farError 65535) "a.unit" = none ∧
      (run ["a.unit"] fun _ => .ok (farError 65535)).exit = crashStatus) ∧
    (¬ ∀ source e file, (tokenize source = .error e ∨ (Parser.new.parse source).1 = .error e) →
      ∃ report, Report.render? e source file = some report) ∧
    ¬ ∀ source args read o, Request.ofArgs args = .process o → read o.file = .ok source →
      (run args read).exit = 0 ∨ (run args read).exit = 1 := by
  have herror := tokenize_farError 65535
  have hnone : Report.render? (.unrecognised ⟨65535, 1, 65535⟩ '@') (farError 65535) "a.unit" =
      none := if_neg (by decide)
  have hargs : Request.ofArgs ["a.unit"] = .process ⟨"a.unit", false, false⟩ := by decide +kernel
  have hstatus : (run ["a.unit"] fun _ => .ok (farError 65535)).exit =
      if 65535 < Report.maxCaret then 1 else crashStatus :=
    exit_run_of_meets (e := .unrecognised ⟨65535, 1, 65535⟩ '@') hargs rfl
      (meets_farError_iff.mpr rfl)
  have hexit := hstatus.trans (if_neg (by decide))
  refine ⟨⟨herror, hnone, hexit⟩, ?_, ?_⟩
  · intro hall
    obtain ⟨report, hreport⟩ := hall _ _ "a.unit" (.inl herror)
    cases hnone.symm.trans hreport
  · intro hall
    have hclaim := hall (farError 65535) ["a.unit"] (fun _ => .ok (farError 65535)) _ hargs rfl
    rw [hexit] at hclaim
    exact absurd hclaim (by decide)

end Command

end UnitLang
