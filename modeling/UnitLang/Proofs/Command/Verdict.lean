/-
# Flags do not change the verdict

With `--tokens` the program reads a file twice: all of it for the list of tokens, and then again
for the parse, which stops at the first item that cannot go on.  Either may fail, and they may fail
with different errors.  Still the exit status is that of the parse alone, since a parse succeeds
only if the tokens do (`Parser.exists_tokenize_of_ok`), and since a parse that fails before the
lexical error fails anyway.  The two errors differ only where the parse stops at a token before the
place of the lexical error (`Items.Fails.eq_or_before`).

The exit status depends on the report too, because a report that is too wide ends the program.  It
is not too wide if the lines of the file are not, for no error is to the right of its line
(`Error.ArisesIn.column_lt`).

What is printed on standard output is told by its lines (`HasLines`): a line for each token, which
says where it begins, of which kind it is and how it reads (`Token.ListedAs`), and the lines of the
tree (`Program.rows`).
-/
import UnitLang.Proofs.Command.Arguments
import UnitLang.Proofs.Program.Origin
import UnitLang.Proofs.Program.Printed

namespace UnitLang

/-! ## 1. The lexical error and the error of the parse -/

section Errors

variable {source : String} {e e' : Error} {t : Token} {n : Nat}

/-- A token stands before the lexical error. -/
theorem start_lt_of_ending (hend : (itemsOf source).ending = .failed e)
    (ht : t ∈ (itemsOf source).tokens) : t.span.start.offset < e.position.offset := by
  have his : itemsOf source = ⟨(itemsOf source).tokens, .failed e⟩ := by rw [← hend]
  obtain ⟨front, rest, -, hsize, hlossless⟩ := lossless_of_failed his
  obtain ⟨before, after, hfront, hbefore, hstop⟩ := hlossless.slice t ht
  have hsum := congrArg String.utf8ByteSize hfront
  rw [String.utf8ByteSize_append, String.utf8ByteSize_append] at hsum
  have hnonempty := hlossless.nonempty t ht
  omega

/-- **A parse fails with the lexical error or before it**, and before it at a token. -/
theorem Items.Fails.eq_or_before (h : (itemsOf source).Fails e)
    (hend : (itemsOf source).ending = .failed e') :
    e = e' ∨ e.cause.category = .syntactic ∧ e.position.offset < e'.position.offset := by
  cases h with
  | token htoks _ _ => exact .inr ⟨rfl, start_lt_of_ending hend (by simp [htoks])⟩
  | ended hend' _ _ => cases hend.symm.trans hend'
  | lexical hend' _ =>
    cases hend.symm.trans hend'
    exact .inl rfl

/-- An error is not to the right of all lines. -/
theorem Error.ArisesIn.column_lt (h : e.ArisesIn source)
    (hlines : ∀ l ∈ Text.lines source.toList, String.utf8Len l < n) :
    e.position.column < n := by
  obtain ⟨front, rest, hsource, hplace, hrest⟩ := h.exists_place
  obtain ⟨l, hl, hle⟩ := Text.exists_line_of_place front hrest
  rw [← hsource] at hl
  rw [hplace]
  exact Nat.lt_of_le_of_lt hle (hlines l hl)

end Errors

/-! ## 2. What is printed -/

/-- The text is these lines, each with a line feed behind it. -/
structure HasLines (text : String) (ls : List String) : Prop where
  eq_join : text = String.join (ls.map (· ++ "\n"))
  newline_notMem : ∀ l ∈ ls, '\n' ∉ l.toList

/-- The line of a token in a list: where it begins, the name of its kind, and its text in
parentheses, if it is a name or a literal. -/
inductive Token.ListedAs (t : Token) : String → Prop where
  | shown : t.kind ∈ [.identifier, .bool, .int, .float, .string] →
      ListedAs t (toString t.span.start.line ++ ":" ++ toString t.span.start.column ++ " " ++
        t.kind.name ++ " (" ++ t.value ++ ")")
  | bare : t.kind ∉ [.identifier, .bool, .int, .float, .string] →
      ListedAs t (toString t.span.start.line ++ ":" ++ toString t.span.start.column ++ " " ++
        t.kind.name ++ " ()")

section Printed

variable {source : String} {e : Error} {t : Token} {tokens : List Token}

theorem Kind.showsValue_iff {k : Kind} :
    k.showsValue = true ↔ k ∈ [.identifier, .bool, .int, .float, .string] := by
  cases k <;> decide

theorem Token.listedAs_listing (t : Token) : t.ListedAs t.listing := by
  unfold listing
  by_cases hshows : t.kind.showsValue = true
  · rw [if_pos hshows]
    exact .shown (Kind.showsValue_iff.mp hshows)
  · rw [if_neg hshows]
    have hempty (front : String) : front ++ " (" ++ "" ++ ")" = front ++ " ()" := by
      rw [String.append_empty, String.append_assoc]
      rfl
    have hbare := Token.ListedAs.bare (mt Kind.showsValue_iff.mpr hshows)
    rw [← hempty] at hbare
    exact hbare

theorem Token.newline_notMem_listing (h : '\n' ∉ t.value.toList) : '\n' ∉ t.listing.toList := by
  have hline := Report.notMem_toString (c := '\n') (by decide) t.span.start.line
  have hcolumn := Report.notMem_toString (c := '\n') (by decide) t.span.start.column
  have hname : '\n' ∉ t.kind.name.toList := by cases t.kind <;> decide
  simp only [listing, String.toList_append, List.mem_append, not_or, and_assoc]
  refine ⟨hline, by decide, hcolumn, by decide, hname, by decide, ?_, by decide⟩
  split
  · exact h
  · exact List.not_mem_nil

/-- The tokens of a source are listed with the end of the input last, each on one line. -/
theorem listing_of_tokenize (h : tokenize source = .ok tokens) :
    (∃ ts stop, tokens = ts ++ [Token.endOfInput stop] ∧ ∀ t ∈ ts, t.kind ≠ .endOfInput) ∧
      ∀ t ∈ tokens, '\n' ∉ t.listing.toList := by
  obtain ⟨ts, stop, his, rfl⟩ := tokenize_eq_ok_iff.mp h
  have hkinds := kind_ne_endOfInput_of_mem_itemsOf source
  rw [his] at hkinds
  refine ⟨⟨ts, stop, rfl, hkinds⟩, fun t ht => Token.newline_notMem_listing ?_⟩
  rcases List.mem_append.mp ht with ht | ht
  · have hmem : t ∈ (itemsOf source).tokens := by rwa [his]
    obtain ⟨front, value, after, -, hread⟩ := exists_isRead_of_mem hmem
    rw [hread.value_eq, String.toList_ofList]
    exact hread.newline_notMem
  · cases List.mem_singleton.mp ht
    exact (by decide : '\n' ∉ Token.endText.toList)

/-- The list of tokens is printed in their lines. -/
theorem hasLines_tokenLines (h : tokenize source = .ok tokens) :
    HasLines (Command.tokenLines tokens) (tokens.map Token.listing) ∧
      List.Forall₂ Token.ListedAs tokens (tokens.map Token.listing) := by
  refine ⟨⟨?_, ?_⟩, ?_⟩
  · rw [List.map_map]
    rfl
  · intro l hl
    obtain ⟨t, ht, rfl⟩ := List.mem_map.mp hl
    exact (listing_of_tokenize h).2 t ht
  · rw [List.forall₂_map_right_iff, List.forall₂_same]
    exact fun t _ => t.listedAs_listing

/-- The tree of a well-formed program is printed in its rows. -/
theorem hasLines_tree {p : Program} (h : Program.WellFormed p) :
    HasLines ((Program.toNode p).outline.indented 0 ++ "\n") ((Program.rows p).map Row.line) := by
  refine ⟨?_, ?_⟩
  · rw [Program.join_rows h, List.map_map]
    rfl
  · intro l hl
    obtain ⟨r, hr, rfl⟩ := List.mem_map.mp hl
    have hrow := Program.oneLine_rows h r hr
    simp [Row.line, hrow]

theorem HasLines.append {text text' : String} {ls ls' : List String} (h : HasLines text ls)
    (h' : HasLines text' ls') : HasLines (text ++ text') (ls ++ ls') where
  eq_join := by rw [h.eq_join, h'.eq_join, List.map_append, String.join_append]
  newline_notMem := List.forall_mem_append.mpr ⟨h.newline_notMem, h'.newline_notMem⟩

/-- What is printed only under a condition has lines only then. -/
theorem HasLines.ite {text : String} {ls : List String} (h : HasLines text ls) (shown : Bool) :
    HasLines (if shown then text else "") (if shown then ls else []) := by
  cases shown with
  | false => exact ⟨rfl, List.forall_mem_nil _⟩
  | true => exact h

/-- Where all lines are short, errors can be reported. -/
theorem Error.ArisesIn.exists_report (h : e.ArisesIn source)
    (hlines : ∀ l ∈ Text.lines source.toList, String.utf8Len l < Report.maxCaret)
    (file : String) : ∃ report, Report.render? e source file = some report :=
  ⟨_, if_pos (h.column_lt hlines)⟩

end Printed

/-! ## 3. The verdict -/

namespace Command

/-- What the program answers about a file: the parse of its source settles whether it is accepted,
and the flags what is printed. -/
inductive Verdict (o : Options) (source : String) : Outcome → Prop where
  /-- A program has tokens, and they are printed before its tree. -/
  | accepted {p : Program} {tokens : List Token} {listing : List String} {stdout : String} :
      (Parser.new.parse source).1 = .ok (Program.toNode p) → tokenize source = .ok tokens →
      List.Forall₂ Token.ListedAs tokens listing →
      HasLines stdout ((if o.showTokens then listing else []) ++
        if o.showTree then (Program.rows p).map Row.line else []) →
      Verdict o source ⟨0, stdout, ""⟩
  /-- The tokens are to be shown, but there is a lexical error, and the parse fails too. -/
  | untokenized {e e' : Error} {report : String} :
      o.showTokens = true → tokenize source = .error e →
      (Parser.new.parse source).1 = .error e' →
      Report.render? e source o.file = some report → Verdict o source ⟨1, "", report⟩
  /-- The tokens are shown, and the parse fails. -/
  | refusedShown {tokens : List Token} {listing : List String} {stdout report : String}
      {e : Error} :
      o.showTokens = true → tokenize source = .ok tokens →
      (Parser.new.parse source).1 = .error e →
      List.Forall₂ Token.ListedAs tokens listing → HasLines stdout listing →
      Report.render? e source o.file = some report → Verdict o source ⟨1, stdout, report⟩
  /-- The tokens are not to be shown, and the parse fails. -/
  | refused {e : Error} {report : String} :
      o.showTokens = false → (Parser.new.parse source).1 = .error e →
      Report.render? e source o.file = some report → Verdict o source ⟨1, "", report⟩

section Runs

variable {o : Options} {source report : String} {e e' : Error} {tree : Node}
  {tokens : List Token} {outcome : Outcome} {read : String → Except Unreadable String}

/-- Arguments that name a file make the program process it. -/
theorem run_of_process {args : List String} (hargs : Request.ofArgs args = .process o)
    (hread : read o.file = .ok source) : run args read = process o source := by
  rw [run, hargs]
  simp only [answer, hread]

/-- A report that can be laid out is printed. -/
theorem failure_of_report {file : String} (h : Report.render? e source file = some report)
    (printed : String) : failure printed e source file = ⟨1, printed, report⟩ := by
  rw [failure, h]

theorem process_of_lexical (hshow : o.showTokens = true) (h : tokenize source = .error e) :
    process o source = failure "" e source o.file := by
  rw [process, hshow, h]
  rfl

theorem process_of_error (hshow : o.showTokens = true → tokenize source = .ok tokens)
    (h : (Parser.new.parse source).1 = .error e) :
    process o source =
      failure (if o.showTokens then tokenLines tokens else "") e source o.file := by
  have hcompile : (Compiler.new.compile source).1 = .error e :=
    (Compiler.compile_fst .new source).trans h
  rw [process, hcompile]
  cases hs : o.showTokens with
  | false => rfl
  | true =>
    rw [hshow hs]
    rfl

theorem process_of_ok (htokens : tokenize source = .ok tokens)
    (h : (Parser.new.parse source).1 = .ok tree) :
    process o source =
      ⟨0, (if o.showTokens then tokenLines tokens else "") ++
        (if o.showTree then tree.outline.indented 0 ++ "\n" else ""), ""⟩ := by
  have hcompile : (Compiler.new.compile source).1 = .ok tree :=
    (Compiler.compile_fst .new source).trans h
  rw [process, hcompile, htokens]
  cases o.showTokens <;> rfl

/-- The verdict on a source with short lines. -/
theorem verdict_process
    (hlines : ∀ l ∈ Text.lines source.toList, String.utf8Len l < Report.maxCaret)
    (o : Options) : Verdict o source (process o source) := by
  cases h : (Parser.new.parse source).1 with
  | ok tree =>
    obtain ⟨tokens, htokens⟩ := Parser.exists_tokenize_of_ok h
    obtain ⟨hlisting, hlisted⟩ := hasLines_tokenLines htokens
    obtain ⟨p, rfl, hwellFormed⟩ := Parser.exists_wellFormed_of_parse h
    rw [process_of_ok htokens h]
    exact .accepted h htokens hlisted
      ((hlisting.ite o.showTokens).append ((hasLines_tree hwellFormed).ite o.showTree))
  | error e =>
    obtain ⟨report, hreport⟩ := (Error.ArisesIn.of_error (.inr h)).exists_report hlines o.file
    cases hshow : o.showTokens with
    | false =>
      have htok : o.showTokens = true → tokenize source = .ok [] := by simp [hshow]
      rw [process_of_error htok h, failure_of_report hreport, hshow]
      exact .refused hshow h hreport
    | true =>
      cases htok : tokenize source with
      | ok tokens =>
        obtain ⟨hlisting, hlisted⟩ := hasLines_tokenLines htok
        rw [process_of_error (fun _ => htok) h, failure_of_report hreport, hshow]
        exact .refusedShown hshow htok h hlisted hlisting hreport
      | error e' =>
        obtain ⟨report, hreport⟩ :=
          (Error.ArisesIn.of_error (p := .new) (.inl htok)).exists_report hlines o.file
        rw [process_of_lexical hshow htok, failure_of_report hreport]
        exact .untokenized hshow htok h hreport

/-- The status is that of the parse. -/
theorem Verdict.exit_eq (h : Verdict o source outcome) :
    outcome.exit = if (Parser.new.parse source).1.isOk then 0 else 1 := by
  cases h with
  | accepted h => rw [h]; rfl
  | untokenized _ _ h => rw [h]; rfl
  | refusedShown _ _ h => rw [h]; rfl
  | refused _ h => rw [h]; rfl

/-- A program is accepted without a report. -/
theorem Verdict.stderr_of_ok (h : Verdict o source outcome)
    (hok : (Parser.new.parse source).1 = .ok tree) : outcome.stderr = "" := by
  cases h with
  | accepted => rfl
  | untokenized _ _ h => cases h.symm.trans hok
  | refusedShown _ _ h => cases h.symm.trans hok
  | refused _ h => cases h.symm.trans hok

/-- A source that is no program is reported with the error of the parse or the lexical error. -/
theorem Verdict.exists_reported (h : Verdict o source outcome)
    (he : (Parser.new.parse source).1 = .error e) :
    ∃ e', (e' = e ∨ tokenize source = .error e') ∧
      Report.render? e' source o.file = some outcome.stderr := by
  cases h with
  | accepted h => cases h.symm.trans he
  | untokenized _ hlexical _ hreport => exact ⟨_, .inr hlexical, hreport⟩
  | refusedShown _ _ h _ _ hreport =>
    cases h.symm.trans he
    exact ⟨_, .inl rfl, hreport⟩
  | refused _ h hreport =>
    cases h.symm.trans he
    exact ⟨_, .inl rfl, hreport⟩

/-- The parse stops before the lexical error, at a token that the grammar does not allow. -/
def StopsBefore (source : String) : Prop :=
  ∃ e e', (Parser.new.parse source).1 = .error e ∧ tokenize source = .error e' ∧
    e.cause.category = .syntactic ∧ e.position.offset < e'.position.offset

/-- Reports on the same file differ only where the parse stops before the lexical error. -/
theorem Verdict.stderr_eq_or {o' : Options} {outcome' : Outcome} (h : Verdict o source outcome)
    (h' : Verdict o' source outcome') (hfile : o.file = o'.file) :
    outcome.stderr = outcome'.stderr ∨ StopsBefore source := by
  cases hparse : (Parser.new.parse source).1 with
  | ok tree => exact .inl ((h.stderr_of_ok hparse).trans (h'.stderr_of_ok hparse).symm)
  | error e =>
    -- Where the lexical error is reported, it is the error of the parse, or the parse stops before.
    have hlexical {e' : Error} (he' : e' = e ∨ tokenize source = .error e') :
        e' = e ∨ StopsBefore source := by
      rcases he' with rfl | hlex
      · exact .inl rfl
      · have hfails := (Parser.new.parse_error_iff_fails source e).mp hparse
        rcases hfails.eq_or_before (tokenize_eq_error_iff.mp hlex) with rfl | ⟨hcat, hlt⟩
        · exact .inl rfl
        · exact .inr ⟨e, e', hparse, hlex, hcat, hlt⟩
    obtain ⟨e₁, he₁, hreport₁⟩ := h.exists_reported hparse
    obtain ⟨e₂, he₂, hreport₂⟩ := h'.exists_reported hparse
    rcases hlexical he₁ with rfl | hstops
    · rcases hlexical he₂ with rfl | hstops
      · rw [← hfile] at hreport₂
        exact .inl (Option.some.inj (hreport₁.symm.trans hreport₂))
      · exact .inr hstops
    · exact .inr hstops

/-- **The flags do not change the verdict.**  The program is called by the name of a file and any of
the flags.  On a file of short lines it answers as `Verdict` says, so its status is that of the
parse.  Two calls on the same file end with the same status, and with the same report unless the
parse stops before the lexical error.  The tokens are listed with the end of the input last. -/
theorem flags_keep_verdict
    (hlines : ∀ l ∈ Text.lines source.toList, String.utf8Len l < 65535) :
    (∀ tokens, tokenize source = .ok tokens →
      (∃ ts stop, tokens = ts ++ [Token.endOfInput stop] ∧ ∀ t ∈ ts, t.kind ≠ .endOfInput) ∧
        ∀ t ∈ tokens, '\n' ∉ t.listing.toList) ∧
    (∀ args o, Request.ofArgs args = .process o ↔ Calls o args) ∧
    (∀ args read o, Calls o args → read o.file = .ok source →
      Verdict o source (run args read) ∧
        (run args read).exit = if (Parser.new.parse source).1.isOk then 0 else 1) ∧
    ∀ args args' read o o', Calls o args → Calls o' args' → o.file = o'.file →
      read o.file = .ok source →
      (run args read).exit = (run args' read).exit ∧
        ((run args read).stderr ≠ (run args' read).stderr → StopsBefore source) := by
  refine ⟨fun _ => listing_of_tokenize, fun _ _ => Request.ofArgs_eq_process_iff, ?_, ?_⟩
  · intro args read o hcalls hread
    have hverdict := verdict_process hlines o
    rw [run_of_process (Request.ofArgs_of_calls hcalls) hread]
    exact ⟨hverdict, hverdict.exit_eq⟩
  · intro args args' read o o' hcalls hcalls' hfile hread
    have hverdict := verdict_process hlines o
    have hverdict' := verdict_process hlines o'
    rw [run_of_process (Request.ofArgs_of_calls hcalls) hread,
      run_of_process (Request.ofArgs_of_calls hcalls') (hfile ▸ hread)]
    refine ⟨hverdict.exit_eq.trans hverdict'.exit_eq.symm, ?_⟩
    exact (hverdict.stderr_eq_or hverdict' hfile).resolve_left

/-- The semicolon is refused before the parse comes to the character that is not recognised.  The
flags may stand behind the name, and a name behind a double dash may look like one. -/
theorem flags_keep_verdict_stops_before :
    (∀ l ∈ Text.lines "unit ; @".toList, String.utf8Len l < 65535) ∧
    Calls ⟨"a.unit", true, false⟩ ["--tokens", "a.unit"] ∧
    Calls ⟨"a.unit", false, true⟩ ["a.unit", "--ast"] ∧
    Verdict ⟨"a.unit", true, false⟩ "unit ; @"
      (run ["--tokens", "a.unit"] fun _ => .ok "unit ; @") ∧
    (run ["--tokens", "a.unit"] fun _ => .ok "unit ; @").exit =
      (run ["a.unit", "--ast"] fun _ => .ok "unit ; @").exit ∧
    Request.ofArgs ["--ast", "--tokens", "--", "--ast"] = .process ⟨"--ast", true, true⟩ ∧
    (run ["--ast", "--tokens", "--", "--ast"] fun _ => .ok "unit a;").exit = 0 := by
  have hlines : ∀ l ∈ Text.lines "unit ; @".toList, String.utf8Len l < 65535 := by
    decide +kernel
  have hlines' : ∀ l ∈ Text.lines "unit a;".toList, String.utf8Len l < 65535 := by
    decide +kernel
  have hcalls : Calls ⟨"a.unit", true, false⟩ ["--tokens", "a.unit"] :=
    .plain (by decide) (by decide)
  have hcalls' : Calls ⟨"a.unit", false, true⟩ ["a.unit", "--ast"] :=
    .plain (by decide) (by decide)
  have hflags : ["--ast", "--tokens"].Perm (flags true true) := by decide
  have hdashes : Calls ⟨"--ast", true, true⟩ (["--ast", "--tokens"] ++ ["--", "--ast"]) :=
    .behind (by decide) hflags
  obtain ⟨-, -, hverdict, hsame⟩ := flags_keep_verdict hlines
  refine ⟨hlines, hcalls, hcalls', (hverdict _ (fun _ => .ok _) _ hcalls rfl).1,
    (hsame _ _ (fun _ => .ok _) _ _ hcalls hcalls' rfl rfl).1, ?_⟩
  obtain ⟨-, haccepted, hverdict, -⟩ := flags_keep_verdict hlines'
  have hexit := (hverdict _ (fun _ => .ok _) _ hdashes rfl).2
  rw [Parser.parse_unit] at hexit
  exact ⟨(haccepted _ _).mpr hdashes, hexit⟩

end Runs

end Command

end UnitLang
