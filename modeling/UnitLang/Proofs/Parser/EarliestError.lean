/-
# The earliest error

A parse that fails reports the first item that cannot go on (`Items.EarliestError`), and the text
before the place of its error can be finished to a program (`Parser.FinishesAt`).  Cut off at the
place, the source is a program or lacks an end, and with a line feed and a fitting text in place
of the rest it is a program.

For the second, the tokens before the item are viable, so there are kinds that complete them, and
a text spells these kinds.  The lexical side is that the source can be cut at the place of every
item (`Lexes`): neither the cut nor a line feed there changes the tokens before it.
-/
import UnitLang.Proofs.Grammar.Clauses
import UnitLang.Proofs.Parser.Viability
import UnitLang.Proofs.Token.Lossless

namespace UnitLang

open Grammar

/-! ## 1. Finishing a text -/

/-- At this place the source can be cut, and what is before it can be finished: alone it is a
program or lacks an end, and with a line feed and some text it is a program. -/
def Parser.FinishesAt (p : Parser) (source : String) (q : Position) : Prop :=
  ∃ before after, source = before ++ after ∧ before.utf8ByteSize = q.offset ∧
    ((∃ n, (p.parse before).1 = .ok n) ∨
      (p.parse before).1 = .error ⟨.unexpectedEndOfInput, q⟩) ∧
    ∃ v n, (p.parse (before ++ "\n" ++ v)).1 = .ok n

section Finishing

variable {p : Parser} {source text : String} {q stop : Position} {ts : List Token}
  {rest : List Char}

/-- A text whose tokens are viable is a program or lacks an end. -/
theorem Parser.parse_of_isViable (his : itemsOf text = ⟨ts, .ended q⟩)
    (h : IsViable (ts.map (·.kind))) :
    (∃ n, (p.parse text).1 = .ok n) ∨ (p.parse text).1 = .error ⟨.unexpectedEndOfInput, q⟩ := by
  have hkinds := kind_ne_endOfInput_of_mem_itemsOf text
  rw [Parser.parse_eq_answer]
  rcases exists_answer_or_fails hkinds with ⟨n, -, hn, -⟩ | ⟨e, he, hfails⟩
  · exact .inl ⟨n, hn⟩
  · rw [his] at hfails
    cases hfails with
    | token hts _ hbad => exact absurd h (Items.Fails.not_isViable hts hbad)
    | ended hend _ _ =>
      cases hend
      exact .inr he
    | lexical hend _ => cases hend

/-- **What is before a cut can be finished**, if its tokens are viable. -/
theorem Lexes.finishesAt (h : Lexes .start source.toList ts q rest)
    (hviable : IsViable (ts.map (·.kind))) : p.FinishesAt source q := by
  obtain ⟨front, hsource, rfl, hfront⟩ := h.cut_off
  have hbefore : itemsOf (String.ofList front) = ⟨ts, .ended (Position.start.advance front)⟩ := by
    have hitems := hfront.items
    rw [items_nil, List.append_nil] at hitems
    rw [itemsOf, String.toList_ofList, hitems]
  obtain ⟨heq, hsize⟩ := Position.cut_advance_start hsource
  refine ⟨String.ofList front, String.ofList rest, heq, hsize,
    p.parse_of_isViable hbefore hviable, ?_⟩
  obtain ⟨ks, hks⟩ := hviable
  have hend : ∀ k ∈ ks, k ≠ .endOfInput := by
    rintro k hk rfl
    exact endOfInput_notMem_of_derives hks (by simp) (List.mem_append_right _ hk)
  obtain ⟨hspell, stop, hstop⟩ :=
    items_spell hend ((Position.start.advance front).after '\n')
  rw [← hspell, ← List.map_append] at hks
  obtain ⟨n, hn⟩ := exists_answer_of_isSentence stop hks
  refine ⟨String.ofList (spell ks), n, ?_⟩
  have htext : (String.ofList front ++ "\n" ++ String.ofList (spell ks)).toList =
      front ++ '\n' :: spell ks := by simp
  rw [Parser.parse_eq_answer, itemsOf, htext, hfront.items_newline, hstop]
  exact hn

end Finishing

/-! ## 2. The law -/

/-- The outcome of a parse that fails at the first item that cannot go on, if there is one. -/
structure Items.EarliestError (is : Items) (outcome : Except Error Node) : Prop where
  /-- An unexpected token is reported just when the tokens before it are viable, and together with
  it they are not. -/
  token {before after : List Token} {t : Token} : is.tokens = before ++ t :: after →
    (outcome = .error ⟨.unexpectedToken t.value, t.span.start⟩ ↔
      IsViable (before.map (·.kind)) ∧ ¬ IsViable ((before ++ [t]).map (·.kind)))
  /-- No token is the end of the input. -/
  kind_ne_endOfInput : ∀ t ∈ is.tokens, t.kind ≠ .endOfInput
  /-- An unexpected end of the input is reported just when the tokens are viable and no
  sentence. -/
  ended {stop : Position} : is.ending = .ended stop →
    (outcome = .error ⟨.unexpectedEndOfInput, stop⟩ ↔
      IsViable (is.tokens.map (·.kind)) ∧ ¬ IsSentence (is.tokens.map (·.kind)))
  /-- The lexical error is reported just when the tokens before it are viable. -/
  lexical {e : Error} : is.ending = .failed e →
    (outcome = .error e ↔ IsViable (is.tokens.map (·.kind)))
  /-- No other error is reported. -/
  exhaustive {e : Error} : outcome = .error e →
    (∃ before t after, is.tokens = before ++ t :: after ∧
      e = ⟨.unexpectedToken t.value, t.span.start⟩) ∨
    (∃ stop, is.ending = .ended stop ∧ e = ⟨.unexpectedEndOfInput, stop⟩) ∨
    is.ending = .failed e

/-- A later token of a source begins at a later place. -/
theorem start_lt_of_mem {source : String} {before after : List Token} {t t' : Token}
    (h : (itemsOf source).tokens = before ++ t :: after) (ht' : t' ∈ after) :
    t.span.start.offset < t'.span.start.offset := by
  obtain ⟨q, rest, hlexes, -⟩ := exists_lexes_all .start source.toList
  rw [← itemsOf, h] at hlexes
  obtain ⟨front, -, -, hlossless⟩ := hlexes.lossless
  have hordered := List.rel_of_pairwise_cons (List.pairwise_append.mp hlossless.ordered).2.1 ht'
  exact Nat.lt_of_lt_of_le (hlossless.nonempty t (by simp)) hordered

/-- Two tokens of a source that begin at the same place are the same one. -/
theorem append_inj_of_start {source : String} {before after before' after' : List Token}
    {t t' : Token} (h : (itemsOf source).tokens = before ++ t :: after)
    (h' : (itemsOf source).tokens = before' ++ t' :: after')
    (hstart : t.span.start = t'.span.start) : before = before' ∧ t = t' := by
  rcases List.append_eq_append_iff.mp (h.symm.trans h') with ⟨u, rfl, hu⟩ | ⟨u, rfl, hu⟩
  · cases u with
    | nil => exact ⟨(List.append_nil _).symm, (List.cons_eq_cons.mp hu).1⟩
    | cons c u =>
      obtain ⟨rfl, rfl⟩ := List.cons_eq_cons.mp hu
      have hlt := start_lt_of_mem h (List.mem_append_right u List.mem_cons_self)
      rw [hstart] at hlt
      exact absurd hlt (Nat.lt_irrefl _)
  · cases u with
    | nil => exact ⟨List.append_nil _, (List.cons_eq_cons.mp hu).1.symm⟩
    | cons c u =>
      obtain ⟨rfl, rfl⟩ := List.cons_eq_cons.mp hu
      have hlt := start_lt_of_mem h' (List.mem_append_right u List.mem_cons_self)
      rw [hstart] at hlt
      exact absurd hlt (Nat.lt_irrefl _)

/-- Which error a source has is settled by its kind and place. -/
theorem Items.earliestError_of_iff {source : String} {outcome : Except Error Node}
    (h : ∀ e, outcome = .error e ↔ (itemsOf source).Fails e) :
    (itemsOf source).EarliestError outcome where
  kind_ne_endOfInput := kind_ne_endOfInput_of_mem_itemsOf source
  token htoks := by
    rw [h]
    constructor
    · intro hfails
      generalize he : (⟨.unexpectedToken _, _⟩ : Error) = e at hfails
      cases hfails with
      | token htoks' hgood hbad =>
        obtain ⟨rfl, rfl⟩ := append_inj_of_start htoks htoks' (congrArg Error.position he)
        exact ⟨hgood, hbad⟩
      | ended => cases he
      | lexical hend _ =>
        obtain ⟨_, _, rfl⟩ := exists_eq_unrecognised hend
        cases he
    · rintro ⟨hgood, hbad⟩
      exact .token htoks hgood hbad
  ended hend := by
    rw [h]
    constructor
    · intro hfails
      cases hfails with
      | ended _ hgood hnot => exact ⟨hgood, hnot⟩
      | lexical hend' _ => cases hend.symm.trans hend'
    · rintro ⟨hgood, hnot⟩
      exact .ended hend hgood hnot
  lexical hend := by
    rw [h]
    constructor
    · intro hfails
      obtain ⟨_, _, rfl⟩ := exists_eq_unrecognised hend
      cases hfails with
      | lexical _ hgood => exact hgood
    · intro hgood
      exact .lexical hend hgood
  exhaustive he := by
    rcases (h _).mp he with ⟨htoks, -, -⟩ | ⟨hend, -, -⟩ | ⟨hend, -⟩
    · exact .inl ⟨_, _, _, htoks, rfl⟩
    · exact .inr (.inl ⟨_, hend, rfl⟩)
    · exact .inr (.inr hend)

/-- The source can be cut at the first item that cannot go on, and the tokens before it are
viable. -/
theorem Items.Fails.exists_lexes {source : String} {e : Error} (h : (itemsOf source).Fails e) :
    ∃ ts rest, Lexes .start source.toList ts e.position rest ∧ IsViable (ts.map (·.kind)) := by
  cases h with
  | token htoks hgood _ =>
    obtain ⟨rest, hlexes⟩ := exists_lexes_of_tokens htoks
    exact ⟨_, rest, hlexes, hgood⟩
  | @ended p hend hgood _ =>
    have his : itemsOf source = ⟨(itemsOf source).tokens, .ended p⟩ := by rw [← hend]
    exact ⟨_, [], lexes_of_ended his, hgood⟩
  | lexical hend hgood =>
    have his : itemsOf source = ⟨(itemsOf source).tokens, .failed e⟩ := by rw [← hend]
    obtain ⟨c, tail, hlexes⟩ := lexes_of_failed his
    exact ⟨_, _, hlexes, hgood⟩

/-- A parse fails just with the error at the first item that cannot go on. -/
theorem Parser.parse_error_iff_fails (p : Parser) (source : String) (e : Error) :
    (p.parse source).1 = .error e ↔ (itemsOf source).Fails e := by
  rw [parse_eq_answer]
  exact answer_error_iff_fails (kind_ne_endOfInput_of_mem_itemsOf source)

/-- **The earliest error is reported**, and what is before it can be finished. -/
theorem parse_reports_earliest_error (p : Parser) (source : String) :
    (itemsOf source).EarliestError (p.parse source).1 ∧
      ∀ e, (p.parse source).1 = .error e → p.FinishesAt source e.position := by
  refine ⟨Items.earliestError_of_iff (p.parse_error_iff_fails source), ?_⟩
  intro e he
  obtain ⟨ts, rest, hlexes, hviable⟩ := ((p.parse_error_iff_fails source e).mp he).exists_lexes
  exact hlexes.finishesAt hviable

/-- A path in a unit clause is not renamed.  The table reduces the path before `as`, as if it were
imported, but does not shift. -/
theorem parse_reports_earliest_error_renamed_unit :
    (Parser.new.parse "unit a as b;").1 = .error ⟨.unexpectedToken "as", ⟨7, 1, 7⟩⟩ ∧
      IsViable [.unitKw, .identifier] ∧ ¬ IsViable [.unitKw, .identifier, .asKw] ∧
      Parser.new.FinishesAt "unit a as b;" ⟨7, 1, 7⟩ := by
  have his : itemsOf "unit a as b;" =
      ⟨[⟨.unitKw, "unit", ⟨⟨0, 1, 0⟩, ⟨4, 1, 4⟩⟩⟩, ⟨.identifier, "a", ⟨⟨5, 1, 5⟩, ⟨6, 1, 6⟩⟩⟩,
        ⟨.asKw, "as", ⟨⟨7, 1, 7⟩, ⟨9, 1, 9⟩⟩⟩, ⟨.identifier, "b", ⟨⟨10, 1, 10⟩, ⟨11, 1, 11⟩⟩⟩,
        ⟨.semicolon, ";", ⟨⟨11, 1, 11⟩, ⟨12, 1, 12⟩⟩⟩], .ended ⟨12, 1, 12⟩⟩ := by decide +kernel
  have herror : (Parser.new.parse "unit a as b;").1 =
      .error ⟨.unexpectedToken "as", ⟨7, 1, 7⟩⟩ := by
    rw [Parser.parse_eq_answer, his]
    dsimp only
    rw [answer_cons_of_shift rfl, answer_cons_of_shift rfl]
    rw [answer_of_reduce rfl rfl, answer_of_reduce rfl rfl, answer_cons_of_none rfl]
  obtain ⟨hearliest, hfinishes⟩ := parse_reports_earliest_error Parser.new "unit a as b;"
  have htoks : (itemsOf "unit a as b;").tokens =
      [⟨.unitKw, "unit", ⟨⟨0, 1, 0⟩, ⟨4, 1, 4⟩⟩⟩, ⟨.identifier, "a", ⟨⟨5, 1, 5⟩, ⟨6, 1, 6⟩⟩⟩] ++
        ⟨.asKw, "as", ⟨⟨7, 1, 7⟩, ⟨9, 1, 9⟩⟩⟩ ::
        [⟨.identifier, "b", ⟨⟨10, 1, 10⟩, ⟨11, 1, 11⟩⟩⟩,
          ⟨.semicolon, ";", ⟨⟨11, 1, 11⟩, ⟨12, 1, 12⟩⟩⟩] := by rw [his]; rfl
  obtain ⟨hgood, hbad⟩ := (hearliest.token htoks).mp herror
  exact ⟨herror, hgood, hbad, hfinishes _ herror⟩

end UnitLang
