/-
# Programs one below the other

A text below another, on lines of its own, is parsed as it is alone.  If both are programs, they
are one program with the clauses of both; if only the upper one is, the error is that of the
lower one.  All places in the lower one are moved (`Position.below`), and nothing else changes.

The items of the lower text follow those of the upper one, moved: a line feed parts them, also
where a line comment is open (`itemsOf_below`).  Trees are built of moved tokens as of others
(`Builds.relabel`), and a program goes on with the clauses of another (`Builds.append_program`).
What can go on behind a sentence is what can begin one (`IsSentence.isViable_append_iff`), so
behind a sentence the first item that cannot go on is the same (`Items.Fails.append`).  The one
exception is a lower text without any token, which is no program alone and nothing more below
another.
-/
import UnitLang.Proofs.Grammar.Making
import UnitLang.Proofs.Parser.EarliestError
import UnitLang.Proofs.Program.Reading
import UnitLang.Proofs.Token.Moving

namespace UnitLang

open Grammar

/-! ## 1. Moved trees -/

/-- The same identifier at another place. -/
def Identifier.move (f : Position → Position) (id : Identifier) : Identifier :=
  ⟨id.name, id.span.move f⟩

/-- The same tree with all identifiers at other places. -/
def Node.move (f : Position → Position) (n : Node) : Node := n.relabel (Identifier.move f)

theorem Node.move_list (f : Position → Position) (items : List Node) :
    (Node.list items).move f = .list (items.map (Node.move f)) := by
  rw [move, relabel, relabelAll_eq_map]
  rfl

/-- A program of moved tokens is the moved program. -/
theorem Builds.move {ts : List Token} {n : Node} (f : Position → Position)
    (h : Builds [.nonterminal .program] ts [.node n]) :
    Builds [.nonterminal .program] (ts.map (Token.move f)) [.node (n.move f)] :=
  h.relabel (Identifier.move f)

/-! ## 2. Joined programs -/

section Programs

variable {Xs Ys : List Symbol} {ts us : List Token} {vs : List Value} {cs ds : List Node}
  {clause : Node} {l : Lexeme}

/-- A program and one more clause are a program. -/
theorem Builds.add_clause
    (h : Builds [.nonterminal .program, .nonterminal .clause, .terminal .semicolon] us
      [.node (.list cs), .node clause, .lexeme l]) (hrest : Builds Xs ts vs) :
    Builds (.nonterminal .program :: Xs) (us ++ ts) (.node (.list (cs ++ [clause])) :: vs) :=
  .node nextClause_mem h (Action.run_eq_ok_iff.mpr .nextClause) hrest

/-- Symbols that begin with a program may stand behind another program, and the program has the
clauses of both. -/
theorem Builds.append_of_program (hcs : Builds [.nonterminal .program] ts [.node (.list cs)])
    (h : Builds Xs us vs) (hXs : Xs = .nonterminal .program :: Ys) :
    ∃ ds ws, vs = .node (.list ds) :: ws ∧
      Builds Xs (ts ++ us) (.node (.list (cs ++ ds)) :: ws) := by
  induction h generalizing Ys with
  | nil => cases hXs
  | lexeme t _ _ => cases hXs
  | @node p n us us' ws vs Xs hp hrhs hrun hrest ihrhs _ =>
    obtain ⟨hlhs, rfl⟩ := List.cons_eq_cons.mp hXs
    have hmakes := Action.run_eq_ok_iff.mp hrun
    rw [← List.append_assoc]
    -- Either way the last reduction becomes one that adds a clause.
    rcases eq_of_lhs_eq_program hp (Symbol.nonterminal.inj hlhs) with rfl | rfl
    · cases hmakes
      exact ⟨_, vs, rfl, (hcs.append hrhs).add_clause hrest⟩
    · obtain ⟨ds, ws, rfl, hrhs'⟩ := ihrhs rfl
      cases hmakes
      refine ⟨_, vs, rfl, ?_⟩
      rw [← List.append_assoc cs]
      exact hrhs'.add_clause hrest

/-- **Two programs are one**, with the clauses of both. -/
theorem Builds.append_program (hcs : Builds [.nonterminal .program] ts [.node (.list cs)])
    (hds : Builds [.nonterminal .program] us [.node (.list ds)]) :
    Builds [.nonterminal .program] (ts ++ us) [.node (.list (cs ++ ds))] := by
  obtain ⟨_, _, heq, h⟩ := hcs.append_of_program hds rfl
  cases heq
  exact h

end Programs

/-! ## 3. Joined texts -/

section Texts

variable {u : String} {ts : List Token} {stop : Position}

/-- Below a text, the items of any text follow its tokens. -/
theorem itemsOf_below (hu : itemsOf u = ⟨ts, .ended stop⟩) (v : String) :
    itemsOf (u ++ "\n" ++ v) =
      ⟨ts ++ ((itemsOf v).move (.below u)).tokens, ((itemsOf v).move (.below u)).ending⟩ := by
  have hlexes := lexes_of_ended hu
  have htext : (u ++ "\n" ++ v).toList = u.toList ++ '\n' :: v.toList := by simp
  rw [itemsOf, htext, hlexes.items_newline, hlexes.eq_advance, ← Position.below_start,
    items_move (Position.carries_below u) (Nat.le_refl 1)]
  rfl

end Texts

/-! ## 4. The first error of joined texts -/

namespace Items

variable {is : Items} {e : Error} {ts : List Token}

@[simp] theorem kinds_move (f : Position → Position) (ts : List Token) :
    (ts.map (Token.move f)).map (·.kind) = ts.map (·.kind) := by
  rw [List.map_map]
  rfl

/-- Moved items fail at the same item, moved. -/
theorem Fails.move (f : Position → Position) (h : is.Fails e) : (is.move f).Fails (e.move f) := by
  cases h with
  | @token before after t htoks hgood hbad =>
    have htoks' : (is.move f).tokens =
        before.map (Token.move f) ++ t.move f :: after.map (Token.move f) := by
      rw [Items.move, htoks, List.map_append, List.map_cons]
    refine .token htoks' (by rwa [kinds_move]) ?_
    rwa [← List.map_singleton, ← List.map_append, kinds_move]
  | @ended p hend hgood hnot =>
    have hend' : (is.move f).ending = .ended (f p) := by
      rw [Items.move, hend, Ending.move]
    exact .ended hend' (by rwa [Items.move, kinds_move]) (by rwa [Items.move, kinds_move])
  | lexical hend hgood =>
    have hend' : (is.move f).ending = .failed (e.move f) := by
      rw [Items.move, hend, Ending.move]
    exact .lexical hend' (by rwa [Items.move, kinds_move])

/-- Moved items are no more without any token than the others. -/
theorem move_ne_ended {f : Position → Position} (hne : ∀ p, is ≠ ⟨[], .ended p⟩) (q : Position) :
    is.move f ≠ ⟨[], .ended q⟩ := by
  obtain ⟨ts, e⟩ := is
  intro heq
  obtain ⟨hts, he⟩ := Items.mk.inj heq
  obtain rfl := List.map_eq_nil_iff.mp hts
  cases e with
  | ended p => exact hne p rfl
  | failed e => cases he

/-- Behind a sentence, items fail as they do alone, unless the end of the input is their first. -/
theorem Fails.append (h : is.Fails e) (hts : IsSentence (ts.map (·.kind)))
    (hne : ∀ p, is ≠ ⟨[], .ended p⟩) : Fails ⟨ts ++ is.tokens, is.ending⟩ e := by
  cases h with
  | @token before after t htoks hgood hbad =>
    have htoks' : ts ++ is.tokens = (ts ++ before) ++ t :: after := by
      rw [htoks, List.append_assoc]
    refine .token htoks' ?_ ?_
    · rw [List.map_append]
      exact hts.isViable_append_iff.mpr hgood
    · rw [List.append_assoc, List.map_append]
      exact fun hviable => hbad (hts.isViable_append_iff.mp hviable)
  | @ended p hend hgood hnot =>
    have hnil : is.tokens.map (·.kind) ≠ [] := by
      intro hnil
      obtain ⟨tokens, ending⟩ := is
      obtain rfl := List.map_eq_nil_iff.mp hnil
      exact hne p (by rw [← hend])
    refine .ended hend ?_ ?_
    · rw [List.map_append]
      exact hts.isViable_append_iff.mpr hgood
    · rw [List.map_append]
      exact fun hsentence => hnot ((hts.append_iff hnil).mp hsentence)
  | lexical hend hgood =>
    refine .lexical hend ?_
    rw [List.map_append]
    exact hts.isViable_append_iff.mpr hgood

end Items

/-! ## 5. Parsing joined texts -/

/-- **A text below a program is parsed as it is alone**, but for its places.  Two programs are one
with the clauses of both.  An error is the same one, unless the lower text is without any item but
its end. -/
theorem parse_below (p : Parser) (u v : String) :
    (∀ cs ds, (p.parse u).1 = .ok (.list cs) → (p.parse v).1 = .ok (.list ds) →
      (p.parse (u ++ "\n" ++ v)).1 = .ok (.list (cs ++ ds.map (Node.move (.below u))))) ∧
    ∀ n e, (p.parse u).1 = .ok n → (p.parse v).1 = .error e →
      (∀ stop, (itemsOf v).toList.head? ≠ some (.ok (.endOfInput stop))) →
      (p.parse (u ++ "\n" ++ v)).1 = .error (e.move (.below u)) := by
  constructor
  · intro cs ds hu hv
    obtain ⟨ts, stop, hu, hcs⟩ := Parser.parse_eq_ok_iff.mp hu
    obtain ⟨us, stop', hv, hds⟩ := Parser.parse_eq_ok_iff.mp hv
    have hmoved := hds.move (.below u)
    rw [Node.move_list] at hmoved
    refine Parser.parse_eq_ok_iff.mpr ⟨_, stop'.below u, ?_, hcs.append_program hmoved⟩
    rw [itemsOf_below hu, hv]
    rfl
  · intro n e hu hv hne
    obtain ⟨ts, stop, hu, hn⟩ := Parser.parse_eq_ok_iff.mp hu
    have hfails := (p.parse_error_iff_fails v e).mp hv
    have hne' (q : Position) : itemsOf v ≠ ⟨[], .ended q⟩ := by
      intro heq
      exact hne q (by rw [heq]; rfl)
    rw [Parser.parse_error_iff_fails, itemsOf_below hu]
    exact (hfails.move _).append (derivesAll_singleton_iff.mp hn.derivesAll)
      (Items.move_ne_ended hne')

/-- A program below one that ends in an open line comment, and an error there. -/
theorem parse_below_comment :
    ((Parser.new.parse "unit a;//").1 =
        .ok (.list [.unit [.identifier ⟨"a", ⟨⟨5, 1, 5⟩, ⟨6, 1, 6⟩⟩⟩]]) ∧
      (Parser.new.parse "unit b;").1 =
        .ok (.list [.unit [.identifier ⟨"b", ⟨⟨5, 1, 5⟩, ⟨6, 1, 6⟩⟩⟩]]) ∧
      (Parser.new.parse "unit a;//\nunit b;").1 =
        .ok (.list [.unit [.identifier ⟨"a", ⟨⟨5, 1, 5⟩, ⟨6, 1, 6⟩⟩⟩],
          .unit [.identifier ⟨"b", ⟨⟨15, 2, 5⟩, ⟨16, 2, 6⟩⟩⟩]])) ∧
    (Parser.new.parse ".").1 = .error ⟨.unexpectedToken ".", ⟨0, 1, 0⟩⟩ ∧
      (∀ stop, (itemsOf ".").toList.head? ≠ some (.ok (.endOfInput stop))) ∧
      (Parser.new.parse "unit a;//\n.").1 = .error ⟨.unexpectedToken ".", ⟨10, 2, 0⟩⟩ := by
  have hu : (Parser.new.parse "unit a;//").1 =
      .ok (.list [.unit [.identifier ⟨"a", ⟨⟨5, 1, 5⟩, ⟨6, 1, 6⟩⟩⟩]]) := by
    have his : itemsOf "unit a;//" =
        ⟨[⟨.unitKw, "unit", ⟨⟨0, 1, 0⟩, ⟨4, 1, 4⟩⟩⟩, ⟨.identifier, "a", ⟨⟨5, 1, 5⟩, ⟨6, 1, 6⟩⟩⟩,
          ⟨.semicolon, ";", ⟨⟨6, 1, 6⟩, ⟨7, 1, 7⟩⟩⟩], .ended ⟨9, 1, 9⟩⟩ := by decide +kernel
    rw [Parser.parse_eq_answer, his]
    exact answer_unit rfl rfl rfl _
  have hv : (Parser.new.parse "unit b;").1 =
      .ok (.list [.unit [.identifier ⟨"b", ⟨⟨5, 1, 5⟩, ⟨6, 1, 6⟩⟩⟩]]) := by
    have his : itemsOf "unit b;" =
        ⟨[⟨.unitKw, "unit", ⟨⟨0, 1, 0⟩, ⟨4, 1, 4⟩⟩⟩, ⟨.identifier, "b", ⟨⟨5, 1, 5⟩, ⟨6, 1, 6⟩⟩⟩,
          ⟨.semicolon, ";", ⟨⟨6, 1, 6⟩, ⟨7, 1, 7⟩⟩⟩], .ended ⟨7, 1, 7⟩⟩ := by decide +kernel
    rw [Parser.parse_eq_answer, his]
    exact answer_unit rfl rfl rfl _
  have hdot : itemsOf "." = ⟨[⟨.dot, ".", ⟨⟨0, 1, 0⟩, ⟨1, 1, 1⟩⟩⟩], .ended ⟨1, 1, 1⟩⟩ := by
    decide +kernel
  have herror : (Parser.new.parse ".").1 = .error ⟨.unexpectedToken ".", ⟨0, 1, 0⟩⟩ := by
    rw [Parser.parse_eq_answer, hdot]
    exact answer_cons_of_none rfl
  have hfirst (stop : Position) : (itemsOf ".").toList.head? ≠ some (.ok (.endOfInput stop)) := by
    rw [hdot]
    nofun
  have hok := (parse_below Parser.new "unit a;//" "unit b;").1 _ _ hu hv
  have herror' := (parse_below Parser.new "unit a;//" ".").2 _ _ hu herror hfirst
  exact ⟨⟨hu, hv, hok⟩, herror, hfirst, herror'⟩

end UnitLang
