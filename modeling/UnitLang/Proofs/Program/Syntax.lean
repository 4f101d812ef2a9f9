/-
# How programs are spelled

The grammar builds trees out of symbols.  Here the same language is written once more with the
types of programs: how tokens spell a path, an import, a clause and a program (`SpellsPath`,
`SpellsUsing`, `SpellsClause`, `SpellsProgram`).  Lists grow at their end, as the grammar's do, and
an import that is renamed keeps its path and its member.

`builds_program_iff` says that this is all: the trees that are built of tokens are the trees of
the programs that the tokens spell.  What holds of parsed trees can so be shown by induction on
the spelling, with no tree of another form to think of, and to build a tree it is enough to spell
its program.
-/
import UnitLang.Proofs.Grammar.Clauses
import UnitLang.Proofs.Grammar.Making
import UnitLang.Proofs.Program.Reading

namespace UnitLang

open Grammar

/-! ## 1. Spelling -/

/-- The tokens spell a path: names, with a dot before each but the first. -/
inductive SpellsPath : List Token → List Identifier → Prop where
  | name {t : Token} : t.kind = .identifier → SpellsPath [t] [t.identifier]
  | dot {ts : List Token} {ids : List Identifier} {d t : Token} :
      SpellsPath ts ids → d.kind = .dot → t.kind = .identifier →
      SpellsPath (ts ++ [d, t]) (ids ++ [t.identifier])

/-- The tokens spell an import: a path, known under its last name, or a path and a member, known
under the member's name, or another import and the name under which it is known instead. -/
inductive SpellsUsing : List Token → Using → Prop where
  | path {ts : List Token} {ids : List Identifier} {last : Identifier} :
      SpellsPath ts ids → ids.getLast? = some last → SpellsUsing ts ⟨ids, none, last⟩
  | member {ts : List Token} {ids : List Identifier} {b t : Token} :
      SpellsPath ts ids → b.kind = .backslash → t.kind = .identifier →
      SpellsUsing (ts ++ [b, t]) ⟨ids, some t.identifier, t.identifier⟩
  | rename {ts : List Token} {u : Using} {a t : Token} :
      SpellsUsing ts u → a.kind = .asKw → t.kind = .identifier →
      SpellsUsing (ts ++ [a, t]) { u with knownAs := t.identifier }

/-- The tokens spell imports, with a comma before each but the first. -/
inductive SpellsUsings : List Token → List Using → Prop where
  | one {ts : List Token} {u : Using} : SpellsUsing ts u → SpellsUsings ts [u]
  | comma {ts us : List Token} {is : List Using} {c : Token} {u : Using} :
      SpellsUsings ts is → c.kind = .comma → SpellsUsing us u →
      SpellsUsings (ts ++ c :: us) (is ++ [u])

/-- The tokens spell a clause: its keyword, and a path or imports. -/
inductive SpellsClause : List Token → Clause → Prop where
  | unit {ts : List Token} {ids : List Identifier} {k : Token} :
      k.kind = .unitKw → SpellsPath ts ids → SpellsClause (k :: ts) (.unit ids)
  | uses {ts : List Token} {is : List Using} {k : Token} :
      k.kind = .usesKw → SpellsUsings ts is → SpellsClause (k :: ts) (.uses is)

/-- The tokens spell a program: clauses, with a semicolon behind each. -/
inductive SpellsProgram : List Token → Program → Prop where
  | one {ts : List Token} {c : Clause} {s : Token} :
      SpellsClause ts c → s.kind = .semicolon → SpellsProgram (ts ++ [s]) [c]
  | next {ts us : List Token} {p : Program} {c : Clause} {s : Token} :
      SpellsProgram ts p → SpellsClause us c → s.kind = .semicolon →
      SpellsProgram (ts ++ (us ++ [s])) (p ++ [c])

/-! ## 2. Piece by piece -/

/-- The symbols stand for the tokens, one behind the other, and carry the values; what is built of
the tokens of a nonterminal is as `M` says. -/
def MadeOf (M : Nonterminal → List Token → Node → Prop) :
    List Symbol → List Token → List Value → Prop
  | [], ts, vs => ts = [] ∧ vs = []
  | .terminal k :: Xs, ts, vs =>
    ∃ t us ws, ts = t :: us ∧ vs = .lexeme t.lexeme :: ws ∧ t.kind = k ∧ MadeOf M Xs us ws
  | .nonterminal A :: Xs, ts, vs =>
    ∃ us us' n ws, ts = us ++ us' ∧ vs = .node n :: ws ∧ M A us n ∧ MadeOf M Xs us' ws

/-- What every action keeps, from the pieces of its right-hand side to its left-hand side, holds
of all that is built. -/
theorem Builds.madeOf {M : Nonterminal → List Token → Node → Prop} {Xs : List Symbol}
    {ts : List Token} {vs : List Value}
    (hM : ∀ p ∈ productions, ∀ us ws n, MadeOf M p.rhs us ws → p.action.Makes ws n →
      M p.lhs us n) (h : Builds Xs ts vs) : MadeOf M Xs ts vs := by
  induction h with
  | nil => exact ⟨rfl, rfl⟩
  | lexeme t _ ih => exact ⟨t, _, _, rfl, rfl, rfl, ih⟩
  | node hp _ hrun _ ihrhs ih =>
    exact ⟨_, _, _, _, rfl, rfl, hM _ hp _ _ _ ihrhs (Action.run_eq_ok_iff.mp hrun), ih⟩

/-- What the tokens of a nonterminal spell, and its tree. -/
def Nonterminal.Spells : Nonterminal → List Token → Node → Prop
  | ident, ts, n => ∃ t, ts = [t] ∧ t.kind = .identifier ∧ n = .identifier t.identifier
  | path, ts, n => ∃ ids, SpellsPath ts ids ∧ n = .list (ids.map .identifier)
  | imported, ts, n => ∃ u, SpellsUsing ts u ∧ n = u.toNode
  | importList, ts, n => ∃ is, SpellsUsings ts is ∧ n = .list (is.map Using.toNode)
  | unitDecl, ts, n | usesDecl, ts, n | clause, ts, n => ∃ c, SpellsClause ts c ∧ n = c.toNode
  | program, ts, n | start, ts, n => ∃ p, SpellsProgram ts p ∧ n = Program.toNode p

/-! ## 3. What is built is spelled -/

theorem SpellsPath.ne_nil {ts : List Token} {ids : List Identifier} (h : SpellsPath ts ids) :
    ids ≠ [] := by
  cases h with
  | name => exact List.cons_ne_nil _ _
  | dot => exact List.append_ne_nil_of_right_ne_nil _ (List.cons_ne_nil _ _)

/-- What an action makes of what the right-hand side of a production spells, the left-hand side
spells. -/
theorem spells_lhs {p : Production} {us : List Token} {ws : List Value} {n : Node}
    (hp : p ∈ productions) (h : MadeOf Nonterminal.Spells p.rhs us ws)
    (hmakes : p.action.Makes ws n) : p.lhs.Spells us n := by
  simp only [productions, List.mem_cons, List.not_mem_nil, or_false] at hp
  rcases hp with rfl | rfl | rfl | rfl | rfl | rfl | rfl | rfl | rfl | rfl | rfl | rfl | rfl |
    rfl | rfl
  -- Start → Program
  · obtain ⟨us, _, _, _, rfl, rfl, hprogram, rfl, rfl⟩ := h
    cases hmakes
    rwa [List.append_nil]
  -- Program → Clause ;
  · obtain ⟨us, _, _, _, rfl, rfl, ⟨c, hclause, rfl⟩, s, _, _, rfl, rfl, hs, rfl, rfl⟩ := h
    cases hmakes
    exact ⟨[c], .one hclause hs, rfl⟩
  -- Program → Program Clause ;
  · obtain ⟨ts, _, _, _, rfl, rfl, ⟨p, hprogram, rfl⟩, us, _, _, _, rfl, rfl,
      ⟨c, hclause, rfl⟩, s, _, _, rfl, rfl, hs, rfl, rfl⟩ := h
    cases hmakes
    exact ⟨p ++ [c], hprogram.next hclause hs, by simp [Program.toNode]⟩
  -- Clause → UnitDecl
  · obtain ⟨us, _, _, _, rfl, rfl, hclause, rfl, rfl⟩ := h
    cases hmakes
    rwa [List.append_nil]
  -- Clause → UsesDecl
  · obtain ⟨us, _, _, _, rfl, rfl, hclause, rfl, rfl⟩ := h
    cases hmakes
    rwa [List.append_nil]
  -- Ident → IDENTIFIER
  · obtain ⟨t, _, _, rfl, rfl, ht, rfl, rfl⟩ := h
    cases hmakes
    exact ⟨t, rfl, ht, rfl⟩
  -- Path → Ident
  · obtain ⟨_, _, _, _, rfl, rfl, ⟨t, rfl, ht, rfl⟩, rfl, rfl⟩ := h
    cases hmakes
    exact ⟨_, .name ht, rfl⟩
  -- Path → Path . Ident
  · obtain ⟨us, _, _, _, rfl, rfl, ⟨ids, hpath, rfl⟩, d, _, _, rfl, rfl, hd, _, _, _, _, rfl, rfl,
      ⟨t, rfl, ht, rfl⟩, rfl, rfl⟩ := h
    cases hmakes
    exact ⟨_, hpath.dot hd ht, by simp⟩
  -- Import → Path
  · obtain ⟨us, _, _, _, rfl, rfl, ⟨ids, hpath, rfl⟩, rfl, rfl⟩ := h
    cases hmakes with
    | wholePath hlast =>
      rw [List.append_nil]
      cases hlast.symm.trans (Import.ofPath?_map_identifier hpath.ne_nil)
      exact ⟨_, .path hpath (List.getLast?_eq_some_getLast hpath.ne_nil), rfl⟩
  -- Import → Path \ Ident
  · obtain ⟨us, _, _, _, rfl, rfl, ⟨ids, hpath, rfl⟩, b, _, _, rfl, rfl, hb, _, _, _, _, rfl, rfl,
      ⟨t, rfl, ht, rfl⟩, rfl, rfl⟩ := h
    cases hmakes
    exact ⟨_, .member hpath hb ht, rfl⟩
  -- Import → Import as Ident
  · obtain ⟨us, _, _, _, rfl, rfl, ⟨u, husing, hn⟩, a, _, _, rfl, rfl, ha, _, _, _, _, rfl, rfl,
      ⟨t, rfl, ht, rfl⟩, rfl, rfl⟩ := h
    cases hmakes with
    | @rename i =>
      obtain ⟨_, _, _⟩ := i
      cases hn
      exact ⟨_, husing.rename ha ht, rfl⟩
  -- UnitDecl → unit Path
  · obtain ⟨k, _, _, rfl, rfl, hk, us, _, _, _, rfl, rfl, ⟨ids, hpath, rfl⟩, rfl, rfl⟩ := h
    cases hmakes
    rw [List.append_nil]
    exact ⟨_, .unit hk hpath, rfl⟩
  -- UsesDecl → uses ImportList
  · obtain ⟨k, _, _, rfl, rfl, hk, us, _, _, _, rfl, rfl, ⟨is, husings, rfl⟩, rfl, rfl⟩ := h
    cases hmakes
    rw [List.append_nil]
    exact ⟨_, .uses hk husings, rfl⟩
  -- ImportList → Import
  · obtain ⟨us, _, _, _, rfl, rfl, ⟨u, husing, rfl⟩, rfl, rfl⟩ := h
    cases hmakes
    rw [List.append_nil]
    exact ⟨[u], .one husing, rfl⟩
  -- ImportList → ImportList , Import
  · obtain ⟨ts, _, _, _, rfl, rfl, ⟨is, husings, rfl⟩, c, _, _, rfl, rfl, hc, us, _, _, _, rfl,
      rfl, ⟨u, husing, rfl⟩, rfl, rfl⟩ := h
    cases hmakes
    rw [List.append_nil]
    exact ⟨_, husings.comma hc husing, by simp⟩

/-! ## 4. What is spelled is built -/

section Spelled

variable {ts us : List Token} {t : Token} {k : Kind} {ids : List Identifier} {u : Using}
  {is : List Using} {c : Clause} {p : Program} {Xs : List Symbol} {vs : List Value} {n : Node}

/-- What an action makes of what is built, is built. -/
theorem Builds.of_makes {q : Production} (hq : q ∈ productions) (h : Builds q.rhs ts vs)
    (hmakes : q.action.Makes vs n) : Builds [.nonterminal q.lhs] ts [.node n] :=
  .singleton_node hq h (Action.run_eq_ok_iff.mpr hmakes)

theorem Builds.of_kind (ht : t.kind = k) : Builds [.terminal k] [t] [.lexeme t.lexeme] := by
  rw [← ht]
  exact .singleton_lexeme t

theorem Builds.of_identifier (ht : t.kind = .identifier) :
    Builds [.nonterminal .ident] [t] [.node (.identifier t.identifier)] :=
  .of_makes (q := ⟨.ident, [.terminal .identifier], .name⟩) (by decide) (.of_kind ht) .name

theorem SpellsPath.builds (h : SpellsPath ts ids) :
    Builds [.nonterminal .path] ts [.node (.list (ids.map .identifier))] := by
  induction h with
  | name ht =>
    exact .of_makes (q := ⟨.path, [.nonterminal .ident], .firstItem⟩) (by decide)
      (.of_identifier ht) .firstItem
  | dot _ hd ht ih =>
    rw [List.map_append]
    exact .of_makes
      (q := ⟨.path, [.nonterminal .path, .terminal .dot, .nonterminal .ident], .nextItem⟩)
      (by decide) (ih.append ((Builds.of_kind hd).append (.of_identifier ht))) .nextItem

theorem SpellsUsing.builds (h : SpellsUsing ts u) :
    Builds [.nonterminal .imported] ts [.node u.toNode] := by
  induction h with
  | @path ts ids last hpath hlast =>
    have hi : Import.ofPath? (ids.map .identifier) = some ⟨ids.map .identifier, none, last⟩ := by
      obtain ⟨front, rfl⟩ := List.getLast?_eq_some_iff.mp hlast
      exact Import.ofPath?_eq_some_iff.mpr ⟨front.map .identifier, last, by simp, rfl⟩
    exact .of_makes (q := ⟨.imported, [.nonterminal .path], .wholePath⟩) (by decide)
      hpath.builds (.wholePath hi)
  | member hpath hb ht =>
    exact .of_makes
      (q := ⟨.imported, [.nonterminal .path, .terminal .backslash, .nonterminal .ident], .member⟩)
      (by decide) (hpath.builds.append ((Builds.of_kind hb).append (.of_identifier ht))) .member
  | @rename ts u a t _ ha ht ih =>
    exact .of_makes
      (q := ⟨.imported, [.nonterminal .imported, .terminal .asKw, .nonterminal .ident], .rename⟩)
      (by decide) (ih.append ((Builds.of_kind ha).append (.of_identifier ht)))
      (.rename (i := ⟨u.path.map .identifier, u.member, u.knownAs⟩))

theorem SpellsUsings.builds (h : SpellsUsings ts is) :
    Builds [.nonterminal .importList] ts [.node (.list (is.map Using.toNode))] := by
  induction h with
  | one husing =>
    exact .of_makes (q := ⟨.importList, [.nonterminal .imported], .firstItem⟩) (by decide)
      husing.builds .firstItem
  | comma _ hc husing ih =>
    rw [List.map_append]
    exact .of_makes
      (q := ⟨.importList, [.nonterminal .importList, .terminal .comma, .nonterminal .imported],
        .nextItem⟩)
      (by decide) (ih.append ((Builds.of_kind hc).append husing.builds)) .nextItem

theorem SpellsClause.builds (h : SpellsClause ts c) :
    Builds [.nonterminal .clause] ts [.node c.toNode] := by
  cases h with
  | unit hk hpath =>
    refine .of_makes (q := ⟨.clause, [.nonterminal .unitDecl], .keep⟩) (by decide) ?_ .keep
    exact .of_makes (q := ⟨.unitDecl, [.terminal .unitKw, .nonterminal .path], .unit⟩)
      (by decide) ((Builds.of_kind hk).append hpath.builds) .unit
  | uses hk husings =>
    refine .of_makes (q := ⟨.clause, [.nonterminal .usesDecl], .keep⟩) (by decide) ?_ .keep
    exact .of_makes (q := ⟨.usesDecl, [.terminal .usesKw, .nonterminal .importList], .uses⟩)
      (by decide) ((Builds.of_kind hk).append husings.builds) .uses

theorem SpellsProgram.builds (h : SpellsProgram ts p) :
    Builds [.nonterminal .program] ts [.node (Program.toNode p)] := by
  induction h with
  | one hclause hs =>
    exact .of_makes (q := firstClause) firstClause_mem (hclause.builds.append (.of_kind hs))
      .firstClause
  | next _ hclause hs ih =>
    rw [Program.toNode, List.map_append]
    exact .of_makes (q := nextClause) nextClause_mem
      (ih.append (hclause.builds.append (.of_kind hs))) .nextClause

/-- **The trees that are built are those of the programs that are spelled.** -/
theorem builds_program_iff :
    Builds [.nonterminal .program] ts [.node n] ↔
      ∃ p, SpellsProgram ts p ∧ n = Program.toNode p := by
  constructor
  · intro h
    obtain ⟨us, _, _, _, rfl, hv, hprogram, rfl, -⟩ :=
      h.madeOf (M := Nonterminal.Spells) fun _ hp _ _ _ => spells_lhs hp
    cases hv
    rwa [List.append_nil]
  · rintro ⟨p, hp, rfl⟩
    exact hp.builds

end Spelled

end UnitLang
