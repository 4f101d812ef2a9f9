/-
# Reading a program off its tokens

The parser builds trees from the bottom up, each action taking what it needs from the right.
What comes out can also be read off the tokens from the top down, without any grammar:

* cut the tokens behind every semicolon (`clausesOf`), and each piece is a clause, a unit or a
  list of imports according to the keyword that opens it (`Clause.ofTokens?`);
* the path of a unit is all the names of its clause;
* cut the tokens of a list of imports at every comma (`segmentsOf`), and each piece is one of
  them (`Using.ofTokens?`): its path is the names before the first backslash or `as`, its member
  the name behind the backslash, and it is known under the name behind the last `as`, or else
  under the member, or else under the last name of the path.

`Nonterminal.Means` says what this reading makes of the tokens of each nonterminal, and one case
for each production says that the actions make the same of them (`means_lhs`).  So the tree of a
parse is the tree of the program that is read.  No name is lost on the way, and none is moved:
those of all segments, in order, are the names among the tokens.
-/
import UnitLang.Program
import UnitLang.Proofs.Parser.Acceptance

namespace UnitLang

open Grammar

/-! ## 1. Names -/

/-- The identifier that a token spells. -/
def Token.identifier (t : Token) : Identifier := ⟨t.value, t.span⟩

/-- The names among the tokens. -/
def names (ts : List Token) : List Identifier :=
  (ts.filter (·.kind = .identifier)).map (·.identifier)

/-- The names right behind a token of this kind. -/
def namesBehind (k : Kind) : List Token → List Identifier
  | [] => []
  | t :: ts => if t.kind = k then names (ts.take 1) ++ namesBehind k ts else namesBehind k ts

section Names

variable {k : Kind} {t a b : Token} {ts us : List Token}

@[simp] theorem names_nil : names [] = [] := rfl

@[simp] theorem names_append (ts us : List Token) : names (ts ++ us) = names ts ++ names us := by
  simp [names]

@[simp] theorem names_cons_identifier (h : t.kind = .identifier) :
    names (t :: ts) = t.identifier :: names ts := by
  simp [names, h]

@[simp] theorem names_cons_other (h : t.kind ≠ .identifier) : names (t :: ts) = names ts := by
  simp [names, h]

theorem namesBehind_eq_nil (h : ∀ t ∈ ts, t.kind ≠ k) : namesBehind k ts = [] := by
  induction ts with
  | nil => rfl
  | cons t ts ih =>
    obtain ⟨ht, hts⟩ := List.forall_mem_cons.mp h
    rw [namesBehind, if_neg ht, ih hts]

/-- Where no name comes first, nothing is behind the last token. -/
theorem namesBehind_append (h : names (us.take 1) = []) :
    namesBehind k (ts ++ us) = namesBehind k ts ++ namesBehind k us := by
  induction ts with
  | nil => rfl
  | cons t ts ih =>
    have htake : names ((ts ++ us).take 1) = names (ts.take 1) := by
      cases ts with
      | nil => exact h
      | cons t' ts => rfl
    rw [List.cons_append, namesBehind, namesBehind, ih, htake]
    split <;> simp

/-- A mark and the name behind it. -/
theorem namesBehind_pair (ha : a.kind = k) (hb : b.kind = .identifier) :
    namesBehind k [a, b] = [b.identifier] := by
  simp [namesBehind, ha, hb]

end Names

/-! ## 2. The reading -/

/-- The tokens of each clause: those before each semicolon. -/
def clausesOf (ts : List Token) : List (List Token) :=
  (ts.splitOnP (·.kind = .semicolon)).dropLast

/-- The tokens of each import: those between the commas. -/
def segmentsOf (ts : List Token) : List (List Token) := ts.splitOnP (·.kind = .comma)

/-- The names of a segment before any backslash or `as`. -/
def pathNames (segment : List Token) : List Identifier :=
  names (segment.takeWhile fun t => t.kind ≠ .backslash ∧ t.kind ≠ .asKw)

/-- The name of a segment behind the backslash. -/
def memberName? (segment : List Token) : Option Identifier :=
  (namesBehind .backslash segment).head?

/-- The names of a segment behind each `as`. -/
def renamings (segment : List Token) : List Identifier := namesBehind .asKw segment

/-- All names of a segment, by their parts. -/
def segmentNames (segment : List Token) : List Identifier :=
  pathNames segment ++ (memberName? segment).toList ++ renamings segment

/-- The import that a segment says. -/
def Using.ofTokens? (segment : List Token) : Option Using := do
  let path := pathNames segment
  let member := memberName? segment
  let knownAs ← (renamings segment).getLast? <|> member <|> path.getLast?
  return ⟨path, member, knownAs⟩

/-- The clause that the tokens before a semicolon say. -/
def Clause.ofTokens? : List Token → Option Clause
  | [] => none
  | t :: ts =>
    match t.kind with
    | .unitKw => some (.unit (names ts))
    | .usesKw => do
      let imports ← (segmentsOf ts).mapM Using.ofTokens?
      return .uses imports
    | _ => none

/-- The program that the tokens say. -/
def Program.ofTokens? (ts : List Token) : Option Program := (clausesOf ts).mapM Clause.ofTokens?

/-! ## 3. A segment, part by part -/

section Segment

variable {ts : List Token} {a b : Token}

/-- The tokens of a path: names and dots. -/
def IsPath (ts : List Token) : Prop := ∀ t ∈ ts, t.kind = .identifier ∨ t.kind = .dot

theorem IsPath.kind_ne {k : Kind} (h : IsPath ts) (hk : k ≠ .identifier ∧ k ≠ .dot) :
    ∀ t ∈ ts, t.kind ≠ k := by
  rintro t ht rfl
  rcases h t ht with h | h
  · exact hk.1 h
  · exact hk.2 h

theorem IsPath.takeWhile_append (h : IsPath ts) (us : List Token) :
    (ts ++ us).takeWhile (fun t => t.kind ≠ .backslash ∧ t.kind ≠ .asKw) =
      ts ++ us.takeWhile (fun t => t.kind ≠ .backslash ∧ t.kind ≠ .asKw) := by
  refine List.takeWhile_append_of_pos fun t ht => ?_
  rcases h t ht with hk | hk <;> simp [hk]

/-- A path alone. -/
theorem IsPath.segment (h : IsPath ts) :
    pathNames ts = names ts ∧ memberName? ts = none ∧ renamings ts = [] := by
  refine ⟨?_, ?_, namesBehind_eq_nil (h.kind_ne (by decide))⟩
  · have htake := h.takeWhile_append []
    simp only [List.append_nil, List.takeWhile_nil] at htake
    rw [pathNames, htake]
  · rw [memberName?, namesBehind_eq_nil (h.kind_ne (by decide))]
    rfl

/-- A path and a member. -/
theorem IsPath.segment_member (h : IsPath ts) (ha : a.kind = .backslash)
    (hb : b.kind = .identifier) :
    pathNames (ts ++ [a, b]) = names ts ∧ memberName? (ts ++ [a, b]) = some b.identifier ∧
      renamings (ts ++ [a, b]) = [] := by
  have hmark : names ([a, b].take 1) = [] := names_cons_other (by simp [ha])
  refine ⟨?_, ?_, ?_⟩
  · rw [pathNames, h.takeWhile_append]
    simp [ha]
  · rw [memberName?, namesBehind_append hmark, namesBehind_eq_nil (h.kind_ne (by decide)),
      namesBehind_pair ha hb]
    rfl
  · rw [renamings, namesBehind_append hmark, namesBehind_eq_nil (h.kind_ne (by decide)),
      namesBehind_eq_nil (by simp [ha, hb])]
    rfl

/-- One more renaming. -/
theorem segment_rename (ts : List Token) (ha : a.kind = .asKw) (hb : b.kind = .identifier) :
    pathNames (ts ++ [a, b]) = pathNames ts ∧ memberName? (ts ++ [a, b]) = memberName? ts ∧
      renamings (ts ++ [a, b]) = renamings ts ++ [b.identifier] := by
  have hmark : names ([a, b].take 1) = [] := names_cons_other (by simp [ha])
  refine ⟨?_, ?_, ?_⟩
  · rw [pathNames, pathNames, List.takeWhile_append]
    split
    · rename_i hall
      rw [(List.takeWhile_prefix _).eq_of_length hall]
      simp [ha]
    · rfl
  · rw [memberName?, memberName?, namesBehind_append hmark]
    have hnil : namesBehind .backslash [a, b] = [] := namesBehind_eq_nil (by simp [ha, hb])
    rw [hnil, List.append_nil]
  · rw [renamings, renamings, namesBehind_append hmark, namesBehind_pair ha hb]

end Segment

/-! ## 4. What the tokens of a symbol mean -/

/-- The names of a clause, segment by segment. -/
def clauseNames (clause : List Token) : List Identifier :=
  (segmentsOf clause.tail).flatMap segmentNames

/-- What the reading makes of the tokens of each nonterminal, and that it finds all names in
them. -/
def Nonterminal.Means : Nonterminal → List Token → Node → Prop
  | ident, ts, n => ∃ t, ts = [t] ∧ t.kind = .identifier ∧ n = .identifier t.identifier
  | path, ts, n => IsPath ts ∧ names ts ≠ [] ∧ n = .list ((names ts).map .identifier)
  | imported, ts, n =>
    (∀ t ∈ ts, t.kind ≠ .comma ∧ t.kind ≠ .semicolon) ∧ names ts = segmentNames ts ∧
      ∃ u, Using.ofTokens? ts = some u ∧ n = u.toNode
  | importList, ts, n =>
    (∀ t ∈ ts, t.kind ≠ .semicolon) ∧ names ts = (segmentsOf ts).flatMap segmentNames ∧
      ∃ us, (segmentsOf ts).mapM Using.ofTokens? = some us ∧ n = .list (us.map Using.toNode)
  | unitDecl, ts, n | usesDecl, ts, n | clause, ts, n =>
    (∀ t ∈ ts, t.kind ≠ .semicolon) ∧ names ts = clauseNames ts ∧
      ∃ c, Clause.ofTokens? ts = some c ∧ n = c.toNode
  | program, ts, n | start, ts, n =>
    ∃ us t p, ts = us ++ [t] ∧ t.kind = .semicolon ∧
      names us = (us.splitOnP (·.kind = .semicolon)).flatMap clauseNames ∧
      (us.splitOnP (·.kind = .semicolon)).mapM Clause.ofTokens? = some p ∧
      n = Program.toNode p ∧ p.length = (ts.map (·.kind)).count .semicolon

/-- What a token or the tokens of a nonterminal mean. -/
def Symbol.Means : Symbol → List Token → Value → Prop
  | terminal k, ts, v => ∃ t, ts = [t] ∧ t.kind = k ∧ v = .lexeme t.lexeme
  | nonterminal A, ts, v => ∃ n, v = .node n ∧ A.Means ts n

/-- What the tokens of symbols mean, one behind the other. -/
def MeanAll : List Symbol → List Token → List Value → Prop
  | [], ts, vs => ts = [] ∧ vs = []
  | X :: Xs, ts, vs =>
    ∃ us ts' v vs', ts = us ++ ts' ∧ vs = v :: vs' ∧ X.Means us v ∧ MeanAll Xs ts' vs'

theorem mean_one {X : Symbol} {ts : List Token} {vs : List Value} (h : MeanAll [X] ts vs) :
    ∃ v, vs = [v] ∧ X.Means ts v := by
  obtain ⟨us, _, v, _, rfl, rfl, hX, rfl, rfl⟩ := h
  exact ⟨v, rfl, by simpa using hX⟩

theorem mean_two {X Y : Symbol} {ts : List Token} {vs : List Value} (h : MeanAll [X, Y] ts vs) :
    ∃ ts₁ ts₂ v w, ts = ts₁ ++ ts₂ ∧ vs = [v, w] ∧ X.Means ts₁ v ∧ Y.Means ts₂ w := by
  obtain ⟨ts₁, ts₂, v, _, rfl, rfl, hX, h⟩ := h
  obtain ⟨w, rfl, hY⟩ := mean_one h
  exact ⟨ts₁, ts₂, v, w, rfl, rfl, hX, hY⟩

theorem mean_three {X Y Z : Symbol} {ts : List Token} {vs : List Value}
    (h : MeanAll [X, Y, Z] ts vs) :
    ∃ ts₁ ts₂ ts₃ u v w, ts = ts₁ ++ (ts₂ ++ ts₃) ∧ vs = [u, v, w] ∧ X.Means ts₁ u ∧
      Y.Means ts₂ v ∧ Z.Means ts₃ w := by
  obtain ⟨ts₁, _, u, _, rfl, rfl, hX, h⟩ := h
  obtain ⟨ts₂, ts₃, v, w, rfl, rfl, hY, hZ⟩ := mean_two h
  exact ⟨ts₁, ts₂, ts₃, u, v, w, rfl, rfl, hX, hY, hZ⟩

/-! ## 5. The actions make what is read -/

section Productions

variable {ts us : List Token} {t b : Token} {n m : Node} {u : Using} {id : Identifier}

/-- A path is an import under its last name. -/
theorem IsPath.means_imported (h : IsPath ts) (hne : names ts ≠ []) :
    Nonterminal.imported.Means ts
      (Using.toNode ⟨names ts, none, (names ts).getLast hne⟩) := by
  obtain ⟨hpath, hmember, hrenamings⟩ := h.segment
  refine ⟨fun t ht => ⟨h.kind_ne (by decide) t ht, h.kind_ne (by decide) t ht⟩, ?_, _, ?_, rfl⟩
  · simp [segmentNames, hpath, hmember, hrenamings]
  · simp [Using.ofTokens?, hpath, hmember, hrenamings, List.getLast?_eq_some_getLast hne]

/-- A path and a member are an import under the member's name. -/
theorem IsPath.means_member (h : IsPath ts) (ht : t.kind = .backslash)
    (hb : b.kind = .identifier) :
    Nonterminal.imported.Means (ts ++ [t, b])
      (Using.toNode ⟨names ts, some b.identifier, b.identifier⟩) := by
  obtain ⟨hpath, hmember, hrenamings⟩ := h.segment_member ht hb
  refine ⟨?_, ?_, _, ?_, rfl⟩
  · refine List.forall_mem_append.mpr
      ⟨fun t ht => ⟨h.kind_ne (by decide) t ht, h.kind_ne (by decide) t ht⟩, ?_⟩
    simp [ht, hb]
  · simp [segmentNames, hpath, hmember, hrenamings, ht, hb]
  · simp [Using.ofTokens?, hpath, hmember, hrenamings]

/-- A renamed import has its parts, and the new name. -/
theorem means_rename (h : Nonterminal.imported.Means ts n) (ht : t.kind = .asKw)
    (hb : b.kind = .identifier) :
    ∃ u, n = Using.toNode u ∧ Nonterminal.imported.Means (ts ++ [t, b])
      (Using.toNode ⟨u.path, u.member, b.identifier⟩) := by
  obtain ⟨hkinds, hnames, u, hu, rfl⟩ := h
  obtain ⟨hpath, hmember, hrenamings⟩ := segment_rename ts ht hb
  refine ⟨u, rfl, ?_, ?_, _, ?_, rfl⟩
  · refine List.forall_mem_append.mpr ⟨hkinds, ?_⟩
    simp [ht, hb]
  · simp [hnames, segmentNames, hpath, hmember, hrenamings, ht, hb]
  · obtain ⟨knownAs, -, hu⟩ := Option.bind_eq_some_iff.mp hu
    cases hu
    simp [Using.ofTokens?, hpath, hmember, hrenamings]

/-- One import is a list of them. -/
theorem means_firstImport (h : Nonterminal.imported.Means ts n) :
    Nonterminal.importList.Means ts (.list [n]) := by
  obtain ⟨hkinds, hnames, u, hu, rfl⟩ := h
  have hsegments : segmentsOf ts = [ts] :=
    List.splitOnP_eq_singleton fun t ht => by simp [(hkinds t ht).1]
  refine ⟨fun t ht => (hkinds t ht).2, ?_, [u], ?_, rfl⟩
  · simp [hsegments, hnames]
  · simp [hsegments, hu]

/-- An import behind a comma is one more item of a list. -/
theorem means_nextImport {items : List Node} (h : Nonterminal.importList.Means ts (.list items))
    (ht : t.kind = .comma) (h' : Nonterminal.imported.Means us n) :
    Nonterminal.importList.Means (ts ++ ([t] ++ us)) (.list (items ++ [n])) := by
  obtain ⟨hkinds, hnames, is, his, hn⟩ := h
  obtain ⟨hkinds', hnames', u, hu, rfl⟩ := h'
  have hsegments : segmentsOf (ts ++ ([t] ++ us)) = segmentsOf ts ++ [us] := by
    have hus : segmentsOf us = [us] :=
      List.splitOnP_eq_singleton fun t ht => by simp [(hkinds' t ht).1]
    rw [← hus]
    exact List.splitOnP_append_cons ts us (by simp [ht])
  refine ⟨?_, ?_, is ++ [u], ?_, ?_⟩
  · refine List.forall_mem_append.mpr ⟨hkinds, List.forall_mem_append.mpr ⟨by simp [ht], ?_⟩⟩
    exact fun t ht => (hkinds' t ht).2
  · rw [hsegments]
    simp [hnames, hnames', ht]
  · rw [hsegments]
    simp [his, hu]
  · cases hn
    simp

/-- A keyword and a path are a unit clause. -/
theorem IsPath.means_unit (h : IsPath ts) (ht : t.kind = .unitKw) :
    Nonterminal.unitDecl.Means ([t] ++ ts) (.unit ((names ts).map .identifier)) := by
  have hcomma : ∀ t ∈ ts, t.kind ≠ .comma := h.kind_ne (by decide)
  have hsegments : segmentsOf ts = [ts] :=
    List.splitOnP_eq_singleton fun t ht => by simp [hcomma t ht]
  obtain ⟨hpath, hmember, hrenamings⟩ := h.segment
  refine ⟨?_, ?_, .unit (names ts), ?_, rfl⟩
  · exact List.forall_mem_append.mpr ⟨by simp [ht], h.kind_ne (by decide)⟩
  · simp [clauseNames, hsegments, segmentNames, hpath, hmember, hrenamings, ht]
  · simp [Clause.ofTokens?, ht]

/-- A keyword and a list of imports are a uses clause. -/
theorem means_uses {items : List Node} (h : Nonterminal.importList.Means ts (.list items))
    (ht : t.kind = .usesKw) : Nonterminal.usesDecl.Means ([t] ++ ts) (.uses items) := by
  obtain ⟨hkinds, hnames, us, hus, hn⟩ := h
  refine ⟨?_, ?_, .uses us, ?_, ?_⟩
  · exact List.forall_mem_append.mpr ⟨by simp [ht], hkinds⟩
  · simpa [clauseNames, ht] using hnames
  · simp [Clause.ofTokens?, ht, hus]
  · cases hn
    rfl

/-- A clause and its semicolon are a program. -/
theorem means_firstClause (h : Nonterminal.clause.Means ts n) (ht : t.kind = .semicolon) :
    Nonterminal.program.Means (ts ++ [t]) (.list [n]) := by
  obtain ⟨hkinds, hnames, c, hc, rfl⟩ := h
  have hclauses : ts.splitOnP (·.kind = .semicolon) = [ts] :=
    List.splitOnP_eq_singleton fun t ht => by simp [hkinds t ht]
  have hcount : (ts.map (·.kind)).count .semicolon = 0 :=
    List.count_eq_zero.mpr (by simpa using hkinds)
  refine ⟨ts, t, [c], rfl, ht, ?_, ?_, rfl, ?_⟩
  · simp [hclauses, hnames]
  · simp [hclauses, hc]
  · simp [hcount, ht]

/-- A clause and its semicolon behind a program are its last clause. -/
theorem means_nextClause {items : List Node} (h : Nonterminal.program.Means ts (.list items))
    (h' : Nonterminal.clause.Means us n) (ht : t.kind = .semicolon) :
    Nonterminal.program.Means (ts ++ (us ++ [t])) (.list (items ++ [n])) := by
  obtain ⟨ts, semicolon, p, rfl, hs, hnames, hp, hn, hlen⟩ := h
  obtain ⟨hkinds, hnames', c, hc, rfl⟩ := h'
  have hclauses : (ts ++ semicolon :: us).splitOnP (·.kind = .semicolon) =
      ts.splitOnP (·.kind = .semicolon) ++ [us] := by
    have hus : us.splitOnP (·.kind = .semicolon) = [us] :=
      List.splitOnP_eq_singleton fun t ht => by simp [hkinds t ht]
    rw [List.splitOnP_append_cons ts us (by simp [hs]), hus]
  have hcount : (us.map (·.kind)).count .semicolon = 0 :=
    List.count_eq_zero.mpr (by simpa using hkinds)
  refine ⟨ts ++ semicolon :: us, t, p ++ [c], by simp, ht, ?_, ?_, ?_, ?_⟩
  · simp [hclauses, hnames, hnames', hs]
  · simp [hclauses, hp, hc]
  · cases hn
    simp [Program.toNode]
  · simp [hlen, hcount, hs, ht]

end Productions

/-- **The actions make what is read.**  If the symbols of a right-hand side mean their values, the
left-hand side means the tree that the action makes of them. -/
theorem means_lhs {p : Production} {ts : List Token} {vs : List Value} {n : Node}
    (hp : p ∈ productions) (h : MeanAll p.rhs ts vs) (hrun : p.action.run vs = (.ok n, [])) :
    p.lhs.Means ts n := by
  simp only [productions, List.mem_cons, List.not_mem_nil, or_false] at hp
  rcases hp with rfl | rfl | rfl | rfl | rfl | rfl | rfl | rfl | rfl | rfl | rfl | rfl | rfl |
    rfl | rfl
  -- Start → Program
  · obtain ⟨_, rfl, m, rfl, hm⟩ := mean_one h
    cases hrun
    exact hm
  -- Program → Clause ;
  · obtain ⟨us, _, _, _, rfl, rfl, ⟨m, rfl, hm⟩, t, rfl, ht, rfl⟩ := mean_two h
    cases hrun
    exact means_firstClause hm ht
  -- Program → Program Clause ;
  · obtain ⟨_, _, _, _, _, _, rfl, rfl, ⟨_, rfl, hq⟩, ⟨m, rfl, hm⟩, t, rfl, ht, rfl⟩ :=
      mean_three h
    obtain ⟨us, s, q, rfl, hs, hnames, hread, rfl, hlen⟩ := hq
    cases hrun
    exact means_nextClause ⟨us, s, q, rfl, hs, hnames, hread, rfl, hlen⟩ hm ht
  -- Clause → UnitDecl
  · obtain ⟨_, rfl, m, rfl, hm⟩ := mean_one h
    cases hrun
    exact hm
  -- Clause → UsesDecl
  · obtain ⟨_, rfl, m, rfl, hm⟩ := mean_one h
    cases hrun
    exact hm
  -- Ident → IDENTIFIER
  · obtain ⟨_, rfl, t, rfl, ht, rfl⟩ := mean_one h
    cases hrun
    exact ⟨t, rfl, ht, rfl⟩
  -- Path → Ident
  · obtain ⟨_, rfl, _, rfl, t, rfl, ht, rfl⟩ := mean_one h
    cases hrun
    exact ⟨by simp [IsPath, ht], by simp [ht], by simp [ht]⟩
  -- Path → Path . Ident
  · obtain ⟨us, _, _, _, _, _, rfl, rfl, ⟨_, rfl, hpath, hne, rfl⟩, ⟨d, rfl, hd, rfl⟩, _, rfl,
      t, rfl, ht, rfl⟩ := mean_three h
    cases hrun
    refine ⟨?_, by simp [hne], by simp [hd, ht]⟩
    exact List.forall_mem_append.mpr ⟨hpath, by simp [hd, ht]⟩
  -- Import → Path
  · obtain ⟨_, rfl, _, rfl, hpath, hne, rfl⟩ := mean_one h
    rw [Action.run_wholePath (Import.ofPath?_map_identifier hne)] at hrun
    cases hrun
    exact hpath.means_imported hne
  -- Import → Path \ Ident
  · obtain ⟨us, _, _, _, _, _, rfl, rfl, ⟨_, rfl, hpath, hne, rfl⟩, ⟨b, rfl, hb, rfl⟩, _, rfl,
      t, rfl, ht, rfl⟩ := mean_three h
    cases hrun
    exact hpath.means_member hb ht
  -- Import → Import as Ident
  · obtain ⟨us, _, _, _, _, _, rfl, rfl, ⟨_, rfl, hm⟩, ⟨a, rfl, ha, rfl⟩, _, rfl, t, rfl, ht,
      rfl⟩ := mean_three h
    obtain ⟨u, rfl, hmeans⟩ := means_rename hm ha ht
    cases hrun
    exact hmeans
  -- UnitDecl → unit Path
  · obtain ⟨_, us, _, _, rfl, rfl, ⟨t, rfl, ht, rfl⟩, _, rfl, hpath, -, rfl⟩ := mean_two h
    cases hrun
    exact hpath.means_unit ht
  -- UsesDecl → uses ImportList
  · obtain ⟨_, us, _, _, rfl, rfl, ⟨t, rfl, ht, rfl⟩, _, rfl, hm⟩ := mean_two h
    obtain ⟨hkinds, hnames, is, his, rfl⟩ := hm
    cases hrun
    exact means_uses ⟨hkinds, hnames, is, his, rfl⟩ ht
  -- ImportList → Import
  · obtain ⟨_, rfl, m, rfl, hm⟩ := mean_one h
    cases hrun
    exact means_firstImport hm
  -- ImportList → ImportList , Import
  · obtain ⟨us, _, _, _, _, _, rfl, rfl, ⟨_, rfl, hlist⟩, ⟨c, rfl, hc, rfl⟩, m, rfl, hm⟩ :=
      mean_three h
    obtain ⟨hkinds, hnames, is, his, rfl⟩ := hlist
    cases hrun
    exact means_nextImport ⟨hkinds, hnames, is, his, rfl⟩ hc hm

/-- The values of symbols are what is read. -/
theorem Builds.meanAll {Xs : List Symbol} {ts : List Token} {vs : List Value}
    (h : Builds Xs ts vs) : MeanAll Xs ts vs := by
  induction h with
  | nil => exact ⟨rfl, rfl⟩
  | lexeme t _ ih => exact ⟨[t], _, _, _, rfl, rfl, ⟨t, rfl, rfl, rfl⟩, ih⟩
  | node hp _ hrun _ ihrhs ih =>
    exact ⟨_, _, _, _, rfl, rfl, ⟨_, rfl, means_lhs hp ihrhs hrun⟩, ih⟩

/-- There is one tree of a program. -/
theorem Builds.program_unique {ts : List Token} {n m : Node}
    (h : Builds [.nonterminal .program] ts [.node n])
    (h' : Builds [.nonterminal .program] ts [.node m]) : n = m := by
  obtain ⟨_, hv, _, rfl, us, t, p, rfl, -, -, hread, rfl, -⟩ := mean_one h.meanAll
  obtain ⟨_, hv', _, rfl, us', t', p', heq, -, -, hread', rfl, -⟩ := mean_one h'.meanAll
  cases hv
  cases hv'
  obtain ⟨rfl, -⟩ := List.append_inj' heq rfl
  cases hread.symm.trans hread'
  rfl

/-! ## 6. The tree of a parse -/

/-- The tokens of a program, cut behind each semicolon. -/
theorem clausesOf_append {us : List Token} {t : Token} (ht : t.kind = .semicolon) :
    clausesOf (us ++ [t]) = us.splitOnP (·.kind = .semicolon) := by
  rw [clausesOf, List.splitOnP_append_cons us [] (by simp [ht]), List.splitOnP_nil,
    List.dropLast_concat]

/-- A parse succeeds just with the tree that is built of all tokens. -/
theorem Parser.parse_eq_ok_iff {p : Parser} {source : String} {n : Node} :
    (p.parse source).1 = .ok n ↔
      ∃ ts stop, itemsOf source = ⟨ts, .ended stop⟩ ∧
        Builds [.nonterminal .program] ts [.node n] := by
  have hkinds := kind_ne_endOfInput_of_mem_itemsOf source
  rw [parse_eq_answer]
  constructor
  · intro h
    obtain ⟨⟨stop, hstop⟩, hb⟩ := ParseStack.holds_empty.answer_ok hkinds h
    exact ⟨(itemsOf source).tokens, stop, by rw [← hstop], hb⟩
  · rintro ⟨ts, stop, his, hb⟩
    rw [his] at hkinds ⊢
    obtain ⟨m, hm⟩ :=
      exists_answer_of_isSentence stop (derivesAll_singleton_iff.mp hb.derivesAll)
    rw [hm, hb.program_unique (ParseStack.holds_empty.answer_ok hkinds hm).2]

/-- What a parse succeeds with is read off the tokens. -/
theorem exists_ofTokens_of_answer {ts : List Token} {e : Ending} {n : Node}
    (hts : ∀ t ∈ ts, t.kind ≠ .endOfInput) (h : answer ts e .empty = .ok n) :
    ∃ program, Program.ofTokens? ts = some program ∧ n = Program.toNode program ∧
      program.length = (ts.map (·.kind)).count .semicolon ∧
      names ts = (clausesOf ts).flatMap clauseNames := by
  obtain ⟨-, hb⟩ := ParseStack.holds_empty.answer_ok hts h
  obtain ⟨_, hv, m, rfl, hm⟩ := mean_one hb.meanAll
  cases hv
  obtain ⟨us, t, program, htoks, ht, hnames, hread, rfl, hlen⟩ := hm
  rw [List.nil_append] at htoks
  subst htoks
  refine ⟨program, ?_, rfl, hlen, ?_⟩
  · rw [Program.ofTokens?, clausesOf_append ht, hread]
  · simp [clausesOf_append ht, hnames, ht]

/-- **The tree of a parse is read off the tokens.**  A parse succeeds with a tree just when the
tokens are a sentence and say the program of this tree.  It has a clause for each semicolon, and
the names of all segments, in order, are the names among the tokens. -/
theorem parse_ok_iff_ofTokens (p : Parser) (source : String) (n : Node) :
    (p.parse source).1 = .ok n ↔
      ∃ ts stop program, tokenize source = .ok (ts ++ [Token.endOfInput stop]) ∧
        IsSentence (ts.map (·.kind)) ∧ Program.ofTokens? ts = some program ∧
        n = Program.toNode program ∧
        program.length = (ts.map (·.kind)).count .semicolon ∧
        names ts = (clausesOf ts).flatMap clauseNames := by
  have hkinds := kind_ne_endOfInput_of_mem_itemsOf source
  rw [Parser.parse_eq_answer]
  constructor
  · intro h
    obtain ⟨⟨stop, hstop⟩, hsentence⟩ := (exists_answer_ok_iff hkinds).mp ⟨n, h⟩
    obtain ⟨program, hread⟩ := exists_ofTokens_of_answer hkinds h
    exact ⟨_, stop, program, tokenize_eq_ok_iff.mpr ⟨_, stop, by rw [← hstop], rfl⟩, hsentence,
      hread⟩
  · rintro ⟨ts, stop, program, htok, hsentence, hread, rfl, -⟩
    obtain ⟨ts', stop', his, heq⟩ := tokenize_eq_ok_iff.mp htok
    obtain ⟨rfl, -⟩ := List.append_inj' heq rfl
    rw [his] at hkinds ⊢
    obtain ⟨m, hm⟩ := exists_answer_of_isSentence stop' hsentence
    obtain ⟨program', hread', rfl, -⟩ := exists_ofTokens_of_answer hkinds hm
    cases hread.symm.trans hread'
    exact hm

/-- The last `as` counts, and the member is kept. -/
example : (Program.ofTokens? (itemsOf "uses a.b\\c as d as e, f;").tokens).map Program.text =
    some "uses a.b\\c as e, f;\n" := by decide +kernel

end UnitLang
