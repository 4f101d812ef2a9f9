/-
# Where a program comes from

The tree of a parse is that of a well-formed program, and its names are in the source.  No list in
it is empty or holds anything but what is looked for there (`Node.Complete`), so the operations
that skip items skip none.  Every identifier is a name of the language and is the slice of the
source between its offsets.

An import has its own name written only where it is renamed: otherwise the name is the member or
the last name of the path once more, at the same place.  So the names of a program are in the
source as often as they are written (`Program.written`), from the left to the right, and no two
overlap.
-/
import UnitLang.Proofs.Program.Syntax
import UnitLang.Proofs.Token.Lossless

namespace UnitLang

/-! ## 1. What is written -/

/-- The names of an import that are written: its path, its member, and the name under which it is
known, unless that is the one it has by default. -/
def Using.written (u : Using) : List Identifier :=
  u.path ++ u.member.toList ++ if u.defaultName? = some u.knownAs then [] else [u.knownAs]

/-- The names of a clause that are written. -/
def Clause.written : Clause → List Identifier
  | unit path => path
  | uses imports => imports.flatMap Using.written

/-- The imports of a clause. -/
def Clause.usings : Clause → List Using
  | unit _ => []
  | uses imports => imports

/-- The names of a program that are written, from the left to the right. -/
def Program.written (p : Program) : List Identifier := p.flatMap Clause.written

/-- The imports of a program. -/
def Program.usings (p : Program) : List Using := p.flatMap Clause.usings

section Written

variable {u : Using} {c : Clause} {p : Program} {id : Identifier}

/-- The default name of an import is written already. -/
theorem Using.mem_of_defaultName? (h : u.defaultName? = some id) :
    id ∈ u.path ++ u.member.toList := by
  rw [defaultName?] at h
  cases hm : u.member with
  | none =>
    rw [hm] at h
    exact List.mem_append_left _ (List.mem_of_getLast? h)
  | some m =>
    rw [hm] at h
    cases h
    exact List.mem_append_right _ List.mem_cons_self

theorem Using.knownAs_mem_written (u : Using) : u.knownAs ∈ u.written := by
  rw [written]
  by_cases h : u.defaultName? = some u.knownAs
  · exact List.mem_append_left _ (mem_of_defaultName? h)
  · rw [if_neg h]
    exact List.mem_append_right _ List.mem_cons_self

theorem Using.written_of_eq (h : u.defaultName? = some u.knownAs) :
    u.written = u.path ++ u.member.toList := by
  rw [written, if_pos h, List.append_nil]

theorem Node.identifiersOfAll_map_identifier (ids : List Identifier) :
    identifiersOfAll (ids.map .identifier) = ids := by
  induction ids with
  | nil => rfl
  | cons id ids ih => simp [ih]

theorem Node.mem_identifiersOfAll_iff {ns : List Node} :
    id ∈ identifiersOfAll ns ↔ ∃ n ∈ ns, id ∈ n.allIdentifiers := by
  induction ns with
  | nil => simp
  | cons n ns ih => simp [ih]

/-- All identifiers of the tree are written. -/
theorem Using.mem_written (h : id ∈ u.toNode.allIdentifiers) : id ∈ u.written := by
  rw [toNode, Node.allIdentifiers, Node.identifiersOfAll_map_identifier] at h
  rcases List.mem_append.mp h with h | h
  · exact List.mem_append_left _ h
  · rw [List.mem_singleton.mp h]
    exact u.knownAs_mem_written

theorem Clause.mem_written (h : id ∈ c.toNode.allIdentifiers) : id ∈ c.written := by
  cases c with
  | unit path =>
    rwa [toNode, Node.allIdentifiers, Node.identifiersOfAll_map_identifier] at h
  | uses imports =>
    rw [toNode, Node.allIdentifiers, Node.mem_identifiersOfAll_iff] at h
    obtain ⟨n, hn, hid⟩ := h
    obtain ⟨u, hu, rfl⟩ := List.mem_map.mp hn
    exact List.mem_flatMap.mpr ⟨u, hu, Using.mem_written hid⟩

theorem Program.mem_written (h : id ∈ (Program.toNode p).allIdentifiers) :
    id ∈ Program.written p := by
  rw [toNode, Node.allIdentifiers, Node.mem_identifiersOfAll_iff] at h
  obtain ⟨n, hn, hid⟩ := h
  obtain ⟨c, hc, rfl⟩ := List.mem_map.mp hn
  exact List.mem_flatMap.mpr ⟨c, hc, Clause.mem_written hid⟩

theorem sublist_flatMap_of_mem {α β : Type} {f : α → List β} {a : α} {l : List α} (h : a ∈ l) :
    (f a).Sublist (l.flatMap f) := by
  obtain ⟨before, after, rfl⟩ := List.append_of_mem h
  rw [List.flatMap_append, List.flatMap_cons]
  exact (List.sublist_append_left _ _).trans (List.sublist_append_right _ _)

/-- What is written of an import is written of the program. -/
theorem Program.written_sublist (h : u ∈ Program.usings p) :
    u.written.Sublist (Program.written p) := by
  obtain ⟨c, hc, hu⟩ := List.mem_flatMap.mp h
  cases c with
  | unit path => cases hu
  | uses imports =>
    exact (sublist_flatMap_of_mem (f := Using.written) hu).trans
      (sublist_flatMap_of_mem (f := Clause.written) hc)

end Written

/-! ## 2. What is spelled is written -/

section Spelled

variable {ts : List Token} {ids : List Identifier} {u : Using} {is : List Using} {c : Clause}
  {p : Program}

theorem SpellsPath.names_eq (h : SpellsPath ts ids) : names ts = ids := by
  induction h with
  | name ht => simp [ht]
  | dot _ hd ht ih => simp [ih, hd, ht]

/-- The path and the member of an import are among the names, also when it is renamed. -/
theorem SpellsUsing.parts_sublist (h : SpellsUsing ts u) :
    (u.path ++ u.member.toList).Sublist (names ts) := by
  induction h with
  | path hpath _ =>
    rw [hpath.names_eq]
    simp
  | member hpath hb ht => simp [hpath.names_eq, hb, ht]
  | rename _ ha ht ih =>
    rw [names_append]
    exact ih.trans (List.sublist_append_left _ _)

/-- The names of an import are written in order.  A name that another has replaced is among the
names, but not in the import. -/
theorem SpellsUsing.written_sublist (h : SpellsUsing ts u) : u.written.Sublist (names ts) := by
  have hparts := h.parts_sublist
  cases h with
  | @path ts ids last _ hlast =>
    have hdefault : (⟨ids, none, last⟩ : Using).defaultName? = some last := hlast
    rwa [Using.written_of_eq hdefault]
  | member => rwa [Using.written_of_eq rfl]
  | @rename ts u a t husing ha ht =>
    have hname : names [a, t] = [t.identifier] := by simp [ha, ht]
    rw [names_append, hname]
    refine husing.parts_sublist.append ?_
    split
    · exact List.nil_sublist _
    · exact List.Sublist.refl _

theorem SpellsUsings.written_sublist (h : SpellsUsings ts is) :
    (is.flatMap Using.written).Sublist (names ts) := by
  induction h with
  | one husing => simpa using husing.written_sublist
  | comma _ hc husing ih =>
    rw [List.flatMap_append, names_append, names_cons_other (by simp [hc])]
    exact ih.append (by simpa using husing.written_sublist)

theorem SpellsClause.written_sublist (h : SpellsClause ts c) : c.written.Sublist (names ts) := by
  cases h with
  | unit hk hpath =>
    rw [names_cons_other (by simp [hk]), hpath.names_eq, Clause.written]
  | uses hk husings =>
    rw [names_cons_other (by simp [hk])]
    exact husings.written_sublist

/-- **The names of a program are written in order**, from the left to the right. -/
theorem SpellsProgram.written_sublist (h : SpellsProgram ts p) :
    (Program.written p).Sublist (names ts) := by
  induction h with
  | one hclause hs =>
    rw [names_append, Program.written, List.flatMap_singleton]
    exact hclause.written_sublist.trans (List.sublist_append_left _ _)
  | next _ hclause hs ih =>
    rw [Program.written, List.flatMap_append, List.flatMap_singleton, names_append, names_append]
    exact ih.append (hclause.written_sublist.trans (List.sublist_append_left _ _))

/-! ## 3. What is spelled is well formed -/

theorem SpellsUsing.wellFormed (h : SpellsUsing ts u) (hnames : ∀ id ∈ names ts, IsName id.name) :
    u.WellFormed := by
  induction h with
  | path hpath hlast =>
    rw [hpath.names_eq] at hnames
    exact ⟨hpath.ne_nil, hnames, fun _ hm => (Option.not_mem_none _ hm).elim,
      hnames _ (List.mem_of_getLast? hlast)⟩
  | @member ts ids b t hpath hb ht =>
    have heq : names (ts ++ [b, t]) = ids ++ [t.identifier] := by simp [hpath.names_eq, hb, ht]
    rw [heq] at hnames
    obtain ⟨hids, hmember⟩ := List.forall_mem_append.mp hnames
    have ht' := List.forall_mem_singleton.mp hmember
    refine ⟨hpath.ne_nil, hids, ?_, ht'⟩
    intro m hm
    cases hm
    exact ht'
  | @rename ts u a t _ ha ht ih =>
    have heq : names (ts ++ [a, t]) = names ts ++ [t.identifier] := by simp [ha, ht]
    rw [heq] at hnames
    obtain ⟨hold, hnew⟩ := List.forall_mem_append.mp hnames
    obtain ⟨hne, hpath, hmember, -⟩ := ih hold
    exact ⟨hne, hpath, hmember, hnew _ List.mem_cons_self⟩

theorem SpellsUsings.wellFormed (h : SpellsUsings ts is)
    (hnames : ∀ id ∈ names ts, IsName id.name) : is ≠ [] ∧ ∀ u ∈ is, u.WellFormed := by
  induction h with
  | one husing =>
    exact ⟨List.cons_ne_nil _ _, List.forall_mem_singleton.mpr (husing.wellFormed hnames)⟩
  | comma _ hc husing ih =>
    rw [names_append, names_cons_other (by simp [hc])] at hnames
    obtain ⟨hold, hnew⟩ := List.forall_mem_append.mp hnames
    refine ⟨List.append_ne_nil_of_right_ne_nil _ (List.cons_ne_nil _ _), ?_⟩
    exact List.forall_mem_append.mpr
      ⟨(ih hold).2, List.forall_mem_singleton.mpr (husing.wellFormed hnew)⟩

theorem SpellsClause.wellFormed (h : SpellsClause ts c)
    (hnames : ∀ id ∈ names ts, IsName id.name) : c.WellFormed := by
  cases h with
  | unit hk hpath =>
    rw [names_cons_other (by simp [hk]), hpath.names_eq] at hnames
    exact ⟨hpath.ne_nil, hnames⟩
  | uses hk husings =>
    rw [names_cons_other (by simp [hk])] at hnames
    exact husings.wellFormed hnames

/-- A program that is spelled with names of the language is well formed. -/
theorem SpellsProgram.wellFormed (h : SpellsProgram ts p)
    (hnames : ∀ id ∈ names ts, IsName id.name) : Program.WellFormed p := by
  induction h with
  | one hclause hs =>
    rw [names_append] at hnames
    have hc := hclause.wellFormed (List.forall_mem_append.mp hnames).1
    exact ⟨List.cons_ne_nil _ _, List.forall_mem_singleton.mpr hc⟩
  | next _ hclause hs ih =>
    rw [names_append, names_append] at hnames
    obtain ⟨hold, hnew⟩ := List.forall_mem_append.mp hnames
    have hc := hclause.wellFormed (List.forall_mem_append.mp hnew).1
    refine ⟨List.append_ne_nil_of_right_ne_nil _ (List.cons_ne_nil _ _), ?_⟩
    exact List.forall_mem_append.mpr ⟨(ih hold).2, List.forall_mem_singleton.mpr hc⟩

end Spelled

/-! ## 4. Nothing is skipped -/

namespace Node

/-- The items of a path: at least one, and identifiers only. -/
def PathComplete (items : List Node) : Prop :=
  items ≠ [] ∧ (identifiers items).map .identifier = items

/-- The items of a list of imports: at least one, imports only, and their paths likewise. -/
def ImportsComplete (items : List Node) : Prop :=
  items ≠ [] ∧ (imports items).map Import.toNode = items ∧
    ∀ i ∈ imports items, PathComplete i.path

/-- The parts of a clause. -/
def ClauseComplete : Node → Prop
  | unit path => PathComplete path
  | uses items => ImportsComplete items
  | _ => False

/-- A tree in which no list is empty and none holds what is skipped when its identifiers or its
imports are looked for. -/
def Complete : Node → Prop
  | list clauses => clauses ≠ [] ∧ ∀ c ∈ clauses, c.ClauseComplete
  | _ => False

theorem pathComplete_map {ids : List Identifier} (h : ids ≠ []) :
    PathComplete (ids.map .identifier) := by
  refine ⟨mt List.map_eq_nil_iff.mp h, ?_⟩
  rw [identifiers_map_identifier]

theorem importsComplete_map {is : List Using} (hne : is ≠ []) (h : ∀ u ∈ is, u.path ≠ []) :
    ImportsComplete (is.map Using.toNode) := by
  have hnodes : is.map Using.toNode =
      (is.map fun u => (⟨u.path.map .identifier, u.member, u.knownAs⟩ : Import)).map
        Import.toNode := by
    rw [List.map_map]
    rfl
  rw [hnodes]
  refine ⟨?_, by rw [imports_map_toNode], ?_⟩
  · simpa using hne
  · rw [imports_map_toNode]
    intro i hi
    obtain ⟨u, hu, rfl⟩ := List.mem_map.mp hi
    exact pathComplete_map (h u hu)

end Node

/-- The tree of a well-formed program skips nothing. -/
theorem Program.WellFormed.complete {p : Program} (h : Program.WellFormed p) :
    (Program.toNode p).Complete := by
  refine ⟨mt List.map_eq_nil_iff.mp h.1, ?_⟩
  intro n hn
  obtain ⟨c, hc, rfl⟩ := List.mem_map.mp hn
  have hclause := h.2 c hc
  cases c with
  | unit path => exact Node.pathComplete_map hclause.1
  | uses imports => exact Node.importsComplete_map hclause.1 fun u hu => (hclause.2 u hu).1

/-! ## 5. Names in the source -/

section Source

variable {p : Parser} {source : String} {n : Node} {ts : List Token} {t : Token}
  {stop q : Position} {value : List Char}

/-- No reserved word spells an identifier. -/
theorem Reserved.kind?_eq_none {word : String} (h : kindOf word = .identifier) :
    kind? word = none := by
  cases hk : kind? word with
  | none => rfl
  | some k =>
    obtain ⟨l₁, l₂, hw, -⟩ := List.lookup_eq_some_iff.mp hk
    have hall : ∀ e ∈ words, e.2 ≠ .identifier := by decide
    rw [kindOf, hk] at h
    exact absurd h (hall (word, k) (by rw [hw]; simp))

/-- A token that spells an identifier is a name of the language. -/
theorem Token.IsRead.isName (h : t.IsRead q value) (ht : t.kind = .identifier) :
    IsName t.value := by
  obtain ⟨r, hform, hk⟩ := h.exists_rule
  rw [h.value_eq]
  rw [ht] at hk
  cases r with
  | word =>
    obtain ⟨c, rest, rfl, hc, hrest⟩ := hform
    exact ⟨⟨c, rest, String.toList_ofList, hc, List.all_eq_true.mpr hrest⟩,
      Reserved.kind?_eq_none (Option.some.inj hk)⟩
  | dot | comma | float | integer | quoted | semicolon | backslash => cases hk
  | blanks | braces | lineComment => cases hk

/-- The names among the tokens of a source are names of the language, at their places. -/
theorem names_of_ended (his : itemsOf source = ⟨ts, .ended stop⟩) :
    (∀ id ∈ names ts, IsName id.name ∧
      IsSlice source id.name id.span.start.offset id.span.stop.offset ∧
      id.span.start.offset < id.span.stop.offset) ∧
    (names ts).Pairwise fun a b => a.span.stop.offset ≤ b.span.start.offset := by
  obtain ⟨-, hlossless⟩ := lossless_of_ended his
  refine ⟨?_, ?_⟩
  · intro id hid
    obtain ⟨t, ht, rfl⟩ := List.mem_map.mp hid
    obtain ⟨hmem, hkind⟩ := List.mem_filter.mp ht
    refine ⟨?_, hlossless.slice t hmem, hlossless.nonempty t hmem⟩
    obtain ⟨before, after, rfl⟩ := List.append_of_mem hmem
    obtain ⟨_, _, value, _, -, -, -, hread⟩ := (lexes_of_ended his).at_token
    exact hread.isName (of_decide_eq_true hkind)
  · exact List.pairwise_map.mpr (hlossless.ordered.sublist List.filter_sublist)

/-- A parsed tree is that of a well-formed program. -/
theorem Parser.exists_wellFormed_of_parse (h : (p.parse source).1 = .ok n) :
    ∃ program : Program, n = Program.toNode program ∧ Program.WellFormed program := by
  obtain ⟨ts, stop, his, hbuilds⟩ := parse_eq_ok_iff.mp h
  obtain ⟨program, hprogram, rfl⟩ := builds_program_iff.mp hbuilds
  obtain ⟨hnames, -⟩ := names_of_ended his
  exact ⟨program, rfl, hprogram.wellFormed fun id hid => (hnames id hid).1⟩

end Source

end UnitLang
