/-
# What the actions make

An action takes its values one by one and may fail at each.  `Action.Makes a vs n` says without any
taking what values lead to what tree: it has one case for each action, with the values in source
order.  `run_eq_ok_iff` says that this is just when the action succeeds and leaves no value over.

So what all actions have in common is seen case by case.  Here it is that they use names as they
find them, with their places: the tree has no other names than its values
(`Makes.exists_identifier`), and with the names among the values replaced it has the same names
replaced (`Makes.relabel`).  Along a derivation, all names of a tree are those that its tokens
spell (`Builds.exists_token`), and from replaced tokens the same tree is built with the names
replaced (`Builds.relabel`).
-/
import UnitLang.Proofs.Grammar.Building
import UnitLang.Proofs.Tree.Names

namespace UnitLang

/-! ## 1. Taking that succeeds -/

namespace Taking

variable {α β : Type} {vs rest : List Value} {v : Value} {l : Lexeme} {n : Node}

/-- From these values, the rightmost first, the computation takes `a` and leaves `rest`. -/
def Gives (x : Taking α) (vs : List Value) (a : α) (rest : List Value) : Prop :=
  x.run.run vs = (.ok a, rest)

theorem gives_pure_iff {a b : α} : Gives (pure a) vs b rest ↔ a = b ∧ vs = rest := by
  change ((Except.ok a : Except Misfit α), vs) = (.ok b, rest) ↔ _
  simp

theorem gives_throw_iff {misfit : Misfit} {b : α} : Gives (throw misfit) vs b rest ↔ False := by
  change ((Except.error misfit : Except Misfit α), vs) = (.ok b, rest) ↔ _
  simp

/-- What comes second goes on with the values that the first left. -/
theorem gives_bind_iff {x : Taking α} {f : α → Taking β} {b : β} :
    Gives (x >>= f) vs b rest ↔ ∃ a vs', x.Gives vs a vs' ∧ (f a).Gives vs' b rest := by
  unfold Gives
  rw [ExceptT.run_bind, StateT.run_bind]
  generalize x.run.run vs = outcome
  obtain ⟨r, vs'⟩ := outcome
  cases r with
  | ok a =>
    constructor
    · intro h
      exact ⟨a, vs', rfl, h⟩
    · rintro ⟨a', vs'', heq, h⟩
      cases heq
      exact h
  | error misfit =>
    constructor
    · intro h
      cases h
    · rintro ⟨_, _, heq, -⟩
      cases heq

theorem gives_value_iff : Gives value vs v rest ↔ vs = v :: rest := by
  cases vs with
  | nil =>
    change ((Except.error Misfit.ranOut : Except Misfit Value), []) = (.ok v, rest) ↔ _
    simp
  | cons w vs =>
    change ((Except.ok w : Except Misfit Value), vs) = (.ok v, rest) ↔ _
    simp

theorem gives_lexeme_iff : Gives lexeme vs l rest ↔ vs = .lexeme l :: rest := by
  simp only [lexeme, gives_bind_iff, gives_value_iff]
  constructor
  · rintro ⟨v, vs', rfl, h⟩
    cases v with
    | lexeme l' => obtain ⟨rfl, rfl⟩ := gives_pure_iff.mp h; rfl
    | node n => exact (gives_throw_iff.mp h).elim
  · rintro rfl
    exact ⟨_, _, rfl, gives_pure_iff.mpr ⟨rfl, rfl⟩⟩

theorem gives_node_iff : Gives node vs n rest ↔ vs = .node n :: rest := by
  simp only [node, gives_bind_iff, gives_value_iff]
  constructor
  · rintro ⟨v, vs', rfl, h⟩
    cases v with
    | lexeme l => exact (gives_throw_iff.mp h).elim
    | node n' => obtain ⟨rfl, rfl⟩ := gives_pure_iff.mp h; rfl
  · rintro rfl
    exact ⟨_, _, rfl, gives_pure_iff.mpr ⟨rfl, rfl⟩⟩

/-- A tree of a shape is one in which the view sees something. -/
theorem gives_shaped_iff {wanted : Shape} {view? : Node → Option α} {a : α} :
    Gives (shaped wanted view?) vs a rest ↔ ∃ n, view? n = some a ∧ vs = .node n :: rest := by
  simp only [shaped, gives_bind_iff, gives_node_iff]
  constructor
  · rintro ⟨n, vs', rfl, h⟩
    split at h
    · rename_i hview
      obtain ⟨rfl, rfl⟩ := gives_pure_iff.mp h
      exact ⟨n, hview, rfl⟩
    · exact (gives_throw_iff.mp h).elim
  · rintro ⟨n, hview, rfl⟩
    refine ⟨n, _, rfl, ?_⟩
    rw [hview]
    exact gives_pure_iff.mpr ⟨rfl, rfl⟩

theorem gives_list_iff {items : List Node} :
    Gives list vs items rest ↔ vs = .node (.list items) :: rest := by
  simp [list, gives_shaped_iff, Node.asList?_eq_some_iff]

theorem gives_identifier_iff {id : Identifier} :
    Gives identifier vs id rest ↔ vs = .node (.identifier id) :: rest := by
  simp [identifier, gives_shaped_iff, Node.asIdentifier?_eq_some_iff]

theorem gives_imported_iff {i : Import} :
    Gives imported vs i rest ↔ vs = .node i.toNode :: rest := by
  simp [imported, gives_shaped_iff, Node.asImport?_eq_some_iff]

end Taking

/-! ## 2. What each action makes -/

/-- From these values, in source order, the action makes this tree. -/
inductive Action.Makes : Action → List Value → Node → Prop where
  | keep {n : Node} : Makes .keep [.node n] n
  | firstClause {clause : Node} {l : Lexeme} :
      Makes .firstClause [.node clause, .lexeme l] (.list [clause])
  | nextClause {program : List Node} {clause : Node} {l : Lexeme} :
      Makes .nextClause [.node (.list program), .node clause, .lexeme l]
        (.list (program ++ [clause]))
  | name {l : Lexeme} : Makes .name [.lexeme l] (.identifier l.identifier)
  | firstItem {item : Node} : Makes .firstItem [.node item] (.list [item])
  | nextItem {items : List Node} {l : Lexeme} {item : Node} :
      Makes .nextItem [.node (.list items), .lexeme l, .node item] (.list (items ++ [item]))
  | wholePath {path : List Node} {i : Import} :
      Import.ofPath? path = some i → Makes .wholePath [.node (.list path)] i.toNode
  | member {path : List Node} {l : Lexeme} {member : Identifier} :
      Makes .member [.node (.list path), .lexeme l, .node (.identifier member)]
        (Import.withMember path member).toNode
  | rename {i : Import} {l : Lexeme} {knownAs : Identifier} :
      Makes .rename [.node i.toNode, .lexeme l, .node (.identifier knownAs)]
        (i.rename knownAs).toNode
  | unit {l : Lexeme} {path : List Node} : Makes .unit [.lexeme l, .node (.list path)] (.unit path)
  | uses {l : Lexeme} {imports : List Node} :
      Makes .uses [.lexeme l, .node (.list imports)] (.uses imports)

namespace Action

open Taking

variable {a : Action} {vs : List Value} {n : Node}

/-- The values from which an action has taken a tree make it.  They were taken from the right, so
in source order they are reversed. -/
theorem makes_of_gives {taken : List Value} (h : a.build.Gives taken n []) :
    a.Makes taken.reverse n := by
  cases a with
  | keep =>
    obtain rfl := gives_node_iff.mp h
    exact .keep
  | firstClause =>
    simp only [build, gives_bind_iff, gives_lexeme_iff, gives_node_iff, gives_pure_iff] at h
    obtain ⟨l, _, rfl, clause, _, rfl, rfl, rfl⟩ := h
    exact .firstClause
  | nextClause =>
    simp only [build, gives_bind_iff, gives_lexeme_iff, gives_node_iff, gives_list_iff,
      gives_pure_iff] at h
    obtain ⟨l, _, rfl, clause, _, rfl, program, _, rfl, rfl, rfl⟩ := h
    exact .nextClause
  | name =>
    simp only [build, gives_bind_iff, gives_lexeme_iff, gives_pure_iff] at h
    obtain ⟨l, _, rfl, rfl, rfl⟩ := h
    exact .name
  | firstItem =>
    simp only [build, gives_bind_iff, gives_node_iff, gives_pure_iff] at h
    obtain ⟨item, _, rfl, rfl, rfl⟩ := h
    exact .firstItem
  | nextItem =>
    simp only [build, gives_bind_iff, gives_lexeme_iff, gives_node_iff, gives_list_iff,
      gives_pure_iff] at h
    obtain ⟨item, _, rfl, l, _, rfl, items, _, rfl, rfl, rfl⟩ := h
    exact .nextItem
  | wholePath =>
    simp only [build, gives_bind_iff, gives_list_iff] at h
    obtain ⟨path, _, rfl, h⟩ := h
    split at h
    · rename_i i hpath
      obtain ⟨rfl, rfl⟩ := gives_pure_iff.mp h
      exact .wholePath hpath
    · exact (gives_throw_iff.mp h).elim
  | member =>
    simp only [build, gives_bind_iff, gives_lexeme_iff, gives_list_iff, gives_identifier_iff,
      gives_pure_iff] at h
    obtain ⟨member, _, rfl, l, _, rfl, path, _, rfl, rfl, rfl⟩ := h
    exact .member
  | rename =>
    simp only [build, gives_bind_iff, gives_lexeme_iff, gives_identifier_iff,
      gives_imported_iff, gives_pure_iff] at h
    obtain ⟨knownAs, _, rfl, l, _, rfl, i, _, rfl, rfl, rfl⟩ := h
    exact .rename
  | unit =>
    simp only [build, gives_bind_iff, gives_lexeme_iff, gives_list_iff, gives_pure_iff] at h
    obtain ⟨path, _, rfl, l, _, rfl, rfl, rfl⟩ := h
    exact .unit
  | uses =>
    simp only [build, gives_bind_iff, gives_lexeme_iff, gives_list_iff, gives_pure_iff] at h
    obtain ⟨imports, _, rfl, l, _, rfl, rfl, rfl⟩ := h
    exact .uses

/-- **An action succeeds**, with no value left over, just on the values from which it makes a
tree. -/
theorem run_eq_ok_iff : a.run vs = (.ok n, []) ↔ a.Makes vs n := by
  constructor
  · intro h
    have hmakes : a.Makes vs.reverse.reverse n := makes_of_gives h
    rwa [List.reverse_reverse] at hmakes
  · intro h
    cases h with
    | wholePath hpath => exact run_wholePath hpath
    | keep | firstClause | nextClause | name | firstItem | nextItem | member | rename | unit
    | uses => rfl

/-- The tree of an action has no other identifiers than its values. -/
theorem Makes.exists_identifier {id : Identifier} (h : a.Makes vs n)
    (hid : id ∈ n.allIdentifiers) : ∃ v ∈ vs, id ∈ v.identifiers := by
  cases h with
  | wholePath hpath =>
    obtain ⟨front, last, rfl, rfl⟩ := Import.ofPath?_eq_some_iff.mp hpath
    simpa [or_assoc] using hid
  | keep | firstClause | nextClause | name | firstItem | nextItem | member | rename | unit
  | uses =>
    simp only [Node.allIdentifiers, Node.identifiersOfAll, Node.identifiersOfAll_append,
      Import.allIdentifiers_toNode, Import.withMember, Import.rename, Value.identifiers,
      Option.toList_some, List.mem_append, List.mem_cons, List.not_mem_nil, exists_eq_or_imp,
      exists_eq_left, or_false] at hid ⊢
    tauto

/-- **An action uses names as it finds them**: with other names among its values, its tree has
these names. -/
theorem Makes.relabel (g : Identifier → Identifier) (h : a.Makes vs n) :
    a.Makes (vs.map (Value.relabel g)) (n.relabel g) := by
  cases h with
  | wholePath hpath =>
    rw [Import.toNode_relabel]
    simpa using Makes.wholePath (Import.ofPath?_relabel g hpath)
  | @rename i l knownAs => exact .rename (i := i.relabel g)
  | @nextClause program clause l =>
    simpa using @Makes.nextClause (program.map (Node.relabel g)) (clause.relabel g) (l.relabel g)
  | @nextItem items l item =>
    simpa using @Makes.nextItem (items.map (Node.relabel g)) (l.relabel g) (item.relabel g)
  | firstClause => exact .firstClause
  | firstItem => exact .firstItem
  | keep => exact .keep
  | name => exact .name
  | member => exact .member
  | unit => exact .unit
  | uses => exact .uses

end Action

/-! ## 3. What is built along a derivation -/

namespace Builds

variable {Xs : List Symbol} {ts : List Token} {vs : List Value}

/-- Every identifier that is built is what some token spells. -/
theorem exists_token {v : Value} {id : Identifier} (h : Builds Xs ts vs) (hv : v ∈ vs)
    (hid : id ∈ v.identifiers) : ∃ t ∈ ts, id = t.lexeme.identifier := by
  induction h generalizing v with
  | nil => cases hv
  | lexeme t _ ih =>
    rcases List.mem_cons.mp hv with rfl | hv
    · exact ⟨t, List.mem_cons_self, List.mem_singleton.mp hid⟩
    · obtain ⟨u, hu, rfl⟩ := ih hv hid
      exact ⟨u, List.mem_cons_of_mem t hu, rfl⟩
  | node _ _ hrun _ ihrhs ih =>
    rcases List.mem_cons.mp hv with rfl | hv
    · obtain ⟨w, hw, hid⟩ := (Action.run_eq_ok_iff.mp hrun).exists_identifier hid
      obtain ⟨u, hu, rfl⟩ := ihrhs hw hid
      exact ⟨u, List.mem_append_left _ hu, rfl⟩
    · obtain ⟨u, hu, rfl⟩ := ih hv hid
      exact ⟨u, List.mem_append_right _ hu, rfl⟩

/-- **What is built from other names is the same with these names.** -/
theorem relabel (g : Identifier → Identifier) (h : Builds Xs ts vs) :
    Builds Xs (ts.map (Token.relabel g)) (vs.map (Value.relabel g)) := by
  induction h with
  | nil => exact .nil
  | lexeme t _ ih => exact .lexeme (t.relabel g) ih
  | node hp _ hrun _ ihrhs ih =>
    rw [List.map_append]
    exact .node hp ihrhs (Action.run_eq_ok_iff.mpr ((Action.run_eq_ok_iff.mp hrun).relabel g)) ih

end Builds

end UnitLang
