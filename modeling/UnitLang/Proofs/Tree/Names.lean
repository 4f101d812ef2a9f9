/-
# The identifiers of a tree

A tree of a program consists of identifiers; all else is structure.  `Node.allIdentifiers` lists
them from the left to the right, and `Node.relabel g` replaces each by what `g` makes of it, name
and span, and leaves the structure as it is.  The same is said of lexemes, tokens and the values
on a parse stack, which become identifiers or hold some.
-/
import UnitLang.ParseStack

namespace UnitLang

/-! ## 1. Trees -/

namespace Node

mutual

/-- All identifiers of a tree: those of a path, then the member, then the name. -/
@[simp] def allIdentifiers : Node → List Identifier
  | identifier id => [id]
  | list items => identifiersOfAll items
  | unit path => identifiersOfAll path
  | uses imports => identifiersOfAll imports
  | imported path member knownAs => identifiersOfAll path ++ member.toList ++ [knownAs]

/-- All identifiers of some trees. -/
@[simp] def identifiersOfAll : List Node → List Identifier
  | [] => []
  | n :: ns => allIdentifiers n ++ identifiersOfAll ns

end

mutual

/-- The tree with every identifier replaced. -/
@[simp] def relabel (g : Identifier → Identifier) : Node → Node
  | identifier id => .identifier (g id)
  | list items => .list (relabelAll g items)
  | unit path => .unit (relabelAll g path)
  | uses imports => .uses (relabelAll g imports)
  | imported path member knownAs =>
    .imported (relabelAll g path) (member.map g) (g knownAs)

/-- The trees with every identifier replaced. -/
def relabelAll (g : Identifier → Identifier) : List Node → List Node
  | [] => []
  | n :: ns => relabel g n :: relabelAll g ns

end

@[simp] theorem identifiersOfAll_append (ns ms : List Node) :
    identifiersOfAll (ns ++ ms) = identifiersOfAll ns ++ identifiersOfAll ms := by
  induction ns with
  | nil => rfl
  | cons n ns ih => simp [ih]

@[simp] theorem relabelAll_eq_map (g : Identifier → Identifier) (ns : List Node) :
    relabelAll g ns = ns.map (relabel g) := by
  induction ns with
  | nil => rfl
  | cons n ns ih => rw [relabelAll, List.map_cons, ih]

theorem asIdentifier?_eq_some_iff {n : Node} {id : Identifier} :
    n.asIdentifier? = some id ↔ n = .identifier id := by
  cases n <;> simp [asIdentifier?]

theorem asList?_eq_some_iff {n : Node} {items : List Node} :
    n.asList? = some items ↔ n = .list items := by
  cases n <;> simp [asList?]

end Node

/-! ## 2. Imports -/

namespace Import

variable {path : List Node} {i : Import}

/-- The import with every identifier replaced. -/
def relabel (g : Identifier → Identifier) (i : Import) : Import :=
  ⟨Node.relabelAll g i.path, i.member.map g, g i.knownAs⟩

@[simp] theorem toNode_relabel (g : Identifier → Identifier) (i : Import) :
    i.toNode.relabel g = (i.relabel g).toNode := rfl

@[simp] theorem allIdentifiers_toNode (i : Import) :
    i.toNode.allIdentifiers = Node.identifiersOfAll i.path ++ i.member.toList ++ [i.knownAs] := rfl

/-- A path is imported under its last name. -/
theorem ofPath?_eq_some_iff :
    ofPath? path = some i ↔
      ∃ front id, path = front ++ [.identifier id] ∧ i = ⟨path, none, id⟩ := by
  unfold ofPath?
  constructor
  · intro h
    obtain ⟨last, hlast, h⟩ := Option.bind_eq_some_iff.mp h
    obtain ⟨id, hid, h⟩ := Option.bind_eq_some_iff.mp h
    obtain ⟨front, rfl⟩ := List.getLast?_eq_some_iff.mp hlast
    obtain rfl := Node.asIdentifier?_eq_some_iff.mp hid
    exact ⟨front, id, rfl, (Option.some.inj h).symm⟩
  · rintro ⟨front, id, rfl, rfl⟩
    rw [List.getLast?_concat]
    rfl

/-- A path with other names is imported under its last name. -/
theorem ofPath?_relabel (g : Identifier → Identifier) (h : ofPath? path = some i) :
    ofPath? (path.map (Node.relabel g)) = some (i.relabel g) := by
  obtain ⟨front, id, rfl, rfl⟩ := ofPath?_eq_some_iff.mp h
  refine ofPath?_eq_some_iff.mpr ⟨front.map (Node.relabel g), g id, by simp, ?_⟩
  simp [relabel]

end Import

/-! ## 3. Lexemes, tokens and values -/

/-- The identifier that a lexeme spells. -/
def Lexeme.identifier (l : Lexeme) : Identifier := ⟨l.text, l.span⟩

/-- The lexeme with another text and another span, those of an identifier. -/
def Lexeme.relabel (g : Identifier → Identifier) (l : Lexeme) : Lexeme :=
  ⟨(g l.identifier).name, (g l.identifier).span⟩

/-- The token of the same kind with another text and another span. -/
def Token.relabel (g : Identifier → Identifier) (t : Token) : Token :=
  ⟨t.kind, (t.lexeme.relabel g).text, (t.lexeme.relabel g).span⟩

/-- The value with every identifier replaced. -/
@[simp] def Value.relabel (g : Identifier → Identifier) : Value → Value
  | lexeme l => .lexeme (l.relabel g)
  | node n => .node (n.relabel g)

/-- The identifiers of a value: the one that a lexeme spells, or those of a tree. -/
@[simp] def Value.identifiers : Value → List Identifier
  | lexeme l => [l.identifier]
  | node n => n.allIdentifiers

end UnitLang
