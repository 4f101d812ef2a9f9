/-
# Syntax trees

A program is a list of clauses.  A clause opens a unit (`unit a.b;`) or uses imports
(`uses a.b\c as d, e;`).  All of these are nodes of one tree, in which a list is a node of its
own, so that a stack of half-built trees can hold any of them.  The grammar builds only trees of
a certain form, but the operations here are defined on all of them: those that look for
identifiers or imports among the items of a list skip everything else.

`Node.same_iff`: comparing two trees part by part decides whether they are equal.
-/
import UnitLang.Position

namespace UnitLang

/-! ## 1. Nodes -/

/-- A name in the source text. -/
structure Identifier where
  name : String
  span : Span
deriving DecidableEq, Repr, Inhabited

/-- A node of a syntax tree: a name, a list, a unit with its path, a list of imports to use, or
one import, which is a path, the member picked from it if there is one, and the name under which
it is known. -/
inductive Node where
  | identifier (id : Identifier)
  | list (items : List Node)
  | unit (path : List Node)
  | uses (imports : List Node)
  | imported (path : List Node) (member : Option Identifier) (knownAs : Identifier)
deriving Inhabited

/-- What a node is, apart from its parts. -/
inductive Shape where
  | identifier
  | list
  | unit
  | uses
  | imported
deriving DecidableEq, Repr, Inhabited

/-- The name under which a shape is reported. -/
def Shape.name : Shape → String
  | identifier => "Identifier"
  | list => "List"
  | unit => "Unit"
  | uses => "Uses"
  | imported => "PathAlias"

namespace Node

/-- The shape of a node. -/
def shape : Node → Shape
  | identifier _ => .identifier
  | list _ => .list
  | unit _ => .unit
  | uses _ => .uses
  | imported .. => .imported

/-- The identifier that a node is. -/
def asIdentifier? : Node → Option Identifier
  | identifier id => some id
  | _ => none

/-- The items of a list node. -/
def asList? : Node → Option (List Node)
  | list items => some items
  | _ => none

/-- The path of a unit node. -/
def asUnit? : Node → Option (List Node)
  | unit path => some path
  | _ => none

/-- The imports of a uses node. -/
def asUses? : Node → Option (List Node)
  | uses imports => some imports
  | _ => none

end Node

/-! ## 2. Imports -/

/-- One import, by its parts. -/
structure Import where
  path : List Node
  member : Option Identifier
  knownAs : Identifier

namespace Import

/-- The import as a node. -/
def toNode (i : Import) : Node := .imported i.path i.member i.knownAs

/-- The import of a whole path: it is known under the last name of the path.  There is none if
the path does not end in a name. -/
def ofPath? (path : List Node) : Option Import := do
  let last ← path.getLast?
  let id ← last.asIdentifier?
  return ⟨path, none, id⟩

/-- The import of one member of a path: it is known under the member's name. -/
def withMember (path : List Node) (member : Identifier) : Import := ⟨path, some member, member⟩

/-- The same import, known under another name. -/
def rename (i : Import) (knownAs : Identifier) : Import := { i with knownAs }

end Import

/-- The import that a node is. -/
def Node.asImport? : Node → Option Import
  | .imported path member knownAs => some ⟨path, member, knownAs⟩
  | _ => none

theorem Node.asImport?_eq_some_iff {n : Node} {i : Import} :
    n.asImport? = some i ↔ n = i.toNode := by
  cases n <;> cases i <;> simp [asImport?, Import.toNode]

/-! ## 3. The items of a list -/

namespace Node

/-- The identifiers among the items, in order. -/
def identifiers (items : List Node) : List Identifier := items.filterMap asIdentifier?

/-- The names of the identifiers among the items, in order. -/
def names (items : List Node) : List String := (identifiers items).map (·.name)

/-- The imports among the items, in order. -/
def imports (items : List Node) : List Import := items.filterMap asImport?

@[simp] theorem identifiers_map_identifier (ids : List Identifier) :
    identifiers (ids.map .identifier) = ids := by
  induction ids with
  | nil => rfl
  | cons id ids ih =>
    simpa [identifiers, asIdentifier?] using ih

@[simp] theorem imports_map_toNode (is : List Import) : imports (is.map Import.toNode) = is := by
  induction is with
  | nil => rfl
  | cons i is ih =>
    simpa [imports, Import.toNode, asImport?] using ih

end Node

/-! ## 4. Equality -/

namespace Node

mutual

/-- Whether two trees have the same parts, spans included. -/
def same : Node → Node → Bool
  | identifier a, identifier b => a = b
  | list a, list b => sameItems a b
  | unit a, unit b => sameItems a b
  | uses a, uses b => sameItems a b
  | imported a m k, imported b m' k' => sameItems a b && m = m' && k = k'
  | _, _ => false

/-- Whether two lists of trees have the same items in the same order. -/
def sameItems : List Node → List Node → Bool
  | [], [] => true
  | a :: as, b :: bs => same a b && sameItems as bs
  | _, _ => false

end

mutual

theorem same_iff : ∀ a b : Node, same a b = true ↔ a = b
  | identifier a, b => by cases b <;> simp [same]
  | list a, b => by cases b <;> simp [same, sameItems_iff a]
  | unit a, b => by cases b <;> simp [same, sameItems_iff a]
  | uses a, b => by cases b <;> simp [same, sameItems_iff a]
  | imported a m k, b => by cases b <;> simp [same, sameItems_iff a, and_assoc]

theorem sameItems_iff : ∀ as bs : List Node, sameItems as bs = true ↔ as = bs
  | [], bs => by cases bs <;> simp [sameItems]
  | a :: as, bs => by cases bs <;> simp [sameItems, same_iff a, sameItems_iff as]

end

instance : DecidableEq Node := fun a b => decidable_of_iff _ (same_iff a b)

end Node

end UnitLang
