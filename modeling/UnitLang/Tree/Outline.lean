/-
# Outlines of syntax trees

Every part of a tree can be shown as an outline (`Text.Outline`).  A node is shown as its shape
wrapped around a record of its parts, except that an identifier's record is its own.
-/
import UnitLang.Text.Outline
import UnitLang.Text.Quoted
import UnitLang.Tree.Basic

namespace UnitLang

open Text (Outline quote)

/-- A position, by its three counts. -/
def Position.outline (p : Position) : Outline :=
  .record "Position"
    [("offset", .number p.offset), ("line", .number p.line), ("column", .number p.column)]

/-- A span, by its ends. -/
def Span.outline (s : Span) : Outline :=
  .record "Span" [("start", s.start.outline), ("end", s.stop.outline)]

/-- An identifier, by its quoted name and its span. -/
def Identifier.outline (id : Identifier) : Outline :=
  .record "Identifier" [("name", .word (quote id.name)), ("span", id.span.outline)]

namespace Node

/-- A list inside a node, by the outlines of its items. -/
def itemsOutline (items : List Outline) : Outline :=
  .record "List" [("items", .sequence items)]

mutual

/-- A node, by its shape and its parts. -/
def outline : Node → Outline
  | identifier id => .wrap "Identifier" id.outline
  | list items => .wrap "List" (itemsOutline (outlines items))
  | unit path => .wrap "Unit" (.record "Unit" [("path", itemsOutline (outlines path))])
  | uses imports => .wrap "Uses" (.record "Uses" [("imports", itemsOutline (outlines imports))])
  | imported path member knownAs =>
    .wrap "PathAlias" (.record "PathAlias"
      [("path", itemsOutline (outlines path)),
       ("member", .optional (member.map Identifier.outline)),
       ("alias", knownAs.outline)])

/-- The outlines of several nodes, in order. -/
def outlines : List Node → List Outline
  | [] => []
  | n :: ns => n.outline :: outlines ns

end

end Node

end UnitLang
