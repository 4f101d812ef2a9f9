/-
# The printed tree of a program

The tree of a program is printed over several lines.  Here these lines are written down one by one,
each with its text and how many brackets it is in (`Program.rows`):

    List(
        List {
            items: [
                Unit(
                    Unit {
                        path: List {

and so on, down to the names, which stand between quotes as they are, and to their places.
`Program.join_rows` says that this is what is printed of the tree.

How an outline is laid out is told by the lines of its parts (`Text.Outline.Lays`): a group puts a
line before and behind the lines of its parts, which are one bracket further in (`lays_group`), and
what stands before a value with its key, or behind it, goes to the first of its lines, or the last.
-/
import UnitLang.Program
import UnitLang.Tree.Outline
import UnitLang.Proofs.Report.Pointing

namespace UnitLang

/-! ## 1. Rows -/

/-- A line of a printed tree: how many brackets it is in, and what stands on it. -/
structure Row where
  depth : Nat
  text : String

/-- The line as it is printed, with four blanks for each bracket. -/
def Row.line (r : Row) : String := String.ofList (List.replicate (4 * r.depth) ' ') ++ r.text

/-- The lines as they are printed, each with its line feed. -/
def Row.join (rows : List Row) : String := String.join (rows.map fun r => r.line ++ "\n")

theorem Row.join_cons (r : Row) (rows : List Row) :
    join (r :: rows) = r.line ++ "\n" ++ join rows := by
  simp [join]

theorem Row.join_append (rows rows' : List Row) :
    join (rows ++ rows') = join rows ++ join rows' := by
  simp [join]

/-- Rows inside a bracket: a row that opens it, and one that closes it. -/
def enclosed (depth : Nat) (first last : String) (rows : List Row) : List Row :=
  ⟨depth, first⟩ :: rows ++ [⟨depth, last⟩]

/-- A position, by its three counts. -/
def Position.rows (d : Nat) (p : Position) : List Row :=
  [⟨d, "offset: " ++ toString p.offset ++ ","⟩, ⟨d, "line: " ++ toString p.line ++ ","⟩,
   ⟨d, "column: " ++ toString p.column ++ ","⟩]

/-- A span, by its ends. -/
def Span.rows (d : Nat) (s : Span) : List Row :=
  enclosed d "start: Position \x7b" "\x7d," (s.start.rows (d + 1)) ++
    enclosed d "end: Position \x7b" "\x7d," (s.stop.rows (d + 1))

/-- An identifier, by its name between quotes and its span. -/
def Identifier.rows (d : Nat) (id : Identifier) : List Row :=
  ⟨d, "name: \"" ++ id.name ++ "\","⟩ ::
    enclosed d "span: Span \x7b" "\x7d," (id.span.rows (d + 1))

/-- A path, by its names. -/
def pathRows (d : Nat) (path : List Identifier) : List Row :=
  enclosed d "path: List \x7b" "\x7d,"
    (enclosed (d + 1) "items: [" "],"
      (path.flatMap fun id =>
        enclosed (d + 2) "Identifier(" "),"
          (enclosed (d + 3) "Identifier \x7b" "\x7d," (id.rows (d + 4)))))

/-- A member, if there is one. -/
def memberRows (d : Nat) : Option Identifier → List Row
  | none => [⟨d, "member: None,"⟩]
  | some member =>
    enclosed d "member: Some(" "),"
      (enclosed (d + 1) "Identifier \x7b" "\x7d," (member.rows (d + 2)))

/-- An import, by its path, its member and the name under which it is known. -/
def Using.rows (d : Nat) (u : Using) : List Row :=
  pathRows d u.path ++ memberRows d u.member ++
    enclosed d "alias: Identifier \x7b" "\x7d," (u.knownAs.rows (d + 1))

/-- A clause, by its path or its imports. -/
def Clause.rows (d : Nat) : Clause → List Row
  | unit path =>
    enclosed d "Unit(" ")," (enclosed (d + 1) "Unit \x7b" "\x7d," (pathRows (d + 2) path))
  | uses imports =>
    enclosed d "Uses(" "),"
      (enclosed (d + 1) "Uses \x7b" "\x7d,"
        (enclosed (d + 2) "imports: List \x7b" "\x7d,"
          (enclosed (d + 3) "items: [" "],"
            (imports.flatMap fun u =>
              enclosed (d + 4) "PathAlias(" "),"
                (enclosed (d + 5) "PathAlias \x7b" "\x7d," (u.rows (d + 6)))))))

/-- A program, by its clauses. -/
def Program.rows (p : Program) : List Row :=
  enclosed 0 "List(" ")"
    (enclosed 1 "List \x7b" "\x7d,"
      (enclosed 2 "items: [" "]," (p.flatMap fun c => c.rows 3)))

/-! ## 2. Rows of an outline -/

namespace Text.Outline

section Layout

variable {pre post key name first last : String} {d : Nat} {o : Outline} {parts : List Outline}
  {fields : List (String × Outline)} {b : Brackets} {rows rows' : List Row}

/-- The outline, with a text before it and one behind it, is laid out in these rows. -/
def Lays (pre : String) (d : Nat) (o : Outline) (post : String) (rows : List Row) : Prop :=
  indent d ++ (pre ++ o.indented d ++ post) ++ "\n" = Row.join rows

/-- The parts of a group are laid out in these rows. -/
def LayAll (d : Nat) (parts : List Outline) (rows : List Row) : Prop :=
  String.join (indentedParts d parts) = Row.join rows

theorem lays_word (text : String) : Lays pre d (.word text) post [⟨d, pre ++ text ++ post⟩] := by
  simp [Lays, indented, Row.join, Row.line, indent]

/-- A key goes to the first row. -/
theorem lays_keyed (hkey : key ++ ": " = pre) (h : Lays pre d o post rows) :
    Lays "" d (.keyed key o) post rows := by
  rw [Lays, indented, ← h, ← hkey]
  simp only [String.empty_append, String.append_assoc]

theorem layAll_nil : LayAll d [] [] := rfl

/-- A part has a comma behind it. -/
theorem layAll_cons (h : Lays "" d o "," rows) (hparts : LayAll d parts rows') :
    LayAll d (o :: parts) (rows ++ rows') := by
  rw [LayAll, indentedParts, String.join_cons, Row.join_append, ← h, hparts]
  simp [String.append_assoc]

theorem layAll_singleton (h : Lays "" d o "," rows) : LayAll d [o] rows := by
  simpa using layAll_cons h layAll_nil

/-- Parts that are made alike have their rows one behind the other. -/
theorem layAll_map {α : Type} {f : α → Outline} {g : α → List Row} {as : List α}
    (h : ∀ a ∈ as, Lays "" d (f a) "," (g a)) : LayAll d (as.map f) (as.flatMap g) := by
  induction as with
  | nil => exact layAll_nil
  | cons a as ih =>
    obtain ⟨ha, has⟩ := List.forall_mem_cons.mp h
    exact layAll_cons ha (ih has)

/-- **The rows of a group** are those of its parts, inside its bracket. -/
theorem lays_group (hfirst : pre ++ name ++ opening b = first) (hlast : closing b ++ post = last)
    (hne : parts ≠ []) (h : LayAll (d + 1) parts rows) :
    Lays pre d (.group name b parts) post (enclosed d first last rows) := by
  obtain ⟨part, parts, rfl⟩ := List.exists_cons_of_ne_nil hne
  rw [Lays, indented, h, ← hfirst, ← hlast]
  simp [enclosed, Row.join, Row.line, indent, String.append_assoc]

theorem lays_wrap (hfirst : pre ++ name ++ "(" = first) (hlast : ")" ++ post = last)
    (h : Lays "" (d + 1) o "," rows) :
    Lays pre d (wrap name o) post (enclosed d first last rows) :=
  lays_group hfirst hlast (List.cons_ne_nil _ _) (layAll_singleton h)

/-- The rows of a record are those of its fields, each behind its key. -/
theorem lays_record (hfirst : pre ++ name ++ " \x7b" = first) (hlast : "\x7d" ++ post = last)
    (hne : fields ≠ [])
    (h : LayAll (d + 1) (fields.map fun (key, value) => .keyed key value) rows) :
    Lays pre d (record name fields) post (enclosed d first last rows) :=
  lays_group hfirst hlast (by simpa using hne) h

theorem lays_sequence (hfirst : pre ++ "[" = first) (hlast : "]" ++ post = last)
    (hne : parts ≠ []) (h : LayAll (d + 1) parts rows) :
    Lays pre d (sequence parts) post (enclosed d first last rows) :=
  lays_group (by rw [← hfirst, String.append_empty]; rfl) hlast hne h

end Layout

end Text.Outline

/-! ## 3. Rows of a tree -/

section Trees

open Text.Outline

variable {pre post first last : String} {d : Nat}

theorem Position.lays (hfirst : pre ++ "Position" ++ " \x7b" = first)
    (hlast : "\x7d" ++ post = last) (p : Position) :
    Lays pre d p.outline post (enclosed d first last (p.rows (d + 1))) := by
  refine lays_record hfirst hlast (List.cons_ne_nil _ _) ?_
  have hcount (key : String) (n : Nat) :
      Lays "" (d + 1) (.keyed key (number n)) "," [⟨d + 1, key ++ ": " ++ toString n ++ ","⟩] :=
    lays_keyed rfl (lays_word _)
  exact layAll_cons (hcount "offset" _)
    (layAll_cons (hcount "line" _) (layAll_singleton (hcount "column" _)))

theorem Span.lays (hfirst : pre ++ "Span" ++ " \x7b" = first) (hlast : "\x7d" ++ post = last)
    (s : Span) : Lays pre d s.outline post (enclosed d first last (s.rows (d + 1))) := by
  refine lays_record hfirst hlast (List.cons_ne_nil _ _) ?_
  exact layAll_cons (lays_keyed rfl (s.start.lays rfl rfl))
    (layAll_singleton (lays_keyed rfl (s.stop.lays rfl rfl)))

/-- A visible character of ASCII leaves a mark. -/
theorem Text.isUnmarked_eq_false {c : Char} (hlo : 32 ≤ c.toNat) (hhi : c.toNat < 127) :
    Text.isUnmarked c = false := by
  -- Two flips are below it, and all others above.
  have hbelow : Text.Unmarked.flips.take 2 = [0x0, 0x20] := rfl
  have habove : ∀ flip ∈ Text.Unmarked.flips.drop 2, 127 ≤ flip := by decide +kernel
  have hnone : (Text.Unmarked.flips.drop 2).countP (· ≤ c.toNat) = 0 := by
    refine List.countP_eq_zero.mpr fun flip hflip => ?_
    have := habove flip hflip
    simp only [decide_eq_true_eq]
    omega
  have hboth : [0x0, 0x20].countP (· ≤ c.toNat) = 2 := by simp [hlo]
  rw [Text.isUnmarked, ← List.take_append_drop 2 Text.Unmarked.flips, List.countP_append, hnone,
    hbelow, hboth]
  rfl

theorem quoteChar_of_isWordPart {c : Char} (h : isWordPart c = true) :
    Text.quoteChar c = [c] := by
  have hrange : 48 ≤ c.toNat ∧ c.toNat ≤ 122 ∧ c.toNat ≠ 92 := by
    rw [Rule.isWordPart_eq, Bool.or_eq_true, Rule.isWordStart_iff_toNat,
      Rule.isDigit_iff_toNat] at h
    omega
  have hshort : Text.shortForm? c = none := by
    unfold Text.shortForm?
    split
    case h_7 => rfl
    all_goals exact absurd hrange (by decide)
  rw [Text.quoteChar, hshort]
  have hmarked := Text.isUnmarked_eq_false (c := c) (by omega) (by omega)
  simp [hmarked]

/-- A name stands between quotes as it is. -/
theorem quote_of_isName {name : String} (h : IsName name) :
    Text.quote name = "\"" ++ name ++ "\"" := by
  have hchars : ∀ c ∈ name.toList, Text.quoteChar c = [c] := by
    obtain ⟨⟨c, rest, htext, hc, hrest⟩, -⟩ := h
    rw [htext]
    refine List.forall_mem_cons.mpr ⟨quoteChar_of_isWordPart ?_, fun d hd => ?_⟩
    · exact isWordPart_iff.mpr (.inl hc)
    · exact quoteChar_of_isWordPart (List.all_eq_true.mp hrest d hd)
  rw [Text.quote, List.flatMap_congr hchars, ← String.toList_inj]
  simp

theorem Identifier.lays {id : Identifier} (hfirst : pre ++ "Identifier" ++ " \x7b" = first)
    (hlast : "\x7d" ++ post = last) (h : IsName id.name) :
    Lays pre d id.outline post (enclosed d first last (id.rows (d + 1))) := by
  refine lays_record hfirst hlast (List.cons_ne_nil _ _) ?_
  have htext : "name: " ++ ("\"" ++ id.name ++ "\"") ++ "," = "name: \"" ++ id.name ++ "\"," := by
    simp [← String.toList_inj]
  have hname : Lays "" (d + 1) (.keyed "name" (.word (Text.quote id.name))) ","
      [⟨d + 1, "name: \"" ++ id.name ++ "\","⟩] := by
    rw [quote_of_isName h, ← htext]
    exact lays_keyed rfl (lays_word _)
  have hspan : Lays "" (d + 1) (.keyed "span" id.span.outline) ","
      (enclosed (d + 1) "span: Span \x7b" "\x7d," (id.span.rows (d + 2))) :=
    lays_keyed rfl (id.span.lays rfl rfl)
  have hfields := layAll_cons hname (layAll_singleton hspan)
  exact hfields

/-- Items of a list, in the bracket of the list and their own. -/
theorem lays_items {items : List Text.Outline} {rows : List Row}
    (hfirst : pre ++ "List" ++ " \x7b" = first) (hlast : "\x7d" ++ post = last)
    (hne : items ≠ []) (h : LayAll (d + 2) items rows) :
    Lays pre d (Node.itemsOutline items) post
      (enclosed d first last (enclosed (d + 1) "items: [" "]," rows)) := by
  refine lays_record hfirst hlast (List.cons_ne_nil _ _) (layAll_singleton ?_)
  exact lays_keyed rfl (lays_sequence rfl rfl hne h)

theorem outlines_eq_map (ns : List Node) : Node.outlines ns = ns.map Node.outline := by
  induction ns with
  | nil => rfl
  | cons n ns ih => rw [Node.outlines, ih, List.map_cons]

theorem lays_path {path : List Identifier} (hfirst : pre ++ "List" ++ " \x7b" = "path: List \x7b")
    (hlast : "\x7d" ++ post = "\x7d,") (hne : path ≠ []) (h : ∀ id ∈ path, IsName id.name) :
    Lays pre d (Node.itemsOutline (Node.outlines (path.map .identifier))) post
      (pathRows d path) := by
  rw [outlines_eq_map, List.map_map]
  refine lays_items hfirst hlast (by simpa using hne) (layAll_map fun id hid => ?_)
  exact lays_wrap rfl rfl (Identifier.lays rfl rfl (h id hid))

theorem lays_member {member : Option Identifier} (h : ∀ id ∈ member, IsName id.name) :
    Lays "member: " d (optional (member.map Identifier.outline)) "," (memberRows d member) := by
  cases member with
  | none => exact lays_word _
  | some id => exact lays_wrap rfl rfl (Identifier.lays rfl rfl (h id rfl))

theorem Using.lays {u : Using} (h : u.WellFormed) :
    Lays "" d u.toNode.outline ","
      (enclosed d "PathAlias(" "),"
        (enclosed (d + 1) "PathAlias \x7b" "\x7d," (u.rows (d + 2)))) := by
  obtain ⟨hne, hpath, hmember, hknownAs⟩ := h
  refine lays_wrap rfl rfl (lays_record rfl rfl (List.cons_ne_nil _ _) ?_)
  rw [Using.rows, List.append_assoc]
  exact layAll_cons (lays_keyed rfl (lays_path rfl rfl hne hpath))
    (layAll_cons (lays_keyed rfl (lays_member hmember))
      (layAll_singleton (lays_keyed rfl (Identifier.lays rfl rfl hknownAs))))

theorem Clause.lays {c : Clause} (h : c.WellFormed) :
    Lays "" d c.toNode.outline "," (c.rows d) := by
  cases c with
  | unit path =>
    refine lays_wrap rfl rfl (lays_record rfl rfl (List.cons_ne_nil _ _) (layAll_singleton ?_))
    exact lays_keyed rfl (lays_path rfl rfl h.1 h.2)
  | uses imports =>
    refine lays_wrap rfl rfl (lays_record rfl rfl (List.cons_ne_nil _ _) (layAll_singleton ?_))
    refine lays_keyed rfl ?_
    rw [outlines_eq_map, List.map_map]
    exact lays_items rfl rfl (by simpa using h.1) (layAll_map fun u hu => Using.lays (h.2 u hu))

/-- **The rows of a program** are what is printed of its tree. -/
theorem Program.join_rows {p : Program} (h : Program.WellFormed p) :
    (Program.toNode p).outline.indented 0 ++ "\n" = Row.join (Program.rows p) := by
  have hlays : Lays "" 0 (Program.toNode p).outline "" (Program.rows p) := by
    refine lays_wrap rfl rfl ?_
    rw [outlines_eq_map, List.map_map]
    exact lays_items rfl rfl (by simpa using h.1) (layAll_map fun c hc => Clause.lays (h.2 c hc))
  simpa [Lays, indent] using hlays

end Trees

/-! ## 4. Each row is one line -/

section Lines

variable {first last : String} {d : Nat} {rows rows' : List Row}

/-- No row has a line feed in it. -/
def OneLine (rows : List Row) : Prop := ∀ r ∈ rows, '\n' ∉ r.text.toList

theorem OneLine.append (h : OneLine rows) (h' : OneLine rows') : OneLine (rows ++ rows') :=
  List.forall_mem_append.mpr ⟨h, h'⟩

theorem OneLine.enclosed (hfirst : '\n' ∉ first.toList) (hlast : '\n' ∉ last.toList)
    (h : OneLine rows) : OneLine (enclosed d first last rows) :=
  .append (List.forall_mem_cons.mpr ⟨hfirst, h⟩) (List.forall_mem_singleton.mpr hlast)

theorem oneLine_flatMap {α : Type} {as : List α} {g : α → List Row}
    (h : ∀ a ∈ as, OneLine (g a)) : OneLine (as.flatMap g) := by
  intro r hr
  obtain ⟨a, ha, hmem⟩ := List.mem_flatMap.mp hr
  exact h a ha r hmem

theorem Position.oneLine_rows (d : Nat) (p : Position) : OneLine (p.rows d) := by
  have hcount (n : Nat) : '\n' ∉ Nat.toDigits 10 n := by
    simpa using Report.notMem_toString (c := '\n') (by decide) n
  simp [OneLine, Position.rows, hcount]

theorem Span.oneLine_rows (d : Nat) (s : Span) : OneLine (s.rows d) :=
  .append (.enclosed (by decide) (by decide) (s.start.oneLine_rows _))
    (.enclosed (by decide) (by decide) (s.stop.oneLine_rows _))

theorem IsName.newline_notMem {name : String} (h : IsName name) : '\n' ∉ name.toList := by
  obtain ⟨⟨c, rest, htext, hc, hrest⟩, -⟩ := h
  rw [htext]
  intro hmem
  rcases List.mem_cons.mp hmem with rfl | hmem
  · exact absurd hc (by decide)
  · exact absurd (List.all_eq_true.mp hrest _ hmem) (by decide)

theorem Identifier.oneLine_rows {id : Identifier} (h : IsName id.name) (d : Nat) :
    OneLine (id.rows d) := by
  have hspan : OneLine (enclosed d "span: Span \x7b" "\x7d," (id.span.rows (d + 1))) :=
    .enclosed (by decide) (by decide) (id.span.oneLine_rows _)
  exact List.forall_mem_cons.mpr ⟨by simp [h.newline_notMem], hspan⟩

theorem oneLine_pathRows {path : List Identifier} (h : ∀ id ∈ path, IsName id.name) (d : Nat) :
    OneLine (pathRows d path) := by
  refine .enclosed (by decide) (by decide) (.enclosed (by decide) (by decide) ?_)
  refine oneLine_flatMap fun id hid => .enclosed (by decide) (by decide) ?_
  exact .enclosed (by decide) (by decide) (Identifier.oneLine_rows (h id hid) _)

theorem oneLine_memberRows {member : Option Identifier} (h : ∀ id ∈ member, IsName id.name)
    (d : Nat) : OneLine (memberRows d member) := by
  cases member with
  | none => exact List.forall_mem_singleton.mpr (by decide : '\n' ∉ "member: None,".toList)
  | some id =>
    refine .enclosed (by decide) (by decide) (.enclosed (by decide) (by decide) ?_)
    exact Identifier.oneLine_rows (h id rfl) _

theorem Using.oneLine_rows {u : Using} (h : u.WellFormed) (d : Nat) : OneLine (u.rows d) := by
  obtain ⟨-, hpath, hmember, hknownAs⟩ := h
  refine .append (.append (oneLine_pathRows hpath d) (oneLine_memberRows hmember d)) ?_
  exact .enclosed (by decide) (by decide) (Identifier.oneLine_rows hknownAs _)

theorem Clause.oneLine_rows {c : Clause} (h : c.WellFormed) (d : Nat) : OneLine (c.rows d) := by
  cases c with
  | unit path =>
    refine .enclosed (by decide) (by decide) (.enclosed (by decide) (by decide) ?_)
    exact oneLine_pathRows h.2 _
  | uses imports =>
    refine .enclosed (by decide) (by decide) (.enclosed (by decide) (by decide) ?_)
    refine .enclosed (by decide) (by decide) (.enclosed (by decide) (by decide) ?_)
    refine oneLine_flatMap fun u hu => .enclosed (by decide) (by decide) ?_
    exact .enclosed (by decide) (by decide) (Using.oneLine_rows (h.2 u hu) _)

theorem Program.oneLine_rows {p : Program} (h : Program.WellFormed p) :
    OneLine (Program.rows p) := by
  refine .enclosed (by decide) (by decide) (.enclosed (by decide) (by decide) ?_)
  refine .enclosed (by decide) (by decide) (oneLine_flatMap fun c hc => ?_)
  exact Clause.oneLine_rows (h.2 c hc) _

end Lines

end UnitLang
