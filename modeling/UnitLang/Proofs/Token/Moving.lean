/-
# Items that move

The scanner carries nothing along but the position: which tokens it finds, and how they end, is
settled by the text.  So read from another position, a text has the same items at other places.
`Position.Carries f` says of a map between places that it goes along with reading, and then
`items_move` says that the items read from `f p` are those read from `p`, moved by `f`.

Hence texts can be joined at layout: behind the tokens of a text and any layout, the items of
another text follow as they are (`items_behind_layout`), and which layout it is shows only in
their places.
-/
import UnitLang.Proofs.Text.Place
import UnitLang.Proofs.Token.Layout

namespace UnitLang

/-! ## 1. Moved places -/

/-- The span between the moved places. -/
def Span.move (f : Position → Position) (s : Span) : Span := ⟨f s.start, f s.stop⟩

/-- The same token at another place. -/
def Token.move (f : Position → Position) (t : Token) : Token := ⟨t.kind, t.value, t.span.move f⟩

/-- The same error at another place. -/
def Error.move (f : Position → Position) (e : Error) : Error := ⟨e.cause, f e.position⟩

/-- The same ending at another place. -/
def Ending.move (f : Position → Position) : Ending → Ending
  | ended p => .ended (f p)
  | failed e => .failed (e.move f)

namespace Items

/-- The same items at other places. -/
def move (f : Position → Position) (is : Items) : Items :=
  ⟨is.tokens.map (Token.move f), is.ending.move f⟩

/-- The same item at another place. -/
def moveItem (f : Position → Position) : Except Error Token → Except Error Token
  | .ok t => .ok (t.move f)
  | .error e => .error (e.move f)

/-- What an item is, apart from its place. -/
def unplaced : Except Error Token → Except Cause (Kind × String)
  | .ok t => .ok (t.kind, t.value)
  | .error e => .error e.cause

theorem toList_move (f : Position → Position) (is : Items) :
    (is.move f).toList = is.toList.map (moveItem f) := by
  obtain ⟨ts, e⟩ := is
  cases e with
  | ended p => simp [toList, move, Ending.move, moveItem, Token.move, Token.endOfInput, Span.move]
  | failed e => simp [toList, move, Ending.move, moveItem]

theorem map_unplaced_moveItem (f : Position → Position) (items : List (Except Error Token)) :
    (items.map (moveItem f)).map unplaced = items.map unplaced := by
  rw [List.map_map]
  refine List.map_congr_left fun item _ => ?_
  cases item <;> rfl

/-- Tokens before some items come first. -/
theorem toList_append (ts : List Token) (is : Items) :
    toList ⟨ts ++ is.tokens, is.ending⟩ = ts.map .ok ++ is.toList := by
  rw [toList, toList, List.map_append, List.append_assoc]

end Items

/-! ## 2. Reading from a moved place -/

/-- Places move along with reading: a character leads from the moved place to where it led from
the place, moved.  This need hold only on the lines there are. -/
def Position.Carries (f : Position → Position) : Prop :=
  ∀ (q : Position) (c : Char), 1 ≤ q.line → f (q.after c) = (f q).after c

namespace Position

theorem carries_behind (before : List Char) : Carries (behind before) :=
  fun _ c hq => after_behind before hq c

theorem carries_below (before : String) : Carries (below before) :=
  fun q c _ => after_below before q c

variable {f : Position → Position} {p : Position}

theorem Carries.advance (hf : Carries f) (hp : 1 ≤ p.line) (text : List Char) :
    f (p.advance text) = (f p).advance text := by
  induction text generalizing p with
  | nil => rfl
  | cons c text ih =>
    have hline : 1 ≤ (p.after c).line := Nat.le_trans hp (line_le_advance p [c])
    rw [advance_cons, ih hline, hf p c hp, advance_cons]

end Position

section Reading

variable {f : Position → Position} {p : Position}

/-- **The text settles the items**: read from a moved place, they are the same, moved. -/
theorem items_move (hf : Position.Carries f) (hp : 1 ≤ p.line) (text : List Char) :
    items (f p) text = (items p text).move f := by
  induction p, text using lex_induction with
  | nil p =>
    rw [items_nil, items_nil]
    rfl
  | stuck p c rest hfirst =>
    rw [items_stuck hfirst, items_stuck hfirst]
    rfl
  | silent p text r n hfirst hk ih =>
    rw [items_silent hfirst hk, items_silent hfirst hk, ← hf.advance hp]
    exact ih (Nat.le_trans hp (Position.line_le_advance p _))
  | token p text r n k hfirst hk ih =>
    rw [items_token hfirst hk, items_token hfirst hk, ← hf.advance hp,
      ih (Nat.le_trans hp (Position.line_le_advance p _))]
    simp [Items.move, Token.cut, Token.move, Span.move, hf.advance hp]

end Reading

/-! ## 3. Texts joined at layout -/

section Joining

variable {u w : String} {ts : List Token} {stop : Position}

/-- Behind the tokens of a text and some layout, the items of any text follow. -/
theorem itemsOf_append_layout (hu : itemsOf u = ⟨ts, .ended stop⟩)
    (hopen : ¬ EndsInComment .start u.toList) (hw : IsLayout w.toList) (hne : w ≠ "")
    (v : String) :
    itemsOf (u ++ w ++ v) =
      ⟨ts ++ ((itemsOf v).move (Position.behind (u ++ w).toList)).tokens,
        ((itemsOf v).move (Position.behind (u ++ w).toList)).ending⟩ := by
  have hlexes := lexes_of_ended hu
  obtain ⟨c, tail, hcw⟩ := List.exists_cons_of_ne_nil (mt String.toList_eq_nil_iff.mp hne)
  have hc : Rule.BeginsLayout c := IsLayout.beginsLayout (w := tail) (by rwa [← hcw])
  have htext : (u ++ w ++ v).toList = u.toList ++ c :: (tail ++ v.toList) := by
    simp [hcw]
  have hplace : stop.advance w.toList = Position.start.behind (u ++ w).toList := by
    rw [Position.behind_start, String.toList_append, hlexes.eq_advance, Position.advance_append]
  rw [itemsOf, htext, hlexes.items_append_layout rfl hc (fun h => absurd h hopen),
    ← List.cons_append, ← hcw, items_layout hw, hplace,
    items_move (Position.carries_behind _) (Nat.le_refl 1)]
  rfl

/-- **Layout parts texts.**  Behind the tokens of a text and any layout that is not empty, another
text has the items that it has alone, at the places there.  So with other layout in its stead, all
items are the same but for their places.  The text must not end in a line comment that is cut
off, which the layout would go on with. -/
theorem items_behind_layout (hu : tokenize u = .ok (ts ++ [Token.endOfInput stop]))
    (hopen : ¬ EndsInComment .start u.toList) (hw : IsLayout w.toList) (hne : w ≠ "")
    (v : String) :
    (itemsOf (u ++ w ++ v)).toList =
        ts.map .ok ++ (itemsOf v).toList.map (Items.moveItem (.behind (u ++ w).toList)) ∧
      ∀ w' : String, IsLayout w'.toList → w' ≠ "" →
        (itemsOf (u ++ w' ++ v)).toList.map Items.unplaced =
          (itemsOf (u ++ w ++ v)).toList.map Items.unplaced := by
  obtain ⟨_, _, his, heq⟩ := tokenize_eq_ok_iff.mp hu
  obtain ⟨rfl, -⟩ := List.append_inj' heq rfl
  have hitems {w : String} (hw : IsLayout w.toList) (hne : w ≠ "") :
      (itemsOf (u ++ w ++ v)).toList =
        ts.map .ok ++ (itemsOf v).toList.map (Items.moveItem (.behind (u ++ w).toList)) := by
    rw [itemsOf_append_layout his hopen hw hne, Items.toList_append, Items.toList_move]
  have hunplaced {w : String} (hw : IsLayout w.toList) (hne : w ≠ "") :
      (itemsOf (u ++ w ++ v)).toList.map Items.unplaced =
        (ts.map Except.ok ++ (itemsOf v).toList).map Items.unplaced := by
    rw [hitems hw hne, List.map_append, List.map_append, Items.map_unplaced_moveItem]
  refine ⟨hitems hw hne, ?_⟩
  intro w' hw' hne'
  rw [hunplaced hw' hne', hunplaced hw hne]

/-- A line comment and an annotation part two words, and an error moves with them; one column is
counted on, the other is not. -/
theorem items_behind_layout_comment :
    (tokenize "a" = .ok ([⟨.identifier, "a", ⟨⟨0, 1, 0⟩, ⟨1, 1, 1⟩⟩⟩] ++
        [Token.endOfInput ⟨1, 1, 1⟩]) ∧
      ¬ EndsInComment .start "a".toList ∧ IsLayout "//;\n\x7b.\x7d".toList ∧
      IsLayout " ".toList) ∧
    (itemsOf ("a" ++ "//;\n\x7b.\x7d" ++ "b\n@")).toList =
      [.ok ⟨.identifier, "a", ⟨⟨0, 1, 0⟩, ⟨1, 1, 1⟩⟩⟩,
        .ok ⟨.identifier, "b", ⟨⟨8, 2, 3⟩, ⟨9, 2, 4⟩⟩⟩, .error (.unrecognised ⟨10, 3, 0⟩ '@')] ∧
    (itemsOf ("a" ++ " " ++ "b\n@")).toList.map Items.unplaced =
      (itemsOf ("a" ++ "//;\n\x7b.\x7d" ++ "b\n@")).toList.map Items.unplaced := by
  have hu : tokenize "a" = .ok ([⟨.identifier, "a", ⟨⟨0, 1, 0⟩, ⟨1, 1, 1⟩⟩⟩] ++
      [Token.endOfInput ⟨1, 1, 1⟩]) := by decide +kernel
  have hopen : ¬ EndsInComment .start "a".toList := by
    rintro ⟨ts, q, body, hlexes, -⟩
    obtain ⟨front, hfront, -, -⟩ := hlexes.cut_off
    have hmem : '/' ∈ "a".toList := by simp [hfront]
    exact absurd hmem (by decide)
  have hw : IsLayout "//;\n\x7b.\x7d".toList := by
    have hcomment : IsSilentSpan ('/' :: '/' :: ([';'] ++ ['\n'])) := .comment (by decide)
    have hbraces : IsSilentSpan ('\x7b' :: (['.'] ++ ['\x7d'])) := .braces (by decide)
    exact .span hcomment (.span hbraces .nil)
  have hspace : IsLayout " ".toList := by
    have hblank : IsSilentSpan [' '] :=
      .blanks (by decide) (List.forall_mem_singleton.mpr (by decide))
    exact .span hblank .nil
  obtain ⟨hitems, hunplaced⟩ := items_behind_layout hu hopen hw (by decide) "b\n@"
  have hv : (itemsOf "b\n@").toList = [.ok ⟨.identifier, "b", ⟨⟨0, 1, 0⟩, ⟨1, 1, 1⟩⟩⟩,
      .error (.unrecognised ⟨2, 2, 0⟩ '@')] := by decide +kernel
  refine ⟨⟨hu, hopen, hw, hspace⟩, ?_, hunplaced " " hspace (by decide)⟩
  rw [hitems, hv]
  decide +kernel

end Joining

end UnitLang
