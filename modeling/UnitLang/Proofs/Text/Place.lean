/-
# Places in a text

A position is carried along while its text goes by (`Position.advance`).  Here its three counts
are read off the text instead: the bytes before the place, one line more than the line feeds
before it, and the bytes from the last of these line feeds on.  `isIn_advance_start` says that the
counts carried along are the counts read off, and that the column really is a difference: the
line of a place begins at `lineStart`, which is never behind the place.

What is read from one text, at positions counted from its start, may stand behind another text or
on a line below it.  `Position.behind` and `Position.below` are the positions there.  Both go
along with a step over a character (`after_behind`, `after_below`), so they go along with any
reading.
-/
import UnitLang.Position
import Mathlib.Data.List.DropRight
import Mathlib.Data.List.Induction
import Mathlib.Data.String.Basic

namespace UnitLang

/-! ## 1. The last line of a text -/

/-- What stands behind the last line feed; the whole text if there is none. -/
def lastLine (text : List Char) : List Char := text.rtakeWhile (· ≠ '\n')

/-- The bytes up to the last line feed, with it; none if there is no line feed. -/
def lineStart (text : List Char) : Nat := String.utf8Len (text.rdropWhile (· ≠ '\n'))

theorem lineStart_add_lastLine (text : List Char) :
    lineStart text + String.utf8Len (lastLine text) = String.utf8Len text := by
  rw [lineStart, lastLine, ← String.utf8Len_append, List.rdropWhile_append_rtakeWhile]

@[simp] theorem lastLine_append_newline (text : List Char) : lastLine (text ++ ['\n']) = [] :=
  List.rtakeWhile_concat_neg _ _ _ (by simp)

theorem lastLine_append_other {c : Char} (text : List Char) (hc : c ≠ '\n') :
    lastLine (text ++ [c]) = lastLine text ++ [c] :=
  List.rtakeWhile_concat_pos _ _ _ (by simpa using hc)

/-- A text that is not empty takes bytes. -/
theorem utf8Len_pos {text : List Char} (h : text ≠ []) : 0 < String.utf8Len text :=
  Nat.pos_of_ne_zero (mt String.utf8Len_eq_zero.mp h)

attribute [ext] Position

namespace Position

/-! ## 2. The counts of a place -/

/-- Carried along, the offset counts the bytes that go by. -/
theorem offset_advance (p : Position) (text : List Char) :
    (p.advance text).offset = p.offset + String.utf8Len text := by
  induction text generalizing p with
  | nil => rfl
  | cons c text ih =>
    rw [advance_cons, ih, offset_after, String.utf8Len_cons]
    omega

/-- Carried along from the start, the column counts the bytes of the last line. -/
theorem column_advance_start (text : List Char) :
    (start.advance text).column = String.utf8Len (lastLine text) := by
  induction text using List.reverseRecOn with
  | nil => rfl
  | append_singleton text c ih =>
    rw [advance_append, advance_cons, advance_nil, after]
    by_cases hc : c = '\n'
    · rw [if_pos hc, hc, lastLine_append_newline]
      rfl
    · rw [if_neg hc, lastLine_append_other text hc, String.utf8Len_append, ← ih,
        String.utf8Len_cons, String.utf8Len_nil, Nat.zero_add]

/-- A source cut at a place is what stands before it and what stands behind it, and the offset of
the place counts the bytes before it. -/
theorem cut_advance_start {source : String} {front rest : List Char}
    (h : source.toList = front ++ rest) :
    source = String.ofList front ++ String.ofList rest ∧
      (String.ofList front).utf8ByteSize = (start.advance front).offset := by
  constructor
  · rw [← String.ofList_append, ← h, String.ofList_toList]
  · rw [String.utf8ByteSize_ofList, offset_advance]
    exact (Nat.zero_add _).symm

/-- The position of a place in the source, by what stands before it: on the boundary of two
characters, with its line and its column counted from there. -/
structure IsIn (q : Position) (source : String) : Prop where
  /-- No place is behind the end. -/
  offset_le : q.offset ≤ source.utf8ByteSize
  /-- The offset counts bytes, the line counts line feeds, and the column is what the offset is
  ahead of the start of the line. -/
  counts : ∃ before after, source = before ++ after ∧ q.offset = before.utf8ByteSize ∧
    q.line = 1 + before.toList.count '\n' ∧
    lineStart before.toList ≤ q.offset ∧ q.column = q.offset - lineStart before.toList

/-- **What is carried along is what the text counts.** -/
theorem isIn_advance_start {source : String} {front rest : List Char}
    (h : source.toList = front ++ rest) : (start.advance front).IsIn source := by
  obtain ⟨hsource, hoffset⟩ := cut_advance_start h
  have hsize : (String.ofList front).utf8ByteSize = String.utf8Len front :=
    String.utf8ByteSize_ofList front
  have hlast := lineStart_add_lastLine front
  refine ⟨?_, String.ofList front, String.ofList rest, hsource, hoffset.symm, ?_, ?_, ?_⟩
  · rw [hsource, String.utf8ByteSize_append, hoffset]
    exact Nat.le_add_right _ _
  · rw [line_advance, String.toList_ofList]
    rfl
  · rw [← hoffset, hsize, String.toList_ofList]
    omega
  · rw [← hoffset, hsize, column_advance_start, String.toList_ofList]
    omega

/-! ## 3. Places behind another text -/

/-- Where a place is that was counted from the start of a text, when that text stands behind
`before`: only on its first line do the columns count on from there. -/
def behind (before : List Char) (q : Position) : Position where
  offset := String.utf8Len before + q.offset
  line := before.count '\n' + q.line
  column := if q.line = 1 then String.utf8Len (lastLine before) + q.column else q.column

/-- Where a place is that was counted from the start of a text, when that text stands on the lines
below `before`. -/
def below (before : String) (q : Position) : Position where
  offset := before.utf8ByteSize + 1 + q.offset
  line := before.toList.count '\n' + 1 + q.line
  column := q.column

/-- The start of the text is where the text before it ends. -/
theorem behind_start (before : List Char) : start.behind before = start.advance before := by
  ext
  · rw [offset_advance, Nat.add_comm]
    rfl
  · rw [line_advance, Nat.add_comm]
    rfl
  · rw [column_advance_start]
    simp [behind, start]

theorem below_start (before : String) :
    start.below before = (start.advance before.toList).after '\n' := by
  have hsize : ('\n').utf8Size = 1 := rfl
  ext
  · rw [offset_after, offset_advance, String.utf8Len_toList, hsize]
    simp [below, start]
  · rw [line_after, line_advance]
    simp only [below, start, if_true]
    omega
  · rfl

/-- Passing over a character, a place behind a text stays behind it.  There is no line before the
first. -/
theorem after_behind (before : List Char) {q : Position} (hq : 1 ≤ q.line) (c : Char) :
    (q.after c).behind before = (q.behind before).after c := by
  unfold after
  split
  · have hline : q.line ≠ 0 := by omega
    ext <;> simp [behind, hline, Nat.add_assoc]
  · by_cases hline : q.line = 1
    · ext <;> simp [behind, hline, Nat.add_assoc]
    · ext <;> simp [behind, hline, Nat.add_assoc]

/-- Passing over a character, a place below a text stays below it. -/
theorem after_below (before : String) (q : Position) (c : Char) :
    (q.after c).below before = (q.below before).after c := by
  unfold after
  split
  · ext <;> simp [below, Nat.add_assoc]
  · ext <;> simp [below, Nat.add_assoc]

/-- Passing over a text, the line does not go back. -/
theorem line_le_advance (q : Position) (text : List Char) : q.line ≤ (q.advance text).line := by
  rw [line_advance]
  exact Nat.le_add_right _ _

end Position

end UnitLang
