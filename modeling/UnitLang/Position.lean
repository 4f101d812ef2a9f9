/-
# Positions in a source text

A position is counted in three ways at once: bytes from the start of the text, lines from 1,
and bytes from the start of the line.  It is never computed from the text behind it; it is
carried along, one character at a time (`Position.after`), and a whole text moves it by folding
that step (`Position.advance`).  Only the line feed starts a line.

Passing over two texts is passing over one and then the other (`advance_append`), and the line
grows by the number of line feeds (`line_advance`).
-/

namespace UnitLang

/-! ## 1. Positions -/

/-- A place in a source text: bytes before it, its line counted from 1, and the bytes before it
on that line. -/
structure Position where
  offset : Nat
  line : Nat
  column : Nat
deriving DecidableEq, Repr, Inhabited

namespace Position

/-- The place before the first character. -/
def start : Position := ⟨0, 1, 0⟩

/-- The place behind `c`, when `c` stands at `p`. -/
def after (p : Position) (c : Char) : Position :=
  if c = '\n' then ⟨p.offset + c.utf8Size, p.line + 1, 0⟩
  else ⟨p.offset + c.utf8Size, p.line, p.column + c.utf8Size⟩

/-- The place behind `text`, when `text` begins at `p`. -/
def advance (p : Position) (text : List Char) : Position := text.foldl after p

@[simp] theorem advance_nil (p : Position) : p.advance [] = p := rfl

@[simp] theorem advance_cons (p : Position) (c : Char) (text : List Char) :
    p.advance (c :: text) = (p.after c).advance text := rfl

theorem advance_append (p : Position) (a b : List Char) :
    p.advance (a ++ b) = (p.advance a).advance b := by
  simp [advance]

@[simp] theorem offset_after (p : Position) (c : Char) :
    (p.after c).offset = p.offset + c.utf8Size := by
  unfold after; split <;> rfl

theorem line_after (p : Position) (c : Char) :
    (p.after c).line = p.line + if c = '\n' then 1 else 0 := by
  unfold after; split <;> simp

theorem line_advance (p : Position) (text : List Char) :
    (p.advance text).line = p.line + text.count '\n' := by
  induction text generalizing p with
  | nil => simp
  | cons c text ih =>
    by_cases h : c = '\n'
    · simp [ih, line_after, h]
      omega
    · simp [ih, line_after, h]

end Position

/-! ## 2. Spans -/

/-- The stretch of text between two places, the first included and the second not. -/
structure Span where
  start : Position
  stop : Position
deriving DecidableEq, Repr, Inhabited

end UnitLang
