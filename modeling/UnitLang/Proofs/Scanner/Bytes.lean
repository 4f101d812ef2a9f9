/-
# A scanner that counts bytes

A scanner can keep its whole source and a cursor into it, instead of the text that is left
(`ByteScanner`).  The cursor is a number of bytes, and so is the length of a match.  Nothing in the
type keeps the cursor inside the source or off the middle of a character, so a cut of the source
may be refused (`cutAt?`); and nothing says that a call comes to its end, which passes over one
match after the other until there is something to hand out (`ByteScanner.pass?`).

Such a scanner stands for another if the text from its cursor on is what the other has left, and
its counts give the other's position (`ByteScanner.StandsFor`).  Then no cut is refused, and a pass
is one step along the matches of that text: over a match (`StandsFor.pass?_of_match`), at the end
(`pass?_of_nil`, `pass?_of_ended`), or at a character that no rule matches (`pass?_of_stuck`).
-/
import UnitLang.Proofs.Token.Longest
import UnitLang.Scanner

namespace UnitLang

/-! ## 1. Cuts -/

/-- The first `i` bytes of a text, and the text behind them; refused if there are fewer, or if the
last of them is not the end of a character. -/
def cutAt? : Nat → List Char → Option (List Char × List Char)
  | 0, text => some ([], text)
  | _ + 1, [] => none
  | i + 1, c :: text =>
    if c.utf8Size ≤ i + 1 then
      (cutAt? (i + 1 - c.utf8Size) text).map fun (front, rest) => (c :: front, rest)
    else none

/-- A cut is allowed just where the text falls into two texts. -/
theorem cutAt?_eq_some_iff {i : Nat} {text front rest : List Char} :
    cutAt? i text = some (front, rest) ↔ text = front ++ rest ∧ String.utf8Len front = i := by
  fun_induction cutAt? i text generalizing front with
  | case1 text =>
    rw [String.utf8Len_eq_zero]
    constructor
    · rintro ⟨⟩
      exact ⟨rfl, rfl⟩
    · rintro ⟨rfl, rfl⟩
      rfl
  | case2 i =>
    constructor
    · rintro ⟨⟩
    · rintro ⟨htext, hcount⟩
      obtain ⟨rfl, -⟩ := List.append_eq_nil_iff.mp htext.symm
      cases hcount
  | case3 i c text hle ih =>
    constructor
    · intro h
      obtain ⟨⟨front', rest'⟩, hcut, heq⟩ := Option.map_eq_some_iff.mp h
      cases heq
      obtain ⟨rfl, hcount⟩ := ih.mp hcut
      refine ⟨rfl, ?_⟩
      rw [String.utf8Len_cons, hcount]
      omega
    · rintro ⟨htext, hcount⟩
      cases front with
      | nil => cases hcount
      | cons d front =>
        obtain ⟨rfl, rfl⟩ := List.cons_eq_cons.mp htext
        rw [String.utf8Len_cons] at hcount
        rw [ih.mpr ⟨rfl, by omega⟩]
        rfl
  | case4 i c text hlt =>
    constructor
    · rintro ⟨⟩
    · rintro ⟨htext, hcount⟩
      cases front with
      | nil => cases hcount
      | cons d front =>
        obtain ⟨rfl, rfl⟩ := List.cons_eq_cons.mp htext
        rw [String.utf8Len_cons] at hcount
        omega

theorem cutAt?_append (front rest : List Char) :
    cutAt? (String.utf8Len front) (front ++ rest) = some (front, rest) :=
  cutAt?_eq_some_iff.mpr ⟨rfl, rfl⟩

/-! ## 2. The scanner -/

/-- A scanner by its source and the bytes before its cursor, with the line of the cursor, the bytes
before this line, whether an error has been handed out, and the modes, the latest first and the
outermost among them. -/
structure ByteScanner where
  source : String
  cursor : Nat
  line : Nat
  lineStart : Nat
  failed : Bool
  modes : List Mode
deriving DecidableEq

namespace ByteScanner

/-- A scanner at the beginning of `source`. -/
def ofSource (source : String) : ByteScanner := ⟨source, 0, 1, 0, false, [.initial]⟩

/-- The scanner put to the beginning of `source`. -/
def load (b : ByteScanner) (source : String) : ByteScanner :=
  { b with source, cursor := 0, line := 1, lineStart := 0, failed := false, modes := [.initial] }

/-- The bytes of the source. -/
def size (b : ByteScanner) : Nat := b.source.utf8ByteSize

/-- Whether the end of the input is still to be handed out: from then on the cursor is one byte
behind the source. -/
def hasMore (b : ByteScanner) : Bool := b.cursor ≤ b.size

/-- Whether the cursor is at the end of the source. -/
def atEnd (b : ByteScanner) : Bool := b.cursor = b.size

/-- The position of the cursor, or of the end of the source if the cursor is behind it. -/
def position (b : ByteScanner) : Position :=
  let offset := min b.cursor b.size
  ⟨offset, b.line, offset - b.lineStart⟩

/-- The mode in force. -/
def mode (b : ByteScanner) : Mode := b.modes.headD .initial

/-- Enters a mode. -/
def enter (b : ByteScanner) (m : Mode) : ByteScanner := { b with modes := m :: b.modes }

/-- Leaves the mode in force, unless it is the only one. -/
def leave? (b : ByteScanner) : Option (Mode × ByteScanner) :=
  if b.modes.length ≤ 1 then none
  else b.modes.head?.map (·, { b with modes := b.modes.tail })

/-! ## 3. One pass -/

/-- The rules in force in a mode. -/
def rulesOf : Mode → List Rule
  | .initial => Rule.all

/-- The first rule whose pattern matches, and the bytes that it takes in the preferred way. -/
def match? (b : ByteScanner) (text : List Char) : Option (Rule × Nat) :=
  (rulesOf b.mode).findSome? fun r =>
    (r.pattern.ways text).head?.map fun n => (r, String.utf8Len (text.take n))

/-- The bytes before each line feed of a text that stands behind `i` bytes. -/
def newlinesFrom : Nat → List Char → List Nat
  | _, [] => []
  | i, c :: text =>
    if c = '\n' then i :: newlinesFrom (i + c.utf8Size) text
    else newlinesFrom (i + c.utf8Size) text

/-- The lines counted over a match at the cursor, which itself stays. -/
def countLines (b : ByteScanner) (matched : List Char) : ByteScanner :=
  let (line, lineStart) := (newlinesFrom 0 matched).foldl
    (fun (line, _) i => (line + 1, b.cursor + i + 1)) (b.line, b.lineStart)
  { b with line, lineStart }

/-- The span of a match at the cursor. -/
def spanOf (b : ByteScanner) (matched : List Char) : Span :=
  let later := b.countLines matched
  let stop := b.cursor + String.utf8Len matched
  ⟨⟨b.cursor, b.line, b.cursor - b.lineStart⟩, ⟨stop, later.line, stop - later.lineStart⟩⟩

/-- The cursor moved over a match of `length` bytes, and over one character more if these are
none. -/
def move? (b : ByteScanner) (length : Nat) : Option ByteScanner :=
  let b := { b with cursor := b.cursor + length }
  if length = 0 then
    (cutAt? b.cursor b.source.toList).map fun (_, rest) =>
      { b with cursor := b.cursor + (rest.head?.map Char.utf8Size).getD 1 }
  else some b

/-- What one pass of a call comes to. -/
inductive Pass where
  /-- A silent match was passed over, and the call goes on from there. -/
  | goesOn (b : ByteScanner)
  /-- The call hands out an item and leaves this scanner. -/
  | handsOut (item : Except Error Token) (b : ByteScanner)
deriving DecidableEq

/-- One pass of a call, unless a cut of the source is refused. -/
def pass? (b : ByteScanner) : Option Pass :=
  if b.hasMore then do
    let (_, rest) ← cutAt? b.cursor b.source.toList
    match b.match? rest with
    | some (r, length) =>
      let (matched, _) ← cutAt? length rest
      let next ← (b.countLines matched).move? length
      match r.kind? matched with
      | some kind => return .handsOut (.ok ⟨kind, String.ofList matched, b.spanOf matched⟩) next
      | none => return .goesOn next
    | none =>
      if b.atEnd then
        let next := { b with cursor := b.cursor + 1 }
        return .handsOut (.ok (.endOfInput next.position)) next
      else
        let cause := Cause.unrecognisedToken (String.ofList (rest.take 1))
        return .handsOut (.error ⟨cause, b.position⟩) { b with failed := true }
  else some (.handsOut (.ok (.endOfInput b.position)) b)

/-! ## 4. Counting lines -/

section Counting

variable {b : ByteScanner} {text : List Char}

/-- From a line that has begun, the lines counted over a text are those of the position behind
it. -/
theorem foldl_newlinesFrom (cursor i line lineStart : Nat) (text : List Char)
    (h : lineStart ≤ cursor + i) :
    let (line', lineStart') := (newlinesFrom i text).foldl
      (fun (line, _) i => (line + 1, cursor + i + 1)) (line, lineStart)
    lineStart' ≤ cursor + i + String.utf8Len text ∧
      (⟨cursor + i, line, cursor + i - lineStart⟩ : Position).advance text =
        ⟨cursor + i + String.utf8Len text, line',
          cursor + i + String.utf8Len text - lineStart'⟩ := by
  induction text generalizing i line lineStart with
  | nil => exact ⟨h, rfl⟩
  | cons c text ih =>
    rw [newlinesFrom, Position.advance_cons, Position.after]
    by_cases hc : c = '\n'
    · have hsize : c.utf8Size = 1 := by rw [hc]; rfl
      have hlater := ih (i + 1) (line + 1) (cursor + i + 1) (Nat.le_refl _)
      rw [if_pos hc, if_pos hc, List.foldl_cons, String.utf8Len_cons, hsize,
        Nat.add_comm (String.utf8Len text)]
      have hzero : cursor + (i + 1) - (cursor + i + 1) = 0 := by omega
      rw [hzero] at hlater
      simpa only [Nat.add_assoc] using hlater
    · have hlater := ih (i + c.utf8Size) line lineStart (by omega)
      -- The column is a difference, which grows with the cursor because the line has begun.
      have hcolumn : cursor + (i + c.utf8Size) - lineStart =
          cursor + i - lineStart + c.utf8Size := by omega
      rw [if_neg hc, if_neg hc, String.utf8Len_cons, Nat.add_comm (String.utf8Len text)]
      rw [hcolumn] at hlater
      simpa only [Nat.add_assoc] using hlater

/-- The scanner behind a match at the cursor. -/
def behind (b : ByteScanner) (matched : List Char) : ByteScanner :=
  { b.countLines matched with cursor := b.cursor + String.utf8Len matched }

theorem position_of_le (h : b.cursor ≤ b.size) :
    b.position = ⟨b.cursor, b.line, b.cursor - b.lineStart⟩ := by
  unfold position
  rw [Nat.min_eq_left h]

/-- **Behind a match the counts are those of its last place.** -/
theorem position_behind (text : List Char) (hline : b.lineStart ≤ b.cursor)
    (hsize : b.cursor + String.utf8Len text ≤ b.size) :
    (b.behind text).lineStart ≤ (b.behind text).cursor ∧
      (b.behind text).position = b.position.advance text ∧
      b.spanOf text = ⟨b.position, b.position.advance text⟩ := by
  have hle : b.cursor ≤ b.size := by omega
  have hbehind : (b.behind text).cursor ≤ (b.behind text).size := hsize
  obtain ⟨hstart, hadvance⟩ := foldl_newlinesFrom b.cursor 0 b.line b.lineStart text hline
  rw [position_of_le hle, position_of_le hbehind]
  exact ⟨hstart, hadvance.symm, congrArg (Span.mk _) hadvance.symm⟩

/-- Over a match that is not empty the cursor moves by its bytes and no further. -/
theorem move?_countLines (h : text ≠ []) :
    (b.countLines text).move? (String.utf8Len text) = some (b.behind text) := by
  have hpos := utf8Len_pos h
  rw [move?, if_neg (Nat.ne_of_gt hpos)]
  rfl

end Counting

/-! ## 5. What it stands for -/

/-- The scanner by its source and a cursor stands for the one by the text that is left. -/
structure StandsFor (b : ByteScanner) (s : Scanner) : Prop where
  /-- What is left is the source from the cursor on. -/
  reading : s.ended = false → ∃ front, cutAt? b.cursor b.source.toList = some (front, s.rest)
  /-- Behind the end of the input nothing is left, and the cursor is one byte behind the source. -/
  past_end : s.ended = true → b.cursor = b.size + 1 ∧ s.rest = []
  /-- The line of the cursor has begun. -/
  lineStart_le : b.lineStart ≤ min b.cursor b.size
  position_eq : b.position = s.position
  failed_eq : b.failed = s.failed
  modes_eq : b.modes = s.entered ++ [.initial]

section StandsFor

variable {b : ByteScanner} {s : Scanner} {r : Rule} {n : Nat}

theorem standsFor_ofSource (source : String) : (ofSource source).StandsFor (.ofSource source) where
  reading _ := ⟨[], cutAt?_append [] _⟩
  past_end h := by cases h
  lineStart_le := Nat.zero_le _
  position_eq := by simp [position, ofSource, Scanner.ofSource, Position.start]
  failed_eq := rfl
  modes_eq := rfl

/-- There is one mode. -/
theorem rulesOf_eq_all (m : Mode) : rulesOf m = Rule.all := rfl

/-- The first pattern that matches is that of the first rule that matches. -/
theorem match?_eq (b : ByteScanner) (text : List Char) :
    b.match? text = (Rule.first? text).map fun (r, n) => (r, String.utf8Len (text.take n)) := by
  unfold match? Rule.first?
  rw [rulesOf_eq_all, List.map_findSome?]
  congr 1
  funext r
  rw [Rule.head?_ways_pattern]
  simp only [Function.comp, Option.map_map]
  rfl

namespace StandsFor

/-- The source where it is cut at the cursor. -/
theorem exists_front (h : b.StandsFor s) (hs : s.ended = false) :
    ∃ front, cutAt? b.cursor b.source.toList = some (front, s.rest) ∧
      b.source.toList = front ++ s.rest ∧ b.cursor + String.utf8Len s.rest = b.size := by
  obtain ⟨front, hcut⟩ := h.reading hs
  obtain ⟨hsource, hcursor⟩ := cutAt?_eq_some_iff.mp hcut
  refine ⟨front, hcut, hsource, ?_⟩
  rw [size, ← String.utf8Len_toList, hsource, String.utf8Len_append, hcursor]

theorem hasMore_of_reading (h : b.StandsFor s) (hs : s.ended = false) : b.hasMore = true := by
  obtain ⟨front, -, -, hsize⟩ := h.exists_front hs
  exact decide_eq_true (by omega)

theorem hasMore_of_ended (h : b.StandsFor s) (hs : s.ended = true) : b.hasMore = false := by
  obtain ⟨hcursor, -⟩ := h.past_end hs
  exact decide_eq_false (by omega)

/-- Behind the end of the input, a pass hands it out again. -/
theorem pass?_of_ended (h : b.StandsFor s) (hs : s.ended = true) :
    b.pass? = some (.handsOut (.ok (.endOfInput s.position)) b) := by
  rw [pass?, h.hasMore_of_ended hs, h.position_eq]
  rfl

/-- At the end of the source, a pass hands out the end of the input and moves the cursor one byte
behind the source. -/
theorem pass?_of_nil (h : b.StandsFor s) (hs : s.ended = false) (hrest : s.rest = []) :
    b.pass? = some (.handsOut (.ok (.endOfInput s.position)) { b with cursor := b.size + 1 }) ∧
      ({ b with cursor := b.size + 1 } : ByteScanner).StandsFor { s with ended := true } := by
  obtain ⟨front, hcut, -, hsize⟩ := h.exists_front hs
  rw [hrest, String.utf8Len_nil, Nat.add_zero] at hsize
  have hposition : ({ b with cursor := b.size + 1 } : ByteScanner).position = b.position := by
    simp [position, size, hsize]
  have hmatch : b.match? s.rest = none := by
    rw [match?_eq, hrest]
    rfl
  constructor
  · rw [pass?, h.hasMore_of_reading hs, hcut]
    simp only [if_true, Option.bind_eq_bind, Option.bind_some, hmatch]
    have hend : b.atEnd = true := decide_eq_true hsize
    rw [if_pos hend, hsize, hposition, h.position_eq]
    rfl
  · have hline := h.lineStart_le
    have hle : b.lineStart ≤ min (b.size + 1) b.size := by omega
    exact ⟨fun hfalse => absurd hfalse.symm Bool.false_ne_true, fun _ => ⟨rfl, hrest⟩, hle,
      hposition.trans h.position_eq, h.failed_eq, h.modes_eq⟩

/-- At a character that no rule matches, a pass hands out the error and stays. -/
theorem pass?_of_stuck {c : Char} {rest : List Char} (h : b.StandsFor s) (hs : s.ended = false)
    (hrest : s.rest = c :: rest) (hf : Rule.first? s.rest = none) :
    b.pass? = some (.handsOut (.error (.unrecognised s.position c)) { b with failed := true }) ∧
      b.cursor < b.size ∧
      ({ b with failed := true } : ByteScanner).StandsFor { s with failed := true } := by
  obtain ⟨front, hcut, -, hsize⟩ := h.exists_front hs
  have hpos : 0 < String.utf8Len s.rest := utf8Len_pos (by simp [hrest])
  have hmatch : b.match? s.rest = none := by
    rw [match?_eq, hf]
    rfl
  refine ⟨?_, by omega, ?_⟩
  · rw [pass?, h.hasMore_of_reading hs, hcut]
    simp only [if_true, Option.bind_eq_bind, Option.bind_some, hmatch]
    have hend : ¬ b.atEnd = true := by
      rw [atEnd, decide_eq_true_eq]
      omega
    rw [if_neg hend, hrest, h.position_eq]
    rfl
  · exact ⟨h.reading, h.past_end, h.lineStart_le, h.position_eq, rfl, h.modes_eq⟩

/-- **Over a match**, a pass moves the cursor to its end, and hands out its token if it has one. -/
theorem pass?_of_match {a rest : List Char} (h : b.StandsFor s) (hs : s.ended = false)
    (hrest : s.rest = a ++ rest) (hf : Rule.first? (a ++ rest) = some (r, a.length)) :
    b.pass? =
      some (match r.kind? a with
        | some kind => .handsOut (.ok ⟨kind, String.ofList a, ⟨s.position, s.position.advance a⟩⟩)
            (b.behind a)
        | none => .goesOn (b.behind a)) ∧
      b.cursor < (b.behind a).cursor ∧
      (b.behind a).StandsFor { s with rest, position := s.position.advance a } := by
  obtain ⟨front, hcut, hsource, hsize⟩ := h.exists_front hs
  rw [hrest] at hcut hsource
  rw [hrest, String.utf8Len_append] at hsize
  have hne : a ≠ [] := by
    have hpos := Rule.matched?_pos (Rule.matched?_of_first? hf)
    exact List.ne_nil_of_length_pos hpos
  have hbytes := utf8Len_pos hne
  have hline : b.lineStart ≤ b.cursor := by
    have := h.lineStart_le
    omega
  obtain ⟨hstart, hposition, hspan⟩ := position_behind a hline (by omega)
  rw [h.position_eq] at hposition hspan
  have hcursor : (b.behind a).cursor = b.cursor + String.utf8Len a := rfl
  refine ⟨?_, by omega, ?_⟩
  · have hmatch : b.match? (a ++ rest) = some (r, String.utf8Len a) := by
      rw [match?_eq, hf, Option.map_some]
      dsimp only
      rw [List.take_left]
    rw [pass?, h.hasMore_of_reading hs, hcut]
    simp only [if_true, Option.bind_eq_bind, Option.bind_some, hmatch, cutAt?_append,
      move?_countLines hne, hspan]
    cases r.kind? a <;> rfl
  · refine ⟨fun _ => ⟨front ++ a, ?_⟩, fun hfalse => ?_, ?_, hposition, h.failed_eq, h.modes_eq⟩
    · obtain ⟨-, hfront⟩ := cutAt?_eq_some_iff.mp hcut
      refine cutAt?_eq_some_iff.mpr ⟨?_, ?_⟩
      · rw [List.append_assoc]
        exact hsource
      · rw [String.utf8Len_append, hfront]
        rfl
    · rw [hs] at hfalse
      cases hfalse
    · have hle : (b.behind a).cursor ≤ (b.behind a).size := by
        rw [hcursor, show (b.behind a).size = b.size from rfl]
        omega
      rw [Nat.min_eq_left hle]
      exact hstart

end StandsFor

end StandsFor

end ByteScanner

end UnitLang
