/-
# Scanners

A scanner walks over one source text and hands out its tokens on demand.  Behind the last token
it hands out the end of the input, again and again; at a character that no rule matches it stays
put and fails, again and again.  Seen as a sequence (`Scanner.next?`) it ends after either.

A scanner also holds a stack of modes, which select the rules in force.  There is one mode, so
the stack has no influence on the tokens; its outermost mode cannot be left.
-/
import UnitLang.Token.Scan

namespace UnitLang

/-- A lexical mode. -/
inductive Mode where
  | initial
deriving DecidableEq, Repr, Inhabited

/-- The name under which a mode is reported. -/
def Mode.name : Mode → String
  | initial => "Initial"

/-- A scanner: the text that is left and where it begins, whether the end of the input has been
handed out, whether an error has, and the modes entered since the start, the latest first. -/
structure Scanner where
  rest : List Char
  position : Position
  ended : Bool
  failed : Bool
  entered : List Mode
deriving DecidableEq, Repr

namespace Scanner

/-- A scanner at the beginning of `source`. -/
def ofSource (source : String) : Scanner := ⟨source.toList, .start, false, false, []⟩

/-- The scanner put to the beginning of `source`, whatever it did before. -/
def load (s : Scanner) (source : String) : Scanner :=
  { s with
    rest := source.toList, position := .start, ended := false, failed := false, entered := [] }

/-- Nothing is left of what the scanner did before. -/
theorem load_eq_ofSource (s : Scanner) (source : String) : s.load source = ofSource source := rfl

/-! ## 1. What can be asked -/

/-- Whether the end of the input is still to be handed out. -/
def hasMore (s : Scanner) : Bool := !s.ended

/-- Whether no text is left, while the end of the input is still to be handed out. -/
def atEnd (s : Scanner) : Bool := s.rest.isEmpty && !s.ended

/-! ## 2. Modes -/

/-- The mode in force. -/
def mode (s : Scanner) : Mode := s.entered.headD .initial

/-- Enters a mode. -/
def enter (s : Scanner) (m : Mode) : Scanner := { s with entered := m :: s.entered }

/-- Leaves the mode in force, unless it is the outermost. -/
def leave? (s : Scanner) : Option (Mode × Scanner) :=
  match s.entered with
  | [] => none
  | m :: below => some (m, { s with entered := below })

/-! ## 3. Tokens -/

/-- Hands out the next token, or the error at a character that no rule matches. -/
def nextToken (s : Scanner) : Except Error Token × Scanner :=
  if s.ended then (.ok (.endOfInput s.position), s)
  else
    match scan s.position s.rest with
    | .token t rest => (.ok t, { s with rest, position := t.span.stop })
    | .ended p => (.ok (.endOfInput p), { s with rest := [], position := p, ended := true })
    | .stuck p c rest =>
      (.error (.unrecognised p c), { s with rest, position := p, failed := true })

/-- Hands out the next item of the sequence, which ends behind the end of the input and behind an
error. -/
def next? (s : Scanner) : Option (Except Error Token) × Scanner :=
  if s.failed || s.ended then (none, s)
  else
    let (item, s) := s.nextToken
    (some item, s)

/-- What is still ahead: the characters left, and the end of the input. -/
def ahead (s : Scanner) : Nat := s.rest.length + s.hasMore.toNat

/-- A token other than the end of the input leaves less ahead. -/
theorem ahead_nextToken_lt {s s' : Scanner} {t : Token} (h : s.nextToken = (.ok t, s'))
    (hs : s.ended = false) : s'.ahead < s.ahead := by
  unfold nextToken at h
  simp only [hs, Bool.false_eq_true, if_false] at h
  split at h
  · rename_i hscan
    have := length_lt_of_scan_token hscan
    cases h
    simpa [ahead, hasMore, hs] using this
  · cases h
    simp [ahead, hasMore, hs]
  · simp at h

/-- Behind the end of the input there is nothing but the end of the input. -/
theorem nextToken_of_ended {s : Scanner} (hs : s.ended = true) :
    s.nextToken = (.ok (.endOfInput s.position), s) := by
  simp [nextToken, hs]

end Scanner

end UnitLang
