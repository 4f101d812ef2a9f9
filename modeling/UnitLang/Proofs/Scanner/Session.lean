/-
# A scanner in use

A scanner is asked for tokens, one call or one item at a time, enters and leaves modes, and is
loaded with another source, in any order.  A `Scanner.Session` is a scanner after such steps, with
the source it was loaded with last and the items it has handed out since.

Whatever the steps, the scanner stands at a place of that source and has what is behind it
(`Scanner.Follows`), and the items it hands out have their positions there (`ItemIn`).  One step
keeps this (`Session.sound_step`), so a whole session does (`Session.sound_run`).
-/
import UnitLang.Proofs.Text.Place
import UnitLang.Proofs.Token.Lossless
import UnitLang.Scanner

namespace UnitLang

/-! ## 1. Steps -/

/-- What can be asked of a scanner. -/
inductive Scanner.Step where
  /-- The next token. -/
  | nextToken
  /-- The next item of the sequence. -/
  | next
  /-- Begin another source. -/
  | load (source : String)
  /-- Enter a mode. -/
  | enter (m : Mode)
  /-- Leave the mode in force. -/
  | leave

/-- A scanner in use: the source it was loaded with last, the items it has handed out since, the
first one first, and the scanner as it is now. -/
structure Session where
  source : String
  delivered : List (Except Error Token)
  scanner : Scanner

namespace Session

/-- A new scanner for a source. -/
def start (source : String) : Session := ⟨source, [], .ofSource source⟩

/-- One step. -/
def step (x : Session) : Scanner.Step → Session
  | .nextToken =>
    ⟨x.source, x.delivered ++ [x.scanner.nextToken.1], x.scanner.nextToken.2⟩
  | .next => ⟨x.source, x.delivered ++ x.scanner.next?.1.toList, x.scanner.next?.2⟩
  | .load source => ⟨source, [], x.scanner.load source⟩
  | .enter m => { x with scanner := x.scanner.enter m }
  | .leave =>
    match x.scanner.leave? with
    | some (_, scanner) => { x with scanner }
    | none => x

/-- All steps, one after the other. -/
def run (source : String) (steps : List Scanner.Step) : Session := steps.foldl step (start source)

end Session

/-! ## 2. What a call hands out -/

/-- The positions of an item are those of places in the source, and a token stands on one line. -/
def ItemIn (source : String) : Except Error Token → Prop
  | .ok t => t.span.start.IsIn source ∧ t.span.stop.IsIn source ∧
      t.span.start.line = t.span.stop.line
  | .error e => e.position.IsIn source

/-- The scanner stands at a place of the source and has what is behind it; at the end that is
nothing. -/
structure Scanner.Follows (s : Scanner) (source : String) : Prop where
  exists_front : ∃ front, source.toList = front ++ s.rest ∧
    s.position = Position.start.advance front
  rest_of_ended : s.ended = true → s.rest = []

section Calls

variable {p q : Position} {text rest : List Char} {t : Token} {c : Char} {source : String}
  {s : Scanner}

/-- What a scan finds, the text has been read up to. -/
theorem lexes_of_scan (p : Position) (text : List Char) :
    match scan p text with
    | .token t rest => Lexes p text [t] t.span.stop rest
    | .ended q => Lexes p text [] q []
    | .stuck q _ rest => Lexes p text [] q rest := by
  induction p, text using lex_induction with
  | nil p =>
    rw [scan_nil]
    exact .here p []
  | stuck p c rest hf =>
    rw [scan_stuck hf]
    exact .here p _
  | silent p text r n hf hk ih =>
    rw [scan_silent hf hk]
    obtain ⟨a, text, rfl, rfl⟩ := exists_append_of_first? hf
    rw [List.take_left] at hk
    rw [List.take_left, List.drop_left] at ih ⊢
    split <;> rename_i hscan <;> rw [hscan] at ih
    · exact .silent hf hk ih
    · exact .silent hf hk ih
    · exact .silent hf hk ih
  | token p text r n k hf hk ih =>
    rw [scan_token hf hk]
    obtain ⟨a, text, rfl, rfl⟩ := exists_append_of_first? hf
    rw [List.take_left] at hk
    have hlexes := Lexes.token hf hk (.here (p.advance a) text)
    simpa [Token.cut] using hlexes

namespace Scanner.Follows

theorem ofSource (source : String) : (Scanner.ofSource source).Follows source :=
  ⟨⟨[], rfl, rfl⟩, fun h => by cases h⟩

/-- The place of the scanner is one in the source. -/
theorem position_isIn (h : s.Follows source) : s.position.IsIn source := by
  obtain ⟨front, hsource, hposition⟩ := h.exists_front
  rw [hposition]
  exact Position.isIn_advance_start hsource

/-- Behind the end of the input, the place is the end of the source. -/
theorem offset_of_ended (h : s.Follows source) (hended : s.ended = true) :
    s.position.offset = source.utf8ByteSize := by
  obtain ⟨front, hsource, hposition⟩ := h.exists_front
  rw [h.rest_of_ended hended, List.append_nil] at hsource
  rw [hposition, Position.offset_advance, ← String.utf8Len_toList, hsource]
  exact Nat.zero_add _

/-- Reading on from where the scanner stands leads to a place in the source, and its tokens are
read there. -/
theorem of_lexes {ts : List Token} (h : s.Follows source)
    (hlexes : Lexes s.position s.rest ts q rest) :
    (∃ front, source.toList = front ++ rest ∧ q = Position.start.advance front) ∧
      ∀ t ∈ ts, ItemIn source (.ok t) := by
  obtain ⟨front, hsource, hposition⟩ := h.exists_front
  obtain ⟨shown, hrest, rfl, -⟩ := hlexes.cut_off
  refine ⟨⟨front ++ shown, ?_, ?_⟩, ?_⟩
  · rw [hsource, hrest, List.append_assoc]
  · rw [hposition, Position.advance_append]
  · intro t ht
    obtain ⟨before, after, rfl⟩ := List.append_of_mem ht
    obtain ⟨shown', gap, value, middle, htext, -, -, hread⟩ := hlexes.at_token
    rw [hposition, ← Position.advance_append] at hread
    have hstart : source.toList = (front ++ (shown' ++ gap)) ++ (value ++ (middle ++ rest)) := by
      rw [hsource, htext]
      simp
    have hstop : source.toList = ((front ++ (shown' ++ gap)) ++ value) ++ (middle ++ rest) := by
      rw [hstart, List.append_assoc _ value]
    refine ⟨?_, ?_, hread.line_eq⟩
    · rw [hread.start_eq]
      exact Position.isIn_advance_start hstart
    · rw [hread.stop_eq, ← Position.advance_append]
      exact Position.isIn_advance_start hstop

/-- **One call** hands out an item of the source and goes on behind it. -/
theorem nextToken (h : s.Follows source) :
    ItemIn source s.nextToken.1 ∧ s.nextToken.2.Follows source := by
  unfold Scanner.nextToken
  cases hended : s.ended with
  | true => exact ⟨⟨h.position_isIn, h.position_isIn, rfl⟩, h⟩
  | false =>
    have hlexes := lexes_of_scan s.position s.rest
    rw [if_neg (by simp)]
    cases hscan : scan s.position s.rest with
    | token t rest =>
      rw [hscan] at hlexes
      obtain ⟨hfront, hitems⟩ := h.of_lexes hlexes
      exact ⟨hitems t List.mem_cons_self, hfront, fun hend => absurd hend Bool.false_ne_true⟩
    | ended q =>
      rw [hscan] at hlexes
      obtain ⟨⟨front, hsource, rfl⟩, -⟩ := h.of_lexes hlexes
      have hisIn := Position.isIn_advance_start hsource
      exact ⟨⟨hisIn, hisIn, rfl⟩, ⟨front, hsource, rfl⟩, fun _ => rfl⟩
    | stuck q c rest =>
      rw [hscan] at hlexes
      obtain ⟨⟨front, hsource, rfl⟩, -⟩ := h.of_lexes hlexes
      exact ⟨Position.isIn_advance_start hsource, ⟨front, hsource, rfl⟩,
        fun hend => absurd hend Bool.false_ne_true⟩

end Scanner.Follows

end Calls

/-! ## 3. Sessions -/

namespace Session

/-- The scanner stands in its source, and so does all it has handed out. -/
structure Sound (x : Session) : Prop where
  scanner : x.scanner.Follows x.source
  delivered : ∀ item ∈ x.delivered, ItemIn x.source item

variable {x : Session}

theorem sound_start (source : String) : (start source).Sound :=
  ⟨.ofSource source, List.forall_mem_nil _⟩

/-- A step that hands out nothing, or what a call does. -/
theorem sound_step (h : x.Sound) (a : Scanner.Step) : (x.step a).Sound := by
  obtain ⟨hitem, hscanner⟩ := h.scanner.nextToken
  cases a with
  | nextToken =>
    exact ⟨hscanner, List.forall_mem_append.mpr ⟨h.delivered, List.forall_mem_singleton.mpr hitem⟩⟩
  | next =>
    unfold step Scanner.next?
    dsimp only
    split
    · exact ⟨h.scanner, by simpa using h.delivered⟩
    · exact ⟨hscanner,
        List.forall_mem_append.mpr ⟨h.delivered, List.forall_mem_singleton.mpr hitem⟩⟩
  | load source => exact sound_start source
  | enter m => exact ⟨⟨h.scanner.exists_front, h.scanner.rest_of_ended⟩, h.delivered⟩
  | leave =>
    unfold step Scanner.leave?
    dsimp only
    split
    · rename_i hleave
      split at hleave
      · cases hleave
      · cases hleave
        exact ⟨⟨h.scanner.exists_front, h.scanner.rest_of_ended⟩, h.delivered⟩
    · exact h

/-- **A session stays in its source**, whatever the steps. -/
theorem sound_run (source : String) (steps : List Scanner.Step) : (run source steps).Sound := by
  have hsteps (x : Session) (h : x.Sound) : (steps.foldl step x).Sound := by
    induction steps generalizing x with
    | nil => exact h
    | cons a steps ih => exact ih _ (sound_step h a)
  exact hsteps _ (sound_start source)

end Session

end UnitLang
