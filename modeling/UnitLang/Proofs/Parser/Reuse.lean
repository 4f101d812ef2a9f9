/-
# A parser used again

A parse that fails leaves its parser in the middle of things: the scanner before the character
that no rule matches and marked as failed, cells on the stack, events in the log.  The next parse
sets all of this anew, so it is the parse of a new parser (`Parser.parse_eq_new`), and the same
holds of a compiler.

From there, by induction on the sources: whatever a parser or a compiler has done before, it
answers a row of sources as new ones would, one for each (`reuse_leaves_nothing`).
-/
import UnitLang.Compiler
import UnitLang.Proofs.Parser.Loop

namespace UnitLang

/-! ## 1. One source -/

/-- **A parse does not depend on the parser**, in its outcome and in the parser that it leaves. -/
theorem Parser.parse_eq_new (p : Parser) (source : String) :
    p.parse source = new.parse source := by
  unfold parse
  rw [Scanner.load_eq_ofSource, Scanner.load_eq_ofSource, ParseStack.reset_eq_empty,
    ParseStack.reset_eq_empty]

/-- **A compilation does not depend on the compiler**, in its outcome and in the compiler that it
leaves. -/
theorem Compiler.compile_eq_new (c : Compiler) (source : String) :
    c.compile source = new.compile source := by
  unfold compile
  rw [c.parser.parse_eq_new, new.parser.parse_eq_new]

/-! ## 2. Many sources -/

/-- What is answered to requests one after the other, each in the state that the one before has
left. -/
def answersInTurn {State Request Answer : Type} (ask : State → Request → Answer × State) :
    State → List Request → List Answer
  | _, [] => []
  | s, r :: rs => (ask s r).1 :: answersInTurn ask (ask s r).2 rs

/-- Where an answer does not depend on the state, each request has its own. -/
theorem answersInTurn_eq_map {State Request Answer : Type} {ask : State → Request → Answer × State}
    {answer : Request → Answer} (h : ∀ s r, (ask s r).1 = answer r) (s : State)
    (rs : List Request) : answersInTurn ask s rs = rs.map answer := by
  induction rs generalizing s with
  | nil => rfl
  | cons r rs ih => rw [answersInTurn, h, ih, List.map_cons]

/-- Compiles a source, and gives the events with the outcome. -/
def Compiler.compileTold (c : Compiler) (source : String) :
    (Except Error Node × List Event) × Compiler :=
  let (outcome, c) := c.compile source
  ((outcome, c.events), c)

/-- **Nothing is left over for the next source.**  Whatever state a parser is in, parsing a source
has the outcome that it has with a new parser, and leaves the same parser; so a parser that is used
for one source after the other answers each as `parse` does, trees and positions of errors
included.  The same holds of compilers, events included. -/
theorem reuse_leaves_nothing :
    (∀ (p : Parser) (source : String), p.parse source = Parser.new.parse source) ∧
    (∀ (p : Parser) (sources : List String),
      answersInTurn Parser.parse p sources = sources.map parse) ∧
    (∀ (c : Compiler) (source : String), c.compile source = Compiler.new.compile source) ∧
    ∀ (c : Compiler) (sources : List String),
      answersInTurn Compiler.compileTold c sources =
        sources.map fun source => (Compiler.new.compileTold source).1 := by
  refine ⟨Parser.parse_eq_new, ?_, Compiler.compile_eq_new, ?_⟩
  · intro p sources
    refine answersInTurn_eq_map (fun q source => ?_) p sources
    rw [q.parse_eq_new]
    rfl
  · intro c sources
    refine answersInTurn_eq_map (fun d source => ?_) c sources
    unfold Compiler.compileTold
    rw [d.compile_eq_new]

/-- There is something to leave: this parse ends with its scanner before the last character and
marked as failed, and with a lexeme on the stack. -/
example : let p := (Parser.new.parse "unit a @").2
    p.scanner = ⟨['@'], ⟨7, 1, 7⟩, false, true, []⟩ ∧ p.stack.depth = 1 := by
  have hunit : (Parser.new.scanner.load "unit a @").nextToken =
      (.ok ⟨.unitKw, "unit", ⟨⟨0, 1, 0⟩, ⟨4, 1, 4⟩⟩⟩,
        ⟨" a @".toList, ⟨4, 1, 4⟩, false, false, []⟩) := by decide +kernel
  have hname : Scanner.nextToken ⟨" a @".toList, ⟨4, 1, 4⟩, false, false, []⟩ =
      (.ok ⟨.identifier, "a", ⟨⟨5, 1, 5⟩, ⟨6, 1, 6⟩⟩⟩,
        ⟨" @".toList, ⟨6, 1, 6⟩, false, false, []⟩) := by decide +kernel
  have hstuck : Scanner.nextToken ⟨" @".toList, ⟨6, 1, 6⟩, false, false, []⟩ =
      (.error (.unrecognised ⟨7, 1, 7⟩ '@'),
        ⟨['@'], ⟨7, 1, 7⟩, false, true, []⟩) := by decide +kernel
  have hvisits := (Parser.Visits.start hunit).next (Parser.turn_of_shift rfl hname)
  rw [hvisits.parse_eq_run, Parser.run_eq_turn, Parser.turn]
  simp only [hstuck]
  exact ⟨rfl, rfl⟩

end UnitLang
