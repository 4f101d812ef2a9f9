/-
# The compiler

The compiler parses a source and executes its tree.  A program of units and imports has nothing
to execute yet, so execution is only told in the log.
-/
import UnitLang.Parser

namespace UnitLang

/-- A compiler, by its parser. -/
structure Compiler where
  parser : Parser

namespace Compiler

/-- A compiler that has read nothing. -/
def new : Compiler := ⟨.new⟩

/-- Parses a source and executes its tree. -/
def compile (c : Compiler) (source : String) : Except Error Node × Compiler :=
  match c.parser.parse source with
  | (.ok n, p) => (.ok n, ⟨{ p with log := .executed n.shape :: p.log }⟩)
  | (.error e, p) => (.error e, ⟨p⟩)

/-- The outcome of a compilation is that of its parse. -/
theorem compile_fst (c : Compiler) (source : String) :
    (c.compile source).1 = (c.parser.parse source).1 := by
  unfold compile
  split
  · rename_i hparse
    rw [hparse]
  · rename_i hparse
    rw [hparse]

/-- The events of the latest compilation, in order. -/
def events (c : Compiler) : List Event := c.parser.log.reverse

end Compiler

end UnitLang
