import UnitLang.Main
import UnitLang.Program
import UnitLang.Proofs.Automaton.Completion
import UnitLang.Proofs.Automaton.Lookahead
import UnitLang.Proofs.Command.Exit
import UnitLang.Proofs.Grammar.Clauses
import UnitLang.Proofs.Grammar.Making
import UnitLang.Proofs.Grammar.Needs
import UnitLang.Proofs.ParseStack.History
import UnitLang.Proofs.Parser.Acceptance
import UnitLang.Proofs.Parser.Depth
import UnitLang.Proofs.Parser.EarliestError
import UnitLang.Proofs.Parser.Joining
import UnitLang.Proofs.Parser.LineEnds
import UnitLang.Proofs.Parser.Locality
import UnitLang.Proofs.Parser.Lockstep
import UnitLang.Proofs.Parser.Pace
import UnitLang.Proofs.Parser.Positions
import UnitLang.Proofs.Parser.Replay
import UnitLang.Proofs.Parser.Reuse
import UnitLang.Proofs.Parser.Safety
import UnitLang.Proofs.Program.Account
import UnitLang.Proofs.Program.Origin
import UnitLang.Proofs.Program.Reading
import UnitLang.Proofs.Program.RoundTrip
import UnitLang.Proofs.Program.Syntax
import UnitLang.Proofs.Report.Pointing
import UnitLang.Proofs.Scanner.Order
import UnitLang.Proofs.Scanner.Progress
import UnitLang.Proofs.Scanner.Session
import UnitLang.Proofs.Text.Line
import UnitLang.Proofs.Token.Failure
import UnitLang.Proofs.Token.LineEnds
import UnitLang.Proofs.Token.Lossless
import UnitLang.Proofs.Token.Moving
import UnitLang.Proofs.Token.Printing
import UnitLang.Proofs.Token.Tail
import UnitLang.Proofs.Tree.Names
