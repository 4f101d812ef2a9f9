/-
# The program

Reads the arguments and the file they name, and prints what `Command.answer` says.
-/
import UnitLang.Command

namespace UnitLang

open Command (Request Unreadable)

/-- The text of a file, or why it cannot be read. -/
def readText (file : String) : IO (Except Unreadable String) := do
  try
    let bytes ← IO.FS.readBinFile file
    match String.fromUTF8? bytes with
    | some text => return .ok text
    | none => return .error .notText
  catch e =>
    match e with
    | .noFileOrDirectory .. => return .error .missing
    | .inappropriateType _ code _ =>
      -- A directory that is opened has the number 21; a path through a file has another.
      return .error (if code = 21 then .directory else .beyondFile)
    | .permissionDenied .. => return .error (.refused "Permission denied" 13)
    | e => return .error (.refused (toString e) 0)

end UnitLang

open UnitLang in
/-- Runs the command line. -/
def main (args : List String) : IO UInt32 := do
  let request := Command.Request.ofArgs args
  let content ← match request with
    | .process o => readText o.file
    | _ => pure (.ok "")
  let outcome := Command.answer request fun _ => content
  IO.print outcome.stdout
  IO.eprint outcome.stderr
  return outcome.exit.toUInt32
