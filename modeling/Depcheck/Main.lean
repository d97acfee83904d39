import Depcheck.Command.Run

/-!
# The command line

Reads the files that a command line may look at, runs it, and prints the answer.
-/

namespace Depcheck.Command

def look (path : String) : IO FileContent := do
  try
    return .text (← IO.FS.readFile path)
  catch
    | .noFileOrDirectory .. => return .missing
    | _ => return .unreadable

end Depcheck.Command

open Depcheck Command in
def main (args : List String) : IO UInt32 := do
  let seen ← (filesOf args).mapM fun path => do return (path, ← look path)
  let a := run (fun path => (seen.lookup path).getD .missing) args
  IO.print a.output
  if let some message := a.error then IO.eprintln s!"Error: {message}"
  if a.status == 2 then
    for line in usage do IO.eprintln line
  return a.status.toUInt32
