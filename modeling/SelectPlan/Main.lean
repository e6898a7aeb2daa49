import SelectPlan.Shell.LogFilter
import SelectPlan.Shell.Run

/-!
# The program

The outer layer of the shell: it reads files and lines, writes what a session
has to say, and ends with the session's exit code.
-/

namespace SelectPlan.Shell

/-- Writes out what a terminal holds; says whether the output took it. -/
def flush (terminal : Terminal) : IO Bool := do
  let stderr ← IO.getStderr
  let stdout ← IO.getStdout
  let written ←
    try
      stdout.write ⟨terminal.output.toArray⟩
      stdout.flush
      pure true
    catch _ => pure false
  try stderr.putStr terminal.complaints catch _ => pure ()
  pure written

/-- Writes out what a terminal holds and gives the exit code, which is 1 if the
output failed. -/
def finish (code : Nat) (terminal : Terminal) : IO UInt32 := do
  let written ← flush terminal
  pure (if written then code.toUInt32 else 1)

/-- The bytes of a file, or nothing if it cannot be read. -/
def fileContent (path : String) : IO (Option (List UInt8)) := do
  try pure (some (← IO.FS.readBinFile path).toList)
  catch _ => pure none

/-- Reads a line with the line feed that ends it. -/
partial def readLine (line : List UInt8) : IO (List UInt8) := do
  let bytes ← (← IO.getStdin).read 1
  match bytes.toList with
  | [] => pure line.reverse
  | byte :: _ => if byte = 10 then pure (byte :: line).reverse else readLine (byte :: line)

/-- Answers the lines of the standard input after a prompt each. -/
partial def converse (session : Session) : IO UInt32 := do
  unless ← flush (({} : Terminal).write prompt).2 do
    return 1
  let line ← readLine []
  if line.isEmpty then
    discard (flush (({} : Terminal).writeLine "").2)
    return 0
  match answer session line {} with
  | (some code, terminal) => finish code terminal
  | (none, terminal) => if ← flush terminal then converse session else pure 1

end SelectPlan.Shell

open SelectPlan SelectPlan.Shell in
/-- Explains the statements of the command or of the standard input. -/
def main (arguments : List String) : IO UInt32 := do
  let surroundings : Surroundings :=
    { arguments := arguments.map fun argument => argument.toUTF8.toList
      levelFault? := logLevelFault? }
  let content ← surroundings.configPath?.mapM fileContent
  match opening { surroundings with files := fun _ => content.join } with
  | .over code terminal => finish code terminal
  | .lines session _ => converse session
