import SumLang.Script.Command

/-!
# The program

Reads the script that the command line names, carries out the command, and prints
its output.
-/

namespace SumLang

/-- Reads the bytes of a file, with the refusals of the file system told apart. Their codes come
with either sign. -/
def readFileBytes (name : String) : IO (Except FileError (List UInt8)) := do
  try
    return .ok (← IO.FS.readBinFile name).toList
  catch
    | .noFileOrDirectory .. => return .error .missing
    | .inappropriateType _ code _ =>
      return .error (if code = 21 ∨ code + 21 = 0 then .isDirectory else .notDirectory)
    | .invalidArgument _ code _ =>
      return .error (if code = 36 ∨ code + 36 = 0 then .nameTooLong else invalid)
    | e => return .error (.system 5 (toString e))
where
  /-- The name is none that the file system can look up. -/
  invalid : FileError := .system 22 "Invalid argument"

end SumLang

/-- Runs the command with the given arguments. -/
def main (args : List String) : IO UInt32 := do
  let invocation := SumLang.Invocation.ofArgs args
  let debug := ((← IO.getEnv "FOODEBUG").getD "") != ""
  let content ← match invocation.script? with
    | some name => SumLang.readFileBytes name
    | none => pure (.ok [])
  let outcome := invocation.perform debug fun _ => content
  IO.print outcome.output
  return outcome.status.toUInt32
