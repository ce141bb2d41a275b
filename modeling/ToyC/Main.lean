import ToyC.Arguments

/-! The program: a console that reads files from where they are, prints as it
goes, and knows the time. -/
namespace ToyC

/-- The text of a file, or why there is none. -/
def readText (file : String) : IO (Except ReadError String) := do
  try
    return decodeText (← IO.FS.readBinFile file)
  catch
    | .noFileOrDirectory .. => return .error .missing
    | .inappropriateType _ code _ =>
      return .error (if code = 21 || code = -21 then .isDirectory else .notDirectory)
    | failure => return .error (.other failure.toString)

/-- Prints; work started at the given time. -/
def Print.perform (start : Nat) : Print → IO Unit
  | result text => IO.print text
  | complaint text => IO.eprint text
  | duration work => do
    IO.print (work ++ " in " ++ toString ((← IO.monoNanosNow) - start) ++ "ns\n")

/-- The console of a process. Times are counted from the last file read. -/
def processConsole : IO (Console IO) := do
  let start ← IO.mkRef 0
  return {
    read := fun file => do
      let text ← readText file
      start.set (← IO.monoNanosNow)
      return text
    print := fun prints => do
      prints.forM (Print.perform (← start.get)) }

end ToyC

open ToyC in
/-- Exit status 0 says that every file was read and is clean. -/
def main (arguments : List String) : IO UInt32 := do
  match Request.ofArguments? arguments with
  | none =>
    IO.eprint usage
    return 2
  | some request => return (← request.perform (← processConsole)).status
