/-
# The program

Evaluates the qubit of a document and plays its gates and sequences, and prints a report.
-/

import QubitSphere.CommandLine

namespace QubitSphere

/-- The text of a file, or of the standard input; `none` if it cannot be read. -/
def readDocument (path : Option String) : IO (Option String) := do
  try
    match path with
    | some path => return some (← IO.FS.readFile path)
    | none =>
      let bytes ← (← IO.getStdin).readBinToEnd
      return String.fromUTF8? bytes
  catch _ => return none

/-- How the program ends on its arguments. -/
def ending (arguments : List String) : IO Ending := do
  match Options.ofArguments? arguments with
  | none => return .misuse
  | some options => return .ofText? options (← readDocument options.input)

/-- Runs the program and tells its exit code. -/
def run (arguments : List String) : IO UInt32 := do
  let ending ← ending arguments
  match ending with
  | .report text => IO.print text
  | .unfit => IO.eprintln "error: the input is no document that can be read"
  | .misuse => IO.eprintln "usage: [--input PATH] [--skip-noops]"
  return ending.code.toUInt32

end QubitSphere

def main (arguments : List String) : IO UInt32 :=
  QubitSphere.run arguments
