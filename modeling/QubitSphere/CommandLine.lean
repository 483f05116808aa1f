/-
# The command line

| argument | says |
| --- | --- |
| `-i PATH`, `-iPATH`, `-i=PATH` | read the document from a file |
| `--input PATH`, `--input=PATH` | the same |
| `--skip-noops` | leave out the turns that do nothing |
| `--` | no options follow |

Each may be given once, and nothing else may stand on the line.  A path given as an argument of its
own may not begin with a minus sign, unless it is nothing but that, and no path may be empty.
-/

import QubitSphere.Report.Printer

namespace QubitSphere

/-- What the arguments ask for. -/
structure Options where
  input : Option String := none
  skipNoops : Bool := false

namespace Options

/-- Sets the path of the document. -/
def withInput (options : Options) (path : String) : Option Options :=
  if options.input.isSome || path.isEmpty then none
  else some { options with input := some path }

/-- Leaves out the turns that do nothing. -/
def withSkipNoops (options : Options) : Option Options :=
  if options.skipNoops then none else some { options with skipNoops := true }

/-- What an argument is. -/
inductive Argument where
  /-- The option that takes a path, with the path if it is in the same argument. -/
  | input (path : Option String)
  | skipNoops
  /-- The end of the options. -/
  | stop
  /-- Anything that is no option but could be the path of one. -/
  | plain
  | unknown

/-- The path in an argument such as `-iPATH`, after the letter. -/
def attached : List Char → Option String
  | [] => none
  | '=' :: path => some (String.ofList path)
  | path => some (String.ofList path)

/-- What an argument is, by its own text. -/
def classify (argument : String) : Argument :=
  match argument.toList with
  | ['-', '-'] => .stop
  | '-' :: '-' :: long =>
    let name := String.ofList (long.takeWhile (· != '='))
    let path :=
      match long.dropWhile (· != '=') with
      | _ :: path => some (String.ofList path)
      | [] => none
    if name == "input" then .input path
    else if name == "skip-noops" && path.isNone then .skipNoops
    else .unknown
  | '-' :: 'i' :: rest => .input (attached rest)
  | ['-'] => .plain
  | '-' :: _ => .unknown
  | _ => .plain

/-- Follows the arguments one by one; `none` if they do not fit. -/
def follow (options : Options) : List String → Option Options
  | [] => some options
  | argument :: rest =>
    match classify argument with
    | .input (some path) => do follow (← options.withInput path) rest
    | .input none =>
      match rest with
      | path :: rest =>
        match classify path with
        | .plain => do follow (← options.withInput path) rest
        | _ => none
      | [] => none
    | .skipNoops => do follow (← options.withSkipNoops) rest
    | .stop => if rest.isEmpty then some options else none
    | .plain | .unknown => none

/-- What the arguments ask for; `none` if they do not fit. -/
def ofArguments? (arguments : List String) : Option Options :=
  follow {} arguments

end Options

/-- How the program ends. -/
inductive Ending where
  /-- The report is printed. -/
  | report (text : String)
  /-- The document cannot be read, or does not fit. -/
  | unfit
  /-- The arguments do not fit. -/
  | misuse

namespace Ending

/-- The exit code. -/
def code : Ending → UInt8
  | report _ => 0
  | unfit => 1
  | misuse => 2

/-- What is printed. -/
def output : Ending → String
  | report text => text
  | unfit | misuse => ""

/-- What the options make of a document's text, which is `none` if it cannot be read. -/
def ofText? (options : Options) (text : Option String) : Ending :=
  match text.bind Document.read? with
  | some document => .report (Report.ofDocument options.skipNoops document).print
  | none => .unfit

/-- The whole program: the arguments, the files that can be read, and the standard input. -/
def ofArguments (arguments : List String) (file? : String → Option String)
    (standardInput : String) : Ending :=
  match Options.ofArguments? arguments with
  | none => .misuse
  | some options =>
    match options.input with
    | some path => ofText? options (file? path)
    | none => ofText? options (some standardInput)

end Ending
end QubitSphere
