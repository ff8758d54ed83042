import FrontEnd.CommandLine.Arguments

/-!
What a run of the program writes and with which code it ends: 0 if nothing is wrong, 1 if a text
cannot be read or has diagnostics, 2 if the arguments are refused.
-/

namespace FrontEnd

namespace CommandLine

/-- Where a source text comes from. -/
inductive Origin where
  | standardInput
  | file (path : String)
deriving DecidableEq

namespace Origin

/-- A dash by itself stands for the standard input. -/
def ofPath (path : String) : Origin :=
  if path = "-" then standardInput else file path

def name : Origin → String
  | standardInput => "<stdin>"
  | file path => path

end Origin

/-- Why a text cannot be read. -/
inductive ReadError where
  | missing
  | directory
  /-- The path leads on from something that is no directory. -/
  | notDirectory
  | notUtf8
  | other (reason : String)
deriving DecidableEq

def ReadError.message : ReadError → String
  | missing => "No such file or directory (os error 2)"
  | directory => "Is a directory (os error 21)"
  | notDirectory => "Not a directory (os error 20)"
  | notUtf8 => "stream did not contain valid UTF-8"
  | other reason => reason

/-- The text that some bytes stand for. -/
def decode (bytes : ByteArray) : Except ReadError String :=
  match String.fromUTF8? bytes with
  | some text => .ok text
  | none => .error .notUtf8

/-- What is written to the two outputs, and the code at the end. -/
structure Report where
  exitCode : Nat
  output : String := ""
  errorLines : List String := []

namespace Report

/-- The lines about a diagnostic. Its place is given twice: counted from one in the source, and as
the diagnostic has it. -/
def diagnosticLines (name source : String) (diagnostic : Diagnostic) : List String :=
  let title := if diagnostic.problem.isSyntactic then "Syntax error" else "Semantic error"
  let place := Position.advanceTo diagnostic.location.span.start {} source.toList
  [s!"error: {title}",
   s!"┌─ {name}:{place.row + 1}:{place.col + 1}",
   s!"= row {diagnostic.location.row}, col {diagnostic.location.col}"]

/-- The report on a source text. Dumps are written whether it has errors or not. -/
def ofSource (name source : String) (dumps : DumpSelection) : Report :=
  let compilation := compile source
  let output := compilation.dump dumps
  if compilation.hasErrors then
    { exitCode := 1
      output := output
      errorLines := compilation.diagnostics.flatMap (diagnosticLines name source)
        ++ [s!"error: compilation failed with {compilation.diagnostics.length} diagnostic(s)"] }
  else { exitCode := 0, output := output }

/-- The report on what was read from an origin. -/
def ofReading (origin : Origin) (reading : Except ReadError String) (dumps : DumpSelection) :
    Report :=
  match reading with
  | .ok source => ofSource origin.name source dumps
  | .error error =>
    { exitCode := 1, errorLines := [s!"error: cannot read {origin.name}: {error.message}"] }

def ofUsageError (error : UsageError) : Report :=
  { exitCode := 2, errorLines := [s!"error: {error.message}"] }

def version : Report :=
  { exitCode := 0, output := "arbc 0.1.0\n" }

def help : Report :=
  { exitCode := 0
    output := "Usage: arbc [OPTIONS] <input>\n\n"
      ++ "  <input>          source file, or - for the standard input\n"
      ++ "  --dump-tokens    list the tokens\n"
      ++ "  --dump-tree      show the outline of the program\n"
      ++ "  --dump-symbols   list the symbols\n"
      ++ "  -v, --verbose    say more; may be repeated\n"
      ++ "  -q, --quiet      say less\n"
      ++ "  -h, --help       show this text\n"
      ++ "  -V, --version    show the version\n" }

end Report

/-- Runs the program on the words of a command line. The only effect it needs is reading. -/
def run {m : Type → Type} [Monad m] (read : Origin → m (Except ReadError String))
    (words : List String) : m Report :=
  match Request.ofWords words with
  | .error error => pure (.ofUsageError error)
  | .ok .help => pure .help
  | .ok .version => pure .version
  | .ok (.compile path dumps) => do
    let origin := Origin.ofPath path
    let reading ← read origin
    return .ofReading origin reading dumps

end CommandLine

end FrontEnd
