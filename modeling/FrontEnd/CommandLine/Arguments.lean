import FrontEnd.Compilation.Dump

/-!
The arguments of the command line. They are read from left to right: the first fault ends the
reading, and so does a request for help or for the version. What can only be judged in the end is
whether there is a path and whether the options go together.
-/

namespace FrontEnd.CommandLine

/-- The options, none of which takes a value. -/
inductive Flag where
  | dumpTokens
  | dumpTree
  | dumpSymbols
  | verbose
  | quiet
  | help
  | version
deriving DecidableEq

namespace Flag

def ofLong? : String → Option Flag
  | "dump-tokens" => some dumpTokens
  | "dump-tree" => some dumpTree
  | "dump-symbols" => some dumpSymbols
  | "verbose" => some verbose
  | "quiet" => some quiet
  | "help" => some help
  | "version" => some version
  | _ => none

def ofShort? : Char → Option Flag
  | 'v' => some verbose
  | 'q' => some quiet
  | 'h' => some help
  | 'V' => some version
  | _ => none

end Flag

/-- Why arguments are refused. -/
inductive UsageError where
  | unknownOption (word : String)
  | unexpectedValue (word : String)
  | repeatedOption (flag : Flag)
  | unexpectedArgument (word : String)
  | emptyPath
  | missingPath
  | quietAndVerbose
deriving DecidableEq

def UsageError.message : UsageError → String
  | unknownOption word => s!"unknown option '{word}'"
  | unexpectedValue word => s!"option '{word}' takes no value"
  | repeatedOption _ => "an option is given more than once"
  | unexpectedArgument word => s!"unexpected argument '{word}'"
  | emptyPath => "the path is empty"
  | missingPath => "no path is given"
  | quietAndVerbose => "quiet and verbose exclude each other"

/-- What the arguments ask for. -/
inductive Request where
  | compile (path : String) (dumps : DumpSelection)
  | help
  | version
deriving DecidableEq

/-- What ends the reading of arguments before their end. -/
inductive Interruption where
  | refused (error : UsageError)
  | answered (request : Request)
deriving DecidableEq

/-- What was read up to now. -/
structure Arguments where
  path : Option String := none
  flags : List Flag := []

namespace Arguments

/-- Only `verbose` may be given more than once. -/
def addFlag (arguments : Arguments) : Flag → Except Interruption Arguments
  | .help => .error (.answered .help)
  | .version => .error (.answered .version)
  | flag =>
    if flag ∈ arguments.flags ∧ flag ≠ .verbose then .error (.refused (.repeatedOption flag))
    else .ok { arguments with flags := flag :: arguments.flags }

def addPath (arguments : Arguments) (word : String) : Except Interruption Arguments :=
  if arguments.path.isSome then .error (.refused (.unexpectedArgument word))
  else if word.isEmpty then .error (.refused .emptyPath)
  else .ok { arguments with path := some word }

/-- An option by its full name; names are not shortened. -/
def addLong (arguments : Arguments) (name : List Char) : Except Interruption Arguments :=
  let bare := String.ofList (name.takeWhile (· ≠ '='))
  match Flag.ofLong? bare with
  | none => .error (.refused (.unknownOption bare))
  | some flag =>
    if '=' ∈ name then .error (.refused (.unexpectedValue bare)) else arguments.addFlag flag

/-- An option by its letter. -/
def addShort (arguments : Arguments) (letter : Char) : Except Interruption Arguments :=
  match Flag.ofShort? letter with
  | none => .error (.refused (.unknownOption (String.singleton letter)))
  | some flag => arguments.addFlag flag

/-- A word before `--`. Letters may share a dash, and a dash by itself is a path. -/
def addWord (arguments : Arguments) (word : String) : Except Interruption Arguments :=
  match word.toList with
  | '-' :: '-' :: name => arguments.addLong name
  | '-' :: letter :: letters => (letter :: letters).foldlM addShort arguments
  | _ => arguments.addPath word

/-- Reads words; after `--` all of them are paths. -/
def addWords (arguments : Arguments) : List String → Except Interruption Arguments
  | [] => .ok arguments
  | word :: rest =>
    if word = "--" then rest.foldlM addPath arguments
    else (arguments.addWord word).bind fun arguments => arguments.addWords rest

/-- The request that the arguments make all together. -/
def request (arguments : Arguments) : Except UsageError Request :=
  match arguments.path with
  | none => .error .missingPath
  | some path =>
    if .quiet ∈ arguments.flags ∧ .verbose ∈ arguments.flags then .error .quietAndVerbose
    else .ok (.compile path {
      tokens := .dumpTokens ∈ arguments.flags
      tree := .dumpTree ∈ arguments.flags
      symbols := .dumpSymbols ∈ arguments.flags })

end Arguments

/-- What the words of a command line ask for. -/
def Request.ofWords (words : List String) : Except UsageError Request :=
  match Arguments.addWords {} words with
  | .ok arguments => arguments.request
  | .error (.answered request) => .ok request
  | .error (.refused error) => .error error

end FrontEnd.CommandLine
