import Lox.Process

/-!
The command line. Its arguments say what to do with which script; without a script there is a
prompt. What comes of it is what the process leaves behind: two texts and an exit status.
-/

namespace Lox.CommandLine

/-- What the arguments ask for. -/
inductive Request where
  | version
  | help
  | script (mode : Mode) (name : String)
  | prompt (mode : Mode)
  | refused (reason usage : String)
  deriving DecidableEq, Repr

/-! ### Arguments -/

/-- What the arguments have said so far. -/
structure Options where
  tokens : Nat := 0
  tree : Nat := 0
  script : Option String := none
  deriving DecidableEq, Repr

/-- How the program is called. -/
def usage : String := "rlox [FLAGS] [script]"

/-- Refuses an argument that has no place. -/
def unexpected (argument : String) : Request :=
  .refused
    ("Found argument '" ++ argument ++ "' which wasn't expected, or isn't valid in this context")
    usage

/-- Refuses a flag that was given more than once. -/
def repeated (flag : String) : Request :=
  .refused
    ("The argument '" ++ flag ++ "' was provided more than once, but cannot be used multiple times")
    usage

/-- What the options ask for once all arguments are known. -/
def Options.request (o : Options) : Request :=
  if 0 < o.tokens && 0 < o.tree then
    .refused "The argument '--tokens' cannot be used with '--ast'" "rlox --ast --tokens"
  else if 1 < o.tokens then repeated "--tokens"
  else if 1 < o.tree then repeated "--ast"
  else
    let mode := if 0 < o.tokens then Mode.tokens else if 0 < o.tree then .tree else .run
    match o.script with
    | some name => .script mode name
    | none => .prompt mode

/-- Something that can be asked for by a word or by a letter. -/
inductive Flag where
  | tokens
  | tree
  | version
  | help
  deriving DecidableEq, Repr

/-- The flag of a word. -/
def Flag.ofWord? : String → Option Flag
  | "tokens" => some .tokens
  | "ast" => some .tree
  | "version" => some .version
  | "help" => some .help
  | _ => none

/-- The flag of a letter. -/
def Flag.ofLetter? : Char → Option Flag
  | 'V' => some .version
  | 'h' => some .help
  | _ => none

/-- What a single argument says. -/
inductive Argument where
  | flag (f : Flag)
  | endOfFlags
  | name (text : String)
  | unknown (text : String)
  deriving DecidableEq, Repr

/-- Reads what follows two dashes: more dashes, a word, and perhaps an equals sign with a value.
No flag takes a value, so the word alone counts. -/
def Argument.ofLong (cs : List Char) : Argument :=
  let word := String.ofList ((cs.dropWhile (· == '-')).takeWhile (· != '='))
  match Flag.ofWord? word with
  | some f => .flag f
  | none => .unknown ("--" ++ word)

/-- Reads an argument. After one dash the first letter decides, because a letter is either granted
at once or refused; a lone dash is a name. -/
def Argument.ofString (argument : String) : Argument :=
  match argument.toList with
  | ['-', '-'] => .endOfFlags
  | '-' :: '-' :: cs => ofLong cs
  | '-' :: c :: _ =>
    match Flag.ofLetter? c with
    | some f => .flag f
    | none => .unknown (String.ofList ['-', c])
  | _ => .name argument

/-- Reads the arguments after a lone `--`: each is the name of a script. -/
def requestOfNames (o : Options) : List String → Request
  | [] => o.request
  | name :: names =>
    if o.script.isSome then unexpected name else requestOfNames { o with script := some name } names

/-- Reads the arguments. A request for the version or for help is granted as soon as it is met. -/
def requestFrom (o : Options) : List String → Request
  | [] => o.request
  | argument :: rest =>
    match Argument.ofString argument with
    | .flag .version => .version
    | .flag .help => .help
    | .flag .tokens => requestFrom { o with tokens := o.tokens + 1 } rest
    | .flag .tree => requestFrom { o with tree := o.tree + 1 } rest
    | .endOfFlags => requestOfNames o rest
    | .unknown text => unexpected text
    | .name text =>
      if o.script.isSome then unexpected text
      else requestFrom { o with script := some text } rest

/-- What the arguments ask for. -/
def request (arguments : List String) : Request := requestFrom {} arguments

/-! ### What is left behind -/

/-- The name and version of the program. -/
def versionText : String := "rlox 0.1.0\n"

/-- What can be asked for. -/
def helpText : String :=
  versionText ++ "Tree-walking interpreter for the Lox language\n\nUSAGE:\n    " ++ usage
    ++ "\n\nFLAGS:\n        --ast        Print the parsed syntax tree instead of running"
    ++ "\n    -h, --help       Prints help information"
    ++ "\n        --tokens     Print the scanned tokens instead of running"
    ++ "\n    -V, --version    Prints version information"
    ++ "\n\nARGS:\n    <script>    Script to run; starts an interactive prompt when omitted\n"

/-- Refuses the arguments. -/
def refuse (reason usage : String) : Exit where
  err :=
    "error: " ++ reason ++ "\n\nUSAGE:\n    " ++ usage ++ "\n\nFor more information try --help\n"
  status := 1

/-- What a process leaves behind, given its arguments, the files it can read and its standard
input. -/
def run (clock : Nat → Option Float) (steps : Nat) (read : String → Except ReadFailure ByteArray)
    (input : ByteArray) (arguments : List String) : Option Exit :=
  match request arguments with
  | .version => some { out := versionText.toUTF8 }
  | .help => some { out := helpText.toUTF8 }
  | .refused reason usage => some (refuse reason usage)
  | .script mode name => runScript (.new clock) steps mode name (read name)
  | .prompt mode => runPrompt (.new clock) steps mode input

end Lox.CommandLine
