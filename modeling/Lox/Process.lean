import Lox.Console

/-!
What a process leaves behind after a script or after a conversation at the prompt: two texts and an
exit status.
-/

namespace Lox.CommandLine

/-- The standard output, the standard error stream and the exit status of a process. -/
structure Exit where
  out : ByteArray := ByteArray.empty
  err : String := ""
  status : Nat := 0

/-- Why a script cannot be read. -/
inductive ReadFailure where
  | notFound
  | directory
  | notText
  | other (reason : String)
  deriving DecidableEq, Repr

/-- The wording of a failure to read. -/
def ReadFailure.message : ReadFailure → String
  | notFound => "No such file or directory (os error 2)"
  | directory => "Is a directory (os error 21)"
  | notText => "stream did not contain valid UTF-8"
  | other reason => reason

/-- The text of a script. -/
def scriptText (contents : Except ReadFailure ByteArray) : Except ReadFailure String := do
  match String.fromUTF8? (← contents) with
  | some text => return text
  | none => throw .notText

/-- Enters a script. The exit status says whether something went wrong. -/
def runScript (c : Console) (steps : Nat) (mode : Mode) (name : String)
    (contents : Except ReadFailure ByteArray) : Option Exit :=
  match scriptText contents with
  | .error failure =>
    some { err := "Could not read '" ++ name ++ "': " ++ failure.message ++ "\n", status := 74 }
  | .ok text =>
    (c.enter steps mode text).map fun c =>
      { out := c.session.machine.sink.written
        err := c.errors
        status := c.session.diagnostics.exitCode.getD 0 }

/-- Holds a conversation at the prompt over a whole input. -/
def runPrompt (c : Console) (steps : Nat) (mode : Mode) (input : ByteArray) : Option Exit :=
  (c.converse steps mode (Console.lines input.data.toList)).map fun c =>
    { out := c.session.machine.sink.written, err := c.errors }

end Lox.CommandLine
