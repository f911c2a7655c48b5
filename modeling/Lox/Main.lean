import Lox.CommandLine
import Std.Time.DateTime.Timestamp

/-!
The program itself: it reads the clock, the files and the lines that the library asks for, and
writes what the library answers.
-/

open Lox

namespace Lox.CommandLine

/-- The seconds since the epoch. -/
def secondsNow : IO Float := do
  let now ← Std.Time.Timestamp.now
  return Float.ofInt now.toNanosecondsSinceUnixEpoch.val / 1000000000

/-- A clock that shows the given time at its first reading and a microsecond more at each later
one. -/
def clockFrom (start : Float) (reading : Nat) : Option Float :=
  some (start + reading.toFloat / 1000000)

/-- The contents of a file. -/
def readFile (name : String) : IO (Except ReadFailure ByteArray) := do
  try
    return .ok (← IO.FS.readBinFile name)
  catch
    | .noFileOrDirectory .. => return .error .notFound
    | .inappropriateType .. => return .error .directory
    | e => return .error (.other (toString e))

/-- Writes what a process leaves behind, and gives its exit status. -/
def leave (exit : Option Exit) : IO UInt32 := do
  match exit with
  | none => return 70
  | some exit =>
    let out ← IO.getStdout
    out.write exit.out
    out.flush
    IO.eprint exit.err
    return UInt32.ofNat exit.status

/-- Writes what a console has shown, and clears it. -/
def flush (c : Console) : IO Console := do
  let out ← IO.getStdout
  out.write c.session.machine.sink.written
  out.flush
  IO.eprint c.errors
  return { c with session.machine.sink := {}, errors := "" }

/-- Reads the bytes of one line, with its line end. There is no line at the end of the input. -/
partial def readLine (input : IO.FS.Stream) (line : List UInt8) : IO (Option (List UInt8)) := do
  let bytes ← input.read 1
  match bytes.data.toList with
  | [] => return if line.isEmpty then none else some line.reverse
  | b :: _ => if b = 10 then return some (b :: line).reverse else readLine input (b :: line)

/-- Holds a conversation at the prompt, turn by turn. -/
partial def promptLoop (mode : Mode) (c : Console) : IO UInt32 := do
  let c ← flush (c.put Console.invitation)
  let line ← readLine (← IO.getStdin) []
  let start ← secondsNow
  let c := { c with session.machine.clock := clockFrom start, session.machine.readings := 0 }
  match c.turn ampleSteps mode line with
  | .ended _ => return 0
  | .entered c => promptLoop mode c
  | .unfinished => return 70

end Lox.CommandLine

open Lox.CommandLine in
/-- Runs a script or the prompt, as the arguments say. -/
def main (arguments : List String) : IO UInt32 := do
  let start ← secondsNow
  match request arguments with
  | .prompt mode => promptLoop mode (.new (clockFrom start))
  | .script mode name =>
    let contents ← readFile name
    leave (runScript (.new (clockFrom start)) ampleSteps mode name contents)
  | _ =>
    let read := fun _ => .error .notFound
    leave (run (clockFrom start) ampleSteps read ByteArray.empty arguments)
