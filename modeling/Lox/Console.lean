import Lox.Session
import Lox.Text.Basic
import Lox.Tree.Printer

/-!
A session with two output streams. What a program prints, a listing and the prompt all go to the
sink of the machine, which is the standard output here; errors are shown on the other stream, each
on lines of its own. A text can be run, or only shown: as its tokens, or as its tree if it has
one.

At the prompt every line is a text of its own: its errors are shown and then forgotten, but the
globals stay.
-/

namespace Lox

/-- What is done with a text. -/
inductive Mode where
  | run
  | tokens
  | tree
  deriving DecidableEq, Repr

/-- A session, and what was shown on the stream for errors. -/
structure Console where
  session : Session
  errors : String := ""

namespace Console

/-- A console on which nothing was shown yet. -/
def new (clock : Nat → Option Float) : Console := { session := { machine := Machine.new {} clock } }

/-- Shows a text on the standard output. -/
def put (c : Console) (text : String) : Console :=
  { c with session.machine.sink := c.session.machine.sink.push text }

/-- Adds reports. -/
def report (c : Console) (reports : List Report) : Console :=
  { c with session.diagnostics := c.session.diagnostics.addAll reports }

/-- Shows the reports that nobody has taken, and takes them. -/
def showErrors (c : Console) : Console :=
  let (reports, diagnostics) := c.session.diagnostics.take
  { session := { c.session with diagnostics }
    errors := c.errors ++ String.join (reports.map fun r => r.text ++ "\n") }

/-- Shows the tokens of a text, one a line. -/
def showTokens (c : Console) (text : String) : Console :=
  let scanned := scan text
  let c := c.report (scanned.errors.map .scan)
  c.put (String.join (scanned.tokens.map fun t => t.text ++ "\n"))

/-- Shows the tree of a text that can be read. -/
def showTree (c : Console) (text : String) : Console :=
  let source := Source.read text
  let c := c.report source.reports
  if c.session.diagnostics.hadStatic then c else c.put (programText source.statements ++ "\n")

/-- Does with a text what the mode says, and shows the errors. -/
def enter (c : Console) (steps : Nat) (mode : Mode) (text : String) : Option Console :=
  let entered :=
    match mode with
    | .run => (c.session.run steps text).map fun session => { c with session }
    | .tokens => some (c.showTokens text)
    | .tree => some (c.showTree text)
  entered.map showErrors

/-! ### The prompt -/

/-- What invites a line. -/
def invitation : String := "> "

/-- Enters one line and forgets its errors. -/
def enterLine (c : Console) (steps : Nat) (mode : Mode) (line : String) : Option Console :=
  (c.enter steps mode line).map fun c =>
    { c with session.diagnostics := c.session.diagnostics.reset }

/-- Whether a line asks to leave the prompt. -/
def isExit (line : String) : Bool := Text.trim line.toList = "exit".toList

/-- The lines of an input, each with its line end; the last may have none. -/
def lines : List UInt8 → List (List UInt8)
  | [] => []
  | b :: bs =>
    if b = 10 then [b] :: lines bs
    else
      match lines bs with
      | [] => [[b]]
      | l :: ls => (b :: l) :: ls

/-- The text of a line, if its bytes are one. -/
def decode? (line : List UInt8) : Option String := String.fromUTF8? ⟨line.toArray⟩

/-- What comes of one turn at the prompt. -/
inductive Turn where
  | ended (c : Console)
  | entered (c : Console)
  | unfinished

/-- Goes on after a turn, if the conversation is not over. -/
def Turn.andThen (t : Turn) (next : Console → Option Console) : Option Console :=
  match t with
  | ended c => some c
  | entered c => next c
  | unfinished => none

/-- One turn at the prompt, after the invitation. The conversation is over at the end of the input,
where there is no line, at a line that is no text, and at one that asks to leave. -/
def turn (c : Console) (steps : Nat) (mode : Mode) (line : Option (List UInt8)) : Turn :=
  match line.bind decode? with
  | none => .ended c
  | some text =>
    if isExit text then .ended c
    else
      match c.enterLine steps mode text with
      | none => .unfinished
      | some c => .entered c

/-- Invites and enters line after line until the conversation is over. -/
def converse (steps : Nat) (mode : Mode) : List (List UInt8) → Console → Option Console
  | [], c => ((c.put invitation).turn steps mode none).andThen some
  | l :: ls, c => ((c.put invitation).turn steps mode (some l)).andThen (converse steps mode ls)

end Console

end Lox
