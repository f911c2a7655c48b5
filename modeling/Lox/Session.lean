import Lox.Diagnostics
import Lox.Machine.Eval
import Lox.Token.Lexer
import Lox.Tree.Parser.Declaration

/-!
A session: one machine and the errors reported so far. Several texts can be run in a session, one
after the other; the later ones find the globals that the earlier ones left. A text that cannot be
read is not run, and while an error of reading is on record nothing is.

Whatever runs a program takes the number of steps granted to it and answers `none` if they run
out.
-/

namespace Lox

/-- More steps than any program gets through in a lifetime. -/
def ampleSteps : Nat := Nat.pow 2 60

/-- The answer of a computation that did not run out of steps. -/
inductive Outcome (α : Type) where
  | ok (a : α)
  | error (e : RuntimeError)
  deriving Repr

/-- The error with which a computation ended, if it ended with one. -/
def Outcome.errors {α : Type} : Outcome α → List RuntimeError
  | ok _ => []
  | error e => [e]

namespace Machine

/-- Runs a computation to its end: its answer and the machine after it. -/
def perform {α : Type} (m : Machine) (r : Run α) : Option (Outcome α × Machine) :=
  match r m with
  | .ok a m' => some (.ok a, m')
  | .error (.error e) m' => some (.error e, m')
  | .error .outOfSteps _ => none

/-- Executes a statement in the current scope. -/
def execute (m : Machine) (steps : Nat) (s : Stmt) : Option (Outcome Flow × Machine) :=
  m.perform (exec steps s)

/-- Executes statements in a new scope inside the given one. -/
def executeBlock (m : Machine) (steps : Nat) (parent : ScopeId) (body : List Stmt) :
    Option (Outcome Flow × Machine) :=
  m.perform do
    let inner ← Run.openScope parent [] []
    execBlock (exec steps) inner body

/-- Calls a function as it is: no argument is asked for and no error is placed. -/
def call (m : Machine) (steps : Nat) (f : Callable) (arguments : List Value) :
    Option (Outcome Value × Machine) :=
  m.perform (invoke (exec steps) f arguments)

/-- The error of flushing the sink, if that fails. -/
def flushErrors (m : Machine) : List RuntimeError :=
  match m.sink.flush with
  | none => []
  | some failure => [.unlocated (.output failure)]

end Machine

/-- What a text says: the program that could be read, and the errors in the order in which they were
found. -/
structure Source where
  statements : List Stmt
  reports : List Report

/-- Reads a text. The tokens of a text always have an end, so that reading them ends too. -/
def Source.read (text : String) : Source :=
  let scanned := scan text
  let parsed := (parse scanned.tokens).getD {}
  { statements := parsed.statements
    reports := scanned.errors.map .scan ++ parsed.errors.map .parse }

/-- A machine and the errors reported so far. -/
structure Session where
  machine : Machine
  diagnostics : Diagnostics := {}

namespace Session

/-- Adds a report. -/
def report (s : Session) (r : Report) : Session := { s with diagnostics := s.diagnostics.add r }

/-- Runs statements one after the other in the current scope, up to the first error, which is
reported. Then the sink is flushed, and if that fails it is reported as well. -/
def interpret (s : Session) (steps : Nat) (statements : List Stmt) : Option Session :=
  (s.machine.perform (execList (exec steps) statements)).map fun (outcome, machine) =>
    { machine
      diagnostics :=
        s.diagnostics.addAll ((outcome.errors ++ machine.flushErrors).map .runtime) }

/-- Reads a text and, if no error of reading is on record then, runs it. -/
def run (s : Session) (steps : Nat) (text : String) : Option Session :=
  let source := Source.read text
  let s := { s with diagnostics := s.diagnostics.addAll source.reports }
  if s.diagnostics.hadStatic then some s else s.interpret steps source.statements

end Session

end Lox
