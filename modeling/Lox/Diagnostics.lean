import Lox.Fault

/-!
The errors reported so far. Errors of the text and of the tree keep a program from running; errors
of the run do not keep a later one from running. Both are remembered apart from the list, so that
the list can be handed out without forgetting that something went wrong.
-/

namespace Lox

/-- A reported error. -/
inductive Report where
  | scan (e : ScanError)
  | parse (e : ParseError)
  | runtime (e : RuntimeError)
  deriving Repr

namespace Report

/-- The error as it is shown. -/
def text : Report → String
  | scan e => e.text
  | parse e => e.text
  | runtime e => e.text

/-- Whether the error was found before the program ran. -/
def isStatic : Report → Bool
  | runtime _ => false
  | _ => true

end Report

/-- The reports that nobody has taken yet, oldest first, and what was reported since the last
reset. -/
structure Diagnostics where
  reports : List Report := []
  hadStatic : Bool := false
  hadRuntime : Bool := false
  deriving Repr

namespace Diagnostics

/-- Adds reports in order. -/
def addAll (d : Diagnostics) (rs : List Report) : Diagnostics where
  reports := d.reports ++ rs
  hadStatic := d.hadStatic || rs.any Report.isStatic
  hadRuntime := d.hadRuntime || rs.any fun r => !r.isStatic

/-- Adds a report. -/
def add (d : Diagnostics) (r : Report) : Diagnostics := d.addAll [r]

/-- Hands out the reports; that something went wrong stays known. -/
def take (d : Diagnostics) : List Report × Diagnostics := (d.reports, { d with reports := [] })

/-- Forgets everything. -/
def reset (_ : Diagnostics) : Diagnostics := {}

/-- The status with which a process ends after these reports. -/
def exitCode (d : Diagnostics) : Option Nat :=
  if d.hadStatic then some 65 else if d.hadRuntime then some 70 else none

end Diagnostics

end Lox
