import Lox.Scope

/-!
The machine that runs programs: the scopes, the scope in which it is working, the sink that it
prints to, and a clock. A step of a program is a computation on the machine, which ends with a
value, with an error, or without an answer because the number of steps granted to it did not
suffice.
-/

namespace Lox

/-- The state of a running program. The clock shows a number of seconds at each reading, or
nothing if the time is before its epoch; `identities` counts the functions made so far. -/
structure Machine where
  store : Store
  current : ScopeId
  identities : Nat
  sink : Sink
  clock : Nat → Option Float
  readings : Nat := 0

/-- Why a computation stops before its end. -/
inductive Stop where
  | error (e : RuntimeError)
  | outOfSteps
  deriving DecidableEq, Repr

/-- A computation on the machine. -/
abbrev Run := EStateM Stop Machine

/-- How a statement ends: normally, or with the value that the function around it is to return. -/
inductive Flow where
  | normal
  | returned (value : Value)
  deriving Repr

/-- The value of a function whose body ends like this. -/
def Flow.value : Flow → Value
  | normal => .nil
  | returned v => v

/-- The scope of the globals is the first that is made. -/
def globalScope : ScopeId := 0

namespace Machine

/-- Makes a function value with an identity of its own. -/
def fresh (m : Machine) (f : Callable) : Value × Machine :=
  (.callable m.identities f, { m with identities := m.identities + 1 })

/-- Binds a name in a scope. -/
def define (m : Machine) (i : ScopeId) (name : String) (value : Value) : Machine :=
  { m with store := m.store.define i name value }

/-- Binds a native function under its name among the globals. -/
def defineNative (m : Machine) (f : Native) : Machine :=
  let (v, m) := m.fresh (.native f)
  m.define globalScope f.name v

/-- A machine that has run nothing yet: the globals hold the native functions. -/
def new (sink : Sink) (clock : Nat → Option Float) : Machine :=
  let bare : Machine :=
    { store := ({} : Store).add none, current := globalScope, identities := 0, sink, clock }
  Native.all.foldl defineNative bare

end Machine

namespace Run

/-- Ends with an error. -/
def fail {α : Type} (e : RuntimeError) : Run α := throw (.error e)

/-- The value of an operation that may have a fault, which is placed at a token. -/
def ofFault {α : Type} (token : Token) : Except RuntimeFault α → Run α
  | .ok a => pure a
  | .error fault => fail (.located token fault)

/-- Places the errors of a computation that have no line at a token. -/
def orAt {α : Type} (token : Token) (r : Run α) : Run α := fun m =>
  match r m with
  | .error (.error e) m' => .error (.error (e.orAt token)) m'
  | result => result

/-- The value of a name in the current scope. -/
def lookup (name : Token) : Run Value := fun m =>
  match m.store.lookup m.current name with
  | .ok v => .ok v m
  | .error e => .error (.error e) m

/-- Gives a new value to a name that is visible in the current scope. -/
def assign (name : Token) (value : Value) : Run Unit := fun m =>
  match m.store.resolve m.current name.lexeme with
  | some i => .ok () (m.define i name.lexeme value)
  | none => .error (.error (Store.undefined name)) m

/-- Binds a name in the current scope. -/
def define (name : Token) (value : Value) : Run Unit := fun m =>
  .ok () (m.define m.current name.lexeme value)

/-- Makes a function value that remembers the current scope. -/
def close (name : Token) (params : List Token) (body : List Stmt) : Run Value := fun m =>
  let (v, m) := m.fresh (.closure name params body m.current)
  .ok v m

/-- Prints a line. If it does not fit into the sink, what fits is printed before the error. -/
def printLine (text : String) : Run Unit := fun m =>
  let line := text ++ "\n"
  let fits := m.sink.accepts line
  let m := { m with sink := m.sink.push line }
  if fits then .ok () m else .error (.error (.unlocated (.output .full))) m

/-- Reads the clock. -/
def readClock : Run Value := fun m =>
  let reading := m.clock m.readings
  let m := { m with readings := m.readings + 1 }
  match reading with
  | some x => .ok (.number x) m
  | none => .error (.error (.unlocated .clockBeforeEpoch)) m

/-- Goes on with `next`, unless `r` returns. -/
def andThen (r next : Run Flow) : Run Flow := do
  match ← r with
  | .returned v => return .returned v
  | .normal => next

/-- Works in another scope, and comes back however the work ends. -/
def within {α : Type} (scope : ScopeId) (r : Run α) : Run α := fun m =>
  let outer := m.current
  match r { m with current := scope } with
  | .ok a m' => .ok a { m' with current := outer }
  | .error s m' => .error s { m' with current := outer }

/-- Makes a new scope inside the given one, with names bound to values in it, and gives its
number. -/
def openScope (parent : ScopeId) (names : List String) (values : List Value) : Run ScopeId :=
  fun m =>
  let scope := m.store.size
  .ok scope { m with store := (m.store.add (some parent)).defineAll scope names values }

end Run

end Lox
