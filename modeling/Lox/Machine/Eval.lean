import Lox.Machine.Basic
import Lox.Machine.Operator

/-!
Running programs. Expressions have values and statements have effects; both may fail, and neither
need ever end. So both are run with a number of steps, which one level of nesting, one call and
one round of a loop use up by one: a computation that ends without running out of steps has the
same answer with more of them.
-/

namespace Lox

/-! ### Lists -/

/-- Evaluates expressions from first to last. -/
def evalList (eval : Expr → Run Value) : List Expr → Run (List Value)
  | [] => return []
  | e :: es => do
    let v ← eval e
    let vs ← evalList eval es
    return v :: vs

/-- Executes statements from first to last, up to one that returns. -/
def execList (exec : Stmt → Run Flow) : List Stmt → Run Flow
  | [] => return .normal
  | s :: ss => Run.andThen (exec s) (execList exec ss)

/-- Executes statements in the given scope. -/
def execBlock (exec : Stmt → Run Flow) (scope : ScopeId) (body : List Stmt) : Run Flow :=
  Run.within scope (execList exec body)

/-- The value of an expression that may be left out. -/
def evalOptional (eval : Expr → Run Value) : Option Expr → Run Value
  | some e => eval e
  | none => return .nil

/-! ### Calls -/

/-- The double nearest to the ratio of a circle's circumference to its diameter. -/
def circleRatio : Float := 3.141592653589793

/-- The value of a native function. It looks at the arguments that it needs and at no others. -/
def callNative : Native → List Value → Run Value
  | .clock, _ => Run.readClock
  | .abs, .number x :: _ => return .number x.abs
  | .abs, _ => Run.fail (.unlocated .absOfNonNumber)
  | .pi, _ => return .number circleRatio

/-- The value of a function. The body of a declared function runs in a new scope inside the one
around its declaration, where its parameters are bound to the arguments; a body that does not
return has the value `nil`. -/
def invoke (exec : Stmt → Run Flow) (f : Callable) (arguments : List Value) : Run Value :=
  match f with
  | .native g => callNative g arguments
  | .closure _ params body scope => do
    let inner ← Run.openScope scope (params.map Token.lexeme) arguments
    let flow ← execBlock exec inner body
    return flow.value

/-- The value of a call whose operands are known. Faults are placed at its closing parenthesis. -/
def callValue (exec : Stmt → Run Flow) (callee : Value) (paren : Token) (arguments : List Value) :
    Run Value :=
  match callee with
  | .callable _ f =>
    if f.arity = arguments.length then
      Run.orAt paren (invoke exec f arguments)
    else
      Run.fail (.located paren (.wrongArity f.arity arguments.length))
  | _ => Run.fail (.located paren .notCallable)

/-! ### Expressions and statements -/

mutual

/-- The value of an expression. -/
def eval : Nat → Expr → Run Value
  | 0, _ => throw .outOfSteps
  | n + 1, e =>
    match e with
    | .literal value => return .ofLiteral value
    | .group inner => eval n inner
    | .unary operator right => do
      let v ← eval n right
      Run.ofFault operator (applyUnary operator v)
    | .binary left operator right => do
      let v ← eval n left
      let w ← eval n right
      Run.ofFault operator (applyBinary operator v w)
    | .logical left operator right => do
      let v ← eval n left
      if settles operator v then return v else eval n right
    | .reference name => Run.lookup name
    | .assign name value => do
      let v ← eval n value
      Run.assign name v
      return v
    | .call callee paren arguments => do
      let f ← eval n callee
      let vs ← evalList (eval n) arguments
      callValue (exec n) f paren vs

/-- The effect of a statement. -/
def exec : Nat → Stmt → Run Flow
  | 0, _ => throw .outOfSteps
  | n + 1, s =>
    match s with
    | .print value => do
      let v ← eval n value
      Run.printLine v.text
      return .normal
    | .expression value => do
      let _ ← eval n value
      return .normal
    | .declare name initial => do
      let v ← evalOptional (eval n) initial
      Run.define name v
      return .normal
    | .block body => do
      let inner ← Run.openScope (← get).current [] []
      execBlock (exec n) inner body
    | .ifThen condition thenBranch => do
      let v ← eval n condition
      if v.isTruthy then exec n thenBranch else return .normal
    | .ifElse condition thenBranch elseBranch => do
      let v ← eval n condition
      if v.isTruthy then exec n thenBranch else exec n elseBranch
    | .whileDo condition body => do
      let v ← eval n condition
      if v.isTruthy then
        Run.andThen (exec n body) (exec n (.whileDo condition body))
      else
        return .normal
    | .function name params body => do
      let f ← Run.close name params body
      Run.define name f
      return .normal
    | .returns _ value => do
      let v ← evalOptional (eval n) value
      return .returned v

end

end Lox
