import Lox.Fault
import Lox.Value

/-!
What the operators do to values. An operator is known by its token, and any token may stand in the
place of one; those that are no operators have a fault of their own, which comes after a fault of
the operands.
-/

namespace Lox

/-- The value of an operator in front of an operand. -/
def applyUnary (operator : Token) (right : Value) : Except RuntimeFault Value :=
  match operator.kind with
  | .symbol .minus =>
    match right with
    | .number x => .ok (.number (-x))
    | _ => .error .operandNotNumber
  | .symbol .bang => .ok (.bool !right.isTruthy)
  | _ => .error (.unknownOperator operator.lexeme)

/-- The sum of two numbers, or two texts joined. A value beside a string joins it as it is
printed. -/
def Value.plus : Value → Value → Except RuntimeFault Value
  | .number x, .number y => .ok (.number (x + y))
  | .string s, right => .ok (.string (s ++ right.text))
  | left, .string t => .ok (.string (left.text ++ t))
  | _, _ => .error .operandsNotAddable

/-- The value of an operator between two numbers. No number can be divided by zero. -/
def applyArithmetic (operator : Token) (x y : Float) : Except RuntimeFault Value :=
  match operator.kind with
  | .symbol .minus => .ok (.number (x - y))
  | .symbol .star => .ok (.number (x * y))
  | .symbol .slash => if y == 0.0 then .error .divisionByZero else .ok (.number (x / y))
  | .symbol .greater => .ok (.bool (x > y))
  | .symbol .greaterEqual => .ok (.bool (x ≥ y))
  | .symbol .less => .ok (.bool (x < y))
  | .symbol .lessEqual => .ok (.bool (x ≤ y))
  | _ => .error (.unknownOperator operator.lexeme)

/-- The value of an operator between two operands. -/
def applyBinary (operator : Token) (left right : Value) : Except RuntimeFault Value :=
  match operator.kind with
  | .symbol .equalEqual => .ok (.bool (left.equals right))
  | .symbol .bangEqual => .ok (.bool !left.equals right)
  | .symbol .plus => left.plus right
  | _ =>
    match left, right with
    | .number x, .number y => applyArithmetic operator x y
    | _, _ => .error .operandsNotNumbers

/-- Whether the left operand of an operator already settles its value. -/
def settles (operator : Token) (left : Value) : Bool :=
  match operator.kind with
  | .symbol .orWord => left.isTruthy
  | .symbol .andWord => !left.isTruthy
  | _ => false

end Lox
