import Lox.Tree.Basic
import Lox.Tree.Parser.Cursor

/-!
Reading expressions. The binary operators form six tiers, each of which groups to the left and
takes its operands from the next tighter one; below them come the operators in front of an
operand, then calls, then the operands themselves. Assignment stands above all tiers and groups to
the right.

Every reader is given the reader of whole expressions that it uses inside parentheses, and a
number of steps. Each step passes a token, so as many steps as there are tokens are always enough.
-/

namespace Lox

/-- The tiers of binary operators, loosest first. -/
inductive Tier where
  | or | and | equality | comparison | addition | multiplication
  deriving DecidableEq, Repr

namespace Tier

/-- All tiers, loosest first. -/
def all : List Tier := [or, and, equality, comparison, addition, multiplication]

/-- The operators of a tier. -/
def operators : Tier → List Symbol
  | or => [.orWord]
  | and => [.andWord]
  | equality => [.bangEqual, .equalEqual]
  | comparison => [.greater, .greaterEqual, .less, .lessEqual]
  | addition => [.minus, .plus]
  | multiplication => [.slash, .star]

/-- The expression that an operator of a tier makes. The two loosest tiers decide from their left
operand whether the right one is evaluated at all. -/
def node : Tier → Expr → Token → Expr → Expr
  | or | and => .logical
  | _ => .binary

end Tier

/-- The value that a token spells out, if it spells one out. -/
def Kind.literal? : Kind → Option Literal
  | .symbol .falseWord => some (.bool false)
  | .symbol .trueWord => some (.bool true)
  | .symbol .nilWord => some .nil
  | .number x => some (.number x)
  | .string s => some (.string s)
  | _ => none

/-- The largest number of parameters or arguments. -/
def maxArguments : Nat := 255

/-- Whether an operator of a tier comes next. The two loosest tiers ask first whether anything is
left to read, the others go by the token at the cursor alone. -/
def Cursor.seesOperator (c : Cursor) : Tier → Bool
  | .or => c.sees .orWord
  | .and => c.sees .andWord
  | t => t.operators.any c.peek.is

namespace Parser

/-- Whether an operator of a tier comes next. -/
def seesOperator (t : Tier) : Parser Bool := fun c => .ok (c.seesOperator t) c

/-- Reads the operators of a tier that follow the operand `left`, each with its right operand. -/
def tierTail (t : Tier) (operand : Parser Expr) : Nat → Expr → Parser Expr
  | 0, _ => stall
  | n + 1, left => do
    if ← seesOperator t then
      let operator ← advance
      let right ← operand
      tierTail t operand n (t.node left operator right)
    else
      return left

/-- Reads an expression of one tier. -/
def tier (n : Nat) (t : Tier) (operand : Parser Expr) : Parser Expr := do
  let left ← operand
  tierTail t operand n left

/-- Reads an expression of the loosest tier, from operands below the tightest one. -/
def tiers (n : Nat) (operand : Parser Expr) : Parser Expr := Tier.all.foldr (tier n) operand

/-- Reads an operand, and the operators in front of it. -/
def unary (operand : Parser Expr) : Nat → Parser Expr
  | 0 => stall
  | n + 1 => do
    let next ← peek
    if next.is .bang || next.is .minus then
      let operator ← advance
      let right ← unary operand n
      return .unary operator right
    else
      operand

/-- Reads one or more items with commas between them; `count` items of the same list have been read
before. More than the largest number are an error, but they are read and kept. -/
def separated {α : Type} (item : Parser α) (fault : ParseFault) : Nat → Nat → Parser (List α)
  | 0, _ => stall
  | n + 1, count => do
    reportIf (maxArguments ≤ count) (← peek) fault
    let first ← item
    if ← take .comma then
      let others ← separated item fault n (count + 1)
      return first :: others
    else
      return [first]

/-- Reads a list of items, which may be empty, up to the parenthesis that closes it. -/
def items {α : Type} (item : Parser α) (fault : ParseFault) (n : Nat) : Parser (List α) :=
  unlessSeen .rightParen [] (separated item fault n 0)

/-- Reads the argument lists that follow `callee`. -/
def callTail (expression : Parser Expr) : Nat → Expr → Parser Expr
  | 0, _ => stall
  | n + 1, callee => do
    if ← take .leftParen then
      let args ← items expression .tooManyArguments n
      let paren ← expect .rightParen .parenAfterArguments
      callTail expression n (.call callee paren args)
    else
      return callee

/-- Reads a literal, a name, or an expression in parentheses. -/
def primary (expression : Parser Expr) : Parser Expr := do
  let next ← peek
  match next.kind.literal? with
  | some value =>
    let _ ← advance
    return .literal value
  | none =>
    if next.kind.isIdentifier then
      let name ← advance
      return .reference name
    else if next.is .leftParen then
      let _ ← advance
      let inner ← expression
      let _ ← expect .rightParen .parenAfterExpression
      return .group inner
    else
      fail .expression

/-- Reads an operand and the calls made on it. -/
def call (n : Nat) (expression : Parser Expr) : Parser Expr := do
  let callee ← primary expression
  callTail expression n callee

/-- Reads an expression; `expression` reads the expressions inside it. Only a name can be assigned
to: any other left side is an error, and stands for itself. -/
def assignment (n : Nat) (expression : Parser Expr) : Parser Expr := do
  let left ← tiers n (unary (call n expression) n)
  if (← peek).is .equal then
    let equals ← advance
    let value ← expression
    match left with
    | .reference name => return .assign name value
    | _ =>
      reportIf true equals .assignmentTarget
      return left
  else
    return left

/-- Reads an expression in the given number of steps. -/
def expression : Nat → Parser Expr
  | 0 => stall
  | n + 1 => assignment n (expression n)

end Parser

end Lox
