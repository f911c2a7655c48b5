import Lox.Sink
import Lox.Token.Basic

/-!
What can be wrong with a program. A fault is a cause, and an error is a fault at a place: a line
while the text is cut into tokens, a token while the tree is read, and a line or no place at all
while the program runs. The wording of every message is here and nowhere else. Each kind of fault
has a case `note` for what a host program reports in its own words.
-/

namespace Lox

/-! ### Faults of the text -/

/-- What can be wrong with the characters of a text. -/
inductive ScanFault where
  | unexpectedCharacter
  | unterminatedString
  | note (text : String)
  deriving DecidableEq, Repr

/-- The wording of a fault of the text. -/
def ScanFault.message : ScanFault → String
  | unexpectedCharacter => "Unexpected character."
  | unterminatedString => "Unterminated string."
  | note text => text

/-- A fault of the text and its line. -/
structure ScanError where
  line : Nat
  fault : ScanFault
  deriving DecidableEq, Repr

/-- The error as it is shown. -/
def ScanError.text (e : ScanError) : String :=
  "[line " ++ toString e.line ++ "] Error: " ++ e.fault.message

/-! ### Faults of the tree -/

/-- What can be wrong with the order of the tokens. Most faults name the token that was missing and
its place; the last four before `note` forbid something that could be read. -/
inductive ParseFault where
  | functionName
  | parenAfterFunctionName
  | parameterName
  | parenAfterParameters
  | braceBeforeBody
  | variableName
  | semicolonAfterVariable
  | parenAfterFor
  | semicolonAfterLoopCondition
  | parenAfterForClauses
  | parenAfterWhile
  | parenAfterCondition
  | parenAfterIf
  | parenAfterIfCondition
  | braceAfterBlock
  | semicolonAfterValue
  | semicolonAfterReturnValue
  | semicolonAfterExpression
  | parenAfterArguments
  | parenAfterExpression
  | expression
  | tooManyParameters
  | tooManyArguments
  | assignmentTarget
  | topLevelReturn
  | note (text : String)
  deriving DecidableEq, Repr

/-- The wording of a fault of the tree. -/
def ParseFault.message : ParseFault → String
  | functionName => "Expect function name."
  | parenAfterFunctionName => "Expect '(' after function name."
  | parameterName => "Expect parameter name."
  | parenAfterParameters => "Expect ')' after parameters."
  | braceBeforeBody => "Expect '\x7b' before function body."
  | variableName => "Expect variable name."
  | semicolonAfterVariable => "Expect ';' after variable declaration."
  | parenAfterFor => "Expect '(' after 'for'."
  | semicolonAfterLoopCondition => "Expect ';' after loop condition."
  | parenAfterForClauses => "Expect ')' after for clauses."
  | parenAfterWhile => "Expect '(' after 'while'."
  | parenAfterCondition => "Expect ')' after condition."
  | parenAfterIf => "Expect '(' after 'if'."
  | parenAfterIfCondition => "Expect ')' after if condition."
  | braceAfterBlock => "Expect '\x7d' after block."
  | semicolonAfterValue => "Expect ';' after value."
  | semicolonAfterReturnValue => "Expect ';' after return value."
  | semicolonAfterExpression => "Expect ';' after expression."
  | parenAfterArguments => "Expect ')' after arguments."
  | parenAfterExpression => "Expect ')' after expression."
  | expression => "Expect expression."
  | tooManyParameters => "Can't have more than 255 parameters."
  | tooManyArguments => "Can't have more than 255 arguments."
  | assignmentTarget => "Invalid assignment target."
  | topLevelReturn => "Can't return from top-level code."
  | note text => text

/-- A fault of the tree and the token at which it was found. -/
structure ParseError where
  token : Token
  fault : ParseFault
  deriving Repr

namespace ParseError

/-- The line of the token. -/
def line (e : ParseError) : Nat := e.token.line

/-- Where the token is, in words. -/
def location (e : ParseError) : String :=
  if e.token.isEnd then " at end" else " at '" ++ e.token.lexeme ++ "'"

/-- The error as it is shown. -/
def text (e : ParseError) : String :=
  "[line " ++ toString e.line ++ "] Error" ++ e.location ++ ": " ++ e.fault.message

end ParseError

/-! ### Faults of the run -/

/-- What can go wrong while a program runs. -/
inductive RuntimeFault where
  | operandNotNumber
  | operandsNotNumbers
  | operandsNotAddable
  | divisionByZero
  | unknownOperator (lexeme : String)
  | undefinedVariable (name : String)
  | notCallable
  | wrongArity (expected actual : Nat)
  | absOfNonNumber
  | clockBeforeEpoch
  | output (failure : SinkFailure)
  | note (text : String)
  deriving DecidableEq, Repr

/-- The wording of a fault of the run. -/
def RuntimeFault.message : RuntimeFault → String
  | operandNotNumber => "Operand must be a number."
  | operandsNotNumbers => "Operands must be numbers."
  | operandsNotAddable => "Operands must be two numbers or two strings."
  | divisionByZero => "Division by zero."
  | unknownOperator lexeme => "Unknown operator '" ++ lexeme ++ "'."
  | undefinedVariable name => "Undefined variable '" ++ name ++ "'."
  | notCallable => "Can only call functions."
  | wrongArity expected actual =>
    "Expected " ++ toString expected ++ " arguments but got " ++ toString actual ++ "."
  | absOfNonNumber => "abs() expects a number."
  | clockBeforeEpoch => "Clock error: second time provided was later than self"
  | output failure => "Failed to write output: " ++ failure.message
  | note text => text

/-- A fault of the run and its line, if it has one. -/
structure RuntimeError where
  fault : RuntimeFault
  line : Option Nat
  deriving DecidableEq, Repr

namespace RuntimeError

/-- A fault at a token. -/
def located (token : Token) (fault : RuntimeFault) : RuntimeError := ⟨fault, some token.line⟩

/-- A fault away from any place in the text, such as one inside a native function. -/
def unlocated (fault : RuntimeFault) : RuntimeError := ⟨fault, none⟩

/-- Places an error that has no line yet. -/
def orAt (e : RuntimeError) (token : Token) : RuntimeError :=
  match e.line with
  | some _ => e
  | none => { e with line := some token.line }

/-- The error as it is shown. -/
def text (e : RuntimeError) : String :=
  match e.line with
  | some line => e.fault.message ++ "\n[line " ++ toString line ++ "]"
  | none => e.fault.message

end RuntimeError

end Lox
