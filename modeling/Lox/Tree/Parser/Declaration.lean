import Lox.Tree.Parser.Expression

/-!
Reading statements and declarations. A declaration that cannot be read is left out, and reading
goes on at the next place where a statement may begin. A `for` loop has no form of its own in the
tree: it is a `while` loop whose body ends with the increment, after the initializer in a block of
its own.

The readers of this module call themselves on a smaller number of steps. As with expressions, each
step passes a token.
-/

namespace Lox

/-! ### Recovery -/

/-- The words with which a statement or declaration begins. -/
def statementWords : List Symbol :=
  [.classWord, .funWord, .varWord, .forWord, .ifWord, .whileWord, .printWord, .returnWord]

/-- Passes tokens up to the end of the text, the token after a semicolon, or a word that begins a
statement. -/
def skipToBoundary (previous : Token) : List Token → Token × List Token
  | [] => (previous, [])
  | t :: ts =>
    if t.isEnd || previous.is .semicolon || statementWords.any t.is then (previous, t :: ts)
    else skipToBoundary t ts

/-- Passes at least one token, and then all up to the next place where a statement may begin. -/
def Cursor.synchronized (c : Cursor) : Cursor :=
  let d := c.advanced
  let (previous, rest) := skipToBoundary d.previous d.rest
  { d with previous, rest }

namespace Parser

/-- Reads a declaration, or leaves it out if that fails. -/
def recovering (p : Parser Stmt) : Parser (Option Stmt) := fun c =>
  match p c with
  | .ok s d => .ok (some s) d
  | .error .failed d => .ok none d.synchronized
  | .error .stalled d => .error .stalled d

/-! ### Statements without statements inside -/

/-- Reads an expression and the semicolon after it. -/
def terminated (n : Nat) (fault : ParseFault) : Parser Expr := do
  let value ← expression n
  let _ ← expect .semicolon fault
  return value

/-- Reads a variable declaration after its first word. -/
def varDeclaration (n : Nat) : Parser Stmt := do
  let name ← expectName .variableName
  let initial ← ifTaken .equal (expression n)
  let _ ← expect .semicolon .semicolonAfterVariable
  return .declare name initial

/-- Reads a statement that is an expression. -/
def expressionStatement (n : Nat) : Parser Stmt := do
  let value ← terminated n .semicolonAfterExpression
  return .expression value

/-- Reads a print statement after its first word. -/
def printStatement (n : Nat) : Parser Stmt := do
  let value ← terminated n .semicolonAfterValue
  return .print value

/-- Reads a return statement after its first word. Outside every function it is an error, but it is
read and kept. -/
def returnStatement (n : Nat) (keyword : Token) : Parser Stmt := do
  reportIf ((← get).depth = 0) keyword .topLevelReturn
  let value ← unlessSeen .semicolon none (some <$> expression n)
  let _ ← expect .semicolon .semicolonAfterReturnValue
  return .returns keyword value

/-! ### Statements with statements inside -/

/-- Reads the condition of a branch or loop, between parentheses. -/
def condition (n : Nat) (opening closing : ParseFault) : Parser Expr := do
  let _ ← expect .leftParen opening
  let value ← expression n
  let _ ← expect .rightParen closing
  return value

/-- Reads a `while` loop after its first word. -/
def whileStatement (n : Nat) (statement : Parser Stmt) : Parser Stmt := do
  let test ← condition n .parenAfterWhile .parenAfterCondition
  let body ← statement
  return .whileDo test body

/-- Reads a branch after its first word. An `else` belongs to the nearest branch. -/
def ifStatement (n : Nat) (statement : Parser Stmt) : Parser Stmt := do
  let test ← condition n .parenAfterIf .parenAfterIfCondition
  let thenBranch ← statement
  if ← take .elseWord then
    let elseBranch ← statement
    return .ifElse test thenBranch elseBranch
  else
    return .ifThen test thenBranch

end Parser

/-- The loop that a `for` stands for. -/
def Stmt.forLoop (initial : Option Stmt) (condition : Expr) (increment : Option Expr)
    (body : Stmt) : Stmt :=
  let inner :=
    match increment with
    | none => body
    | some e => .block [body, .expression e]
  let loop := .whileDo condition inner
  match initial with
  | none => loop
  | some s => .block [s, loop]

namespace Parser

/-- Reads the first clause of a `for` loop, with its semicolon. -/
def forInitial (n : Nat) : Parser (Option Stmt) := do
  let next ← peek
  if next.is .semicolon then
    let _ ← advance
    return none
  else if next.is .varWord then
    let _ ← advance
    some <$> varDeclaration n
  else
    some <$> expressionStatement n

/-- Reads a `for` loop after its first word. A missing condition holds always. -/
def forStatement (n : Nat) (statement : Parser Stmt) : Parser Stmt := do
  let _ ← expect .leftParen .parenAfterFor
  let initial ← forInitial n
  let test ← unlessSeen .semicolon (.literal (.bool true)) (expression n)
  let _ ← expect .semicolon .semicolonAfterLoopCondition
  let increment ← unlessSeen .rightParen none (some <$> expression n)
  let _ ← expect .rightParen .parenAfterForClauses
  let body ← statement
  return Stmt.forLoop initial test increment body

/-- Reads the declarations of a block and its closing brace. -/
def blockTail (declaration : Parser (Option Stmt)) : Nat → Parser (List Stmt)
  | 0 => stall
  | n + 1 => do
    if (← atEnd) || (← sees .rightBrace) then
      let _ ← expect .rightBrace .braceAfterBlock
      return []
    else
      let first ← declaration
      let others ← blockTail declaration n
      return first.toList ++ others

/-- Reads a statement; `statement` and `block` read the statements inside it. -/
def statementOf (n : Nat) (statement : Parser Stmt) (block : Parser (List Stmt)) : Parser Stmt := do
  let next ← peek
  if next.is .forWord then
    let _ ← advance
    forStatement n statement
  else if next.is .ifWord then
    let _ ← advance
    ifStatement n statement
  else if next.is .printWord then
    let _ ← advance
    printStatement n
  else if next.is .returnWord then
    let keyword ← advance
    returnStatement n keyword
  else if next.is .whileWord then
    let _ ← advance
    whileStatement n statement
  else if next.is .leftBrace then
    let _ ← advance
    let body ← block
    return .block body
  else
    expressionStatement n

/-! ### Declarations -/

/-- Reads a function declaration after its first word. -/
def functionDeclaration (n : Nat) (block : Parser (List Stmt)) : Parser Stmt := do
  let name ← expectName .functionName
  let _ ← expect .leftParen .parenAfterFunctionName
  let params ← items (expectName .parameterName) .tooManyParameters n
  let _ ← expect .rightParen .parenAfterParameters
  let _ ← expect .leftBrace .braceBeforeBody
  let body ← nested block
  return .function name params body

/-- Reads a declaration or statement; `statement` and `block` read the statements inside it. -/
def declarationOf (n : Nat) (statement : Parser Stmt) (block : Parser (List Stmt)) :
    Parser (Option Stmt) :=
  recovering do
    let next ← peek
    if next.is .funWord then
      let _ ← advance
      functionDeclaration n block
    else if next.is .varWord then
      let _ ← advance
      varDeclaration n
    else
      statementOf n statement block

mutual

/-- Reads a statement in the given number of steps. -/
def statement : Nat → Parser Stmt
  | 0 => stall
  | n + 1 => statementOf n (statement n) (blockTail (declaration n) n)

/-- Reads a declaration in the given number of steps. -/
def declaration : Nat → Parser (Option Stmt)
  | 0 => stall
  | n + 1 => declarationOf n (statement n) (blockTail (declaration n) n)

end

/-- Reads declarations up to the end of the text. -/
def program (declaration : Parser (Option Stmt)) : Nat → Parser (List Stmt)
  | 0 => stall
  | n + 1 => do
    if ← atEnd then
      return []
    else
      let first ← declaration
      let others ← program declaration n
      return first.toList ++ others

end Parser

/-! ### Programs -/

/-- What a list of tokens says: the declarations that could be read, and the errors. -/
structure Parsed where
  statements : List Stmt := []
  errors : List ParseError := []
  deriving Repr

/-- A number of steps that is enough for any list of the given length with a mark for its end. -/
def parseSteps (length : Nat) : Nat := length + 4

/-- Reads a list of tokens up to the first that marks the end of the text. The answer is `none` if
the reading never ends, which takes a list without such a token. -/
def parse (tokens : List Token) : Option Parsed :=
  match tokens with
  | [] => some {}
  | t :: _ =>
    let n := parseSteps tokens.length
    match Parser.program (Parser.declaration n) n { previous := t, rest := tokens } with
    | .ok statements c => some { statements, errors := c.errors }
    | .error _ _ => none

end Lox
