import Lox.Tree.Basic

/-!
Trees as text. A tree is shown in parenthesised prefix form: the operator or the name of the
construct first, then its parts, with single spaces between. A string stands between plain quotes
and is not escaped. The statements of a program stand one below the other.
-/

namespace Lox

/-- A literal as the tree shows it. -/
def Literal.text : Literal → String
  | .nil => "nil"
  | .bool b => if b then "true" else "false"
  | .number x => Decimal.text literalWords x
  | .string s => "\"" ++ s ++ "\""

/-- A head and its parts between parentheses. -/
def parenthesized (head : String) (parts : List String) : String :=
  "(" ++ " ".intercalate (head :: parts) ++ ")"

mutual

/-- An expression in prefix form. -/
def Expr.text : Expr → String
  | .literal value => value.text
  | .group inner => parenthesized "group" [inner.text]
  | .unary operator right => parenthesized operator.lexeme [right.text]
  | .binary left operator right => parenthesized operator.lexeme [left.text, right.text]
  | .logical left operator right => parenthesized operator.lexeme [left.text, right.text]
  | .reference name => name.lexeme
  | .assign name value => parenthesized "assign" [name.lexeme, value.text]
  | .call callee _ arguments => parenthesized "call" (callee.text :: Expr.texts arguments)

/-- Expressions in prefix form. -/
def Expr.texts : List Expr → List String
  | [] => []
  | e :: es => e.text :: Expr.texts es

end

mutual

/-- A statement in prefix form. -/
def Stmt.text : Stmt → String
  | .print value => parenthesized "print" [value.text]
  | .expression value => parenthesized ";" [value.text]
  | .declare name none => parenthesized "var" [name.lexeme]
  | .declare name (some initial) => parenthesized "var" [name.lexeme, initial.text]
  | .block body => parenthesized "block" (Stmt.texts body)
  | .ifThen condition thenBranch => parenthesized "if" [condition.text, thenBranch.text]
  | .ifElse condition thenBranch elseBranch =>
    parenthesized "if" [condition.text, thenBranch.text, elseBranch.text]
  | .whileDo condition body => parenthesized "while" [condition.text, body.text]
  | .function name params body =>
    let names := "(" ++ " ".intercalate (params.map Token.lexeme) ++ ")"
    parenthesized "fun" (name.lexeme :: names :: Stmt.texts body)
  | .returns _ none => parenthesized "return" []
  | .returns _ (some value) => parenthesized "return" [value.text]

/-- Statements in prefix form. -/
def Stmt.texts : List Stmt → List String
  | [] => []
  | s :: ss => s.text :: Stmt.texts ss

end

/-- The statements of a program, one below the other. -/
def programText (statements : List Stmt) : String := "\n".intercalate (Stmt.texts statements)

end Lox
