import Lox.Token.Basic

/-!
Programs as trees. An operator, a name or a closing parenthesis is kept as the token it was read
from, so that a fault of the run can be placed and a tree can be shown in the words of its text.
Trees can also be built by hand from any tokens; nothing here assumes that a reader made them.
-/

namespace Lox

/-- A value that a program spells out. -/
inductive Literal where
  | nil
  | bool (b : Bool)
  | number (x : Float)
  | string (s : String)
  deriving BEq, Repr

/-- Expressions. A call keeps its closing parenthesis. -/
inductive Expr where
  | literal (value : Literal)
  | group (inner : Expr)
  | unary (operator : Token) (right : Expr)
  | binary (left : Expr) (operator : Token) (right : Expr)
  | logical (left : Expr) (operator : Token) (right : Expr)
  | reference (name : Token)
  | assign (name : Token) (value : Expr)
  | call (callee : Expr) (paren : Token) (arguments : List Expr)
  deriving Repr

instance : Inhabited Expr := ⟨.literal .nil⟩

/-- Statements. A function declaration keeps its parameters as the tokens that name them. -/
inductive Stmt where
  | print (value : Expr)
  | expression (value : Expr)
  | declare (name : Token) (initial : Option Expr)
  | block (body : List Stmt)
  | ifThen (condition : Expr) (thenBranch : Stmt)
  | ifElse (condition : Expr) (thenBranch elseBranch : Stmt)
  | whileDo (condition : Expr) (body : Stmt)
  | function (name : Token) (params : List Token) (body : List Stmt)
  | returns (keyword : Token) (value : Option Expr)
  deriving Repr

instance : Inhabited Stmt := ⟨.block []⟩

/-! ### Equality

Two trees are equal if they have the same shape and the same tokens, lines included. Numbers are
compared as numbers, so a tree that holds no number equals itself. -/

mutual

/-- Equality of expressions. -/
def Expr.same : Expr → Expr → Bool
  | .literal a, .literal b => a == b
  | .group a, .group b => a.same b
  | .unary o a, .unary p b => o == p && a.same b
  | .binary a o b, .binary c p d => a.same c && o == p && b.same d
  | .logical a o b, .logical c p d => a.same c && o == p && b.same d
  | .reference a, .reference b => a == b
  | .assign n a, .assign m b => n == m && a.same b
  | .call f p as, .call g q bs => f.same g && p == q && Expr.sameList as bs
  | _, _ => false

/-- Equality of expression lists. -/
def Expr.sameList : List Expr → List Expr → Bool
  | [], [] => true
  | a :: as, b :: bs => a.same b && Expr.sameList as bs
  | _, _ => false

end

instance : BEq Expr := ⟨Expr.same⟩

mutual

/-- Equality of statements. -/
def Stmt.same : Stmt → Stmt → Bool
  | .print a, .print b => a == b
  | .expression a, .expression b => a == b
  | .declare n a, .declare m b => n == m && a == b
  | .block as, .block bs => Stmt.sameList as bs
  | .ifThen a s, .ifThen b t => a == b && s.same t
  | .ifElse a s u, .ifElse b t v => a == b && s.same t && u.same v
  | .whileDo a s, .whileDo b t => a == b && s.same t
  | .function n ps as, .function m qs bs => n == m && ps == qs && Stmt.sameList as bs
  | .returns k a, .returns l b => k == l && a == b
  | _, _ => false

/-- Equality of statement lists. -/
def Stmt.sameList : List Stmt → List Stmt → Bool
  | [], [] => true
  | a :: as, b :: bs => a.same b && Stmt.sameList as bs
  | _, _ => false

end

instance : BEq Stmt := ⟨Stmt.same⟩

end Lox
