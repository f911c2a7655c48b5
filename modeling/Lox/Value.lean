import Lox.Text.Basic
import Lox.Tree.Basic

/-!
The values of a running program. A function value remembers the scope in which it was declared,
and has an identity: two function values are equal only if they are one and the same.
-/

namespace Lox

/-- The number under which a scope is kept. -/
abbrev ScopeId := Nat

/-- The functions that every program finds defined. -/
inductive Native where
  | clock
  | abs
  | pi
  deriving DecidableEq, Repr

namespace Native

/-- All native functions. -/
def all : List Native := [clock, abs, pi]

/-- The name under which a native function is defined. -/
def name : Native → String
  | clock => "clock"
  | abs => "abs"
  | pi => "pi"

/-- The number of arguments that a native function takes. -/
def arity : Native → Nat
  | clock => 0
  | abs => 1
  | pi => 0

end Native

/-- What can be called: a native function, or a declared one with the scope around its
declaration. -/
inductive Callable where
  | native (function : Native)
  | closure (name : Token) (params : List Token) (body : List Stmt) (scope : ScopeId)
  deriving Repr

namespace Callable

/-- The number of arguments that a call has to have. -/
def arity : Callable → Nat
  | native f => f.arity
  | closure _ params _ _ => params.length

/-- How a function is printed. -/
def text : Callable → String
  | native _ => "<native fn>"
  | closure name _ _ _ => "<fn " ++ name.lexeme ++ ">"

end Callable

/-- The values of a running program. The number of a callable is its identity. -/
inductive Value where
  | nil
  | bool (b : Bool)
  | number (x : Float)
  | string (s : String)
  | callable (identity : Nat) (function : Callable)
  deriving Repr

instance : Inhabited Value := ⟨.nil⟩

/-- The words for numbers that are not finite, as a program prints them. -/
def valueWords : Decimal.Words := ⟨"NaN", "Infinity"⟩

namespace Value

/-- The value that a literal denotes. -/
def ofLiteral : Literal → Value
  | .nil => nil
  | .bool b => bool b
  | .number x => number x
  | .string s => string s

/-- Everything counts as true but `nil` and `false`. -/
def isTruthy : Value → Bool
  | nil => false
  | bool b => b
  | _ => true

/-- Equality as the language sees it: values of different kinds differ, numbers are compared as
numbers, and functions by identity. -/
def equals : Value → Value → Bool
  | nil, nil => true
  | bool a, bool b => a == b
  | number x, number y => x == y
  | string s, string t => s == t
  | callable i _, callable j _ => i == j
  | _, _ => false

/-- How a value is printed. -/
def text : Value → String
  | nil => "nil"
  | bool b => if b then "true" else "false"
  | number x => Decimal.text valueWords x
  | string s => s
  | callable _ f => f.text

/-- How a value is shown to someone who has to tell a string from other values. -/
def quotedText : Value → String
  | string s => Text.quoted s
  | v => v.text

end Value

end Lox
