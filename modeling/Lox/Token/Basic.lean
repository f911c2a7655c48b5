import Lox.Decimal.Numeral

/-!
Tokens: the words of a program text. A token has a kind, the text it was cut from (its lexeme) and
the line on which that text ends. Symbols are the kinds that have one spelling only; names,
strings and numbers have many.
-/

namespace Lox

/-- The punctuation marks, operators and reserved words. -/
inductive Symbol where
  | leftParen | rightParen | leftBrace | rightBrace
  | comma | dot | minus | plus | semicolon | slash | star
  | bang | bangEqual | equal | equalEqual
  | greater | greaterEqual | less | lessEqual
  | andWord | classWord | elseWord | falseWord | funWord | forWord | ifWord | nilWord | orWord
  | printWord | returnWord | superWord | thisWord | trueWord | varWord | whileWord
  deriving DecidableEq, Repr

namespace Symbol

/-- The text of a symbol. -/
def spelling : Symbol → String
  | leftParen => "("
  | rightParen => ")"
  | leftBrace => "\x7b"
  | rightBrace => "\x7d"
  | comma => ","
  | dot => "."
  | minus => "-"
  | plus => "+"
  | semicolon => ";"
  | slash => "/"
  | star => "*"
  | bang => "!"
  | bangEqual => "!="
  | equal => "="
  | equalEqual => "=="
  | greater => ">"
  | greaterEqual => ">="
  | less => "<"
  | lessEqual => "<="
  | andWord => "and"
  | classWord => "class"
  | elseWord => "else"
  | falseWord => "false"
  | funWord => "fun"
  | forWord => "for"
  | ifWord => "if"
  | nilWord => "nil"
  | orWord => "or"
  | printWord => "print"
  | returnWord => "return"
  | superWord => "super"
  | thisWord => "this"
  | trueWord => "true"
  | varWord => "var"
  | whileWord => "while"

/-- The name under which a symbol is listed. -/
def name : Symbol → String
  | leftParen => "LeftParen"
  | rightParen => "RightParen"
  | leftBrace => "LeftBrace"
  | rightBrace => "RightBrace"
  | comma => "Comma"
  | dot => "Dot"
  | minus => "Minus"
  | plus => "Plus"
  | semicolon => "Semicolon"
  | slash => "Slash"
  | star => "Star"
  | bang => "Bang"
  | bangEqual => "BangEqual"
  | equal => "Equal"
  | equalEqual => "EqualEqual"
  | greater => "Greater"
  | greaterEqual => "GreaterEqual"
  | less => "Less"
  | lessEqual => "LessEqual"
  | andWord => "And"
  | classWord => "Class"
  | elseWord => "Else"
  | falseWord => "False"
  | funWord => "Fun"
  | forWord => "For"
  | ifWord => "If"
  | nilWord => "Nil"
  | orWord => "Or"
  | printWord => "Print"
  | returnWord => "Return"
  | superWord => "Super"
  | thisWord => "This"
  | trueWord => "True"
  | varWord => "Var"
  | whileWord => "While"

/-- The marks and operators. -/
def marks : List Symbol :=
  [leftParen, rightParen, leftBrace, rightBrace, comma, dot, minus, plus, semicolon, slash, star,
    bang, bangEqual, equal, equalEqual, greater, greaterEqual, less, lessEqual]

/-- The reserved words. -/
def words : List Symbol :=
  [andWord, classWord, elseWord, falseWord, funWord, forWord, ifWord, nilWord, orWord, printWord,
    returnWord, superWord, thisWord, trueWord, varWord, whileWord]

/-- The reserved word with the given spelling. -/
def ofWord? (word : String) : Option Symbol := words.find? (·.spelling = word)

/-- The symbol listed under the given name. -/
def ofName? (name : String) : Option Symbol := (marks ++ words).find? (·.name = name)

end Symbol

/-- What a token is. Strings and numbers carry the value that they denote. -/
inductive Kind where
  | symbol (s : Symbol)
  | identifier
  | string (text : String)
  | number (value : Float)
  | endOfText
  deriving BEq, Repr

/-- A kind, the text of the token and the line on which that text ends. -/
structure Token where
  kind : Kind
  lexeme : String
  line : Nat
  deriving BEq, Repr

instance : Inhabited Token := ⟨⟨.endOfText, "", 1⟩⟩

namespace Kind

/-- The symbol that a kind stands for, if it stands for one. -/
def symbol? : Kind → Option Symbol
  | symbol s => some s
  | _ => none

/-- The name under which a kind is listed. -/
def name : Kind → String
  | symbol s => s.name
  | identifier => "Identifier"
  | string _ => "String"
  | number _ => "Number"
  | endOfText => "EOF"

/-- Whether a kind marks the end of the text. -/
def isEnd : Kind → Bool
  | endOfText => true
  | _ => false

/-- Whether a kind is that of a name. -/
def isIdentifier : Kind → Bool
  | identifier => true
  | _ => false

end Kind

/-- The words for numbers that are not finite, as they stand in a listing of tokens or a tree. -/
def literalWords : Decimal.Words := ⟨"NaN", "inf"⟩

namespace Token

/-- Whether a token is the given symbol. -/
def is (t : Token) (s : Symbol) : Bool := t.kind.symbol? = some s

/-- Whether a token marks the end of the text. -/
def isEnd (t : Token) : Bool := t.kind.isEnd

/-- One line of a token listing: kind, lexeme and, for strings and numbers, the value. -/
def text (t : Token) : String :=
  let head := t.kind.name ++ " " ++ t.lexeme
  match t.kind with
  | .string s => head ++ " " ++ s
  | .number x => head ++ " " ++ Decimal.text literalWords x
  | _ => head

end Token

end Lox
