import Lox.Fault

/-!
A place in a list of tokens. The cursor holds the token just passed, the tokens still to come, how
many function bodies surround the place, and the errors found so far. It never moves past a token
that marks the end of the text. A list may also lack such a token: where the list gives out, the
cursor goes on showing its last token.
-/

namespace Lox

/-- A place in a list of tokens, and what is known there. -/
structure Cursor where
  previous : Token
  rest : List Token
  depth : Nat := 0
  errors : List ParseError := []
  deriving Repr

namespace Cursor

/-- The token at the cursor. -/
def peek (c : Cursor) : Token := c.rest.headD c.previous

/-- Whether nothing is left to read. -/
def atEnd (c : Cursor) : Bool :=
  match c.rest with
  | [] => true
  | t :: _ => t.isEnd

/-- Whether the given symbol comes next. -/
def sees (c : Cursor) (s : Symbol) : Bool := !c.atEnd && c.peek.is s

/-- Passes the token at the cursor, unless nothing is left to read. -/
def advanced (c : Cursor) : Cursor :=
  match c.rest with
  | [] => c
  | t :: ts => if t.isEnd then c else { c with previous := t, rest := ts }

/-- Notes an error at a token. -/
def report (c : Cursor) (token : Token) (fault : ParseFault) : Cursor :=
  { c with errors := c.errors ++ [⟨token, fault⟩] }

end Cursor

/-- Why reading stops short: because an error was reported, or because the last token of a list
without an end asks again and again for an operand that cannot come. -/
inductive Halt where
  | failed
  | stalled
  deriving DecidableEq, Repr

/-- A reader of tokens. -/
abbrev Parser := EStateM Halt Cursor

namespace Parser

/-- The token at the cursor. -/
def peek : Parser Token := fun c => .ok c.peek c

/-- Whether nothing is left to read. -/
def atEnd : Parser Bool := fun c => .ok c.atEnd c

/-- Whether the given symbol comes next. -/
def sees (s : Symbol) : Parser Bool := fun c => .ok (c.sees s) c

/-- Passes one token and gives the token just passed. -/
def advance : Parser Token := fun c => .ok c.advanced.previous c.advanced

/-- Notes an error if something forbidden is the case, and goes on. -/
def reportIf (forbidden : Bool) (token : Token) (fault : ParseFault) : Parser Unit :=
  fun c => .ok () (if forbidden then c.report token fault else c)

/-- Notes an error at the cursor and gives up. -/
def fail {α : Type} (fault : ParseFault) : Parser α :=
  fun c => .error .failed (c.report c.peek fault)

/-- Gives up for lack of progress. -/
def stall {α : Type} : Parser α := throw .stalled

/-- Passes the given symbol if it comes next, and says whether it did. -/
def take (s : Symbol) : Parser Bool :=
  fun c => if c.sees s then .ok true c.advanced else .ok false c

/-- Passes the given symbol, which has to come next. -/
def expect (s : Symbol) (fault : ParseFault) : Parser Token := do
  if ← sees s then advance else fail fault

/-- Passes a name, which has to come next. -/
def expectName (fault : ParseFault) : Parser Token := do
  if (← peek).kind.isIdentifier && !(← atEnd) then advance else fail fault

/-- Reads what `p` reads, unless the given symbol comes next: then the answer is `a`. -/
def unlessSeen {α : Type} (s : Symbol) (a : α) (p : Parser α) : Parser α := do
  if ← sees s then return a else p

/-- Reads what `p` reads after the given symbol, if that symbol comes next. -/
def ifTaken {α : Type} (s : Symbol) (p : Parser α) : Parser (Option α) := do
  if ← take s then some <$> p else return none

/-- Reads the inside of a function body: the depth is one more there, and is put back however the
reading ends. -/
def nested {α : Type} (p : Parser α) : Parser α := fun c =>
  match p { c with depth := c.depth + 1 } with
  | .ok a d => .ok a { d with depth := d.depth - 1 }
  | .error h d => .error h { d with depth := d.depth - 1 }

end Parser

end Lox
