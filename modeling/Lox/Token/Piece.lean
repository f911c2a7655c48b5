import Lox.Token.Basic

/-!
Cutting a text into pieces. A text is the concatenation of its pieces: tokens, blanks, line ends,
comments, and what fits none of these. Each piece is the longest that fits at its place, and its
shape is settled by its first characters: `classify` says how many characters the piece takes, so
that no character can be lost or read twice.
-/

namespace Lox

/-- What a piece of text looks like. -/
inductive Shape where
  | mark (s : Symbol)
  | word
  | string
  | number
  | blank
  | newline
  | comment
  | unexpected
  | unterminated
  deriving DecidableEq, Repr

/-- A stretch of text together with what it looks like. -/
structure Piece where
  shape : Shape
  text : List Char
  deriving DecidableEq, Repr

/-! ### Characters -/

/-- The marks that are complete after one character. -/
def singleMark? : Char → Option Symbol
  | '(' => some .leftParen
  | ')' => some .rightParen
  | '{' => some .leftBrace
  | '}' => some .rightBrace
  | ',' => some .comma
  | '.' => some .dot
  | '-' => some .minus
  | '+' => some .plus
  | ';' => some .semicolon
  | '*' => some .star
  | _ => none

/-- The operators that an equals sign may extend: alone, and extended. -/
def extensibleMark? : Char → Option (Symbol × Symbol)
  | '!' => some (.bang, .bangEqual)
  | '=' => some (.equal, .equalEqual)
  | '<' => some (.less, .lessEqual)
  | '>' => some (.greater, .greaterEqual)
  | _ => none

/-- Blanks that separate tokens and have no other meaning. -/
def isSeparator (c : Char) : Bool := c = ' ' || c = '\r' || c = '\t'

/-- A word starts with a letter or an underscore. -/
def isWordStart (c : Char) : Bool := c.isAlpha || c = '_'

/-- A word goes on with letters, digits and underscores. -/
def isWordPart (c : Char) : Bool := isWordStart c || c.isDigit

/-! ### Pieces -/

/-- The number of leading characters that satisfy a test. -/
def spanLength (p : Char → Bool) (cs : List Char) : Nat := (cs.takeWhile p).length

/-- The length of a fraction: a point and at least one digit, or nothing. -/
def fractionLength : List Char → Nat
  | '.' :: d :: cs => if d.isDigit then 2 + spanLength Char.isDigit cs else 0
  | _ => 0

/-- The shape of the piece that starts with `c`, and how many of the characters `cs` after `c`
belong to it. -/
def classify (c : Char) (cs : List Char) : Shape × Nat :=
  match singleMark? c with
  | some s => (.mark s, 0)
  | none =>
    match extensibleMark? c with
    | some (short, long) => if cs.head? = some '=' then (.mark long, 1) else (.mark short, 0)
    | none =>
      if c = '/' then
        if cs.head? = some '/' then (.comment, spanLength (· ≠ '\n') cs) else (.mark .slash, 0)
      else if isSeparator c then (.blank, 0)
      else if c = '\n' then (.newline, 0)
      else if c = '"' then
        let inside := spanLength (· ≠ '"') cs
        if inside < cs.length then (.string, inside + 1) else (.unterminated, inside)
      else if c.isDigit then
        let whole := spanLength Char.isDigit cs
        (.number, whole + fractionLength (cs.drop whole))
      else if isWordStart c then (.word, spanLength isWordPart cs)
      else (.unexpected, 0)

/-- The pieces of a text, from first to last. -/
def pieces : List Char → List Piece
  | [] => []
  | c :: cs =>
    let cut := classify c cs
    ⟨cut.1, c :: cs.take cut.2⟩ :: pieces (cs.drop cut.2)
termination_by cs => cs.length
decreasing_by simp only [List.length_drop, List.length_cons]; omega

/-- The pieces of a text join up to the text. -/
theorem flatMap_text_pieces (cs : List Char) : (pieces cs).flatMap Piece.text = cs := by
  fun_induction pieces cs with
  | case1 => rfl
  | case2 c cs cut ih => simp [ih]

/-- No piece is empty. -/
theorem text_ne_nil_of_mem_pieces {cs : List Char} {p : Piece} (h : p ∈ pieces cs) :
    p.text ≠ [] := by
  fun_induction pieces cs with
  | case1 => simp at h
  | case2 c cs cut ih =>
    rcases List.mem_cons.1 h with rfl | h
    · simp
    · exact ih h

namespace Piece

/-- The kind of token that a piece is, if it is one. A word is a name unless it is reserved, and a
string denotes what stands between its quotes. -/
def kind? (p : Piece) : Option Kind :=
  match p.shape with
  | .mark s => some (.symbol s)
  | .word =>
    match Symbol.ofWord? (String.ofList p.text) with
    | some s => some (.symbol s)
    | none => some .identifier
  | .string => some (.string (String.ofList (p.text.drop 1).dropLast))
  | .number => some (.number (Decimal.read p.text))
  | _ => none

end Piece

end Lox
