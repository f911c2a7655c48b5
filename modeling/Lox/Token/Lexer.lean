import Lox.Fault
import Lox.Token.Piece

/-!
The tokens and the faults of a text, with their lines. A counter of lines goes from piece to piece,
and each token and each fault has the line that the counter shows at the end of its piece. The
counter moves at a newline, and inside a string at every newline up to the closing quote or, if
there is none, to the end of the text; at all other pieces it stands still. So a string over several
lines stands on the line that closes it.
-/

namespace Lox

/-- A piece and the line on which it ends. -/
structure Placed where
  line : Nat
  piece : Piece
  deriving DecidableEq, Repr

/-! ### The counter -/

/-- The line after a string whose opening quote is on the given line. -/
def lineInString (line : Nat) : List Char → Nat
  | [] => line
  | c :: cs =>
    if c = '"' then line
    else if c = '\n' then lineInString (line + 1) cs
    else lineInString line cs

/-- The line after a piece that starts on the given line. -/
def Piece.lineAfter (line : Nat) (p : Piece) : Nat :=
  match p.shape with
  | .newline => line + 1
  | .string | .unterminated => lineInString line (p.text.drop 1)
  | _ => line

/-- The line after all of some pieces, the first of which starts on the given line. -/
def lastLine (line : Nat) (ps : List Piece) : Nat := ps.foldl Piece.lineAfter line

/-- Places pieces one after another, starting on the given line. -/
def place (line : Nat) : List Piece → List Placed
  | [] => []
  | p :: ps => ⟨p.lineAfter line, p⟩ :: place (p.lineAfter line) ps

/-! ### Tokens and faults -/

namespace Placed

/-- The token that a piece is, if it is one. -/
def token? (p : Placed) : Option Token :=
  p.piece.kind?.map fun kind => ⟨kind, String.ofList p.piece.text, p.line⟩

/-- The fault that a piece is, if it is one. -/
def error? (p : Placed) : Option ScanError :=
  match p.piece.shape with
  | .unexpected => some ⟨p.line, .unexpectedCharacter⟩
  | .unterminated => some ⟨p.line, .unterminatedString⟩
  | _ => none

end Placed

/-- What a text consists of: its tokens, closed by a mark for the end of the text, and its faults.
-/
structure Scanned where
  tokens : List Token
  errors : List ScanError
  deriving Repr

/-- The token that closes a text of the given characters. It is where the counter is in the end. -/
def endToken (cs : List Char) : Token := ⟨.endOfText, "", lastLine 1 (pieces cs)⟩

/-- The tokens and the faults of a text. Faulty pieces are left out of the tokens. -/
def scanChars (cs : List Char) : Scanned :=
  let placed := place 1 (pieces cs)
  { tokens := placed.filterMap Placed.token? ++ [endToken cs]
    errors := placed.filterMap Placed.error? }

/-- The tokens and the faults of a text. -/
def scan (source : String) : Scanned := scanChars source.toList

end Lox
