import Lox.Main
import Lox.Proofs.Parser.Declaration
import Lox.Proofs.Parser.Place
import Lox.Proofs.Grammar.Basic
import Lox.Proofs.Grammar.Lenient
import Lox.Proofs.Grammar.Completeness.Passes
import Lox.Proofs.Grammar.Completeness.Expression
import Lox.Proofs.Grammar.Completeness.Statement
import Lox.Proofs.Grammar.Else
import Lox.Proofs.Grammar.Soundness.Basic
import Lox.Proofs.Grammar.Soundness.Expression
import Lox.Proofs.Grammar.Soundness.Statement
import Lox.Proofs.Grammar.Acceptance
import Lox.Proofs.Machine.Current
import Lox.Proofs.Token.Lexeme
import Lox.Proofs.Token.Counter
import Lox.Proofs.Token.Newline
import Lox.Proofs.Token.LongestMatch
import Lox.Proofs.Token.Lines
import Lox.Proofs.Scope.Chain
import Lox.Proofs.Grammar.Lines
import Lox.Proofs.Machine.Alike
import Lox.Proofs.Machine.Returns
import Lox.Proofs.Machine.Simulation
import Lox.Proofs.Machine.Steps
import Lox.Proofs.Machine.Lines
import Lox.Proofs.Session.Run
import Lox.Proofs.Session.Concatenation
import Lox.Proofs.Machine.Names
import Lox.Proofs.Scope.Resolution
import Lox.Proofs.Machine.Reach
import Lox.Proofs.Parser.Binding
import Lox.Proofs.Machine.Folding
import Lox.Proofs.Machine.Refolding
import Lox.Proofs.Machine.ForLoop
import Lox.Proofs.Machine.Operator
import Lox.Proofs.Machine.Origin
import Lox.Proofs.Machine.Truncation
import Lox.Proofs.Session.LimitedSink
import Lox.Proofs.Session.FailClosed
import Lox.Proofs.Grammar.Tokens
import Lox.Proofs.Machine.Provenance
import Lox.Proofs.Parser.Blame
import Lox.Proofs.Session.History
import Lox.Proofs.Session.Messages
import Lox.Proofs.Session.Locations
import Lox.Proofs.Grammar.Forbidden
import Lox.Proofs.Parser.Watch
import Lox.Proofs.Parser.Recovery
import Lox.Proofs.Machine.Silent
import Lox.Proofs.Session.Appends
import Lox.Proofs.Session.Prompt
import Lox.Proofs.Decimal.Reading
import Lox.Proofs.Token.Spelling
import Lox.Proofs.Tree.Form
import Lox.Proofs.Tree.Roles
import Lox.Proofs.Tree.Printed
import Lox.Proofs.Tree.Agreement
import Lox.Proofs.Token.Spaced
import Lox.Proofs.Parser.Comparison
import Lox.Proofs.Parser.Steps
import Lox.Proofs.Grammar.Prefix
import Lox.Proofs.Parser.LastToken
import Lox.Proofs.Parser.Unended
