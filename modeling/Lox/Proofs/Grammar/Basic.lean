import Lox.Tree.Parser.Declaration

/-!
The grammar of programs, with the tree of each derivation. A phrase of an expression belongs to a
level: the tiers of binary operators group to the left and take their right operands from the next
tighter level, assignment groups to the right, and parentheses lead back to the loosest level.
Bodies of loops and branches are statements, never declarations.

An `else` may in principle belong to any branch before it that lacks one. The grammar comes in two
forms: one leaves the choice open, the other attaches each `else` to the nearest such branch. So
the second form derives one tree only, while the first says which token lists are programs.
-/

namespace Lox.Grammar

/-! ### Expressions -/

/-- The levels of expressions, loosest first. -/
inductive Level where
  | expression
  | tier (t : Tier)
  | unary
  | call
  | primary

/-- The level of the right operands of a tier. -/
def operandLevel : Tier → Level
  | .or => .tier .and
  | .and => .tier .equality
  | .equality => .tier .comparison
  | .comparison => .tier .addition
  | .addition => .tier .multiplication
  | .multiplication => .unary

/-- One item or more, with commas between them. -/
inductive Separated {α : Type} (Item : List Token → α → Prop) : List Token → List α → Prop
  | one {ts : List Token} {a : α} : Item ts a → Separated Item ts [a]
  | more {ts us : List Token} {comma : Token} {a : α} {as : List α} : Item ts a →
    comma.is .comma = true → Separated Item us as → Separated Item (ts ++ comma :: us) (a :: as)

/-- At most 255 items, with commas between them. -/
inductive Items {α : Type} (Item : List Token → α → Prop) : List Token → List α → Prop
  | none : Items Item [] []
  | some {ts : List Token} {as : List α} : Separated Item ts as → as.length ≤ 255 →
    Items Item ts as

theorem Separated.imp {α : Type} {Item Item' : List Token → α → Prop}
    (h : ∀ ts a, Item ts a → Item' ts a) : ∀ {ts : List Token} {as : List α},
    Separated Item ts as → Separated Item' ts as
  | _, _, .one ha => .one (h _ _ ha)
  | _, _, .more ha hcomma hs => .more (h _ _ ha) hcomma (hs.imp h)

/-- What is said of each item carries over to the list. -/
theorem Items.imp {α : Type} {Item Item' : List Token → α → Prop}
    (h : ∀ ts a, Item ts a → Item' ts a) {ts : List Token} {as : List α}
    (hs : Items Item ts as) : Items Item' ts as := by
  cases hs with
  | none => exact .none
  | some hs hlen => exact .some (hs.imp h) hlen

/-- The tokens are a phrase of the level, and the expression is its tree. -/
inductive Phrase : Level → List Token → Expr → Prop
  | assign {name equals : Token} {ts : List Token} {value : Expr} :
    name.kind.isIdentifier = true → equals.is .equal = true → Phrase .expression ts value →
    Phrase .expression (name :: equals :: ts) (.assign name value)
  | loosest {ts : List Token} {e : Expr} : Phrase (.tier .or) ts e → Phrase .expression ts e
  | operation {t : Tier} {operator : Token} {ts us : List Token} {left right : Expr} :
    Phrase (.tier t) ts left → t.operators.any operator.is = true →
    Phrase (operandLevel t) us right →
    Phrase (.tier t) (ts ++ operator :: us) (t.node left operator right)
  | operand {t : Tier} {ts : List Token} {e : Expr} :
    Phrase (operandLevel t) ts e → Phrase (.tier t) ts e
  | unary {operator : Token} {ts : List Token} {right : Expr} :
    (operator.is .bang || operator.is .minus) = true → Phrase .unary ts right →
    Phrase .unary (operator :: ts) (.unary operator right)
  | callee {ts : List Token} {e : Expr} : Phrase .call ts e → Phrase .unary ts e
  | call {opening closing : Token} {ts us : List Token} {callee : Expr} {arguments : List Expr} :
    Phrase .call ts callee → opening.is .leftParen = true →
    Items (Phrase .expression) us arguments → closing.is .rightParen = true →
    Phrase .call (ts ++ opening :: (us ++ [closing])) (.call callee closing arguments)
  | primary {ts : List Token} {e : Expr} : Phrase .primary ts e → Phrase .call ts e
  | literal {token : Token} {value : Literal} : token.kind.literal? = some value →
    Phrase .primary [token] (.literal value)
  | reference {name : Token} : name.kind.isIdentifier = true →
    Phrase .primary [name] (.reference name)
  | group {opening closing : Token} {ts : List Token} {inner : Expr} :
    opening.is .leftParen = true → Phrase .expression ts inner → closing.is .rightParen = true →
    Phrase .primary (opening :: (ts ++ [closing])) (.group inner)

/-- An expression that may be left out. -/
inductive Optional : List Token → Option Expr → Prop
  | none : Optional [] none
  | some {ts : List Token} {e : Expr} : Phrase .expression ts e → Optional ts (some e)

/-! ### Statements and declarations -/

/-- To which branch an `else` belongs. -/
inductive ElseRule where
  | any
  | nearest
  deriving DecidableEq

/-- Whether a statement ends with a branch that has no `else`. -/
inductive Ending where
  | closed
  | dangling
  deriving DecidableEq

/-- The initial value of a variable. -/
inductive Initializer : List Token → Option Expr → Prop
  | none : Initializer [] none
  | some {equals : Token} {ts : List Token} {e : Expr} : equals.is .equal = true →
    Phrase .expression ts e → Initializer (equals :: ts) (some e)

/-- A variable declaration. -/
inductive Variable : List Token → Stmt → Prop
  | declare {word name semicolon : Token} {ts : List Token} {initial : Option Expr} :
    word.is .varWord = true → name.kind.isIdentifier = true → Initializer ts initial →
    semicolon.is .semicolon = true →
    Variable (word :: name :: (ts ++ [semicolon])) (.declare name initial)

/-- The first clause of a `for` loop, with its semicolon. -/
inductive ForInitial : List Token → Option Stmt → Prop
  | none {semicolon : Token} : semicolon.is .semicolon = true → ForInitial [semicolon] none
  | var {ts : List Token} {s : Stmt} : Variable ts s → ForInitial ts (some s)
  | expression {semicolon : Token} {ts : List Token} {e : Expr} : Phrase .expression ts e →
    semicolon.is .semicolon = true → ForInitial (ts ++ [semicolon]) (some (.expression e))

/-- The tree of a `for` loop. The increment runs after the body in a block of both, a missing
condition is `true`, and an initializer runs before the loop in a block of both. -/
def forTree : Option Stmt → Option Expr → Option Expr → Stmt → Stmt
  | none, test, none, body => .whileDo (test.getD (.literal (.bool true))) body
  | none, test, some increment, body =>
    .whileDo (test.getD (.literal (.bool true))) (.block [body, .expression increment])
  | some initial, test, none, body =>
    .block [initial, .whileDo (test.getD (.literal (.bool true))) body]
  | some initial, test, some increment, body =>
    .block [initial,
      .whileDo (test.getD (.literal (.bool true))) (.block [body, .expression increment])]

/-- A loop without a test is tested with `true`. -/
theorem forTree_eq (initial : Option Stmt) (test increment : Option Expr) (body : Stmt) :
    forTree initial test increment body =
      Stmt.forLoop initial (test.elim (.literal (.bool true)) id) increment body := by
  cases initial <;> cases test <;> cases increment <;> rfl

/-- A parameter. -/
inductive Name : List Token → Token → Prop
  | name {t : Token} : t.kind.isIdentifier = true → Name [t] t

mutual

/-- The tokens are a statement and `s` is its tree. The first index says whether it stands inside a
function body, and the second how it ends. -/
inductive Statement (rule : ElseRule) : Bool → Ending → List Token → Stmt → Prop
  | expression {inside : Bool} {semicolon : Token} {ts : List Token} {e : Expr} :
    Phrase .expression ts e → semicolon.is .semicolon = true →
    Statement rule inside .closed (ts ++ [semicolon]) (.expression e)
  | print {inside : Bool} {word semicolon : Token} {ts : List Token} {e : Expr} :
    word.is .printWord = true → Phrase .expression ts e → semicolon.is .semicolon = true →
    Statement rule inside .closed (word :: (ts ++ [semicolon])) (.print e)
  | returns {word semicolon : Token} {ts : List Token} {value : Option Expr} :
    word.is .returnWord = true → Optional ts value → semicolon.is .semicolon = true →
    Statement rule true .closed (word :: (ts ++ [semicolon])) (.returns word value)
  | block {inside : Bool} {opening closing : Token} {ts : List Token} {body : List Stmt} :
    opening.is .leftBrace = true → Declarations rule inside ts body →
    closing.is .rightBrace = true →
    Statement rule inside .closed (opening :: (ts ++ [closing])) (.block body)
  | whileDo {inside : Bool} {ending : Ending} {word opening closing : Token}
      {ts us : List Token} {test : Expr} {body : Stmt} :
    word.is .whileWord = true → opening.is .leftParen = true → Phrase .expression ts test →
    closing.is .rightParen = true → Statement rule inside ending us body →
    Statement rule inside ending (word :: opening :: (ts ++ closing :: us)) (.whileDo test body)
  | forDo {inside : Bool} {ending : Ending} {word opening semicolon closing : Token}
      {ts us vs ws : List Token} {initial : Option Stmt} {test increment : Option Expr}
      {body : Stmt} :
    word.is .forWord = true → opening.is .leftParen = true → ForInitial ts initial →
    Optional us test → semicolon.is .semicolon = true → Optional vs increment →
    closing.is .rightParen = true → Statement rule inside ending ws body →
    Statement rule inside ending
      (word :: opening :: (ts ++ (us ++ semicolon :: (vs ++ closing :: ws))))
      (forTree initial test increment body)
  | ifThen {inside : Bool} {ending : Ending} {word opening closing : Token}
      {ts us : List Token} {test : Expr} {thenBranch : Stmt} :
    word.is .ifWord = true → opening.is .leftParen = true → Phrase .expression ts test →
    closing.is .rightParen = true → Statement rule inside ending us thenBranch →
    Statement rule inside .dangling (word :: opening :: (ts ++ closing :: us))
      (.ifThen test thenBranch)
  | ifElse {inside : Bool} {ending ending' : Ending} {word opening closing elseWord : Token}
      {ts us vs : List Token} {test : Expr} {thenBranch elseBranch : Stmt} :
    word.is .ifWord = true → opening.is .leftParen = true → Phrase .expression ts test →
    closing.is .rightParen = true → Statement rule inside ending us thenBranch →
    (rule = .nearest → ending = .closed) → elseWord.is .elseWord = true →
    Statement rule inside ending' vs elseBranch →
    Statement rule inside ending'
      (word :: opening :: (ts ++ closing :: (us ++ elseWord :: vs)))
      (.ifElse test thenBranch elseBranch)

/-- The tokens are a declaration or a statement. -/
inductive Declaration (rule : ElseRule) : Bool → List Token → Stmt → Prop
  | function {inside : Bool} {word name opening closing brace endBrace : Token}
      {ts us : List Token} {params : List Token} {body : List Stmt} :
    word.is .funWord = true → name.kind.isIdentifier = true → opening.is .leftParen = true →
    Items Name ts params → closing.is .rightParen = true → brace.is .leftBrace = true →
    Declarations rule true us body → endBrace.is .rightBrace = true →
    Declaration rule inside
      (word :: name :: opening :: (ts ++ closing :: brace :: (us ++ [endBrace])))
      (.function name params body)
  | var {inside : Bool} {ts : List Token} {s : Stmt} : Variable ts s →
    Declaration rule inside ts s
  | statement {inside : Bool} {ending : Ending} {ts : List Token} {s : Stmt} :
    Statement rule inside ending ts s → Declaration rule inside ts s

/-- The tokens are declarations one after the other. -/
inductive Declarations (rule : ElseRule) : Bool → List Token → List Stmt → Prop
  | nil {inside : Bool} : Declarations rule inside [] []
  | cons {inside : Bool} {ts us : List Token} {s : Stmt} {ss : List Stmt} :
    Declaration rule inside ts s → Declarations rule inside us ss →
    Declarations rule inside (ts ++ us) (s :: ss)

end

/-- The tokens are a program. -/
def Program (rule : ElseRule) (ts : List Token) (ss : List Stmt) : Prop :=
  Declarations rule false ts ss

end Lox.Grammar
