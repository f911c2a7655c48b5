import Lox.Proofs.Grammar.Basic

/-!
What can be read although it is forbidden. The lenient grammar differs from the grammar in three
places: lists may have any length, anything of the loosest tier may stand before an equals sign, and
a `return` may stand anywhere. Each derivation has, besides its tree, the list of the errors to
report for it, in the order in which a reader meets them. What the grammar derives, the lenient
grammar derives without errors.
-/

namespace Lox.Grammar

/-- The error of an item that is one too many, at the first token of the item. -/
def excess (fault : ParseFault) (count : Nat) (ts : List Token) : List ParseError :=
  if 255 ≤ count then (ts.head?.map (⟨·, fault⟩)).toList else []

/-- What an assignment to an expression is. Only a name can be assigned to. -/
def assigned : Expr → Expr → Expr
  | .reference name, value => .assign name value
  | target, _ => target

/-- The error of an assignment to something else. -/
def targetErrors : Expr → Token → List ParseError
  | .reference _, _ => []
  | _, equals => [⟨equals, .assignmentTarget⟩]

/-- The error of a `return` outside every function. -/
def returnErrors : Bool → Token → List ParseError
  | true, _ => []
  | false, word => [⟨word, .topLevelReturn⟩]

namespace Lenient

/-- One item or more, with commas between them, after `count` items of the same list. -/
inductive Separated {α : Type} (Item : List Token → α → List ParseError → Prop)
    (fault : ParseFault) : Nat → List Token → List α → List ParseError → Prop
  | one {count : Nat} {ts : List Token} {a : α} {es : List ParseError} : Item ts a es →
    Separated Item fault count ts [a] (excess fault count ts ++ es)
  | more {count : Nat} {ts us : List Token} {comma : Token} {a : α} {as : List α}
      {es fs : List ParseError} : Item ts a es → comma.is .comma = true →
    Separated Item fault (count + 1) us as fs →
    Separated Item fault count (ts ++ comma :: us) (a :: as) (excess fault count ts ++ es ++ fs)

/-- Any number of items, with commas between them. -/
inductive Items {α : Type} (Item : List Token → α → List ParseError → Prop)
    (fault : ParseFault) : List Token → List α → List ParseError → Prop
  | none : Items Item fault [] [] []
  | some {ts : List Token} {as : List α} {es : List ParseError} :
    Separated Item fault 0 ts as es → Items Item fault ts as es

/-- The tokens can be read as a phrase of the level. -/
inductive Phrase : Level → List Token → Expr → List ParseError → Prop
  | assign {equals : Token} {ts us : List Token} {target value : Expr}
      {es fs : List ParseError} :
    Phrase (.tier .or) ts target es → equals.is .equal = true → Phrase .expression us value fs →
    Phrase .expression (ts ++ equals :: us) (assigned target value)
      (es ++ fs ++ targetErrors target equals)
  | loosest {ts : List Token} {e : Expr} {es : List ParseError} : Phrase (.tier .or) ts e es →
    Phrase .expression ts e es
  | operation {t : Tier} {operator : Token} {ts us : List Token} {left right : Expr}
      {es fs : List ParseError} :
    Phrase (.tier t) ts left es → t.operators.any operator.is = true →
    Phrase (operandLevel t) us right fs →
    Phrase (.tier t) (ts ++ operator :: us) (t.node left operator right) (es ++ fs)
  | operand {t : Tier} {ts : List Token} {e : Expr} {es : List ParseError} :
    Phrase (operandLevel t) ts e es → Phrase (.tier t) ts e es
  | unary {operator : Token} {ts : List Token} {right : Expr} {es : List ParseError} :
    (operator.is .bang || operator.is .minus) = true → Phrase .unary ts right es →
    Phrase .unary (operator :: ts) (.unary operator right) es
  | callee {ts : List Token} {e : Expr} {es : List ParseError} : Phrase .call ts e es →
    Phrase .unary ts e es
  | call {opening closing : Token} {ts us : List Token} {callee : Expr} {arguments : List Expr}
      {es fs : List ParseError} :
    Phrase .call ts callee es → opening.is .leftParen = true →
    Items (Phrase .expression) .tooManyArguments us arguments fs →
    closing.is .rightParen = true →
    Phrase .call (ts ++ opening :: (us ++ [closing])) (.call callee closing arguments) (es ++ fs)
  | primary {ts : List Token} {e : Expr} {es : List ParseError} : Phrase .primary ts e es →
    Phrase .call ts e es
  | literal {token : Token} {value : Literal} : token.kind.literal? = some value →
    Phrase .primary [token] (.literal value) []
  | reference {name : Token} : name.kind.isIdentifier = true →
    Phrase .primary [name] (.reference name) []
  | group {opening closing : Token} {ts : List Token} {inner : Expr} {es : List ParseError} :
    opening.is .leftParen = true → Phrase .expression ts inner es →
    closing.is .rightParen = true →
    Phrase .primary (opening :: (ts ++ [closing])) (.group inner) es

/-- An expression that may be left out. -/
inductive Optional : List Token → Option Expr → List ParseError → Prop
  | none : Optional [] none []
  | some {ts : List Token} {e : Expr} {es : List ParseError} : Phrase .expression ts e es →
    Optional ts (some e) es

/-- The initial value of a variable. -/
inductive Initializer : List Token → Option Expr → List ParseError → Prop
  | none : Initializer [] none []
  | some {equals : Token} {ts : List Token} {e : Expr} {es : List ParseError} :
    equals.is .equal = true → Phrase .expression ts e es → Initializer (equals :: ts) (some e) es

/-- A variable declaration. -/
inductive Variable : List Token → Stmt → List ParseError → Prop
  | declare {word name semicolon : Token} {ts : List Token} {initial : Option Expr}
      {es : List ParseError} :
    word.is .varWord = true → name.kind.isIdentifier = true → Initializer ts initial es →
    semicolon.is .semicolon = true →
    Variable (word :: name :: (ts ++ [semicolon])) (.declare name initial) es

/-- The first clause of a `for` loop, with its semicolon. -/
inductive ForInitial : List Token → Option Stmt → List ParseError → Prop
  | none {semicolon : Token} : semicolon.is .semicolon = true → ForInitial [semicolon] none []
  | var {ts : List Token} {s : Stmt} {es : List ParseError} : Variable ts s es →
    ForInitial ts (some s) es
  | expression {semicolon : Token} {ts : List Token} {e : Expr} {es : List ParseError} :
    Phrase .expression ts e es → semicolon.is .semicolon = true →
    ForInitial (ts ++ [semicolon]) (some (.expression e)) es

/-- A parameter. -/
inductive Name : List Token → Token → List ParseError → Prop
  | name {t : Token} : t.kind.isIdentifier = true → Name [t] t []

mutual

/-- The tokens can be read as a statement. -/
inductive Statement (rule : ElseRule) :
    Bool → Ending → List Token → Stmt → List ParseError → Prop
  | expression {inside : Bool} {semicolon : Token} {ts : List Token} {e : Expr}
      {es : List ParseError} :
    Phrase .expression ts e es → semicolon.is .semicolon = true →
    Statement rule inside .closed (ts ++ [semicolon]) (.expression e) es
  | print {inside : Bool} {word semicolon : Token} {ts : List Token} {e : Expr}
      {es : List ParseError} :
    word.is .printWord = true → Phrase .expression ts e es → semicolon.is .semicolon = true →
    Statement rule inside .closed (word :: (ts ++ [semicolon])) (.print e) es
  | returns {inside : Bool} {word semicolon : Token} {ts : List Token} {value : Option Expr}
      {es : List ParseError} :
    word.is .returnWord = true → Optional ts value es → semicolon.is .semicolon = true →
    Statement rule inside .closed (word :: (ts ++ [semicolon])) (.returns word value)
      (returnErrors inside word ++ es)
  | block {inside : Bool} {opening closing : Token} {ts : List Token} {body : List Stmt}
      {es : List ParseError} :
    opening.is .leftBrace = true → Declarations rule inside ts body es →
    closing.is .rightBrace = true →
    Statement rule inside .closed (opening :: (ts ++ [closing])) (.block body) es
  | whileDo {inside : Bool} {ending : Ending} {word opening closing : Token}
      {ts us : List Token} {test : Expr} {body : Stmt} {es fs : List ParseError} :
    word.is .whileWord = true → opening.is .leftParen = true → Phrase .expression ts test es →
    closing.is .rightParen = true → Statement rule inside ending us body fs →
    Statement rule inside ending (word :: opening :: (ts ++ closing :: us)) (.whileDo test body)
      (es ++ fs)
  | forDo {inside : Bool} {ending : Ending} {word opening semicolon closing : Token}
      {ts us vs ws : List Token} {initial : Option Stmt} {test increment : Option Expr}
      {body : Stmt} {es fs gs hs : List ParseError} :
    word.is .forWord = true → opening.is .leftParen = true → ForInitial ts initial es →
    Optional us test fs → semicolon.is .semicolon = true → Optional vs increment gs →
    closing.is .rightParen = true → Statement rule inside ending ws body hs →
    Statement rule inside ending
      (word :: opening :: (ts ++ (us ++ semicolon :: (vs ++ closing :: ws))))
      (forTree initial test increment body) (es ++ fs ++ gs ++ hs)
  | ifThen {inside : Bool} {ending : Ending} {word opening closing : Token}
      {ts us : List Token} {test : Expr} {thenBranch : Stmt} {es fs : List ParseError} :
    word.is .ifWord = true → opening.is .leftParen = true → Phrase .expression ts test es →
    closing.is .rightParen = true → Statement rule inside ending us thenBranch fs →
    Statement rule inside .dangling (word :: opening :: (ts ++ closing :: us))
      (.ifThen test thenBranch) (es ++ fs)
  | ifElse {inside : Bool} {ending ending' : Ending} {word opening closing elseWord : Token}
      {ts us vs : List Token} {test : Expr} {thenBranch elseBranch : Stmt}
      {es fs gs : List ParseError} :
    word.is .ifWord = true → opening.is .leftParen = true → Phrase .expression ts test es →
    closing.is .rightParen = true → Statement rule inside ending us thenBranch fs →
    (rule = .nearest → ending = .closed) → elseWord.is .elseWord = true →
    Statement rule inside ending' vs elseBranch gs →
    Statement rule inside ending'
      (word :: opening :: (ts ++ closing :: (us ++ elseWord :: vs)))
      (.ifElse test thenBranch elseBranch) (es ++ fs ++ gs)

/-- The tokens can be read as a declaration or a statement. -/
inductive Declaration (rule : ElseRule) : Bool → List Token → Stmt → List ParseError → Prop
  | function {inside : Bool} {word name opening closing brace endBrace : Token}
      {ts us : List Token} {params : List Token} {body : List Stmt} {es fs : List ParseError} :
    word.is .funWord = true → name.kind.isIdentifier = true → opening.is .leftParen = true →
    Items Name .tooManyParameters ts params es → closing.is .rightParen = true →
    brace.is .leftBrace = true → Declarations rule true us body fs →
    endBrace.is .rightBrace = true →
    Declaration rule inside
      (word :: name :: opening :: (ts ++ closing :: brace :: (us ++ [endBrace])))
      (.function name params body) (es ++ fs)
  | var {inside : Bool} {ts : List Token} {s : Stmt} {es : List ParseError} :
    Variable ts s es → Declaration rule inside ts s es
  | statement {inside : Bool} {ending : Ending} {ts : List Token} {s : Stmt}
      {es : List ParseError} :
    Statement rule inside ending ts s es → Declaration rule inside ts s es

/-- The tokens can be read as declarations one after the other. -/
inductive Declarations (rule : ElseRule) :
    Bool → List Token → List Stmt → List ParseError → Prop
  | nil {inside : Bool} : Declarations rule inside [] [] []
  | cons {inside : Bool} {ts us : List Token} {s : Stmt} {ss : List Stmt}
      {es fs : List ParseError} :
    Declaration rule inside ts s es → Declarations rule inside us ss fs →
    Declarations rule inside (ts ++ us) (s :: ss) (es ++ fs)

end

end Lenient

/-! ### The grammar inside the lenient grammar -/

/-- Below the limit no item is too many. -/
theorem excess_of_lt {fault : ParseFault} {count : Nat} (h : count < 255) (ts : List Token) :
    excess fault count ts = [] :=
  if_neg (Nat.not_le.2 h)

/-- A list that is not too long has no error of its own. -/
theorem Separated.lenient {α : Type} {Item : List Token → α → List ParseError → Prop}
    (fault : ParseFault) {ts : List Token} {as : List α} (count : Nat)
    (h : Separated (fun ts a => Item ts a []) ts as) (hlen : count + as.length ≤ 255) :
    Lenient.Separated Item fault count ts as [] := by
  induction h generalizing count with
  | @one ts a h =>
    have hone : Lenient.Separated Item fault count ts [a] (excess fault count ts ++ []) := .one h
    rwa [excess_of_lt (by simp at hlen; omega)] at hone
  | more h hcomma _ ih =>
    rw [List.length_cons] at hlen
    have hmore := Lenient.Separated.more h hcomma (ih (count + 1) (by omega))
    rwa [excess_of_lt (by omega)] at hmore

theorem Items.lenient {α : Type} {Item : List Token → α → List ParseError → Prop}
    (fault : ParseFault) {ts : List Token} {as : List α}
    (h : Items (fun ts a => Item ts a []) ts as) : Lenient.Items Item fault ts as [] := by
  cases h with
  | none => exact .none
  | some h hlen => exact .some (h.lenient fault 0 (by omega))

/-- A name is a phrase of every level. -/
theorem reference_lenient {name : Token} (h : name.kind.isIdentifier = true) :
    Lenient.Phrase (.tier .or) [name] (.reference name) [] :=
  .operand (.operand (.operand (.operand (.operand (.operand (.callee (.primary
    (.reference h))))))))

mutual

/-- What the grammar allows is allowed by the lenient one, without a report. -/
theorem Phrase.lenient : ∀ {l : Level} {ts : List Token} {e : Expr}, Phrase l ts e →
    Lenient.Phrase l ts e []
  | _, _, _, .assign hname hequals hvalue =>
    (Lenient.Phrase.assign (reference_lenient hname) hequals hvalue.lenient :)
  | _, _, _, .loosest h => .loosest h.lenient
  | _, _, _, .operation hl ho hr => (Lenient.Phrase.operation hl.lenient ho hr.lenient :)
  | _, _, _, .operand h => .operand h.lenient
  | _, _, _, .unary ho h => .unary ho h.lenient
  | _, _, _, .callee h => .callee h.lenient
  | _, _, _, .call hf ho hargs hc =>
    (Lenient.Phrase.call hf.lenient ho ((arguments_lenient hargs).lenient _) hc :)
  | _, _, _, .primary h => .primary h.lenient
  | _, _, _, .literal h => .literal h
  | _, _, _, .reference h => .reference h
  | _, _, _, .group ho h hc => .group ho h.lenient hc

theorem arguments_lenient : ∀ {ts : List Token} {as : List Expr},
    Items (Phrase .expression) ts as →
    Items (fun ts e => Lenient.Phrase .expression ts e []) ts as
  | _, _, .none => .none
  | _, _, .some h hlen => .some (separated_lenient h) hlen

theorem separated_lenient : ∀ {ts : List Token} {as : List Expr},
    Separated (Phrase .expression) ts as →
    Separated (fun ts e => Lenient.Phrase .expression ts e []) ts as
  | _, _, .one h => .one h.lenient
  | _, _, .more h hcomma hs => .more h.lenient hcomma (separated_lenient hs)

end

theorem Optional.lenient {ts : List Token} {e : Option Expr} (h : Optional ts e) :
    Lenient.Optional ts e [] := by
  cases h with
  | none => exact .none
  | some h => exact .some h.lenient

theorem Variable.lenient {ts : List Token} {s : Stmt} (h : Variable ts s) :
    Lenient.Variable ts s [] := by
  obtain ⟨hword, hname, hinit, hsemi⟩ := h
  refine .declare hword hname ?_ hsemi
  cases hinit with
  | none => exact .none
  | some hequals h => exact .some hequals h.lenient

theorem ForInitial.lenient {ts : List Token} {s : Option Stmt} (h : ForInitial ts s) :
    Lenient.ForInitial ts s [] := by
  cases h with
  | none hsemi => exact .none hsemi
  | var h => exact .var h.lenient
  | expression h hsemi => exact .expression h.lenient hsemi

theorem Name.lenient {ts : List Token} {t : Token} (h : Name ts t) : Lenient.Name ts t [] := by
  obtain ⟨h⟩ := h
  exact .name h

mutual

/-- Nothing that is forbidden occurs, so nothing is reported. -/
theorem Statement.lenient {rule : ElseRule} : ∀ {inside : Bool} {ending : Ending}
    {ts : List Token} {s : Stmt}, Statement rule inside ending ts s →
    Lenient.Statement rule inside ending ts s []
  | _, _, _, _, .expression h hsemi => .expression h.lenient hsemi
  | _, _, _, _, .print hw h hsemi => .print hw h.lenient hsemi
  | _, _, _, _, .returns hw h hsemi =>
    (Lenient.Statement.returns hw h.lenient hsemi : Lenient.Statement rule true _ _ _ _)
  | _, _, _, _, .block ho h hc => .block ho h.lenient hc
  | _, _, _, _, .whileDo hw ho h hc hs =>
    (Lenient.Statement.whileDo hw ho h.lenient hc hs.lenient :)
  | _, _, _, _, .forDo hw ho hi ht hsemi hu hc hs =>
    (Lenient.Statement.forDo hw ho hi.lenient ht.lenient hsemi hu.lenient hc hs.lenient :)
  | _, _, _, _, .ifThen hw ho h hc hs => (Lenient.Statement.ifThen hw ho h.lenient hc hs.lenient :)
  | _, _, _, _, .ifElse hw ho h hc hs hrule he hs' =>
    (Lenient.Statement.ifElse hw ho h.lenient hc hs.lenient hrule he hs'.lenient :)

theorem Declaration.lenient {rule : ElseRule} : ∀ {inside : Bool} {ts : List Token} {s : Stmt},
    Declaration rule inside ts s → Lenient.Declaration rule inside ts s []
  | _, _, _, .function hw hn ho hp hc hb hbody he =>
    (Lenient.Declaration.function hw hn ho ((hp.imp fun _ _ h => h.lenient).lenient _) hc hb
      hbody.lenient he :)
  | _, _, _, .var h => .var h.lenient
  | _, _, _, .statement h => .statement h.lenient

theorem Declarations.lenient {rule : ElseRule} : ∀ {inside : Bool} {ts : List Token}
    {ss : List Stmt}, Declarations rule inside ts ss → Lenient.Declarations rule inside ts ss []
  | _, _, _, .nil => .nil
  | _, _, _, .cons h hs => (Lenient.Declarations.cons h.lenient hs.lenient :)

end

end Lox.Grammar
