import Lox.Proofs.Grammar.Tokens

/-!
Trees as they are read. Each token that a tree keeps has its role in it, and each literal is spelled
out by a token; only the condition that a `for` loop may lack stands in no text. This holds of a
tree whether or not errors were reported on the way to it.
-/

namespace Lox

variable {T : Token → Prop}

/-- The operators that may leave their right operand aside. -/
def logicalOperators : List Symbol := [.orWord, .andWord]

/-- The value is spelled out by a token of those described, or is the condition left out. -/
def Literal.InRole (T : Token → Prop) (value : Literal) : Prop :=
  value = .bool true ∨ ∃ t, T t ∧ t.kind.literal? = some value

/-- The expression is made of tokens of those described, each in its role. -/
inductive Expr.InRole (T : Token → Prop) : Expr → Prop
  | literal {value : Literal} : value.InRole T → InRole T (.literal value)
  | group {inner : Expr} : InRole T inner → InRole T (.group inner)
  | unary {operator : Token} {right : Expr} : operator.Operates T unaryOperators →
    InRole T right → InRole T (.unary operator right)
  | binary {left right : Expr} {operator : Token} : InRole T left →
    operator.Operates T binaryOperators → InRole T right → InRole T (.binary left operator right)
  | logical {left right : Expr} {operator : Token} : InRole T left →
    operator.Operates T logicalOperators → InRole T right → InRole T (.logical left operator right)
  | reference {name : Token} : name.Names T → InRole T (.reference name)
  | assign {name : Token} {value : Expr} : name.Names T → InRole T value →
    InRole T (.assign name value)
  | call {callee : Expr} {paren : Token} {arguments : List Expr} : InRole T callee →
    paren.Operates T [.rightParen] → (∀ e ∈ arguments, InRole T e) →
    InRole T (.call callee paren arguments)

/-- The statement is made of tokens of those described, each in its role. -/
inductive Stmt.InRole (T : Token → Prop) : Stmt → Prop
  | print {value : Expr} : value.InRole T → InRole T (.print value)
  | expression {value : Expr} : value.InRole T → InRole T (.expression value)
  | declare {name : Token} {initial : Option Expr} : name.Names T →
    (∀ e ∈ initial, e.InRole T) → InRole T (.declare name initial)
  | block {body : List Stmt} : (∀ s ∈ body, InRole T s) → InRole T (.block body)
  | ifThen {condition : Expr} {thenBranch : Stmt} : condition.InRole T → InRole T thenBranch →
    InRole T (.ifThen condition thenBranch)
  | ifElse {condition : Expr} {thenBranch elseBranch : Stmt} : condition.InRole T →
    InRole T thenBranch → InRole T elseBranch → InRole T (.ifElse condition thenBranch elseBranch)
  | whileDo {condition : Expr} {body : Stmt} : condition.InRole T → InRole T body →
    InRole T (.whileDo condition body)
  | function {name : Token} {params : List Token} {body : List Stmt} : name.Names T →
    (∀ p ∈ params, p.Names T) → (∀ s ∈ body, InRole T s) → InRole T (.function name params body)
  | returns {keyword : Token} {value : Option Expr} : keyword.Operates T [.returnWord] →
    (∀ e ∈ value, e.InRole T) → InRole T (.returns keyword value)

/-! ### Built trees -/

/-- An operator of a tier is in its role in the tree that the tier makes. -/
theorem Tier.inRole_node {t : Tier} {left right : Expr} {operator : Token} (hT : T operator)
    (ho : t.operators.any operator.is = true) (hl : left.InRole T) (hr : right.InRole T) :
    (t.node left operator right).InRole T := by
  have hrole : ∀ {operators : List Symbol}, (∀ s ∈ t.operators, s ∈ operators) →
      operator.Operates T operators := by
    intro operators hsub
    obtain ⟨s, hs, his⟩ := List.any_eq_true.1 ho
    exact ⟨hT, List.any_eq_true.2 ⟨s, hsub s hs, his⟩⟩
  cases t with
  | or | and => exact .logical hl (hrole (by decide)) hr
  | equality | comparison | addition | multiplication => exact .binary hl (hrole (by decide)) hr

theorem Stmt.inRole_forLoop {initial : Option Stmt} {condition : Expr} {increment : Option Expr}
    {body : Stmt} (hi : ∀ s ∈ initial, s.InRole T) (hc : condition.InRole T)
    (hu : ∀ e ∈ increment, e.InRole T) (hb : body.InRole T) :
    (Stmt.forLoop initial condition increment body).InRole T := by
  have hinner : ∀ {inner : Stmt}, inner.InRole T → (Stmt.whileDo condition inner).InRole T :=
    fun h => .whileDo hc h
  have hpair : ∀ {s u : Stmt}, s.InRole T → u.InRole T → (Stmt.block [s, u]).InRole T := by
    intro s u hs hu
    exact .block (by simp [hs, hu])
  cases initial with
  | none =>
    cases increment with
    | none => exact hinner hb
    | some e => exact hinner (hpair hb (.expression (hu e rfl)))
  | some s =>
    cases increment with
    | none => exact hpair (hi s rfl) (hinner hb)
    | some e => exact hpair (hi s rfl) (hinner (hpair hb (.expression (hu e rfl))))

end Lox
