import Lox.Proofs.Grammar.Basic
import Lox.Proofs.Machine.Operator

/-!
The tokens of a tree. The tree of a program keeps tokens of the program and no others, and keeps
each in its role: what stands for an operator is one, and names are identifiers.
-/

namespace Lox

/-! ### Trees -/

/-- The token is a name, and one of those described. -/
structure Token.Names (T : Token → Prop) (t : Token) : Prop where
  known : T t
  identifier : t.kind.isIdentifier = true

/-- The token is one of the operators, and one of those described. -/
structure Token.Operates (T : Token → Prop) (operators : List Symbol) (t : Token) : Prop where
  known : T t
  operator : operators.any t.is = true

mutual

/-- The expression is made of tokens of those described, each in its role. -/
def Expr.MadeOf (T : Token → Prop) : Expr → Prop
  | .literal _ => True
  | .group inner => inner.MadeOf T
  | .unary operator right => operator.Operates T unaryOperators ∧ right.MadeOf T
  | .binary left operator right =>
    left.MadeOf T ∧ operator.Operates T binaryOperators ∧ right.MadeOf T
  | .logical left operator right => left.MadeOf T ∧ T operator ∧ right.MadeOf T
  | .reference name => name.Names T
  | .assign name value => name.Names T ∧ value.MadeOf T
  | .call callee paren arguments => callee.MadeOf T ∧ T paren ∧ Expr.MadeOfAll T arguments

/-- The expressions are made of tokens of those described. -/
def Expr.MadeOfAll (T : Token → Prop) : List Expr → Prop
  | [] => True
  | e :: es => e.MadeOf T ∧ Expr.MadeOfAll T es

end

mutual

/-- The statement is made of tokens of those described, each in its role. -/
def Stmt.MadeOf (T : Token → Prop) : Stmt → Prop
  | .print value => value.MadeOf T
  | .expression value => value.MadeOf T
  | .declare name initial => name.Names T ∧ ∀ e ∈ initial, e.MadeOf T
  | .block body => Stmt.MadeOfAll T body
  | .ifThen condition thenBranch => condition.MadeOf T ∧ thenBranch.MadeOf T
  | .ifElse condition thenBranch elseBranch =>
    condition.MadeOf T ∧ thenBranch.MadeOf T ∧ elseBranch.MadeOf T
  | .whileDo condition body => condition.MadeOf T ∧ body.MadeOf T
  | .function name params body =>
    name.Names T ∧ (∀ p ∈ params, p.Names T) ∧ Stmt.MadeOfAll T body
  | .returns keyword value => T keyword ∧ ∀ e ∈ value, e.MadeOf T

/-- The statements are made of tokens of those described. -/
def Stmt.MadeOfAll (T : Token → Prop) : List Stmt → Prop
  | [] => True
  | s :: ss => s.MadeOf T ∧ Stmt.MadeOfAll T ss

end

namespace Grammar

variable {T : Token → Prop} {rule : ElseRule} {ts : List Token}

/-! ### Expressions -/

/-- An operator of a tier stands where its kind of operator may. -/
theorem node_madeOf {t : Tier} {left right : Expr} {operator : Token} (hT : T operator)
    (ho : t.operators.any operator.is = true) (hl : left.MadeOf T) (hr : right.MadeOf T) :
    (t.node left operator right).MadeOf T := by
  have hbinary : (∀ s ∈ t.operators, s ∈ binaryOperators) →
      operator.Operates T binaryOperators := by
    intro hsub
    obtain ⟨s, hs, his⟩ := List.any_eq_true.1 ho
    exact ⟨hT, List.any_eq_true.2 ⟨s, hsub s hs, his⟩⟩
  cases t with
  | or | and =>
    rw [Tier.node, Expr.MadeOf]
    exact ⟨hl, hT, hr⟩
  | equality | comparison | addition | multiplication =>
    rw [Tier.node, Expr.MadeOf]
    · exact ⟨hl, hbinary (by decide), hr⟩
    all_goals exact Tier.noConfusion

mutual

/-- The tree of an expression keeps tokens of the expression only. -/
theorem Phrase.madeOf : ∀ {l : Level} {ts : List Token} {e : Expr}, Phrase l ts e →
    (∀ t ∈ ts, T t) → e.MadeOf T
  | _, _, _, .assign hname _ h, hT => by
    simp only [List.forall_mem_cons] at hT
    rw [Expr.MadeOf]
    exact ⟨⟨hT.1, hname⟩, h.madeOf hT.2.2⟩
  | _, _, _, .loosest h, hT => h.madeOf hT
  | _, _, _, .operation hl ho hr, hT => by
    simp only [List.forall_mem_append, List.forall_mem_cons] at hT
    exact node_madeOf hT.2.1 ho (hl.madeOf hT.1) (hr.madeOf hT.2.2)
  | _, _, _, .operand h, hT => h.madeOf hT
  | _, _, _, .unary ho h, hT => by
    simp only [List.forall_mem_cons] at hT
    rw [Expr.MadeOf]
    refine ⟨⟨hT.1, ?_⟩, h.madeOf hT.2⟩
    simpa [unaryOperators] using ho
  | _, _, _, .callee h, hT => h.madeOf hT
  | _, _, _, .call h _ hargs _, hT => by
    simp only [List.forall_mem_append, List.forall_mem_cons] at hT
    rw [Expr.MadeOf]
    exact ⟨h.madeOf hT.1, hT.2.2.2.1, madeOf_arguments hargs hT.2.2.1⟩
  | _, _, _, .primary h, hT => h.madeOf hT
  | _, _, _, .literal _, _ => by
    rw [Expr.MadeOf]
    trivial
  | _, _, _, .reference hname, hT => by
    rw [Expr.MadeOf]
    exact ⟨hT _ List.mem_cons_self, hname⟩
  | _, _, _, .group _ h _, hT => by
    simp only [List.forall_mem_append, List.forall_mem_cons] at hT
    rw [Expr.MadeOf]
    exact h.madeOf hT.2.1

theorem madeOf_arguments : ∀ {ts : List Token} {as : List Expr},
    Items (Phrase .expression) ts as → (∀ t ∈ ts, T t) → Expr.MadeOfAll T as
  | _, _, .none, _ => by
    rw [Expr.MadeOfAll]
    trivial
  | _, _, .some h _, hT => madeOf_separated h hT

theorem madeOf_separated : ∀ {ts : List Token} {as : List Expr},
    Separated (Phrase .expression) ts as → (∀ t ∈ ts, T t) → Expr.MadeOfAll T as
  | _, _, .one h, hT => by
    rw [Expr.MadeOfAll, Expr.MadeOfAll]
    exact ⟨h.madeOf hT, trivial⟩
  | _, _, .more h _ hs, hT => by
    simp only [List.forall_mem_append, List.forall_mem_cons] at hT
    rw [Expr.MadeOfAll]
    exact ⟨h.madeOf hT.1, madeOf_separated hs hT.2.2⟩

end

theorem Optional.madeOf {value : Option Expr} (h : Optional ts value) (hT : ∀ t ∈ ts, T t) :
    ∀ e ∈ value, e.MadeOf T := by
  cases h with
  | none =>
    intro e he
    cases he
  | some h =>
    intro e he
    cases he
    exact h.madeOf hT

/-! ### Statements -/

theorem Variable.madeOf {s : Stmt} (h : Variable ts s) (hT : ∀ t ∈ ts, T t) : s.MadeOf T := by
  obtain ⟨-, hname, hinitial, -⟩ := h
  simp only [List.forall_mem_cons, List.forall_mem_append] at hT
  rw [Stmt.MadeOf]
  refine ⟨⟨hT.2.1, hname⟩, ?_⟩
  cases hinitial with
  | none =>
    intro e he
    cases he
  | some _ h =>
    intro e he
    cases he
    exact h.madeOf (List.forall_mem_cons.1 hT.2.2.1).2

theorem ForInitial.madeOf {initial : Option Stmt} (h : ForInitial ts initial)
    (hT : ∀ t ∈ ts, T t) : ∀ s ∈ initial, s.MadeOf T := by
  intro s hs
  cases h with
  | none _ => cases hs
  | var h =>
    cases hs
    exact h.madeOf hT
  | expression h _ =>
    cases hs
    simp only [List.forall_mem_append] at hT
    rw [Stmt.MadeOf]
    exact h.madeOf hT.1

/-- What is added to the clauses of a loop has no tokens. -/
theorem forTree_madeOf {initial : Option Stmt} {test increment : Option Expr} {body : Stmt}
    (hi : ∀ s ∈ initial, s.MadeOf T) (ht : ∀ e ∈ test, e.MadeOf T)
    (hu : ∀ e ∈ increment, e.MadeOf T) (hb : body.MadeOf T) :
    (forTree initial test increment body).MadeOf T := by
  have htest : (test.getD (.literal (.bool true))).MadeOf T := by
    cases test with
    | none =>
      rw [Option.getD_none, Expr.MadeOf]
      trivial
    | some e => exact ht e rfl
  cases initial with
  | none =>
    cases increment with
    | none => simp [forTree, Stmt.MadeOf, htest, hb]
    | some u => simp [forTree, Stmt.MadeOf, Stmt.MadeOfAll, htest, hb, hu u rfl]
  | some s =>
    cases increment with
    | none => simp [forTree, Stmt.MadeOf, Stmt.MadeOfAll, htest, hb, hi s rfl]
    | some u => simp [forTree, Stmt.MadeOf, Stmt.MadeOfAll, htest, hb, hi s rfl, hu u rfl]

/-- Parameters are named by identifiers. -/
theorem Separated.names {params : List Token} (h : Separated Name ts params)
    (hT : ∀ t ∈ ts, T t) : ∀ p ∈ params, p.Names T := by
  induction h with
  | one h =>
    obtain ⟨hname⟩ := h
    rw [List.forall_mem_singleton] at hT ⊢
    exact ⟨hT, hname⟩
  | more h _ _ ih =>
    obtain ⟨hname⟩ := h
    simp only [List.forall_mem_append, List.forall_mem_cons] at hT ⊢
    exact ⟨⟨hT.1.1, hname⟩, ih hT.2.2⟩

theorem Items.names {params : List Token} (h : Items Name ts params) (hT : ∀ t ∈ ts, T t) :
    ∀ p ∈ params, p.Names T := by
  cases h with
  | none => simp
  | some h _ => exact h.names hT

mutual

theorem Statement.madeOf : ∀ {inside : Bool} {ending : Ending} {ts : List Token} {s : Stmt},
    Statement rule inside ending ts s → (∀ t ∈ ts, T t) → s.MadeOf T
  | _, _, _, _, .expression h _, hT => by
    simp only [List.forall_mem_append] at hT
    rw [Stmt.MadeOf]
    exact h.madeOf hT.1
  | _, _, _, _, .print _ h _, hT => by
    simp only [List.forall_mem_append, List.forall_mem_cons] at hT
    rw [Stmt.MadeOf]
    exact h.madeOf hT.2.1
  | _, _, _, _, .returns _ h _, hT => by
    simp only [List.forall_mem_append, List.forall_mem_cons] at hT
    rw [Stmt.MadeOf]
    exact ⟨hT.1, h.madeOf hT.2.1⟩
  | _, _, _, _, .block _ h _, hT => by
    simp only [List.forall_mem_append, List.forall_mem_cons] at hT
    rw [Stmt.MadeOf]
    exact h.madeOf hT.2.1
  | _, _, _, _, .whileDo _ _ h _ hs, hT => by
    simp only [List.forall_mem_append, List.forall_mem_cons] at hT
    rw [Stmt.MadeOf]
    exact ⟨h.madeOf hT.2.2.1, hs.madeOf hT.2.2.2.2⟩
  | _, _, _, _, .forDo _ _ hi ht _ hu _ hs, hT => by
    simp only [List.forall_mem_append, List.forall_mem_cons] at hT
    obtain ⟨-, -, hts, hus, -, hvs, -, hws⟩ := hT
    exact forTree_madeOf (hi.madeOf hts) (ht.madeOf hus) (hu.madeOf hvs) (hs.madeOf hws)
  | _, _, _, _, .ifThen _ _ h _ hs, hT => by
    simp only [List.forall_mem_append, List.forall_mem_cons] at hT
    rw [Stmt.MadeOf]
    exact ⟨h.madeOf hT.2.2.1, hs.madeOf hT.2.2.2.2⟩
  | _, _, _, _, .ifElse _ _ h _ hs _ _ hs', hT => by
    simp only [List.forall_mem_append, List.forall_mem_cons] at hT
    obtain ⟨-, -, hts, -, hus, -, hvs⟩ := hT
    rw [Stmt.MadeOf]
    exact ⟨h.madeOf hts, hs.madeOf hus, hs'.madeOf hvs⟩

theorem Declaration.madeOf : ∀ {inside : Bool} {ts : List Token} {s : Stmt},
    Declaration rule inside ts s → (∀ t ∈ ts, T t) → s.MadeOf T
  | _, _, _, .function _ hname _ hparams _ _ hbody _, hT => by
    simp only [List.forall_mem_append, List.forall_mem_cons] at hT
    obtain ⟨-, hnameT, -, hts, -, -, hus, -⟩ := hT
    rw [Stmt.MadeOf]
    exact ⟨⟨hnameT, hname⟩, hparams.names hts, hbody.madeOf hus⟩
  | _, _, _, .var h, hT => h.madeOf hT
  | _, _, _, .statement h, hT => h.madeOf hT

/-- The tree of declarations is made of their tokens. -/
theorem Declarations.madeOf : ∀ {inside : Bool} {ts : List Token} {ss : List Stmt},
    Declarations rule inside ts ss → (∀ t ∈ ts, T t) → Stmt.MadeOfAll T ss
  | _, _, _, .nil, _ => by
    rw [Stmt.MadeOfAll]
    trivial
  | _, _, _, .cons h hs, hT => by
    simp only [List.forall_mem_append] at hT
    rw [Stmt.MadeOfAll]
    exact ⟨h.madeOf hT.1, hs.madeOf hT.2⟩

end

end Grammar

end Lox
