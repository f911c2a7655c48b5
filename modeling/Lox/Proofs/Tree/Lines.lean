import Lox.Value

/-!
Trees with other lines. The lines of the tokens in a tree, and in the function values made from it,
can be changed without changing anything else. Two trees or two values that become equal when all
lines are forgotten differ in lines at most: they are built alike, and so are their parts.
-/

namespace Lox

variable {f g : Nat → Nat}

/-- The token on another line. -/
def Token.reline (f : Nat → Nat) (t : Token) : Token := { t with line := f t.line }

mutual

/-- The expression with its tokens on other lines. -/
def Expr.reline (f : Nat → Nat) : Expr → Expr
  | .literal value => .literal value
  | .group inner => .group (inner.reline f)
  | .unary operator right => .unary (operator.reline f) (right.reline f)
  | .binary left operator right => .binary (left.reline f) (operator.reline f) (right.reline f)
  | .logical left operator right => .logical (left.reline f) (operator.reline f) (right.reline f)
  | .reference name => .reference (name.reline f)
  | .assign name value => .assign (name.reline f) (value.reline f)
  | .call callee paren arguments =>
    .call (callee.reline f) (paren.reline f) (Expr.relineAll f arguments)

/-- Expressions with their tokens on other lines. -/
def Expr.relineAll (f : Nat → Nat) : List Expr → List Expr
  | [] => []
  | e :: es => e.reline f :: Expr.relineAll f es

end

mutual

/-- The statement with its tokens on other lines. -/
def Stmt.reline (f : Nat → Nat) : Stmt → Stmt
  | .print value => .print (value.reline f)
  | .expression value => .expression (value.reline f)
  | .declare name initial => .declare (name.reline f) (initial.map (Expr.reline f))
  | .block body => .block (Stmt.relineAll f body)
  | .ifThen condition thenBranch => .ifThen (condition.reline f) (thenBranch.reline f)
  | .ifElse condition thenBranch elseBranch =>
    .ifElse (condition.reline f) (thenBranch.reline f) (elseBranch.reline f)
  | .whileDo condition body => .whileDo (condition.reline f) (body.reline f)
  | .function name params body =>
    .function (name.reline f) (params.map (Token.reline f)) (Stmt.relineAll f body)
  | .returns keyword value => .returns (keyword.reline f) (value.map (Expr.reline f))

/-- Statements with their tokens on other lines. -/
def Stmt.relineAll (f : Nat → Nat) : List Stmt → List Stmt
  | [] => []
  | s :: ss => s.reline f :: Stmt.relineAll f ss

end

/-- The function with its tokens on other lines. -/
def Callable.reline (f : Nat → Nat) : Callable → Callable
  | .native function => .native function
  | .closure name params body scope =>
    .closure (name.reline f) (params.map (Token.reline f)) (Stmt.relineAll f body) scope

/-- The value with the tokens of its function on other lines. -/
def Value.reline (f : Nat → Nat) : Value → Value
  | .callable identity function => .callable identity (function.reline f)
  | v => v

/-- Forgets a line. -/
def noLine (_ : Nat) : Nat := 0

/-! ### One change after another -/

theorem Token.reline_reline (t : Token) : (t.reline f).reline g = t.reline (g ∘ f) := rfl

mutual

/-- Two changes of lines are one change. -/
theorem Expr.reline_reline : ∀ e : Expr, (e.reline f).reline g = e.reline (g ∘ f)
  | .literal _ => by simp only [Expr.reline]
  | .group inner => by simp only [Expr.reline, inner.reline_reline]
  | .unary _ right => by simp only [Expr.reline, right.reline_reline, Token.reline_reline]
  | .binary left _ right => by
    simp only [Expr.reline, left.reline_reline, right.reline_reline, Token.reline_reline]
  | .logical left _ right => by
    simp only [Expr.reline, left.reline_reline, right.reline_reline, Token.reline_reline]
  | .reference _ => by simp only [Expr.reline, Token.reline_reline]
  | .assign _ value => by simp only [Expr.reline, value.reline_reline, Token.reline_reline]
  | .call callee _ arguments => by
    simp only [Expr.reline, callee.reline_reline, Expr.relineAll_relineAll arguments,
      Token.reline_reline]

theorem Expr.relineAll_relineAll : ∀ es : List Expr,
    Expr.relineAll g (Expr.relineAll f es) = Expr.relineAll (g ∘ f) es
  | [] => by simp only [Expr.relineAll]
  | e :: es => by simp only [Expr.relineAll, e.reline_reline, Expr.relineAll_relineAll es]

end

mutual

/-- Two changes of lines are one change. -/
theorem Stmt.reline_reline : ∀ s : Stmt, (s.reline f).reline g = s.reline (g ∘ f)
  | .print value => by simp only [Stmt.reline, value.reline_reline]
  | .expression value => by simp only [Stmt.reline, value.reline_reline]
  | .declare _ initial => by
    cases initial <;> simp [Stmt.reline, Expr.reline_reline, Token.reline_reline]
  | .block body => by simp only [Stmt.reline, Stmt.relineAll_relineAll body]
  | .ifThen condition thenBranch => by
    simp only [Stmt.reline, condition.reline_reline, thenBranch.reline_reline]
  | .ifElse condition thenBranch elseBranch => by
    simp only [Stmt.reline, condition.reline_reline, thenBranch.reline_reline,
      elseBranch.reline_reline]
  | .whileDo condition body => by
    simp only [Stmt.reline, condition.reline_reline, body.reline_reline]
  | .function _ params body => by
    simp [Stmt.reline, Stmt.relineAll_relineAll body, Token.reline_reline, Function.comp_def]
  | .returns _ value => by
    cases value <;> simp [Stmt.reline, Expr.reline_reline, Token.reline_reline]

theorem Stmt.relineAll_relineAll : ∀ ss : List Stmt,
    Stmt.relineAll g (Stmt.relineAll f ss) = Stmt.relineAll (g ∘ f) ss
  | [] => by simp only [Stmt.relineAll]
  | s :: ss => by simp only [Stmt.relineAll, s.reline_reline, Stmt.relineAll_relineAll ss]

end

/-! ### No change -/

theorem Token.reline_id : Token.reline id = id := rfl

mutual

theorem Expr.reline_id : ∀ e : Expr, e.reline id = e
  | .literal _ => by rw [Expr.reline]
  | .group inner => by rw [Expr.reline, inner.reline_id]
  | .unary _ right => by rw [Expr.reline, right.reline_id, Token.reline_id, id]
  | .binary left _ right => by
    rw [Expr.reline, left.reline_id, right.reline_id, Token.reline_id, id]
  | .logical left _ right => by
    rw [Expr.reline, left.reline_id, right.reline_id, Token.reline_id, id]
  | .reference _ => by rw [Expr.reline, Token.reline_id, id]
  | .assign _ value => by rw [Expr.reline, value.reline_id, Token.reline_id, id]
  | .call callee _ arguments => by
    rw [Expr.reline, callee.reline_id, Expr.relineAll_id arguments, Token.reline_id, id]

theorem Expr.relineAll_id : ∀ es : List Expr, Expr.relineAll id es = es
  | [] => by rw [Expr.relineAll]
  | e :: es => by rw [Expr.relineAll, e.reline_id, Expr.relineAll_id es]

end

mutual

theorem Stmt.reline_id : ∀ s : Stmt, s.reline id = s
  | .print value => by rw [Stmt.reline, value.reline_id]
  | .expression value => by rw [Stmt.reline, value.reline_id]
  | .declare _ initial => by
    cases initial <;> simp [Stmt.reline, Expr.reline_id, Token.reline_id]
  | .block body => by rw [Stmt.reline, Stmt.relineAll_id body]
  | .ifThen condition thenBranch => by
    rw [Stmt.reline, condition.reline_id, thenBranch.reline_id]
  | .ifElse condition thenBranch elseBranch => by
    rw [Stmt.reline, condition.reline_id, thenBranch.reline_id, elseBranch.reline_id]
  | .whileDo condition body => by rw [Stmt.reline, condition.reline_id, body.reline_id]
  | .function _ params body => by
    simp [Stmt.reline, Stmt.relineAll_id body, Token.reline_id]
  | .returns _ value => by
    cases value <;> simp [Stmt.reline, Expr.reline_id, Token.reline_id]

theorem Stmt.relineAll_id : ∀ ss : List Stmt, Stmt.relineAll id ss = ss
  | [] => by rw [Stmt.relineAll]
  | s :: ss => by rw [Stmt.relineAll, s.reline_id, Stmt.relineAll_id ss]

end

/-! ### Equal but for lines -/

theorem Token.reline_eq_iff {t t' : Token} : t.reline f = t'.reline f ↔
    t.kind = t'.kind ∧ t.lexeme = t'.lexeme ∧ f t.line = f t'.line := by
  simp [Token.reline]

/-- The expressions are built alike, from tokens and parts that are equal on other lines. -/
inductive Expr.Alike (f : Nat → Nat) : Expr → Expr → Prop
  | literal (value : Literal) : Alike f (.literal value) (.literal value)
  | group {a b : Expr} : a.reline f = b.reline f → Alike f (.group a) (.group b)
  | unary {o p : Token} {a b : Expr} : o.reline f = p.reline f → a.reline f = b.reline f →
    Alike f (.unary o a) (.unary p b)
  | binary {o p : Token} {a b c d : Expr} : a.reline f = b.reline f → o.reline f = p.reline f →
    c.reline f = d.reline f → Alike f (.binary a o c) (.binary b p d)
  | logical {o p : Token} {a b c d : Expr} : a.reline f = b.reline f → o.reline f = p.reline f →
    c.reline f = d.reline f → Alike f (.logical a o c) (.logical b p d)
  | reference {n m : Token} : n.reline f = m.reline f → Alike f (.reference n) (.reference m)
  | assign {n m : Token} {a b : Expr} : n.reline f = m.reline f → a.reline f = b.reline f →
    Alike f (.assign n a) (.assign m b)
  | call {a b : Expr} {o p : Token} {as bs : List Expr} : a.reline f = b.reline f →
    o.reline f = p.reline f → Expr.relineAll f as = Expr.relineAll f bs →
    Alike f (.call a o as) (.call b p bs)

/-- Equal on other lines, the expressions were of one kind and had equal parts. -/
theorem Expr.alike_of_reline {e e' : Expr} (h : e.reline f = e'.reline f) : e.Alike f e' := by
  -- expressions of different kinds stay different on other lines
  cases e <;> cases e' <;> simp only [Expr.reline, reduceCtorEq] at h
  case literal.literal =>
    obtain rfl := Expr.literal.inj h
    exact .literal _
  case group.group => exact .group (Expr.group.inj h)
  case unary.unary =>
    obtain ⟨ho, hright⟩ := Expr.unary.inj h
    exact .unary ho hright
  case binary.binary =>
    obtain ⟨hleft, ho, hright⟩ := Expr.binary.inj h
    exact .binary hleft ho hright
  case logical.logical =>
    obtain ⟨hleft, ho, hright⟩ := Expr.logical.inj h
    exact .logical hleft ho hright
  case reference.reference => exact .reference (Expr.reference.inj h)
  case assign.assign =>
    obtain ⟨hname, hvalue⟩ := Expr.assign.inj h
    exact .assign hname hvalue
  case call.call =>
    obtain ⟨hcallee, hparen, harguments⟩ := Expr.call.inj h
    exact .call hcallee hparen harguments

/-- The statements are built alike, from tokens and parts that are equal on other lines. -/
inductive Stmt.Alike (f : Nat → Nat) : Stmt → Stmt → Prop
  | print {a b : Expr} : a.reline f = b.reline f → Alike f (.print a) (.print b)
  | expression {a b : Expr} : a.reline f = b.reline f → Alike f (.expression a) (.expression b)
  | declare {n m : Token} {a b : Option Expr} : n.reline f = m.reline f →
    a.map (Expr.reline f) = b.map (Expr.reline f) → Alike f (.declare n a) (.declare m b)
  | block {ss us : List Stmt} : Stmt.relineAll f ss = Stmt.relineAll f us →
    Alike f (.block ss) (.block us)
  | ifThen {a b : Expr} {s u : Stmt} : a.reline f = b.reline f → s.reline f = u.reline f →
    Alike f (.ifThen a s) (.ifThen b u)
  | ifElse {a b : Expr} {s t u v : Stmt} : a.reline f = b.reline f → s.reline f = u.reline f →
    t.reline f = v.reline f → Alike f (.ifElse a s t) (.ifElse b u v)
  | whileDo {a b : Expr} {s u : Stmt} : a.reline f = b.reline f → s.reline f = u.reline f →
    Alike f (.whileDo a s) (.whileDo b u)
  | function {n m : Token} {ps qs : List Token} {ss us : List Stmt} : n.reline f = m.reline f →
    ps.map (Token.reline f) = qs.map (Token.reline f) →
    Stmt.relineAll f ss = Stmt.relineAll f us → Alike f (.function n ps ss) (.function m qs us)
  | returns {k l : Token} {a b : Option Expr} : k.reline f = l.reline f →
    a.map (Expr.reline f) = b.map (Expr.reline f) → Alike f (.returns k a) (.returns l b)

/-- Equal on other lines, the statements were of one kind and had equal parts. -/
theorem Stmt.alike_of_reline {s s' : Stmt} (h : s.reline f = s'.reline f) : s.Alike f s' := by
  cases s <;> cases s' <;> simp only [Stmt.reline, reduceCtorEq] at h
  case print.print => exact .print (Stmt.print.inj h)
  case expression.expression => exact .expression (Stmt.expression.inj h)
  case declare.declare =>
    obtain ⟨hname, hinitial⟩ := Stmt.declare.inj h
    exact .declare hname hinitial
  case block.block => exact .block (Stmt.block.inj h)
  case ifThen.ifThen =>
    obtain ⟨hcondition, hthen⟩ := Stmt.ifThen.inj h
    exact .ifThen hcondition hthen
  case ifElse.ifElse =>
    obtain ⟨hcondition, hthen, helse⟩ := Stmt.ifElse.inj h
    exact .ifElse hcondition hthen helse
  case whileDo.whileDo =>
    obtain ⟨hcondition, hbody⟩ := Stmt.whileDo.inj h
    exact .whileDo hcondition hbody
  case function.function =>
    obtain ⟨hname, hparams, hbody⟩ := Stmt.function.inj h
    exact .function hname hparams hbody
  case returns.returns =>
    obtain ⟨hkeyword, hvalue⟩ := Stmt.returns.inj h
    exact .returns hkeyword hvalue

theorem Expr.relineAll_eq_map (f : Nat → Nat) (es : List Expr) :
    Expr.relineAll f es = es.map (Expr.reline f) := by
  induction es with
  | nil => rw [Expr.relineAll, List.map_nil]
  | cons e es ih => rw [Expr.relineAll, List.map_cons, ih]

/-- Lines that were changed before are forgotten all the same. -/
theorem noLine_comp (f : Nat → Nat) : noLine ∘ f = noLine := rfl

end Lox
