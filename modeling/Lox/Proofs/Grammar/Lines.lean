import Lox.Proofs.Grammar.Basic
import Lox.Proofs.Tree.Lines

/-!
Programs one after the other, and on other lines. The grammar does not look at lines, so the tokens
of a program on other lines are a program, and its tree is the tree on these lines. Programs have no
beginning and no end of their own: the tokens of one after the tokens of another are a program.
-/

namespace Lox.Grammar

variable {f : Nat → Nat} {rule : ElseRule}

/-! ### Lines -/

theorem node_reline (f : Nat → Nat) (t : Tier) (left : Expr) (operator : Token) (right : Expr) :
    (t.node left operator right).reline f =
      t.node (left.reline f) (operator.reline f) (right.reline f) := by
  cases t <;> simp only [Tier.node, Expr.reline]

/-- A list on other lines is separated by the same commas. -/
theorem Separated.reline {α : Type} {Item : List Token → α → Prop} {g : α → α} :
    ∀ {ts : List Token} {as : List α},
    Separated (fun ts a => Item (ts.map (Token.reline f)) (g a)) ts as →
    Separated Item (ts.map (Token.reline f)) (as.map g)
  | _, _, .one h => .one h
  | _, _, .more h hcomma hs => by
    rw [List.map_append]
    exact .more h hcomma hs.reline

/-- A list on other lines has as many items. -/
theorem Items.reline {α : Type} {Item : List Token → α → Prop} {g : α → α} {ts : List Token}
    {as : List α} (h : Items (fun ts a => Item (ts.map (Token.reline f)) (g a)) ts as) :
    Items Item (ts.map (Token.reline f)) (as.map g) := by
  cases h with
  | none => exact .none
  | some h hlen => exact .some h.reline (by rwa [List.length_map])

mutual

/-- The grammar looks at the kinds of tokens, never at their lines. -/
theorem Phrase.reline : ∀ {l : Level} {ts : List Token} {e : Expr}, Phrase l ts e →
    Phrase l (ts.map (Token.reline f)) (e.reline f)
  | _, _, _, .assign hname hequals h => by
    rw [Expr.reline]
    exact .assign hname hequals h.reline
  | _, _, _, .loosest h => .loosest h.reline
  | _, _, _, .operation hl ho hr => by
    rw [node_reline, List.map_append]
    exact .operation hl.reline ho hr.reline
  | _, _, _, .operand h => .operand h.reline
  | _, _, _, .unary ho h => by
    rw [Expr.reline]
    exact .unary ho h.reline
  | _, _, _, .callee h => .callee h.reline
  | _, _, _, .call h ho hargs hc => by
    rw [Expr.reline, Expr.relineAll_eq_map, List.map_append, List.map_cons, List.map_append]
    exact .call h.reline ho (reline_arguments hargs).reline hc
  | _, _, _, .primary h => .primary h.reline
  | _, _, _, .literal h => by
    rw [Expr.reline]
    exact .literal h
  | _, _, _, .reference h => by
    rw [Expr.reline]
    exact .reference h
  | _, _, _, .group ho h hc => by
    rw [Expr.reline, List.map_cons, List.map_append]
    exact .group ho h.reline hc

theorem reline_arguments : ∀ {ts : List Token} {as : List Expr},
    Items (Phrase .expression) ts as →
    Items (fun ts e => Phrase .expression (ts.map (Token.reline f)) (e.reline f)) ts as
  | _, _, .none => .none
  | _, _, .some h hlen => .some (reline_separated h) hlen

theorem reline_separated : ∀ {ts : List Token} {as : List Expr},
    Separated (Phrase .expression) ts as →
    Separated (fun ts e => Phrase .expression (ts.map (Token.reline f)) (e.reline f)) ts as
  | _, _, .one h => .one h.reline
  | _, _, .more h hcomma hs => .more h.reline hcomma (reline_separated hs)

end

theorem Optional.reline {ts : List Token} {e : Option Expr} (h : Optional ts e) :
    Optional (ts.map (Token.reline f)) (e.map (Expr.reline f)) := by
  cases h with
  | none => exact .none
  | some h => exact .some h.reline

/-- The initial value of a variable may be missing on any line. -/
theorem Variable.reline {ts : List Token} {s : Stmt} (h : Variable ts s) :
    Variable (ts.map (Token.reline f)) (s.reline f) := by
  obtain ⟨hword, hname, hinit, hsemi⟩ := h
  rw [Stmt.reline, List.map_cons, List.map_cons, List.map_append]
  refine .declare hword hname ?_ hsemi
  cases hinit with
  | none => exact .none
  | some hequals h => exact .some hequals h.reline

theorem ForInitial.reline {ts : List Token} {s : Option Stmt} (h : ForInitial ts s) :
    ForInitial (ts.map (Token.reline f)) (s.map (Stmt.reline f)) := by
  cases h with
  | none hsemi => exact .none hsemi
  | var h => exact .var h.reline
  | expression h hsemi =>
    rw [List.map_append, Option.map_some, Stmt.reline]
    exact .expression h.reline hsemi

/-- What a loop is short for has no lines of its own. -/
theorem forTree_reline (f : Nat → Nat) (initial : Option Stmt) (test increment : Option Expr)
    (body : Stmt) : (forTree initial test increment body).reline f =
      forTree (initial.map (Stmt.reline f)) (test.map (Expr.reline f))
        (increment.map (Expr.reline f)) (body.reline f) := by
  cases initial <;> cases test <;> cases increment <;>
    simp [forTree, Stmt.reline, Stmt.relineAll, Expr.reline]

theorem Name.reline {ts : List Token} {t : Token} (h : Name ts t) :
    Name (ts.map (Token.reline f)) (t.reline f) := by
  obtain ⟨h⟩ := h
  exact .name h

mutual

/-- The words of a statement are words on any line. -/
theorem Statement.reline : ∀ {inside : Bool} {ending : Ending} {ts : List Token} {s : Stmt},
    Statement rule inside ending ts s →
    Statement rule inside ending (ts.map (Token.reline f)) (s.reline f)
  | _, _, _, _, .expression h hsemi => by
    rw [Stmt.reline, List.map_append]
    exact .expression h.reline hsemi
  | _, _, _, _, .print hw h hsemi => by
    rw [Stmt.reline, List.map_cons, List.map_append]
    exact .print hw h.reline hsemi
  | _, _, _, _, .returns hw h hsemi => by
    rw [Stmt.reline, List.map_cons, List.map_append]
    exact .returns hw h.reline hsemi
  | _, _, _, _, .block ho h hc => by
    rw [Stmt.reline, List.map_cons, List.map_append]
    exact .block ho h.reline hc
  | _, _, _, _, .whileDo hw ho h hc hs => by
    rw [Stmt.reline, List.map_cons, List.map_cons, List.map_append]
    exact .whileDo hw ho h.reline hc hs.reline
  | _, _, _, _, .forDo hw ho hi ht hsemi hu hc hs => by
    rw [forTree_reline]
    simp only [List.map_cons, List.map_append]
    exact .forDo hw ho hi.reline ht.reline hsemi hu.reline hc hs.reline
  | _, _, _, _, .ifThen hw ho h hc hs => by
    rw [Stmt.reline, List.map_cons, List.map_cons, List.map_append]
    exact .ifThen hw ho h.reline hc hs.reline
  | _, _, _, _, .ifElse hw ho h hc hs hrule he hs' => by
    rw [Stmt.reline]
    simp only [List.map_cons, List.map_append]
    exact .ifElse hw ho h.reline hc hs.reline hrule he hs'.reline

theorem Declaration.reline : ∀ {inside : Bool} {ts : List Token} {s : Stmt},
    Declaration rule inside ts s →
    Declaration rule inside (ts.map (Token.reline f)) (s.reline f)
  | _, _, _, .function hw hname ho hp hc hb hbody he => by
    rw [Stmt.reline]
    simp only [List.map_cons, List.map_append]
    exact .function hw hname ho (hp.imp fun _ _ h => h.reline).reline hc hb hbody.reline he
  | _, _, _, .var h => .var h.reline
  | _, _, _, .statement h => .statement h.reline

/-- Declarations on other lines are the declarations of that text. -/
theorem Declarations.reline : ∀ {inside : Bool} {ts : List Token} {ss : List Stmt},
    Declarations rule inside ts ss →
    Declarations rule inside (ts.map (Token.reline f)) (Stmt.relineAll f ss)
  | _, _, _, .nil => by
    rw [Stmt.relineAll]
    exact .nil
  | _, _, _, .cons h hs => by
    rw [Stmt.relineAll, List.map_append]
    exact .cons h.reline hs.reline

end

/-! ### One after the other -/

/-- A program may follow a program. -/
theorem Declarations.append {inside : Bool} : ∀ {ts us : List Token} {ss rs : List Stmt},
    Declarations rule inside ts ss → Declarations rule inside us rs →
    Declarations rule inside (ts ++ us) (ss ++ rs)
  | _, _, _, _, .nil, hr => hr
  | _, _, _, _, .cons h hs, hr => by
    rw [List.append_assoc, List.cons_append]
    exact .cons h (hs.append hr)

end Lox.Grammar
