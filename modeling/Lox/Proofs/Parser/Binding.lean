import Lox.Proofs.Sequence
import Lox.Tree.Parser.Declaration

/-!
What a body can bind. The body of a loop or of a branch is read as a statement, never as a
declaration. So it binds no name in the scope in which it runs: what it declares, it declares inside
a block of its own. This holds of every statement that is read, whether or not errors were reported
on the way.
-/

namespace Lox

/-- Whether a statement binds no name in the scope in which it runs. -/
def Stmt.bindsNothing : Stmt → Bool
  | .declare _ _ => false
  | .function _ _ _ => false
  | .ifThen _ thenBranch => thenBranch.bindsNothing
  | .ifElse _ thenBranch elseBranch => thenBranch.bindsNothing && elseBranch.bindsNothing
  | .whileDo _ body => body.bindsNothing
  | _ => true

/-- A loop declares its variable in a block of its own. -/
theorem Stmt.bindsNothing_forLoop (initial : Option Stmt) (condition : Expr)
    (increment : Option Expr) {body : Stmt} (h : body.bindsNothing = true) :
    (Stmt.forLoop initial condition increment body).bindsNothing = true := by
  cases initial <;> cases increment <;> simp [forLoop, bindsNothing, h]

namespace Parser

variable {α β : Type}

/-- Whatever the reader reads is as `P` says. -/
def Yields (P : α → Prop) (p : Parser α) : Prop := ∀ c a d, p c = .ok a d → P a

/-- The statement is what reading a statement somewhere yields. -/
def Reads (s : Stmt) : Prop := ∃ n c d, statement n c = .ok s d

theorem Yields.pure {P : α → Prop} {a : α} (h : P a) : Yields P (Pure.pure a) := by
  intro c b d hread
  cases hread
  exact h

theorem yields_stall {P : α → Prop} : Yields P stall := by
  intro c a d hread
  cases hread

/-- What is read last decides. -/
theorem Yields.bind {P : α → Prop} {Q : β → Prop} {p : Parser α} {f : α → Parser β}
    (hp : Yields P p) (hf : ∀ a, P a → Yields Q (f a)) : Yields Q (p >>= f) := by
  intro c b d hread
  obtain ⟨a, c', ha, hb⟩ := bind_eq_ok_iff.1 hread
  exact hf a (hp c a c' ha) c' b d hb

/-- A reader of which nothing is known goes first. -/
theorem Yields.after {Q : β → Prop} {p : Parser α} {f : α → Parser β}
    (hf : ∀ a, Yields Q (f a)) : Yields Q (p >>= f) :=
  Yields.bind (P := fun _ => True) (fun _ _ _ _ => trivial) fun a _ => hf a

variable {n : Nat} {reader : Parser Stmt} (h : Yields (Stmt.bindsNothing · = true) reader)

include h

theorem yields_whileStatement : Yields (Stmt.bindsNothing · = true) (whileStatement n reader) :=
  .after fun _ => h.bind fun _ hbody => .pure hbody

theorem yields_ifStatement : Yields (Stmt.bindsNothing · = true) (ifStatement n reader) := by
  refine .after fun _ => h.bind fun thenBranch hthen => .after fun hasElse => ?_
  split
  · refine h.bind fun elseBranch helse => .pure ?_
    rw [Stmt.bindsNothing, hthen, helse]
    rfl
  · exact .pure hthen

/-- The body of the loop decides, and it is a statement. -/
theorem yields_forStatement : Yields (Stmt.bindsNothing · = true) (forStatement n reader) := by
  refine .after fun _ => .after fun initial => .after fun test => .after fun _ => ?_
  refine .after fun increment => .after fun _ => h.bind fun body hbody => .pure ?_
  exact Stmt.bindsNothing_forLoop initial test increment hbody

theorem yields_statementOf (block : Parser (List Stmt)) :
    Yields (Stmt.bindsNothing · = true) (statementOf n reader block) := by
  refine .after fun next => ?_
  split
  · exact .after fun _ => yields_forStatement h
  split
  · exact .after fun _ => yields_ifStatement h
  split
  · exact .after fun _ => .after fun _ => .pure rfl
  split
  · exact .after fun _ => .after fun _ => .after fun _ => .after fun _ => .after fun _ => .pure rfl
  split
  · exact .after fun _ => yields_whileStatement h
  split
  · exact .after fun _ => .after fun _ => .pure rfl
  · exact .after fun _ => .pure rfl

omit h in
/-- A statement that was read binds nothing in the scope in which it runs. -/
theorem yields_statement : ∀ n, Yields (Stmt.bindsNothing · = true) (statement n)
  | 0 => yields_stall
  | n + 1 => by
    rw [statement]
    exact yields_statementOf (yields_statement n) _

omit h in
theorem Reads.bindsNothing {s : Stmt} (h : Reads s) : s.bindsNothing = true := by
  obtain ⟨n, c, d, hread⟩ := h
  exact yields_statement n c s d hread

end Parser

end Lox
