import Lox.Proofs.Machine.Names
import Lox.Proofs.Machine.Refolding
import Lox.Proofs.Session.Run

/-!
What a `for` loop means. It is read as a `while` loop in which the body and the increment share a
block, inside a block for the initializer. What it means can be said directly: one scope for the
whole loop, if there is an initializer, in which the condition, the body and the increment work. The
blocks that are read are the same to a program. The inner one makes a scope for every round, which
functions declared in the round remember; but a body binds nothing in it, so it stays empty.
-/

namespace Lox

open Run

/-! ### The direct meaning -/

/-- The rounds of a loop. Before each the test is made; if it fails, or the round returns, the loop
is over. One round uses up one step. -/
def rounds (test : Nat → Run Value) (round : Nat → Run Flow) : Nat → Run Flow
  | 0 => throw .outOfSteps
  | n + 1 => do
    let v ← test n
    if v.isTruthy then Run.andThen (round n) (rounds test round n) else return .normal

/-- The value of the condition of a loop. Without one the loop goes on. -/
def forTest (test : Option Expr) (n : Nat) : Run Value :=
  match test with
  | some e => eval n e
  | none => return .bool true

/-- One round of a loop: the body, and then the increment, unless the body returned. -/
def forRound (increment : Option Expr) (body : Stmt) (n : Nat) : Run Flow :=
  match increment with
  | some e => Run.andThen (exec n body) do
    let _ ← eval n e
    return .normal
  | none => exec n body

/-- A loop with its initializer, which has the whole loop in a scope with it. -/
def withInitial (initial : Option Stmt) (loop : Nat → Run Flow) (n : Nat) : Run Flow :=
  match initial with
  | some s => inNewScope (Run.andThen (exec n s) (loop n))
  | none => loop n

/-- What a `for` loop does. -/
def execFor (initial : Option Stmt) (test increment : Option Expr) (body : Stmt) (n : Nat) :
    Run Flow :=
  withInitial initial (rounds (forTest test) (forRound increment body)) n

/-! ### The loop that is read, up to the number of steps -/

/-- One round as it is read: a body with an increment has a scope of its own. -/
def scopedRound (increment : Option Expr) (body : Stmt) (n : Nat) : Run Flow :=
  match increment with
  | some _ => inNewScope (forRound increment body n)
  | none => exec n body

/-- What a `for` loop does as it is read. -/
def scopedFor (initial : Option Stmt) (test increment : Option Expr) (body : Stmt) (n : Nat) :
    Run Flow :=
  withInitial initial (rounds (forTest test) (scopedRound increment body)) n

/-- The body of the loop that is read. -/
def Stmt.loopBody (increment : Option Expr) (body : Stmt) : Stmt :=
  match increment with
  | some e => .block [body, .expression e]
  | none => body

/-- The condition of the loop that is read. -/
def Expr.loopTest (test : Option Expr) : Expr := test.getD (.literal (.bool true))

namespace Run

theorem andThen_normal (r : Run Flow) : r.andThen (return .normal) = r := by
  have hflow : r.andThen (return .normal) = r >>= pure := by
    refine bind_congr fun flow => ?_
    cases flow <;> rfl
  rw [hflow, bind_pure]

/-- A run without steps is extended by any other. -/
theorem extends_outOfSteps (r : Run Flow) : Extends r (throw .outOfSteps) :=
  fun m => .inl ⟨m, rfl⟩

theorem Extends.inNewScope {r r' : Run Flow} (h : Extends r' r) :
    Extends (inNewScope r') (inNewScope r) :=
  (Extends.refl _).bind fun _ => (Extends.refl _).bind fun inner => h.within inner

end Run

theorem exec_succ_block (n : Nat) (body : List Stmt) :
    exec (n + 1) (.block body) = inNewScope (execList (exec n) body) := by
  rw [exec]
  rfl

theorem exec_succ_expression (n : Nat) (e : Expr) : exec (n + 1) (.expression e) = do
    let _ ← eval n e
    return .normal := by
  rw [exec]

/-- The block is executed with one step less than its statement. -/
theorem exec_block_extends (n : Nat) (body : List Stmt) :
    Extends (inNewScope (execList (exec n) body)) (exec n (.block body)) := by
  cases n with
  | zero =>
    rw [exec]
    exact extends_outOfSteps _
  | succ n =>
    rw [exec_succ_block]
    exact (execList_extends (exec_extends (Nat.le_succ n)) body).inNewScope

/-- A statement and what follows it. -/
theorem execList_pair (exec : Stmt → Run Flow) (s s' : Stmt) :
    execList exec [s, s'] = (exec s).andThen (exec s') := by
  rw [execList, execList, execList, andThen_normal]

/-- A `while` loop is made of rounds. -/
theorem exec_whileDo (condition : Expr) (body : Stmt) (n : Nat) :
    exec n (.whileDo condition body) =
      rounds (fun n => eval n condition) (fun n => exec n body) n := by
  induction n with
  | zero => rw [exec, rounds]
  | succ n ih => rw [exec, rounds, ih]

/-- If every test and every round may take `k` steps more, so may the whole loop. -/
theorem rounds_extends {test test' : Nat → Run Value} {round round' : Nat → Run Flow} {k : Nat}
    (htest : ∀ n, Extends (test' (n + k)) (test n))
    (hround : ∀ n, Extends (round' (n + k)) (round n)) (n : Nat) :
    Extends (rounds test' round' (n + k)) (rounds test round n) := by
  induction n with
  | zero => exact extends_outOfSteps _
  | succ n ih =>
    rw [Nat.succ_add, rounds, rounds]
    refine (htest n).bind fun v => ?_
    split
    · exact (hround n).andThen ih
    · exact .refl _

theorem Stmt.forLoop_eq (initial : Option Stmt) (condition : Expr) (increment : Option Expr)
    (body : Stmt) : Stmt.forLoop initial condition increment body =
      match initial with
      | some s => .block [s, .whileDo condition (loopBody increment body)]
      | none => .whileDo condition (loopBody increment body) := by
  cases initial <;> cases increment <;> rfl

/-! Each part of the loop that is read takes a few steps more than what it does. -/

section Parts

variable (initial : Option Stmt) (test increment : Option Expr) (body : Stmt) (n : Nat)

theorem forTest_extends : Extends (forTest test n) (eval n (Expr.loopTest test)) := by
  cases test with
  | some e => exact .refl _
  | none =>
    cases n with
    | zero => rw [eval]; exact fun m => .inl ⟨m, rfl⟩
    | succ n => rw [Expr.loopTest, Option.getD_none, eval]; exact .refl _

theorem eval_loopTest_extends : Extends (eval (n + 2) (Expr.loopTest test)) (forTest test n) := by
  cases test with
  | some e => exact eval_extends (Nat.le_add_right n 2) e
  | none => rw [Expr.loopTest, Option.getD_none, eval]; exact .refl _

/-- A round of the loop as it is read is a block around body and increment. -/
theorem scopedRound_extends :
    Extends (scopedRound increment body n) (exec n (Stmt.loopBody increment body)) := by
  cases increment with
  | none => exact .refl _
  | some e =>
    refine (exec_block_extends n _).trans (Extends.inNewScope ?_)
    rw [execList_pair]
    refine (Extends.refl _).andThen ?_
    cases n with
    | zero => rw [exec]; exact extends_outOfSteps _
    | succ n =>
      rw [exec_succ_expression]
      exact (eval_extends (Nat.le_succ n) e).bind fun _ => .refl _

theorem exec_loopBody_extends :
    Extends (exec (n + 2) (Stmt.loopBody increment body)) (scopedRound increment body n) := by
  cases increment with
  | none => exact exec_extends (Nat.le_add_right n 2) body
  | some e =>
    rw [Stmt.loopBody, exec_succ_block, execList_pair, exec_succ_expression]
    exact ((exec_extends (Nat.le_succ n) body).andThen (.refl _)).inNewScope

/-- The loop as it is read does nothing that its direct meaning does not do, -/
theorem scopedFor_extends : Extends (scopedFor initial test increment body n)
    (exec n (Stmt.forLoop initial (Expr.loopTest test) increment body)) := by
  have hloop : Extends (rounds (forTest test) (scopedRound increment body) n)
      (exec n (.whileDo (Expr.loopTest test) (Stmt.loopBody increment body))) := by
    rw [exec_whileDo]
    exact rounds_extends (k := 0) (forTest_extends test) (scopedRound_extends increment body) n
  rw [Stmt.forLoop_eq]
  cases initial with
  | none => exact hloop
  | some s =>
    refine (exec_block_extends n _).trans (Extends.inNewScope ?_)
    rw [execList_pair]
    exact (Extends.refl _).andThen hloop

/-- and with a few steps more it does all of that. -/
theorem exec_forLoop_extends : Extends
    (exec (n + 3) (Stmt.forLoop initial (Expr.loopTest test) increment body))
    (scopedFor initial test increment body n) := by
  have hloop : Extends
      (exec (n + 2) (.whileDo (Expr.loopTest test) (Stmt.loopBody increment body)))
      (rounds (forTest test) (scopedRound increment body) n) := by
    rw [exec_whileDo]
    exact rounds_extends (eval_loopTest_extends test) (exec_loopBody_extends increment body) n
  rw [Stmt.forLoop_eq]
  cases initial with
  | none => exact hloop.trans (exec_extends (Nat.le_succ _) _)
  | some s =>
    dsimp only
    rw [exec_succ_block, execList_pair]
    exact ((exec_extends (Nat.le_add_right n 2) s).andThen hloop).inNewScope

end Parts

/-! ### The two in step -/

section InStep

variable {body : Stmt} (increment : Option Expr) (n : Nat)

theorem inStep_forTest {F : Folding} {c : ScopeId} (test : Option Expr) :
    InStep F c (Value.rescope F.image) (forTest test n) (forTest test n) := by
  cases test with
  | some e => exact inStep_eval n c e
  | none => exact .pure (Value.bool true)

theorem confines_forTest {F : Fence} (test : Option Expr) :
    F.Confines F.Holds (forTest test n) := by
  cases test with
  | some e => exact Fence.confines_eval n e
  | none => exact fun _ hm _ => Fence.ends_pure hm (Fence.holds_of_none rfl)

/-- A round goes in step also in a scope that is left out, since its body binds nothing there. -/
theorem inStep_forRound {F : Folding} {c : ScopeId} (hbody : body.bindsNothing = true) :
    InStep F c (Flow.rescope F.image) (forRound increment body n) (forRound increment body n) := by
  have hfirst : InStep F c (Flow.rescope F.image) (exec n body) (exec n body) :=
    inStep_exec n (.inl hbody)
  cases increment with
  | some e => exact hfirst.andThen ((inStep_eval n c e).bind fun _ => inStep_normal)
  | none => exact hfirst

theorem confines_forRound {F : Fence} (body : Stmt) :
    F.Confines F.HoldsFlow (forRound increment body n) := by
  have hfirst : F.Confines F.HoldsFlow (exec n body) := Fence.confines_exec n body
  cases increment with
  | some e =>
    exact hfirst.andThen ((Fence.confines_eval n e).bind fun _ m hm hc _ =>
      Fence.confines_normal m hm hc)
  | none => exact hfirst

/-- The scope of a round is inside like the one around it. -/
theorem confines_scopedRound {F : Fence} (body : Stmt) :
    F.Confines F.HoldsFlow (scopedRound increment body n) := by
  cases increment with
  | some e =>
    intro m hm hc
    exact Fence.ends_newScope (confines_forRound (some e) n body) hm hc []
      (by simp [Fence.HoldsAll])
  | none => exact Fence.confines_exec n body

/-- The scope around body and increment stays empty, so it can be left out. -/
theorem refolds_scopedRound (hbody : body.bindsNothing = true) :
    Refolds (scopedRound increment body n) (forRound increment body n) := by
  cases increment with
  | some e => exact refolds_inNewScope fun _ _ => inStep_forRound (some e) n hbody
  | none => exact .of_inStep fun _ _ _ => inStep_forRound none n hbody

/-- Whole loops go in step if their rounds do: what was left out in one round stays so. -/
theorem refolds_rounds {test : Nat → Run Value} {round round' : Nat → Run Flow}
    (htest : ∀ n F c, InStep F c (Value.rescope F.image) (test n) (test n))
    (hholds : ∀ n, Fence.everything.Confines Fence.everything.Holds (test n))
    (hround : ∀ n, Refolds (round n) (round' n))
    (hconfines : ∀ n, Fence.everything.Confines Fence.everything.HoldsFlow (round n)) :
    Refolds (rounds test round n) (rounds test round' n) := by
  induction n with
  | zero =>
    intro F m m' hm
    exact ⟨F, .refl F _, .error hm.folded⟩
  | succ n ih =>
    intro F m m' hm
    have hvalue : Refolded Value.rescope F m (test n m) (test n m') :=
      ⟨F, .refl F _, htest n F m.current m m' hm.folded⟩
    rw [rounds, rounds]
    -- the folding grows from round to round, so the rest of the loop starts with another one
    refine hvalue.bind hm (hholds n) fun v F m m' hm => ?_
    rw [Value.isTruthy_rescope]
    split
    · exact (hround n).andThen (hconfines n) ih F m m' hm
    · exact refolds_normal F m m' hm

theorem refolds_withInitial {loop loop' : Nat → Run Flow} (h : Refolds (loop n) (loop' n))
    (initial : Option Stmt) :
    Refolds (withInitial initial loop n) (withInitial initial loop' n) := by
  cases initial with
  | some s =>
    have hinitial : Refolds (exec n s) (exec n s) :=
      .of_inStep fun _ _ hc => inStep_exec n (.inr hc)
    exact (hinitial.andThen (Fence.confines_exec n s) h).inNewScope
  | none => exact h

/-- The loop as it is read goes in step with its direct meaning. -/
theorem refolds_scopedFor (hbody : body.bindsNothing = true) (initial : Option Stmt)
    (test : Option Expr) :
    Refolds (scopedFor initial test increment body n)
      (execFor initial test increment body n) := by
  refine refolds_withInitial n ?_ initial
  refine refolds_rounds n (fun n _ _ => inStep_forTest n test) (fun n => confines_forTest n test)
    (fun n => refolds_scopedRound increment n hbody) fun n => ?_
  exact confines_scopedRound increment n body

end InStep

/-! ### What is seen of a loop -/

/-- The outcome with its answer mapped. -/
def Outcome.map {α : Type} (k : α → α) : Outcome α → Outcome α
  | ok a => ok (k a)
  | error e => error e

/-- Of two runs in step both end or none does, and both end alike. -/
theorem Run.FoldedResult.perform {α : Type} {F : Folding} {c : ScopeId} {k : α → α} {r r' : Run α}
    {m m' : Machine} (h : FoldedResult F c k (r m) (r' m')) :
    m.perform r = none ∧ m'.perform r' = none ∨
      ∃ o m₁ m₁', m.perform r = some (o, m₁) ∧ m'.perform r' = some (o.map k, m₁') ∧
        m₁.Folded F c m₁' := by
  unfold Machine.perform
  generalize r m = x at h
  generalize r' m' = y at h
  cases h with
  | @ok a m₁ m₁' hm₁ => exact .inr ⟨.ok a, m₁, m₁', rfl, rfl, hm₁⟩
  | @error s m₁ m₁' hm₁ =>
    cases s with
    | error e => exact .inr ⟨.error e, m₁, m₁', rfl, rfl, hm₁⟩
    | outOfSteps => exact .inl ⟨rfl, rfl⟩

namespace Parser

/-- An expression in front of a mark. Where the mark comes at once, there is none. -/
inductive ReadsClause (n : Nat) (mark : Symbol) (c : Cursor) : Option Expr → Cursor → Prop
  | missing : c.sees mark = true → ReadsClause n mark c none c
  | given {e : Expr} {d : Cursor} : c.sees mark = false → expression n c = .ok e d →
    ReadsClause n mark c (some e) d

/-- The clauses of a `for` loop and its body, each read where the one before it ended. -/
inductive ReadsFor (n : Nat) (c d : Cursor) (initial : Option Stmt)
    (test increment : Option Expr) (body : Stmt) : Prop
  | clauses {opening semicolon closing : Token} {c₁ c₂ c₃ c₄ c₅ c₆ : Cursor} :
    expect .leftParen .parenAfterFor c = .ok opening c₁ → forInitial n c₁ = .ok initial c₂ →
    ReadsClause n .semicolon c₂ test c₃ →
    expect .semicolon .semicolonAfterLoopCondition c₃ = .ok semicolon c₄ →
    ReadsClause n .rightParen c₄ increment c₅ →
    expect .rightParen .parenAfterForClauses c₅ = .ok closing c₆ →
    statement n c₆ = .ok body d → ReadsFor n c d initial test increment body

variable {α : Type} {n : Nat} {c d : Cursor}

/-- Either the closing token is seen, or the clause is read. -/
theorem unlessSeen_eq_ok_iff {mark : Symbol} {a b : α} {p : Parser α} :
    unlessSeen mark a p c = .ok b d ↔
      (c.sees mark = true ∧ a = b ∧ c = d) ∨ (c.sees mark = false ∧ p c = .ok b d) := by
  rw [unlessSeen_apply]
  cases c.sees mark <;> simp

/-- A missing test is one that always holds. -/
theorem readsClause_test {test : Expr} :
    unlessSeen .semicolon (.literal (.bool true)) (expression n) c = .ok test d ↔
      ∃ clause, ReadsClause n .semicolon c clause d ∧ test = Expr.loopTest clause := by
  rw [unlessSeen_eq_ok_iff]
  constructor
  · rintro (⟨hsees, rfl, rfl⟩ | ⟨hsees, hread⟩)
    · exact ⟨none, .missing hsees, rfl⟩
    · exact ⟨some test, .given hsees hread, rfl⟩
  · rintro ⟨clause, hclause, rfl⟩
    cases hclause with
    | missing hsees => exact .inl ⟨hsees, rfl, rfl⟩
    | given hsees hread => exact .inr ⟨hsees, hread⟩

theorem readsClause_increment {increment : Option Expr} :
    unlessSeen .rightParen none (some <$> expression n) c = .ok increment d ↔
      ReadsClause n .rightParen c increment d := by
  rw [unlessSeen_eq_ok_iff, map_eq_ok_iff]
  constructor
  · rintro (⟨hsees, rfl, rfl⟩ | ⟨hsees, e, hread, rfl⟩)
    · exact .missing hsees
    · exact .given hsees hread
  · rintro (hsees | ⟨hsees, hread⟩)
    · exact .inl ⟨hsees, rfl, rfl⟩
    · exact .inr ⟨hsees, _, hread, rfl⟩

/-- What is read after `for` is the loop of the clauses that are read there, around a body that is
read as a statement. -/
theorem forStatement_eq_ok_iff {s : Stmt} :
    forStatement n (statement n) c = .ok s d ↔ ∃ initial test increment body,
      ReadsFor n c d initial test increment body ∧ Reads body ∧
        s = Stmt.forLoop initial (Expr.loopTest test) increment body := by
  simp only [forStatement, bind_eq_ok_iff, readsClause_test, readsClause_increment]
  constructor
  · rintro ⟨opening, c₁, hopening, initial, c₂, hinitial, _, c₃, ⟨test, htest, rfl⟩, semicolon, c₄,
      hsemicolon, increment, c₅, hincrement, closing, c₆, hclosing, body, c₇, hbody, ⟨⟩⟩
    exact ⟨initial, test, increment, body,
      .clauses hopening hinitial htest hsemicolon hincrement hclosing hbody, ⟨n, _, _, hbody⟩, rfl⟩
  · rintro ⟨initial, test, increment, body,
      ⟨hopening, hinitial, htest, hsemicolon, hincrement, hclosing, hbody⟩, -, rfl⟩
    exact ⟨_, _, hopening, initial, _, hinitial, _, _, ⟨test, htest, rfl⟩, _, _, hsemicolon,
      increment, _, hincrement, _, _, hclosing, body, _, hbody, rfl⟩

end Parser

namespace Machine

/-- However many steps each is granted, two runs of a statement that both end do the same. -/
theorem execute_unique {m : Machine} {n n' : Nat} {s : Stmt} {x y : Outcome Flow × Machine}
    (hx : m.execute n s = some x) (hy : m.execute n' s = some y) : x = y := by
  have hx' := perform_of_extends (exec_extends (Nat.le_max_left n n') s) hx
  have hy' := perform_of_extends (exec_extends (Nat.le_max_right n n') s) hy
  exact Option.some.inj (hx'.symm.trans hy')

/-- A `for` loop is read as the statement made of its clauses, which does what the loop means. If
the body is one that can be read, then from every machine whose scopes are all there, as they are in
a new one and after every statement, the statement ends if and only if the loop does, and then with
the same outcome and the same output, and with the same bindings in every scope that was there
before. Functions are the same up to scopes that bind nothing: what was there before stays where it
was, and among the scopes made since, some that are empty are left out. -/
theorem forLoop_means_execFor :
    (∀ (sink : Sink) (clock : Nat → Option Float), (new sink clock).WellFormed) ∧
    (∀ (m m' : Machine) (n : Nat) (s : Stmt) (o : Outcome Flow), m.WellFormed →
      m.execute n s = some (o, m') → m'.WellFormed) ∧
    (∀ (n : Nat) (c d : Cursor) (s : Stmt),
      Parser.forStatement n (Parser.statement n) c = .ok s d ↔
      ∃ initial test increment body, Parser.ReadsFor n c d initial test increment body ∧
        Parser.Reads body ∧ s = Stmt.forLoop initial (Expr.loopTest test) increment body) ∧
    (∀ (initial : Option Stmt) (test increment : Option Expr) (body : Stmt) (m : Machine),
      Parser.Reads body → m.WellFormed →
      ((∃ n o m₁, m.execute n (Stmt.forLoop initial (Expr.loopTest test) increment body) =
          some (o, m₁)) ↔
        ∃ n o m₁, m.perform (execFor initial test increment body n) = some (o, m₁)) ∧
      ∀ (n n' : Nat) (o o' : Outcome Flow) (m₁ m₁' : Machine),
        m.execute n (Stmt.forLoop initial (Expr.loopTest test) increment body) = some (o, m₁) →
        m.perform (execFor initial test increment body n') = some (o', m₁') →
        ∃ F : Folding, (∀ i < m.store.size, F.image i = i ∧ ¬F.extra i) ∧
          o' = o.map (Flow.rescope F.image) ∧ m₁'.sink = m₁.sink ∧
          (∀ i < m.store.size, ∀ name,
            m₁'.store.own? i name = (m₁.store.own? i name).map (Value.rescope F.image)) ∧
          m₁.Folded F m.current m₁') := by
  refine ⟨wellFormed_new, fun m m' n s o hm => hm.execute,
    fun n c d s => Parser.forStatement_eq_ok_iff, ?_⟩
  intro initial test increment body m hbody hm
  -- the loop is compared with one that has the scopes of the statement, and that with the statement
  have hstep : ∀ n, Refolded Flow.rescope .none m (scopedFor initial test increment body n m)
      (execFor initial test increment body n m) := fun n =>
    refolds_scopedFor increment n hbody.bindsNothing initial test .none m m hm.aligned
  refine ⟨⟨?_, ?_⟩, ?_⟩
  · rintro ⟨n, o, m₁, hrun⟩
    have hscoped := perform_of_extends (scopedFor_extends initial test increment body n) hrun
    obtain ⟨F, -, hresult⟩ := hstep n
    rcases hresult.perform with ⟨hnone, -⟩ | ⟨_, _, m₁', -, hdirect, -⟩
    · rw [hnone] at hscoped
      cases hscoped
    · exact ⟨n, _, m₁', hdirect⟩
  · rintro ⟨n, o, m₁', hdirect⟩
    obtain ⟨F, -, hresult⟩ := hstep n
    rcases hresult.perform with ⟨-, hnone⟩ | ⟨o, m₁, _, hscoped, -, -⟩
    · rw [hnone] at hdirect
      cases hdirect
    · have hrun := perform_of_extends (exec_forLoop_extends initial test increment body n) hscoped
      exact ⟨n + 3, o, m₁, hrun⟩
  · intro n n' o o' m₁ m₁' hrun hdirect
    obtain ⟨F, hagrees, hresult⟩ := hstep n'
    rcases hresult.perform with ⟨-, hnone⟩ | ⟨o₂, m₂, m₂', hscoped, hdirect', hfolded⟩
    · rw [hnone] at hdirect
      cases hdirect
    · -- with enough steps the statement ends as the scoped loop does, and it ends in one way only
      have hrun' := perform_of_extends (exec_forLoop_extends initial test increment body n') hscoped
      cases execute_unique hrun hrun'
      cases hdirect.symm.trans hdirect'
      have hbefore : ∀ i < m.store.size, F.image i = i ∧ ¬F.extra i := by
        intro i hi
        obtain ⟨himage, hextra⟩ := hagrees i hi
        exact ⟨himage, fun h => hextra.1 h⟩
      refine ⟨F, hbefore, rfl, hfolded.sink, fun i hi name => ?_, hfolded⟩
      obtain ⟨himage, hextra⟩ := hbefore i hi
      have hown := hfolded.store.own i name hextra
      rwa [himage] at hown

/-- A name on the first line. -/
def nameToken (name : String) : Token := ⟨.identifier, name, 1⟩

/-- A symbol on the first line. -/
def symbolToken (s : Symbol) : Token := ⟨.symbol s, s.spelling, 1⟩

/-- A block that declares a function and keeps it among the globals. -/
def keeping : Stmt :=
  .block [.function (nameToken "f") [] [],
    .expression (.assign (nameToken "clock") (.reference (nameToken "f")))]

theorem reads_keeping : Parser.Reads keeping := by
  let tokens := [symbolToken .leftBrace, symbolToken .funWord, nameToken "f",
    symbolToken .leftParen, symbolToken .rightParen, symbolToken .leftBrace,
    symbolToken .rightBrace, nameToken "clock", symbolToken .equal, nameToken "f",
    symbolToken .semicolon, symbolToken .rightBrace]
  exact ⟨14, { previous := symbolToken .leftBrace, rest := tokens }, _, rfl⟩

/-- The loop that is read has one scope more, so the function that is kept remembers another. -/
theorem forLoop_means_execFor_keeping :
    let initial : Option Stmt := some (.declare (nameToken "go") (some (.literal (.bool true))))
    let test : Option Expr := some (.reference (nameToken "go"))
    let increment : Option Expr := some (.assign (nameToken "go") (.literal (.bool false)))
    ∃ (o o' : Outcome Flow) (m m' : Machine), unused.WellFormed ∧ Parser.Reads keeping ∧
      unused.execute 12 (Stmt.forLoop initial (Expr.loopTest test) increment keeping) =
        some (o, m) ∧
      unused.perform (execFor initial test increment keeping 12) = some (o', m') ∧
      o.errors = [] ∧ (m.store.own? 0 "clock").bind Value.scope? = some 3 ∧
      (m'.store.own? 0 "clock").bind Value.scope? = some 2 ∧
      ∃ F : Folding, o' = o.map (Flow.rescope F.image) ∧
        m'.store.own? 0 "clock" = (m.store.own? 0 "clock").map (Value.rescope F.image) := by
  intro initial test increment
  have hread : (unused.execute 12
      (Stmt.forLoop initial (Expr.loopTest test) increment keeping)).map (fun x =>
        (x.1.errors, (x.2.store.own? 0 "clock").bind Value.scope?)) = some ([], some 3) := by
    decide +kernel
  have hdirect : (unused.perform (execFor initial test increment keeping 12)).map (fun x =>
      (x.2.store.own? 0 "clock").bind Value.scope?) = some (some 2) := by
    decide +kernel
  obtain ⟨⟨o, m⟩, hrun, heq⟩ := Option.map_eq_some_iff.1 hread
  obtain ⟨⟨o', m'⟩, hrun', hscope'⟩ := Option.map_eq_some_iff.1 hdirect
  obtain ⟨herrors, hscope⟩ := Prod.mk.inj heq
  have hunused : unused.WellFormed := wellFormed_new {} _
  obtain ⟨F, -, houtcome, -, hown, -⟩ := (forLoop_means_execFor.2.2.2 initial test increment
    keeping unused reads_keeping hunused).2 12 12 o o' m m' hrun hrun'
  exact ⟨o, o', m, m', hunused, reads_keeping, hrun, hrun', herrors, hscope, hscope', F, houtcome,
    hown 0 (by decide +kernel) "clock"⟩

end Machine

end Lox
