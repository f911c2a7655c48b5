import Lox.Proofs.Machine.Moves
import Lox.Proofs.Scope.Chain
import Lox.Session

/-!
The machine comes back to the scope in which it was working. Blocks and calls work in scopes of
their own, and each puts the scope around it back, whether its statements end normally, return or
fail. So a session, whatever is done in it, works in the scope of the globals whenever it waits for
the next text.
-/

namespace Lox

namespace Machine

variable {α : Type} {m m' : Machine}

theorem perform_eq_some {r : Run α} {outcome : Outcome α}
    (h : m.perform r = some (outcome, m')) : m' = Run.stop (r m) := by
  unfold perform at h
  split at h
  · next hr =>
    cases h
    rw [hr]
    rfl
  · next hr =>
    cases h
    rw [hr]
    rfl
  · cases h

theorem moves_of_perform {R : Machine → Machine → Prop} {r : Run α} {outcome : Outcome α}
    (hr : Run.Moves R r) (h : m.perform r = some (outcome, m')) : R m m' := by
  rw [perform_eq_some h]
  exact hr m

/-- The two machines work in the same scope. -/
def SameScope (m m' : Machine) : Prop := m'.current = m.current

theorem sameScope_stable : Run.Stable SameScope SameScope where
  refl _ := rfl
  trans h h' := h'.trans h
  transStatement h h' := h'.trans h
  ofExpression h := h
  assign _ _ _ _ _ := rfl
  count _ := rfl
  print _ _ := rfl
  read _ := rfl
  define _ _ _ := rfl
  enter _ := rfl

/-- A block in any scope comes back, whatever its statements do. -/
theorem sameScope_execBlock (exec : Stmt → Run Flow) (scope : ScopeId) (body : List Stmt) :
    Run.Moves SameScope (execBlock exec scope body) := by
  intro m
  rw [execBlock, Run.stop_within]
  rfl

theorem sameScope_execute {steps : Nat} {s : Stmt} {outcome : Outcome Flow}
    (h : m.execute steps s = some (outcome, m')) : SameScope m m' :=
  moves_of_perform (sameScope_stable.exec steps s) h

theorem sameScope_executeBlock {steps : Nat} {parent : ScopeId} {body : List Stmt}
    {outcome : Outcome Flow} (h : m.executeBlock steps parent body = some (outcome, m')) :
    SameScope m m' :=
  moves_of_perform (sameScope_stable.newBlock (sameScope_stable.exec steps) parent [] [] body) h

theorem sameScope_call {steps : Nat} {f : Callable} {arguments : List Value}
    {outcome : Outcome Value} (h : m.call steps f arguments = some (outcome, m')) :
    SameScope m m' :=
  moves_of_perform (sameScope_stable.invoke (sameScope_stable.exec steps) f arguments) h

theorem current_defineNative (m : Machine) (f : Native) :
    (m.defineNative f).current = m.current := rfl

theorem current_foldl_defineNative (fs : List Native) (m : Machine) :
    (fs.foldl defineNative m).current = m.current := by
  induction fs generalizing m with
  | nil => rfl
  | cons f fs ih => rw [List.foldl_cons, ih, current_defineNative]

/-- A new machine works in the scope of the globals. -/
theorem current_new (sink : Sink) (clock : Nat → Option Float) :
    (new sink clock).current = globalScope := by
  rw [new, current_foldl_defineNative]

end Machine

namespace Session

open Machine

/-- What can be done in a session: a text or statements are run, a statement or a block is executed
in any scope, or any function is called. The reports may be taken or changed at any time. -/
inductive Step : Session → Session → Prop
  | run {s t : Session} {steps : Nat} {text : String} : s.run steps text = some t → Step s t
  | interpret {s t : Session} {steps : Nat} {statements : List Stmt} :
    s.interpret steps statements = some t → Step s t
  | execute {s : Session} {steps : Nat} {statement : Stmt} {outcome : Outcome Flow} {m : Machine} :
    s.machine.execute steps statement = some (outcome, m) → Step s { s with machine := m }
  | executeBlock {s : Session} {steps : Nat} {scope : ScopeId} {body : List Stmt}
      {outcome : Outcome Flow} {m : Machine} :
    s.machine.perform (execBlock (exec steps) scope body) = some (outcome, m) →
    Step s { s with machine := m }
  | executeNewBlock {s : Session} {steps : Nat} {parent : ScopeId} {body : List Stmt}
      {outcome : Outcome Flow} {m : Machine} :
    s.machine.executeBlock steps parent body = some (outcome, m) → Step s { s with machine := m }
  | call {s : Session} {steps : Nat} {f : Callable} {arguments : List Value}
      {outcome : Outcome Value} {m : Machine} :
    s.machine.call steps f arguments = some (outcome, m) → Step s { s with machine := m }
  | report {s : Session} {diagnostics : Diagnostics} : Step s { s with diagnostics }

/-- The sessions that finitely many steps lead to. -/
inductive Reachable : Session → Prop
  | new (sink : Sink) (clock : Nat → Option Float) : Reachable { machine := .new sink clock }
  | step {s t : Session} : Reachable s → Step s t → Reachable t

theorem sameScope_interpret {s t : Session} {steps : Nat} {statements : List Stmt}
    (h : s.interpret steps statements = some t) : SameScope s.machine t.machine := by
  obtain ⟨⟨outcome, m⟩, hperform, rfl⟩ := Option.map_eq_some_iff.1 h
  exact moves_of_perform
    (sameScope_stable.execList (sameScope_stable.exec steps) statements) hperform

/-- No step leaves the scope. -/
theorem Step.sameScope {s t : Session} (h : Step s t) : SameScope s.machine t.machine := by
  cases h with
  | run h =>
    unfold Session.run at h
    dsimp only at h
    split at h
    · cases h
      rfl
    · have hsame := sameScope_interpret h
      exact hsame
  | interpret h => exact sameScope_interpret h
  | execute h => exact sameScope_execute h
  | executeBlock h => exact moves_of_perform (sameScope_execBlock _ _ _) h
  | executeNewBlock h => exact sameScope_executeBlock h
  | call h => exact sameScope_call h
  | report => rfl

/-- The machine of every session works in the scope of the globals. -/
theorem Reachable.current {s : Session} (h : Reachable s) : s.machine.current = globalScope := by
  induction h with
  | new sink clock => exact current_new sink clock
  | step _ hstep ih => exact hstep.sameScope.trans ih

end Session

namespace Machine

/-- Whatever is evaluated, executed or called, if it ends, with a value, normally, with a return or
with an error, the machine works in the scope in which it worked before. So every session works in
the scope of the globals between its steps. -/
theorem current_scope_restored :
    (∀ (m m' : Machine) (steps : Nat) (e : Expr) (outcome : Outcome Value),
      m.perform (eval steps e) = some (outcome, m') → m'.current = m.current) ∧
    (∀ (m m' : Machine) (steps : Nat) (s : Stmt) (outcome : Outcome Flow),
      m.execute steps s = some (outcome, m') → m'.current = m.current) ∧
    (∀ (m m' : Machine) (steps : Nat) (scope : ScopeId) (body : List Stmt)
      (outcome : Outcome Flow), m.perform (execBlock (exec steps) scope body) = some (outcome, m') →
      m'.current = m.current) ∧
    (∀ (m m' : Machine) (steps : Nat) (f : Callable) (arguments : List Value)
      (outcome : Outcome Value), m.call steps f arguments = some (outcome, m') →
      m'.current = m.current) ∧
    (∀ s : Session, s.Reachable → s.machine.current = globalScope) := by
  refine ⟨?_, ?_, ?_, ?_, ?_⟩
  · intro m m' steps e outcome h
    exact moves_of_perform (sameScope_stable.eval steps e) h
  · intro m m' steps s outcome h
    exact sameScope_execute h
  · intro m m' steps scope body outcome h
    exact moves_of_perform (sameScope_execBlock (exec steps) scope body) h
  · intro m m' steps f arguments outcome h
    exact sameScope_call h
  · intro s hs
    exact hs.current

/-- A machine that has run nothing yet, without a clock. -/
def unused : Machine := .new {} fun _ => none

/-- A block inside a block that calls what is no function. -/
def failingBlocks : Stmt :=
  .block [.block [.expression (.call (.literal .nil) ⟨.symbol .rightParen, ")", 2⟩ [])]]

theorem current_scope_restored_failingBlocks : ∃ (e : RuntimeError) (m : Machine),
    unused.execute 5 failingBlocks = some (.error e, m) ∧ e.fault = .notCallable ∧
      unused.store.size = 1 ∧ m.store.size = 3 ∧ m.current = globalScope := by
  have hsize : unused.store.size = 1 := by decide +kernel
  have heval : (unused.execute 5 failingBlocks).map (fun x => (x.1.errors, x.2.store.size)) =
      some ([.located ⟨.symbol .rightParen, ")", 2⟩ .notCallable], 3) := by decide +kernel
  obtain ⟨⟨outcome, m⟩, hrun, heq⟩ := Option.map_eq_some_iff.1 heval
  obtain ⟨herrors, hsize'⟩ := Prod.mk.inj heq
  cases outcome with
  | ok flow => cases herrors
  | error e =>
    cases herrors
    have hsame := current_scope_restored.2.1 unused m 5 failingBlocks _ hrun
    exact ⟨_, m, hrun, rfl, hsize, hsize', hsame.trans (current_new {} _)⟩

end Machine

end Lox
