import Lox.Proofs.Machine.Current
import Lox.Proofs.Machine.Operator

/-!
Where an error comes from. A run is made of tasks: to evaluate an expression it starts to evaluate
the operands, to execute a statement it starts to execute the statements inside, and so on down to
the few small tasks in which something can go wrong. `Starts` says which task starts which others,
in which machine, and whether a call lies between them; `Within` follows it over any number of
tasks and keeps the calls passed through, innermost first.

The main result says that a task fails if and only if a small task somewhere within it fails. Its
error is the error of that small task, placed at the innermost call around it if it had no place;
and its machine is the machine which the small task left, back in the scope of the task. So nothing
is done after the failure, and nothing on the way holds the error up.
-/

namespace Lox

variable {α β : Type}

/-! ### Failing computations -/

/-- The computation ends with an error. -/
def Run.Fails (r : Run α) (m : Machine) (e : RuntimeError) (m' : Machine) : Prop :=
  r m = .error (.error e) m'

namespace Run

variable {m m' : Machine} {e : RuntimeError}

theorem not_fails_pure (a : α) : ¬Fails (pure a) m e m' := by
  intro h
  cases h

theorem not_fails_outOfSteps : ¬Fails (throw .outOfSteps : Run α) m e m' := by
  intro h
  cases h

/-- A sequence fails in its first part, or in its second part on the machine that the first part
left. -/
theorem fails_bind_iff {r : Run α} {f : α → Run β} : Fails (r >>= f) m e m' ↔
    Fails r m e m' ∨ ∃ a m₁, r m = .ok a m₁ ∧ Fails (f a) m₁ e m' := by
  unfold Fails
  cases h : r m with
  | ok a m₁ =>
    rw [bind_of_ok h]
    constructor
    · intro hf
      exact .inr ⟨a, m₁, rfl, hf⟩
    · rintro (hr | ⟨a', m₁', hr, hf⟩)
      · cases hr
      · cases hr
        exact hf
  | error s m₁ =>
    rw [bind_of_error h]
    constructor
    · intro hr
      cases hr
      exact .inl rfl
    · rintro (hr | ⟨a, m₁', hr, -⟩)
      · cases hr
        rfl
      · cases hr

/-- What only gives back an answer does not fail. -/
theorem fails_bind_pure_iff {r : Run α} {f : α → β} :
    Fails (r >>= fun a => pure (f a)) m e m' ↔ Fails r m e m' := by
  rw [fails_bind_iff]
  refine ⟨fun h => h.resolve_right ?_, .inl⟩
  rintro ⟨a, m₁, -, hf⟩
  exact not_fails_pure (f a) hf

theorem fails_andThen_iff {r next : Run Flow} : Fails (r.andThen next) m e m' ↔
    Fails r m e m' ∨ ∃ m₁, r m = .ok .normal m₁ ∧ Fails next m₁ e m' := by
  rw [andThen, fails_bind_iff]
  refine or_congr_right ⟨?_, ?_⟩
  · rintro ⟨flow, m₁, hr, hf⟩
    cases flow with
    | normal => exact ⟨m₁, hr, hf⟩
    | returned v => exact absurd hf (not_fails_pure _)
  · rintro ⟨m₁, hr, hf⟩
    exact ⟨.normal, m₁, hr, hf⟩

theorem fails_within_iff {scope : ScopeId} {r : Run α} : Fails (within scope r) m e m' ↔
    ∃ m₀, Fails r { m with current := scope } e m₀ ∧ m' = { m₀ with current := m.current } := by
  unfold Fails
  cases h : r { m with current := scope } with
  | ok a m₀ => simp [within_of_ok h]
  | error s m₀ =>
    rw [within_of_error h]
    constructor
    · intro heq
      cases heq
      exact ⟨m₀, rfl, rfl⟩
    · rintro ⟨m₁, heq, rfl⟩
      cases heq
      rfl

theorem fails_orAt_iff {token : Token} {r : Run α} : Fails (orAt token r) m e m' ↔
    ∃ e₀, Fails r m e₀ m' ∧ e = e₀.orAt token := by
  unfold Fails orAt
  cases h : r m with
  | ok a m₁ => simp
  | error s m₁ =>
    cases s with
    | outOfSteps => simp
    | error e₁ =>
      constructor
      · intro heq
        cases heq
        exact ⟨e₁, rfl, rfl⟩
      · rintro ⟨e₀, heq, rfl⟩
        cases heq
        rfl

theorem fails_ofFault {token : Token} {x : Except RuntimeFault α}
    (h : Fails (ofFault token x) m e m') :
    ∃ fault, x = .error fault ∧ e = .located token fault := by
  cases x with
  | ok a => exact absurd h (not_fails_pure a)
  | error fault =>
    cases h
    exact ⟨fault, rfl, rfl⟩

theorem fails_lookup {name : Token} (h : Fails (lookup name) m e m') :
    e = Store.undefined name := by
  unfold Fails lookup Store.lookup at h
  cases hget : m.store.get? m.current name.lexeme with
  | some v =>
    rw [hget] at h
    cases h
  | none =>
    rw [hget] at h
    cases h
    rfl

theorem fails_assign {name : Token} {value : Value} (h : Fails (assign name value) m e m') :
    e = Store.undefined name := by
  unfold Fails assign at h
  split at h
  · cases h
  · cases h
    rfl

theorem fails_callNative {f : Native} {arguments : List Value}
    (h : Fails (callNative f arguments) m e m') :
    e = .unlocated .clockBeforeEpoch ∨ e = .unlocated .absOfNonNumber := by
  unfold Fails callNative at h
  split at h
  · unfold readClock at h
    dsimp only at h
    split at h
    · cases h
    · cases h
      exact .inl rfl
  · cases h
  · cases h
    exact .inr rfl
  · cases h

/-- A call of a declared function fails if its body does, in the new scope. -/
theorem fails_invoke_iff {exec : Stmt → Run Flow} {name : Token} {params : List Token}
    {ss : List Stmt} {scope : ScopeId} {vs : List Value} :
    Fails (invoke exec (.closure name params ss scope) vs) m e m' ↔
      ∃ m₀, Fails (execList exec ss) (m.entered scope (params.map Token.lexeme) vs) e m₀ ∧
        m' = { m₀ with current := m.current } := by
  rw [invoke, Fails, openScope_bind]
  exact fails_bind_pure_iff.trans fails_within_iff

/-- A block fails if its statements do, in the new scope. -/
theorem fails_block_iff {n : Nat} {ss : List Stmt} : Fails (exec (n + 1) (.block ss)) m e m' ↔
    ∃ m₀, Fails (execList (exec n) ss) (m.entered m.current [] []) e m₀ ∧
      m' = { m₀ with current := m.current } := by
  rw [exec]
  exact fails_within_iff

end Run

/-! ### Tasks -/

/-- What a run sets out to do. The first five tasks are made of others. The others are small: to
apply an operator to values, to look up a name or give it a value, to refuse a call of what is no
function or of a function with another number of parameters, to call a native function, and to
print. -/
inductive Task where
  | eval (e : Expr)
  | evalAll (es : List Expr)
  | exec (s : Stmt)
  | execAll (ss : List Stmt)
  | body (params : List Token) (ss : List Stmt)
  | unary (operator : Token) (v : Value)
  | binary (operator : Token) (v w : Value)
  | lookup (name : Token)
  | assign (name : Token) (value : Value)
  | notCallable (paren : Token)
  | wrongArity (paren : Token) (expected actual : Nat)
  | native (f : Native) (arguments : List Value)
  | print (text : String)

namespace Task

/-- Whether a task starts no others. -/
def isSmall : Task → Bool
  | eval _ | evalAll _ | exec _ | execAll _ | body _ _ => false
  | _ => true

/-- The task, done with the given number of steps, ends with an error. -/
def Fails (n : Nat) : Task → Machine → RuntimeError → Machine → Prop
  | eval e => (Lox.eval n e).Fails
  | evalAll es => (evalList (Lox.eval n) es).Fails
  | exec s => (Lox.exec n s).Fails
  | execAll ss => (execList (Lox.exec n) ss).Fails
  | body _ ss => (execList (Lox.exec n) ss).Fails
  | unary operator v => (Run.ofFault operator (applyUnary operator v)).Fails
  | binary operator v w => (Run.ofFault operator (applyBinary operator v w)).Fails
  | lookup name => (Run.lookup name).Fails
  | assign name value => (Run.assign name value).Fails
  | notCallable paren => (Run.fail (.located paren .notCallable) : Run Value).Fails
  | wrongArity paren expected actual =>
    (Run.fail (.located paren (.wrongArity expected actual)) : Run Value).Fails
  | native f arguments => (callNative f arguments).Fails
  | print text => (Run.printLine text).Fails

/-- Whether a task belongs to an expression, calls of functions left out. -/
def isExpression : Task → Bool
  | exec _ | execAll _ | body _ _ | native _ _ | print _ => false
  | _ => true

/-- How many tasks of the same number of steps a task starts in a row, at most. -/
def rank : Task → Nat
  | evalAll es => es.length + 1
  | execAll ss => ss.length + 1
  | body _ ss => ss.length + 2
  | _ => 0

end Task

/-- The error after passing out of calls, innermost first: if it has no place, it is placed at the
first of them. -/
def RuntimeError.placed (e : RuntimeError) : List Token → RuntimeError
  | [] => e
  | paren :: _ => e.orAt paren

theorem RuntimeError.orAt_orAt (e : RuntimeError) (paren paren' : Token) :
    (e.orAt paren).orAt paren' = e.orAt paren := by
  obtain ⟨fault, line⟩ := e
  cases line <;> rfl

theorem RuntimeError.placed_append (e : RuntimeError) (calls calls' : List Token) :
    e.placed (calls ++ calls') = (e.placed calls).placed calls' := by
  cases calls with
  | nil => rfl
  | cons paren calls =>
    cases calls' with
    | nil => rfl
    | cons paren' calls' => exact (orAt_orAt e paren paren').symm

theorem RuntimeError.fault_placed (e : RuntimeError) (calls : List Token) :
    (e.placed calls).fault = e.fault := by
  obtain ⟨fault, line⟩ := e
  cases calls with
  | nil => rfl
  | cons paren calls => cases line <;> rfl

/-- A task on a machine, with the steps granted to it. -/
structure Point where
  steps : Nat
  task : Task
  machine : Machine

namespace Point

/-- The task of the point fails. -/
def Fails (p : Point) : RuntimeError → Machine → Prop := p.task.Fails p.steps p.machine

/-- The first task starts the second. If it does so by a call, the closing parenthesis is given. -/
inductive Starts : Point → Option Token → Point → Prop
  | group {n : Nat} {inner : Expr} {m : Machine} :
    Starts ⟨n + 1, .eval (.group inner), m⟩ none ⟨n, .eval inner, m⟩
  | unaryOperand {n : Nat} {operator : Token} {right : Expr} {m : Machine} :
    Starts ⟨n + 1, .eval (.unary operator right), m⟩ none ⟨n, .eval right, m⟩
  | unary {n : Nat} {operator : Token} {right : Expr} {m m' : Machine} {v : Value} :
    eval n right m = .ok v m' →
    Starts ⟨n + 1, .eval (.unary operator right), m⟩ none
      ⟨n, .unary operator v, m'⟩
  | binaryLeft {n : Nat} {operator : Token} {left right : Expr} {m : Machine} :
    Starts ⟨n + 1, .eval (.binary left operator right), m⟩ none ⟨n, .eval left, m⟩
  | binaryRight {n : Nat} {operator : Token} {left right : Expr} {m m' : Machine} {v : Value} :
    eval n left m = .ok v m' →
    Starts ⟨n + 1, .eval (.binary left operator right), m⟩ none ⟨n, .eval right, m'⟩
  | binary {n : Nat} {operator : Token} {left right : Expr} {m m' m'' : Machine} {v w : Value} :
    eval n left m = .ok v m' → eval n right m' = .ok w m'' →
    Starts ⟨n + 1, .eval (.binary left operator right), m⟩ none
      ⟨n, .binary operator v w, m''⟩
  | logicalLeft {n : Nat} {operator : Token} {left right : Expr} {m : Machine} :
    Starts ⟨n + 1, .eval (.logical left operator right), m⟩ none ⟨n, .eval left, m⟩
  | logicalRight {n : Nat} {operator : Token} {left right : Expr} {m m' : Machine} {v : Value} :
    eval n left m = .ok v m' → settles operator v = false →
    Starts ⟨n + 1, .eval (.logical left operator right), m⟩ none ⟨n, .eval right, m'⟩
  | reference {n : Nat} {name : Token} {m : Machine} :
    Starts ⟨n + 1, .eval (.reference name), m⟩ none ⟨n, .lookup name, m⟩
  | assigned {n : Nat} {name : Token} {value : Expr} {m : Machine} :
    Starts ⟨n + 1, .eval (.assign name value), m⟩ none ⟨n, .eval value, m⟩
  | assign {n : Nat} {name : Token} {value : Expr} {m m' : Machine} {v : Value} :
    eval n value m = .ok v m' →
    Starts ⟨n + 1, .eval (.assign name value), m⟩ none ⟨n, .assign name v, m'⟩
  | callee {n : Nat} {callee : Expr} {paren : Token} {arguments : List Expr} {m : Machine} :
    Starts ⟨n + 1, .eval (.call callee paren arguments), m⟩ none ⟨n, .eval callee, m⟩
  | arguments {n : Nat} {callee : Expr} {paren : Token} {arguments : List Expr} {m m' : Machine}
      {f : Value} : eval n callee m = .ok f m' →
    Starts ⟨n + 1, .eval (.call callee paren arguments), m⟩ none ⟨n, .evalAll arguments, m'⟩
  | notCallable {n : Nat} {callee : Expr} {paren : Token} {arguments : List Expr}
      {m m' m'' : Machine} {f : Value} {vs : List Value} : eval n callee m = .ok f m' →
    evalList (eval n) arguments m' = .ok vs m'' → (∀ i g, f ≠ .callable i g) →
    Starts ⟨n + 1, .eval (.call callee paren arguments), m⟩ none ⟨n, .notCallable paren, m''⟩
  | wrongArity {n : Nat} {callee : Expr} {paren : Token} {arguments : List Expr}
      {m m' m'' : Machine} {i : Nat} {g : Callable} {vs : List Value} :
    eval n callee m = .ok (.callable i g) m' → evalList (eval n) arguments m' = .ok vs m'' →
    g.arity ≠ vs.length →
    Starts ⟨n + 1, .eval (.call callee paren arguments), m⟩ none
      ⟨n, .wrongArity paren g.arity vs.length, m''⟩
  | native {n : Nat} {callee : Expr} {paren : Token} {arguments : List Expr}
      {m m' m'' : Machine} {i : Nat} {g : Native} {vs : List Value} :
    eval n callee m = .ok (.callable i (.native g)) m' →
    evalList (eval n) arguments m' = .ok vs m'' → g.arity = vs.length →
    Starts ⟨n + 1, .eval (.call callee paren arguments), m⟩ (some paren) ⟨n, .native g vs, m''⟩
  | body {n : Nat} {callee : Expr} {paren : Token} {arguments : List Expr}
      {m m' m'' : Machine} {i : Nat} {name : Token} {params : List Token} {ss : List Stmt}
      {scope : ScopeId} {vs : List Value} :
    eval n callee m = .ok (.callable i (.closure name params ss scope)) m' →
    evalList (eval n) arguments m' = .ok vs m'' → params.length = vs.length →
    Starts ⟨n + 1, .eval (.call callee paren arguments), m⟩ (some paren)
      ⟨n, .body params ss, m''.entered scope (params.map Token.lexeme) vs⟩
  | evalFirst {n : Nat} {e : Expr} {es : List Expr} {m : Machine} :
    Starts ⟨n, .evalAll (e :: es), m⟩ none ⟨n, .eval e, m⟩
  | evalOthers {n : Nat} {e : Expr} {es : List Expr} {m m' : Machine} {v : Value} :
    eval n e m = .ok v m' → Starts ⟨n, .evalAll (e :: es), m⟩ none ⟨n, .evalAll es, m'⟩
  | statements {n : Nat} {params : List Token} {ss : List Stmt} {m : Machine} :
    Starts ⟨n, .body params ss, m⟩ none ⟨n, .execAll ss, m⟩
  | execFirst {n : Nat} {s : Stmt} {ss : List Stmt} {m : Machine} :
    Starts ⟨n, .execAll (s :: ss), m⟩ none ⟨n, .exec s, m⟩
  | execOthers {n : Nat} {s : Stmt} {ss : List Stmt} {m m' : Machine} :
    exec n s m = .ok .normal m' → Starts ⟨n, .execAll (s :: ss), m⟩ none ⟨n, .execAll ss, m'⟩
  | printed {n : Nat} {value : Expr} {m : Machine} :
    Starts ⟨n + 1, .exec (.print value), m⟩ none ⟨n, .eval value, m⟩
  | print {n : Nat} {value : Expr} {m m' : Machine} {v : Value} : eval n value m = .ok v m' →
    Starts ⟨n + 1, .exec (.print value), m⟩ none ⟨n, .print v.text, m'⟩
  | expression {n : Nat} {value : Expr} {m : Machine} :
    Starts ⟨n + 1, .exec (.expression value), m⟩ none ⟨n, .eval value, m⟩
  | initial {n : Nat} {name : Token} {value : Expr} {m : Machine} :
    Starts ⟨n + 1, .exec (.declare name (some value)), m⟩ none ⟨n, .eval value, m⟩
  | block {n : Nat} {ss : List Stmt} {m : Machine} :
    Starts ⟨n + 1, .exec (.block ss), m⟩ none ⟨n, .execAll ss, m.entered m.current [] []⟩
  | ifThenTest {n : Nat} {test : Expr} {thenBranch : Stmt} {m : Machine} :
    Starts ⟨n + 1, .exec (.ifThen test thenBranch), m⟩ none ⟨n, .eval test, m⟩
  | ifThen {n : Nat} {test : Expr} {thenBranch : Stmt} {m m' : Machine} {v : Value} :
    eval n test m = .ok v m' → v.isTruthy = true →
    Starts ⟨n + 1, .exec (.ifThen test thenBranch), m⟩ none ⟨n, .exec thenBranch, m'⟩
  | ifElseTest {n : Nat} {test : Expr} {thenBranch elseBranch : Stmt} {m : Machine} :
    Starts ⟨n + 1, .exec (.ifElse test thenBranch elseBranch), m⟩ none ⟨n, .eval test, m⟩
  | thenBranch {n : Nat} {test : Expr} {thenBranch elseBranch : Stmt} {m m' : Machine}
      {v : Value} : eval n test m = .ok v m' → v.isTruthy = true →
    Starts ⟨n + 1, .exec (.ifElse test thenBranch elseBranch), m⟩ none ⟨n, .exec thenBranch, m'⟩
  | elseBranch {n : Nat} {test : Expr} {thenBranch elseBranch : Stmt} {m m' : Machine}
      {v : Value} : eval n test m = .ok v m' → v.isTruthy = false →
    Starts ⟨n + 1, .exec (.ifElse test thenBranch elseBranch), m⟩ none ⟨n, .exec elseBranch, m'⟩
  | whileTest {n : Nat} {test : Expr} {ss : Stmt} {m : Machine} :
    Starts ⟨n + 1, .exec (.whileDo test ss), m⟩ none ⟨n, .eval test, m⟩
  | whileBody {n : Nat} {test : Expr} {ss : Stmt} {m m' : Machine} {v : Value} :
    eval n test m = .ok v m' → v.isTruthy = true →
    Starts ⟨n + 1, .exec (.whileDo test ss), m⟩ none ⟨n, .exec ss, m'⟩
  | whileAgain {n : Nat} {test : Expr} {ss : Stmt} {m m' m'' : Machine} {v : Value} :
    eval n test m = .ok v m' → v.isTruthy = true → exec n ss m' = .ok .normal m'' →
    Starts ⟨n + 1, .exec (.whileDo test ss), m⟩ none ⟨n, .exec (.whileDo test ss), m''⟩
  | returned {n : Nat} {keyword : Token} {value : Expr} {m : Machine} :
    Starts ⟨n + 1, .exec (.returns keyword (some value)), m⟩ none ⟨n, .eval value, m⟩

/-- The task comes to the other, through the calls whose closing parentheses are given, innermost
first. -/
inductive Within (p : Point) : List Token → Point → Prop
  | here : Within p [] p
  | next {calls : List Token} {call : Option Token} {q r : Point} : Within p calls q →
    Starts q call r → Within p (call.toList ++ calls) r

/-! ### From a task to the tasks that it starts -/

variable {p q r : Point} {calls : List Token} {call : Option Token} {e e₀ : RuntimeError}
  {m m' m₀ : Machine} {n : Nat}

/-- The failure of the task is that of a task which it starts. -/
def Inherits (p : Point) (e : RuntimeError) (m' : Machine) : Prop :=
  ∃ call q e₀ m₀, Starts p call q ∧ q.Fails e₀ m₀ ∧ e = e₀.placed call.toList ∧
    m' = { m₀ with current := m'.current }

theorem Starts.inherits (h : Starts p none q) (hq : q.Fails e m') : p.Inherits e m' :=
  ⟨none, q, e, m', h, hq, rfl, rfl⟩

theorem inherits_of_call {callee : Expr} {paren : Token} {arguments : List Expr}
    (h : (eval (n + 1) (.call callee paren arguments)).Fails m e m') :
    Inherits ⟨n + 1, .eval (.call callee paren arguments), m⟩ e m' := by
  rw [eval, Run.fails_bind_iff] at h
  rcases h with h | ⟨f, m₁, hf, h⟩
  · exact Starts.callee.inherits h
  rw [Run.fails_bind_iff] at h
  rcases h with h | ⟨vs, m₂, hvs, h⟩
  · exact (Starts.arguments hf).inherits h
  unfold callValue at h
  split at h
  · next i g =>
    split at h
    · next harity =>
      obtain ⟨e₀, hcall, he⟩ := Run.fails_orAt_iff.1 h
      cases g with
      | native g => exact ⟨some paren, _, e₀, m', .native hf hvs harity, hcall, he, rfl⟩
      | closure name params ss scope =>
        obtain ⟨m₀, hbody, rfl⟩ := Run.fails_invoke_iff.1 hcall
        exact ⟨some paren, _, e₀, m₀, .body hf hvs harity, hbody, he, rfl⟩
    · next harity => exact (Starts.wrongArity hf hvs harity).inherits h
  · next hcallable => exact (Starts.notCallable hf hvs hcallable).inherits h

theorem inherits_of_eval {expr : Expr} (h : (eval n expr).Fails m e m') :
    Inherits ⟨n, .eval expr, m⟩ e m' := by
  cases n with
  | zero =>
    rw [eval] at h
    exact absurd h Run.not_fails_outOfSteps
  | succ n =>
    -- what fails is a part that is evaluated, or the step after its parts
    cases expr with
    | literal value =>
      rw [eval] at h
      exact absurd h (Run.not_fails_pure _)
    | group inner =>
      rw [eval] at h
      exact Starts.group.inherits h
    | unary operator right =>
      rw [eval, Run.fails_bind_iff] at h
      rcases h with h | ⟨v, m₁, hv, h⟩
      · exact Starts.unaryOperand.inherits h
      · exact (Starts.unary hv).inherits h
    | binary left operator right =>
      rw [eval, Run.fails_bind_iff] at h
      rcases h with h | ⟨v, m₁, hv, h⟩
      · exact Starts.binaryLeft.inherits h
      rw [Run.fails_bind_iff] at h
      rcases h with h | ⟨w, m₂, hw, h⟩
      · exact (Starts.binaryRight hv).inherits h
      · exact (Starts.binary hv hw).inherits h
    | logical left operator right =>
      rw [eval, Run.fails_bind_iff] at h
      rcases h with h | ⟨v, m₁, hv, h⟩
      · exact Starts.logicalLeft.inherits h
      split at h
      · exact absurd h (Run.not_fails_pure _)
      · next hopen => exact (Starts.logicalRight hv (by simpa using hopen)).inherits h
    | reference name =>
      rw [eval] at h
      exact Starts.reference.inherits h
    | assign name value =>
      rw [eval, Run.fails_bind_iff] at h
      rcases h with h | ⟨v, m₁, hv, h⟩
      · exact Starts.assigned.inherits h
      · exact (Starts.assign hv).inherits (Run.fails_bind_pure_iff.1 h)
    | call callee paren arguments => exact inherits_of_call h

theorem inherits_of_exec {s : Stmt} (h : (exec n s).Fails m e m') :
    Inherits ⟨n, .exec s, m⟩ e m' := by
  cases n with
  | zero =>
    rw [exec] at h
    exact absurd h Run.not_fails_outOfSteps
  | succ n =>
    cases s with
    | print value =>
      rw [exec, Run.fails_bind_iff] at h
      rcases h with h | ⟨v, m₁, hv, h⟩
      · exact Starts.printed.inherits h
      · exact (Starts.print hv).inherits (Run.fails_bind_pure_iff.1 h)
    | expression value =>
      rw [exec, Run.fails_bind_pure_iff] at h
      exact Starts.expression.inherits h
    | declare name initial =>
      rw [exec, Run.fails_bind_iff] at h
      rcases h with h | ⟨v, m₁, -, h⟩
      · cases initial with
        | none => exact absurd h (Run.not_fails_pure _)
        | some value => exact Starts.initial.inherits h
      · cases Run.fails_bind_pure_iff.1 h
    | block ss =>
      obtain ⟨m₀, hbody, rfl⟩ := Run.fails_block_iff.1 h
      exact ⟨none, _, e, m₀, .block, hbody, rfl, rfl⟩
    | ifThen test thenBranch =>
      rw [exec, Run.fails_bind_iff] at h
      rcases h with h | ⟨v, m₁, hv, h⟩
      · exact Starts.ifThenTest.inherits h
      split at h
      · next htrue => exact (Starts.ifThen hv htrue).inherits h
      · exact absurd h (Run.not_fails_pure _)
    | ifElse test thenBranch elseBranch =>
      rw [exec, Run.fails_bind_iff] at h
      rcases h with h | ⟨v, m₁, hv, h⟩
      · exact Starts.ifElseTest.inherits h
      split at h
      · next htrue => exact (Starts.thenBranch hv htrue).inherits h
      · next hfalse => exact (Starts.elseBranch hv (by simpa using hfalse)).inherits h
    | whileDo test ss =>
      rw [exec, Run.fails_bind_iff] at h
      rcases h with h | ⟨v, m₁, hv, h⟩
      · exact Starts.whileTest.inherits h
      split at h
      · next htrue =>
        rw [Run.fails_andThen_iff] at h
        rcases h with h | ⟨m₂, hs, h⟩
        · exact (Starts.whileBody hv htrue).inherits h
        · exact (Starts.whileAgain hv htrue hs).inherits h
      · exact absurd h (Run.not_fails_pure _)
    | function name params ss =>
      rw [exec, Run.fails_bind_iff] at h
      rcases h with h | ⟨v, m₁, -, h⟩
      · cases h
      · cases Run.fails_bind_pure_iff.1 h
    | returns keyword value =>
      rw [exec, Run.fails_bind_pure_iff] at h
      cases value with
      | none => exact absurd h (Run.not_fails_pure _)
      | some value => exact Starts.returned.inherits h

/-- A task that is not small fails only if one that it starts does. -/
theorem inherits_of_fails (hp : p.task.isSmall = false) (h : p.Fails e m') : p.Inherits e m' := by
  obtain ⟨n, task, m⟩ := p
  cases task with
  | eval expr => exact inherits_of_eval h
  | exec s => exact inherits_of_exec h
  | body params ss => exact Starts.statements.inherits h
  | evalAll es =>
    cases es with
    | nil => exact absurd h (Run.not_fails_pure _)
    | cons expr es =>
      rcases Run.fails_bind_iff.1 h with h | ⟨v, m₁, hv, h⟩
      · exact Starts.evalFirst.inherits h
      · exact (Starts.evalOthers hv).inherits (Run.fails_bind_pure_iff.1 h)
  | execAll ss =>
    cases ss with
    | nil => exact absurd h (Run.not_fails_pure _)
    | cons s ss =>
      rcases Run.fails_andThen_iff.1 h with h | ⟨m₁, hs, h⟩
      · exact Starts.execFirst.inherits h
      · exact (Starts.execOthers hs).inherits h
  | _ => cases hp

/-! ### From a task to the task that started it -/

/-- The first part of a sequence fails. -/
theorem fails_first {α β : Type} {r : Run α} {f : α → Run β} (h : r.Fails m e m') :
    (r >>= f).Fails m e m' :=
  Run.fails_bind_iff.2 (.inl h)

/-- The second part of a sequence fails. -/
theorem fails_second {α β : Type} {r : Run α} {f : α → Run β} {a : α} (hr : r m = .ok a m₀)
    (h : (f a).Fails m₀ e m') : (r >>= f).Fails m e m' :=
  Run.fails_bind_iff.2 (.inr ⟨a, m₀, hr, h⟩)

/-- A task that starts a failing one without a call fails with the same error. -/
theorem Starts.fails_of_none (h : Starts p none q) (hq : q.Fails e m') :
    ∃ m'', p.Fails e m'' ∧ m'' = { m' with current := m''.current } := by
  -- but for blocks, the machine is the same, too
  have same : p.Fails e m' → ∃ m'', p.Fails e m'' ∧ m'' = { m' with current := m''.current } :=
    fun hp => ⟨m', hp, rfl⟩
  cases h with
  | block => exact ⟨_, Run.fails_block_iff.2 ⟨m', hq, rfl⟩, rfl⟩
  | statements => exact same hq
  | evalFirst => exact same (fails_first hq)
  | evalOthers hv => exact same (fails_second hv (fails_first hq))
  | execFirst => exact same (Run.fails_andThen_iff.2 (.inl hq))
  | execOthers hs => exact same (Run.fails_andThen_iff.2 (.inr ⟨_, hs, hq⟩))
  | group => exact same hq
  | unaryOperand => exact same (fails_first hq)
  | unary hv => exact same (fails_second hv hq)
  | binaryLeft => exact same (fails_first hq)
  | binaryRight hv => exact same (fails_second hv (fails_first hq))
  | binary hv hw => exact same (fails_second hv (fails_second hw hq))
  | logicalLeft => exact same (fails_first hq)
  | logicalRight hv hopen => exact same (fails_second hv (by rwa [if_neg (by simp [hopen])]))
  | reference => exact same hq
  | assigned => exact same (fails_first hq)
  | assign hv => exact same (fails_second hv (fails_first hq))
  | callee => exact same (fails_first hq)
  | arguments hf => exact same (fails_second hf (fails_first hq))
  | notCallable hf hvs hcallable =>
    refine same (fails_second hf (fails_second hvs ?_))
    unfold callValue
    split
    · exact absurd rfl (hcallable _ _)
    · exact hq
  | wrongArity hf hvs harity =>
    refine same (fails_second hf (fails_second hvs ?_))
    rwa [callValue, if_neg harity]
  | printed => exact same (fails_first hq)
  | print hv => exact same (fails_second hv (fails_first hq))
  | expression => exact same (fails_first hq)
  | initial => exact same (fails_first hq)
  | ifThenTest => exact same (fails_first hq)
  | ifThen hv htrue => exact same (fails_second hv (by rwa [if_pos htrue]))
  | ifElseTest => exact same (fails_first hq)
  | thenBranch hv htrue => exact same (fails_second hv (by rwa [if_pos htrue]))
  | elseBranch hv hfalse => exact same (fails_second hv (by rwa [if_neg (by simp [hfalse])]))
  | whileTest => exact same (fails_first hq)
  | whileBody hv htrue =>
    refine same (fails_second hv ?_)
    rw [if_pos htrue]
    exact Run.fails_andThen_iff.2 (.inl hq)
  | whileAgain hv htrue hs =>
    refine same (fails_second hv ?_)
    rw [if_pos htrue]
    exact Run.fails_andThen_iff.2 (.inr ⟨_, hs, hq⟩)
  | returned => exact same (fails_first hq)

/-- A task that starts a failing one fails, and the error is placed at the call between them. -/
theorem Starts.fails (h : Starts p call q) (hq : q.Fails e m') :
    ∃ m'', p.Fails (e.placed call.toList) m'' ∧ m'' = { m' with current := m''.current } := by
  cases call with
  | none => exact h.fails_of_none hq
  | some paren =>
    have called : ∀ {n : Nat} {callee : Expr} {arguments : List Expr} {m m₁ m₂ m'' : Machine}
        {i : Nat} {g : Callable} {vs : List Value}, eval n callee m = .ok (.callable i g) m₁ →
        evalList (eval n) arguments m₁ = .ok vs m₂ → g.arity = vs.length →
        (invoke (exec n) g vs).Fails m₂ e m'' →
        Fails ⟨n + 1, .eval (.call callee paren arguments), m⟩ (e.orAt paren) m'' := by
      intro n callee arguments m m₁ m₂ m'' i g vs hf hvs harity hcall
      refine fails_second hf (fails_second hvs ?_)
      rw [callValue, if_pos harity]
      exact Run.fails_orAt_iff.2 ⟨e, hcall, rfl⟩
    cases h with
    | native hf hvs harity => exact ⟨m', called hf hvs harity hq, rfl⟩
    | body hf hvs harity =>
      exact ⟨_, called hf hvs harity (Run.fails_invoke_iff.2 ⟨m', hq, rfl⟩), rfl⟩

/-! ### The whole way -/

/-- What a task starts has fewer steps, or the same and is nearer to its end. -/
theorem Starts.descends (h : Starts p call q) :
    q.steps < p.steps ∨ q.steps = p.steps ∧ q.task.rank < p.task.rank := by
  cases h <;> simp [Task.rank]

theorem Within.cons (h : Starts p call q) (hr : Within q calls r) :
    Within p (calls ++ call.toList) r := by
  induction hr with
  | here =>
    have hnext := Within.here.next h
    rwa [List.append_nil] at hnext
  | next _ hs ih =>
    rw [List.append_assoc]
    exact ih.next hs

/-- A failing task leaves its machine in the scope in which it worked. -/
theorem Fails.current (h : p.Fails e m') : m'.current = p.machine.current := by
  obtain ⟨n, task, m⟩ := p
  have moved : ∀ {α : Type} {r : Run α}, Run.Moves Machine.SameScope r → r.Fails m e m' →
      m'.current = m.current := by
    intro α r hr hfails
    have hsame := hr m
    rwa [hfails] at hsame
  have hscope := Machine.sameScope_stable
  cases task with
  | eval expr => exact moved (hscope.eval n expr) h
  | evalAll es => exact moved (hscope.evalList (hscope.eval n) es) h
  | exec s => exact moved (hscope.exec n s) h
  | execAll ss => exact moved (hscope.execList (hscope.exec n) ss) h
  | body params ss => exact moved (hscope.execList (hscope.exec n) ss) h
  | unary operator v => exact moved (hscope.ofFault operator _) h
  | binary operator v w => exact moved (hscope.ofFault operator _) h
  | lookup name => exact moved (hscope.lookup name) h
  | assign name value => exact moved (hscope.assignName name value) h
  | notCallable paren => exact moved (hscope.fail _) h
  | wrongArity paren expected actual => exact moved (hscope.fail _) h
  | native f arguments => exact moved (hscope.callNative f arguments) h
  | print text => exact moved (hscope.printLine text) h

/-- Nothing on the way from a failing task outwards holds the error up. -/
theorem Within.fails (h : Within p calls q) (hq : q.Fails e m₀) :
    p.Fails (e.placed calls) { m₀ with current := p.machine.current } := by
  have hfails : ∃ m', p.Fails (e.placed calls) m' ∧ m' = { m₀ with current := m'.current } := by
    induction h generalizing e m₀ with
    | here => exact ⟨m₀, hq, rfl⟩
    | next _ hs ih =>
      obtain ⟨m₁, hfails, hm₁⟩ := hs.fails hq
      obtain ⟨m', hp, hm'⟩ := ih hfails
      rw [RuntimeError.placed_append]
      refine ⟨m', hp, ?_⟩
      rw [hm₁] at hm'
      exact hm'
  obtain ⟨m', hp, hm'⟩ := hfails
  rw [hp.current] at hm'
  exact hm' ▸ hp

/-- A task fails only if a small task within it does. -/
theorem exists_within_of_fails {p : Point} {e : RuntimeError} {m' : Machine} (h : p.Fails e m') :
    ∃ calls q e₀ m₀, Within p calls q ∧ q.task.isSmall = true ∧ q.Fails e₀ m₀ ∧
      e = e₀.placed calls ∧ m' = { m₀ with current := m'.current } := by
  cases hp : p.task.isSmall with
  | true => exact ⟨[], p, e, m', .here, hp, h, rfl, rfl⟩
  | false =>
    obtain ⟨call, q, e₁, m₁, hs, hq, he, hm'⟩ := inherits_of_fails hp h
    -- the task that was started is nearer to its end
    have hdescends := hs.descends
    obtain ⟨calls, r, e₀, m₀, hr, hsmall, hfails, he₁, hm₁⟩ := exists_within_of_fails hq
    refine ⟨_, r, e₀, m₀, .cons hs hr, hsmall, hfails, ?_, ?_⟩
    · rw [RuntimeError.placed_append, ← he₁, he]
    · rw [hm₁] at hm'
      exact hm'
termination_by (p.steps, p.task.rank)
decreasing_by exact Prod.lex_def.2 hdescends

/-- A task fails if and only if a small task within it does. Then its error is the error of the
small task, placed at the innermost call between them, and nothing has happened since. -/
theorem fails_iff : p.Fails e m' ↔ ∃ calls q e₀ m₀, Within p calls q ∧ q.task.isSmall = true ∧
    q.Fails e₀ m₀ ∧ e = e₀.placed calls ∧ m' = { m₀ with current := p.machine.current } := by
  constructor
  · intro h
    obtain ⟨calls, q, e₀, m₀, hq, hsmall, hfails, he, hm'⟩ := exists_within_of_fails h
    rw [h.current] at hm'
    exact ⟨calls, q, e₀, m₀, hq, hsmall, hfails, he, hm'⟩
  · rintro ⟨calls, q, e₀, m₀, hq, -, hfails, rfl, rfl⟩
    exact hq.fails hfails

/-! ### Errors without a place -/

/-- A small task that fails is a call of a native function or a print, or its error has a place and
has nothing to do with the sink. -/
theorem Fails.small_cases (hp : p.task.isSmall = true) (h : p.Fails e m') :
    (∃ f arguments, p.task = .native f arguments) ∨ (∃ text, p.task = .print text) ∨
      e.line.isSome = true ∧ ∀ failure, e.fault ≠ .output failure := by
  obtain ⟨n, task, m⟩ := p
  -- only native functions and prints fail without a token of their own
  cases task with
  | native f arguments => exact .inl ⟨f, arguments, rfl⟩
  | print text => exact .inr (.inl ⟨text, rfl⟩)
  | unary operator v =>
    obtain ⟨fault, hfault, rfl⟩ := Run.fails_ofFault h
    refine .inr (.inr ⟨rfl, fun failure => ?_⟩)
    rcases applyUnary_error hfault with rfl | ⟨rfl, -⟩ <;> exact RuntimeFault.noConfusion
  | binary operator v w =>
    obtain ⟨fault, hfault, rfl⟩ := Run.fails_ofFault h
    refine .inr (.inr ⟨rfl, fun failure heq => ?_⟩)
    rcases applyBinary_error hfault with hmem | ⟨rfl, -⟩
    · have hfault : fault = .output failure := heq
      rw [hfault] at hmem
      simp [binaryFaults] at hmem
    · cases heq
  | lookup name =>
    obtain rfl := Run.fails_lookup h
    exact .inr (.inr ⟨rfl, fun failure => RuntimeFault.noConfusion⟩)
  | assign name value =>
    obtain rfl := Run.fails_assign h
    exact .inr (.inr ⟨rfl, fun failure => RuntimeFault.noConfusion⟩)
  | notCallable paren =>
    cases h
    exact .inr (.inr ⟨rfl, fun failure => RuntimeFault.noConfusion⟩)
  | wrongArity paren expected actual =>
    cases h
    exact .inr (.inr ⟨rfl, fun failure => RuntimeFault.noConfusion⟩)
  | _ => cases hp

/-- The sink makes no small task fail but a print. -/
theorem Fails.print_of_output {failure : SinkFailure} (hp : p.task.isSmall = true)
    (h : p.Fails e m') (hfault : e.fault = .output failure) : ∃ text, p.task = .print text := by
  obtain ⟨f, arguments, hf⟩ | hprint | ⟨-, hother⟩ := h.small_cases hp
  · have hnative : (callNative f arguments).Fails p.machine e m' := by
      rw [Fails, hf] at h
      exact h
    rcases Run.fails_callNative hnative with rfl | rfl <;> cases hfault
  · exact hprint
  · exact absurd hfault (hother failure)

/-- Without a call no native function is reached, -/
theorem Starts.not_native (h : Starts p none q) (f : Native) (arguments : List Value) :
    q.task ≠ .native f arguments := by
  cases h <;> simp

/-- and no expression starts a statement. -/
theorem Starts.isExpression (h : Starts p none q) (hp : p.task.isExpression = true) :
    q.task.isExpression = true := by
  cases h <;> first | rfl | cases hp

theorem Within.isExpression (h : Within p [] q) (hp : p.task.isExpression = true) :
    q.task.isExpression = true := by
  generalize hcalls : ([] : List Token) = calls at h
  induction h with
  | here => exact hp
  | @next calls call q r _ hs ih =>
    obtain ⟨hcall, rfl⟩ := List.append_eq_nil_iff.1 hcalls.symm
    cases call with
    | some paren => cases hcall
    | none => exact hs.isExpression (ih rfl)

theorem Within.not_native (h : Within p [] q) (hp : ∀ f arguments, p.task ≠ .native f arguments)
    (f : Native) (arguments : List Value) : q.task ≠ .native f arguments := by
  generalize hcalls : ([] : List Token) = calls at h
  cases h with
  | here => exact hp f arguments
  | @next calls call q r _ hs =>
    obtain ⟨hcall, -⟩ := List.append_eq_nil_iff.1 hcalls.symm
    cases call with
    | some paren => cases hcall
    | none => exact hs.not_native f arguments

/-- A print fails if its line does not fit; what fits of it is printed all the same. -/
theorem fails_print_iff {text : String} : Fails ⟨n, .print text, m⟩ e m' ↔
    m.sink.accepts (text ++ "\n") = false ∧ e = .unlocated (.output .full) ∧
      m' = { m with sink := m.sink.push (text ++ "\n") } := by
  change Run.printLine text m = .error (.error e) m' ↔ _
  unfold Run.printLine
  dsimp only
  split
  · next hfits => simp [hfits]
  · next hfits =>
    constructor
    · intro h
      cases h
      exact ⟨by simpa using hfits, rfl, rfl⟩
    · rintro ⟨-, rfl, rfl⟩
      rfl

end Point

end Lox
