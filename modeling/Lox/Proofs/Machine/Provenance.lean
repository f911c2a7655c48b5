import Lox.Proofs.Grammar.Tokens
import Lox.Proofs.Machine.Fence
import Lox.Proofs.Machine.Origin

/-!
Where the tokens in a running program come from. If the statements are made of certain tokens, and
so are the functions that the scopes hold, then everything that comes up in the run is made of these
tokens: the functions that are made and called, and the expressions and statements that are started.
So every error is at one of these tokens, the operators that are applied are operators, and what is
undefined is the name of an identifier.
-/

namespace Lox

variable {T : Token → Prop}

/-! ### Values and scopes -/

/-- The body of the function is made of tokens of those described. -/
def Callable.MadeOf (T : Token → Prop) : Callable → Prop
  | .native _ => True
  | .closure _ _ body _ => Stmt.MadeOfAll T body

/-- If the value is a function, its body is made of tokens of those described. -/
def Value.MadeOf (T : Token → Prop) : Value → Prop
  | .callable _ f => f.MadeOf T
  | _ => True

/-- Only a declared function has a body. -/
theorem Value.madeOf_of_scope? {v : Value} (h : v.scope? = none) : v.MadeOf T := by
  cases v with
  | callable i f =>
    cases f with
    | native g => trivial
    | closure name params body scope => cases h
  | _ => trivial

namespace Store

/-- All functions in the scopes are made of tokens of those described. -/
def MadeOf (T : Token → Prop) (s : Store) : Prop :=
  ∀ i name v, s.own? i name = some v → v.MadeOf T

variable {s : Store} {v : Value}

theorem MadeOf.define (h : s.MadeOf T) (hv : v.MadeOf T) (i : ScopeId) (name : String) :
    (s.define i name v).MadeOf T := by
  intro j name' w hw
  rw [own?_define] at hw
  split at hw
  · cases hw
    exact hv
  · exact h j name' w hw

theorem MadeOf.add (h : s.MadeOf T) (parent : Option ScopeId) : (s.add parent).MadeOf T := by
  intro j name w hw
  rw [own?_add] at hw
  exact h j name w hw

theorem MadeOf.defineAll (h : s.MadeOf T) (i : ScopeId) (names : List String)
    {values : List Value} (hvalues : ∀ v ∈ values, v.MadeOf T) :
    (s.defineAll i names values).MadeOf T := by
  induction names generalizing s values with
  | nil => exact h
  | cons name names ih =>
    cases values with
    | nil => exact h
    | cons v values =>
      rw [List.forall_mem_cons] at hvalues
      exact ih (h.define hvalues.1 i name) hvalues.2

/-- What a name means was bound somewhere. -/
theorem MadeOf.get? (h : s.MadeOf T) {i : ScopeId} {name : String} (hv : s.get? i name = some v) :
    v.MadeOf T := by
  obtain ⟨j, -, hj⟩ := List.exists_of_findSome?_eq_some hv
  exact h j name v hj

end Store

namespace Machine

/-- All functions that the machine can find are made of tokens of those described. -/
def MadeOf (T : Token → Prop) (m : Machine) : Prop := m.store.MadeOf T

variable {m : Machine}

/-- A body starts with arguments that are made of the tokens, in scopes that are. -/
theorem MadeOf.entered (h : m.MadeOf T) (parent : ScopeId) (names : List String)
    {values : List Value} (hvalues : ∀ v ∈ values, v.MadeOf T) :
    (m.entered parent names values).MadeOf T :=
  (h.add (some parent)).defineAll _ names hvalues

theorem madeOf_foldl_defineNative (fs : List Native) :
    ∀ {m : Machine}, m.MadeOf T → (fs.foldl defineNative m).MadeOf T := by
  induction fs with
  | nil => exact fun h => h
  | cons f fs ih =>
    intro m h
    have hnative : Value.MadeOf T (.callable m.identities (.native f)) := trivial
    exact ih (h.define hnative globalScope f.name)

/-- The native functions of a new machine have no tokens. -/
theorem madeOf_new (sink : Sink) (clock : Nat → Option Float) : (new sink clock).MadeOf T := by
  rw [new]
  refine madeOf_foldl_defineNative Native.all (Store.MadeOf.add ?_ none)
  intro i name v hv
  simp [Store.own?] at hv

end Machine

/-! ### Runs -/

theorem Stmt.madeOfAll_iff {ss : List Stmt} : MadeOfAll T ss ↔ ∀ s ∈ ss, s.MadeOf T := by
  induction ss with
  | nil => simp [MadeOfAll]
  | cons s ss ih => rw [MadeOfAll, List.forall_mem_cons, ih]

/-- A run is compared with itself, on machines whose functions are made of tokens of those
described, if its program is. -/
def madeOf (T : Token → Prop) : Simulation where
  World := Unit
  later _ _ := True
  machines _ m m' := m = m' ∧ m.MadeOf T
  scopes _ i i' := i = i'
  binds _ := True
  code := Stmt.MadeOf T
  lines := id
  more := 0

section

variable {w : (madeOf T).World} {v v' : Value}

/-- Values that look the same are equal and made of the tokens. -/
theorem madeOf_values_iff : (madeOf T).Values w v v' ↔ v = v' ∧ v.MadeOf T := by
  constructor
  · intro h
    refine ⟨h.eq rfl fun _ _ hi => hi, ?_⟩
    rcases h.eq_or_closure rfl with ⟨hv, -⟩ | ⟨_, _, _, _, _, _, rfl, -, hcode, -⟩
    · exact Value.madeOf_of_scope? hv
    · exact Stmt.madeOfAll_iff.2 hcode
  · rintro ⟨rfl, hv⟩
    refine Simulation.values_self fun _ _ _ _ _ heq => ⟨?_, rfl⟩
    rw [heq] at hv
    exact Stmt.madeOfAll_iff.1 hv

theorem madeOf_values_list {vs vs' : List Value} (h : List.Forall₂ ((madeOf T).Values w) vs vs') :
    vs = vs' ∧ ∀ v ∈ vs, v.MadeOf T := by
  induction h with
  | nil => exact ⟨rfl, by simp⟩
  | cons hv _ ih =>
    obtain ⟨rfl, hfirst⟩ := madeOf_values_iff.1 hv
    obtain ⟨rfl, hothers⟩ := ih
    exact ⟨rfl, List.forall_mem_cons.2 ⟨hfirst, hothers⟩⟩

theorem madeOf_becomes_self {m : Machine} (hm : m.MadeOf T) : (madeOf T).Becomes w m m :=
  ⟨w, trivial, rfl, hm⟩

end

/-- A function is made from the program, so from its tokens, and every other step only passes values
on. -/
theorem sound_madeOf (T : Token → Prop) : (madeOf T).Sound where
  refl _ := trivial
  trans _ _ := trivial
  scopes _ hi := hi
  binds _ _ := trivial
  parts := by
    intro s hs t ht
    -- the statements inside are made of the same tokens
    cases s <;>
      simp only [madeOf, Stmt.parts, Stmt.MadeOf, Stmt.madeOfAll_iff, List.mem_cons,
        List.not_mem_nil, or_false] at hs ht ⊢
    case block => exact hs t ht
    case ifThen => exact ht ▸ hs.2
    case ifElse =>
      rcases ht with rfl | rfl
      · exact hs.2.1
      · exact hs.2.2
    case whileDo => exact ht ▸ hs.2
    case function => exact hs.2.2 t ht
  agree := by
    rintro _ m _ ⟨rfl, -⟩
    exact ⟨rfl, rfl, rfl, rfl⟩
  current := by
    rintro _ m _ ⟨rfl, -⟩
    rfl
  get := by
    rintro _ m _ name ⟨rfl, hm⟩
    cases h : m.store.get? m.current name with
    | none => exact .none
    | some v => exact .some (madeOf_values_iff.2 ⟨rfl, Store.MadeOf.get? hm h⟩)
  assign := by
    rintro _ m _ v v' name ⟨rfl, hm⟩ hv
    obtain ⟨rfl, hmade⟩ := madeOf_values_iff.1 hv
    cases m.store.resolve m.current name with
    | none => exact .none
    | some i => exact .some (madeOf_becomes_self (Store.MadeOf.define hm hmade i name))
  define := by
    rintro _ m _ v v' name ⟨rfl, hm⟩ - hv
    obtain ⟨rfl, hmade⟩ := madeOf_values_iff.1 hv
    exact madeOf_becomes_self (Store.MadeOf.define hm hmade m.current name)
  touch := by
    rintro _ m _ identities sink readings ⟨rfl, hm⟩
    exact madeOf_becomes_self hm
  enter := by
    rintro w m _ p _ vs vs' names ⟨rfl, hm⟩ rfl hvs
    obtain ⟨rfl, hmade⟩ := madeOf_values_list hvs
    refine ⟨w, ⟨rfl, hm.entered p names hmade⟩, trivial, ?_⟩
    rintro _ n _ - ⟨rfl, hn⟩
    exact ⟨w, trivial, ⟨rfl, hn⟩, fun _ _ hi => hi⟩

namespace Run

open Machine

variable {α : Type} {A : α → Prop} {m : Machine}

/-- What is compared with itself keeps the functions made of the tokens. -/
theorem keeps_of_goes {r : Run α} {B : (madeOf T).World → α → α → Prop}
    (h : ∀ w, (madeOf T).Goes w B r r) (hB : ∀ w a a', B w a a' → A a) :
    Keeps (MadeOf T) A r := by
  intro m hm
  have hends := h () m m ⟨rfl, hm⟩
  generalize r m = x at hends
  cases hends with
  | ok _ hm₁ ha => exact ⟨hm₁.2, hB _ _ _ ha⟩
  | error hbecomes | outOfSteps hbecomes =>
    obtain ⟨_, -, hm₁⟩ := hbecomes
    exact hm₁.2
  | behind hmore => exact absurd rfl hmore

/-- However the computation ends, the functions are made of tokens of those described. -/
theorem madeOf_stop {r : Run α} (h : Keeps (MadeOf T) A r) (hm : m.MadeOf T) :
    (stop (r m)).MadeOf T := by
  have hkept := h m hm
  cases hr : r m with
  | ok a m' =>
    rw [hr] at hkept
    exact hkept.1
  | error s m' =>
    rw [hr] at hkept
    exact hkept

/-- Expressions make no functions, so any of them has such a value. -/
theorem keeps_eval (n : Nat) (e : Expr) : Keeps (MadeOf T) (Value.MadeOf T) (eval n e) :=
  keeps_of_goes ((sound_madeOf T).evaluates rfl n rfl) fun _ _ _ hv => (madeOf_values_iff.1 hv).2

theorem keeps_evalList (n : Nat) (es : List Expr) :
    Keeps (MadeOf T) (fun vs => ∀ v ∈ vs, v.MadeOf T) (evalList (eval n) es) := by
  have heval := (sound_madeOf T).evaluates rfl n
  exact keeps_of_goes (Simulation.goes_evalList (sound_madeOf T) heval rfl)
    fun _ _ _ hvs => (madeOf_values_list hvs).2

theorem keeps_exec (n : Nat) {s : Stmt} (h : s.MadeOf T) :
    Keeps (MadeOf T) Anything (exec n s) :=
  keeps_of_goes (fun w => (sound_madeOf T).executes rfl n rfl h w (.inr trivial))
    fun _ _ _ _ => trivial

theorem keeps_execList (n : Nat) {ss : List Stmt} (h : Stmt.MadeOfAll T ss) :
    Keeps (MadeOf T) Anything (execList (exec n) ss) := by
  have hexec := (sound_madeOf T).executes rfl n
  exact keeps_of_goes (fun w => Simulation.goes_execList (sound_madeOf T) hexec rfl
    (Stmt.madeOfAll_iff.1 h) w trivial) fun _ _ _ _ => trivial

end Run

/-! ### Points of a run -/

/-- The task is made of tokens of those described, each in its role. -/
def Task.MadeOf (T : Token → Prop) : Task → Prop
  | eval e => e.MadeOf T
  | evalAll es => Expr.MadeOfAll T es
  | exec s => s.MadeOf T
  | execAll ss | body _ ss => Stmt.MadeOfAll T ss
  | unary operator _ => operator.Operates T unaryOperators
  | binary operator _ _ => operator.Operates T binaryOperators
  | lookup name | assign name _ => name.Names T
  | notCallable paren => T paren
  | wrongArity paren expected actual => T paren ∧ expected ≠ actual
  | native _ _ | print _ => True

namespace Point

open Run

/-- The task, and every function that it can find, is made of tokens of those described. -/
structure MadeOf (T : Token → Prop) (p : Point) : Prop where
  task : p.task.MadeOf T
  machine : p.machine.MadeOf T

variable {p q : Point} {call : Option Token} {calls : List Token} {e : RuntimeError}
  {m m' : Machine} {n : Nat}

theorem madeOf_of_eval {expr : Expr} {v : Value} (hm : m.MadeOf T)
    (h : eval n expr m = .ok v m') : m'.MadeOf T ∧ v.MadeOf T := by
  have hends := keeps_eval n expr m hm
  rwa [h] at hends

theorem madeOf_of_evalList {es : List Expr} {vs : List Value} (hm : m.MadeOf T)
    (h : evalList (eval n) es m = .ok vs m') : m'.MadeOf T ∧ ∀ v ∈ vs, v.MadeOf T := by
  have hends := keeps_evalList n es m hm
  rwa [h] at hends

theorem madeOf_of_exec {s : Stmt} {flow : Flow} (hm : m.MadeOf T) (hs : s.MadeOf T)
    (h : exec n s m = .ok flow m') : m'.MadeOf T := by
  have hends := keeps_exec n hs m hm
  rw [h] at hends
  exact hends.1

/-- What is started is made of the same tokens, -/
theorem Starts.madeOf (h : Starts p call q) (hp : p.MadeOf T) : q.MadeOf T := by
  obtain ⟨htask, hm⟩ := hp
  cases h
  all_goals
    simp only [Task.MadeOf, Expr.MadeOf, Expr.MadeOfAll, Stmt.MadeOf, Stmt.MadeOfAll] at htask
  -- what is started first, on the same machine
  case group | printed | expression | reference | statements => exact ⟨htask, hm⟩
  case binaryLeft | logicalLeft | callee | evalFirst | execFirst | ifThenTest | ifElseTest
      | whileTest => exact ⟨htask.1, hm⟩
  case unaryOperand | assigned => exact ⟨htask.2, hm⟩
  case initial | returned => exact ⟨htask.2 _ rfl, hm⟩
  case block => exact ⟨htask, hm.entered _ [] (by simp)⟩
  -- what is started after a part was evaluated
  case unary hv => exact ⟨htask.1, (madeOf_of_eval hm hv).1⟩
  case assign hv => exact ⟨htask.1, (madeOf_of_eval hm hv).1⟩
  case binaryRight hv => exact ⟨htask.2.2, (madeOf_of_eval hm hv).1⟩
  case logicalRight hv _ => exact ⟨htask.2.2, (madeOf_of_eval hm hv).1⟩
  case arguments hv => exact ⟨htask.2.2, (madeOf_of_eval hm hv).1⟩
  case evalOthers hv => exact ⟨htask.2, (madeOf_of_eval hm hv).1⟩
  case print hv => exact ⟨trivial, (madeOf_of_eval hm hv).1⟩
  case ifThen hv _ => exact ⟨htask.2, (madeOf_of_eval hm hv).1⟩
  case thenBranch hv _ => exact ⟨htask.2.1, (madeOf_of_eval hm hv).1⟩
  case elseBranch hv _ => exact ⟨htask.2.2, (madeOf_of_eval hm hv).1⟩
  case whileBody hv _ => exact ⟨htask.2, (madeOf_of_eval hm hv).1⟩
  case execOthers hs => exact ⟨htask.2, madeOf_of_exec hm htask.1 hs⟩
  case binary hv hw =>
    have hm' := (madeOf_of_eval hm hv).1
    exact ⟨htask.2.1, (madeOf_of_eval hm' hw).1⟩
  case whileAgain hv _ hs =>
    have hm' := (madeOf_of_eval hm hv).1
    refine ⟨?_, madeOf_of_exec hm' htask.2 hs⟩
    rw [Task.MadeOf, Stmt.MadeOf]
    exact htask
  case notCallable hf hvs _ =>
    have hm' := (madeOf_of_eval hm hf).1
    exact ⟨htask.2.1, (madeOf_of_evalList hm' hvs).1⟩
  case wrongArity hf hvs harity =>
    have hm' := (madeOf_of_eval hm hf).1
    exact ⟨⟨htask.2.1, harity⟩, (madeOf_of_evalList hm' hvs).1⟩
  case native hf hvs _ =>
    have hm' := (madeOf_of_eval hm hf).1
    exact ⟨trivial, (madeOf_of_evalList hm' hvs).1⟩
  case body hf hvs _ =>
    obtain ⟨hm', hbody⟩ := madeOf_of_eval hm hf
    obtain ⟨hm'', hvalues⟩ := madeOf_of_evalList hm' hvs
    exact ⟨hbody, hm''.entered _ _ hvalues⟩

/-- and the call between, if there is one, is among them. -/
theorem Starts.paren_madeOf (h : Starts p call q) (hp : p.MadeOf T) :
    ∀ paren ∈ call.toList, T paren := by
  obtain ⟨htask, -⟩ := hp
  cases h with
  | native | body =>
    rw [Task.MadeOf, Expr.MadeOf] at htask
    rw [Option.toList_some, List.forall_mem_singleton]
    exact htask.2.1
  | _ => simp

/-- However deep in the run, and whatever the calls between, the tokens are the same. -/
theorem Within.madeOf (h : Within p calls q) (hp : p.MadeOf T) :
    q.MadeOf T ∧ ∀ paren ∈ calls, T paren := by
  induction h with
  | here => exact ⟨hp, by simp⟩
  | next _ hs ih =>
    refine ⟨hs.madeOf ih.1, ?_⟩
    rw [List.forall_mem_append]
    exact ⟨hs.paren_madeOf ih.1, ih.2⟩

end Point

/-! ### Errors -/

/-- The faults of a run that is made of tokens of those described. -/
def RuntimeFault.Foreseen (T : Token → Prop) : RuntimeFault → Prop
  | unknownOperator _ | note _ => False
  | undefinedVariable name => ∃ t : Token, t.Names T ∧ t.lexeme = name
  | wrongArity expected actual => expected ≠ actual
  | _ => True

/-- The error has such a fault and, if it has a line, that of a token of those described. -/
structure RuntimeError.Explained (T : Token → Prop) (e : RuntimeError) : Prop where
  fault : e.fault.Foreseen T
  line : ∀ l, e.line = some l → ∃ t, T t ∧ t.line = l

theorem RuntimeError.Explained.located {token : Token} {fault : RuntimeFault} (htoken : T token)
    (hfault : fault.Foreseen T) : (RuntimeError.located token fault).Explained T := by
  refine ⟨hfault, fun l hl => ⟨token, htoken, ?_⟩⟩
  cases hl
  rfl

theorem RuntimeError.Explained.unlocated {fault : RuntimeFault} (hfault : fault.Foreseen T) :
    (RuntimeError.unlocated fault).Explained T := by
  refine ⟨hfault, fun l hl => ?_⟩
  cases hl

/-- An error without a line gets that of the innermost call. -/
theorem RuntimeError.Explained.placed {e : RuntimeError} (h : e.Explained T) {calls : List Token}
    (hcalls : ∀ paren ∈ calls, T paren) : (e.placed calls).Explained T := by
  cases calls with
  | nil => exact h
  | cons paren calls =>
    obtain ⟨fault, line⟩ := e
    cases line with
    | some l => exact h
    | none => exact .located (hcalls paren List.mem_cons_self) h.fault

namespace Point

variable {p q : Point} {calls : List Token} {e : RuntimeError} {m' : Machine}

/-- A task that starts nothing fails at a token of its own. -/
theorem Fails.explained_of_isSmall (hp : p.task.isSmall = true) (hT : p.task.MadeOf T)
    (h : p.Fails e m') : e.Explained T := by
  obtain ⟨n, task, m⟩ := p
  -- an operator that the tree allows is known, so only its operands can be wrong
  cases task with
  | unary operator v =>
    obtain ⟨fault, hfault, rfl⟩ := Run.fails_ofFault h
    refine .located hT.known ?_
    rcases applyUnary_error hfault with rfl | ⟨-, hunknown⟩
    · trivial
    · rw [hT.operator] at hunknown
      cases hunknown
  | binary operator v w =>
    obtain ⟨fault, hfault, rfl⟩ := Run.fails_ofFault h
    refine .located hT.known ?_
    rcases applyBinary_error hfault with hmem | ⟨-, hunknown⟩
    · simp only [binaryFaults, List.mem_cons, List.not_mem_nil, or_false] at hmem
      rcases hmem with rfl | rfl | rfl <;> trivial
    · rw [hT.operator] at hunknown
      cases hunknown
  | lookup name =>
    obtain rfl := Run.fails_lookup h
    exact .located hT.known ⟨name, hT, rfl⟩
  | assign name value =>
    obtain rfl := Run.fails_assign h
    exact .located hT.known ⟨name, hT, rfl⟩
  | notCallable paren =>
    cases h
    exact .located hT trivial
  | wrongArity paren expected actual =>
    cases h
    exact .located hT.1 hT.2
  | native f arguments =>
    rcases Run.fails_callNative h with rfl | rfl <;> exact .unlocated trivial
  | print text =>
    obtain ⟨-, rfl, -⟩ := fails_print_iff.1 h
    exact .unlocated trivial
  | _ => cases hp

/-- A task fails with an error at one of the tokens that it is made of, or without a place. -/
theorem Fails.explained (h : p.Fails e m') (hp : p.MadeOf T) : e.Explained T := by
  obtain ⟨calls, q, e₀, m₀, hwithin, hsmall, hq, rfl, -⟩ := fails_iff.1 h
  obtain ⟨hmade, hcalls⟩ := hwithin.madeOf hp
  exact (hq.explained_of_isSmall hsmall hmade.task).placed hcalls

/-! ### Parameters -/

/-- A body starts in a scope that binds all its parameters. -/
theorem Starts.params_bound {call : Option Token} {params : List Token} {ss : List Stmt}
    (h : Starts p call q) (hq : q.task = .body params ss) :
    ∀ x ∈ params, x.lexeme ∈ q.machine.store.names q.machine.current := by
  cases h with
  | body _ _ hlength =>
    cases hq
    intro x hx
    exact Store.mem_names_add_defineAll (by rwa [List.length_map]) (List.mem_map_of_mem hx) _ _
  | _ => cases hq

/-- Also deep in a run a body finds its parameters bound. -/
theorem Within.params_bound {params : List Token} {ss : List Stmt} (h : Within p calls q)
    (hp : ∀ params ss, p.task ≠ .body params ss) (hq : q.task = .body params ss) :
    ∀ x ∈ params, x.lexeme ∈ q.machine.store.names q.machine.current := by
  cases h with
  | here => exact absurd hq (hp params ss)
  | next _ hs => exact hs.params_bound hq

end Point

/-- A call with as many arguments as there are parameters executes the body as a block of a scope
that binds them all. -/
theorem callValue_eq_execBlock (exec : Stmt → Run Flow) (identity : Nat) (name : Token)
    {params : List Token} (body : List Stmt) (scope : ScopeId) (paren : Token) {vs : List Value}
    (hlength : params.length = vs.length) (m : Machine) :
    ∃ (inner : ScopeId) (store : Store),
      (∀ x ∈ params, (store.own? inner x.lexeme).isSome = true) ∧
      callValue exec (.callable identity (.closure name params body scope)) paren vs m =
        Run.orAt paren (do return (← execBlock exec inner body).value) { m with store } := by
  refine ⟨m.store.size, (m.entered scope (params.map Token.lexeme) vs).store, fun x hx => ?_, ?_⟩
  · have hlength' : (params.map Token.lexeme).length = vs.length := by rwa [List.length_map]
    exact Store.mem_names.1
      (Store.mem_names_add_defineAll hlength' (List.mem_map_of_mem hx) m.store (some scope))
  have harity : (Callable.closure name params body scope).arity = vs.length := hlength
  rw [callValue, if_pos harity, invoke]
  rfl

end Lox
