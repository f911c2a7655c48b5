import Lox.Machine.Eval
import Lox.Proofs.Sequence

/-!
What a run may do to its machine. Expressions and statements do little by themselves: they bind
names, count functions, print and read the clock. What they do in a scope of their own is over when
they come back. So a pair of relations between machines that allows these steps, one for expressions
and one for statements, holds between the machines before and after every run, however it ends.
-/

namespace Lox

variable {α β : Type}

/-- The machine that works in a new scope inside the given one. -/
def Machine.entered (m : Machine) (parent : ScopeId) (names : List String) (values : List Value) :
    Machine :=
  { m with
    store := (m.store.add (some parent)).defineAll m.store.size names values
    current := m.store.size }

namespace Run

/-- The machine after a computation, however it ends. -/
def stop : EStateM.Result Stop Machine α → Machine
  | .ok _ m => m
  | .error _ m => m

/-- The computation takes every machine to one related to it. -/
def Moves (R : Machine → Machine → Prop) (r : Run α) : Prop := ∀ m, R m (stop (r m))

/-- Relations that allow what expressions and statements do. Statements do what expressions do, and
bind names in the current scope. -/
structure Stable (E S : Machine → Machine → Prop) : Prop where
  refl : ∀ m, E m m
  trans : ∀ {m m' m''}, E m m' → E m' m'' → E m m''
  transStatement : ∀ {m m' m''}, S m m' → S m' m'' → S m m''
  ofExpression : ∀ {m m'}, E m m' → S m m'
  assign : ∀ (m : Machine) {i : ScopeId} {name : String} (value : Value),
    m.store.resolve m.current name = some i → E m (m.define i name value)
  count : ∀ m : Machine, E m { m with identities := m.identities + 1 }
  print : ∀ (m : Machine) (line : String), E m { m with sink := m.sink.push line }
  read : ∀ m : Machine, E m { m with readings := m.readings + 1 }
  define : ∀ (m : Machine) (name : String) (value : Value), S m (m.define m.current name value)
  enter : ∀ {m m' : Machine} {parent : ScopeId} {names : List String} {values : List Value},
    S (m.entered parent names values) m' → E m { m' with current := m.current }

variable {R E S : Machine → Machine → Prop}

theorem Moves.mono {r : Run α} (h : Moves E r) (hES : ∀ {m m'}, E m m' → S m m') : Moves S r :=
  fun m => hES (h m)

/-- The relation is passed from the machine before to the one between and to the one after. -/
theorem Moves.bind {r : Run α} {f : α → Run β} (hr : Moves R r)
    (htrans : ∀ {m m' m''}, R m m' → R m' m'' → R m m'') (hf : ∀ a, Moves R (f a)) :
    Moves R (r >>= f) := by
  intro m
  have hm := hr m
  cases h : r m with
  | ok a m' =>
    rw [h] at hm
    rw [bind_of_ok h]
    exact htrans hm (hf a m')
  | error s m' =>
    rw [h] at hm
    rw [bind_of_error h]
    exact hm

/-- Placing an error leaves the machine as it is. -/
theorem stop_orAt (token : Token) (r : Run α) (m : Machine) :
    stop (orAt token r m) = stop (r m) := by
  unfold orAt
  split
  · next h => rw [h]; rfl
  · rfl

/-- Coming back, the machine differs from what the work left in its current scope only. -/
theorem stop_within (scope : ScopeId) (r : Run α) (m : Machine) :
    stop (within scope r m) =
      { stop (r { m with current := scope }) with current := m.current } := by
  unfold within
  cases r { m with current := scope } <;> rfl

theorem within_of_ok {scope : ScopeId} {r : Run α} {m m' : Machine} {a : α}
    (h : r { m with current := scope } = .ok a m') :
    within scope r m = .ok a { m' with current := m.current } := by
  unfold within
  dsimp only
  rw [h]

theorem within_of_error {scope : ScopeId} {r : Run α} {m m' : Machine} {s : Stop}
    (h : r { m with current := scope } = .error s m') :
    within scope r m = .error s { m' with current := m.current } := by
  unfold within
  dsimp only
  rw [h]

/-- What follows runs on the machine with the new scope, still working in the old one. -/
theorem openScope_bind (parent : ScopeId) (names : List String) (values : List Value)
    (f : ScopeId → Run β) (m : Machine) : (openScope parent names values >>= f) m =
      f m.store.size { m.entered parent names values with current := m.current } := rfl

namespace Stable

variable (h : Stable E S)

include h

theorem pure (a : α) : Moves E (Pure.pure a) := fun m => h.refl m

theorem bind {r : Run α} {f : α → Run β} (hr : Moves E r) (hf : ∀ a, Moves E (f a)) :
    Moves E (r >>= f) :=
  hr.bind h.trans hf

theorem bindStatement {r : Run α} {f : α → Run β} (hr : Moves S r) (hf : ∀ a, Moves S (f a)) :
    Moves S (r >>= f) :=
  hr.bind h.transStatement hf

theorem pureStatement (a : α) : Moves S (Pure.pure a) := (h.pure a).mono h.ofExpression

/-! ### Small steps -/

theorem fail (e : RuntimeError) : Moves E (Run.fail e : Run α) := fun m => h.refl m

theorem ofFault (token : Token) (x : Except RuntimeFault α) : Moves E (Run.ofFault token x) := by
  cases x with
  | ok a => exact h.pure a
  | error fault => exact h.fail _

theorem lookup (name : Token) : Moves E (Run.lookup name) := by
  intro m
  unfold Run.lookup
  split <;> exact h.refl m

/-- Only a name that is visible can be assigned, and where it is bound. -/
theorem assignName (name : Token) (value : Value) : Moves E (Run.assign name value) := by
  intro m
  unfold Run.assign
  split
  · next i hi => exact h.assign m value hi
  · exact h.refl m

theorem defineName (name : Token) (value : Value) : Moves S (Run.define name value) :=
  fun m => h.define m name.lexeme value

theorem close (name : Token) (params : List Token) (body : List Stmt) :
    Moves E (Run.close name params body) :=
  fun m => h.count m

theorem printLine (text : String) : Moves E (Run.printLine text) := by
  intro m
  unfold Run.printLine
  dsimp only
  split <;> exact h.print m _

theorem readClock : Moves E Run.readClock := by
  intro m
  unfold Run.readClock
  dsimp only
  split <;> exact h.read m

/-! ### Lists, scopes and calls -/

theorem evalList {eval : Expr → Run Value} (he : ∀ e, Moves E (eval e)) (es : List Expr) :
    Moves E (evalList eval es) := by
  induction es with
  | nil => exact h.pure []
  | cons e es ih => exact h.bind (he e) fun _ => h.bind ih fun _ => h.pure _

theorem evalOptional {eval : Expr → Run Value} (he : ∀ e, Moves E (eval e)) :
    ∀ e : Option Expr, Moves E (evalOptional eval e)
  | none => h.pure Value.nil
  | some e => he e

/-- Statements follow each other until one returns. -/
theorem andThen {r next : Run Flow} (hr : Moves S r) (hnext : Moves S next) :
    Moves S (r.andThen next) :=
  h.bindStatement hr fun flow => by
    cases flow with
    | normal => exact hnext
    | returned v => exact h.pureStatement _

theorem execList {exec : Stmt → Run Flow} (hs : ∀ s, Moves S (exec s)) (ss : List Stmt) :
    Moves S (execList exec ss) := by
  induction ss with
  | nil => exact h.pureStatement Flow.normal
  | cons s ss ih => exact h.andThen (hs s) ih

/-- A block in a new scope does what an expression may do. -/
theorem newBlock {exec : Stmt → Run Flow} (hs : ∀ s, Moves S (exec s)) (parent : ScopeId)
    (names : List String) (values : List Value) (body : List Stmt) :
    Moves E (do
      let inner ← openScope parent names values
      execBlock exec inner body) := by
  intro m
  have hinside := h.execList hs body (m.entered parent names values)
  have hback := h.enter hinside
  rwa [openScope_bind, execBlock, stop_within]

theorem callNative (f : Native) (arguments : List Value) : Moves E (callNative f arguments) := by
  unfold Lox.callNative
  split
  · exact h.readClock
  · exact h.pure _
  · exact h.fail _
  · exact h.pure _

/-- A call of a declared function does what its body does, in a scope of its own. -/
theorem invoke {exec : Stmt → Run Flow} (hs : ∀ s, Moves S (exec s)) (f : Callable)
    (arguments : List Value) : Moves E (invoke exec f arguments) := by
  cases f with
  | native g => exact h.callNative g arguments
  | closure name params body scope =>
    have hblock := h.bind (h.newBlock hs scope (params.map Token.lexeme) arguments body)
      fun flow => h.pure flow.value
    rwa [bind_assoc] at hblock

theorem callValue {exec : Stmt → Run Flow} (hs : ∀ s, Moves S (exec s)) (callee : Value)
    (paren : Token) (arguments : List Value) : Moves E (callValue exec callee paren arguments) := by
  unfold Lox.callValue
  split
  · split
    · intro m
      rw [stop_orAt]
      exact h.invoke hs _ arguments m
    · exact h.fail _
  · exact h.fail _

/-! ### Expressions and statements -/

theorem eval_and_exec : ∀ n : Nat, (∀ e, Moves E (eval n e)) ∧ (∀ s, Moves S (exec n s))
  | 0 => by
    refine ⟨fun e m => ?_, fun s m => ?_⟩
    · rw [eval]
      exact h.refl m
    · rw [exec]
      exact h.ofExpression (h.refl m)
  | n + 1 => by
    -- what is inside runs with a step less, and a value may be all that a statement is for
    obtain ⟨he, hs⟩ := eval_and_exec n
    have he' : ∀ e, Moves S (eval n e) := fun e => (he e).mono h.ofExpression
    refine ⟨fun e => ?_, fun s => ?_⟩
    · cases e with
      | literal value => rw [eval]; exact h.pure _
      | group inner => rw [eval]; exact he inner
      | unary operator right => rw [eval]; exact h.bind (he right) fun _ => h.ofFault _ _
      | binary left operator right =>
        rw [eval]
        exact h.bind (he left) fun _ => h.bind (he right) fun _ => h.ofFault _ _
      | logical left operator right =>
        rw [eval]
        refine h.bind (he left) fun v => ?_
        split
        · exact h.pure v
        · exact he right
      | reference name => rw [eval]; exact h.lookup name
      | assign name value =>
        rw [eval]
        exact h.bind (he value) fun v => h.bind (h.assignName name v) fun _ => h.pure v
      | call callee paren arguments =>
        rw [eval]
        exact h.bind (he callee) fun f => h.bind (h.evalList he arguments) fun vs =>
          h.callValue hs f paren vs
    · cases s with
      | print value =>
        rw [exec]
        refine (h.bind (he value) fun v => ?_).mono h.ofExpression
        exact h.bind (h.printLine v.text) fun _ => h.pure _
      | expression value =>
        rw [exec]
        exact h.bindStatement (he' value) fun _ => h.pureStatement _
      | declare name initial =>
        rw [exec]
        refine h.bindStatement ((h.evalOptional he initial).mono h.ofExpression) fun v => ?_
        exact h.bindStatement (h.defineName name v) fun _ => h.pureStatement _
      | block body =>
        rw [exec]
        exact fun m => h.ofExpression (h.newBlock hs m.current [] [] body m)
      | ifThen condition thenBranch =>
        rw [exec]
        refine h.bindStatement (he' condition) fun v => ?_
        split
        · exact hs thenBranch
        · exact h.pureStatement _
      | ifElse condition thenBranch elseBranch =>
        rw [exec]
        refine h.bindStatement (he' condition) fun v => ?_
        split
        · exact hs thenBranch
        · exact hs elseBranch
      | whileDo condition body =>
        rw [exec]
        refine h.bindStatement (he' condition) fun v => ?_
        split
        · exact h.andThen (hs body) (hs (.whileDo condition body))
        · exact h.pureStatement _
      | function name params body =>
        rw [exec]
        refine h.bindStatement ((h.close name params body).mono h.ofExpression) fun f => ?_
        exact h.bindStatement (h.defineName name f) fun _ => h.pureStatement _
      | returns keyword value =>
        rw [exec]
        refine h.bindStatement ((h.evalOptional he value).mono h.ofExpression) fun v => ?_
        exact h.pureStatement _

/-- Every expression does what expressions may do. -/
theorem eval (n : Nat) (e : Expr) : Moves E (eval n e) := (h.eval_and_exec n).1 e

/-- Every statement does what statements may do. -/
theorem exec (n : Nat) (s : Stmt) : Moves S (exec n s) := (h.eval_and_exec n).2 s

end Stable

end Run

end Lox
