import Lox.Proofs.Machine.Moves

/-!
What a run sees of the sink. Of all the steps of a run only printing touches the sink; every other
step does the same whatever the sink is. So a property of computations that holds of such silent
steps and of printing, and that is kept by the ways in which computations are put together, holds of
every run.
-/

namespace Lox

variable {α β : Type}

namespace Run

/-- The result with another sink. -/
def onSink (sink : Sink) : EStateM.Result Stop Machine α → EStateM.Result Stop Machine α
  | .ok a m => .ok a { m with sink }
  | .error s m => .error s { m with sink }

/-- The computation does not see the sink. -/
def Silent (r : Run α) : Prop := ∀ m sink, r { m with sink } = onSink sink (r m)

variable {r : Run α}

/-- Whoever does not see the sink leaves it as it is. -/
theorem Silent.sink_stop (h : Silent r) (m : Machine) : (stop (r m)).sink = m.sink := by
  have heq : r m = onSink m.sink (r m) := h m m.sink
  rw [heq]
  cases r m <;> rfl

/-! ### Silent steps -/

theorem silent_pure (a : α) : Silent (pure a) := fun _ _ => rfl

theorem silent_throw (s : Stop) : Silent (throw s : Run α) := fun _ _ => rfl

theorem silent_ofFault (token : Token) (x : Except RuntimeFault α) : Silent (ofFault token x) := by
  cases x with
  | ok a => exact silent_pure a
  | error fault => exact silent_throw _

theorem silent_lookup (name : Token) : Silent (lookup name) := by
  intro m sink
  unfold lookup
  dsimp only
  cases m.store.lookup m.current name <;> rfl

theorem silent_assign (name : Token) (value : Value) : Silent (assign name value) := by
  intro m sink
  unfold assign
  dsimp only
  cases m.store.resolve m.current name.lexeme <;> rfl

theorem silent_define (name : Token) (value : Value) : Silent (define name value) := fun _ _ => rfl

theorem silent_close (name : Token) (params : List Token) (body : List Stmt) :
    Silent (close name params body) := fun _ _ => rfl

/-- Making scopes prints nothing. -/
theorem silent_openScope (parent : ScopeId) (names : List String) (values : List Value) :
    Silent (openScope parent names values) := fun _ _ => rfl

theorem silent_readClock : Silent readClock := by
  intro m sink
  unfold readClock
  dsimp only
  cases m.clock m.readings <;> rfl

/-- No native function prints. -/
theorem silent_callNative (f : Native) (arguments : List Value) :
    Silent (callNative f arguments) := by
  unfold callNative
  split
  · exact silent_readClock
  · exact silent_pure _
  · exact silent_throw _
  · exact silent_pure _

/-! ### Whole runs -/

/-- The property holds of what is silent and of printing, and is kept by the ways in which
computations are put together. -/
structure Closed (P : (α : Type) → Run α → Prop) : Prop where
  silent : ∀ {α : Type} {r : Run α}, Silent r → P α r
  printLine : ∀ text : String, P Unit (printLine text)
  bind : ∀ {α β : Type} {r : Run α} {f : α → Run β}, P α r → (∀ a, P β (f a)) → P β (r >>= f)
  orAt : ∀ {α : Type} {r : Run α} (token : Token), P α r → P α (orAt token r)
  within : ∀ {α : Type} {r : Run α} (scope : ScopeId), P α r → P α (within scope r)
  inCurrent : ∀ {α : Type} {f : ScopeId → Run α}, (∀ i, P α (f i)) → P α fun m => f m.current m

namespace Closed

variable {P : (α : Type) → Run α → Prop} (h : Closed P)

include h

theorem pure (a : α) : P α (pure a) := h.silent (silent_pure a)

theorem fail (e : RuntimeError) : P α (fail e) := h.silent (silent_throw _)

/-- Arguments are evaluated one after the other. -/
theorem evalList {eval : Expr → Run Value} (he : ∀ e, P Value (eval e)) (es : List Expr) :
    P (List Value) (evalList eval es) := by
  induction es with
  | nil => exact h.pure []
  | cons e es ih => exact h.bind (he e) fun _ => h.bind ih fun _ => h.pure _

theorem evalOptional {eval : Expr → Run Value} (he : ∀ e, P Value (eval e)) :
    ∀ e : Option Expr, P Value (evalOptional eval e)
  | none => h.pure _
  | some e => he e

/-- What comes after a return is not run. -/
theorem andThen {r next : Run Flow} (hr : P Flow r) (hnext : P Flow next) :
    P Flow (r.andThen next) := by
  refine h.bind hr fun flow => ?_
  cases flow with
  | normal => exact hnext
  | returned v => exact h.pure _

theorem execList {exec : Stmt → Run Flow} (hs : ∀ s, P Flow (exec s)) (ss : List Stmt) :
    P Flow (execList exec ss) := by
  induction ss with
  | nil => exact h.pure _
  | cons s ss ih => exact h.andThen (hs s) ih

/-- A block is its statements in a scope of its own. -/
theorem execBlock {exec : Stmt → Run Flow} (hs : ∀ s, P Flow (exec s)) (scope : ScopeId)
    (body : List Stmt) : P Flow (execBlock exec scope body) :=
  h.within scope (h.execList hs body)

/-- A call prints what its body prints, and placing its error prints nothing. -/
theorem callValue {exec : Stmt → Run Flow} (hs : ∀ s, P Flow (exec s)) (callee : Value)
    (paren : Token) (arguments : List Value) :
    P Value (callValue exec callee paren arguments) := by
  unfold Lox.callValue
  split
  · split
    · next f _ =>
      refine h.orAt paren ?_
      cases f with
      | native g => exact h.silent (silent_callNative g arguments)
      | closure name params body scope =>
        refine h.bind (h.silent (silent_openScope _ _ _)) fun inner => ?_
        exact h.bind (h.execBlock hs inner body) fun flow => h.pure _
    · exact h.fail _
  · exact h.fail _

/-- Runs with `n` steps have the property. -/
theorem eval_and_exec : ∀ n : Nat, (∀ e, P Value (eval n e)) ∧ (∀ s, P Flow (exec n s))
  | 0 => by
    refine ⟨fun e => ?_, fun s => ?_⟩
    · rw [eval]
      exact h.silent (silent_throw _)
    · rw [exec]
      exact h.silent (silent_throw _)
  | n + 1 => by
    obtain ⟨he, hs⟩ := eval_and_exec n
    have hnormal : P Flow (Pure.pure Flow.normal) := h.pure _
    have hdefine : ∀ name value, P Unit (define name value) := fun name value =>
      h.silent (silent_define name value)
    refine ⟨fun e => ?_, fun s => ?_⟩
    · rw [eval.eq_def]
      cases e with
      | literal value => exact h.pure _
      | group inner => exact he inner
      | unary operator right =>
        exact h.bind (he right) fun _ => h.silent (silent_ofFault _ _)
      | binary left operator right =>
        refine h.bind (he left) fun _ => h.bind (he right) fun _ => ?_
        exact h.silent (silent_ofFault _ _)
      | logical left operator right =>
        refine h.bind (he left) fun v => ?_
        split
        · exact h.pure v
        · exact he right
      | reference name => exact h.silent (silent_lookup name)
      | assign name value =>
        refine h.bind (he value) fun v => ?_
        exact h.bind (h.silent (silent_assign name v)) fun _ => h.pure v
      | call callee paren arguments =>
        refine h.bind (he callee) fun f => h.bind (h.evalList he arguments) fun vs => ?_
        exact h.callValue hs f paren vs
    · rw [exec.eq_def]
      cases s with
      | print value =>
        exact h.bind (he value) fun v => h.bind (h.printLine v.text) fun _ => hnormal
      | expression value => exact h.bind (he value) fun _ => hnormal
      | declare name initial =>
        exact h.bind (h.evalOptional he initial) fun v => h.bind (hdefine name v) fun _ => hnormal
      | block body =>
        refine h.inCurrent (f := fun current => openScope current [] [] >>= fun inner =>
          Lox.execBlock (exec n) inner body) fun current => ?_
        exact h.bind (h.silent (silent_openScope _ _ _)) fun inner => h.execBlock hs inner body
      | ifThen condition thenBranch =>
        refine h.bind (he condition) fun v => ?_
        split
        · exact hs thenBranch
        · exact hnormal
      | ifElse condition thenBranch elseBranch =>
        refine h.bind (he condition) fun v => ?_
        split
        · exact hs thenBranch
        · exact hs elseBranch
      | whileDo condition body =>
        refine h.bind (he condition) fun v => ?_
        split
        · exact h.andThen (hs body) (hs (.whileDo condition body))
        · exact hnormal
      | function name params body =>
        refine h.bind (h.silent (silent_close name params body)) fun f => ?_
        exact h.bind (hdefine name f) fun _ => hnormal
      | returns keyword value =>
        exact h.bind (h.evalOptional he value) fun v => h.pure _

/-- Every expression has the property. -/
theorem eval (n : Nat) (e : Expr) : P Value (eval n e) := (h.eval_and_exec n).1 e

/-- Every statement has the property. -/
theorem exec (n : Nat) (s : Stmt) : P Flow (exec n s) := (h.eval_and_exec n).2 s

end Closed

end Run

end Lox
