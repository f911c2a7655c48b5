import Mathlib.Data.List.Forall2
import Lox.Proofs.Machine.Moves
import Lox.Proofs.Machine.Operator
import Lox.Proofs.Parser.Binding
import Lox.Proofs.Tree.Lines

/-!
Two runs side by side. A program gets at its machine by a few single steps only: it looks names up
and binds them, makes functions and calls them, prints and reads the clock. So if two machines agree
in what these steps see of them, and go on to agree after each step, then programs that are equal
but for their lines do alike on the two. What it means to agree is open: a `Simulation` says it, and
is sound if the single steps fit in with it. From there the lemmas follow the text of the evaluator,
once for all simulations. The second run may be granted more steps than the first; and a property of
one run is told by a simulation that compares the run with itself.
-/

namespace Lox

variable {α β : Type}

/-- The statements inside a statement. -/
def Stmt.parts : Stmt → List Stmt
  | .block body | .function _ _ body => body
  | .ifThen _ thenBranch => [thenBranch]
  | .ifElse _ thenBranch elseBranch => [thenBranch, elseBranch]
  | .whileDo _ body => [body]
  | _ => []

/-- The error on another line. -/
def RuntimeError.reline (f : Nat → Nat) (e : RuntimeError) : RuntimeError :=
  { e with line := e.line.map f }

theorem RuntimeError.reline_id (e : RuntimeError) : e.reline id = e := by
  simp [reline]

/-- How two runs are compared. A world is what is known of the two machines at some time; it says
which machines they may be and which of their scopes correspond, and whether names may be bound in
the current scopes. The programs run are of a certain code, and equal on other lines. -/
structure Simulation where
  World : Type
  later : World → World → Prop
  machines : World → Machine → Machine → Prop
  scopes : World → ScopeId → ScopeId → Prop
  binds : World → Prop
  code : Stmt → Prop
  lines : Nat → Nat
  more : Nat

namespace Simulation

/-! ### What two runs have in common -/

section Relations

variable (S : Simulation)

/-- The values look the same. They are equal and remember no scope, or are functions that were
declared alike in scopes that correspond. -/
inductive Values (w : S.World) : Value → Value → Prop
  | plain {v : Value} : v.scope? = none → Values w v v
  | closure {identity : Nat} {name name' : Token} {params params' : List Token}
    {body body' : List Stmt} {i i' : ScopeId} : name.reline S.lines = name'.reline S.lines →
    params.map (Token.reline S.lines) = params'.map (Token.reline S.lines) →
    Stmt.relineAll S.lines body = Stmt.relineAll S.lines body' → (∀ s ∈ body, S.code s) →
    S.scopes w i i' →
    Values w (.callable identity (.closure name params body i))
      (.callable identity (.closure name' params' body' i'))

/-- The statements end in the same way, with values that look the same. -/
inductive Flows (w : S.World) : Flow → Flow → Prop
  | normal : Flows w .normal .normal
  | returned {v v' : Value} : S.Values w v v' → Flows w (.returned v) (.returned v')

/-- Nothing is asked of the answers. -/
def Any (_ : S.World) (_ _ : α) : Prop := True

/-- The machines may be like this at some later time. -/
def Becomes (w : S.World) (m m' : Machine) : Prop := ∃ w₁, S.later w w₁ ∧ S.machines w₁ m m'

/-- The runs end alike: with answers of which `A` holds, with errors that are equal on other lines,
or without steps, which may happen to the first run alone if it has fewer. -/
inductive Ends (w : S.World) (A : S.World → α → α → Prop) :
    EStateM.Result Stop Machine α → EStateM.Result Stop Machine α → Prop
  | ok {w₁ : S.World} {a a' : α} {m m' : Machine} : S.later w w₁ → S.machines w₁ m m' →
    A w₁ a a' → Ends w A (.ok a m) (.ok a' m')
  | error {e e' : RuntimeError} {m m' : Machine} : S.Becomes w m m' →
    e.reline S.lines = e'.reline S.lines →
    Ends w A (.error (.error e) m) (.error (.error e') m')
  | outOfSteps {m m' : Machine} : S.Becomes w m m' →
    Ends w A (.error .outOfSteps m) (.error .outOfSteps m')
  | behind {m : Machine} {x : EStateM.Result Stop Machine α} : S.more ≠ 0 →
    Ends w A (.error .outOfSteps m) x

/-- From machines as the world has them, the two runs do alike. -/
def Goes (w : S.World) (A : S.World → α → α → Prop) (r r' : Run α) : Prop :=
  ∀ m m', S.machines w m m' → S.Ends w A (r m) (r' m')

/-- Expressions that are equal on other lines do alike. -/
def Evaluates (eval eval' : Expr → Run Value) : Prop :=
  ∀ ⦃e e' : Expr⦄, e.reline S.lines = e'.reline S.lines →
    ∀ w, S.Goes w S.Values (eval e) (eval' e')

/-- Statements that are equal on other lines do alike, if they bind nothing or names may be
bound. -/
def Executes (exec exec' : Stmt → Run Flow) : Prop :=
  ∀ ⦃s s' : Stmt⦄, s.reline S.lines = s'.reline S.lines → S.code s →
    ∀ w, s.bindsNothing = true ∨ S.binds w → S.Goes w S.Flows (exec s) (exec' s')

/-- The single steps fit in with the simulation. Work in a new scope begins in a world of its own,
from which there is a way back whatever was done there. -/
structure Sound : Prop where
  refl : ∀ {w m m'}, S.machines w m m' → S.later w w
  trans : ∀ {w w₁ w₂}, S.later w w₁ → S.later w₁ w₂ → S.later w w₂
  scopes : ∀ {w w₁ i i'}, S.later w w₁ → S.scopes w i i' → S.scopes w₁ i i'
  binds : ∀ {w w₁}, S.later w w₁ → S.binds w → S.binds w₁
  parts : ∀ {s}, S.code s → ∀ t ∈ s.parts, S.code t
  agree : ∀ {w m m'}, S.machines w m m' → m.identities = m'.identities ∧ m.sink = m'.sink ∧
    m.clock = m'.clock ∧ m.readings = m'.readings
  current : ∀ {w m m'}, S.machines w m m' → S.scopes w m.current m'.current
  get : ∀ {w m m'} (name : String), S.machines w m m' →
    Option.Rel (S.Values w) (m.store.get? m.current name) (m'.store.get? m'.current name)
  assign : ∀ {w m m' v v'} (name : String), S.machines w m m' → S.Values w v v' →
    Option.Rel (fun i i' => S.Becomes w (m.define i name v) (m'.define i' name v'))
      (m.store.resolve m.current name) (m'.store.resolve m'.current name)
  define : ∀ {w m m' v v'} (name : String), S.machines w m m' → S.binds w → S.Values w v v' →
    S.Becomes w (m.define m.current name v) (m'.define m'.current name v')
  touch : ∀ {w m m'} (identities : Nat) (sink : Sink) (readings : Nat), S.machines w m m' →
    S.Becomes w { m with identities, sink, readings } { m' with identities, sink, readings }
  enter : ∀ {w m m' p p' vs vs'} (names : List String), S.machines w m m' → S.scopes w p p' →
    List.Forall₂ (S.Values w) vs vs' →
    ∃ w₁, S.machines w₁ (m.entered p names vs) (m'.entered p' names vs') ∧ S.binds w₁ ∧
      ∀ {w₂ n n'}, S.later w₁ w₂ → S.machines w₂ n n' →
        ∃ w₃, S.later w w₃ ∧
          S.machines w₃ { n with current := m.current } { n' with current := m'.current } ∧
          ∀ i i', S.scopes w₂ i i' → S.scopes w₃ i i'

end Relations

variable {S : Simulation} {w w₁ : S.World}

/-! ### Values that look the same -/

section Values

variable {operator operator' : Token} {u u' v v' : Value}

theorem Values.mono (h : S.Values w v v')
    (hscopes : ∀ i i', S.scopes w i i' → S.scopes w₁ i i') : S.Values w₁ v v' := by
  cases h with
  | plain hv => exact .plain hv
  | closure hname hparams hbody hcode hi =>
    exact .closure hname hparams hbody hcode (hscopes _ _ hi)

/-- A value looks the same as itself if its function is of the code and its scope corresponds to
itself. -/
theorem values_self {v : Value} (h : ∀ identity name params body i,
    v = .callable identity (.closure name params body i) →
      (∀ s ∈ body, S.code s) ∧ S.scopes w i i) : S.Values w v v := by
  cases v with
  | callable identity f =>
    cases f with
    | native g => exact .plain rfl
    | closure name params body i =>
      obtain ⟨hcode, hi⟩ := h _ _ _ _ _ rfl
      exact .closure rfl rfl rfl hcode hi
  | _ => exact .plain rfl

/-- Where lines matter, functions that look the same differ in their scopes only. -/
theorem Values.eq_or_closure (h : S.Values w v v') (hlines : S.lines = id) :
    v.scope? = none ∧ v = v' ∨ ∃ identity name params body i i',
      v = .callable identity (.closure name params body i) ∧
      v' = .callable identity (.closure name params body i') ∧ (∀ s ∈ body, S.code s) ∧
      S.scopes w i i' := by
  cases h with
  | plain hv => exact .inl ⟨hv, rfl⟩
  | closure hname hparams hbody hcode hi =>
    rw [hlines, Token.reline_id, id, id] at hname
    rw [hlines, Token.reline_id, List.map_id, List.map_id] at hparams
    rw [hlines, Stmt.relineAll_id, Stmt.relineAll_id] at hbody
    exact .inr ⟨_, _, _, _, _, _, rfl, by rw [hname, hparams, hbody], hcode, hi⟩

/-- If also no scope corresponds to another one, values that look the same are equal. -/
theorem Values.eq (h : S.Values w v v') (hlines : S.lines = id)
    (hscopes : ∀ i i', S.scopes w i i' → i = i') : v = v' := by
  rcases h.eq_or_closure hlines with ⟨-, heq⟩ | ⟨_, _, _, _, _, _, rfl, rfl, -, hi⟩
  · exact heq
  · rw [hscopes _ _ hi]

theorem Values.isTruthy_eq (h : S.Values w v v') : v.isTruthy = v'.isTruthy := by
  cases h <;> rfl

/-- Of a function only the name is printed, and a name is the same on every line. -/
theorem Values.text_eq (h : S.Values w v v') : v.text = v'.text := by
  cases h with
  | plain => rfl
  | closure hname => rw [Value.text, Value.text, Callable.text, Callable.text,
      (Token.reline_eq_iff.1 hname).2.1]

/-- Functions are compared by identity, which is not touched. -/
theorem Values.equals_eq (hu : S.Values w u u') (hv : S.Values w v v') :
    u.equals v = u'.equals v' := by
  cases hu with
  | plain =>
    cases hv with
    | plain => rfl
    | closure => cases u <;> rfl
  | closure =>
    cases hv with
    | plain => cases v <;> rfl
    | closure => rfl

theorem Values.plus_eq (hu : S.Values w u u') (hv : S.Values w v v') :
    u.plus v = u'.plus v' := by
  have hutext := hu.text_eq
  have hvtext := hv.text_eq
  cases hu with
  | plain =>
    cases hv with
    | plain => rfl
    | closure => cases u <;> simp [Value.plus, hvtext]
  | closure =>
    cases hv with
    | plain => cases v <;> simp [Value.plus, hutext]
    | closure => rfl

variable (ho : operator.reline S.lines = operator'.reline S.lines)

include ho

/-- An operator takes no notice of its own line, nor of what is inside a function. -/
theorem Values.applyUnary_eq (hv : S.Values w v v') :
    applyUnary operator v = applyUnary operator' v' := by
  obtain ⟨hkind, hlexeme, -⟩ := Token.reline_eq_iff.1 ho
  unfold applyUnary
  rw [hkind, hlexeme, hv.isTruthy_eq]
  cases hv <;> rfl

theorem Values.applyBinary_eq (hu : S.Values w u u') (hv : S.Values w v v') :
    applyBinary operator u v = applyBinary operator' u' v' := by
  obtain ⟨hkind, hlexeme, -⟩ := Token.reline_eq_iff.1 ho
  unfold applyBinary applyArithmetic
  rw [hkind, hlexeme, hu.equals_eq hv, hu.plus_eq hv]
  cases hu with
  | plain =>
    cases hv with
    | plain => rfl
    | closure => cases u <;> rfl
  | closure => rfl

theorem Values.settles_eq (hv : S.Values w v v') : settles operator v = settles operator' v' := by
  unfold settles
  rw [(Token.reline_eq_iff.1 ho).1, hv.isTruthy_eq]

end Values

/-! ### Runs put together -/

section Runs

variable {A : S.World → α → α → Prop} {B : S.World → β → β → Prop} {r r' : Run α}
  (h : S.Sound)

include h

/-- What looks the same goes on to look the same. -/
theorem Values.later (hw : S.later w w₁) {v v' : Value} (hv : S.Values w v v') :
    S.Values w₁ v v' :=
  hv.mono fun _ _ => h.scopes hw

theorem becomes_self {m m' : Machine} (hm : S.machines w m m') : S.Becomes w m m' :=
  ⟨w, h.refl hm, hm⟩

theorem Becomes.later {m m' : Machine} (hw : S.later w w₁) (hm : S.Becomes w₁ m m') :
    S.Becomes w m m' := by
  obtain ⟨w₂, hw₂, hm₂⟩ := hm
  exact ⟨w₂, h.trans hw hw₂, hm₂⟩

/-- What is compared with a later world is compared with an earlier one as well. -/
theorem Ends.later (hw : S.later w w₁) {x x' : EStateM.Result Stop Machine α}
    (hx : S.Ends w₁ A x x') : S.Ends w A x x' := by
  cases hx with
  | ok hw₂ hm ha => exact .ok (h.trans hw hw₂) hm ha
  | error hm he => exact .error (hm.later h hw) he
  | outOfSteps hm => exact .outOfSteps (hm.later h hw)
  | behind hmore => exact .behind hmore

theorem goes_pure {a a' : α} (ha : A w a a') : S.Goes w A (pure a) (pure a') :=
  fun _ _ hm => .ok (h.refl hm) hm ha

/-- The rest of the two runs is compared in the world that the first part leaves. -/
theorem Goes.bind {f f' : α → Run β} (hr : S.Goes w A r r')
    (hf : ∀ w₁ a a', S.later w w₁ → A w₁ a a' → S.Goes w₁ B (f a) (f' a')) :
    S.Goes w B (r >>= f) (r' >>= f') := by
  intro m m' hm
  have hends := hr m m' hm
  generalize hx : r m = x at hends
  generalize hx' : r' m' = x' at hends
  cases hends with
  | ok hw hm₁ ha =>
    rw [bind_of_ok hx, bind_of_ok hx']
    exact (hf _ _ _ hw ha _ _ hm₁).later h hw
  | error hm₁ he =>
    rw [bind_of_error hx, bind_of_error hx']
    exact .error hm₁ he
  | outOfSteps hm₁ =>
    rw [bind_of_error hx, bind_of_error hx']
    exact .outOfSteps hm₁
  | behind hmore =>
    rw [bind_of_error hx]
    exact .behind hmore

/-- A run without steps left has nothing to keep up with, unless the other has none either. -/
theorem goes_outOfSteps (hr' : S.more = 0 → r' = throw .outOfSteps) :
    S.Goes w A (throw .outOfSteps) r' := by
  intro m m' hm
  by_cases hmore : S.more = 0
  · rw [hr' hmore]
    exact .outOfSteps (becomes_self h hm)
  · exact .behind hmore

/-! ### Single steps -/

variable {t t' : Token}

theorem goes_plain {v : Value} (hv : v.scope? = none) : S.Goes w S.Values (pure v) (pure v) :=
  goes_pure h (.plain hv)

theorem goes_fail {e e' : RuntimeError} (he : e.reline S.lines = e'.reline S.lines) :
    S.Goes w A (Run.fail e) (Run.fail e') :=
  fun _ _ hm => .error (becomes_self h hm) he

omit h in
theorem located_reline (ht : t.reline S.lines = t'.reline S.lines) (fault : RuntimeFault) :
    (RuntimeError.located t fault).reline S.lines =
      (RuntimeError.located t' fault).reline S.lines := by
  simp only [RuntimeError.reline, RuntimeError.located, Option.map_some]
  rw [(Token.reline_eq_iff.1 ht).2.2]

omit h in
/-- An error is placed at the same time in both runs, or in neither. -/
theorem orAt_reline {e e' : RuntimeError} (he : e.reline S.lines = e'.reline S.lines)
    (ht : t.reline S.lines = t'.reline S.lines) :
    (e.orAt t).reline S.lines = (e'.orAt t').reline S.lines := by
  have hline := (Token.reline_eq_iff.1 ht).2.2
  obtain ⟨fault, line⟩ := e
  obtain ⟨fault', line'⟩ := e'
  cases line <;> cases line' <;> simp_all [RuntimeError.reline, RuntimeError.orAt]

omit h in
theorem Goes.orAt (hr : S.Goes w A r r') (ht : t.reline S.lines = t'.reline S.lines) :
    S.Goes w A (Run.orAt t r) (Run.orAt t' r') := by
  intro m m' hm
  have hends := hr m m' hm
  unfold Run.orAt
  generalize r m = x at hends
  generalize r' m' = x' at hends
  cases hends with
  | ok hw hm₁ ha => exact .ok hw hm₁ ha
  | error hm₁ he => exact .error hm₁ (orAt_reline he ht)
  | outOfSteps hm₁ => exact .outOfSteps hm₁
  | behind hmore => exact .behind hmore

theorem goes_ofFault (ht : t.reline S.lines = t'.reline S.lines) {x : Except RuntimeFault Value}
    (hx : ∀ v, x = .ok v → v.scope? = none) :
    S.Goes w S.Values (Run.ofFault t x) (Run.ofFault t' x) := by
  cases x with
  | ok v => exact goes_plain h (hx v rfl)
  | error fault => exact goes_fail h (located_reline ht fault)

/-- A name that is visible in neither of two current scopes is undefined in both. -/
theorem goes_lookup (ht : t.reline S.lines = t'.reline S.lines) :
    S.Goes w S.Values (Run.lookup t) (Run.lookup t') := by
  intro m m' hm
  have hget := h.get t.lexeme hm
  unfold Run.lookup Store.lookup Store.undefined
  rw [← (Token.reline_eq_iff.1 ht).2.1]
  generalize m.store.get? m.current t.lexeme = x at hget
  generalize m'.store.get? m'.current t.lexeme = x' at hget
  cases hget with
  | none => exact .error (becomes_self h hm) (located_reline ht _)
  | some hv => exact .ok (h.refl hm) hm hv

theorem goes_assign (ht : t.reline S.lines = t'.reline S.lines) {v v' : Value}
    (hv : S.Values w v v') : S.Goes w S.Any (Run.assign t v) (Run.assign t' v') := by
  intro m m' hm
  have hassign := h.assign t.lexeme hm hv
  unfold Run.assign Store.undefined
  rw [← (Token.reline_eq_iff.1 ht).2.1]
  generalize m.store.resolve m.current t.lexeme = x at hassign
  generalize m'.store.resolve m'.current t.lexeme = x' at hassign
  cases hassign with
  | none => exact .error (becomes_self h hm) (located_reline ht _)
  | some hdefined =>
    obtain ⟨w₁, hw, hm₁⟩ := hdefined
    exact .ok hw hm₁ trivial

/-- This is the only step that needs that names may be bound. -/
theorem goes_define (ht : t.reline S.lines = t'.reline S.lines) (hbinds : S.binds w)
    {v v' : Value} (hv : S.Values w v v') :
    S.Goes w S.Any (Run.define t v) (Run.define t' v') := by
  intro m m' hm
  obtain ⟨w₁, hw, hm₁⟩ := h.define t.lexeme hm hbinds hv
  unfold Run.define
  rw [← (Token.reline_eq_iff.1 ht).2.1]
  exact .ok hw hm₁ trivial

/-- The functions made remember the current scopes, which correspond. -/
theorem goes_close (ht : t.reline S.lines = t'.reline S.lines) {params params' : List Token}
    (hparams : params.map (Token.reline S.lines) = params'.map (Token.reline S.lines))
    {body body' : List Stmt} (hbody : Stmt.relineAll S.lines body = Stmt.relineAll S.lines body')
    (hcode : ∀ s ∈ body, S.code s) :
    S.Goes w S.Values (Run.close t params body) (Run.close t' params' body') := by
  intro m m' hm
  obtain ⟨hidentities, hsink, -, hreadings⟩ := h.agree hm
  obtain ⟨w₁, hw, hm₁⟩ := h.touch (m.identities + 1) m.sink m.readings hm
  have hvalue : S.Values w₁ (.callable m.identities (.closure t params body m.current))
      (.callable m.identities (.closure t' params' body' m'.current)) :=
    .closure ht hparams hbody hcode (h.scopes hw (h.current hm))
  unfold Run.close Machine.fresh
  rw [hsink, hreadings, hidentities] at *
  exact .ok hw hm₁ hvalue

/-- The sinks are the same, so a line fits into both or into neither. -/
theorem goes_printLine (text : String) :
    S.Goes w S.Any (Run.printLine text) (Run.printLine text) := by
  intro m m' hm
  obtain ⟨hidentities, hsink, -, hreadings⟩ := h.agree hm
  obtain ⟨w₁, hw, hm₁⟩ := h.touch m.identities (m.sink.push (text ++ "\n")) m.readings hm
  unfold Run.printLine
  dsimp only
  rw [hidentities, hsink, hreadings] at *
  split
  · exact .ok hw hm₁ trivial
  · exact .error ⟨w₁, hw, hm₁⟩ rfl

theorem goes_readClock : S.Goes w S.Values Run.readClock Run.readClock := by
  intro m m' hm
  obtain ⟨hidentities, hsink, hclock, hreadings⟩ := h.agree hm
  obtain ⟨w₁, hw, hm₁⟩ := h.touch m.identities m.sink (m.readings + 1) hm
  unfold Run.readClock
  dsimp only
  rw [hidentities, hsink, hreadings, hclock] at *
  split
  · exact .ok hw hm₁ (.plain rfl)
  · exact .error ⟨w₁, hw, hm₁⟩ rfl

end Runs

/-! ### Lists, scopes and calls -/

section Calls

variable {eval eval' : Expr → Run Value} {exec exec' : Stmt → Run Flow} {r r' next next' : Run Flow}
  (h : S.Sound) (he : S.Evaluates eval eval') (hs : S.Executes exec exec')

include h

theorem goes_normal : S.Goes w S.Flows (return .normal) (return .normal) := goes_pure h .normal

theorem Goes.andThen (hr : S.Goes w S.Flows r r')
    (hnext : ∀ w₁, S.later w w₁ → S.Goes w₁ S.Flows next next') :
    S.Goes w S.Flows (Run.andThen r next) (Run.andThen r' next') := by
  refine hr.bind h fun w₁ flow flow' hw hflow => ?_
  cases hflow with
  | normal => exact hnext w₁ hw
  | returned hv => exact goes_pure h (.returned hv)

/-- Coming back, the runs end as they did in the scope. -/
theorem goes_newScope (hr : ∀ w₁, S.binds w₁ → S.Goes w₁ S.Flows r r') {p p' : ScopeId}
    (hp : S.scopes w p p') (names : List String) {vs vs' : List Value}
    (hvs : List.Forall₂ (S.Values w) vs vs') :
    S.Goes w S.Flows (Run.openScope p names vs >>= fun inner => Run.within inner r)
      (Run.openScope p' names vs' >>= fun inner => Run.within inner r') := by
  intro m m' hm
  obtain ⟨w₁, hentered, hbinds, hback⟩ := h.enter names hm hp hvs
  have hends := hr w₁ hbinds _ _ hentered
  rw [Run.openScope_bind, Run.openScope_bind]
  generalize hx : r (m.entered p names vs) = x at hends
  generalize hx' : r' (m'.entered p' names vs') = x' at hends
  -- however it ends, the scope is left again
  cases hends with
  | ok hw₂ hm₂ hflow =>
    obtain ⟨w₃, hw₃, hm₃, hscopes⟩ := hback hw₂ hm₂
    rw [Run.within_of_ok hx, Run.within_of_ok hx']
    refine .ok hw₃ hm₃ ?_
    cases hflow with
    | normal => exact .normal
    | returned hv => exact .returned (hv.mono hscopes)
  | error hbecomes herror =>
    obtain ⟨w₂, hw₂, hm₂⟩ := hbecomes
    obtain ⟨w₃, hw₃, hm₃, -⟩ := hback hw₂ hm₂
    rw [Run.within_of_error hx, Run.within_of_error hx']
    exact .error ⟨w₃, hw₃, hm₃⟩ herror
  | outOfSteps hbecomes =>
    obtain ⟨w₂, hw₂, hm₂⟩ := hbecomes
    obtain ⟨w₃, hw₃, hm₃, -⟩ := hback hw₂ hm₂
    rw [Run.within_of_error hx, Run.within_of_error hx']
    exact .outOfSteps ⟨w₃, hw₃, hm₃⟩
  | behind hmore =>
    rw [Run.within_of_error hx]
    exact .behind hmore

/-- A native function looks at numbers only, and these are equal. -/
theorem goes_callNative (g : Native) {vs vs' : List Value}
    (hvs : List.Forall₂ (S.Values w) vs vs') :
    S.Goes w S.Values (callNative g vs) (callNative g vs') := by
  cases g with
  | clock => exact goes_readClock h
  | pi => exact goes_plain h rfl
  | abs =>
    cases hvs with
    | nil => exact goes_fail h rfl
    | @cons v v' vs vs' hv =>
      cases hv with
      | plain =>
        cases v with
        | number x => exact goes_plain h rfl
        | _ => exact goes_fail h rfl
      | closure => exact goes_fail h rfl

include he in
theorem goes_evalList : ∀ {es es' : List Expr},
    Expr.relineAll S.lines es = Expr.relineAll S.lines es' → ∀ w,
      S.Goes w (fun w => List.Forall₂ (S.Values w)) (evalList eval es) (evalList eval' es')
  | [], [], _, _ => goes_pure h .nil
  | e :: es, e' :: es', hes, w => by
    obtain ⟨hfirst, hothers⟩ := List.cons.inj hes
    refine (he hfirst w).bind h fun w₁ v v' _ hv => ?_
    refine (goes_evalList hothers w₁).bind h fun w₂ vs vs' hw hvs => ?_
    exact goes_pure h (.cons (hv.later h hw) hvs)

include he in
theorem goes_evalOptional {e e' : Option Expr}
    (heq : e.map (Expr.reline S.lines) = e'.map (Expr.reline S.lines)) (w : S.World) :
    S.Goes w S.Values (evalOptional eval e) (evalOptional eval' e') := by
  cases e with
  | none =>
    obtain rfl := Option.map_eq_none_iff.1 heq.symm
    exact goes_plain h rfl
  | some e =>
    obtain ⟨e', rfl, heq'⟩ := Option.map_eq_some_iff.1 heq.symm
    exact he heq'.symm w

include hs

/-- In a scope in which names may be bound, any statements do alike. -/
theorem goes_execList : ∀ {ss ss' : List Stmt},
    Stmt.relineAll S.lines ss = Stmt.relineAll S.lines ss' → (∀ s ∈ ss, S.code s) →
    ∀ w, S.binds w → S.Goes w S.Flows (execList exec ss) (execList exec' ss')
  | [], [], _, _, _, _ => goes_normal h
  | s :: ss, s' :: ss', hss, hcode, w, hbinds => by
    obtain ⟨hfirst, hothers⟩ := List.cons.inj hss
    rw [List.forall_mem_cons] at hcode
    refine (hs hfirst hcode.1 w (.inr hbinds)).andThen h fun w₁ hw => ?_
    exact goes_execList hothers hcode.2 w₁ (h.binds hw hbinds)

/-- The body of a block or of a function runs in a scope made for it. -/
theorem goes_newBlock {p p' : ScopeId} (hp : S.scopes w p p') (names : List String)
    {vs vs' : List Value} (hvs : List.Forall₂ (S.Values w) vs vs') {body body' : List Stmt}
    (hbody : Stmt.relineAll S.lines body = Stmt.relineAll S.lines body')
    (hcode : ∀ s ∈ body, S.code s) :
    S.Goes w S.Flows (Run.openScope p names vs >>= fun inner => execBlock exec inner body)
      (Run.openScope p' names vs' >>= fun inner => execBlock exec' inner body') :=
  goes_newScope h (goes_execList h hs hbody hcode) hp names hvs

/-- A function that looks the same binds the same parameters to the arguments and has a body that
is equal on other lines. -/
theorem goes_callValue {v v' : Value} (hv : S.Values w v v') {paren paren' : Token}
    (hparen : paren.reline S.lines = paren'.reline S.lines) {vs vs' : List Value}
    (hvs : List.Forall₂ (S.Values w) vs vs') :
    S.Goes w S.Values (callValue exec v paren vs) (callValue exec' v' paren' vs') := by
  have hfail : ∀ fault, S.Goes w S.Values (Run.fail (.located paren fault))
      (Run.fail (.located paren' fault)) := fun fault => goes_fail h (located_reline hparen fault)
  -- a function that is compared as it is must be a native one
  cases hv with
  | plain hplain =>
    cases v with
    | callable identity f =>
      cases f with
      | native g =>
        rw [callValue, callValue, ← hvs.length_eq]
        split
        · exact (goes_callNative h g hvs).orAt hparen
        · exact hfail _
      | closure name params body scope => cases hplain
    | _ => exact hfail _
  | @closure _ _ _ params params' body body' _ _ _ hparams hbody hcode hscope =>
    have hnames : params.map Token.lexeme = params'.map Token.lexeme := by
      have hmap := congrArg (List.map Token.lexeme) hparams
      rwa [List.map_map, List.map_map] at hmap
    have hlength : params.length = params'.length := by
      have hmap := congrArg List.length hnames
      rwa [List.length_map, List.length_map] at hmap
    rw [callValue, callValue, Callable.arity, Callable.arity, ← hvs.length_eq, ← hlength]
    split
    · refine Goes.orAt ?_ hparen
      rw [invoke, invoke, ← hnames, ← bind_assoc, ← bind_assoc]
      refine (goes_newBlock h hs hscope _ hvs hbody hcode).bind h fun w₁ flow flow' _ hflow => ?_
      cases hflow with
      | normal => exact goes_plain h rfl
      | returned hvalue => exact goes_pure h hvalue
    · exact hfail _

end Calls

/-! ### Expressions and statements -/

/-- Programs that are equal on other lines do alike. -/
theorem Sound.evaluates_and_executes (h : S.Sound) : ∀ n : Nat,
    S.Evaluates (eval n) (eval (S.more + n)) ∧ S.Executes (exec n) (exec (S.more + n))
  | 0 => by
    refine ⟨fun e e' _ w => ?_, fun s s' _ _ w _ => ?_⟩
    · rw [eval]
      refine goes_outOfSteps h fun hmore => ?_
      rw [hmore, eval]
    · rw [exec]
      refine goes_outOfSteps h fun hmore => ?_
      rw [hmore, exec]
  | n + 1 => by
    obtain ⟨he, hs⟩ := h.evaluates_and_executes n
    refine ⟨fun e e' heq w => ?_, fun s s' heq hcode w hbinds => ?_⟩
    · rw [← Nat.add_assoc, eval.eq_def (n + 1), eval.eq_def (S.more + n + 1)]
      cases Expr.alike_of_reline heq with
      | literal value => exact goes_plain h (scope?_ofLiteral value)
      | group hinner => exact he hinner w
      | unary ho hright =>
        refine (he hright w).bind h fun w₁ v v' _ hv => ?_
        rw [← hv.applyUnary_eq ho]
        exact goes_ofFault h ho fun _ => scope?_applyUnary
      | binary hleft ho hright =>
        refine (he hleft w).bind h fun w₁ u u' _ hu => ?_
        refine (he hright w₁).bind h fun w₂ v v' hw hv => ?_
        rw [← (hu.later h hw).applyBinary_eq ho hv]
        exact goes_ofFault h ho fun _ => scope?_applyBinary
      | logical hleft ho hright =>
        refine (he hleft w).bind h fun w₁ v v' _ hv => ?_
        rw [← hv.settles_eq ho]
        split
        · exact goes_pure h hv
        · exact he hright w₁
      | reference hname => exact goes_lookup h hname
      | assign hname hvalue =>
        refine (he hvalue w).bind h fun w₁ v v' _ hv => ?_
        refine (goes_assign h hname hv).bind h fun w₂ _ _ hw _ => ?_
        exact goes_pure h (hv.later h hw)
      | call hcallee hparen harguments =>
        refine (he hcallee w).bind h fun w₁ v v' _ hv => ?_
        refine (goes_evalList h he harguments w₁).bind h fun w₂ vs vs' hw hvs => ?_
        exact goes_callValue h hs (hv.later h hw) hparen hvs
    · rw [← Nat.add_assoc, exec.eq_def (n + 1), exec.eq_def (S.more + n + 1)]
      -- only a declaration needs that names may be bound
      cases Stmt.alike_of_reline heq with
      | print hvalue =>
        refine (he hvalue w).bind h fun w₁ v v' _ hv => ?_
        rw [← hv.text_eq]
        exact (goes_printLine h v.text).bind h fun _ _ _ _ _ => goes_normal h
      | expression hvalue => exact (he hvalue w).bind h fun _ _ _ _ _ => goes_normal h
      | declare hname hinitial =>
        have hbinds' : S.binds w := hbinds.resolve_left (by simp [Stmt.bindsNothing])
        refine (goes_evalOptional h he hinitial w).bind h fun w₁ v v' hw hv => ?_
        exact (goes_define h hname (h.binds hw hbinds') hv).bind h fun _ _ _ _ _ => goes_normal h
      | block hbody =>
        intro m m' hm
        exact goes_newBlock h hs (h.current hm) [] .nil hbody (h.parts hcode) m m' hm
      | ifThen hcondition hthen =>
        refine (he hcondition w).bind h fun w₁ v v' hw hv => ?_
        rw [← hv.isTruthy_eq]
        split
        · exact hs hthen (h.parts hcode _ (by simp [Stmt.parts])) w₁ (hbinds.imp id (h.binds hw))
        · exact goes_normal h
      | ifElse hcondition hthen helse =>
        simp only [Stmt.bindsNothing, Bool.and_eq_true] at hbinds
        refine (he hcondition w).bind h fun w₁ v v' hw hv => ?_
        rw [← hv.isTruthy_eq]
        split
        · exact hs hthen (h.parts hcode _ (by simp [Stmt.parts])) w₁
            (hbinds.imp And.left (h.binds hw))
        · exact hs helse (h.parts hcode _ (by simp [Stmt.parts])) w₁
            (hbinds.imp And.right (h.binds hw))
      | whileDo hcondition hbody =>
        refine (he hcondition w).bind h fun w₁ v v' hw hv => ?_
        rw [← hv.isTruthy_eq]
        split
        · have hbinds' := hbinds.imp id (h.binds hw)
          refine (hs hbody (h.parts hcode _ (by simp [Stmt.parts])) w₁ hbinds').andThen h ?_
          exact fun w₂ hw₂ => hs heq hcode w₂ (hbinds'.imp id (h.binds hw₂))
        · exact goes_normal h
      | function hname hparams hbody =>
        have hbinds' : S.binds w := hbinds.resolve_left (by simp [Stmt.bindsNothing])
        refine (goes_close h hname hparams hbody (h.parts hcode)).bind h fun w₁ v v' hw hv => ?_
        exact (goes_define h hname (h.binds hw hbinds') hv).bind h fun _ _ _ _ _ => goes_normal h
      | returns _ hvalue =>
        refine (goes_evalOptional h he hvalue w).bind h fun w₁ v v' _ hv => ?_
        exact goes_pure h (.returned hv)

/-- With as many steps on either side, the evaluator is compared with itself. -/
theorem Sound.evaluates (h : S.Sound) (hmore : S.more = 0) (n : Nat) :
    S.Evaluates (eval n) (eval n) := by
  have heval := (h.evaluates_and_executes n).1
  rwa [hmore, Nat.zero_add] at heval

theorem Sound.executes (h : S.Sound) (hmore : S.more = 0) (n : Nat) :
    S.Executes (exec n) (exec n) := by
  have hexec := (h.evaluates_and_executes n).2
  rwa [hmore, Nat.zero_add] at hexec

end Simulation

end Lox
