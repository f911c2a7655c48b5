import Lox.Proofs.Machine.Current
import Lox.Proofs.Machine.Fence
import Mathlib.Logic.Relation

/-!
Calls see where a function was declared, not where they are made. A call works in a scope of its own
inside the one around the declaration; so it does the same wherever it is made, and changes only
what links lead to from that scope or from a function among its arguments. A statement changes only
what links lead to from the current scope.
-/

namespace Lox

variable {α β : Type}

/-- A chain of links leads from one scope to the other. -/
def Store.Reaches (s : Store) : ScopeId → ScopeId → Prop := Relation.ReflTransGen s.Link

namespace Fence

/-! ### What can be reached -/

/-- The fence around what can be reached from some scopes. -/
def around (s : Store) (roots : ScopeId → Prop) : Fence where
  reached i := ∃ root, roots root ∧ s.Reaches root i
  base := s.size

/-- Whatever is reached leads to what is reached. -/
theorem closed_around (s : Store) (roots : ScopeId → Prop) : (around s roots).Closed s := by
  refine ⟨Nat.le_refl _, fun i j hi hlink => ?_⟩
  rcases hi with ⟨root, hroot, hreach⟩ | ⟨hbase, hlt⟩
  · exact .inl ⟨root, hroot, hreach.tail hlink⟩
  · exact absurd hlt (Nat.not_lt.2 hbase)

theorem inside_around {s : Store} {roots : ScopeId → Prop} {i : ScopeId} (h : roots i) :
    (around s roots).Inside s i :=
  .inl ⟨i, h, .refl⟩

end Fence

/-! ### Calls -/

namespace Run

/-- The result with another current scope. -/
def inScope (scope : ScopeId) : EStateM.Result Stop Machine α → EStateM.Result Stop Machine α
  | .ok a m => .ok a { m with current := scope }
  | .error s m => .error s { m with current := scope }

/-- Where a machine worked before does not matter for work elsewhere. -/
theorem within_inScope (scope : ScopeId) (r : Run α) (m : Machine) (elsewhere : ScopeId) :
    within scope r { m with current := elsewhere } = inScope elsewhere (within scope r m) := by
  unfold within
  dsimp only
  cases r { m with current := scope } <;> rfl

theorem bind_pure_inScope {r : Run α} {m m' : Machine} {scope : ScopeId}
    (h : r m' = inScope scope (r m)) {f : α → β} :
    (r >>= fun a => pure (f a)) m' = inScope scope ((r >>= fun a => pure (f a)) m) := by
  cases hr : r m with
  | ok a m'' =>
    rw [hr] at h
    rw [bind_of_ok hr, bind_of_ok h]
    rfl
  | error s m'' =>
    rw [hr] at h
    rw [bind_of_error hr, bind_of_error h]
    rfl

theorem callNative_inScope (g : Native) (arguments : List Value) (m : Machine)
    (elsewhere : ScopeId) : callNative g arguments { m with current := elsewhere } =
      inScope elsewhere (callNative g arguments m) := by
  unfold callNative
  split
  · unfold readClock
    dsimp only
    cases m.clock m.readings <;> rfl
  · rfl
  · rfl
  · rfl

/-- A call does not see the scope in which it is made. -/
theorem invoke_inScope (exec : Stmt → Run Flow) (f : Callable) (arguments : List Value)
    (m : Machine) (elsewhere : ScopeId) : invoke exec f arguments { m with current := elsewhere } =
      inScope elsewhere (invoke exec f arguments m) := by
  cases f with
  | native g => exact callNative_inScope g arguments m elsewhere
  | closure name params body scope =>
    unfold invoke
    dsimp only
    rw [openScope_bind, openScope_bind]
    exact bind_pure_inScope (within_inScope m.store.size (execList exec body)
      { m.entered scope (params.map Token.lexeme) arguments with current := m.current } elsewhere)

end Run

namespace Machine

open Fence

variable {m m' : Machine} {steps : Nat}

/-- Nor does it matter for the outcome. -/
theorem perform_inScope {r : Run α} {scope : ScopeId}
    (h : r { m with current := scope } = Run.inScope scope (r m)) :
    ({ m with current := scope } : Machine).perform r =
      (m.perform r).map fun (outcome, m') => (outcome, { m' with current := scope }) := by
  unfold perform
  rw [h]
  cases r m with
  | ok a m' => rfl
  | error s m' => cases s <;> rfl

/-- What a computation that stays inside does is not seen outside. -/
theorem outside_of_ends {F : Fence} {A : Store → α → Prop} {r : Run α} {outcome : Outcome α}
    (h : F.Ends A m (r m)) (hrun : m.perform r = some (outcome, m')) {i : ScopeId}
    (hi : i < F.base) (hout : ¬F.reached i) : m'.store.scopes[i]? = m.store.scopes[i]? := by
  rw [perform_eq_some hrun]
  exact h.kept.outside i hi hout

/-- The scopes that a function and its arguments remember. -/
def callRoots (f : Callable) (arguments : List Value) (i : ScopeId) : Prop :=
  f.scope? = some i ∨ ∃ v ∈ arguments, v.scope? = some i

/-- A call has the same outcome and does the same, wherever it is made. It leaves every scope as it
was that cannot be reached from the scope around the declaration of the function or from a function
among its arguments; and so does a statement with those that cannot be reached from the current
scope. -/
theorem calls_are_lexical_and_local :
    (∀ (m : Machine) (steps : Nat) (f : Callable) (arguments : List Value) (scope : ScopeId),
      ({ m with current := scope } : Machine).call steps f arguments =
        (m.call steps f arguments).map fun (outcome, m') =>
          (outcome, { m' with current := scope })) ∧
    (∀ (m m' : Machine) (steps : Nat) (f : Callable) (arguments : List Value)
      (outcome : Outcome Value), m.call steps f arguments = some (outcome, m') →
      ∀ i < m.store.size, (∀ root, callRoots f arguments root → ¬m.store.Reaches root i) →
        m'.store.scopes[i]? = m.store.scopes[i]?) ∧
    (∀ (m m' : Machine) (steps : Nat) (s : Stmt) (outcome : Outcome Flow),
      m.execute steps s = some (outcome, m') →
      ∀ i < m.store.size, ¬m.store.Reaches m.current i →
        m'.store.scopes[i]? = m.store.scopes[i]?) := by
  refine ⟨?_, ?_, ?_⟩
  · intro m steps f arguments scope
    exact perform_inScope (Run.invoke_inScope (exec steps) f arguments m scope)
  · intro m m' steps f arguments outcome hrun i hi hout
    let F := around m.store (callRoots f arguments)
    have hf : ∀ j, f.scope? = some j → F.Inside m.store j := fun j hj => inside_around (.inl hj)
    have harguments : F.HoldsAll m.store arguments :=
      fun v hv j hj => inside_around (.inr ⟨v, hv, hj⟩)
    have hends := ends_invoke (confines_exec steps) (closed_around m.store _) hf harguments
    refine outside_of_ends hends hrun hi ?_
    rintro ⟨root, hroot, hreach⟩
    exact hout root hroot hreach
  · intro m m' steps s outcome hrun i hi hout
    have hends := confines_exec steps s m (closed_around m.store (· = m.current))
      (inside_around rfl)
    refine outside_of_ends hends hrun hi ?_
    rintro ⟨root, rfl, hreach⟩
    exact hout hreach

/-- Two scopes inside that of the globals; the first binds `a`, and the machine works in the second.
-/
def siblings : Machine where
  store := (((Store.mk #[] Store.parent_lt_empty).add none).add (some 0)).add (some 0)
    |>.define 1 "a" .nil
  current := 2
  identities := 0
  sink := {}
  clock := fun _ => none

/-- A function, declared in the first scope, that gives `a` a new value. -/
def setter : Callable :=
  .closure ⟨.identifier, "set", 1⟩ []
    [.expression (.assign ⟨.identifier, "a", 1⟩ (.literal (.bool true)))] 1

theorem not_reaches_siblings : ¬siblings.store.Reaches 1 2 := by
  have hlinks : ∀ i j, i < 2 → siblings.store.Link i j → j < 2 := by
    intro i j hi hlink
    cases hlink with
    | parent h => exact Nat.lt_trans (siblings.store.parent_lt i j h) hi
    | binding h hscope =>
      simp only [siblings, Store.own?_define, Store.own?_add] at h
      split at h
      · cases h
        cases hscope
      · simp [Store.own?] at h
  have hreach : ∀ i, siblings.store.Reaches 1 i → i < 2 := by
    intro i h
    induction h with
    | refl => decide
    | tail _ hlink ih => exact hlinks _ _ ih hlink
  intro h
  exact absurd (hreach 2 h) (by decide)

theorem calls_are_lexical_and_local_siblings : ∃ (outcome : Outcome Value) (m : Machine),
    siblings.call 4 setter [] = some (outcome, m) ∧ outcome.errors = [] ∧
    (m.store.own? 1 "a").map Value.text = some "true" ∧ ¬siblings.store.Reaches 1 2 ∧
    m.store.scopes[2]? = siblings.store.scopes[2]? := by
  have hcall : (siblings.call 4 setter []).map (fun (outcome, m) =>
      (outcome.errors, (m.store.own? 1 "a").map Value.text)) = some ([], some "true") := by
    decide +kernel
  obtain ⟨⟨outcome, m⟩, hrun, heq⟩ := Option.map_eq_some_iff.1 hcall
  obtain ⟨herrors, hvalue⟩ := Prod.mk.inj heq
  refine ⟨outcome, m, hrun, herrors, hvalue, not_reaches_siblings, ?_⟩
  refine calls_are_lexical_and_local.2.1 siblings m 4 setter [] outcome hrun 2
    (by decide +kernel) ?_
  rintro root (hroot | ⟨v, hv, -⟩) hreach
  · cases hroot
    exact not_reaches_siblings hreach
  · cases hv

end Machine

end Lox
