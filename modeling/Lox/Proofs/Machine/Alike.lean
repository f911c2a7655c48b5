import Lox.Machine.Basic
import Lox.Proofs.Scope.Chain
import Lox.Proofs.Tree.Lines

/-!
Machines that differ in lines only. Two machines are alike if their scopes are enclosed in the same
way and bind the same names to values that differ in lines at most, and if they agree in all else:
the current scope, the functions made, what was printed, and the clock. Whatever is done to one of
two machines that are alike and likewise to the other leaves them alike.
-/

namespace Lox

/-! ### Scopes -/

namespace Store

/-- The scopes of the two stores differ in the lines inside their values at most. -/
structure Alike (s s' : Store) : Prop where
  size : s.size = s'.size
  parent : ∀ i, s.parent? i = s'.parent? i
  own : ∀ i name, (s.own? i name).map (Value.reline noLine) =
    (s'.own? i name).map (Value.reline noLine)

theorem Alike.refl (s : Store) : s.Alike s := ⟨rfl, fun _ => rfl, fun _ _ => rfl⟩

theorem Alike.symm {s s' : Store} (h : s.Alike s') : s'.Alike s :=
  ⟨h.size.symm, fun i => (h.parent i).symm, fun i name => (h.own i name).symm⟩

variable {s s' : Store} (h : s.Alike s')

include h

/-- The scopes around a scope are the same. -/
theorem Alike.chain_eq (i : ScopeId) : s.chain i = s'.chain i := by
  induction i using Nat.strongRecOn with
  | ind i ih =>
    rw [Store.chain_eq, Store.chain_eq s', ← h.parent i]
    cases hp : s.parent? i with
    | none => rfl
    | some p => exact congrArg (i :: ·) (ih p (s.parent_lt i p hp))

/-- A name is bound in the same scopes, so it is found in the same one. -/
theorem Alike.resolve_eq (i : ScopeId) (name : String) : s.resolve i name = s'.resolve i name := by
  have hbinds : ∀ j, (s.own? j name).isSome = (s'.own? j name).isSome := by
    intro j
    have hown := congrArg Option.isSome (h.own j name)
    rwa [Option.isSome_map, Option.isSome_map] at hown
  rw [resolve, resolve, h.chain_eq, funext hbinds]

/-- A name means values that differ in lines at most. -/
theorem Alike.get?_eq (i : ScopeId) (name : String) :
    (s.get? i name).map (Value.reline noLine) = (s'.get? i name).map (Value.reline noLine) := by
  rw [get?, get?, h.chain_eq]
  induction s'.chain i with
  | nil => rfl
  | cons j js ih =>
    have hown := h.own j name
    simp only [List.findSome?_cons]
    cases hj : s.own? j name with
    | none =>
      cases hj' : s'.own? j name with
      | none => exact ih
      | some v' => rw [hj, hj'] at hown; cases hown
    | some v =>
      cases hj' : s'.own? j name with
      | none => rw [hj, hj'] at hown; cases hown
      | some v' => rw [hj, hj'] at hown; exact hown

theorem Alike.define {v v' : Value} (hv : v.reline noLine = v'.reline noLine) (i : ScopeId)
    (name : String) : (s.define i name v).Alike (s'.define i name v') := by
  refine ⟨by rw [size_define, size_define, h.size], fun j => ?_, fun j name' => ?_⟩
  · rw [parent?_define, parent?_define, h.parent]
  · rw [own?_define, own?_define, h.size]
    split
    · rw [Option.map_some, Option.map_some, hv]
    · exact h.own j name'

theorem Alike.add (parent : Option ScopeId) : (s.add parent).Alike (s'.add parent) := by
  refine ⟨by rw [size_add, size_add, h.size], fun j => ?_, fun j name => ?_⟩
  · rw [parent?_add, parent?_add, h.size, h.parent]
  · rw [own?_add, own?_add, h.own]

omit h in
/-- The arguments of two calls are bound one by one. -/
theorem Alike.defineAll (i : ScopeId) : ∀ {s s' : Store} (names : List String)
    {values values' : List Value}, s.Alike s' →
    values.map (Value.reline noLine) = values'.map (Value.reline noLine) →
    (s.defineAll i names values).Alike (s'.defineAll i names values')
  | _, _, [], _, _, h, _ => h
  | _, _, _ :: _, [], [], h, _ => h
  | _, _, name :: names, v :: values, v' :: values', h, hvalues => by
    rw [List.map_cons, List.map_cons, List.cons.injEq] at hvalues
    have hfirst := h.define hvalues.1 i name
    have hrest := Alike.defineAll i names hfirst hvalues.2
    exact hrest

end Store

/-! ### Machines -/

namespace Machine

/-- The two machines differ in the lines inside their values at most. -/
structure Alike (m m' : Machine) : Prop where
  store : m.store.Alike m'.store
  current : m.current = m'.current
  identities : m.identities = m'.identities
  sink : m.sink = m'.sink
  clock : m.clock = m'.clock
  readings : m.readings = m'.readings

theorem Alike.refl (m : Machine) : m.Alike m := ⟨.refl _, rfl, rfl, rfl, rfl, rfl⟩

theorem Alike.symm {m m' : Machine} (h : m.Alike m') : m'.Alike m :=
  ⟨h.store.symm, h.current.symm, h.identities.symm, h.sink.symm, h.clock.symm, h.readings.symm⟩

variable {m m' : Machine} (h : m.Alike m')

include h

theorem Alike.define {v v' : Value} (hv : v.reline noLine = v'.reline noLine) (i : ScopeId)
    (name : String) : (m.define i name v).Alike (m'.define i name v') :=
  { h with store := h.store.define hv i name }

theorem Alike.inScope (scope : ScopeId) :
    Alike { m with current := scope } { m' with current := scope } :=
  { h with current := rfl }

/-- The scopes in which two bodies run are alike if the arguments are. -/
theorem Alike.addScope (parent : ScopeId) (names : List String) {values values' : List Value}
    (hvalues : values.map (Value.reline noLine) = values'.map (Value.reline noLine)) :
    Alike { m with store := (m.store.add (some parent)).defineAll m.store.size names values }
      { m' with store := (m'.store.add (some parent)).defineAll m'.store.size names values' } := by
  refine { h with store := ?_ }
  rw [h.store.size]
  exact Store.Alike.defineAll m'.store.size names (h.store.add (some parent)) hvalues

end Machine

end Lox
