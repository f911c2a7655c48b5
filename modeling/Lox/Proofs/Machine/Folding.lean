import Lox.Proofs.Machine.Simulation
import Lox.Proofs.Scope.Chain

/-!
Empty scopes do not matter. A scope that binds nothing, and never will, can be left out between the
scopes inside it and the one around it: every name means the same with and without it. Two machines
are folded into each other if the second is the first without such scopes. The scopes of the first
are mapped to those of the second, an empty one to where the one around it goes; all others keep
their bindings, with the scopes that functions remember mapped likewise. What is run on both goes in
step, as long as nothing is bound in an empty scope.
-/

namespace Lox

variable {α β : Type}

/-! ### Values that remember other scopes -/

/-- The function with another scope around its declaration. -/
def Callable.rescope (image : ScopeId → ScopeId) : Callable → Callable
  | .native g => .native g
  | .closure name params body scope => .closure name params body (image scope)

/-- The value with another scope around the declaration of its function. -/
def Value.rescope (image : ScopeId → ScopeId) : Value → Value
  | .callable identity f => .callable identity (f.rescope image)
  | v => v

/-- The flow with its value in other scopes. -/
def Flow.rescope (image : ScopeId → ScopeId) : Flow → Flow
  | .normal => .normal
  | .returned v => .returned (v.rescope image)

section Values

variable (image : ScopeId → ScopeId)

@[simp]
theorem Value.isTruthy_rescope (v : Value) : (v.rescope image).isTruthy = v.isTruthy := by
  cases v <;> rfl

variable {image}

/-- A value that remembers no scope is the same wherever scopes are mapped to. -/
theorem Value.rescope_of_scope? {v : Value} (h : v.scope? = none) : v.rescope image = v := by
  cases v with
  | callable identity f =>
    cases f with
    | native g => rfl
    | closure name params body scope => cases h
  | _ => rfl

/-- Only the scope that the value remembers is looked up. -/
theorem Value.rescope_congr {image' : ScopeId → ScopeId} {v : Value}
    (h : ∀ i, v.scope? = some i → image i = image' i) : v.rescope image = v.rescope image' := by
  cases v with
  | callable identity f =>
    cases f with
    | native g => rfl
    | closure name params body scope => simp [rescope, Callable.rescope, h scope rfl]
  | _ => rfl

theorem Value.rescope_id : Value.rescope id = id := by
  funext v
  cases v with
  | callable identity f => cases f <;> rfl
  | _ => rfl

end Values

/-! ### Stores -/

/-- Where each scope goes, and which scopes are left out. -/
structure Folding where
  image : ScopeId → ScopeId
  extra : ScopeId → Prop

/-- The second store is the first without the extra scopes. Scopes yet to be made go to scopes yet
to be made, in order; two scopes go to one place only if one of them is extra; an extra scope binds
nothing and goes where the one around it goes. -/
structure Store.Folded (F : Folding) (s t : Store) : Prop where
  fresh : ∀ k, F.image (s.size + k) = t.size + k
  lt : ∀ i < s.size, F.image i < t.size
  injective : ∀ i j, ¬F.extra i → ¬F.extra j → F.image i = F.image j → i = j
  parent : ∀ i, ¬F.extra i → t.parent? (F.image i) = (s.parent? i).map F.image
  own : ∀ i name, ¬F.extra i →
    t.own? (F.image i) name = (s.own? i name).map (Value.rescope F.image)
  empty : ∀ i name, F.extra i → s.own? i name = none
  through : ∀ i, F.extra i → ∃ p, s.parent? i = some p ∧ F.image p = F.image i

namespace Store.Folded

variable {F : Folding} {s t : Store} {i j : ScopeId} {name : String} (h : s.Folded F t)

include h

/-- An extra scope has a scope around it, so it was made before. -/
theorem lt_size_of_extra (hi : F.extra i) : i < s.size := by
  obtain ⟨p, hp, -⟩ := h.through i hi
  exact lt_size_of_parent? hp

theorem not_extra_size : ¬F.extra s.size := fun hextra =>
  Nat.lt_irrefl _ (h.lt_size_of_extra hextra)

theorem image_size : F.image s.size = t.size := h.fresh 0

/-- Scopes yet to be made go to scopes yet to be made. -/
theorem image_ge (hi : s.size ≤ i) : t.size ≤ F.image i := by
  obtain ⟨k, rfl⟩ := Nat.exists_eq_add_of_le hi
  rw [h.fresh k]
  exact Nat.le_add_right _ _

theorem image_lt_iff : F.image i < t.size ↔ i < s.size := by
  constructor
  · intro hlt
    exact Nat.lt_of_not_le fun hge => absurd hlt (Nat.not_lt.2 (h.image_ge hge))
  · exact h.lt i

/-- A name has the same value where the scope goes: on the way out, extra scopes are passed without
finding anything. -/
theorem get?_image (i : ScopeId) (name : String) :
    t.get? (F.image i) name = (s.get? i name).map (Value.rescope F.image) := by
  induction i using Nat.strongRecOn with
  | ind i ih =>
    by_cases hextra : F.extra i
    · obtain ⟨p, hp, himage⟩ := h.through i hextra
      rw [← himage, ih p (s.parent_lt i p hp), Store.get?_eq s i, h.empty i name hextra, hp]
      rfl
    · rw [Store.get?_eq, Store.get?_eq s i, h.own i name hextra, h.parent i hextra]
      cases s.own? i name with
      | some v => rfl
      | none =>
        cases hp : s.parent? i with
        | none => rfl
        | some p => exact ih p (s.parent_lt i p hp)

/-- A name is found where the scope goes that binds it. -/
theorem resolve_image (i : ScopeId) (name : String) :
    t.resolve (F.image i) name = (s.resolve i name).map F.image := by
  induction i using Nat.strongRecOn with
  | ind i ih =>
    by_cases hextra : F.extra i
    · obtain ⟨p, hp, himage⟩ := h.through i hextra
      rw [← himage, ih p (s.parent_lt i p hp), Store.resolve_eq s i, h.empty i name hextra, hp]
      rfl
    · rw [Store.resolve_eq, Store.resolve_eq s i, h.own i name hextra, h.parent i hextra,
        Option.isSome_map]
      split
      · rfl
      · cases hp : s.parent? i with
        | none => rfl
        | some p => exact ih p (s.parent_lt i p hp)

/-- A scope that binds a name is not extra. -/
theorem not_extra_of_resolve (hi : s.resolve i name = some j) : ¬F.extra j := by
  intro hextra
  have hname := mem_names.1 (mem_names_of_resolve hi)
  rw [h.empty j name hextra] at hname
  cases hname

/-! ### What is done to both -/

/-- Only one scope that is not extra goes to the place of a binding, so no other gets it. -/
theorem define (hi : ¬F.extra i) (name : String) (v : Value) :
    (s.define i name v).Folded F (t.define (F.image i) name (v.rescope F.image)) where
  fresh k := by simpa using h.fresh k
  lt j hj := by simpa using h.lt j (by simpa using hj)
  injective := h.injective
  parent j hj := by simpa using h.parent j hj
  own j name' hj := by
    have hsame : F.image i = F.image j ↔ i = j :=
      ⟨h.injective i j hi hj, fun heq => by rw [heq]⟩
    simp only [own?_define, hsame, h.image_lt_iff]
    split
    · rfl
    · exact h.own j name' hj
  empty j name' hj := by
    rw [own?_define, if_neg]
    · exact h.empty j name' hj
    · rintro ⟨rfl, -, -⟩
      exact hi hj
  through j hj := by simpa using h.through j hj

/-- The two new scopes correspond, and neither is extra. -/
theorem add (p : ScopeId) : (s.add (some p)).Folded F (t.add (some (F.image p))) where
  fresh k := by
    rw [size_add, size_add, Nat.add_assoc, Nat.add_assoc]
    exact h.fresh (1 + k)
  lt j hj := by
    rw [size_add] at hj ⊢
    rcases Nat.lt_or_eq_of_le (Nat.le_of_lt_succ hj) with hj | rfl
    · exact Nat.lt_succ_of_lt (h.lt j hj)
    · rw [h.image_size]
      exact Nat.lt_succ_self _
  injective := h.injective
  parent j hj := by
    have hnew : F.image j = t.size ↔ j = s.size := by
      rw [← h.image_size]
      exact ⟨h.injective j s.size hj h.not_extra_size, fun heq => by rw [heq]⟩
    rw [parent?_add, parent?_add]
    simp only [hnew]
    split
    · simp only [Option.filter_some, h.image_lt_iff]
      split <;> rfl
    · exact h.parent j hj
  own j name hj := by simpa using h.own j name hj
  empty j name hj := by simpa using h.empty j name hj
  through j hj := by
    have hne : j ≠ s.size := Nat.ne_of_lt (h.lt_size_of_extra hj)
    simpa [parent?_add, hne] using h.through j hj

omit h in
theorem defineAll (hi : ¬F.extra i) : ∀ {s t : Store} (names : List String) (values : List Value),
    s.Folded F t → (s.defineAll i names values).Folded F
      (t.defineAll (F.image i) names (values.map (Value.rescope F.image)))
  | _, _, [], _, h => h
  | _, _, _ :: _, [], h => h
  | _, _, name :: names, v :: values, h => defineAll hi names values (h.define hi name v)

end Store.Folded

/-! ### Machines -/

/-- The second machine is the first without the extra scopes. The first works in the scope `c`, the
second where `c` goes; in all else that can be seen they agree. -/
structure Machine.Folded (F : Folding) (c : ScopeId) (m m' : Machine) : Prop where
  store : m.store.Folded F m'.store
  here : m.current = c
  there : m'.current = F.image c
  identities : m'.identities = m.identities
  sink : m'.sink = m.sink
  clock : m'.clock = m.clock
  readings : m'.readings = m.readings

namespace Machine.Folded

variable {F : Folding} {c : ScopeId} {m m' : Machine} (h : m.Folded F c m')

include h

theorem define {i : ScopeId} (hi : ¬F.extra i) (name : String) (v : Value) :
    (m.define i name v).Folded F c (m'.define (F.image i) name (v.rescope F.image)) :=
  { h with store := h.store.define hi name v }

/-- Work in new scopes starts from machines that are folded into each other. -/
theorem entered (p : ScopeId) (names : List String) (values : List Value) :
    (m.entered p names values).Folded F m.store.size
      (m'.entered (F.image p) names (values.map (Value.rescope F.image))) := by
  have hstore := (h.store.add p).defineAll h.store.not_extra_size names values
  rw [h.store.image_size] at hstore
  exact { h with store := hstore, here := rfl, there := h.store.image_size.symm }

end Machine.Folded

/-! ### Runs in step -/

namespace Run

/-- The two results are folded into each other. Answers are mapped by `k`, and the reasons for
stopping are the same. -/
inductive FoldedResult (F : Folding) (c : ScopeId) (k : α → α) :
    EStateM.Result Stop Machine α → EStateM.Result Stop Machine α → Prop
  | ok {a : α} {m m' : Machine} : m.Folded F c m' → FoldedResult F c k (.ok a m) (.ok (k a) m')
  | error {s : Stop} {m m' : Machine} : m.Folded F c m' →
    FoldedResult F c k (.error s m) (.error s m')

/-- From machines that are folded into each other the two runs go in step. -/
def InStep (F : Folding) (c : ScopeId) (k : α → α) (r r' : Run α) : Prop :=
  ∀ m m', m.Folded F c m' → FoldedResult F c k (r m) (r' m')

variable {F : Folding} {c : ScopeId} {k : α → α} {l : β → β} {r r' : Run α}

theorem InStep.pure (a : α) : InStep F c k (Pure.pure a) (Pure.pure (k a)) :=
  fun _ _ hm => .ok hm

/-- The rest is run on the answers as they are mapped. -/
theorem InStep.bind {f f' : α → Run β} (hr : InStep F c k r r')
    (hf : ∀ a, InStep F c l (f a) (f' (k a))) : InStep F c l (r >>= f) (r' >>= f') := by
  intro m m' hm
  have hresult := hr m m' hm
  generalize hx : r m = x at hresult
  generalize hy : r' m' = y at hresult
  cases hresult with
  | ok hm' =>
    rw [bind_of_ok hx, bind_of_ok hy]
    exact hf _ _ _ hm'
  | error hm' =>
    rw [bind_of_error hx, bind_of_error hy]
    exact .error hm'

theorem InStep.andThen {r r' next next' : Run Flow}
    (hr : InStep F c (Flow.rescope F.image) r r')
    (hnext : InStep F c (Flow.rescope F.image) next next') :
    InStep F c (Flow.rescope F.image) (r.andThen next) (r'.andThen next') := by
  refine hr.bind fun flow => ?_
  cases flow with
  | normal => exact hnext
  | returned v => exact .pure (Flow.returned v)

theorem inStep_normal : InStep F c (Flow.rescope F.image) (return .normal) (return .normal) :=
  .pure Flow.normal

/-- Coming back, the machines are again where they were. -/
theorem FoldedResult.within {d i i' : ScopeId} {m m' : Machine}
    (h : FoldedResult F d k (r { m with current := i }) (r' { m' with current := i' }))
    (here : m.current = c) (there : m'.current = F.image c) :
    FoldedResult F c k (within i r m) (within i' r' m') := by
  generalize hx : r { m with current := i } = x at h
  generalize hy : r' { m' with current := i' } = y at h
  cases h with
  | ok h =>
    rw [within_of_ok hx, within_of_ok hy]
    exact .ok { h with here, there }
  | error h =>
    rw [within_of_error hx, within_of_error hy]
    exact .error { h with here, there }

end Run

open Run

/-! ### The simulation -/

/-- A program is compared with itself on machines that are folded into each other. Nothing may be
bound in an extra scope. -/
def Folding.simulation (F : Folding) : Simulation where
  World := ScopeId
  later c c' := c = c'
  machines c := Machine.Folded F c
  scopes _ i i' := i' = F.image i
  binds c := ¬F.extra c
  code _ := True
  lines := id
  more := 0

section

variable {F : Folding} {c : ScopeId} {v v' : Value}

/-- Values look the same if the second is the first with its scope mapped. -/
theorem Folding.values_iff : F.simulation.Values c v v' ↔ v' = v.rescope F.image := by
  constructor
  · intro h
    rcases h.eq_or_closure rfl with ⟨hv, rfl⟩ | ⟨_, _, _, _, i, i', rfl, rfl, -, hi⟩
    · exact (Value.rescope_of_scope? hv).symm
    · obtain rfl : i' = F.image i := hi
      rfl
  · rintro rfl
    cases v with
    | callable identity f =>
      cases f with
      | native g => exact .plain rfl
      | closure name params body i => exact .closure rfl rfl rfl (fun _ _ => trivial) rfl
    | _ => exact .plain rfl

theorem Folding.values_map {vs vs' : List Value}
    (h : List.Forall₂ (F.simulation.Values c) vs vs') :
    vs' = vs.map (Value.rescope F.image) := by
  induction h with
  | nil => rfl
  | cons hv _ ih => rw [List.map_cons, Folding.values_iff.1 hv, ih]

end

/-- Every step goes in step, and nothing is bound in an extra scope. -/
theorem Folding.sound (F : Folding) : F.simulation.Sound where
  refl _ := rfl
  trans h h' := h.trans h'
  scopes _ hi := hi
  binds := by
    rintro _ _ rfl hc
    exact hc
  parts _ _ _ := trivial
  agree hm := ⟨hm.identities.symm, hm.sink.symm, hm.clock.symm, hm.readings.symm⟩
  current hm := hm.here ▸ hm.there
  get := by
    intro (c : ScopeId) m m' name (hm : m.Folded F c m')
    rw [hm.here, hm.there, hm.store.get?_image]
    cases m.store.get? c name with
    | none => exact .none
    | some v => exact .some (values_iff.2 rfl)
  assign := by
    intro (c : ScopeId) m m' v v' name (hm : m.Folded F c m') hv
    rw [hm.here, hm.there, hm.store.resolve_image, values_iff.1 hv]
    cases hi : m.store.resolve c name with
    | none => exact .none
    -- a name is resolved to a scope that binds it, so never to an extra one
    | some i => exact .some ⟨c, rfl, hm.define (hm.store.not_extra_of_resolve hi) name v⟩
  define := by
    intro c m m' v v' name hm hc hv
    rw [hm.here, hm.there, values_iff.1 hv]
    exact ⟨c, rfl, hm.define hc name v⟩
  touch := by
    intro c m m' identities sink readings hm
    exact ⟨c, rfl, { hm with identities := rfl, sink := rfl, readings := rfl }⟩
  enter := by
    rintro c m m' p _ vs vs' names hm rfl hvs
    rw [values_map hvs]
    refine ⟨m.store.size, hm.entered p names vs, hm.store.not_extra_size, ?_⟩
    rintro _ n n' rfl hn
    exact ⟨c, rfl, { hn with here := hm.here, there := hm.there }, fun _ _ hi => hi⟩

variable {F : Folding} {c : ScopeId} {k : α → α} {r r' : Run α}

theorem inStep_of_goes {A : ScopeId → α → α → Prop} (h : F.simulation.Goes c A r r')
    (hA : ∀ a a', A c a a' → a' = k a) : InStep F c k r r' := by
  intro m m' hm
  have hends := h m m' hm
  generalize r m = x at hends
  generalize r' m' = x' at hends
  cases hends with
  | ok hc hm₁ ha =>
    obtain rfl : c = _ := hc
    rw [hA _ _ ha]
    exact .ok hm₁
  | error hbecomes he =>
    obtain ⟨_, hc, hm₁⟩ := hbecomes
    obtain rfl : c = _ := hc
    have he' : _ = _ := he
    rw [Folding.simulation, RuntimeError.reline_id, RuntimeError.reline_id] at he'
    rw [he']
    exact .error hm₁
  | outOfSteps hbecomes =>
    obtain ⟨_, hc, hm₁⟩ := hbecomes
    obtain rfl : c = _ := hc
    exact .error hm₁
  | behind hmore => exact absurd rfl hmore

/-! ### Expressions and statements -/

/-- What is run on machines that are folded into each other goes in step, as long as it binds
nothing in an extra scope. -/
theorem inStep_eval (n : Nat) (c : ScopeId) (e : Expr) :
    InStep F c (Value.rescope F.image) (eval n e) (eval n e) :=
  inStep_of_goes (F.sound.evaluates rfl n rfl c) fun _ _ => Folding.values_iff.1

theorem inStep_exec (n : Nat) {c : ScopeId} {s : Stmt} (hc : s.bindsNothing = true ∨ ¬F.extra c) :
    InStep F c (Flow.rescope F.image) (exec n s) (exec n s) := by
  refine inStep_of_goes (F.sound.executes rfl n rfl trivial c hc) fun flow flow' hflow => ?_
  cases hflow with
  | normal => rfl
  | returned hv =>
    obtain rfl := Folding.values_iff.1 hv
    rfl

end Lox
