import Lox.Scope

/-!
Chains of scopes. What a name means in a scope is settled by the scope itself or, if it does not
bind the name, by the scope around it; so facts about the meaning of names are proved from the
outside in, along the numbers of the scopes.
-/

namespace Lox.Store

variable {s : Store} {i j p : ScopeId} {name : String} {v : Value}

/-! ### Scopes that are there -/

theorem parent_lt_empty (i p : ScopeId) (h : (#[] : Array Scope)[i]?.bind Scope.parent = some p) :
    p < i := by
  simp at h

/-- A scope with a scope around it is there. -/
theorem lt_size_of_parent? (h : s.parent? i = some p) : i < s.size := by
  rw [parent?, Option.bind_eq_some_iff] at h
  obtain ⟨scope, hscope, -⟩ := h
  exact (Array.getElem?_eq_some_iff.1 hscope).1

theorem lt_size_of_own? (h : s.own? i name = some v) : i < s.size := by
  rw [own?, Option.bind_eq_some_iff] at h
  obtain ⟨scope, hscope, -⟩ := h
  exact (Array.getElem?_eq_some_iff.1 hscope).1

theorem parent?_eq_none_of_le (h : s.size ≤ i) : s.parent? i = none := by
  rw [Option.eq_none_iff_forall_ne_some]
  intro p hp
  exact absurd (lt_size_of_parent? hp) (Nat.not_lt.2 h)

theorem own?_eq_none_of_le (h : s.size ≤ i) (name : String) : s.own? i name = none := by
  rw [Option.eq_none_iff_forall_ne_some]
  intro v hv
  exact absurd (lt_size_of_own? hv) (Nat.not_lt.2 h)

/-- The names of a scope are those to which it gives a value. -/
theorem mem_names : name ∈ s.names i ↔ (s.own? i name).isSome = true := by
  unfold names own?
  cases s.scopes[i]? with
  | none => simp
  | some scope => simp

theorem lt_size_of_mem_names (h : name ∈ s.names i) : i < s.size := by
  obtain ⟨v, hv⟩ := Option.isSome_iff_exists.1 (mem_names.1 h)
  exact lt_size_of_own? hv

/-! ### From a scope to the one around it -/

/-- The scopes that a name is looked for in: first the scope, then those around it. -/
theorem chain_eq (s : Store) (i : ScopeId) : s.chain i =
    match s.parent? i with
    | none => [i]
    | some p => i :: s.chain p := by
  rw [chain]
  split
  · next h => rw [h]
  · next p h => rw [h]

/-- A name means what the scope says, or else what it means one scope further out. -/
theorem get?_eq (s : Store) (i : ScopeId) (name : String) :
    s.get? i name = (s.own? i name).or ((s.parent? i).bind (s.get? · name)) := by
  rw [get?, chain_eq]
  cases s.parent? i with
  | none => cases h : s.own? i name <;> simp [h]
  | some p => cases h : s.own? i name <;> simp [h, get?]

/-- A name is resolved where the scope binds it, or else one scope further out. -/
theorem resolve_eq (s : Store) (i : ScopeId) (name : String) :
    s.resolve i name =
      if (s.own? i name).isSome then some i else (s.parent? i).bind (s.resolve · name) := by
  rw [resolve, chain_eq]
  cases s.parent? i with
  | none => cases h : s.own? i name <;> simp [h]
  | some p => cases h : s.own? i name <;> simp [h, resolve]

/-- The scope that a name is resolved to binds it. -/
theorem mem_names_of_resolve (h : s.resolve i name = some j) : name ∈ s.names j := by
  have hbinds := List.find?_some h
  exact mem_names.2 hbinds

/-- A name means something exactly where it can be resolved. -/
theorem isSome_resolve (s : Store) (i : ScopeId) (name : String) :
    (s.resolve i name).isSome = (s.get? i name).isSome := by
  rw [resolve, get?, List.isSome_find?, List.isSome_findSome?]

/-- A name means something in a scope if the scope or one around it binds the name. -/
theorem isSome_get?_iff : (s.get? i name).isSome = true ↔
    name ∈ s.names i ∨ ∃ p, s.parent? i = some p ∧ (s.get? p name).isSome = true := by
  rw [get?_eq, mem_names]
  cases s.own? i name with
  | some v => simp
  | none => cases s.parent? i <;> simp

/-! ### Several names at once -/

@[simp]
theorem size_defineAll (i : ScopeId) (names : List String) (values : List Value) :
    (s.defineAll i names values).size = s.size := by
  induction names generalizing s values with
  | nil => rfl
  | cons name names ih =>
    cases values with
    | nil => rfl
    | cons v values => exact (ih values).trans (size_define s i name v)

@[simp]
theorem parent?_defineAll (i j : ScopeId) (names : List String) (values : List Value) :
    (s.defineAll i names values).parent? j = s.parent? j := by
  induction names generalizing s values with
  | nil => rfl
  | cons name names ih =>
    cases values with
    | nil => rfl
    | cons v values => exact (ih values).trans (parent?_define s i j name v)

/-- A definition takes no name away. -/
theorem mem_names_define (h : name ∈ s.names i) (i' : ScopeId) (name' : String) (v : Value) :
    name ∈ (s.define i' name' v).names i := by
  rw [mem_names, own?_define]
  split
  · rfl
  · exact mem_names.1 h

theorem mem_names_defineAll_of_mem (h : name ∈ s.names i) (i' : ScopeId) (names : List String)
    (values : List Value) : name ∈ (s.defineAll i' names values).names i := by
  induction names generalizing s values with
  | nil => exact h
  | cons name' names ih =>
    cases values with
    | nil => exact h
    | cons v values => exact ih (mem_names_define h i' name' v) values

/-- If there is a value for each name, all names are bound. -/
theorem mem_names_defineAll {names : List String} {values : List Value} (hi : i < s.size)
    (hlength : names.length = values.length) (h : name ∈ names) :
    name ∈ (s.defineAll i names values).names i := by
  induction names generalizing s values with
  | nil => cases h
  | cons name' names ih =>
    cases values with
    | nil => cases hlength
    | cons v values =>
      -- the name is bound by its own definition, and no later one takes it away
      rcases List.mem_cons.1 h with rfl | h
      · refine mem_names_defineAll_of_mem ?_ i names values
        rw [mem_names, own?_define, if_pos ⟨rfl, rfl, hi⟩]
        rfl
      · refine ih ?_ (Nat.succ.inj hlength) h
        rwa [size_define]

/-- A new scope binds the names with which it is made. -/
theorem mem_names_add_defineAll {names : List String} {values : List Value}
    (hlength : names.length = values.length) (h : name ∈ names) (s : Store) (p : Option ScopeId) :
    name ∈ ((s.add p).defineAll s.size names values).names s.size := by
  refine mem_names_defineAll ?_ hlength h
  rw [size_add]
  exact Nat.lt_succ_self _

/-! ### Scopes that are not changed -/

theorem scopes_define_of_ne (h : i ≠ j) : (s.define i name v).scopes[j]? = s.scopes[j]? := by
  rw [define, Array.getElem?_modify, if_neg h]

/-- A definition touches its own scope only. -/
theorem scopes_defineAll_of_ne (h : i ≠ j) (names : List String) (values : List Value) :
    (s.defineAll i names values).scopes[j]? = s.scopes[j]? := by
  induction names generalizing s values with
  | nil => rfl
  | cons name names ih =>
    cases values with
    | nil => rfl
    | cons v values => exact (ih values).trans (scopes_define_of_ne h)

/-- A new scope changes no old one. -/
theorem scopes_add_of_lt (parent : Option ScopeId) (h : i < s.size) :
    (s.add parent).scopes[i]? = s.scopes[i]? := by
  rw [add, Array.getElem?_push, if_neg (show ¬i = s.scopes.size from Nat.ne_of_lt h)]

theorem own?_defineAll_of_ne (h : i ≠ j) (names : List String) (values : List Value)
    (name : String) : (s.defineAll i names values).own? j name = s.own? j name := by
  rw [own?, own?, scopes_defineAll_of_ne h]

end Lox.Store
