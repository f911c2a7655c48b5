import Lox.Proofs.Machine.Names

/-!
What a change to a store is seen as, from every scope at once. A name means, in a scope, what the
nearest scope on the way outward binds it to. So a new binding is seen from those scopes from which
the way to it is clear, that is, not barred by another binding of the name; a new value that is
given to a name is seen from those scopes in which the name is resolved to the same scope; and all
else means what it meant.

Every store is made from the empty one by making scopes, binding names and assigning to them. The
scopes around a scope are settled when it is made.
-/

namespace Lox

namespace Store

/-! ### The way outward -/

/-- The way outward from one scope to another, with the scopes that are left behind on it. -/
inductive Outward (s : Store) : ScopeId → List ScopeId → ScopeId → Prop
  | here {i : ScopeId} : Outward s i [] i
  | step {i p j : ScopeId} {inner : List ScopeId} : s.parent? i = some p →
    Outward s p inner j → Outward s i (i :: inner) j

/-- The second scope is on the chain of the first, and no scope nearer than it binds the name. -/
def Clear (s : Store) (name : String) (i j : ScopeId) : Prop :=
  ∃ inner, s.Outward i inner j ∧ ∀ k ∈ inner, name ∉ s.names k

/-- The nearest scope on the chain of a scope that binds a name. -/
def Nearest (s : Store) (i : ScopeId) (name : String) (j : ScopeId) : Prop :=
  s.Clear name i j ∧ name ∈ s.names j

variable {s t : Store} {i j k p : ScopeId} {name : String} {token : Token} {v : Value}

/-- The way outward comes to an end. -/
theorem exists_outermost (s : Store) (i : ScopeId) :
    ∃ inner outermost, s.Outward i inner outermost ∧ s.parent? outermost = none := by
  induction i using Nat.strongRecOn with
  | ind i ih =>
    cases hp : s.parent? i with
    | none => exact ⟨[], i, .here, hp⟩
    | some p =>
      obtain ⟨inner, outermost, hway, hend⟩ := ih p (s.parent_lt i p hp)
      exact ⟨i :: inner, outermost, .step hp hway, hend⟩

theorem Clear.here : s.Clear name i i := ⟨[], .here, nofun⟩

theorem Clear.step (hp : s.parent? i = some p) (hname : name ∉ s.names i)
    (h : s.Clear name p j) : s.Clear name i j := by
  obtain ⟨inner, hway, hinner⟩ := h
  exact ⟨i :: inner, .step hp hway, List.forall_mem_cons.2 ⟨hname, hinner⟩⟩

theorem Clear.cases (h : s.Clear name i j) :
    i = j ∨ name ∉ s.names i ∧ ∃ p, s.parent? i = some p ∧ s.Clear name p j := by
  obtain ⟨inner, hway, hinner⟩ := h
  cases hway with
  | here => exact .inl rfl
  | step hp hway =>
    rw [List.forall_mem_cons] at hinner
    exact .inr ⟨hinner.1, _, hp, _, hway, hinner.2⟩

theorem nearest_iff_of_mem (h : name ∈ s.names i) : s.Nearest i name j ↔ i = j := by
  constructor
  · rintro ⟨hclear, -⟩
    rcases hclear.cases with rfl | ⟨hname, -⟩
    · rfl
    · exact absurd h hname
  · rintro rfl
    exact ⟨.here, h⟩

theorem nearest_iff_of_not_mem (h : name ∉ s.names i) :
    s.Nearest i name j ↔ ∃ p, s.parent? i = some p ∧ s.Nearest p name j := by
  constructor
  · rintro ⟨hclear, hname⟩
    rcases hclear.cases with rfl | ⟨-, p, hp, hclear⟩
    · exact absurd hname h
    · exact ⟨p, hp, hclear, hname⟩
  · rintro ⟨p, hp, hclear, hname⟩
    exact ⟨hclear.step hp h, hname⟩

/-- A name is resolved to the nearest scope that binds it. -/
theorem resolve_eq_some_iff : s.resolve i name = some j ↔ s.Nearest i name j := by
  induction i using Nat.strongRecOn with
  | ind i ih =>
    rw [resolve_eq]
    by_cases hname : name ∈ s.names i
    · rw [if_pos (mem_names.1 hname), nearest_iff_of_mem hname, Option.some_inj]
    · rw [if_neg (hname ∘ mem_names.2), nearest_iff_of_not_mem hname, Option.bind_eq_some_iff]
      refine exists_congr fun p => and_congr_right fun hp => ?_
      exact ih p (s.parent_lt i p hp)

/-- To a scope that binds a name, the way is clear from where the name is resolved to it. -/
theorem clear_iff_resolve (h : name ∈ s.names j) :
    s.Clear name i j ↔ s.resolve i name = some j := by
  rw [resolve_eq_some_iff, Nearest, and_iff_left h]

/-! ### Reading -/

/-- A name means what the scope that it is resolved to binds it to. -/
theorem get?_eq_resolve (s : Store) (i : ScopeId) (name : String) :
    s.get? i name = (s.resolve i name).bind (s.own? · name) := by
  induction i using Nat.strongRecOn with
  | ind i ih =>
    rw [get?_eq, resolve_eq]
    cases hown : s.own? i name with
    | some v => simp [hown]
    | none =>
      cases hp : s.parent? i with
      | none => rfl
      | some p => exact ih p (s.parent_lt i p hp)

theorem lookup_eq_ok_iff_resolve : s.lookup i token = .ok v ↔
    ∃ j, s.resolve i token.lexeme = some j ∧ s.own? j token.lexeme = some v := by
  rw [← Option.bind_eq_some_iff, ← get?_eq_resolve, lookup]
  cases s.get? i token.lexeme <;> simp

theorem lookup_eq_error_iff {e : RuntimeError} : s.lookup i token = .error e ↔
    s.resolve i token.lexeme = none ∧ e = undefined token := by
  rw [← Option.not_isSome_iff_eq_none, isSome_resolve, lookup]
  cases s.get? i token.lexeme <;> simp [eq_comm]

/-! ### Writing -/

/-- A binding is seen from where the way to it is clear. -/
theorem get?_define_of_clear (hi : i < s.size) (h : s.Clear name j i) :
    (s.define i name v).get? j name = some v := by
  obtain ⟨inner, hway, hinner⟩ := h
  induction hway with
  | here =>
    rw [get?_eq, own?_define, if_pos ⟨rfl, rfl, hi⟩]
    rfl
  | @step j p i inner hp _ ih =>
    obtain ⟨hname, hinner⟩ := List.forall_mem_cons.1 hinner
    rw [mem_names, Option.not_isSome_iff_eq_none] at hname
    rw [get?_eq, own?_define, parent?_define, hp, Option.bind_some, ih hi hinner, hname]
    split <;> rfl

/-- Of another name, or from where the way to the binding is not clear, nothing is seen of it. -/
theorem get?_define_of_not_clear {name' : String} (h : ¬(name' = name ∧ s.Clear name j i)) :
    (s.define i name v).get? j name' = s.get? j name' := by
  induction j using Nat.strongRecOn with
  | ind j ih =>
    have hother : ¬(i = j ∧ name = name' ∧ i < s.size) := by
      rintro ⟨rfl, rfl, -⟩
      exact h ⟨rfl, .here⟩
    rw [get?_eq, get?_eq s j, own?_define, if_neg hother, parent?_define]
    cases hown : s.own? j name' with
    | some w => rfl
    | none =>
      cases hp : s.parent? j with
      | none => rfl
      | some p =>
        refine ih p (s.parent_lt j p hp) ?_
        rintro ⟨rfl, hclear⟩
        have hname : name' ∉ s.names j := by simp [mem_names, hown]
        exact h ⟨rfl, hclear.step hp hname⟩

theorem lookup_define (hi : i < s.size) (name : String) (v : Value) (j : ScopeId) (token : Token) :
    (token.lexeme = name ∧ s.Clear name j i → (s.define i name v).lookup j token = .ok v) ∧
    (¬(token.lexeme = name ∧ s.Clear name j i) →
      (s.define i name v).lookup j token = s.lookup j token) := by
  constructor
  · rintro ⟨rfl, hclear⟩
    rw [lookup, get?_define_of_clear hi hclear]
  · intro h
    rw [lookup, get?_define_of_not_clear h]
    rfl

theorem assign_eq_ok_iff : s.assign i token v = .ok t ↔
    ∃ j, s.resolve i token.lexeme = some j ∧ t = s.define j token.lexeme v := by
  rw [assign]
  cases s.resolve i token.lexeme <;> simp [eq_comm]

theorem assign_eq_error_iff {e : RuntimeError} : s.assign i token v = .error e ↔
    s.resolve i token.lexeme = none ∧ e = undefined token := by
  rw [assign]
  cases s.resolve i token.lexeme <;> simp [eq_comm]

/-- Assigning to a name succeeds where the name means something. -/
theorem exists_assign_iff (s : Store) (i : ScopeId) (token : Token) (v : Value) :
    (∃ t, s.assign i token v = .ok t) ↔ ∃ w, s.lookup i token = .ok w := by
  rw [lookup_eq_ok_iff, ← isSome_resolve, Option.isSome_iff_exists]
  constructor
  · rintro ⟨t, ht⟩
    obtain ⟨j, hj, -⟩ := assign_eq_ok_iff.1 ht
    exact ⟨j, hj⟩
  · rintro ⟨j, hj⟩
    exact ⟨_, assign_eq_ok_iff.2 ⟨j, hj, rfl⟩⟩

/-- A new value is seen from where the name is resolved to the same scope. -/
theorem lookup_assign (h : s.assign i token v = .ok t) (j : ScopeId) (other : Token) :
    (other.lexeme = token.lexeme ∧ s.resolve j token.lexeme = s.resolve i token.lexeme →
      t.lookup j other = .ok v) ∧
    (¬(other.lexeme = token.lexeme ∧ s.resolve j token.lexeme = s.resolve i token.lexeme) →
      t.lookup j other = s.lookup j other) := by
  obtain ⟨k, hk, rfl⟩ := assign_eq_ok_iff.1 h
  have hname := mem_names_of_resolve hk
  -- the name is bound there already, so a way that is clear leads to the nearest binding
  rw [hk, ← clear_iff_resolve hname]
  exact lookup_define (lt_size_of_mem_names hname) token.lexeme v j other

/-- A machine assigns as its store does, and stays as it is if that fails. -/
theorem run_assign (name : Token) (v : Value) (m : Machine) : Run.assign name v m =
    match m.store.assign m.current name v with
    | .ok t => .ok () { m with store := t }
    | .error e => .error (.error e) m := by
  rw [Run.assign, assign]
  cases m.store.resolve m.current name.lexeme <;> rfl

/-! ### Histories -/

/-- What is done to a store: a scope is made, alone or inside another, a name is bound in a scope,
or a new value is given to a name. -/
inductive Change where
  | root
  | child (outer : ScopeId)
  | define (i : ScopeId) (name : String) (value : Value)
  | assign (i : ScopeId) (name : Token) (value : Value)

/-- The store after a change. To give a value to a name that means nothing changes nothing. -/
def change (s : Store) : Change → Store
  | .root => s.add none
  | .child outer => s.add (some outer)
  | .define i name value => s.define i name value
  | .assign i name value =>
    match s.assign i name value with
    | .ok t => t
    | .error _ => s

/-- The store that a history leads to. -/
def made (history : List Change) : Store :=
  history.foldl change { parent_lt := parent_lt_empty }

theorem Lasts.add (s : Store) (parent : Option ScopeId) : s.Lasts (s.add parent) where
  size := by simp
  parent i hi := by rw [parent?_add, if_neg (Nat.ne_of_lt hi)]
  names i name h := by rwa [mem_names, own?_add, ← mem_names]

theorem Lasts.change (s : Store) (c : Change) : s.Lasts (s.change c) := by
  cases c with
  | root => exact .add s none
  | child outer => exact .add s (some outer)
  | define i name value => exact .define s i name value
  | assign i name value =>
    rw [Store.change]
    cases h : s.assign i name value with
    | error e => exact .refl s
    | ok t =>
      obtain ⟨j, -, rfl⟩ := assign_eq_ok_iff.1 h
      exact .define s j name.lexeme value

/-- Nothing is lost in the course of a history. -/
theorem Lasts.changes (s : Store) (history : List Change) :
    s.Lasts (history.foldl Store.change s) := by
  induction history generalizing s with
  | nil => exact .refl s
  | cons c history ih => exact .trans (.change s c) (ih (s.change c))

/-- What a scope is made inside of encloses it ever after. -/
theorem parent?_made {before : List Change} {c : Change} {outer : Option ScopeId}
    (hc : (made before).change c = (made before).add outer)
    (houter : ∀ i, outer = some i → i < (made before).size) (after : List Change) :
    (made (before ++ c :: after)).parent? (made before).size = outer := by
  have hmade : made (before ++ c :: after) = after.foldl change ((made before).add outer) := by
    rw [made, List.foldl_append, List.foldl_cons, ← made, hc]
  have hlt : (made before).size < ((made before).add outer).size := by simp
  rw [hmade, (Lasts.changes _ after).parent _ hlt, parent?_add, if_pos rfl]
  cases outer with
  | none => rfl
  | some i => simpa using houter i rfl

/-! ### The rules of names -/

/-- After any history: going outward from a scope one comes to an end, by way of the scopes inside
of which each was made, and a name is resolved to the nearest scope there that binds it. What the
name means is what that scope binds it to; without one, reading the name and assigning to it fail
with the same error, and neither the store nor a machine that runs the assignment is changed. A new
value is seen from those scopes from which the name is resolved to the same scope, a new binding
from those from which the way to it is clear, and all else means what it meant. -/
theorem names_mean_nearest (history : List Change) (i : ScopeId) (name : Token) (value : Value)
    (hi : i < (made history).size) :
    let s := made history
    ((∀ j, ∃ inner outermost, s.Outward j inner outermost ∧ s.parent? outermost = none) ∧
      (∀ before after, history = before ++ .root :: after →
        s.parent? (made before).size = none) ∧
      ∀ before after outer, history = before ++ .child outer :: after →
        outer < (made before).size → s.parent? (made before).size = some outer) ∧
    (∀ j m k, s.resolve j m = some k ↔ s.Nearest j m k) ∧
    ((∀ v, s.lookup i name = .ok v ↔
        ∃ j, s.resolve i name.lexeme = some j ∧ s.own? j name.lexeme = some v) ∧
      ((∃ e, s.lookup i name = .error e) ↔ s.resolve i name.lexeme = none)) ∧
    (((∃ t, s.assign i name value = .ok t) ↔ ∃ v, s.lookup i name = .ok v) ∧
      ∀ t, s.assign i name value = .ok t →
        (∀ m : Machine, m.store = s → m.current = i →
          Run.assign name value m = .ok () { m with store := t }) ∧
        ∀ (j : ScopeId) (other : Token),
          (other.lexeme = name.lexeme ∧ s.resolve j name.lexeme = s.resolve i name.lexeme →
            t.lookup j other = .ok value) ∧
          (¬(other.lexeme = name.lexeme ∧ s.resolve j name.lexeme = s.resolve i name.lexeme) →
            t.lookup j other = s.lookup j other)) ∧
    (∀ e, (s.assign i name value = .error e ↔ s.lookup i name = .error e) ∧
      (s.assign i name value = .error e →
        e.fault.message = "Undefined variable '" ++ name.lexeme ++ "'." ∧
        e.line = some name.line ∧ s.change (.assign i name value) = s ∧
        ∀ m : Machine, m.store = s → m.current = i →
          Run.assign name value m = .error (.error e) m)) ∧
    ∀ (j : ScopeId) (other : Token),
      (other.lexeme = name.lexeme ∧ s.Clear name.lexeme j i →
        (s.define i name.lexeme value).lookup j other = .ok value) ∧
      (¬(other.lexeme = name.lexeme ∧ s.Clear name.lexeme j i) →
        (s.define i name.lexeme value).lookup j other = s.lookup j other) := by
  intro s
  refine ⟨⟨s.exists_outermost, ?_, ?_⟩, fun _ _ _ => resolve_eq_some_iff,
    ⟨fun v => lookup_eq_ok_iff_resolve, ?_⟩, ⟨s.exists_assign_iff i name value, fun t ht => ?_⟩,
    fun e => ⟨?_, fun he => ?_⟩, lookup_define hi name.lexeme value⟩
  · rintro before after rfl
    refine parent?_made rfl ?_ after
    rintro j ⟨⟩
  · rintro before after outer rfl houter
    refine parent?_made rfl ?_ after
    rintro j hj
    rwa [← Option.some_inj.1 hj]
  · simp [lookup_eq_error_iff]
  · refine ⟨?_, lookup_assign ht⟩
    rintro m hm rfl
    rw [run_assign, hm, ht]
  · rw [assign_eq_error_iff, lookup_eq_error_iff]
  · have hunchanged : s.change (.assign i name value) = s := by rw [change, he]
    have hrun : ∀ m : Machine, m.store = s → m.current = i →
        Run.assign name value m = .error (.error e) m := by
      rintro m hm rfl
      rw [run_assign, hm, he]
    obtain ⟨-, rfl⟩ := assign_eq_error_iff.1 he
    exact ⟨rfl, rfl, hunchanged, hrun⟩

/-- An outermost scope that binds a name, a scope inside it that shadows the name, and beside that
one two scopes that do not, one inside the other. -/
def siblings : List Change :=
  [.root, .define 0 "a" .nil, .child 0, .define 1 "a" (.bool true), .child 0, .child 2]

theorem names_mean_nearest_siblings :
    let a : Token := ⟨.identifier, "a", 1⟩
    3 < (made siblings).size ∧ ∃ t, (made siblings).assign 3 a (.string "b") = .ok t ∧
      t.lookup 0 a = .ok (.string "b") ∧ t.lookup 2 a = .ok (.string "b") ∧
      t.lookup 1 a = .ok (.bool true) := by
  intro a
  have hi : 3 < (made siblings).size := by decide +kernel
  obtain ⟨-, -, -, ⟨hassign, hseen⟩, -⟩ := names_mean_nearest siblings 3 a (.string "b") hi
  have hempty : size { parent_lt := parent_lt_empty } = 0 := rfl
  have hnil : (made siblings).lookup 3 a = .ok .nil := by
    refine lookup_eq_ok_iff_resolve.2 ⟨0, by decide +kernel, ?_⟩
    simp [made, siblings, change, own?_define, hempty, a]
  have htrue : (made siblings).lookup 1 a = .ok (.bool true) := by
    refine lookup_eq_ok_iff_resolve.2 ⟨1, by decide +kernel, ?_⟩
    simp [made, siblings, change, own?_define, hempty, a]
  obtain ⟨t, ht⟩ := hassign.2 ⟨_, hnil⟩
  obtain ⟨-, hafter⟩ := hseen t ht
  refine ⟨hi, t, ht, (hafter 0 a).1 ⟨rfl, ?_⟩, (hafter 2 a).1 ⟨rfl, ?_⟩, ?_⟩
  · decide +kernel
  · decide +kernel
  · rw [(hafter 1 a).2 (by decide +kernel), htrue]

end Store

end Lox
