import Lox.Fault
import Lox.Value
import Std.Data.TreeMap

/-!
Scopes and their store. A scope binds names to values, and may be enclosed in another scope.
Scopes are shared: a function keeps the scope around its declaration alive, and several scopes may
be enclosed in one. So they live in a store, which numbers them in the order in which they were
made. A scope is always younger than the one that encloses it; hence every chain of enclosing
scopes ends.

A name means what the nearest scope on the chain says it means.
-/

namespace Lox

/-- Names with their values, and the enclosing scope. -/
structure Scope where
  bindings : Std.TreeMap String Value := {}
  parent : Option ScopeId := none

/-- All scopes made so far, by number. -/
structure Store where
  scopes : Array Scope := #[]
  /-- A scope is younger than the one that encloses it. -/
  parent_lt : ∀ i p, scopes[i]?.bind Scope.parent = some p → p < i := by simp

namespace Store

/-- The number of scopes made so far. -/
def size (s : Store) : Nat := s.scopes.size

/-- The scope that encloses a scope. -/
def parent? (s : Store) (i : ScopeId) : Option ScopeId := s.scopes[i]?.bind Scope.parent

/-- The value that a scope itself binds to a name. -/
def own? (s : Store) (i : ScopeId) (name : String) : Option Value :=
  s.scopes[i]?.bind fun scope => scope.bindings[name]?

/-- The names that a scope itself binds, in order. -/
def names (s : Store) (i : ScopeId) : List String :=
  match s.scopes[i]? with
  | some scope => scope.bindings.keys
  | none => []

/-- A scope and the scopes around it, from the inside out. -/
def chain (s : Store) (i : ScopeId) : List ScopeId :=
  match _h : s.parent? i with
  | none => [i]
  | some p => i :: chain s p
termination_by i
decreasing_by exact s.parent_lt i p _h

/-- The nearest scope on the chain of a scope that binds a name. -/
def resolve (s : Store) (i : ScopeId) (name : String) : Option ScopeId :=
  (s.chain i).find? fun j => (s.own? j name).isSome

/-- What a name means in a scope. -/
def get? (s : Store) (i : ScopeId) (name : String) : Option Value :=
  (s.chain i).findSome? fun j => s.own? j name

/-! ### Making and changing scopes -/

/-- Adds a scope. One that claims to be enclosed in a scope not yet made is enclosed in none. -/
def add (s : Store) (parent : Option ScopeId) : Store where
  scopes := s.scopes.push { parent := parent.filter (· < s.size) }
  parent_lt i p h := by
    rw [Array.getElem?_push] at h
    split at h
    · next hi =>
      subst hi
      simp only [Option.bind_some, Option.filter_eq_some_iff] at h
      exact of_decide_eq_true h.2
    · exact s.parent_lt i p h

/-- Binds a name in a scope, over any value that it has there. -/
def define (s : Store) (i : ScopeId) (name : String) (value : Value) : Store where
  scopes := s.scopes.modify i fun scope =>
    { scope with bindings := scope.bindings.insert name value }
  parent_lt j p h := by
    rw [Array.getElem?_modify] at h
    split at h
    · next hij =>
      subst hij
      refine s.parent_lt i p ?_
      cases hs : s.scopes[i]? with
      | none => simp [hs] at h
      | some scope => simpa [hs] using h
    · exact s.parent_lt j p h

/-- Binds names to values pairwise; what is left over on either side is dropped. -/
def defineAll (s : Store) (i : ScopeId) (names : List String) (values : List Value) : Store :=
  (names.zip values).foldl (fun t nv => t.define i nv.1 nv.2) s

/-! ### What is seen of a change

A store is seen through its size, the enclosing scope of each scope, and what each scope binds
itself. -/

@[simp]
theorem size_add (s : Store) (parent : Option ScopeId) : (s.add parent).size = s.size + 1 := by
  simp [size, add]

@[simp]
theorem size_define (s : Store) (i : ScopeId) (name : String) (value : Value) :
    (s.define i name value).size = s.size := by
  simp [size, define]

/-- Binding a name moves no scope. -/
@[simp]
theorem parent?_define (s : Store) (i j : ScopeId) (name : String) (value : Value) :
    (s.define i name value).parent? j = s.parent? j := by
  simp only [parent?, define, Array.getElem?_modify]
  split
  · next h => subst h; cases s.scopes[i]? <;> rfl
  · rfl

/-- A new scope binds nothing, and changes no other. -/
@[simp]
theorem own?_add (s : Store) (parent : Option ScopeId) (i : ScopeId) (name : String) :
    (s.add parent).own? i name = s.own? i name := by
  simp only [own?, add, Array.getElem?_push]
  split
  · next h => simp [h]
  · rfl

/-- The new scope is enclosed as asked for, if that scope is there; no other scope moves. -/
theorem parent?_add (s : Store) (parent : Option ScopeId) (i : ScopeId) :
    (s.add parent).parent? i =
      if i = s.size then parent.filter (· < s.size) else s.parent? i := by
  simp only [parent?, add, Array.getElem?_push]
  by_cases h : i = s.size
  · rw [if_pos h, if_pos (show i = s.scopes.size from h)]
    rfl
  · rw [if_neg h, if_neg (show ¬i = s.scopes.size from h)]

/-- A binding is seen in the scope in which it was made, under its name, and nowhere else. -/
theorem own?_define (s : Store) (i j : ScopeId) (name name' : String) (value : Value) :
    (s.define i name value).own? j name' =
      if i = j ∧ name = name' ∧ i < s.size then some value else s.own? j name' := by
  simp only [own?, define, Array.getElem?_modify, size]
  by_cases hij : i = j
  · subst hij
    by_cases hi : i < s.scopes.size
    · simp [hi, Std.TreeMap.getElem?_insert]
    · simp [hi]
  · simp [hij]

/-! ### Names in a program -/

/-- The error of a name that means nothing. -/
def undefined (name : Token) : RuntimeError := .located name (.undefinedVariable name.lexeme)

/-- What a name means in a scope, or the error that it means nothing. -/
def lookup (s : Store) (i : ScopeId) (name : Token) : Except RuntimeError Value :=
  match s.get? i name.lexeme with
  | some v => .ok v
  | none => .error (undefined name)

/-- Gives a new value to a name in the scope that binds it. -/
def assign (s : Store) (i : ScopeId) (name : Token) (value : Value) : Except RuntimeError Store :=
  match s.resolve i name.lexeme with
  | some j => .ok (s.define j name.lexeme value)
  | none => .error (undefined name)

/-! ### Showing scopes -/

/-- A scope in words: the names that it binds itself, and whether it is enclosed. -/
def text (s : Store) (i : ScopeId) : String :=
  "Environment \x7b names: [" ++ ", ".intercalate ((s.names i).map Text.quoted) ++ "], enclosed: "
    ++ (if (s.parent? i).isSome then "true" else "false") ++ " \x7d"

end Store

end Lox
