import Lox.Proofs.Machine.Current
import Lox.Proofs.Scope.Chain
import Mathlib.Logic.Relation

/-!
Names come and stay. An expression binds no new name in any scope that was there before, and a
statement does so in the current scope only; no name is ever taken away, and no scope is ever moved
into another. So a name that means something in a scope always will, and a block or a call leaves no
name behind.
-/

namespace Lox

/-! ### Stores in which nothing is lost -/

namespace Store

/-- The second store holds the scopes of the first, enclosed as they were, and each of them still
binds the names that it bound. -/
structure Lasts (s s' : Store) : Prop where
  size : s.size ≤ s'.size
  parent : ∀ i < s.size, s'.parent? i = s.parent? i
  names : ∀ i, ∀ name ∈ s.names i, name ∈ s'.names i

variable {s s' s'' : Store} {i : ScopeId} {name : String}

theorem Lasts.refl (s : Store) : s.Lasts s := ⟨Nat.le_refl _, fun _ _ => rfl, fun _ _ h => h⟩

theorem Lasts.trans (h : s.Lasts s') (h' : s'.Lasts s'') : s.Lasts s'' := by
  refine ⟨Nat.le_trans h.size h'.size, fun i hi => ?_, fun i name hname => ?_⟩
  · rw [h'.parent i (Nat.lt_of_lt_of_le hi h.size), h.parent i hi]
  · exact h'.names i name (h.names i name hname)

/-- A binding takes nothing away. -/
theorem Lasts.define (s : Store) (i : ScopeId) (name : String) (v : Value) :
    s.Lasts (s.define i name v) where
  size := by simp
  parent j _ := parent?_define s i j name v
  names _ _ h := mem_names_define h i name v

/-- A name that means something goes on to mean something. -/
theorem Lasts.isSome_get? (h : s.Lasts s') (hname : (s.get? i name).isSome = true) :
    (s'.get? i name).isSome = true := by
  induction i using Nat.strongRecOn with
  | ind i ih =>
    rw [isSome_get?_iff] at hname ⊢
    rcases hname with hname | ⟨p, hp, hname⟩
    · exact .inl (h.names i name hname)
    · have hp' := h.parent i (lt_size_of_parent? hp)
      exact .inr ⟨p, hp'.trans hp, ih p (s.parent_lt i p hp) hname⟩

theorem lookup_eq_ok_iff {token : Token} :
    (∃ v, s.lookup i token = .ok v) ↔ (s.get? i token.lexeme).isSome = true := by
  unfold lookup
  cases s.get? i token.lexeme <;> simp

/-- Where names are neither lost nor gained, what meant nothing goes on to mean nothing. -/
theorem Lasts.get?_eq_none (h : s.Lasts s')
    (hgained : ∀ j < s.size, ∀ name ∈ s'.names j, name ∈ s.names j) (hi : i < s.size)
    (hname : s.get? i name = none) : s'.get? i name = none := by
  rw [← Option.not_isSome_iff_eq_none] at hname ⊢
  intro hname'
  apply hname
  clear hname
  induction i using Nat.strongRecOn with
  | ind i ih =>
    rw [isSome_get?_iff] at hname' ⊢
    rcases hname' with hname' | ⟨p, hp, hname'⟩
    · exact .inl (hgained i hi name hname')
    · rw [h.parent i hi] at hp
      have hlt := s.parent_lt i p hp
      exact .inr ⟨p, hp, ih p hlt (Nat.lt_trans hlt hi) hname'⟩

end Store

/-! ### What runs do to names -/

namespace Machine

/-- Nothing is lost between the two machines, and of the scopes of the first only those in `gaining`
gain names. -/
structure Gains (gaining : ScopeId → Prop) (m m' : Machine) : Prop where
  current : m'.current = m.current
  lasts : m.store.Lasts m'.store
  gained : ∀ i < m.store.size, ¬gaining i → ∀ name ∈ m'.store.names i, name ∈ m.store.names i

/-- No scope gains a name. -/
def KeepsNames : Machine → Machine → Prop := Gains fun _ => False

/-- No scope but the current one gains a name. -/
def Declares (m : Machine) : Machine → Prop := Gains (· = m.current) m

variable {gaining : ScopeId → Prop} {m m' m'' : Machine}

theorem Gains.refl (gaining : ScopeId → Prop) (m : Machine) : Gains gaining m m :=
  ⟨rfl, .refl _, fun _ _ _ _ h => h⟩

theorem Gains.trans (h : Gains gaining m m') (h' : Gains gaining m' m'') : Gains gaining m m'' := by
  refine ⟨h'.current.trans h.current, h.lasts.trans h'.lasts, fun i hi hout name hname => ?_⟩
  have hi' := Nat.lt_of_lt_of_le hi h.lasts.size
  exact h.gained i hi hout name (h'.gained i hi' hout name hname)

/-- A binding adds its name to its scope. -/
theorem Gains.define (m : Machine) {i : ScopeId} {name : String} (value : Value)
    (h : gaining i ∨ name ∈ m.store.names i) : Gains gaining m (m.define i name value) := by
  refine ⟨rfl, .define m.store i name value, fun j _ hj name' hname => ?_⟩
  rw [Machine.define, Store.mem_names, Store.own?_define] at hname
  split at hname
  · next hdefined =>
    obtain ⟨rfl, rfl, -⟩ := hdefined
    exact h.resolve_left hj
  · exact Store.mem_names.2 hname

/-- What is done in a new scope adds no names to the others. -/
theorem Gains.leave {parent : ScopeId} {names : List String} {values : List Value}
    (h : Gains (· = m.store.size) (m.entered parent names values) m') :
    KeepsNames m { m' with current := m.current } := by
  have hsize : (m.entered parent names values).store.size = m.store.size + 1 := by
    simp [entered]
  have hparent : ∀ i < m.store.size,
      (m.entered parent names values).store.parent? i = m.store.parent? i := by
    intro i hi
    simp [entered, Store.parent?_add, Nat.ne_of_lt hi]
  have hnames : ∀ i < m.store.size, ∀ name,
      name ∈ (m.entered parent names values).store.names i ↔ name ∈ m.store.names i := by
    intro i hi name
    simp only [Store.mem_names, entered]
    rw [Store.own?_defineAll_of_ne (Nat.ne_of_gt hi), Store.own?_add]
  have hle : m.store.size + 1 ≤ m'.store.size := hsize ▸ h.lasts.size
  refine ⟨rfl, ⟨Nat.le_of_succ_le hle, fun i hi => ?_, fun i name hname => ?_⟩,
    fun i hi _ name hname => ?_⟩
  · rw [h.lasts.parent i (by omega), hparent i hi]
  · have hi := Store.lt_size_of_mem_names hname
    exact h.lasts.names i name ((hnames i hi name).2 hname)
  · exact (hnames i hi name).1 (h.gained i (by omega) (Nat.ne_of_lt hi) name hname)

theorem names_stable : Run.Stable KeepsNames Declares where
  refl m := .refl _ m
  trans h h' := h.trans h'
  transStatement h h' := by
    rw [Declares, h.current] at h'
    exact h.trans h'
  ofExpression h := { h with gained := fun i hi _ => h.gained i hi id }
  assign m i name value h := .define m value (.inr (Store.mem_names_of_resolve h))
  count m := ⟨rfl, .refl _, fun _ _ _ _ h => h⟩
  print m _ := ⟨rfl, .refl _, fun _ _ _ _ h => h⟩
  read m := ⟨rfl, .refl _, fun _ _ _ _ h => h⟩
  define m name value := .define m value (.inl rfl)
  enter h := h.leave

/-- A block in any scope adds names to that scope only. -/
theorem gains_execBlock (n : Nat) (scope : ScopeId) (body : List Stmt) :
    Run.Moves (Gains (· = scope)) (execBlock (exec n) scope body) := by
  intro m
  have hinside := names_stable.execList (names_stable.exec n) body { m with current := scope }
  rw [execBlock, Run.stop_within]
  exact ⟨rfl, hinside.lasts, hinside.gained⟩

theorem KeepsNames.mem_names_iff (h : KeepsNames m m') {i : ScopeId} (hi : i < m.store.size)
    (name : String) : name ∈ m'.store.names i ↔ name ∈ m.store.names i :=
  ⟨h.gained i hi id name, h.lasts.names i name⟩

/-- A name that cannot be resolved from the current scope still cannot. -/
theorem KeepsNames.resolve_eq_none (h : KeepsNames m m') (hm : m.current < m.store.size)
    {name : String} (hname : m.store.resolve m.current name = none) :
    m'.store.resolve m.current name = none := by
  rw [← Option.not_isSome_iff_eq_none, Store.isSome_resolve, Option.not_isSome_iff_eq_none] at *
  exact h.lasts.get?_eq_none (fun j hj => h.gained j hj id) hm hname

end Machine

/-! ### Sessions -/

namespace Session

open Machine

theorem lasts_interpret {s t : Session} {n : Nat} {ss : List Stmt}
    (h : s.interpret n ss = some t) : s.machine.store.Lasts t.machine.store := by
  obtain ⟨⟨outcome, m⟩, hperform, rfl⟩ := Option.map_eq_some_iff.1 h
  have hgains := moves_of_perform (names_stable.execList (names_stable.exec n) ss) hperform
  exact hgains.lasts

/-- No step of a session loses anything. -/
theorem Step.lasts {s t : Session} (h : Step s t) : s.machine.store.Lasts t.machine.store := by
  cases h with
  | run h =>
    unfold Session.run at h
    dsimp only at h
    split at h
    · cases h
      exact .refl _
    · have hlasts := lasts_interpret h
      exact hlasts
  | interpret h => exact lasts_interpret h
  | execute h => exact (moves_of_perform (names_stable.exec _ _) h).lasts
  | executeBlock h => exact (moves_of_perform (gains_execBlock _ _ _) h).lasts
  | executeNewBlock h =>
    exact (moves_of_perform (names_stable.newBlock (names_stable.exec _) _ [] [] _) h).lasts
  | call h => exact (moves_of_perform (names_stable.invoke (names_stable.exec _) _ _) h).lasts
  | report => exact .refl _

/-- However long a session goes on, nothing is lost. -/
theorem lasts_of_steps {s t : Session} (h : Relation.ReflTransGen Step s t) :
    s.machine.store.Lasts t.machine.store := by
  induction h with
  | refl => exact .refl _
  | tail _ hstep ih => exact ih.trans hstep.lasts

end Session

namespace Machine

open Run

/-- However it ends, and wherever it is broken off, an expression binds no new name in a scope that
was there before, a statement does so in the current scope only, and a block not even there; no name
is taken away and no scope is moved into another. So what can be looked up in a scope can be looked
up there ever after, in the course of a run and of a session; and what cannot be resolved from the
current scope cannot be after a block, an expression or a call either. -/
theorem names_only_extend :
    (∀ (m : Machine) (n : Nat) (e : Expr) (i : ScopeId) (name : String), i < m.store.size →
      (name ∈ (stop (eval n e m)).store.names i ↔ name ∈ m.store.names i)) ∧
    (∀ (m : Machine) (n : Nat) (s : Stmt) (i : ScopeId) (name : String), i < m.store.size →
      (i ≠ m.current →
        (name ∈ (stop (exec n s m)).store.names i ↔ name ∈ m.store.names i)) ∧
      (name ∈ m.store.names i → name ∈ (stop (exec n s m)).store.names i)) ∧
    (∀ (m : Machine) (n : Nat) (body : List Stmt) (i : ScopeId) (name : String),
      i < m.store.size →
      (name ∈ (stop (exec n (.block body) m)).store.names i ↔ name ∈ m.store.names i)) ∧
    (∀ (m : Machine) (n : Nat) (i : ScopeId), i < m.store.size →
      (∀ e : Expr, (stop (eval n e m)).store.parent? i = m.store.parent? i) ∧
      ∀ s : Stmt, (stop (exec n s m)).store.parent? i = m.store.parent? i) ∧
    (∀ (m : Machine) (n : Nat) (i : ScopeId) (token : Token),
      (∃ v, m.store.lookup i token = .ok v) →
      (∀ e : Expr, ∃ v, (stop (eval n e m)).store.lookup i token = .ok v) ∧
      ∀ s : Stmt, ∃ v, (stop (exec n s m)).store.lookup i token = .ok v) ∧
    (∀ s t : Session, Relation.ReflTransGen Session.Step s t →
      (∀ i < s.machine.store.size, t.machine.store.parent? i = s.machine.store.parent? i) ∧
      ∀ (i : ScopeId) (token : Token), (∃ v, s.machine.store.lookup i token = .ok v) →
        ∃ v, t.machine.store.lookup i token = .ok v) ∧
    (∀ (m : Machine) (n : Nat) (name : String), m.current < m.store.size →
      m.store.resolve m.current name = none →
      (∀ body : List Stmt, (stop (exec n (.block body) m)).store.resolve m.current name = none) ∧
      (∀ e : Expr, (stop (eval n e m)).store.resolve m.current name = none) ∧
      ∀ (f : Callable) (arguments : List Value),
        (stop (invoke (exec n) f arguments m)).store.resolve m.current name = none) := by
  have hexpr : ∀ n e, Moves KeepsNames (eval n e) := names_stable.eval
  have hstmt : ∀ n s, Moves Declares (exec n s) := names_stable.exec
  have hblock : ∀ n body, Moves KeepsNames (exec n (.block body)) := by
    intro n body m
    cases n with
    | zero => rw [exec]; exact .refl _ m
    | succ n => rw [exec]; exact names_stable.newBlock (hstmt n) m.current [] [] body m
  refine ⟨?_, ?_, ?_, ?_, ?_, ?_, ?_⟩
  · intro m n e i name hi
    exact (hexpr n e m).mem_names_iff hi name
  · intro m n s i name hi
    have h := hstmt n s m
    exact ⟨fun hne => ⟨h.gained i hi hne name, h.lasts.names i name⟩, h.lasts.names i name⟩
  · intro m n body i name hi
    exact (hblock n body m).mem_names_iff hi name
  · intro m n i hi
    exact ⟨fun e => (hexpr n e m).lasts.parent i hi, fun s => (hstmt n s m).lasts.parent i hi⟩
  · intro m n i token h
    rw [Store.lookup_eq_ok_iff] at h
    simp only [Store.lookup_eq_ok_iff]
    exact ⟨fun e => (hexpr n e m).lasts.isSome_get? h, fun s => (hstmt n s m).lasts.isSome_get? h⟩
  · intro s t hsteps
    have hlasts := Session.lasts_of_steps hsteps
    refine ⟨hlasts.parent, fun i token h => ?_⟩
    rw [Store.lookup_eq_ok_iff] at h ⊢
    exact hlasts.isSome_get? h
  · intro m n name hm hname
    refine ⟨fun body => (hblock n body m).resolve_eq_none hm hname,
      fun e => (hexpr n e m).resolve_eq_none hm hname, fun f arguments => ?_⟩
    exact (names_stable.invoke (hstmt n) f arguments m).resolve_eq_none hm hname

/-- A block that declares a variable and a function. -/
def declaringBlock : Stmt :=
  .block [.declare ⟨.identifier, "a", 1⟩ none, .function ⟨.identifier, "f", 1⟩ [] []]

theorem names_only_extend_declaringBlock :
    (∃ m, unused.execute 3 declaringBlock = some (.ok .normal, m)) ∧
    unused.current < unused.store.size ∧ unused.store.resolve unused.current "a" = none ∧
    (stop (exec 3 declaringBlock unused)).store.resolve unused.current "a" = none := by
  have hcurrent : unused.current < unused.store.size := by decide +kernel
  have hname : unused.store.resolve unused.current "a" = none := by decide +kernel
  refine ⟨⟨_, rfl⟩, hcurrent, hname, ?_⟩
  exact (names_only_extend.2.2.2.2.2.2 unused 3 "a" hcurrent hname).1 _

end Machine

end Lox
