import Lox.Proofs.Machine.Simulation

/-!
More steps change no answer. A run that ends without running out of the steps granted to it ends in
the same way, on the same machine, if it is granted more. So two runs of one program that both end
agree, however many steps each was granted.
-/

namespace Lox

variable {α β : Type}

namespace Run

/-- Wherever `r` does not run out of steps, `r'` does the same. -/
def Extends (r' r : Run α) : Prop :=
  ∀ m, (∃ m', r m = .error .outOfSteps m') ∨ r' m = r m

theorem Extends.refl (r : Run α) : Extends r r := fun _ => .inr rfl

theorem Extends.trans {r r' r'' : Run α} (h : Extends r' r) (h' : Extends r'' r') :
    Extends r'' r := by
  intro m
  rcases h m with hout | heq
  · exact .inl hout
  · rcases h' m with ⟨m', hout⟩ | heq'
    · exact .inl ⟨m', by rw [← heq, hout]⟩
    · exact .inr (heq'.trans heq)

/-- If the first part runs out of steps, so does the whole. -/
theorem Extends.bind {r r' : Run α} {f f' : α → Run β} (hr : Extends r' r)
    (hf : ∀ a, Extends (f' a) (f a)) : Extends (r' >>= f') (r >>= f) := by
  intro m
  rcases hr m with ⟨m', hout⟩ | heq
  · exact .inl ⟨m', bind_of_error hout f⟩
  · cases h : r m with
    | error s m' =>
      rw [h] at heq
      rw [bind_of_error h, bind_of_error heq]
      exact .inr rfl
    | ok a m' =>
      rw [h] at heq
      rw [bind_of_ok h, bind_of_ok heq]
      exact hf a m'

/-- Where the work is done makes no difference to how it ends. -/
theorem Extends.within {r r' : Run α} (h : Extends r' r) (scope : ScopeId) :
    Extends (within scope r') (within scope r) := by
  intro m
  unfold Run.within
  rcases h { m with current := scope } with ⟨m', hout⟩ | heq
  · rw [hout]
    exact .inl ⟨_, rfl⟩
  · rw [heq]
    exact .inr rfl

theorem Extends.andThen {r r' next next' : Run Flow} (hr : Extends r' r)
    (hnext : Extends next' next) : Extends (r'.andThen next') (r.andThen next) :=
  hr.bind fun flow => by
    cases flow with
    | normal => exact hnext
    | returned v => exact .refl _

end Run

open Run

/-! ### A run and the same run with more steps -/

/-- A run is compared with the same run on the same machine that is granted `k` steps more. -/
def moreSteps (k : Nat) : Simulation where
  World := Unit
  later _ _ := True
  machines _ m m' := m = m'
  scopes _ i i' := i = i'
  binds _ := True
  code _ := True
  lines := id
  more := k

section

variable {k : Nat} {w : (moreSteps k).World}

theorem moreSteps_values_self (v : Value) : (moreSteps k).Values w v v :=
  Simulation.values_self fun _ _ _ _ _ _ => ⟨fun _ _ => trivial, rfl⟩

theorem moreSteps_values_eq {v v' : Value} (h : (moreSteps k).Values w v v') : v = v' :=
  h.eq rfl fun _ _ hi => hi

theorem moreSteps_becomes_self (m : Machine) : (moreSteps k).Becomes w m m := ⟨w, trivial, rfl⟩

/-- On one and the same machine every step does the same. -/
theorem sound_moreSteps (k : Nat) : (moreSteps k).Sound where
  refl _ := trivial
  trans _ _ := trivial
  scopes _ hi := hi
  binds _ _ := trivial
  parts _ _ _ := trivial
  agree := by rintro _ m _ rfl; exact ⟨rfl, rfl, rfl, rfl⟩
  current := by rintro _ m _ rfl; rfl
  get := by
    rintro _ m _ name rfl
    cases m.store.get? m.current name with
    | none => exact .none
    | some v => exact .some (moreSteps_values_self v)
  assign := by
    rintro _ m _ v v' name rfl hv
    rw [moreSteps_values_eq hv]
    cases m.store.resolve m.current name with
    | none => exact .none
    | some i => exact .some (moreSteps_becomes_self _)
  define := by
    rintro _ m _ v v' name rfl - hv
    rw [moreSteps_values_eq hv]
    exact moreSteps_becomes_self _
  touch := by
    rintro _ m _ identities sink readings rfl
    exact moreSteps_becomes_self _
  enter := by
    rintro w m _ p _ vs vs' names rfl rfl hvs
    have heq : vs = vs' := by
      rw [← List.forall₂_eq_eq_eq]
      exact hvs.imp fun _ _ => moreSteps_values_eq
    rw [heq]
    refine ⟨w, rfl, trivial, ?_⟩
    rintro _ n _ - rfl
    exact ⟨w, trivial, rfl, fun _ _ hi => hi⟩

/-- The first run is out of steps, or else both end in the same way. -/
theorem extends_of_goes {r r' : Run α} {A : (moreSteps k).World → α → α → Prop}
    (h : ∀ w, (moreSteps k).Goes w A r r') (hA : ∀ w a a', A w a a' → a = a') : Extends r' r := by
  intro m
  have hends := h () m m rfl
  generalize r m = x at hends ⊢
  generalize r' m = x' at hends ⊢
  cases hends with
  | ok _ hm ha =>
    obtain rfl : _ = _ := hm
    rw [hA _ _ _ ha]
    exact .inr rfl
  | error hbecomes he =>
    obtain ⟨_, -, hm⟩ := hbecomes
    obtain rfl : _ = _ := hm
    have he' : _ = _ := he
    rw [moreSteps, RuntimeError.reline_id, RuntimeError.reline_id] at he'
    rw [he']
    exact .inr rfl
  | outOfSteps => exact .inl ⟨_, rfl⟩
  | behind => exact .inl ⟨_, rfl⟩

end

theorem eval_extends {n n' : Nat} (h : n ≤ n') (e : Expr) : Extends (eval n' e) (eval n e) := by
  obtain ⟨k, rfl⟩ := Nat.exists_eq_add_of_le' h
  exact extends_of_goes (((sound_moreSteps k).evaluates_and_executes n).1 rfl)
    fun _ _ _ => moreSteps_values_eq

theorem exec_extends {n n' : Nat} (h : n ≤ n') (s : Stmt) : Extends (exec n' s) (exec n s) := by
  obtain ⟨k, rfl⟩ := Nat.exists_eq_add_of_le' h
  refine extends_of_goes (fun w => ((sound_moreSteps k).evaluates_and_executes n).2 rfl trivial w
    (.inr trivial)) fun _ flow flow' hflow => ?_
  cases hflow with
  | normal => rfl
  | returned hv => rw [moreSteps_values_eq hv]

/-- The statements are executed one after the other, each with as many steps. -/
theorem execList_extends {exec exec' : Stmt → Run Flow} (h : ∀ s, Extends (exec' s) (exec s))
    (ss : List Stmt) : Extends (execList exec' ss) (execList exec ss) := by
  induction ss with
  | nil => exact .refl _
  | cons s ss ih => exact (h s).andThen ih

/-- More steps change no answer. -/
theorem execList_of_le {n n' : Nat} (h : n ≤ n') {ss : List Stmt} {m m' : Machine} {flow : Flow}
    (hrun : execList (exec n) ss m = .ok flow m') : execList (exec n') ss m = .ok flow m' := by
  rcases execList_extends (exec_extends h) ss m with ⟨m'', hout⟩ | heq
  · rw [hout] at hrun
    cases hrun
  · rw [heq, hrun]

end Lox
