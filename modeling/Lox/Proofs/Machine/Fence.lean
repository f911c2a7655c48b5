import Lox.Proofs.Machine.Simulation
import Lox.Proofs.Scope.Chain

/-!
What a run can get at. A scope leads to the scope around it and to the scopes that the functions
bound in it remember. To see how far a run gets, a fence is put around a set of scopes that no link
leaves. The values that come up in the run all belong inside, every step keeps the fence closed, and
nothing outside is changed.
-/

namespace Lox

variable {α β : Type}

namespace Store

/-- A scope leads to the scope around it, and to those that the functions bound in it remember. -/
inductive Link (s : Store) : ScopeId → ScopeId → Prop
  | parent {i p : ScopeId} : s.parent? i = some p → Link s i p
  | binding {i j : ScopeId} {name : String} {v : Value} : s.own? i name = some v →
    v.scope? = some j → Link s i j

variable {s : Store} {i j k p : ScopeId} {name : String} {v : Value}

theorem Link.lt_size (h : s.Link i j) : i < s.size := by
  cases h with
  | parent h => exact lt_size_of_parent? h
  | binding h _ => exact lt_size_of_own? h

/-- A binding adds links to the scope of its value only. -/
theorem Link.of_define (h : (s.define i name v).Link j k) : s.Link j k ∨ v.scope? = some k := by
  cases h with
  | parent h =>
    rw [parent?_define] at h
    exact .inl (.parent h)
  | binding h hscope =>
    rw [own?_define] at h
    split at h
    · cases h
      exact .inr hscope
    · exact .inl (.binding h hscope)

/-- A new scope leads to the one around it only, and changes no other link. -/
theorem Link.of_add (h : (s.add (some p)).Link j k) : s.Link j k ∨ k = p := by
  cases h with
  | parent h =>
    rw [parent?_add] at h
    split at h
    · rw [Option.filter_eq_some_iff] at h
      cases h.1
      exact .inr rfl
    · exact .inl (.parent h)
  | binding h hscope =>
    rw [own?_add] at h
    exact .inl (.binding h hscope)

end Store

/-! ### Fences -/

/-- A fence is put up when there are `base` scopes. Inside are some scopes given beforehand, and all
that are made later. -/
structure Fence where
  reached : ScopeId → Prop
  base : Nat

namespace Fence

/-- The scope is inside. -/
def Inside (F : Fence) (s : Store) (i : ScopeId) : Prop := F.reached i ∨ F.base ≤ i ∧ i < s.size

/-- The value does not remember a scope outside. -/
def Holds (F : Fence) (s : Store) (v : Value) : Prop := ∀ i, v.scope? = some i → F.Inside s i

/-- No link leads from the inside to the outside. -/
structure Closed (F : Fence) (s : Store) : Prop where
  base_le : F.base ≤ s.size
  link : ∀ i j, F.Inside s i → s.Link i j → F.Inside s j

/-- Between the two machines nothing outside was changed, and the fence is closed afterwards. -/
structure Kept (F : Fence) (m m' : Machine) : Prop where
  current : m'.current = m.current
  size : m.store.size ≤ m'.store.size
  closed : F.Closed m'.store
  outside : ∀ i < F.base, ¬F.reached i → m'.store.scopes[i]? = m.store.scopes[i]?

variable {F : Fence} {s s' : Store} {i j p : ScopeId} {v : Value} {m m' m'' : Machine}

/-- Scopes are made, never removed; what is inside stays inside. -/
theorem Inside.mono (h : F.Inside s i) (hle : s.size ≤ s'.size) : F.Inside s' i := by
  rcases h with h | ⟨hbase, hlt⟩
  · exact .inl h
  · exact .inr ⟨hbase, Nat.lt_of_lt_of_le hlt hle⟩

theorem Holds.mono (h : F.Holds s v) (hle : s.size ≤ s'.size) : F.Holds s' v :=
  fun i hi => (h i hi).mono hle

/-- A value that remembers no scope belongs everywhere. -/
theorem holds_of_none (h : v.scope? = none) : F.Holds s v := by
  intro i hi
  rw [h] at hi
  cases hi

theorem Kept.refl (h : F.Closed m.store) : F.Kept m m :=
  ⟨rfl, Nat.le_refl _, h, fun _ _ _ => rfl⟩

theorem Kept.trans (h : F.Kept m m') (h' : F.Kept m' m'') : F.Kept m m'' := by
  refine ⟨h'.current.trans h.current, Nat.le_trans h.size h'.size, h'.closed, fun i hi hout => ?_⟩
  rw [h'.outside i hi hout, h.outside i hi hout]

/-- A binding of a value that belongs inside leads nowhere else. -/
theorem Closed.define (h : F.Closed s) (hv : F.Holds s v) (i : ScopeId) (name : String) :
    F.Closed (s.define i name v) := by
  have hsize := Store.size_define s i name v
  refine ⟨hsize ▸ h.base_le, fun j k hj hlink => ?_⟩
  have hj' : F.Inside s j := hj.mono (Nat.le_of_eq hsize)
  have hk : F.Inside s k := by
    rcases hlink.of_define with hlink | hscope
    · exact h.link j k hj' hlink
    · exact hv k hscope
  exact hk.mono (Nat.le_of_eq hsize.symm)

theorem Closed.defineAll (i : ScopeId) (names : List String) {values : List Value}
    (h : F.Closed s) (hvalues : ∀ v ∈ values, F.Holds s v) :
    F.Closed (s.defineAll i names values) := by
  induction names generalizing s values with
  | nil => exact h
  | cons name names ih =>
    cases values with
    | nil => exact h
    | cons v values =>
      refine ih (h.define (hvalues v List.mem_cons_self) i name) fun w hw => ?_
      exact (hvalues w (List.mem_cons_of_mem v hw)).mono
        (Nat.le_of_eq (Store.size_define s i name v).symm)

/-- A scope that is made after the fence was put up is inside. -/
theorem inside_new (h : F.Closed s) (parent : Option ScopeId) :
    F.Inside (s.add parent) s.size :=
  .inr ⟨h.base_le, by simp⟩

/-- A new scope leads to the one around it, which is inside. -/
theorem Closed.add (h : F.Closed s) (hp : F.Inside s p) : F.Closed (s.add (some p)) := by
  have hle : s.size ≤ (s.add (some p)).size := by simp
  refine ⟨Nat.le_trans h.base_le hle, fun j k hj hlink => ?_⟩
  rcases hlink.of_add with hlink | rfl
  · -- the new scope itself has no such link, so `j` was there before
    have hj' : F.Inside s j := by
      rcases hj with hj | ⟨hbase, -⟩
      · exact .inl hj
      · exact .inr ⟨hbase, hlink.lt_size⟩
    exact (h.link j k hj' hlink).mono hle
  · exact hp.mono hle

/-- What a name means inside belongs inside. -/
theorem Closed.holds_get? (h : F.Closed s) (hi : F.Inside s i) {name : String}
    (hv : s.get? i name = some v) : F.Holds s v := by
  induction i using Nat.strongRecOn with
  | ind i ih =>
    rw [Store.get?_eq] at hv
    cases hown : s.own? i name with
    | some w =>
      rw [hown] at hv
      cases hv
      intro j hj
      exact h.link i j hi (.binding hown hj)
    | none =>
      rw [hown, Option.none_or, Option.bind_eq_some_iff] at hv
      obtain ⟨p, hp, hv⟩ := hv
      exact ih p (s.parent_lt i p hp) (h.link i p hi (.parent hp)) hv

/-- A name that is used inside is bound inside. -/
theorem Closed.inside_resolve (h : F.Closed s) (hi : F.Inside s i) {name : String}
    (hj : s.resolve i name = some j) : F.Inside s j := by
  induction i using Nat.strongRecOn with
  | ind i ih =>
    rw [Store.resolve_eq] at hj
    split at hj
    · cases hj
      exact hi
    · rw [Option.bind_eq_some_iff] at hj
      obtain ⟨p, hp, hj⟩ := hj
      exact ih p (s.parent_lt i p hp) (h.link i p hi (.parent hp)) hj

/-- A binding inside changes nothing outside. -/
theorem kept_define (h : F.Closed m.store) (hi : F.Inside m.store i) (hv : F.Holds m.store v)
    (name : String) : F.Kept m (m.define i name v) := by
  refine ⟨rfl, ?_, h.define hv i name, fun j hj hout => ?_⟩
  · exact Nat.le_of_eq (Store.size_define m.store i name v).symm
  · refine Store.scopes_define_of_ne ?_
    rintro rfl
    rcases hi with hi | ⟨hbase, -⟩
    · exact hout hi
    · exact absurd hj (Nat.not_lt.2 hbase)

/-- Before a body starts, the fence is closed around its scope and nothing outside has changed. -/
theorem kept_entered (h : F.Closed m.store) (hp : F.Inside m.store p) (names : List String)
    {values : List Value} (hvalues : ∀ v ∈ values, F.Holds m.store v) :
    F.Closed (m.entered p names values).store ∧
    F.Inside (m.entered p names values).store m.store.size ∧
    m.store.size ≤ (m.entered p names values).store.size ∧
    ∀ i < F.base, (m.entered p names values).store.scopes[i]? = m.store.scopes[i]? := by
  have hle : m.store.size ≤ (m.store.add (some p)).size := by simp
  have hclosed : F.Closed ((m.store.add (some p)).defineAll m.store.size names values) :=
    (h.add hp).defineAll _ names fun v hv => (hvalues v hv).mono hle
  refine ⟨hclosed, ?_, by simp [Machine.entered], fun i hi => ?_⟩
  · exact (inside_new h (some p)).mono (by simp [Machine.entered])
  · have hlt : i < m.store.size := Nat.lt_of_lt_of_le hi h.base_le
    rw [Machine.entered, Store.scopes_defineAll_of_ne (Nat.ne_of_gt hlt),
      Store.scopes_add_of_lt _ hlt]

/-- What was done in the new scope changed nothing outside either. -/
theorem kept_back (h : F.Closed m.store) (hp : F.Inside m.store p) (names : List String)
    {values : List Value} (hvalues : ∀ v ∈ values, F.Holds m.store v)
    (hkept : F.Kept (m.entered p names values) m') :
    F.Kept m { m' with current := m.current } := by
  obtain ⟨-, -, hsize, houtside⟩ := kept_entered h hp names hvalues
  refine ⟨rfl, Nat.le_trans hsize hkept.size, hkept.closed, fun i hi hout => ?_⟩
  rw [hkept.outside i hi hout, houtside i hi]

end Fence

/-! ### Runs inside a fence -/

namespace Fence

open Run

/-- The run from `m` changed nothing outside, and ended with an error or with an answer of which
`A` says that it belongs inside. -/
def Ends (F : Fence) (A : Store → α → Prop) (m : Machine) :
    EStateM.Result Stop Machine α → Prop
  | .ok a m' => F.Kept m m' ∧ A m'.store a
  | .error _ m' => F.Kept m m'

/-- From every machine that works inside a closed fence, the computation stays inside. -/
def Confines (F : Fence) (A : Store → α → Prop) (r : Run α) : Prop :=
  ∀ m, F.Closed m.store → F.Inside m.store m.current → F.Ends A m (r m)

/-- Every value belongs inside. -/
def HoldsAll (F : Fence) (s : Store) (vs : List Value) : Prop := ∀ v ∈ vs, F.Holds s v

/-- The value that a statement returns belongs inside. -/
def HoldsFlow (F : Fence) (s : Store) (flow : Flow) : Prop := F.Holds s flow.value

variable {F : Fence} {A : Store → α → Prop} {B : Store → β → Prop} {m m' : Machine}

theorem Ends.kept {x : EStateM.Result Stop Machine α} (h : F.Ends A m x) : F.Kept m (stop x) := by
  cases x with
  | ok a m' => exact h.1
  | error s m' => exact h

/-- A run that stays inside is followed by one that goes on from there. -/
theorem Ends.bind {r : Run α} {f : α → Run β} (hr : F.Ends A m (r m))
    (hf : ∀ a m', F.Kept m m' → A m'.store a → F.Ends B m' (f a m')) :
    F.Ends B m ((r >>= f) m) := by
  cases h : r m with
  | ok a m' =>
    rw [h] at hr
    rw [bind_of_ok h]
    have hrest := hf a m' hr.1 hr.2
    cases hx : f a m' with
    | ok b m'' =>
      rw [hx] at hrest
      exact ⟨hr.1.trans hrest.1, hrest.2⟩
    | error s m'' =>
      rw [hx] at hrest
      exact hr.1.trans hrest
  | error s m' =>
    rw [h] at hr
    rw [bind_of_error h]
    exact hr

theorem Confines.bind {r : Run α} {f : α → Run β} (hr : F.Confines A r)
    (hf : ∀ a m, F.Closed m.store → F.Inside m.store m.current → A m.store a →
      F.Ends B m (f a m)) : F.Confines B (r >>= f) := by
  intro m hm hc
  refine (hr m hm hc).bind fun a m' hkept ha => ?_
  exact hf a m' hkept.closed (hkept.current ▸ hc.mono hkept.size) ha

theorem ends_pure (hm : F.Closed m.store) {a : α} (ha : A m.store a) :
    F.Ends A m ((pure a : Run α) m) :=
  ⟨.refl hm, ha⟩

theorem ends_fail (hm : F.Closed m.store) (e : RuntimeError) :
    F.Ends A m ((fail e : Run α) m) := Kept.refl hm

/-! ### Scopes and calls -/

theorem ends_readClock (hm : F.Closed m.store) : F.Ends F.Holds m (readClock m) := by
  have hkept : F.Kept m { m with readings := m.readings + 1 } :=
    ⟨rfl, Nat.le_refl _, hm, fun _ _ _ => rfl⟩
  unfold readClock
  dsimp only
  split
  · exact ⟨hkept, holds_of_none rfl⟩
  · exact hkept

/-- If the first statement returns, its value is all that is left. -/
theorem Confines.andThen {r next : Run Flow} (hr : F.Confines F.HoldsFlow r)
    (hnext : F.Confines F.HoldsFlow next) : F.Confines F.HoldsFlow (r.andThen next) := by
  refine hr.bind fun flow m hm hc hflow => ?_
  cases flow with
  | normal => exact hnext m hm hc
  | returned v => exact ends_pure hm hflow

theorem confines_normal : F.Confines F.HoldsFlow (return .normal) :=
  fun _ hm _ => ends_pure hm (holds_of_none rfl)

theorem confines_execList {exec : Stmt → Run Flow} (hs : ∀ s, F.Confines F.HoldsFlow (exec s))
    (ss : List Stmt) : F.Confines F.HoldsFlow (execList exec ss) := by
  induction ss with
  | nil => exact confines_normal
  | cons s ss ih => exact (hs s).andThen ih

/-- Work in a new scope stays inside, if the scope around it and the values bound in it are there;
where the machine works before and after does not matter. -/
theorem ends_newScope {r : Run Flow} (hr : F.Confines F.HoldsFlow r) (hm : F.Closed m.store)
    {parent : ScopeId} (hp : F.Inside m.store parent) (names : List String) {values : List Value}
    (hvalues : F.HoldsAll m.store values) :
    F.Ends F.HoldsFlow m ((openScope parent names values >>= fun inner => within inner r) m) := by
  obtain ⟨hclosed, hinside, -, -⟩ := kept_entered hm hp names hvalues
  have hends := hr (m.entered parent names values) hclosed hinside
  rw [openScope_bind]
  cases hx : r (m.entered parent names values) with
  | ok flow m' =>
    rw [hx] at hends
    rw [within_of_ok hx]
    exact ⟨kept_back hm hp names hvalues hends.1, hends.2⟩
  | error s m' =>
    rw [hx] at hends
    rw [within_of_error hx]
    exact kept_back hm hp names hvalues hends

theorem ends_callNative (hm : F.Closed m.store) (g : Native) (arguments : List Value) :
    F.Ends F.Holds m (callNative g arguments m) := by
  unfold callNative
  split
  · exact ends_readClock hm
  · exact ends_pure hm (holds_of_none rfl)
  · exact ends_fail hm _
  · exact ends_pure hm (holds_of_none rfl)

/-- A call stays inside, if the scope that the function remembers and the arguments are there. -/
theorem ends_invoke {exec : Stmt → Run Flow} (hs : ∀ s, F.Confines F.HoldsFlow (exec s))
    (hm : F.Closed m.store) {f : Callable} (hf : ∀ i, f.scope? = some i → F.Inside m.store i)
    {arguments : List Value} (harguments : F.HoldsAll m.store arguments) :
    F.Ends F.Holds m (invoke exec f arguments m) := by
  cases f with
  | native g => exact ends_callNative hm g arguments
  | closure name params body scope =>
    have hblock := ends_newScope (confines_execList hs body) hm (hf scope rfl)
      (params.map Token.lexeme) harguments
    have hvalue : F.Ends F.Holds m (((openScope scope (params.map Token.lexeme) arguments >>=
        fun inner => within inner (execList exec body)) >>= fun flow => pure flow.value) m) :=
      hblock.bind fun flow m' hkept hflow => ends_pure hkept.closed hflow
    rwa [bind_assoc] at hvalue

/-! ### The simulation -/

/-- A run is compared with itself. The world is the machine on which it goes on, inside the
fence. -/
def simulation (F : Fence) : Simulation where
  World := Machine
  later := F.Kept
  machines w m m' := m = w ∧ m' = w ∧ F.Closed w.store ∧ F.Inside w.store w.current
  scopes w i i' := i = i' ∧ F.Inside w.store i
  binds _ := True
  code _ := True
  lines := id
  more := 0

section

variable {w : Machine} {v v' : Value}

/-- Values that look the same are equal and belong inside. -/
theorem values_iff : F.simulation.Values w v v' ↔ v = v' ∧ F.Holds w.store v := by
  constructor
  · intro h
    refine ⟨h.eq rfl fun _ _ hi => hi.1, ?_⟩
    rcases h.eq_or_closure rfl with ⟨hv, -⟩ | ⟨_, _, _, _, i, _, rfl, -, -, hi⟩
    · exact holds_of_none hv
    · rintro _ ⟨⟩
      exact hi.2
  · rintro ⟨rfl, hv⟩
    refine Simulation.values_self fun _ _ _ _ i heq => ⟨fun _ _ => trivial, rfl, ?_⟩
    exact hv i (by rw [heq]; rfl)

theorem values_list {vs vs' : List Value} (h : List.Forall₂ (F.simulation.Values w) vs vs') :
    vs = vs' ∧ F.HoldsAll w.store vs := by
  induction h with
  | nil => exact ⟨rfl, by simp [HoldsAll]⟩
  | cons hv _ ih =>
    obtain ⟨rfl, hfirst⟩ := values_iff.1 hv
    obtain ⟨rfl, hothers⟩ := ih
    exact ⟨rfl, List.forall_mem_cons.2 ⟨hfirst, hothers⟩⟩

theorem becomes_of_kept (hw : F.Inside w.store w.current) (h : F.Kept w m) :
    F.simulation.Becomes w m m :=
  ⟨m, h, rfl, rfl, h.closed, h.current ▸ hw.mono h.size⟩

end

/-- No step leaves the fence: names lead inside, and functions made there remember a scope there. -/
theorem sound (F : Fence) : F.simulation.Sound where
  refl := by
    rintro w _ _ ⟨-, -, hclosed, -⟩
    exact .refl hclosed
  trans h h' := h.trans h'
  scopes h hi := ⟨hi.1, hi.2.mono h.size⟩
  binds _ _ := trivial
  parts _ _ _ := trivial
  agree := by
    rintro w _ _ ⟨rfl, rfl, -⟩
    exact ⟨rfl, rfl, rfl, rfl⟩
  current := by
    rintro w _ _ ⟨rfl, rfl, -, hinside⟩
    exact ⟨rfl, hinside⟩
  get := by
    rintro _ _ m name ⟨rfl, rfl, hclosed, hinside⟩
    cases h : m.store.get? m.current name with
    | none => exact .none
    | some v => exact .some (values_iff.2 ⟨rfl, hclosed.holds_get? hinside h⟩)
  assign := by
    rintro _ _ m v v' name ⟨rfl, rfl, hclosed, hinside⟩ hv
    obtain ⟨rfl, hholds⟩ := values_iff.1 hv
    cases h : m.store.resolve m.current name with
    | none => exact .none
    | some i =>
      have hi : F.Inside m.store i := hclosed.inside_resolve hinside h
      exact .some (becomes_of_kept hinside (kept_define hclosed hi hholds name))
  define := by
    rintro _ _ m v v' name ⟨rfl, rfl, hclosed, hinside⟩ - hv
    obtain ⟨rfl, hholds⟩ := values_iff.1 hv
    exact becomes_of_kept hinside (kept_define hclosed hinside hholds name)
  touch := by
    rintro _ _ m identities sink readings ⟨rfl, rfl, hclosed, hinside⟩
    exact becomes_of_kept hinside ⟨rfl, Nat.le_refl _, hclosed, fun _ _ _ => rfl⟩
  enter := by
    rintro _ _ m p _ vs vs' names ⟨rfl, rfl, hclosed, hinside⟩ ⟨rfl, hp⟩ hvs
    obtain ⟨rfl, hholds⟩ := values_list hvs
    obtain ⟨hentered, hcurrent, -, -⟩ := kept_entered hclosed hp names hholds
    refine ⟨m.entered p names vs, ⟨rfl, rfl, hentered, hcurrent⟩, trivial, ?_⟩
    rintro _ _ n hkept ⟨rfl, rfl, -⟩
    -- coming back, the current scope is inside as before
    have hback := kept_back hclosed hp names hholds hkept
    exact ⟨{ n with current := m.current }, hback,
      ⟨rfl, rfl, hback.closed, hinside.mono hback.size⟩, fun _ _ hi => hi⟩

/-- What is compared with itself inside the fence stays inside. -/
theorem confines_of_goes {r : Run α} {B : Machine → α → α → Prop}
    (h : ∀ w, F.simulation.Goes w B r r) (hB : ∀ w a a', B w a a' → A w.store a) :
    F.Confines A r := by
  intro m hm hc
  have hends := h m m m ⟨rfl, rfl, hm, hc⟩
  generalize r m = x at hends
  cases hends with
  | ok hkept hmachines ha =>
    obtain ⟨rfl, -⟩ := hmachines
    exact ⟨hkept, hB _ _ _ ha⟩
  | error hbecomes | outOfSteps hbecomes =>
    obtain ⟨_, hkept, rfl, -⟩ := hbecomes
    exact hkept
  | behind hmore => exact absurd rfl hmore

/-! ### Expressions and statements -/

/-- Every expression stays inside, and so does its value. -/
theorem confines_eval (n : Nat) (e : Expr) : F.Confines F.Holds (eval n e) :=
  confines_of_goes (F.sound.evaluates rfl n rfl) fun _ _ _ hv => (values_iff.1 hv).2

/-- Every statement stays inside, and so does what it returns. -/
theorem confines_exec (n : Nat) (s : Stmt) : F.Confines F.HoldsFlow (exec n s) := by
  refine confines_of_goes (fun w => F.sound.executes rfl n rfl trivial w (.inr trivial))
    fun _ _ _ hflow => ?_
  cases hflow with
  | normal => exact holds_of_none rfl
  | returned hv => exact (values_iff.1 hv).2

end Fence

end Lox
