import Lox.Proofs.Machine.Current
import Lox.Proofs.Machine.Fence
import Lox.Proofs.Machine.Folding

/-!
Making empty scopes on one side. While two machines go in step, the first may make a scope that the
second does without, if nothing is ever bound in it: it is left out from then on. For this every
scope that is remembered has to be there already, or the new scope could take the place of one that
is not. What a run starts with is kept: only scopes made in its course are left out.
-/

namespace Lox

open Run

variable {α β : Type}

/-! ### Machines whose scopes are all there -/

/-- Every scope that the machine works in or that links lead to is there. -/
structure Machine.WellFormed (m : Machine) : Prop where
  current : m.current < m.store.size
  link : ∀ i j, m.store.Link i j → j < m.store.size

/-- The fence around all scopes that there are. -/
def Fence.everything : Fence where
  reached _ := False
  base := 0

namespace Fence

theorem inside_everything {s : Store} {i : ScopeId} : everything.Inside s i ↔ i < s.size := by
  simp [everything, Inside]

end Fence

namespace Machine.WellFormed

open Fence

variable {m m' : Machine}

theorem closed (h : m.WellFormed) : everything.Closed m.store :=
  ⟨Nat.zero_le _, fun i j _ hlink => inside_everything.2 (h.link i j hlink)⟩

/-- A run that stays inside leaves a machine as well formed as it was. -/
theorem of_kept (h : m.WellFormed) (hkept : everything.Kept m m') : m'.WellFormed where
  current := by
    rw [hkept.current]
    exact Nat.lt_of_lt_of_le h.current hkept.size
  link i j hlink :=
    inside_everything.1 (hkept.closed.link i j (inside_everything.2 hlink.lt_size) hlink)

theorem kept {A : Store → α → Prop} {r : Run α} (h : m.WellFormed)
    (hr : everything.Confines A r) : everything.Kept m (stop (r m)) :=
  (hr m h.closed (inside_everything.2 h.current)).kept

theorem entered (h : m.WellFormed) {p : ScopeId} (hp : p < m.store.size) :
    (m.entered p [] []).WellFormed := by
  have hnone : ∀ v ∈ ([] : List Value), everything.Holds m.store v := by simp
  obtain ⟨hclosed, hinside, -, -⟩ := kept_entered h.closed (inside_everything.2 hp) [] hnone
  refine ⟨inside_everything.1 hinside, fun i j hlink => ?_⟩
  exact inside_everything.1 (hclosed.link i j (inside_everything.2 hlink.lt_size) hlink)

/-- A statement keeps all scopes there, however it ends. -/
theorem execute (h : m.WellFormed) {steps : Nat} {s : Stmt} {outcome : Outcome Flow}
    (hrun : m.execute steps s = some (outcome, m')) : m'.WellFormed := by
  rw [perform_eq_some hrun]
  exact h.of_kept (h.kept (confines_exec steps s))

theorem defineNative (h : m.WellFormed) (f : Native) : (m.defineNative f).WellFormed := by
  have hcounted : WellFormed { m with identities := m.identities + 1 } := ⟨h.current, h.link⟩
  have hglobal : everything.Inside m.store globalScope :=
    inside_everything.2 (Nat.lt_of_le_of_lt (Nat.zero_le _) h.current)
  have hvalue : everything.Holds m.store (.callable m.identities (.native f)) := holds_of_none rfl
  exact hcounted.of_kept (kept_define hcounted.closed hglobal hvalue f.name)

theorem foldl_defineNative (fs : List Native) (h : m.WellFormed) :
    (fs.foldl Machine.defineNative m).WellFormed := by
  induction fs generalizing m with
  | nil => exact h
  | cons f fs ih => exact ih (h.defineNative f)

end Machine.WellFormed

/-- In a new machine all scopes are there. -/
theorem Machine.wellFormed_new (sink : Sink) (clock : Nat → Option Float) :
    (new sink clock).WellFormed := by
  refine WellFormed.foldl_defineNative _ ⟨by simp [globalScope], fun i j hlink => ?_⟩
  cases hlink with
  | parent h =>
    rw [Store.parent?_add, Option.filter_none, Store.parent?_eq_none_of_le (Nat.zero_le _)] at h
    split at h <;> cases h
  | binding h _ =>
    rw [Store.own?_add, Store.own?_eq_none_of_le (Nat.zero_le _)] at h
    cases h

/-! ### One more scope left out -/

namespace Folding

/-- The folding that leaves nothing out. -/
def none : Folding where
  image := id
  extra _ := False

/-- The folding that also leaves out the scope with the given number, inside the scope `c`. Scopes
after it move up by one. -/
def insert (F : Folding) (number : Nat) (c : ScopeId) : Folding where
  image i :=
    if i < number then F.image i else if i = number then F.image c else F.image (i - 1)
  extra i := i = number ∨ F.extra i

/-- The second folding does what the first does to the scopes with smaller numbers. -/
def Agrees (F F' : Folding) (number : Nat) : Prop :=
  ∀ i < number, F'.image i = F.image i ∧ (F'.extra i ↔ F.extra i)

variable {F F' F'' : Folding} {i : ScopeId} {number number' : Nat} {c : ScopeId}

theorem Agrees.refl (F : Folding) (number : Nat) : F.Agrees F number := fun _ _ => ⟨rfl, .rfl⟩

/-- What agrees on the scopes of a later machine agrees on those of an earlier one. -/
theorem Agrees.trans (h : F.Agrees F' number) (h' : F'.Agrees F'' number')
    (hle : number ≤ number') : F.Agrees F'' number := by
  intro i hi
  obtain ⟨himage, hextra⟩ := h i hi
  obtain ⟨himage', hextra'⟩ := h' i (Nat.lt_of_lt_of_le hi hle)
  exact ⟨himage'.trans himage, hextra'.trans hextra⟩

/-- Scopes made before keep their places. -/
theorem image_insert_of_lt (h : i < number) : (F.insert number c).image i = F.image i := if_pos h

theorem image_insert_self : (F.insert number c).image number = F.image c := by
  simp [insert]

/-- Scopes made after the new one move up by one. -/
theorem image_insert_succ (h : number ≤ i) : (F.insert number c).image (i + 1) = F.image i := by
  have hgt : number < i + 1 := Nat.lt_succ_of_le h
  simp [insert, Nat.lt_asymm hgt, Nat.ne_of_gt hgt]

theorem agrees_insert : F.Agrees (F.insert number c) number := by
  intro i hi
  have hne : i ≠ number := Nat.ne_of_lt hi
  exact ⟨image_insert_of_lt hi, by simp [insert, hne]⟩

/-- A scope other than the new one stands where it stood, or one further. -/
theorem cases_insert (h : ¬(F.insert number c).extra i) :
    i < number ∧ ¬F.extra i ∨ ∃ j, number ≤ j ∧ i = j + 1 := by
  simp only [insert, not_or] at h
  rcases Nat.lt_or_gt_of_ne h.1 with hlt | hgt
  · exact .inl ⟨hlt, h.2⟩
  · obtain ⟨j, rfl⟩ := Nat.exists_eq_add_of_lt hgt
    exact .inr ⟨number + j, Nat.le_add_right _ _, rfl⟩

end Folding

namespace Store.Folded

variable {F : Folding} {s t : Store} {c : ScopeId}

theorem refl (s : Store) : s.Folded .none s where
  fresh _ := rfl
  lt _ hi := hi
  injective _ _ _ _ h := h
  parent i _ := by simp [Folding.none]
  own i name _ := by simp [Folding.none, Value.rescope_id]
  empty _ _ h := h.elim
  through _ h := h.elim

/-- A scope yet to be made is not extra. -/
theorem not_extra_of_ge (h : s.Folded F t) {i : ScopeId} (hi : s.size ≤ i) : ¬F.extra i :=
  fun hextra => absurd (h.lt_size_of_extra hextra) (Nat.not_lt.2 hi)

/-- The first store makes a scope, and the second does without it. -/
theorem insert (h : s.Folded F t) (hc : c < s.size) (hlinks : ∀ i j, s.Link i j → j < s.size) :
    (s.add (some c)).Folded (F.insert s.size c) t where
  fresh k := by
    rw [size_add, Nat.add_right_comm, Folding.image_insert_succ (Nat.le_add_right _ _)]
    exact h.fresh k
  lt i hi := by
    rw [size_add] at hi
    rcases Nat.lt_or_eq_of_le (Nat.le_of_lt_succ hi) with hlt | rfl
    · rw [Folding.image_insert_of_lt hlt]
      exact h.lt i hlt
    · rw [Folding.image_insert_self]
      exact h.lt c hc
  injective i j hi hj heq := by
    rcases Folding.cases_insert hi with ⟨hlt, hi'⟩ | ⟨i, hge, rfl⟩ <;>
      rcases Folding.cases_insert hj with ⟨hlt', hj'⟩ | ⟨j, hge', rfl⟩
    · rw [Folding.image_insert_of_lt hlt, Folding.image_insert_of_lt hlt'] at heq
      exact h.injective i j hi' hj' heq
    · rw [Folding.image_insert_of_lt hlt, Folding.image_insert_succ hge'] at heq
      exact absurd (heq ▸ h.lt i hlt) (Nat.not_lt.2 (h.image_ge hge'))
    · rw [Folding.image_insert_succ hge, Folding.image_insert_of_lt hlt'] at heq
      exact absurd (heq ▸ h.lt j hlt') (Nat.not_lt.2 (h.image_ge hge))
    · rw [Folding.image_insert_succ hge, Folding.image_insert_succ hge'] at heq
      rw [h.injective i j (h.not_extra_of_ge hge) (h.not_extra_of_ge hge') heq]
  parent i hi := by
    rcases Folding.cases_insert hi with ⟨hlt, hi'⟩ | ⟨i, hge, rfl⟩
    · rw [Folding.image_insert_of_lt hlt, h.parent i hi', parent?_add, if_neg (Nat.ne_of_lt hlt)]
      -- the scope around an old one is older still, so it goes where it went
      refine Option.map_congr fun p hp => (Folding.image_insert_of_lt ?_).symm
      exact Nat.lt_trans (s.parent_lt i p hp) hlt
    · rw [Folding.image_insert_succ hge, parent?_eq_none_of_le (h.image_ge hge), parent?_add,
        if_neg (Nat.ne_of_gt (Nat.lt_succ_of_le hge)),
        parent?_eq_none_of_le (Nat.le_succ_of_le hge)]
      rfl
  own i name hi := by
    rw [own?_add]
    rcases Folding.cases_insert hi with ⟨hlt, hi'⟩ | ⟨i, hge, rfl⟩
    · rw [Folding.image_insert_of_lt hlt, h.own i name hi']
      refine Option.map_congr fun v hv => Value.rescope_congr fun j hj => ?_
      exact (Folding.image_insert_of_lt (hlinks i j (.binding hv hj))).symm
    · rw [Folding.image_insert_succ hge, own?_eq_none_of_le (h.image_ge hge),
        own?_eq_none_of_le (Nat.le_succ_of_le hge)]
      rfl
  empty i name hi := by
    rw [own?_add]
    rcases hi with rfl | hi
    · exact own?_eq_none_of_le (Nat.le_refl _) name
    · exact h.empty i name hi
  through i hi := by
    rcases hi with rfl | hi
    · refine ⟨c, by simp [parent?_add, hc], ?_⟩
      rw [Folding.image_insert_of_lt hc, Folding.image_insert_self]
    · have hlt := h.lt_size_of_extra hi
      obtain ⟨p, hp, himage⟩ := h.through i hi
      refine ⟨p, by rw [parent?_add, if_neg (Nat.ne_of_lt hlt), hp], ?_⟩
      rw [Folding.image_insert_of_lt hlt,
        Folding.image_insert_of_lt (Nat.lt_trans (s.parent_lt i p hp) hlt), himage]

end Store.Folded

namespace Machine

variable {F : Folding} {m m' : Machine}

theorem Folded.refl (m : Machine) : m.Folded .none m.current m :=
  ⟨.refl _, rfl, rfl, rfl, rfl, rfl, rfl⟩

/-- The first machine enters a new scope, and the second stays where it is. -/
theorem Folded.insert (h : m.Folded F m.current m') (hm : m.WellFormed) :
    (m.entered m.current [] []).Folded (F.insert m.store.size m.current) m.store.size m' :=
  { h with
    store := h.store.insert hm.current hm.link
    here := rfl
    there := h.there.trans Folding.image_insert_self.symm }

/-- The machines are folded into each other, all scopes of the first are there, and the one it works
in is not left out. -/
structure Aligned (F : Folding) (m m' : Machine) : Prop where
  wellFormed : m.WellFormed
  notExtra : ¬F.extra m.current
  folded : m.Folded F m.current m'

theorem WellFormed.aligned (h : m.WellFormed) : m.Aligned .none m := ⟨h, id, .refl m⟩

theorem Aligned.entered (h : m.Aligned F m') :
    (m.entered m.current [] []).Aligned F (m'.entered m'.current [] []) := by
  have hfolded := h.folded.entered m.current [] []
  rw [← h.folded.there] at hfolded
  exact ⟨h.wellFormed.entered h.wellFormed.current, h.folded.store.not_extra_size, hfolded⟩

end Machine

/-! ### Runs that make empty scopes -/

namespace Run

/-- The two results of runs from `m` are folded into each other, by a folding that does to the
scopes of `m` what `F` does. -/
def Refolded (k : (ScopeId → ScopeId) → α → α) (F : Folding) (m : Machine)
    (x x' : EStateM.Result Stop Machine α) : Prop :=
  ∃ F', F.Agrees F' m.store.size ∧ FoldedResult F' m.current (k F'.image) x x'

/-- The runs go in step, but the first may make empty scopes that the second does without. -/
def Refolds (r r' : Run Flow) : Prop :=
  ∀ F m m', m.Aligned F m' → Refolded Flow.rescope F m (r m) (r' m')

/-- Works in a new scope inside the current one. -/
def inNewScope (r : Run Flow) : Run Flow := do
  let inner ← openScope (← get).current [] []
  within inner r

theorem inNewScope_eq (r : Run Flow) (m : Machine) : inNewScope r m =
    within m.store.size r { m.entered m.current [] [] with current := m.current } := rfl

variable {F : Folding} {m m' : Machine} {r r' next next' : Run Flow}
  {k : (ScopeId → ScopeId) → α → α} {l : (ScopeId → ScopeId) → β → β}

/-- The second part starts with the folding that the first has grown to. -/
theorem Refolded.bind {A : Store → α → Prop} {r r' : Run α} {f f' : α → Run β}
    (h : m.Aligned F m') (hr : Refolded k F m (r m) (r' m'))
    (hconfines : Fence.everything.Confines A r)
    (hf : ∀ a F m m', m.Aligned F m' → Refolded l F m (f a m) (f' (k F.image a) m')) :
    Refolded l F m ((r >>= f) m) ((r' >>= f') m') := by
  obtain ⟨F₁, hagrees, hresult⟩ := hr
  have hkept := h.wellFormed.kept hconfines
  generalize hx : r m = x at hresult hkept
  generalize hy : r' m' = y at hresult
  cases hresult with
  | @ok a m₁ m₁' hm₁ =>
    have hextra : ¬F₁.extra m.current := fun hextra =>
      h.notExtra ((hagrees m.current h.wellFormed.current).2.1 hextra)
    have haligned : m₁.Aligned F₁ m₁' :=
      ⟨h.wellFormed.of_kept hkept, by rwa [hm₁.here], by rwa [hm₁.here]⟩
    obtain ⟨F₂, hagrees', hresult'⟩ := hf a F₁ m₁ m₁' haligned
    rw [hm₁.here] at hresult'
    rw [bind_of_ok hx, bind_of_ok hy]
    exact ⟨F₂, hagrees.trans hagrees' hkept.size, hresult'⟩
  | error hm₁ =>
    rw [bind_of_error hx, bind_of_error hy]
    exact ⟨F₁, hagrees, .error hm₁⟩

/-- Runs that go in step need no new extra scope. -/
theorem Refolds.of_inStep
    (h : ∀ F c, ¬F.extra c → InStep F c (Flow.rescope F.image) r r') : Refolds r r' :=
  fun F m m' hm => ⟨F, .refl F _, h F m.current hm.notExtra m m' hm.folded⟩

theorem refolds_normal : Refolds (return .normal) (return .normal) :=
  .of_inStep fun _ _ _ => inStep_normal

theorem Refolds.andThen (hr : Refolds r r')
    (hconfines : Fence.everything.Confines Fence.everything.HoldsFlow r)
    (hnext : Refolds next next') : Refolds (r.andThen next) (r'.andThen next') := by
  intro F m m' hm
  refine (hr F m m' hm).bind hm hconfines fun flow F₁ m₁ m₁' hm₁ => ?_
  cases flow with
  | normal => exact hnext F₁ m₁ m₁' hm₁
  | returned v => exact ⟨F₁, .refl F₁ _, .ok (a := Flow.returned v) hm₁.folded⟩

/-- Both sides make the scope. -/
theorem Refolds.inNewScope (h : Refolds r r') : Refolds (inNewScope r) (inNewScope r') := by
  intro F m m' hm
  obtain ⟨F', hagrees, hresult⟩ := h F _ _ hm.entered
  have hagrees' : F.Agrees F' m.store.size :=
    (Folding.Agrees.refl F _).trans hagrees (by simp [Machine.entered])
  have hthere : m'.current = F'.image m.current := by
    rw [hm.folded.there, (hagrees' m.current hm.wellFormed.current).1]
  exact ⟨F', hagrees', hresult.within rfl hthere⟩

/-- Only the first side makes the scope. -/
theorem refolds_inNewScope (h : ∀ F c, InStep F c (Flow.rescope F.image) r r') :
    Refolds (inNewScope r) r' := by
  intro F m m' hm
  refine ⟨F.insert m.store.size m.current, Folding.agrees_insert, ?_⟩
  have hresult := h _ _ _ _ (hm.folded.insert hm.wellFormed)
  have hback : (F.insert m.store.size m.current).image m.store.size =
      (F.insert m.store.size m.current).image m.current := by
    rw [Folding.image_insert_self, Folding.image_insert_of_lt hm.wellFormed.current]
  rw [inNewScope_eq]
  generalize hx : r (m.entered m.current [] []) = x at hresult
  generalize r' m' = y at hresult
  cases hresult with
  | ok hm₁ =>
    rw [within_of_ok hx]
    exact .ok { hm₁ with here := rfl, there := hm₁.there.trans hback }
  | error hm₁ =>
    rw [within_of_error hx]
    exact .error { hm₁ with here := rfl, there := hm₁.there.trans hback }

end Run

end Lox
