import Lox.Proofs.Machine.Alike
import Lox.Proofs.Machine.Simulation

/-!
Lines do not matter for a run. Programs that differ in lines at most, run on machines that are
alike, do the same: they end alike, with values that are alike or with errors that differ in their
lines at most, and leave machines that are alike. The functions that the machines have stored may
differ in lines too.
-/

namespace Lox

variable {α κ : Type}

/-- The flow with its value on other lines. -/
def Flow.reline (f : Nat → Nat) : Flow → Flow
  | .normal => .normal
  | .returned v => .returned (v.reline f)

/-! ### Runs that end alike -/

namespace Run

/-- The two results are alike. Answers are compared by what `k` sees of them. -/
inductive AlikeResult (k : α → κ) : EStateM.Result Stop Machine α →
    EStateM.Result Stop Machine α → Prop
  | ok {a a' : α} {m m' : Machine} : k a = k a' → m.Alike m' →
    AlikeResult k (.ok a m) (.ok a' m')
  | error {e e' : RuntimeError} {m m' : Machine} : e.reline noLine = e'.reline noLine →
    m.Alike m' → AlikeResult k (.error (.error e) m) (.error (.error e') m')
  | outOfSteps {m m' : Machine} :
    AlikeResult k (.error .outOfSteps m) (.error .outOfSteps m')

theorem AlikeResult.symm {k : α → κ} {x y : EStateM.Result Stop Machine α}
    (h : AlikeResult k x y) : AlikeResult k y x := by
  cases h with
  | ok ha hm => exact .ok ha.symm hm.symm
  | error he hm => exact .error he.symm hm.symm
  | outOfSteps => exact .outOfSteps

end Run

/-! ### The simulation -/

/-- Programs without their lines are compared on machines that are alike. -/
def unlined : Simulation where
  World := Unit
  later _ _ := True
  machines _ := Machine.Alike
  scopes _ i i' := i = i'
  binds _ := True
  code _ := True
  lines := noLine
  more := 0

section

variable {w : unlined.World} {v v' : Value}

/-- Values look the same if they differ in lines at most. -/
theorem unlined_values_iff : unlined.Values w v v' ↔ v.reline noLine = v'.reline noLine := by
  constructor
  · intro h
    cases h with
    | plain => rfl
    | closure hname hparams hbody _ hi =>
      obtain rfl : _ = _ := hi
      rw [Value.reline, Value.reline, Callable.reline, Callable.reline]
      exact congrArg _ (Callable.closure.injEq .. ▸ ⟨hname, hparams, hbody, rfl⟩)
  · intro h
    -- functions are compared part by part, all other values are equal
    cases v with
    | callable identity f =>
      cases v' with
      | callable identity' f' =>
        obtain ⟨rfl, hf⟩ := Value.callable.inj h
        cases f with
        | native g =>
          cases f' with
          | native g' =>
            obtain rfl := Callable.native.inj hf
            exact .plain rfl
          | closure => cases hf
        | closure name params body i =>
          cases f' with
          | native => cases hf
          | closure name' params' body' i' =>
            obtain ⟨hname, hparams, hbody, rfl⟩ := Callable.closure.inj hf
            exact .closure hname hparams hbody (fun _ _ => trivial) rfl
      | _ => cases h
    | _ =>
      cases v' with
      | callable => cases h
      | _ => cases h <;> exact .plain rfl

theorem unlined_values_map {vs vs' : List Value} (h : List.Forall₂ (unlined.Values w) vs vs') :
    vs.map (Value.reline noLine) = vs'.map (Value.reline noLine) := by
  induction h with
  | nil => rfl
  | cons hv _ ih => rw [List.map_cons, List.map_cons, unlined_values_iff.1 hv, ih]

end

/-- Every step leaves machines alike that were alike. -/
theorem sound_unlined : unlined.Sound where
  refl _ := trivial
  trans _ _ := trivial
  scopes _ hi := hi
  binds _ _ := trivial
  parts _ _ _ := trivial
  agree hm := ⟨hm.identities, hm.sink, hm.clock, hm.readings⟩
  current hm := hm.current
  get := by
    intro w m m' name hm
    have hget := hm.store.get?_eq m.current name
    rw [hm.current] at hget ⊢
    cases hx : m.store.get? m'.current name with
    | none =>
      rw [hx] at hget
      rw [Option.map_eq_none_iff.1 hget.symm]
      exact .none
    | some v =>
      rw [hx] at hget
      obtain ⟨v', hx', hv⟩ := Option.map_eq_some_iff.1 hget.symm
      rw [hx']
      exact .some (unlined_values_iff.2 hv.symm)
  assign := by
    intro w m m' v v' name hm hv
    rw [hm.current, hm.store.resolve_eq]
    cases m'.store.resolve m'.current name with
    | none => exact .none
    | some i => exact .some ⟨w, trivial, hm.define (unlined_values_iff.1 hv) i name⟩
  define := by
    intro w m m' v v' name hm _ hv
    have hdefined := hm.define (unlined_values_iff.1 hv) m.current name
    refine ⟨w, trivial, ?_⟩
    rwa [← hm.current]
  touch := by
    intro w m m' identities sink readings hm
    exact ⟨w, trivial, { hm with identities := rfl, sink := rfl, readings := rfl }⟩
  enter := by
    rintro w m m' p _ vs vs' names hm rfl hvs
    have hentered := (hm.addScope p names (unlined_values_map hvs)).inScope m.store.size
    refine ⟨w, ?_, trivial, fun {_ n n'} _ hn => ⟨w, trivial, ?_, fun _ _ hi => hi⟩⟩
    · exact { hentered with current := hm.store.size }
    · exact { hn with current := hm.current }

/-- Neither run has more steps than the other, so neither is left behind. -/
theorem alikeResult_of_ends {k : α → κ} {w : unlined.World} {A : unlined.World → α → α → Prop}
    {x x' : EStateM.Result Stop Machine α} (h : unlined.Ends w A x x')
    (hA : ∀ w a a', A w a a' → k a = k a') : Run.AlikeResult k x x' := by
  cases h with
  | ok _ hm ha => exact .ok (hA _ _ _ ha) hm
  | error hbecomes he =>
    obtain ⟨_, -, hm⟩ := hbecomes
    exact .error he hm
  | outOfSteps => exact .outOfSteps
  | behind hmore => exact absurd rfl hmore

/-- Programs that differ in lines at most do alike. -/
theorem execList_exec_alike (n : Nat) {ss ss' : List Stmt}
    (h : Stmt.relineAll noLine ss = Stmt.relineAll noLine ss') {m m' : Machine}
    (hm : m.Alike m') :
    Run.AlikeResult (Flow.reline noLine) (execList (exec n) ss m) (execList (exec n) ss' m') := by
  have hgoes := Simulation.goes_execList sound_unlined (sound_unlined.executes rfl n) h
    (fun _ _ => trivial) () trivial
  refine alikeResult_of_ends (hgoes m m' hm) fun _ flow flow' hflow => ?_
  cases hflow with
  | normal => rfl
  | returned hv => rw [Flow.reline, Flow.reline, unlined_values_iff.1 hv]

end Lox
