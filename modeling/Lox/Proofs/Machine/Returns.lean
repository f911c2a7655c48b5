import Lox.Machine.Eval
import Lox.Proofs.Grammar.Basic
import Lox.Proofs.Sequence

/-!
Where a return can come from. Outside the bodies of functions a program holds no `return`, and a
statement that holds none outside the bodies of functions never returns: it ends normally, with an
error, or not at all. So the statements of a program all get their turn unless one fails.
-/

namespace Lox

mutual

/-- Whether a statement holds no `return` outside the bodies of the functions in it. -/
def Stmt.returnFree : Stmt → Bool
  | .returns _ _ => false
  | .block body => Stmt.returnFreeAll body
  | .ifThen _ thenBranch => thenBranch.returnFree
  | .ifElse _ thenBranch elseBranch => thenBranch.returnFree && elseBranch.returnFree
  | .whileDo _ body => body.returnFree
  | _ => true

/-- Whether statements hold no `return` outside the bodies of the functions in them. -/
def Stmt.returnFreeAll : List Stmt → Bool
  | [] => true
  | s :: ss => s.returnFree && Stmt.returnFreeAll ss

end

namespace Grammar

variable {rule : ElseRule}

theorem ForInitial.returnFree {ts : List Token} {s : Stmt} (h : ForInitial ts (some s)) :
    s.returnFree = true := by
  cases h with
  | var h =>
    cases h
    simp only [Stmt.returnFree]
  | expression _ _ => simp only [Stmt.returnFree]

/-- What a loop is short for returns only where its body does. -/
theorem forTree_returnFree {ts : List Token} {initial : Option Stmt} {test increment : Option Expr}
    {body : Stmt} (hi : ForInitial ts initial) (h : body.returnFree = true) :
    (forTree initial test increment body).returnFree = true := by
  cases initial with
  | none => cases increment <;> simp [forTree, Stmt.returnFree, Stmt.returnFreeAll, h]
  | some s =>
    have hs := hi.returnFree
    cases increment <;> simp [forTree, Stmt.returnFree, Stmt.returnFreeAll, h, hs]

mutual

/-- Outside every function a statement holds no `return`. -/
theorem Statement.returnFree : ∀ {inside : Bool} {ending : Ending} {ts : List Token} {s : Stmt},
    Statement rule inside ending ts s → inside = false → s.returnFree = true
  | _, _, _, _, .expression _ _, _ => by simp only [Stmt.returnFree]
  | _, _, _, _, .print _ _ _, _ => by simp only [Stmt.returnFree]
  | _, _, _, _, .returns _ _ _, hin => by cases hin
  | _, _, _, _, .block _ h _, hin => by rw [Stmt.returnFree, h.returnFree hin]
  | _, _, _, _, .whileDo _ _ _ _ hs, hin => by rw [Stmt.returnFree, hs.returnFree hin]
  | _, _, _, _, .forDo _ _ hi _ _ _ _ hs, hin => forTree_returnFree hi (hs.returnFree hin)
  | _, _, _, _, .ifThen _ _ _ _ hs, hin => by rw [Stmt.returnFree, hs.returnFree hin]
  | _, _, _, _, .ifElse _ _ _ _ hs _ _ hs', hin => by
    rw [Stmt.returnFree, hs.returnFree hin, hs'.returnFree hin]
    rfl

/-- A function may hold a `return`, but its declaration returns nothing. -/
theorem Declaration.returnFree : ∀ {inside : Bool} {ts : List Token} {s : Stmt},
    Declaration rule inside ts s → inside = false → s.returnFree = true
  | _, _, _, .function _ _ _ _ _ _ _ _, _ => by simp only [Stmt.returnFree]
  | _, _, _, .var h, _ => by
    cases h
    simp only [Stmt.returnFree]
  | _, _, _, .statement h, hin => h.returnFree hin

theorem Declarations.returnFree : ∀ {inside : Bool} {ts : List Token} {ss : List Stmt},
    Declarations rule inside ts ss → inside = false → Stmt.returnFreeAll ss = true
  | _, _, _, .nil, _ => by rw [Stmt.returnFreeAll]
  | _, _, _, .cons h hs, hin => by
    rw [Stmt.returnFreeAll, h.returnFree hin, hs.returnFree hin]
    rfl

end

end Grammar

namespace Run

/-- The computation never returns. -/
def NeverReturns (r : Run Flow) : Prop := ∀ m v m', r m ≠ .ok (.returned v) m'

theorem neverReturns_normal : NeverReturns (return .normal) := by
  intro m v m' h
  have hrun : (pure .normal : Run Flow) m = .ok .normal m := rfl
  rw [hrun] at h
  cases h

theorem neverReturns_outOfSteps : NeverReturns (throw .outOfSteps) := by
  intro m v m' h
  have hrun : (throw .outOfSteps : Run Flow) m = .error .outOfSteps m := rfl
  rw [hrun] at h
  cases h

/-- Only the end of a run tells whether it returns. -/
theorem NeverReturns.bind {α : Type} {r : Run α} {f : α → Run Flow}
    (hf : ∀ a, NeverReturns (f a)) : NeverReturns (r >>= f) := by
  intro m v m' h
  cases hr : r m with
  | ok a m'' =>
    rw [bind_of_ok hr] at h
    exact hf a m'' v m' h
  | error s m'' =>
    rw [bind_of_error hr] at h
    cases h

theorem NeverReturns.andThen {r next : Run Flow} (hr : NeverReturns r) (hnext : NeverReturns next) :
    NeverReturns (r.andThen next) := by
  intro m v m' h
  rw [Run.andThen] at h
  cases hrun : r m with
  | error s m'' =>
    rw [bind_of_error hrun] at h
    cases h
  | ok flow m'' =>
    rw [bind_of_ok hrun] at h
    cases flow with
    | normal => exact hnext m'' v m' h
    | returned w => exact hr m w m'' hrun

theorem NeverReturns.within {r : Run Flow} (h : NeverReturns r) (scope : ScopeId) :
    NeverReturns (within scope r) := by
  intro m v m' hrun
  unfold Run.within at hrun
  split at hrun
  · next hr =>
    cases hrun
    exact h _ v _ hr
  · cases hrun

end Run

open Run

/-- If none of the statements returns, all of them are executed. -/
theorem execList_neverReturns {exec : Stmt → Run Flow}
    (h : ∀ s, s.returnFree = true → NeverReturns (exec s)) :
    ∀ ss : List Stmt, Stmt.returnFreeAll ss = true → NeverReturns (execList exec ss)
  | [], _ => neverReturns_normal
  | s :: ss, hss => by
    rw [Stmt.returnFreeAll, Bool.and_eq_true] at hss
    exact (h s hss.1).andThen (execList_neverReturns h ss hss.2)

/-- A statement without a `return` of its own never returns. -/
theorem exec_neverReturns : ∀ (n : Nat) (s : Stmt), s.returnFree = true → NeverReturns (exec n s)
  | 0, s, _ => by
    rw [exec]
    exact neverReturns_outOfSteps
  | n + 1, s, hs => by
    have ih := exec_neverReturns n
    rw [exec.eq_def]
    -- what returns comes from a statement inside, and these are free of `return`
    cases s with
    | print value => exact .bind fun _ => .bind fun _ => neverReturns_normal
    | expression value => exact .bind fun _ => neverReturns_normal
    | declare name initial => exact .bind fun _ => .bind fun _ => neverReturns_normal
    | block body =>
      rw [Stmt.returnFree] at hs
      exact .bind fun _ => .bind fun inner => (execList_neverReturns ih body hs).within inner
    | ifThen condition thenBranch =>
      rw [Stmt.returnFree] at hs
      refine .bind fun v => ?_
      split
      · exact ih thenBranch hs
      · exact neverReturns_normal
    | ifElse condition thenBranch elseBranch =>
      rw [Stmt.returnFree, Bool.and_eq_true] at hs
      refine .bind fun v => ?_
      split
      · exact ih thenBranch hs.1
      · exact ih elseBranch hs.2
    | whileDo condition body =>
      have hloop := ih (.whileDo condition body) hs
      rw [Stmt.returnFree] at hs
      refine .bind fun v => ?_
      split
      · exact (ih body hs).andThen hloop
      · exact neverReturns_normal
    | function name params body => exact .bind fun _ => .bind fun _ => neverReturns_normal
    | returns keyword value =>
      rw [Stmt.returnFree] at hs
      cases hs

end Lox
