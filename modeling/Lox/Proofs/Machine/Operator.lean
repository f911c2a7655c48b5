import Lox.Machine.Operator

/-!
What comes of operators. An operator of the language has a fault only if its operands are not of the
right kind, or if a number is to be divided by zero; any other token is refused as unknown. The
value of an operator is never a declared function, so it remembers no scope.
-/

namespace Lox

/-! ### Faults -/

/-- The operators in front of an operand. -/
def unaryOperators : List Symbol := [.bang, .minus]

/-- The operators between two operands that are both evaluated. -/
def binaryOperators : List Symbol :=
  [.bangEqual, .equalEqual, .greater, .greaterEqual, .less, .lessEqual, .minus, .plus, .slash,
    .star]

/-- The faults of an operator between two operands. -/
def binaryFaults : List RuntimeFault := [.operandsNotNumbers, .operandsNotAddable, .divisionByZero]

variable {operator : Token} {v w : Value} {fault : RuntimeFault}

theorem is_eq_false {s : Symbol} (h : operator.kind ≠ .symbol s) : operator.is s = false := by
  obtain ⟨kind, lexeme, line⟩ := operator
  cases kind <;> simp_all [Token.is, Kind.symbol?]

/-- An operator in front of an operand wants a number, or is none. -/
theorem applyUnary_error (h : applyUnary operator v = .error fault) :
    fault = .operandNotNumber ∨
      fault = .unknownOperator operator.lexeme ∧ unaryOperators.any operator.is = false := by
  unfold applyUnary at h
  split at h
  · split at h
    · cases h
    · cases h
      exact .inl rfl
  · cases h
  · next hminus hbang =>
    cases h
    exact .inr ⟨rfl, by simp [unaryOperators, is_eq_false hminus, is_eq_false hbang]⟩

theorem plus_error (h : v.plus w = .error fault) : fault = .operandsNotAddable := by
  unfold Value.plus at h
  split at h <;> cases h
  rfl

/-- Between two numbers every operator is known that is not settled before. -/
theorem applyArithmetic_error {x y : Float} (h : applyArithmetic operator x y = .error fault) :
    fault = .divisionByZero ∨ fault = .unknownOperator operator.lexeme ∧
      ∀ s ∈ [Symbol.minus, .star, .slash, .greater, .greaterEqual, .less, .lessEqual],
        operator.is s = false := by
  unfold applyArithmetic at h
  split at h
  case h_3 =>
    split at h
    · cases h
      exact .inl rfl
    · cases h
  case h_8 hminus hstar hslash hgreater hgreaterEqual hless hlessEqual =>
    cases h
    refine .inr ⟨rfl, ?_⟩
    simp [is_eq_false hminus, is_eq_false hstar, is_eq_false hslash, is_eq_false hgreater,
      is_eq_false hgreaterEqual, is_eq_false hless, is_eq_false hlessEqual]
  all_goals cases h

/-- An operator that is known fails on account of its operands only. -/
theorem applyBinary_error (h : applyBinary operator v w = .error fault) :
    fault ∈ binaryFaults ∨
      fault = .unknownOperator operator.lexeme ∧ binaryOperators.any operator.is = false := by
  unfold applyBinary at h
  split at h
  · cases h
  · cases h
  · rw [plus_error h]
    exact .inl (by decide)
  · next hequalEqual hbangEqual hplus =>
    split at h
    · rcases applyArithmetic_error h with rfl | ⟨rfl, hunknown⟩
      · exact .inl (by decide)
      · refine .inr ⟨rfl, ?_⟩
        simp only [List.mem_cons, List.not_mem_nil, or_false, forall_eq_or_imp, forall_eq]
          at hunknown
        simp [binaryOperators, hunknown, is_eq_false hequalEqual, is_eq_false hbangEqual,
          is_eq_false hplus]
    · cases h
      exact .inl (by decide)

/-! ### Values -/

/-- The scope that a function remembers. -/
def Callable.scope? : Callable → Option ScopeId
  | .native _ => none
  | .closure _ _ _ scope => some scope

/-- The scope that a value remembers, if it is a declared function. -/
def Value.scope? : Value → Option ScopeId
  | .callable _ f => f.scope?
  | _ => none

variable {u : Value}

theorem scope?_ofLiteral (value : Literal) : (Value.ofLiteral value).scope? = none := by
  cases value <;> rfl

/-- Its values are numbers and truth values. -/
theorem scope?_applyUnary (h : applyUnary operator v = .ok u) : u.scope? = none := by
  unfold applyUnary at h
  split at h
  · split at h <;> cases h
    rfl
  · cases h
    rfl
  · cases h

/-- A sum is a number or a text. -/
theorem scope?_plus (h : v.plus w = .ok u) : u.scope? = none := by
  unfold Value.plus at h
  split at h <;> cases h <;> rfl

theorem scope?_applyArithmetic {x y : Float} (h : applyArithmetic operator x y = .ok u) :
    u.scope? = none := by
  unfold applyArithmetic at h
  split at h
  case h_3 =>
    split at h <;> cases h
    rfl
  all_goals cases h
  all_goals rfl

/-- No operation gives a function. -/
theorem scope?_applyBinary (h : applyBinary operator v w = .ok u) : u.scope? = none := by
  unfold applyBinary at h
  split at h
  · cases h
    rfl
  · cases h
    rfl
  · exact scope?_plus h
  · split at h
    · exact scope?_applyArithmetic h
    · cases h

end Lox
