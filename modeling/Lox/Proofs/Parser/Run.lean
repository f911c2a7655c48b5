import Lox.Proofs.Sequence
import Lox.Tree.Parser.Declaration

/-!
What the small readers do at a given cursor, and how a sequence of readers is taken apart.
-/

namespace Lox

variable {α β : Type}

theorem getLastD_append (ts us : List Token) (t : Token) :
    (ts ++ us).getLastD t = us.getLastD (ts.getLastD t) := by
  simp only [List.getLastD_eq_getLast?, List.getLast?_append]
  cases us.getLast? <;> rfl

namespace Token

/-- A symbol is no mark for the end. -/
theorem isEnd_of_is {t : Token} {s : Symbol} (h : t.is s = true) : t.isEnd = false := by
  obtain ⟨kind, lexeme, line⟩ := t
  cases kind <;> simp_all [is, isEnd, Kind.isEnd, Kind.symbol?]

theorem not_is_of_isEnd {t : Token} (h : t.isEnd = true) (s : Symbol) : t.is s = false := by
  cases ht : t.is s with
  | false => rfl
  | true => rw [isEnd_of_is ht] at h; cases h

theorem isEnd_of_isIdentifier {t : Token} (h : t.kind.isIdentifier = true) : t.isEnd = false := by
  obtain ⟨kind, lexeme, line⟩ := t
  cases kind <;> simp_all [isEnd, Kind.isEnd, Kind.isIdentifier]

theorem isEnd_of_literal {t : Token} {v : Literal} (h : t.kind.literal? = some v) :
    t.isEnd = false := by
  obtain ⟨kind, lexeme, line⟩ := t
  cases kind <;> simp_all [isEnd, Kind.isEnd, Kind.literal?]

end Token

namespace Cursor

variable {c : Cursor}

/-- Passing a token that is not the end gives that token. -/
theorem previous_advanced (h : c.peek.isEnd = false) : c.advanced.previous = c.peek := by
  cases hrest : c.rest with
  | nil => simp [advanced, peek, hrest]
  | cons t ts =>
    have ht : t.isEnd = false := by simpa [peek, hrest] using h
    simp [advanced, peek, hrest, ht]

theorem errors_advanced (c : Cursor) : c.advanced.errors = c.errors := by
  unfold advanced
  split
  · rfl
  · split
    · rfl
    · rfl

theorem is_of_sees {s : Symbol} (h : c.sees s = true) : c.peek.is s = true := by
  rw [sees, Bool.and_eq_true] at h
  exact h.2

/-- An operator that is seen is the token at the cursor. -/
theorem any_of_seesOperator {t : Tier} (h : c.seesOperator t = true) :
    t.operators.any c.peek.is = true := by
  cases t with
  | or => simpa [Tier.operators] using is_of_sees h
  | and => simpa [Tier.operators] using is_of_sees h
  | _ => exact h

theorem isEnd_of_seesOperator {t : Tier} (h : c.seesOperator t = true) :
    c.peek.isEnd = false := by
  obtain ⟨s, -, hs⟩ := List.any_eq_true.1 (any_of_seesOperator h)
  exact Token.isEnd_of_is hs

end Cursor

namespace Parser

variable {c d : Cursor}

/-! ### Looking ahead -/

theorem peek_bind (f : Token → Parser β) (c : Cursor) : (peek >>= f) c = f c.peek c := rfl

theorem atEnd_bind (f : Bool → Parser β) (c : Cursor) : (atEnd >>= f) c = f c.atEnd c := rfl

theorem sees_bind (s : Symbol) (f : Bool → Parser β) (c : Cursor) :
    (sees s >>= f) c = f (c.sees s) c := rfl

theorem seesOperator_bind (t : Tier) (f : Bool → Parser β) (c : Cursor) :
    (seesOperator t >>= f) c = f (c.seesOperator t) c := rfl

theorem get_bind (f : Cursor → Parser β) (c : Cursor) : (get >>= f) c = f c c := rfl

theorem reportIf_bind (forbidden : Bool) (t : Token) (fault : ParseFault) (f : Unit → Parser β)
    (c : Cursor) : (reportIf forbidden t fault >>= f) c =
      f () (if forbidden then c.report t fault else c) := rfl

theorem advance_bind (f : Token → Parser β) (c : Cursor) :
    (advance >>= f) c = f c.advanced.previous c.advanced := rfl

/-! ### Passing a token -/

/-- A symbol that comes next is passed, another token is not. -/
theorem take_bind (s : Symbol) (f : Bool → Parser β) (c : Cursor) :
    (take s >>= f) c = if c.sees s then f true c.advanced else f false c := by
  by_cases h : c.sees s = true
  · have htake : take s c = .ok true c.advanced := if_pos h
    rw [if_pos h, bind_of_ok htake]
  · have htake : take s c = .ok false c := if_neg h
    rw [if_neg h, bind_of_ok htake]

/-- The symbol is passed, or its absence is reported where the cursor is. -/
theorem expect_apply (s : Symbol) (fault : ParseFault) (c : Cursor) :
    expect s fault c =
      if c.sees s then .ok c.advanced.previous c.advanced
      else .error .failed (c.report c.peek fault) := by
  rw [expect, sees_bind]
  cases c.sees s <;> rfl

/-- A name is passed; the last token of a list without an end is not passed as one. -/
theorem expectName_apply (fault : ParseFault) (c : Cursor) :
    expectName fault c =
      if c.peek.kind.isIdentifier && !c.atEnd then .ok c.advanced.previous c.advanced
      else .error .failed (c.report c.peek fault) := by
  rw [expectName, peek_bind, atEnd_bind]
  cases c.peek.kind.isIdentifier && !c.atEnd <;> rfl

/-- A symbol that ends a part is looked at, not passed. -/
theorem unlessSeen_apply (s : Symbol) (a : α) (p : Parser α) (c : Cursor) :
    unlessSeen s a p c = if c.sees s then .ok a c else p c := by
  rw [unlessSeen, sees_bind]
  cases c.sees s <;> rfl

end Parser

end Lox
