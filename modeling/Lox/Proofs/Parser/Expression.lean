import Lox.Proofs.Parser.Steady

/-!
Every reader of expressions is steady. Each lemma follows the text of its reader. A reader that goes
round a loop has enough steps for `j` tokens if its own steps and those of what it reads inside
are at least `j`.
-/

namespace Lox

open Cursor

namespace Parser

variable {α : Type} {k n : Nat} {c : Cursor}

/-! ### Lists -/

/-- A list with at least one item passes a token. -/
theorem steady_separated {item : Parser α} (fault : ParseFault)
    (hitem : ∀ d, d.Ended → Steady k true d (item d)) :
    ∀ (n j count : Nat) (c : Cursor), j ≤ n → j ≤ k → c.Ended →
      Steady j true c (separated item fault n count c)
  | 0, _, _, _, hn, _, _ => steady_stall.mono hn id
  | n + 1, j, count, c, hn, hk, hc => by
    rw [separated, peek_bind]
    refine (steady_reportIf ..).bind hc fun _ d hd => ?_
    -- the item passes a token, so the rest has enough steps as well
    refine ((hitem d hd).mono hk id).pass hd fun first e he => ?_
    refine steady_take_bind he (fun f hf => ?_) (.pure _)
    have hrest := steady_separated fault hitem n (j - 1) (count + 1) f (by omega) (by omega) hf
    exact (hrest.mono (Nat.sub_le _ 1) id).bind hf fun _ _ _ => .pure _

theorem steady_items {item : Parser α} (fault : ParseFault)
    (hitem : ∀ d, d.Ended → Steady k true d (item d)) {j : Nat} (hn : j ≤ n) (hk : j ≤ k)
    (hc : c.Ended) : Steady j false c (items item fault n c) :=
  steady_unlessSeen (steady_separated fault hitem n j 0 c hn hk hc)

/-! ### Expressions -/

/-- Each round of the loop passes an operator, so one step for each token is enough. -/
theorem steady_tierTail {t : Tier} {operand : Parser Expr}
    (hop : ∀ d, d.Ended → Steady k true d (operand d)) :
    ∀ (n j : Nat) (left : Expr) (c : Cursor), j ≤ n → j ≤ k → c.Ended →
      Steady j false c (tierTail t operand n left c)
  | 0, _, _, _, hn, _, _ => steady_stall.mono hn id
  | n + 1, j, left, c, hn, hk, hc => by
    rw [tierTail, seesOperator_bind]
    split
    · next h =>
      have hend := Cursor.isEnd_of_seesOperator h
      refine ((steady_advance_of_not_end hc hend).pass hc fun o d hd => ?_).weaken
      -- the operator is passed, so what follows needs a step less
      refine ((hop d hd).mono (by omega) id).bind hd fun right e he => ?_
      exact steady_tierTail hop n (j - 1) _ e (by omega) (by omega) he
    · exact .pure left

theorem steady_tier {t : Tier} {operand : Parser Expr}
    (hop : ∀ d, d.Ended → Steady k true d (operand d)) (hn : n ≤ k) (hc : c.Ended) :
    Steady n true c (tier n t operand c) :=
  ((hop c hc).mono hn id).pass hc fun left d hd =>
    steady_tierTail hop n (n - 1) left d (Nat.sub_le n 1) (by omega) hd

/-- The tiers stand on one another, and on the operands below the tightest one. -/
theorem steady_tiers {operand : Parser Expr} (hop : ∀ d, d.Ended → Steady n true d (operand d)) :
    ∀ (ts : List Tier) (d : Cursor), d.Ended → Steady n true d (ts.foldr (tier n) operand d)
  | [], d, hd => hop d hd
  | _ :: ts, _, hd => steady_tier (steady_tiers hop ts) (Nat.le_refl n) hd

/-- An operand with operators in front of it passes a token. -/
theorem steady_unary {operand : Parser Expr} (hop : ∀ d, d.Ended → Steady k true d (operand d)) :
    ∀ (n j : Nat) (c : Cursor), j ≤ n → j ≤ k → c.Ended → Steady j true c (unary operand n c)
  | 0, _, _, hn, _, _ => steady_stall.mono hn id
  | n + 1, j, c, hn, hk, hc => by
    rw [unary, peek_bind]
    split
    · next h =>
      have hne : c.peek.isEnd = false := by
        rcases Bool.or_eq_true .. ▸ h with h | h
        · exact Token.isEnd_of_is h
        · exact Token.isEnd_of_is h
      refine (steady_advance_of_not_end hc hne).pass hc fun o d hd => ?_
      exact (steady_unary hop n (j - 1) d (by omega) (by omega) hd).bind hd fun _ _ _ => .pure _
    · exact (hop c hc).mono hk id

/-- Each round of the loop passes a parenthesis. -/
theorem steady_callTail {expression : Parser Expr}
    (hexp : ∀ d, d.Ended → Steady (k - 1) true d (expression d)) :
    ∀ (n j : Nat) (callee : Expr) (c : Cursor), j ≤ n → j ≤ k → c.Ended →
      Steady j false c (callTail expression n callee c)
  | 0, _, _, _, hn, _, _ => steady_stall.mono hn id
  | n + 1, j, callee, c, hn, hk, hc => by
    rw [callTail]
    refine steady_take_bind hc (fun d hd => ?_) (.pure callee)
    refine (steady_items .tooManyArguments hexp (by omega) (by omega) hd).bind hd
      fun args e he => ?_
    refine (steady_expect ..).bind he fun paren f hf => ?_
    exact steady_callTail hexp n (j - 1) _ f (by omega) (by omega) hf

/-- An operand passes a token, or fails where it should begin. -/
theorem steady_primary {expression : Parser Expr}
    (hexp : ∀ d, d.Ended → Steady (k - 1) true d (expression d)) (hc : c.Ended) :
    Steady k true c (primary expression c) := by
  rw [primary, peek_bind]
  cases h : c.peek.kind.literal? with
  | some value =>
    exact (steady_advance_of_not_end hc (Token.isEnd_of_literal h)).pass hc fun _ _ _ => .pure _
  | none =>
    dsimp only
    split
    · next h =>
      exact (steady_advance_of_not_end hc (Token.isEnd_of_isIdentifier h)).pass hc
        fun _ _ _ => .pure _
    · split
      · next h =>
        refine (steady_advance_of_not_end hc (Token.isEnd_of_is h)).pass hc fun _ d hd => ?_
        refine (hexp d hd).bind hd fun inner e he => ?_
        exact (steady_expect ..).bind he fun _ _ _ => .pure _
      · exact steady_fail .expression

theorem steady_call {expression : Parser Expr}
    (hexp : ∀ d, d.Ended → Steady (n - 1) true d (expression d)) (hc : c.Ended) :
    Steady n true c (call n expression c) :=
  (steady_primary hexp hc).pass hc fun callee d hd =>
    steady_callTail hexp n (n - 1) callee d (Nat.sub_le n 1) (Nat.sub_le n 1) hd

/-- The target is passed before the value, so the value needs a step less. -/
theorem steady_assignment {expression : Parser Expr}
    (hexp : ∀ d, d.Ended → Steady (n - 1) true d (expression d)) (hc : c.Ended) :
    Steady n true c (assignment n expression c) := by
  have hcall : ∀ d, d.Ended → Steady n true d (call n expression d) := fun d hd =>
    steady_call hexp hd
  have hunary : ∀ d, d.Ended → Steady n true d (unary (call n expression) n d) := fun d hd =>
    steady_unary hcall n n d (Nat.le_refl n) (Nat.le_refl n) hd
  refine (steady_tiers hunary Tier.all c hc).pass hc fun left d hd => ?_
  rw [peek_bind]
  split
  · refine steady_advance.bind hd fun equals e he => ?_
    refine (hexp e he).bind he fun value f hf => ?_
    split
    · exact .pure _
    · exact (steady_reportIf ..).bind hf fun _ _ _ => .pure _
  · exact .pure left

/-- An expression passes a token, and one step for each token is enough. -/
theorem steady_expression : ∀ (n : Nat) (c : Cursor), c.Ended →
    Steady (n - 1) true c (expression n c)
  | 0, _, _ => steady_stall
  | n + 1, _, hc => steady_assignment (steady_expression n) hc

end Parser

end Lox
