import Lox.Proofs.Parser.Run
import Lox.Proofs.Tree.Roles

/-!
Which tokens are kept and which are blamed. The tree that a reader makes keeps tokens of the list
that is read and no others, each in its role, and every error of a reader names a token of the list:
the one at the cursor, or one that was passed. Both hold whether or not the list is a program. So
the errors of a text lie on the lines of its tokens.
-/

namespace Lox

variable {α β : Type} {T : Token → Prop}

/-! ### Cursors -/

namespace Cursor

/-- All tokens at hand are of those described: the one just passed, those to come, and those that
the errors name. -/
structure MadeOf (T : Token → Prop) (c : Cursor) : Prop where
  previous : T c.previous
  rest : ∀ t ∈ c.rest, T t
  errors : ∀ e ∈ c.errors, T e.token

variable {c : Cursor}

theorem MadeOf.peek (h : c.MadeOf T) : T c.peek := by
  unfold Cursor.peek
  cases hrest : c.rest with
  | nil => exact h.previous
  | cons t ts => exact h.rest t (by simp [hrest])

theorem MadeOf.advanced (h : c.MadeOf T) : c.advanced.MadeOf T := by
  unfold Cursor.advanced
  split
  · exact h
  · next t ts hrest =>
    split
    · exact h
    · have hall := h.rest
      rw [hrest, List.forall_mem_cons] at hall
      exact ⟨hall.1, hall.2, h.errors⟩

theorem MadeOf.report (h : c.MadeOf T) {token : Token} (htoken : T token) (fault : ParseFault) :
    (c.report token fault).MadeOf T := by
  refine ⟨h.previous, h.rest, ?_⟩
  rw [Cursor.report, List.forall_mem_append, List.forall_mem_singleton]
  exact ⟨h.errors, htoken⟩

/-- Skipping passes over tokens and adds none. -/
theorem madeOf_skipToBoundary {previous : Token} {ts : List Token} (hprevious : T previous)
    (hts : ∀ t ∈ ts, T t) : T (skipToBoundary previous ts).1 ∧
      ∀ t ∈ (skipToBoundary previous ts).2, T t := by
  induction ts generalizing previous with
  | nil => exact ⟨hprevious, hts⟩
  | cons t ts ih =>
    rw [skipToBoundary]
    split
    · exact ⟨hprevious, hts⟩
    · rw [List.forall_mem_cons] at hts
      exact ih hts.1 hts.2

theorem MadeOf.synchronized (h : c.MadeOf T) : c.synchronized.MadeOf T := by
  have hskip := madeOf_skipToBoundary h.advanced.previous h.advanced.rest
  exact ⟨hskip.1, hskip.2, h.advanced.errors⟩

end Cursor

open Cursor

namespace Parser

variable {p : Parser α} {A : α → Prop} {B : β → Prop} {c : Cursor}

/-! ### Small readers -/

theorem keeps_stall : Keeps (MadeOf T) A (stall : Parser α) := keeps_throw _

theorem keeps_peek : Keeps (MadeOf T) T peek := fun _ hc => ⟨hc, hc.peek⟩

theorem keeps_advance : Keeps (MadeOf T) T advance :=
  fun _ hc => ⟨hc.advanced, hc.advanced.previous⟩

/-- A token that was looked at before it is passed. -/
theorem kept_advance_bind {f : Token → Parser β} (hc : c.MadeOf T) (h : c.peek.isEnd = false)
    (hf : T c.peek → Keeps (MadeOf T) B (f c.peek)) :
    Kept (MadeOf T) B ((advance >>= f) c) := by
  rw [advance_bind, previous_advanced h]
  exact hf hc.peek _ hc.advanced

theorem keeps_sees (s : Symbol) : Keeps (MadeOf T) Anything (sees s) := fun _ hc => ⟨hc, trivial⟩

theorem keeps_atEnd : Keeps (MadeOf T) Anything atEnd := fun _ hc => ⟨hc, trivial⟩

/-- Whoever reports does so at a token of the list. -/
theorem keeps_reportIf (forbidden : Bool) {token : Token} (htoken : T token)
    (fault : ParseFault) : Keeps (MadeOf T) Anything (reportIf forbidden token fault) := by
  intro c hc
  refine ⟨?_, trivial⟩
  split
  · exact hc.report htoken fault
  · exact hc

theorem keeps_fail (fault : ParseFault) : Keeps (MadeOf T) A (fail fault : Parser α) :=
  fun _ hc => hc.report hc.peek fault

theorem keeps_take (s : Symbol) : Keeps (MadeOf T) Anything (take s) := by
  intro c hc
  unfold take
  split
  · exact ⟨hc.advanced, trivial⟩
  · exact ⟨hc, trivial⟩

/-- The token that had to stand here is known by its symbol. -/
theorem keeps_expect (s : Symbol) (fault : ParseFault) :
    Keeps (MadeOf T) (Token.Operates T [s]) (expect s fault) := by
  intro c hc
  rw [expect_apply]
  split
  · next hsees =>
    have his := is_of_sees hsees
    rw [previous_advanced (Token.isEnd_of_is his)]
    exact ⟨hc.advanced, hc.peek, by simp [his]⟩
  · exact hc.report hc.peek fault

/-- The token that had to stand here is a name. -/
theorem keeps_expectName (fault : ParseFault) :
    Keeps (MadeOf T) (Token.Names T) (expectName fault) := by
  intro c hc
  rw [expectName_apply]
  split
  · next hname =>
    rw [Bool.and_eq_true] at hname
    rw [previous_advanced (Token.isEnd_of_isIdentifier hname.1)]
    exact ⟨hc.advanced, hc.peek, hname.1⟩
  · exact hc.report hc.peek fault

theorem keeps_some (h : Keeps (MadeOf T) A p) :
    Keeps (MadeOf T) (fun o => ∀ a ∈ o, A a) (some <$> p) := by
  rw [map_eq_pure_bind]
  exact h.bind fun a ha => keeps_pure (by simpa using ha)

theorem keeps_none : Keeps (MadeOf T) (fun o => ∀ a ∈ o, A a) (pure none : Parser (Option α)) :=
  keeps_pure (by simp)

theorem keeps_unlessSeen (h : Keeps (MadeOf T) A p) (s : Symbol) {a : α} (ha : A a) :
    Keeps (MadeOf T) A (unlessSeen s a p) := by
  refine (keeps_sees s).bind fun seen _ => ?_
  split
  · exact keeps_pure ha
  · exact h

theorem keeps_ifTaken (h : Keeps (MadeOf T) A p) (s : Symbol) :
    Keeps (MadeOf T) (fun o => ∀ a ∈ o, A a) (ifTaken s p) := by
  refine (keeps_take s).bind fun taken _ => ?_
  split
  · exact keeps_some h
  · exact keeps_none

theorem keeps_nested (h : Keeps (MadeOf T) A p) : Keeps (MadeOf T) A (nested p) := by
  intro c hc
  have hkept := h { c with depth := c.depth + 1 } ⟨hc.previous, hc.rest, hc.errors⟩
  unfold Parser.nested
  split
  · next heq =>
    rw [heq] at hkept
    exact ⟨⟨hkept.1.previous, hkept.1.rest, hkept.1.errors⟩, hkept.2⟩
  · next heq =>
    rw [heq] at hkept
    have hd : MadeOf T _ := hkept
    exact ⟨hd.previous, hd.rest, hd.errors⟩

/-- What is left out is skipped. -/
theorem keeps_recovering {p : Parser Stmt} {A : Stmt → Prop} (h : Keeps (MadeOf T) A p) :
    Keeps (MadeOf T) (fun o => ∀ s ∈ o, A s) (recovering p) := by
  intro c hc
  have hkept := h c hc
  unfold Parser.recovering
  split
  · next heq =>
    rw [heq] at hkept
    exact ⟨hkept.1, by simpa using hkept.2⟩
  · next heq =>
    rw [heq] at hkept
    exact ⟨MadeOf.synchronized hkept, by simp⟩
  · next heq =>
    rw [heq] at hkept
    exact hkept

/-! ### Expressions -/

variable {operand inner : Parser Expr}

/-- Each operator of the chain stands where operators of its tier may. -/
theorem keeps_tierTail (h : Keeps (MadeOf T) (Expr.InRole T) operand) (t : Tier) :
    ∀ n {left : Expr}, left.InRole T →
      Keeps (MadeOf T) (Expr.InRole T) (tierTail t operand n left)
  | 0, _, _ => keeps_stall
  | n + 1, left, hleft => by
    intro c hc
    rw [tierTail, seesOperator_bind]
    split
    · next hsees =>
      have ho := Cursor.any_of_seesOperator hsees
      have hend := Cursor.isEnd_of_seesOperator hsees
      refine kept_advance_bind hc hend fun hT => h.bind fun right hright => ?_
      exact keeps_tierTail h t n (t.inRole_node hT ho hleft hright)
    · exact keeps_pure hleft c hc

theorem keeps_tiers (h : Keeps (MadeOf T) (Expr.InRole T) operand) (n : Nat) :
    ∀ ts : List Tier, Keeps (MadeOf T) (Expr.InRole T) (ts.foldr (tier n) operand)
  | [] => h
  | t :: ts => by
    have hops := keeps_tiers h n ts
    exact hops.bind fun left hleft => keeps_tierTail hops t n hleft

theorem keeps_unary (h : Keeps (MadeOf T) (Expr.InRole T) operand) :
    ∀ n, Keeps (MadeOf T) (Expr.InRole T) (unary operand n)
  | 0 => keeps_stall
  | n + 1 => by
    intro c hc
    rw [unary, peek_bind]
    split
    · next ho =>
      have hend : c.peek.isEnd = false := by
        rcases Bool.or_eq_true .. ▸ ho with ho | ho
        · exact Token.isEnd_of_is ho
        · exact Token.isEnd_of_is ho
      refine kept_advance_bind hc hend fun hT => (keeps_unary h n).bind fun right hright => ?_
      exact keeps_pure (.unary ⟨hT, by simpa [unaryOperators] using ho⟩ hright)
    · exact h c hc

theorem keeps_separated {item : Parser α} (h : Keeps (MadeOf T) A item) (fault : ParseFault) :
    ∀ n count, Keeps (MadeOf T) (fun as => ∀ a ∈ as, A a) (separated item fault n count)
  | 0, _ => keeps_stall
  | n + 1, count => by
    refine keeps_peek.bind fun next hnext => (keeps_reportIf _ hnext fault).bind fun _ _ => ?_
    refine h.bind fun first hfirst => (keeps_take .comma).bind fun taken _ => ?_
    split
    · refine (keeps_separated h fault n (count + 1)).bind fun others hothers => keeps_pure ?_
      exact List.forall_mem_cons.2 ⟨hfirst, hothers⟩
    · exact keeps_pure (by simpa using hfirst)

theorem keeps_items {item : Parser α} (h : Keeps (MadeOf T) A item) (fault : ParseFault)
    (n : Nat) : Keeps (MadeOf T) (fun as => ∀ a ∈ as, A a) (items item fault n) :=
  keeps_unlessSeen (keeps_separated h fault n 0) .rightParen (by simp)

theorem keeps_callTail (h : Keeps (MadeOf T) (Expr.InRole T) inner) :
    ∀ n {callee : Expr}, callee.InRole T →
      Keeps (MadeOf T) (Expr.InRole T) (callTail inner n callee)
  | 0, _, _ => keeps_stall
  | n + 1, callee, hcallee => by
    refine (keeps_take .leftParen).bind fun taken _ => ?_
    split
    · refine (keeps_items h .tooManyArguments n).bind fun args hargs => ?_
      refine (keeps_expect .rightParen .parenAfterArguments).bind fun paren hparen => ?_
      exact keeps_callTail h n (.call hcallee hparen hargs)
    · exact keeps_pure hcallee

theorem keeps_primary (h : Keeps (MadeOf T) (Expr.InRole T) inner) :
    Keeps (MadeOf T) (Expr.InRole T) (primary inner) := by
  intro c hc
  rw [primary, peek_bind]
  cases hvalue : c.peek.kind.literal? with
  | some value =>
    refine kept_advance_bind hc (Token.isEnd_of_literal hvalue) fun hT => keeps_pure ?_
    exact .literal (.inr ⟨c.peek, hT, hvalue⟩)
  | none =>
    dsimp only
    split
    · next hname =>
      refine kept_advance_bind hc (Token.isEnd_of_isIdentifier hname) fun hT => keeps_pure ?_
      exact .reference ⟨hT, hname⟩
    split
    · next hparen =>
      refine kept_advance_bind hc (Token.isEnd_of_is hparen) fun _ => h.bind fun e he => ?_
      exact (keeps_expect .rightParen .parenAfterExpression).bind fun _ _ => keeps_pure (.group he)
    · exact keeps_fail .expression c hc

/-- The sign of an assignment is passed before it may be blamed. -/
theorem keeps_assignment (h : Keeps (MadeOf T) (Expr.InRole T) inner) (n : Nat) :
    Keeps (MadeOf T) (Expr.InRole T) (assignment n inner) := by
  have hcall : Keeps (MadeOf T) (Expr.InRole T) (call n inner) :=
    (keeps_primary h).bind fun callee hcallee => keeps_callTail h n hcallee
  refine (keeps_tiers (keeps_unary hcall n) n Tier.all).bind fun left hleft => ?_
  refine keeps_peek.bind fun next _ => ?_
  split
  · refine keeps_advance.bind fun equals hequals => h.bind fun value hvalue => ?_
    split
    · cases hleft with
      | reference hname => exact keeps_pure (.assign hname hvalue)
    · exact (keeps_reportIf true hequals .assignmentTarget).bind fun _ _ => keeps_pure hleft
  · exact keeps_pure hleft

theorem keeps_expression : ∀ n, Keeps (MadeOf T) (Expr.InRole T) (expression n)
  | 0 => keeps_stall
  | n + 1 => keeps_assignment (keeps_expression n) n

/-! ### Statements -/

theorem keeps_terminated (n : Nat) (fault : ParseFault) :
    Keeps (MadeOf T) (Expr.InRole T) (terminated n fault) :=
  (keeps_expression n).bind fun _ hvalue => (keeps_expect .semicolon fault).bind fun _ _ =>
    keeps_pure hvalue

theorem keeps_varDeclaration (n : Nat) : Keeps (MadeOf T) (Stmt.InRole T) (varDeclaration n) := by
  refine (keeps_expectName .variableName).bind fun name hname => ?_
  refine (keeps_ifTaken (keeps_expression n) .equal).bind fun initial hinitial => ?_
  exact (keeps_expect .semicolon .semicolonAfterVariable).bind fun _ _ =>
    keeps_pure (.declare hname hinitial)

theorem keeps_expressionStatement (n : Nat) :
    Keeps (MadeOf T) (Stmt.InRole T) (expressionStatement n) :=
  (keeps_terminated n .semicolonAfterExpression).bind fun _ hvalue =>
    keeps_pure (.expression hvalue)

theorem keeps_printStatement (n : Nat) : Keeps (MadeOf T) (Stmt.InRole T) (printStatement n) :=
  (keeps_terminated n .semicolonAfterValue).bind fun _ hvalue => keeps_pure (.print hvalue)

/-- A return outside every function is blamed on its first word. -/
theorem keeps_returnStatement (n : Nat) {keyword : Token}
    (hkeyword : keyword.Operates T [.returnWord]) :
    Keeps (MadeOf T) (Stmt.InRole T) (returnStatement n keyword) := by
  have hget : Keeps (MadeOf T) Anything (get : Parser Cursor) := fun _ hc => ⟨hc, trivial⟩
  refine hget.bind fun c _ => (keeps_reportIf _ hkeyword.known .topLevelReturn).bind fun _ _ => ?_
  refine (keeps_unlessSeen (keeps_some (keeps_expression n)) .semicolon (by simp)).bind
    fun value hvalue => ?_
  exact (keeps_expect .semicolon .semicolonAfterReturnValue).bind fun _ _ =>
    keeps_pure (.returns hkeyword hvalue)

theorem keeps_condition (n : Nat) (opening closing : ParseFault) :
    Keeps (MadeOf T) (Expr.InRole T) (condition n opening closing) := by
  refine (keeps_expect .leftParen opening).bind fun _ _ => ?_
  refine (keeps_expression n).bind fun value hvalue => ?_
  exact (keeps_expect .rightParen closing).bind fun _ _ => keeps_pure hvalue

theorem keeps_forInitial (n : Nat) :
    Keeps (MadeOf T) (fun o => ∀ s ∈ o, s.InRole T) (forInitial n) := by
  refine keeps_peek.bind fun next _ => ?_
  split
  · exact keeps_advance.bind fun _ _ => keeps_none
  split
  · exact keeps_advance.bind fun _ _ => keeps_some (keeps_varDeclaration n)
  · exact keeps_some (keeps_expressionStatement n)

section

variable {n : Nat} {reader : Parser Stmt} {block : Parser (List Stmt)}
  (h : Keeps (MadeOf T) (Stmt.InRole T) reader)

include h

theorem keeps_whileStatement : Keeps (MadeOf T) (Stmt.InRole T) (whileStatement n reader) :=
  (keeps_condition n _ _).bind fun _ htest => h.bind fun _ hbody =>
    keeps_pure (.whileDo htest hbody)

theorem keeps_ifStatement : Keeps (MadeOf T) (Stmt.InRole T) (ifStatement n reader) := by
  refine (keeps_condition n _ _).bind fun test htest => h.bind fun thenBranch hthen => ?_
  refine (keeps_take .elseWord).bind fun taken _ => ?_
  split
  · exact h.bind fun _ helse => keeps_pure (.ifElse htest hthen helse)
  · exact keeps_pure (.ifThen htest hthen)

/-- The condition of a loop that has none is in no text. -/
theorem keeps_forStatement : Keeps (MadeOf T) (Stmt.InRole T) (forStatement n reader) := by
  refine (keeps_expect .leftParen .parenAfterFor).bind fun _ _ => ?_
  refine (keeps_forInitial n).bind fun initial hinitial => ?_
  refine (keeps_unlessSeen (keeps_expression n) .semicolon (.literal (.inl rfl))).bind
    fun test htest => ?_
  refine (keeps_expect .semicolon .semicolonAfterLoopCondition).bind fun _ _ => ?_
  refine (keeps_unlessSeen (keeps_some (keeps_expression n)) .rightParen (by simp)).bind
    fun increment hincrement => ?_
  refine (keeps_expect .rightParen .parenAfterForClauses).bind fun _ _ => ?_
  exact h.bind fun _ hbody =>
    keeps_pure (Stmt.inRole_forLoop hinitial htest hincrement hbody)

theorem keeps_statementOf (hblock : Keeps (MadeOf T) (fun ss => ∀ s ∈ ss, s.InRole T) block) :
    Keeps (MadeOf T) (Stmt.InRole T) (statementOf n reader block) := by
  intro c hc
  rw [statementOf, peek_bind]
  split
  · exact keeps_advance.bind (fun _ _ => keeps_forStatement h) c hc
  split
  · exact keeps_advance.bind (fun _ _ => keeps_ifStatement h) c hc
  split
  · exact keeps_advance.bind (fun _ _ => keeps_printStatement n) c hc
  split
  · next hreturn =>
    refine kept_advance_bind hc (Token.isEnd_of_is hreturn) fun hT => ?_
    exact keeps_returnStatement n ⟨hT, by simp [hreturn]⟩
  split
  · exact keeps_advance.bind (fun _ _ => keeps_whileStatement h) c hc
  split
  · exact keeps_advance.bind (fun _ _ => hblock.bind fun _ hbody => keeps_pure (.block hbody)) c hc
  · exact keeps_expressionStatement n c hc

end

/-- The declarations that were read, without those that were left out. -/
theorem forall_mem_declarations {first : Option Stmt} {others : List Stmt}
    (hfirst : ∀ s ∈ first, s.InRole T) (hothers : ∀ s ∈ others, s.InRole T) :
    ∀ s ∈ first.toList ++ others, s.InRole T := by
  rw [List.forall_mem_append]
  exact ⟨fun s hs => hfirst s (Option.mem_toList.1 hs), hothers⟩

theorem keeps_blockTail {declaration : Parser (Option Stmt)}
    (h : Keeps (MadeOf T) (fun o => ∀ s ∈ o, s.InRole T) declaration) :
    ∀ n, Keeps (MadeOf T) (fun ss => ∀ s ∈ ss, s.InRole T) (blockTail declaration n)
  | 0 => keeps_stall
  | n + 1 => by
    refine keeps_atEnd.bind fun ended _ => (keeps_sees .rightBrace).bind fun closed _ => ?_
    split
    · exact (keeps_expect .rightBrace .braceAfterBlock).bind fun _ _ => keeps_pure (by simp)
    · exact h.bind fun _ hfirst => (keeps_blockTail h n).bind fun _ hothers =>
        keeps_pure (forall_mem_declarations hfirst hothers)

/-! ### Declarations and programs -/

/-- The name and the parameters are names, and the body is read as a block. -/
theorem keeps_functionDeclaration (n : Nat) {block : Parser (List Stmt)}
    (h : Keeps (MadeOf T) (fun ss => ∀ s ∈ ss, s.InRole T) block) :
    Keeps (MadeOf T) (Stmt.InRole T) (functionDeclaration n block) := by
  refine (keeps_expectName .functionName).bind fun name hname => ?_
  refine (keeps_expect .leftParen .parenAfterFunctionName).bind fun _ _ => ?_
  refine (keeps_items (keeps_expectName .parameterName) .tooManyParameters n).bind
    fun params hparams => ?_
  refine (keeps_expect .rightParen .parenAfterParameters).bind fun _ _ => ?_
  refine (keeps_expect .leftBrace .braceBeforeBody).bind fun _ _ => ?_
  exact (keeps_nested h).bind fun _ hbody => keeps_pure (.function hname hparams hbody)

theorem keeps_declarationOf {n : Nat} {reader : Parser Stmt} {block : Parser (List Stmt)}
    (h : Keeps (MadeOf T) (Stmt.InRole T) reader)
    (hblock : Keeps (MadeOf T) (fun ss => ∀ s ∈ ss, s.InRole T) block) :
    Keeps (MadeOf T) (fun o => ∀ s ∈ o, s.InRole T) (declarationOf n reader block) := by
  refine keeps_recovering (keeps_peek.bind fun next _ => ?_)
  split
  · exact keeps_advance.bind fun _ _ => keeps_functionDeclaration n hblock
  split
  · exact keeps_advance.bind fun _ _ => keeps_varDeclaration n
  · exact keeps_statementOf h hblock

theorem keeps_statement_and_declaration : ∀ n,
    Keeps (MadeOf T) (Stmt.InRole T) (statement n) ∧
      Keeps (MadeOf T) (fun o => ∀ s ∈ o, s.InRole T) (declaration n)
  | 0 => by
    rw [statement, declaration]
    exact ⟨keeps_stall, keeps_stall⟩
  | n + 1 => by
    obtain ⟨hs, hd⟩ := keeps_statement_and_declaration n
    rw [statement, declaration]
    exact ⟨keeps_statementOf hs (keeps_blockTail hd n),
      keeps_declarationOf hs (keeps_blockTail hd n)⟩

/-- Whatever is left out, the rest is made of the tokens of the list. -/
theorem keeps_program (n : Nat) : ∀ k,
    Keeps (MadeOf T) (fun ss => ∀ s ∈ ss, s.InRole T) (program (declaration n) k)
  | 0 => keeps_stall
  | k + 1 => by
    refine keeps_atEnd.bind fun ended _ => ?_
    split
    · exact keeps_pure (by simp)
    · refine (keeps_statement_and_declaration n).2.bind fun _ hfirst => ?_
      exact (keeps_program n k).bind fun _ hothers =>
        keeps_pure (forall_mem_declarations hfirst hothers)

end Parser

variable {tokens : List Token} {parsed : Parsed}

/-- What is parsed keeps tokens of the list in their roles, and blames tokens of the list. -/
theorem parse_keeps (h : parse tokens = some parsed) (hT : ∀ t ∈ tokens, T t) :
    (∀ s ∈ parsed.statements, s.InRole T) ∧ ∀ e ∈ parsed.errors, T e.token := by
  unfold parse at h
  split at h
  · cases h
    exact ⟨by simp, by simp⟩
  · next t ts =>
    have hstart : Cursor.MadeOf T { previous := t, rest := t :: ts } :=
      ⟨hT t List.mem_cons_self, hT, by simp⟩
    have hkept := Parser.keeps_program (parseSteps (t :: ts).length)
      (parseSteps (t :: ts).length) _ hstart
    dsimp only at h
    split at h
    · next heq =>
      cases h
      rw [heq] at hkept
      exact ⟨hkept.2, hkept.1.errors⟩
    · cases h

/-- Every error of parsing names a token of the list. -/
theorem mem_of_mem_errors (h : parse tokens = some parsed) {e : ParseError}
    (he : e ∈ parsed.errors) : e.token ∈ tokens :=
  (parse_keeps h fun _ ht => ht).2 e he

end Lox
