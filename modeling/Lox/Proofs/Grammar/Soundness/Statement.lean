import Lox.Proofs.Grammar.Soundness.Expression

/-!
What is read without an error is a program of the grammar that attaches each `else` to the nearest
branch, and the answer is its tree. A statement read at a nonzero depth stands inside a function
body. If it ends with a branch without `else`, then no `else` comes next: the reader of the branch
would have taken it.
-/

namespace Lox

open Lox.Parser

namespace Grammar

variable {c : Cursor} {n : Nat}

/-- The tokens are a statement at the depth, before the token `next`. -/
def StatementAt (depth : Nat) (ts : List Token) (s : Stmt) (next : Token) : Prop :=
  ∃ ending, Statement .nearest (decide (depth ≠ 0)) ending ts s ∧
    (ending = .dangling → next.is .elseWord = false)

/-- The tokens are the declarations of a block at the depth, and its closing brace. -/
def BlockAt (depth : Nat) (ts : List Token) (ss : List Stmt) : Prop :=
  ∃ us closing, ts = us ++ [closing] ∧ Declarations .nearest (decide (depth ≠ 0)) us ss ∧
    closing.is .rightBrace = true

/-- After a closed statement anything may follow. -/
theorem StatementAt.of_closed {depth : Nat} {ts : List Token} {s : Stmt} {next : Token}
    (h : Statement .nearest (decide (depth ≠ 0)) .closed ts s) : StatementAt depth ts s next :=
  ⟨.closed, h, nofun⟩

/-! ### Clauses -/

theorem sound_terminated {fault : ParseFault} (hc : c.Ended) :
    Sound (fun ts e _ => ∃ us semicolon, ts = us ++ [semicolon] ∧ Phrase .expression us e ∧
      semicolon.is .semicolon = true) c (terminated n fault c) := by
  refine (sound_expression n c hc).bind hc fun value d hd _ => ?_
  refine sound_expect hd fun semicolon _ hsemi _ _ => .pure fun us hus => ?_
  exact ⟨us, semicolon, rfl, hus, hsemi⟩

/-- Between the tokens around it, an expression may be left out. -/
theorem sound_optional {s : Symbol} (hc : c.Ended) :
    Sound (fun ts e _ => Optional ts e) c (unlessSeen s none (some <$> expression n) c) :=
  sound_unlessSeen .none (.map hc ((sound_expression n c hc).imp fun _ _ _ h => .some h))

theorem sound_varDeclaration {word : Token} (hw : word.is .varWord = true) (hc : c.Ended) :
    Sound (fun ts s _ => Variable (word :: ts) s) c (varDeclaration n c) := by
  refine sound_expectName hc fun name d hname hd _ => ?_
  have hinit : Sound (fun ts e _ => Initializer ts e) d (ifTaken .equal (expression n) d) :=
    sound_ifTaken hd .none fun h e he _ => (sound_expression n e he).imp fun _ _ _ hx => .some h hx
  refine hinit.bind hd fun initial e he _ => ?_
  refine sound_expect he fun semicolon _ hsemi _ _ => .pure fun us hus => ?_
  exact .declare hw hname hus hsemi

theorem sound_expressionStatement (hc : c.Ended) :
    Sound (fun ts s _ => ∃ us semicolon e, ts = us ++ [semicolon] ∧ s = .expression e ∧
      Phrase .expression us e ∧ semicolon.is .semicolon = true) c (expressionStatement n c) := by
  refine (sound_terminated hc).bind hc fun value d _ _ => .pure ?_
  rintro _ ⟨us, semicolon, rfl, hus, hsemi⟩
  exact ⟨us, semicolon, value, List.append_nil _, rfl, hus, hsemi⟩

theorem sound_forInitial (hc : c.Ended) :
    Sound (fun ts s _ => ForInitial ts s) c (forInitial n c) := by
  rw [forInitial, peek_bind]
  split
  · next h => exact sound_advance hc (Token.isEnd_of_is h) fun _ _ _ => .pure (.none h)
  split
  · next h =>
    refine sound_advance hc (Token.isEnd_of_is h) fun d hd _ => .map hd ?_
    exact (sound_varDeclaration h hd).imp fun _ _ _ hs => .var hs
  · refine .map hc ((sound_expressionStatement hc).imp ?_)
    rintro _ _ _ ⟨us, semicolon, e, rfl, rfl, hus, hsemi⟩
    exact .expression hus hsemi

/-- The condition of a branch or loop, and what comes after it. -/
theorem sound_condition {β : Type} {f : Expr → Parser β} {T : List Token → β → Token → Prop}
    {fault fault' : ParseFault} (hc : c.Ended)
    (hf : ∀ test opening closing d, opening.is .leftParen = true → closing.is .rightParen = true →
      d.Ended → d.depth = c.depth →
      Sound (fun ts b next => ∀ us, Phrase .expression us test →
        T (opening :: (us ++ closing :: ts)) b next) d (f test d)) :
    Sound T c ((condition n fault fault' >>= f) c) := by
  simp only [condition, bind_assoc, pure_bind]
  refine sound_expect hc fun opening d ho hd hdepth => ?_
  refine (sound_expression n d hd).bind hd fun test e he hdepth' => ?_
  refine sound_expect he fun closing e' hclose he' hdepth'' => ?_
  exact hf test opening closing e' ho hclose he' (hdepth''.trans (hdepth'.trans hdepth))

/-! ### Statements -/

/-- Without a report the statement stands in a function. -/
theorem sound_returnStatement {word : Token} (hw : word.is .returnWord = true) (hc : c.Ended) :
    Sound (fun ts => StatementAt c.depth (word :: ts)) c (returnStatement n word c) := by
  rw [returnStatement, get_bind]
  refine sound_reportIf hc fun d hd _ => ?_
  refine (sound_optional hd).bind hd fun value e he _ => ?_
  refine sound_expect he fun semicolon _ hsemi _ _ => .pure fun us hus hdepth => .of_closed ?_
  rw [decide_eq_false_iff_not] at hdepth
  rw [decide_eq_true hdepth]
  exact .returns hw hus hsemi

section Inside

variable {statement : Parser Stmt} {block : Parser (List Stmt)}
  (hst : ∀ c, c.Ended → Sound (StatementAt c.depth) c (statement c))

include hst

theorem sound_whileStatement {word : Token} (hw : word.is .whileWord = true) (hc : c.Ended) :
    Sound (fun ts => StatementAt c.depth (word :: ts)) c (whileStatement n statement c) := by
  refine sound_condition hc fun test opening closing d ho hclose hd hdepth => ?_
  refine (hst d hd).bind hd fun body e _ _ => .pure ?_
  rintro us ⟨ending, hbody, hnext⟩ vs hvs
  rw [hdepth] at hbody
  rw [List.append_nil]
  exact ⟨ending, .whileDo hw ho hvs hclose hbody, hnext⟩

/-- An `else` that comes next is taken, so none comes after a branch that lacks one. -/
theorem sound_ifStatement {word : Token} (hw : word.is .ifWord = true) (hc : c.Ended) :
    Sound (fun ts => StatementAt c.depth (word :: ts)) c (ifStatement n statement c) := by
  refine sound_condition hc fun test opening closing d ho hclose hd hdepth => ?_
  refine (hst d hd).bind hd fun thenBranch e he hdepth' => ?_
  refine sound_take he (fun helse e' he' hdepth'' => ?_) fun hnot => .pure ?_
  · refine (hst e' he').bind he' fun elseBranch _ _ _ => .pure ?_
    rintro vs ⟨ending', hlast, hnext'⟩ us ⟨ending, hthen, hnext⟩ ts hts
    rw [hdepth'', hdepth', hdepth] at hlast
    rw [hdepth] at hthen
    have hclosed : ending = .closed := by
      cases ending with
      | closed => rfl
      | dangling => rw [hnext rfl] at helse; cases helse
    rw [List.append_nil]
    exact ⟨ending', .ifElse hw ho hts hclose hthen (fun _ => hclosed) helse hlast, hnext'⟩
  · rintro us ⟨ending, hthen, -⟩ ts hts
    rw [hdepth] at hthen
    rw [List.append_nil]
    exact ⟨.dangling, .ifThen hw ho hts hclose hthen, fun _ => hnot⟩

theorem sound_forStatement {word : Token} (hw : word.is .forWord = true) (hc : c.Ended) :
    Sound (fun ts => StatementAt c.depth (word :: ts)) c (forStatement n statement c) := by
  rw [forStatement]
  refine sound_expect hc fun opening d ho hd hdepth => ?_
  refine (sound_forInitial hd).bind hd fun initial d₁ hd₁ hdepth₁ => ?_
  have htest : Sound (fun ts e _ => ∃ test, Optional ts test ∧
      e = test.elim (.literal (.bool true)) id) d₁
      (unlessSeen .semicolon (.literal (.bool true)) (expression n) d₁) :=
    sound_unlessSeen ⟨none, .none, rfl⟩
      ((sound_expression n d₁ hd₁).imp fun _ e _ h => ⟨some e, .some h, rfl⟩)
  refine htest.bind hd₁ fun test d₂ hd₂ hdepth₂ => ?_
  refine sound_expect hd₂ fun semicolon d₃ hsemi hd₃ hdepth₃ => ?_
  refine (sound_optional hd₃).bind hd₃ fun increment d₄ hd₄ hdepth₄ => ?_
  refine sound_expect hd₄ fun closing d₅ hclose hd₅ hdepth₅ => ?_
  refine (hst d₅ hd₅).bind hd₅ fun body _ _ _ => .pure ?_
  rintro ws ⟨ending, hbody, hnext⟩ vs hvs us ⟨test, hus, rfl⟩ ts hts
  rw [hdepth₅, hdepth₄, hdepth₃, hdepth₂, hdepth₁, hdepth] at hbody
  rw [← forTree_eq, List.append_nil]
  exact ⟨ending, .forDo hw ho hts hus hsemi hvs hclose hbody, hnext⟩

/-- The first token tells which statement follows. -/
theorem sound_statementOf (hblock : ∀ c, c.Ended → Sound (fun ts ss _ => BlockAt c.depth ts ss) c
      (block c)) (hc : c.Ended) :
    Sound (StatementAt c.depth) c (statementOf n statement block c) := by
  rw [statementOf, peek_bind]
  split
  · next h =>
    refine sound_advance hc (Token.isEnd_of_is h) fun d hd hdepth => ?_
    rw [← hdepth]
    exact sound_forStatement hst h hd
  split
  · next h =>
    refine sound_advance hc (Token.isEnd_of_is h) fun d hd hdepth => ?_
    rw [← hdepth]
    exact sound_ifStatement hst h hd
  split
  · next h =>
    refine sound_advance hc (Token.isEnd_of_is h) fun d hd _ => ?_
    refine (sound_terminated hd).bind hd fun value _ _ _ => .pure ?_
    rintro _ ⟨us, semicolon, rfl, hus, hsemi⟩
    rw [List.append_nil]
    exact .of_closed (.print h hus hsemi)
  split
  · next h =>
    refine sound_advance hc (Token.isEnd_of_is h) fun d hd hdepth => ?_
    rw [← hdepth]
    exact sound_returnStatement h hd
  split
  · next h =>
    refine sound_advance hc (Token.isEnd_of_is h) fun d hd hdepth => ?_
    rw [← hdepth]
    exact sound_whileStatement hst h hd
  split
  · next h =>
    refine sound_advance hc (Token.isEnd_of_is h) fun d hd hdepth => ?_
    refine (hblock d hd).bind hd fun body _ _ _ => .pure ?_
    rintro _ ⟨us, closing, rfl, hus, hclose⟩
    rw [hdepth] at hus
    rw [List.append_nil]
    exact .of_closed (.block h hus hclose)
  · refine (sound_expressionStatement hc).imp ?_
    rintro _ _ _ ⟨us, semicolon, e, rfl, rfl, hus, hsemi⟩
    exact .of_closed (.expression hus hsemi)

end Inside

/-! ### Declarations -/

/-- The tokens are a declaration at the depth, and it was not left out. -/
def DeclarationAt (depth : Nat) (ts : List Token) (answer : Option Stmt) : Prop :=
  ∃ s, answer = some s ∧ Declaration .nearest (decide (depth ≠ 0)) ts s

/-- The body stands in a function, wherever the declaration stands. -/
theorem sound_functionDeclaration {block : Parser (List Stmt)} {word : Token}
    (hblock : ∀ c, c.Ended → Sound (fun ts ss _ => BlockAt c.depth ts ss) c (block c))
    (hw : word.is .funWord = true) (hc : c.Ended) :
    Sound (fun ts s _ => Declaration .nearest (decide (c.depth ≠ 0)) (word :: ts) s) c
      (functionDeclaration n block c) := by
  have hname : ∀ c, c.Ended → Sound (fun ts t _ => Name ts t) c (expectName .parameterName c) := by
    intro c hc
    rw [← bind_pure (expectName _)]
    exact sound_expectName hc fun t _ ht _ _ => .pure (.name ht)
  refine sound_expectName hc fun name d hn hd hdepth => ?_
  refine sound_expect hd fun opening d₁ ho hd₁ hdepth₁ => ?_
  refine (sound_items hname hd₁).bind hd₁ fun params d₂ hd₂ hdepth₂ => ?_
  refine sound_expect hd₂ fun closing d₃ hclose hd₃ hdepth₃ => ?_
  refine sound_expect hd₃ fun brace d₄ hbrace hd₄ hdepth₄ => ?_
  refine (sound_nested (hblock _ hd₄)).bind hd₄ fun body _ _ _ => .pure ?_
  rintro _ ⟨us, endBrace, rfl, hus, hend⟩ ts hts
  rw [List.append_nil]
  rw [decide_eq_true (Nat.succ_ne_zero _)] at hus
  exact .function hw hn ho hts hclose hbrace hus hend

theorem sound_declarationOf {statement : Parser Stmt} {block : Parser (List Stmt)}
    (hst : ∀ c, c.Ended → Sound (StatementAt c.depth) c (statement c))
    (hblock : ∀ c, c.Ended → Sound (fun ts ss _ => BlockAt c.depth ts ss) c (block c))
    (hc : c.Ended) :
    Sound (fun ts s _ => DeclarationAt c.depth ts s) c (declarationOf n statement block c) := by
  refine sound_recovering (R := fun ts s _ => Declaration .nearest (decide (c.depth ≠ 0)) ts s) ?_
  rw [peek_bind]
  split
  · next h =>
    refine sound_advance hc (Token.isEnd_of_is h) fun d hd hdepth => ?_
    rw [← hdepth]
    exact sound_functionDeclaration hblock h hd
  split
  · next h =>
    refine sound_advance hc (Token.isEnd_of_is h) fun d hd _ => ?_
    exact (sound_varDeclaration h hd).imp fun _ _ _ hs => .var hs
  · exact (sound_statementOf hst hblock hc).imp fun _ _ _ ⟨_, hs, _⟩ => .statement hs

/-- A block goes on until its closing brace; the end of the list is a fault. -/
theorem sound_blockTail {declaration : Parser (Option Stmt)}
    (hdecl : ∀ c, c.Ended → Sound (fun ts s _ => DeclarationAt c.depth ts s) c (declaration c)) :
    ∀ (n : Nat) (c : Cursor), c.Ended →
    Sound (fun ts ss _ => BlockAt c.depth ts ss) c (blockTail declaration n c)
  | 0, _, _ => sound_stall
  | n + 1, c, hc => by
    rw [blockTail, atEnd_bind, sees_bind]
    split
    · refine sound_expect hc fun closing _ hclose _ _ => .pure ?_
      exact ⟨[], closing, rfl, .nil, hclose⟩
    · refine (hdecl c hc).bind hc fun first d hd hdepth => ?_
      refine (sound_blockTail hdecl n d hd).bind hd fun others _ _ _ => .pure ?_
      rintro _ ⟨us, closing, rfl, hus, hclose⟩ ts ⟨s, rfl, hs⟩
      rw [hdepth] at hus
      rw [List.append_nil, ← List.append_assoc]
      exact ⟨ts ++ us, closing, rfl, .cons hs hus, hclose⟩

theorem sound_statement_and_declaration : ∀ n : Nat,
    (∀ c, c.Ended → Sound (StatementAt c.depth) c (statement n c)) ∧
    (∀ c, c.Ended → Sound (fun ts s _ => DeclarationAt c.depth ts s) c (declaration n c))
  | 0 => by
    refine ⟨fun c _ => ?_, fun c _ => ?_⟩
    · rw [statement]
      exact sound_stall
    · rw [declaration]
      exact sound_stall
  | n + 1 => by
    obtain ⟨hst, hdecl⟩ := sound_statement_and_declaration n
    have hblock := sound_blockTail hdecl n
    refine ⟨fun c hc => ?_, fun c hc => ?_⟩
    · rw [statement]
      exact sound_statementOf hst hblock hc
    · rw [declaration]
      exact sound_declarationOf hst hblock hc

/-- A program goes on until the end of the list. -/
theorem sound_program (n : Nat) : ∀ (m : Nat) (c : Cursor), c.Ended →
    Sound (fun ts ss _ => Declarations .nearest (decide (c.depth ≠ 0)) ts ss) c
      (program (declaration n) m c)
  | 0, _, _ => sound_stall
  | m + 1, c, hc => by
    rw [program, atEnd_bind]
    split
    · exact .pure .nil
    · refine ((sound_statement_and_declaration n).2 c hc).bind hc fun first d hd hdepth => ?_
      refine (sound_program n m d hd).bind hd fun others _ _ _ => .pure ?_
      rintro us hus ts ⟨s, rfl, hs⟩
      rw [hdepth] at hus
      rw [List.append_nil]
      exact .cons hs hus

end Grammar

end Lox
