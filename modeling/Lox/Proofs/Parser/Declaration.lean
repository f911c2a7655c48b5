import Lox.Proofs.Parser.Expression

/-!
Every reader of statements and declarations is steady. A declaration that cannot be read passes at
least one token all the same, unless nothing is left to pass; so the loops over declarations end.
-/

namespace Lox

open Cursor

namespace Parser

variable {k n : Nat} {c : Cursor}

/-! ### Statements -/

/-- The expression passes a token, and the semicolon after it one more. -/
theorem steady_terminated (fault : ParseFault) (hc : c.Ended) :
    Steady (n - 1) true c (terminated n fault c) :=
  (steady_expression n c hc).pass hc fun _ _ hd => (steady_expect ..).bind hd fun _ _ _ => .pure _

theorem steady_expressionStatement (hc : c.Ended) :
    Steady (n - 1) true c (expressionStatement n c) :=
  (steady_terminated .semicolonAfterExpression hc).pass hc fun _ _ _ => .pure _

theorem steady_printStatement (hc : c.Ended) : Steady (n - 1) true c (printStatement n c) :=
  (steady_terminated .semicolonAfterValue hc).pass hc fun _ _ _ => .pure _

theorem steady_varDeclaration (hc : c.Ended) : Steady n true c (varDeclaration n c) := by
  refine (steady_expectName .variableName).pass hc fun name d hd => ?_
  refine (steady_ifTaken (b := false) hd fun e he => ?_).bind hd fun initial e he => ?_
  · exact ((steady_expression n e he).mono (Nat.sub_le _ 1) id).weaken
  · exact (steady_expect ..).bind he fun _ _ _ => .pure _

theorem steady_returnStatement (keyword : Token) (hc : c.Ended) :
    Steady (n - 1) true c (returnStatement n keyword c) := by
  rw [returnStatement, get_bind]
  refine (steady_reportIf ..).bind hc fun _ d hd => ?_
  refine (steady_unlessSeen ((steady_expression n d hd).map some hd)).bind hd fun value e he => ?_
  exact (steady_expect ..).pass he fun _ _ _ => .pure _

theorem steady_condition (opening closing : ParseFault) (hc : c.Ended) :
    Steady n true c (condition n opening closing c) := by
  refine (steady_expect ..).pass hc fun _ d hd => ?_
  refine (steady_expression n d hd).bind hd fun value e he => ?_
  exact (steady_expect ..).bind he fun _ _ _ => .pure _

theorem steady_whileStatement {statement : Parser Stmt} (hk : k ≤ n)
    (hst : ∀ d, d.Ended → Steady k true d (statement d)) (hc : c.Ended) :
    Steady k true c (whileStatement n statement c) := by
  refine ((steady_condition _ _ hc).mono hk id).pass hc fun test d hd => ?_
  exact ((hst d hd).mono (Nat.sub_le k 1) id).bind hd fun _ _ _ => .pure _

theorem steady_ifStatement {statement : Parser Stmt} (hk : k ≤ n)
    (hst : ∀ d, d.Ended → Steady k true d (statement d)) (hc : c.Ended) :
    Steady k true c (ifStatement n statement c) := by
  refine ((steady_condition _ _ hc).mono hk id).pass hc fun test d hd => ?_
  refine ((hst d hd).mono (Nat.sub_le k 1) id).bind hd fun thenBranch e he => ?_
  refine steady_take_bind he (fun f hf => ?_) (.pure _)
  exact ((hst f hf).mono (by omega) id).bind hf fun _ _ _ => .pure _

theorem steady_forInitial (hc : c.Ended) : Steady (n - 1) true c (forInitial n c) := by
  rw [forInitial, peek_bind]
  split
  · next h =>
    exact (steady_advance_of_not_end hc (Token.isEnd_of_is h)).pass hc fun _ _ _ => .pure _
  · split
    · next h =>
      refine (steady_advance_of_not_end hc (Token.isEnd_of_is h)).pass hc fun _ d hd => ?_
      exact (((steady_varDeclaration hd).map some hd).mono (by omega) id).weaken
    · exact (steady_expressionStatement hc).map some hc

/-- Every part but the parentheses may be missing, so these count. -/
theorem steady_forStatement {statement : Parser Stmt} (hk : k ≤ n)
    (hst : ∀ d, d.Ended → Steady k true d (statement d)) (hc : c.Ended) :
    Steady k true c (forStatement n statement c) := by
  have hexp : ∀ d, d.Ended → Steady (k - 1) true d (expression n d) := fun d hd =>
    (steady_expression n d hd).mono (by omega) id
  refine (steady_expect ..).pass hc fun _ d hd => ?_
  refine ((steady_forInitial hd).mono (by omega) id).bind hd fun initial e he => ?_
  refine (steady_unlessSeen (hexp e he)).bind he fun test f hf => ?_
  refine (steady_expect ..).bind hf fun _ g hg => ?_
  refine (steady_unlessSeen ((hexp g hg).map some hg)).bind hg fun _ i hi => ?_
  refine (steady_expect ..).bind hi fun _ j hj => ?_
  exact ((hst j hj).mono (Nat.sub_le k 1) id).bind hj fun _ _ _ => .pure _

/-- Each declaration of a block passes a token, so the steps of a block are enough. -/
theorem steady_blockTail {declaration : Parser (Option Stmt)}
    (hdecl : ∀ d, d.Ended → d.atEnd = false → Steady k true d (declaration d)) :
    ∀ (n j : Nat) (c : Cursor), j ≤ n → j ≤ k → c.Ended →
      Steady j true c (blockTail declaration n c)
  | 0, j, _, hj, _, _ => steady_stall.mono hj id
  | n + 1, j, c, hn, hk, hc => by
    rw [blockTail, atEnd_bind, sees_bind]
    split
    · exact (steady_expect ..).pass hc fun _ _ _ => .pure _
    · next h =>
      simp only [Bool.or_eq_true, not_or, Bool.not_eq_true] at h
      refine ((hdecl c hc h.1).mono hk id).pass hc fun first d hd => ?_
      exact (steady_blockTail hdecl n (j - 1) d (by omega) (by omega) hd).bind hd
        fun _ _ _ => .pure _

/-- With its first word a statement has passed the token that it owes. -/
theorem steady_statementOf {statement : Parser Stmt} {block : Parser (List Stmt)}
    (hst : ∀ d, d.Ended → Steady (n - 2) true d (statement d))
    (hblock : ∀ d, d.Ended → Steady (n - 2) true d (block d)) (hc : c.Ended) :
    Steady (n - 1) true c (statementOf n statement block c) := by
  -- each statement with a first word of its own passes that word
  have word : ∀ {s : Symbol} {f : Token → Parser Stmt}, c.peek.is s = true →
      (∀ t d, d.Ended → Steady (n - 2) true d (f t d)) →
      Steady (n - 1) true c ((advance >>= f) c) := fun hs hf =>
    (steady_advance_of_not_end hc (Token.isEnd_of_is hs)).pass hc fun t d hd => (hf t d hd).weaken
  rw [statementOf, peek_bind]
  split
  · next h => exact word h fun _ d hd => steady_forStatement (Nat.sub_le n 2) hst hd
  split
  · next h => exact word h fun _ d hd => steady_ifStatement (Nat.sub_le n 2) hst hd
  split
  · next h => exact word h fun _ d hd => (steady_printStatement hd).mono (by omega) id
  split
  · next h => exact word h fun t d hd => (steady_returnStatement t hd).mono (by omega) id
  split
  · next h => exact word h fun _ d hd => steady_whileStatement (Nat.sub_le n 2) hst hd
  split
  · next h =>
    refine word h fun _ d hd => ?_
    exact (hblock d hd).pass hd fun _ _ _ => .pure _
  · exact steady_expressionStatement hc

/-! ### Declarations -/

/-- The name of the function is the token that it passes. -/
theorem steady_functionDeclaration {block : Parser (List Stmt)} (hk : k ≤ n)
    (hblock : ∀ d, d.Ended → Steady k true d (block d)) (hc : c.Ended) :
    Steady k true c (functionDeclaration n block c) := by
  have hname : ∀ d, d.Ended → Steady n true d (expectName .parameterName d) := fun _ _ =>
    steady_expectName .parameterName
  refine (steady_expectName .functionName).pass hc fun name d hd => ?_
  refine (steady_expect ..).bind hd fun _ e he => ?_
  have hitems := steady_items .tooManyParameters hname (Nat.le_refl n) (Nat.le_refl n) he
  refine (hitems.mono (by omega) id).bind he fun params f hf => ?_
  refine (steady_expect ..).bind hf fun _ g hg => ?_
  refine (steady_expect ..).bind hg fun _ i hi => ?_
  exact ((steady_nested hblock hi).mono (Nat.sub_le k 1) id).bind hi fun _ _ _ => .pure _

end Parser

/-! ### Recovery -/

/-- Tokens up to a boundary are passed, and no end of the text among them. -/
theorem skipToBoundary_passed : ∀ (ts : List Token) (previous : Token),
    ∃ us, ts = us ++ (skipToBoundary previous ts).2 ∧ (∀ t ∈ us, t.isEnd = false) ∧
      (skipToBoundary previous ts).1 = us.getLastD previous
  | [], previous => ⟨[], by simp [skipToBoundary]⟩
  | t :: ts, previous => by
    rw [skipToBoundary]
    split
    · exact ⟨[], by simp⟩
    · next h =>
      obtain ⟨us, hus, hend, hlast⟩ := skipToBoundary_passed ts t
      simp only [Bool.or_eq_true, not_or, Bool.not_eq_true] at h
      refine ⟨t :: us, by rw [List.cons_append, ← hus], ?_, by rw [hlast, List.getLastD_cons]⟩
      intro u hu
      rcases List.mem_cons.1 hu with rfl | hu
      · exact h.1.1
      · exact hend u hu

/-- Where nothing is left, nothing is passed. -/
theorem Cursor.synchronized_of_atEnd {c : Cursor} (h : c.atEnd = true) : c.synchronized = c := by
  obtain ⟨previous, rest, depth, errors⟩ := c
  cases rest with
  | nil => rfl
  | cons t ts =>
    have ht : t.isEnd = true := h
    simp [synchronized, advanced, skipToBoundary, ht]

/-- After the token at which it starts, recovery only passes tokens. -/
theorem Cursor.moves_synchronized (c : Cursor) : Moves c.advanced c.synchronized :=
  ⟨skipToBoundary_passed _ _, rfl, List.prefix_rfl⟩

namespace Parser

/-- A declaration that fails moves on, unless nothing is left where it starts. -/
theorem steady_recovering {p : Parser Stmt} (hp : Steady k true c (p c)) :
    Steady k (!c.atEnd) c (recovering p c) := by
  unfold recovering
  match hr : p c with
  | .ok s d =>
    rw [hr] at hp
    exact ⟨hp.1, fun _ => hp.2 rfl⟩
  | .error .stalled d =>
    rw [hr] at hp
    exact hp
  | .error .failed d =>
    rw [hr] at hp
    have hsync := (moves_advanced d).trans d.moves_synchronized
    refine ⟨hp.1.trans hsync, fun h => ?_⟩
    have hle := hp.1.left_le
    have hc : c.advanced.left + 1 = c.left := left_advanced (by simpa using h)
    -- if it failed at the end of the text, it passed all the tokens there were
    cases hd : d.atEnd with
    | true => have := left_eq_zero hd; have := hsync.left_le; omega
    | false => have := left_advanced hd; have := d.moves_synchronized.left_le; omega

/-- Whoever recovers does not fail. -/
theorem recovering_ne_failed (p : Parser Stmt) (c d : Cursor) :
    recovering p c ≠ .error .failed d := by
  unfold recovering
  intro h
  split at h
  · cases h
  · cases h
  · cases h

/-- What a declaration reads. If that fails, the declaration is left out. -/
def declarationBody (n : Nat) (statement : Parser Stmt) (block : Parser (List Stmt)) :
    Parser Stmt := do
  let next ← peek
  if next.is .funWord then
    let _ ← advance
    functionDeclaration n block
  else if next.is .varWord then
    let _ ← advance
    varDeclaration n
  else
    statementOf n statement block

theorem declarationOf_eq (n : Nat) (statement : Parser Stmt) (block : Parser (List Stmt)) :
    declarationOf n statement block = recovering (declarationBody n statement block) := rfl

/-- What a declaration reads passes a token. -/
theorem steady_declarationBody {statement : Parser Stmt} {block : Parser (List Stmt)}
    (hst : ∀ d, d.Ended → Steady (n - 2) true d (statement d))
    (hblock : ∀ d, d.Ended → Steady (n - 2) true d (block d)) (hc : c.Ended) :
    Steady (n - 1) true c (declarationBody n statement block c) := by
  rw [declarationBody, peek_bind]
  split
  · next h =>
    refine (steady_advance_of_not_end hc (Token.isEnd_of_is h)).pass hc fun _ d hd => ?_
    exact (steady_functionDeclaration (Nat.sub_le n 2) hblock hd).weaken
  split
  · next h =>
    refine (steady_advance_of_not_end hc (Token.isEnd_of_is h)).pass hc fun _ d hd => ?_
    exact ((steady_varDeclaration hd).mono (by omega) id).weaken
  · exact steady_statementOf hst hblock hc

/-- Read or left out, a declaration moves on. -/
theorem steady_declarationOf {statement : Parser Stmt} {block : Parser (List Stmt)}
    (hst : ∀ d, d.Ended → Steady (n - 2) true d (statement d))
    (hblock : ∀ d, d.Ended → Steady (n - 2) true d (block d)) (hc : c.Ended) :
    Steady (n - 1) (!c.atEnd) c (declarationOf n statement block c) := by
  rw [declarationOf_eq]
  exact steady_recovering (steady_declarationBody hst hblock hc)

/-- Statements and declarations are steady, with two steps to spare. -/
theorem steady_statement_and_declaration : ∀ n : Nat,
    (∀ c, c.Ended → Steady (n - 2) true c (statement n c)) ∧
    (∀ c, c.Ended → Steady (n - 2) (!c.atEnd) c (declaration n c))
  | 0 => by
    refine ⟨fun c _ => ?_, fun c _ => ?_⟩
    · rw [statement]
      exact steady_stall
    · rw [declaration]
      exact steady_stall
  | n + 1 => by
    obtain ⟨hst, hdecl⟩ := steady_statement_and_declaration n
    -- the declarations of a block are not at the end of the text, so each passes a token
    have hblock : ∀ c, c.Ended → Steady (n - 2) true c (blockTail (declaration n) n c) := by
      intro c hc
      refine steady_blockTail (fun d hd hne => ?_) n (n - 2) c (Nat.sub_le n 2) (Nat.le_refl _) hc
      exact (hdecl d hd).mono (Nat.le_refl _) fun _ => by simp [hne]
    refine ⟨fun c hc => ?_, fun c hc => ?_⟩
    · rw [statement]
      exact steady_statementOf hst hblock hc
    · rw [declaration]
      exact steady_declarationOf hst hblock hc

theorem steady_statement (n : Nat) (hc : c.Ended) : Steady (n - 2) true c (statement n c) :=
  (steady_statement_and_declaration n).1 c hc

theorem steady_declaration (n : Nat) (hc : c.Ended) :
    Steady (n - 2) (!c.atEnd) c (declaration n c) :=
  (steady_statement_and_declaration n).2 c hc

/-- A declaration that starts before the end of the text passes a token. -/
theorem steady_declaration_of_not_end (n : Nat) (hc : c.Ended) (h : c.atEnd = false) :
    Steady (n - 2) true c (declaration n c) :=
  (steady_declaration n hc).mono (Nat.le_refl _) fun _ => by simp [h]

/-- The loop has `m` steps for the declarations, each of which has `n`. -/
theorem steady_block (n m : Nat) (hc : c.Ended) :
    Steady (min m (n - 2)) true c (blockTail (declaration n) m c) :=
  steady_blockTail (fun _ hd hne => steady_declaration_of_not_end n hd hne) m _ c
    (Nat.min_le_left ..) (Nat.min_le_right ..) hc

/-! ### Programs -/

/-- A program has enough steps if it has one for each token, as its declarations have. -/
theorem steady_program (n : Nat) : ∀ (m j : Nat) (c : Cursor), j ≤ m → j ≤ n - 2 → c.Ended →
    Steady j false c (program (declaration n) m c)
  | 0, _, _, hm, _, _ => steady_stall.mono hm id
  | m + 1, j, c, hm, hn, hc => by
    rw [program, atEnd_bind]
    split
    · exact .pure []
    · next h =>
      rw [Bool.not_eq_true] at h
      -- the first declaration passes a token, so the others need a step less
      have hfirst := (steady_declaration_of_not_end n hc h).mono hn id
      refine (hfirst.pass hc fun first d hd => ?_).weaken
      exact (steady_program n m (j - 1) d (by omega) (by omega) hd).bind hd fun _ _ _ => .pure _

theorem declaration_ne_failed (n : Nat) (c d : Cursor) : declaration n c ≠ .error .failed d := by
  intro h
  cases n with
  | zero => rw [declaration] at h; cases h
  | succ n => rw [declaration] at h; exact recovering_ne_failed _ c d h

/-- A program is read up to the end of the text, or not at all for lack of steps. -/
theorem program_reaches_end (n : Nat) : ∀ (m : Nat) (c : Cursor),
    (∃ ss d, program (declaration n) m c = .ok ss d ∧ d.atEnd = true) ∨
    (∃ d, program (declaration n) m c = .error .stalled d)
  | 0, c => .inr ⟨c, rfl⟩
  | m + 1, c => by
    rw [program, atEnd_bind]
    split
    · next h => exact .inl ⟨[], c, rfl, h⟩
    · cases hd : declaration n c with
      | error halt d =>
        cases halt with
        | failed => exact absurd hd (declaration_ne_failed n c d)
        | stalled => exact .inr ⟨d, bind_of_error hd _⟩
      | ok first d =>
        rw [bind_of_ok hd]
        rcases program_reaches_end n m d with ⟨ss, e, hm, he⟩ | ⟨e, hm⟩
        · exact .inl ⟨_, e, bind_of_ok hm _, he⟩
        · exact .inr ⟨e, bind_of_error hm _⟩

end Parser

end Lox
