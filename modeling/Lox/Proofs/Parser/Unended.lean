import Lox.Proofs.Parser.LastToken
import Lox.Proofs.Parser.Place
import Lox.Proofs.Parser.Steps

/-!
Lists without a mark for their end. Such a list says what it says with a mark after it, with the
errors at the mark reported at its last token, except if an operand is wanted at the mark and the
last token asks for one. Then reading the list never ends, however many steps are granted.
-/

namespace Lox

open Cursor

/-- A statement is read after the token, and nothing else. -/
def Token.HeadsStatement (t : Token) : Prop := t.is .rightParen = true ∨ t.is .elseWord = true

theorem Token.HeadsStatement.not_is {t : Token} {s : Symbol} (h : t.HeadsStatement)
    (hparen : .rightParen ≠ s) (helse : .elseWord ≠ s) : t.is s = false := by
  rcases h with h | h
  · exact not_is_of_is h hparen
  · exact not_is_of_is h helse

theorem Token.HeadsStatement.noOperand {t : Token} (h : t.HeadsStatement) : t.NoOperand := by
  rcases h with h | h
  · exact noOperand_of_is h rfl
  · exact noOperand_of_is h rfl

/-! ### Recovery -/

theorem skipToBoundary_append {mark : Token} (hmark : mark.isEnd = true) :
    ∀ (ts : List Token) (previous : Token), skipToBoundary previous (ts ++ [mark]) =
      ((skipToBoundary previous ts).1, (skipToBoundary previous ts).2 ++ [mark])
  | [], previous => by simp [skipToBoundary, hmark]
  | t :: ts, previous => by
    rw [List.cons_append, skipToBoundary, skipToBoundary]
    split
    · rfl
    · exact skipToBoundary_append hmark ts t

namespace Cursor

variable {last mark : Token} {P : Prop} {c d : Cursor}

theorem Abreast.synchronized (h : Abreast last mark P c d) :
    Abreast last mark True c.synchronized d.synchronized := by
  rcases h.left_or_out with hleft | ⟨hrest, -⟩
  · have hadvanced := hleft.advanced
    obtain ⟨us, hus, -, hprevious⟩ := skipToBoundary_passed c.advanced.rest c.advanced.previous
    have hskip : d.synchronized.rest = c.synchronized.rest ++ [mark] ∧
        d.synchronized.previous = c.synchronized.previous := by
      simp only [Cursor.synchronized, hadvanced.rest, hadvanced.previous,
        skipToBoundary_append h.isEnd, and_self]
    have hlast := hadvanced.getLastD
    rw [hus, getLastD_append, ← hprevious] at hlast
    have hnoEnd := hadvanced.noEnd
    rw [hus, List.forall_mem_append] at hnoEnd
    exact ⟨h.isEnd, hskip.1, hskip.2, hadvanced.depth, hnoEnd.2, hlast, hadvanced.errors,
      hadvanced.operand, fun _ => trivial⟩
  · have hc := atEnd_of_nil hrest
    rw [synchronized_of_atEnd hc, synchronized_of_atEnd (h.atEnd.trans hc)]
    exact h.mono fun _ => trivial

end Cursor

namespace Parser

variable {α : Type} {last mark : Token} {P : Prop} {c d : Cursor}

/-- As `Outcome`, for readers that never fail: beside a reader that is stuck, the other one has an
answer. -/
inductive Recovered (last mark : Token) :
    EStateM.Result Halt Cursor α → EStateM.Result Halt Cursor α → Prop
  | ok {a : α} {c d : Cursor} : Abreast last mark True c d →
    Recovered last mark (.ok a c) (.ok a d)
  | stalled {c d : Cursor} : Recovered last mark (.error .stalled c) (.error .stalled d)
  | stuck {a : α} {c d : Cursor} : Wants last mark d →
    Recovered last mark (.error .stalled c) (.ok a d)

theorem Outcome.recovering {p : Parser Stmt} {Q : Prop} (h : Outcome last mark Q (p c) (p d)) :
    Recovered last mark (recovering p c) (recovering p d) := by
  unfold Parser.recovering
  generalize p c = r at h
  generalize p d = r' at h
  cases h with
  | ok h => exact .ok (h.mono fun _ => trivial)
  | failed h => exact .ok h.synchronized
  | stalled => exact .stalled
  | stuck h =>
    dsimp only
    rw [synchronized_of_atEnd h.atEnd]
    exact .stuck h

/-! ### Statements -/

/-- An expression after a symbol that is no operand. -/
theorem tracks_expression_after {s : Symbol} (hs : (Kind.symbol s).literal? = none) (n : Nat) :
    Tracks last mark (last.is s = true) last.EndsOperand (expression n) :=
  (tracks_expression n).after fun h => Token.noOperand_of_is h hs

theorem tracks_terminated (n : Nat) {fault : ParseFault} (hfault : fault ≠ .expression) :
    Tracks last mark last.NoOperand (last.is .semicolon = true) (terminated n fault) :=
  (tracks_expression n).bind fun value => (tracks_expect .semicolon hfault).bind fun _ =>
    tracks_pure value

theorem tracks_varDeclaration (n : Nat) :
    Tracks last mark P (last.is .semicolon = true) (varDeclaration n) := by
  refine (tracks_expectName (by decide)).bind fun name => ?_
  refine (tracks_expression_after (s := .equal) rfl n).ifTaken.bind fun initial => ?_
  exact (tracks_expect .semicolon (by decide)).bind fun _ => tracks_pure _

theorem tracks_expressionStatement (n : Nat) :
    Tracks last mark last.NoOperand (last.is .semicolon = true) (expressionStatement n) :=
  (tracks_terminated n (by decide)).bind fun _ => tracks_pure _

theorem tracks_printStatement (n : Nat) :
    Tracks last mark last.NoOperand (last.is .semicolon = true) (printStatement n) :=
  (tracks_terminated n (by decide)).bind fun _ => tracks_pure _

theorem tracks_returnStatement (n : Nat) {keyword : Token} (hword : keyword.isEnd = false) :
    Tracks last mark last.NoOperand (last.is .semicolon = true) (returnStatement n keyword) := by
  intro c d hs
  rw [returnStatement, get_bind, get_bind, hs.depth]
  refine Tracks.bind (tracks_reportIf _ hword _) (fun _ => ?_) c d hs
  refine (((tracks_expression n).map some).unlessSeen .semicolon none).bind fun value => ?_
  exact (tracks_expect .semicolon (by decide)).bind fun _ => tracks_pure _

theorem tracks_condition (n : Nat) {opening closing : ParseFault} (ho : opening ≠ .expression)
    (hc : closing ≠ .expression) :
    Tracks last mark P (last.is .rightParen = true) (condition n opening closing) := by
  refine (tracks_expect .leftParen ho).bind fun _ => ?_
  refine (tracks_expression_after rfl n).bind fun value => ?_
  exact (tracks_expect .rightParen hc).bind fun _ => tracks_pure value

theorem tracks_forInitial (n : Nat) :
    Tracks last mark (last.is .leftParen = true) (last.is .semicolon = true) (forInitial n) := by
  have hclause : Tracks last mark (last.is .leftParen = true) (last.is .semicolon = true)
      (some <$> expressionStatement n) :=
    ((tracks_expressionStatement n).map some).after fun hparen => Token.noOperand_of_is hparen rfl
  refine tracks_peek (fun c d hs => ?_) (fun hlast => ?_) (fun hmark => ?_) hclause
  · split
    · next hsemi => exact outcome_advance hs ((tracks_pure none).mono id fun heq => heq ▸ hsemi)
    split
    · exact outcome_advance hs ((tracks_varDeclaration n).map some)
    · exact hclause.after False.elim c d hs
  · rw [Token.not_is_of_is hlast (by decide), Token.not_is_of_is hlast (by decide),
      if_neg Bool.false_ne_true, if_neg Bool.false_ne_true]
  · rw [Token.not_is_of_isEnd hmark, Token.not_is_of_isEnd hmark, if_neg Bool.false_ne_true,
      if_neg Bool.false_ne_true]

section

variable {n : Nat} {statement : Parser Stmt} {block : Parser (List Stmt)}
  (h : Tracks last mark last.HeadsStatement True statement)
  (hblock : Tracks last mark True True block)

include h

theorem tracks_whileStatement : Tracks last mark P True (whileStatement n statement) := by
  refine (tracks_condition n (by decide) (by decide)).bind fun test => ?_
  exact (h.after Or.inl).bind fun body => tracks_pure _

theorem tracks_ifStatement : Tracks last mark P True (ifStatement n statement) := by
  refine (tracks_condition n (by decide) (by decide)).bind fun test => ?_
  refine (h.after Or.inl).bind fun thenBranch => ?_
  exact tracks_take ((h.after Or.inr).bind fun elseBranch => tracks_pure _) (tracks_pure _)

theorem tracks_forStatement : Tracks last mark P True (forStatement n statement) := by
  refine (tracks_expect .leftParen (by decide)).bind fun _ => ?_
  refine (tracks_forInitial n).bind fun initial => ?_
  refine ((tracks_expression_after rfl n).unlessSeen .semicolon _).bind fun test => ?_
  refine (tracks_expect .semicolon (by decide)).bind fun _ => ?_
  refine (((tracks_expression_after rfl n).map some).unlessSeen .rightParen none).bind
    fun increment => ?_
  refine (tracks_expect .rightParen (by decide)).bind fun _ => ?_
  exact (h.after Or.inl).bind fun body => tracks_pure _

include hblock

theorem tracks_statementOf :
    Tracks last mark last.HeadsStatement True (statementOf n statement block) := by
  have hexpression : Tracks last mark last.HeadsStatement True (expressionStatement n) :=
    (tracks_expressionStatement n).mono (fun hlast => hlast.noOperand) fun _ => trivial
  refine tracks_peek (fun c d hs => ?_) (fun hlast => ?_) (fun hmark => ?_) hexpression
  · split
    · exact outcome_advance hs (tracks_forStatement h)
    split
    · exact outcome_advance hs (tracks_ifStatement h)
    split
    · next hword =>
      refine outcome_advance hs ((tracks_printStatement n).mono (fun heq => ?_) fun _ => trivial)
      exact Token.noOperand_of_is (heq ▸ hword) rfl
    split
    · next hword =>
      have hreturn : Tracks last mark last.NoOperand (last.is .semicolon = true)
          (returnStatement n c.peek) := tracks_returnStatement n (Token.isEnd_of_is hword)
      refine outcome_advance hs (hreturn.mono (fun heq => ?_) fun _ => trivial)
      exact Token.noOperand_of_is (heq ▸ hword) rfl
    split
    · exact outcome_advance hs (tracks_whileStatement h)
    split
    · refine outcome_advance hs ((hblock.after fun _ => trivial).bind fun body => ?_)
      exact tracks_pure _
    · exact hexpression.after False.elim c d hs
  · -- neither token that heads a statement begins one
    simp only [hlast.not_is (s := .forWord) (by decide) (by decide),
      hlast.not_is (s := .ifWord) (by decide) (by decide),
      hlast.not_is (s := .printWord) (by decide) (by decide),
      hlast.not_is (s := .returnWord) (by decide) (by decide),
      hlast.not_is (s := .whileWord) (by decide) (by decide),
      hlast.not_is (s := .leftBrace) (by decide) (by decide), Bool.false_eq_true, if_false]
  · simp only [Token.not_is_of_isEnd hmark, Bool.false_eq_true, if_false]

omit h

theorem tracks_functionDeclaration : Tracks last mark P True (functionDeclaration n block) := by
  refine (tracks_expectName (by decide)).bind fun name => ?_
  refine (tracks_expect .leftParen (by decide)).bind fun _ => ?_
  have hname : Tracks last mark last.NoOperand last.EndsOperand (expectName .parameterName) :=
    tracks_expectName (by decide)
  refine (tracks_items hname (by decide) n).bind fun params => ?_
  refine (tracks_expect .rightParen (by decide)).bind fun _ => ?_
  refine (tracks_expect .leftBrace (by decide)).bind fun _ => ?_
  exact hblock.nested.bind fun body => tracks_pure _

include h

/-- A declaration of which a token is left. -/
theorem tracks_declarationBody :
    Tracks last mark False True (declarationBody n statement block) := by
  intro c d hs
  rw [declarationBody, peek_bind, peek_bind, hs.peek.1]
  split
  · exact outcome_advance hs (tracks_functionDeclaration hblock)
  split
  · exact outcome_advance hs ((tracks_varDeclaration n).mono id fun _ => trivial)
  · exact (tracks_statementOf h hblock).after False.elim c d hs

end

/-! ### Declarations one after the other -/

/-- Beside a declaration that is stuck, a block is given up at the mark for lack of a brace. -/
theorem tracks_blockTail {reader : Parser (Option Stmt)}
    (h : ∀ c d, Abreast last mark False c d → Recovered last mark (reader c) (reader d)) :
    ∀ n, Tracks last mark True True (blockTail reader n)
  | 0 => tracks_stall
  | n + 1 => by
    intro c d hs
    have hclosing : Tracks last mark True True (do
        let _ ← expect .rightBrace .braceAfterBlock
        return ([] : List Stmt)) :=
      (tracks_expect .rightBrace (by decide)).bind fun _ =>
        (tracks_pure []).mono id fun _ => trivial
    rw [blockTail, atEnd_bind, atEnd_bind, sees_bind, sees_bind, hs.sees, hs.atEnd]
    split
    · exact hclosing c d hs
    · next hstop =>
      simp only [Bool.or_eq_true, not_or, Bool.not_eq_true] at hstop
      have hfirst := h c d (hs.of_not_atEnd hstop.1)
      generalize hc : reader c = r at hfirst
      generalize hd : reader d = r' at hfirst
      cases hfirst with
      | ok hde =>
        rw [bind_of_ok hc, bind_of_ok hd]
        exact (tracks_blockTail h n).bind (fun _ => tracks_pure _) _ _ hde
      | stalled =>
        rw [bind_of_error hc, bind_of_error hd]
        exact .stalled
      | @stuck _ _ e hwants =>
        rw [bind_of_error hc, bind_of_ok hd]
        cases n with
        | zero => exact .stalled
        | succ n =>
          have hnone : e.sees .rightBrace = false := by rw [Cursor.sees, hwants.atEnd]; rfl
          have hexpect := expect_apply .rightBrace .braceAfterBlock e
          rw [hnone, if_neg Bool.false_ne_true] at hexpect
          have hgiven : blockTail reader (n + 1) e =
              .error .failed (e.report e.peek .braceAfterBlock) := by
            rw [blockTail, atEnd_bind, sees_bind, hwants.atEnd, Bool.true_or, if_pos rfl]
            exact bind_of_error hexpect _
          rw [bind_of_error hgiven]
          exact .stuck ⟨hwants.isEnd, hwants.opens, hwants.rest,
            List.mem_append_left _ hwants.error⟩

theorem tracks_statement_and_declaration : ∀ n,
    Tracks last mark last.HeadsStatement True (statement n) ∧
    ∀ c d, Abreast last mark False c d → Recovered last mark (declaration n c) (declaration n d)
  | 0 => by
    rw [statement, declaration]
    exact ⟨tracks_stall, fun _ _ _ => .stalled⟩
  | n + 1 => by
    obtain ⟨hs, hd⟩ := tracks_statement_and_declaration n
    have hblock := tracks_blockTail hd n
    rw [statement, declaration, declarationOf_eq]
    exact ⟨tracks_statementOf hs hblock, fun c d hcd =>
      (tracks_declarationBody hs hblock c d hcd).recovering⟩

/-- Beside a declaration that is stuck, the program ends at the mark. -/
theorem recovered_program (n : Nat) : ∀ m c d, Abreast last mark True c d →
    Recovered last mark (program (declaration n) m c) (program (declaration n) m d)
  | 0, _, _, _ => .stalled
  | m + 1, c, d, hs => by
    rw [program, atEnd_bind, atEnd_bind, hs.atEnd]
    cases hend : c.atEnd with
    | true => exact .ok hs
    | false =>
      rw [if_neg Bool.false_ne_true]
      have hfirst := (tracks_statement_and_declaration n).2 c d (hs.of_not_atEnd hend)
      generalize hc : declaration n c = r at hfirst
      generalize hd : declaration n d = r' at hfirst
      cases hfirst with
      | @ok _ c' d' hcd =>
        rw [bind_of_ok hc, bind_of_ok hd]
        have hothers := recovered_program n m c' d' hcd
        generalize hc' : program (declaration n) m c' = s at hothers
        generalize hd' : program (declaration n) m d' = s' at hothers
        cases hothers with
        | ok hde =>
          rw [bind_of_ok hc', bind_of_ok hd']
          exact .ok hde
        | stalled =>
          rw [bind_of_error hc', bind_of_error hd']
          exact .stalled
        | stuck hwants =>
          rw [bind_of_error hc', bind_of_ok hd']
          exact .stuck hwants
      | stalled =>
        rw [bind_of_error hc, bind_of_error hd]
        exact .stalled
      | @stuck _ _ e hwants =>
        rw [bind_of_error hc, bind_of_ok hd]
        cases m with
        | zero => exact .stalled
        | succ m =>
          -- at the mark the program ends, so the other reader has an answer
          have hrest : program (declaration n) (m + 1) e = .ok [] e := by
            rw [program, atEnd_bind, hwants.atEnd, if_pos rfl]
            rfl
          rw [bind_of_ok hrest]
          exact .stuck hwants

/-! ### Lists without a mark -/

/-- If the list with a mark is read with an operand wanted at the mark, then without the mark it is
not read in any number of steps. -/
theorem program_ne_ok {n m : Nat} {ss : List Stmt} {e : Cursor}
    (hs : Abreast last mark True c d) (hrun : program (declaration n) m d = .ok ss e)
    (hwants : Wants last mark e) (n' m' : Nat) (us : List Stmt) (c' : Cursor) :
    program (declaration n') m' c ≠ .ok us c' := by
  intro hrun'
  have hrecovered := recovered_program n' m' c d hs
  rw [hrun'] at hrecovered
  generalize hright : program (declaration n') m' d = r at hrecovered
  -- both readings of the list with the mark end, so they are the same
  cases hrecovered with
  | ok hde =>
    have hmem : mark ∈ d.rest := by
      rw [hs.rest]
      exact List.mem_append_right _ List.mem_cons_self
    have hended : d.Ended := ⟨mark, hmem, hs.isEnd⟩
    have herror := hwants.error
    rw [(program_result_unique hrun hright hended).2] at herror
    exact hde.operand hwants.opens _ herror hwants.isEnd rfl

section

variable {t : Token} {us : List Token} (hmark : mark.isEnd = true)
  (hts : ∀ u ∈ t :: us, u.isEnd = false)

include hmark hts

/-- At the start of both lists. -/
theorem abreast_start (hlast : (t :: us).getLast? = some last) :
    Abreast last mark True { previous := t, rest := t :: us }
      { previous := t, rest := t :: us ++ [mark] } := by
  refine ⟨hmark, rfl, rfl, rfl, hts, ?_, rfl, by simp, fun _ => trivial⟩
  rw [List.getLastD_eq_getLast?, hlast]
  rfl

/-- The steps that are granted without the mark are enough for the list with it. -/
theorem exists_run_marked :
    ∃ ss e, program (declaration (parseSteps (t :: us).length)) (parseSteps (t :: us).length)
        { previous := t, rest := t :: us ++ [mark] } = .ok ss e ∧
      parse (t :: us ++ [mark]) = some ⟨ss, e.errors⟩ := by
  have hend : ∃ u ∈ t :: us ++ [mark], u.isEnd = true := ⟨mark, by simp, hmark⟩
  have hindex : endIndex (t :: us ++ [mark]) = (t :: us).length := endIndex_append hts hmark
  obtain ⟨ss, e, hrun, -⟩ := program_ends hend (at_start t (us ++ [mark]))
    (n := parseSteps (t :: us).length) (by rw [hindex, parseSteps]; omega)
  have hsteps : parseSteps (t :: us).length ≤ parseSteps (t :: us ++ [mark]).length := by
    simp [parseSteps]
  obtain ⟨e', hrun', hee⟩ :=
    program_of_more_steps hrun ⟨hend, rfl, rfl, rfl⟩ hsteps hsteps
  refine ⟨ss, e, hrun, ?_⟩
  rw [← hee.errors]
  rw [List.cons_append] at hrun' ⊢
  rw [parse, hrun']

end

/-- A list without an end, beside the same list with a mark for its end after it, which is always
read.

* Reading the list does not end, in any number of steps, just if its last token asks for an operand,
  as `!`, `-` and `(` do, and an operand is wanted at the mark.
* If it ends, the statements are the same, and so are the errors and their messages, but those at
  the mark are reported at the last token. -/
theorem parse_without_end (ts : List Token) (last mark : Token)
    (hts : ∀ t ∈ ts, t.isEnd = false) (hlast : ts.getLast? = some last)
    (hmark : mark.isEnd = true) :
    ∃ q, parse (ts ++ [mark]) = some q ∧
      (parse ts = none ↔ last.opens = true ∧
        ∃ e ∈ q.errors, e.token.isEnd = true ∧ e.fault = .expression) ∧
      (parse ts = none → ∀ t, ts.head? = some t → ∀ n m ss c,
        program (declaration n) m { previous := t, rest := ts } ≠ .ok ss c) ∧
      ∀ p, parse ts = some p → p.statements = q.statements ∧
        p.errors = q.errors.map (ParseError.atLast last) ∧
        p.errors.map (·.fault.message) = q.errors.map (·.fault.message) := by
  have hne : ts ≠ [] := List.ne_nil_of_mem (List.mem_of_getLast? hlast)
  obtain ⟨t, us, rfl⟩ := List.exists_cons_of_ne_nil hne
  have hstart := abreast_start hmark hts hlast
  obtain ⟨ss, e, hrun, hparse⟩ := exists_run_marked hmark hts
  refine ⟨⟨ss, e.errors⟩, hparse, ?_⟩
  have hrecovered :=
    recovered_program (parseSteps (t :: us).length) (parseSteps (t :: us).length) _ _ hstart
  rw [hrun] at hrecovered
  generalize hleft : program (declaration (parseSteps (t :: us).length))
    (parseSteps (t :: us).length) ⟨t, t :: us, 0, []⟩ = r at hrecovered
  -- without the mark the list is read alike, or the reader is stuck at its last token
  cases hrecovered with
  | @ok _ c _ hce =>
    have hread : parse (t :: us) = some ⟨ss, c.errors⟩ := by rw [parse, hleft]
    refine ⟨⟨fun hnone => ?_, ?_⟩, fun hnone => ?_, fun p hp => ?_⟩
    · rw [hread] at hnone
      cases hnone
    · rintro ⟨hopens, e, he, hisEnd, hfault⟩
      exact absurd hfault (hce.operand hopens e he hisEnd)
    · rw [hread] at hnone
      cases hnone
    · rw [hread, Option.some.injEq] at hp
      subst hp
      exact ⟨rfl, hce.errors, by simp [hce.errors]⟩
  | stuck hwants =>
    have hnone : parse (t :: us) = none := by rw [parse, hleft]
    refine ⟨⟨fun _ => ⟨hwants.opens, _, hwants.error, hmark, rfl⟩, fun _ => hnone⟩, ?_, ?_⟩
    · rintro - u hu n m
      obtain rfl : t = u := Option.some.inj hu
      exact program_ne_ok hstart hrun hwants n m
    · intro p hp
      rw [hnone] at hp
      cases hp

/-- A statement that lacks its semicolon. -/
def openStatement : List Token := [⟨.symbol .printWord, "print", 1⟩, ⟨.identifier, "x", 1⟩]

/-- The error is reported at the last token. -/
theorem parse_without_end_openStatement :
    (∀ t ∈ openStatement, t.isEnd = false) ∧
    ∃ p, parse openStatement = some p ∧
      p.errors = [⟨⟨.identifier, "x", 1⟩, .semicolonAfterValue⟩] := by
  have hts : ∀ t ∈ openStatement, t.isEnd = false := by
    simp [openStatement, Token.isEnd, Kind.isEnd]
  obtain ⟨q, hq, -, -, hsame⟩ :=
    parse_without_end openStatement ⟨.identifier, "x", 1⟩ ⟨.endOfText, "", 1⟩ hts rfl rfl
  have heval : parse (openStatement ++ [⟨.endOfText, "", 1⟩]) = some _ := rfl
  rw [heval, Option.some.injEq] at hq
  subst hq
  have hparse : parse openStatement = some _ := rfl
  exact ⟨hts, _, hparse, (hsame _ hparse).2.1⟩

/-- An operator in front of an operand. -/
def loneOperator : Token := ⟨.symbol .bang, "!", 1⟩

/-- If it is all there is, then with a mark after it the list is read, with one error at the mark;
without one, reading it does not end. -/
theorem program_ne_ok_loneOperator :
    parse [loneOperator, ⟨.endOfText, "", 1⟩] =
      some ⟨[], [⟨⟨.endOfText, "", 1⟩, .expression⟩]⟩ ∧
    parse [loneOperator] = none ∧
    ∀ n m ss c, program (declaration n) m { previous := loneOperator, rest := [loneOperator] } ≠
      .ok ss c := by
  have hstart : Abreast loneOperator ⟨.endOfText, "", 1⟩ True
      { previous := loneOperator, rest := [loneOperator] }
      { previous := loneOperator, rest := [loneOperator, ⟨.endOfText, "", 1⟩] } :=
    abreast_start rfl (by simp [loneOperator, Token.isEnd, Kind.isEnd]) rfl
  have hrun : program (declaration 6) 6
      { previous := loneOperator, rest := [loneOperator, ⟨.endOfText, "", 1⟩] } = .ok [] _ := rfl
  exact ⟨rfl, rfl, program_ne_ok hstart hrun ⟨rfl, rfl, rfl, List.mem_cons_self⟩⟩

end Parser

end Lox
