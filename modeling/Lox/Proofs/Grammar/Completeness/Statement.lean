import Lox.Proofs.Grammar.Completeness.Expression

/-!
Every program of the lenient grammar is read as its tree, and its errors are reported. A statement
that ends with a branch without `else` is read to its end only if no `else` comes next; every other
statement is, whatever comes next. A declaration never begins with `else`, so declarations one after
the other are all read.
-/

namespace Lox

open Lox.Parser

namespace Grammar

variable {n d : Nat} {P : Token → Prop} {ts us : List Token} {e : Expr} {es fs : List ParseError}

/-! ### How a declaration begins -/

/-- The token can begin a declaration. -/
structure Begins (t : Token) : Prop where
  notEnd : t.isEnd = false
  notElse : t.is .elseWord = false
  notBrace : t.is .rightBrace = false

/-- Neither `else` nor a closing brace begins a declaration. -/
theorem begins_of_is {t : Token} {s : Symbol} (h : t.is s = true) (helse : s ≠ .elseWord)
    (hbrace : s ≠ .rightBrace) : Begins t :=
  ⟨Token.isEnd_of_is h, Token.not_is_of_is h helse, Token.not_is_of_is h hbrace⟩

theorem Starts.isEnd {t : Token} (h : Starts t) : t.isEnd = false := by
  rcases h with h | h | h
  · obtain ⟨v, hv⟩ := Option.isSome_iff_exists.1 h
    exact Token.isEnd_of_literal hv
  · exact Token.isEnd_of_isIdentifier h
  · obtain ⟨s, -, hs⟩ := List.any_eq_true.1 h
    exact Token.isEnd_of_is hs

theorem Starts.begins {t : Token} (h : Starts t) : Begins t :=
  ⟨h.isEnd, h.not_is rfl, h.not_is rfl⟩

/-- A statement begins with no word of a declaration. -/
theorem Lenient.Statement.head {rule : ElseRule} {inside : Bool} {ending : Ending} {s : Stmt}
    (h : Lenient.Statement rule inside ending ts s es) :
    ∃ t us, ts = t :: us ∧ Begins t ∧ t.is .funWord = false ∧ t.is .varWord = false := by
  cases h with
  | expression h _ =>
    obtain ⟨t, us, rfl, ht⟩ := h.head
    exact ⟨t, _, rfl, ht.begins, ht.not_is rfl, ht.not_is rfl⟩
  | print hw _ _ | returns hw _ _ | block hw _ _ | whileDo hw _ _ _ _ | forDo hw _ _ _ _ _ _ _
  | ifThen hw _ _ _ _ | ifElse hw _ _ _ _ _ _ _ =>
    exact ⟨_, _, rfl, begins_of_is hw (by decide) (by decide), Token.not_is_of_is hw (by decide),
      Token.not_is_of_is hw (by decide)⟩

theorem Lenient.Variable.head {s : Stmt} (h : Lenient.Variable ts s es) :
    ∃ word us, ts = word :: us ∧ word.is .varWord = true := by
  obtain ⟨hw, _, _, _⟩ := h
  exact ⟨_, _, rfl, hw⟩

/-- Every declaration has a first token, by which the reader knows that one follows. -/
theorem Lenient.Declaration.head {rule : ElseRule} {inside : Bool} {s : Stmt}
    (h : Lenient.Declaration rule inside ts s es) : ∃ t us, ts = t :: us ∧ Begins t := by
  cases h with
  | function hw _ _ _ _ _ _ _ => exact ⟨_, _, rfl, begins_of_is hw (by decide) (by decide)⟩
  | var h =>
    obtain ⟨word, us, rfl, hw⟩ := h.head
    exact ⟨word, us, rfl, begins_of_is hw (by decide) (by decide)⟩
  | statement h =>
    obtain ⟨t, us, rfl, ht, -⟩ := h.head
    exact ⟨t, us, rfl, ht⟩

/-- A program that is not empty begins with a token that is neither a brace nor `else`. -/
theorem Lenient.Declarations.head {rule : ElseRule} {inside : Bool} {ss : List Stmt}
    (h : Lenient.Declarations rule inside ts ss es) {t : Token} (hts : ts = t :: us) :
    Begins t := by
  cases h with
  | nil => cases hts
  | cons h _ =>
    obtain ⟨t', us', rfl, ht'⟩ := h.head
    cases hts
    exact ht'

/-! ### Clauses -/

/-- The semicolon ends the expression. -/
theorem passes_terminated {semicolon : Token} (h : Lenient.Phrase .expression ts e es)
    (hsemi : semicolon.is .semicolon = true) (hn : ts.length < n) (fault : ParseFault) :
    Passes d P (terminated n fault) (ts ++ [semicolon]) e es :=
  (h.passes hn).bind_silent (stops_of_is hsemi (by decide)) (passes_expect hsemi (.pure _))

theorem passes_expressionStatement {semicolon : Token} (h : Lenient.Phrase .expression ts e es)
    (hsemi : semicolon.is .semicolon = true) (hn : ts.length < n) :
    Passes d P (expressionStatement n) (ts ++ [semicolon]) (.expression e) es :=
  (passes_terminated h hsemi hn _).bind_nil_silent (.pure _)

/-- What may be left out is read unless the symbol after it comes at once. -/
theorem passes_optional {α : Type} {s : Symbol} {a : α} {p : Parser α} {g : Expr → α}
    {value : Option Expr} (h : Lenient.Optional ts value es) (hs : symbolStarts s = false)
    (hp : ∀ e es, Lenient.Phrase .expression ts e es →
      Passes d (fun next => next.is s = true) p ts (g e) es) :
    Passes d (fun next => next.is s = true) (unlessSeen s a p) ts (value.elim a g) es := by
  cases h with
  | none => exact passes_unlessSeen_nil (fun _ hx => hx) a p
  | some h =>
    have hpass := hp _ _ h
    obtain ⟨t, us, rfl, ht⟩ := h.head
    exact passes_unlessSeen a (ht.not_is hs) hpass

/-- The token after an expression is looked at and left. -/
theorem passes_before {s : Symbol} (h : Lenient.Phrase .expression ts e es) (hn : ts.length < n)
    (hs : s ∉ extenders .expression) :
    Passes d (fun next => next.is s = true) (expression n) ts e es :=
  (h.passes hn).mono fun _ hx => stops_of_is hx hs

theorem Option.elim_none_some {α : Type} (x : Option α) : x.elim none some = x := by
  cases x <;> rfl

/-- The value of a declaration may be left out together with its equals sign. -/
theorem passes_initializer {initial : Option Expr} (h : Lenient.Initializer ts initial es)
    (hn : ts.length ≤ n) : Passes d (fun next => next.is .semicolon = true)
      (ifTaken .equal (expression n)) ts initial es := by
  cases h with
  | none => exact passes_ifTaken_nil (fun _ hx => Token.not_is_of_is hx (by decide)) _
  | some hequals h =>
    rw [List.length_cons] at hn
    exact passes_ifTaken hequals (passes_before h hn (by decide))

theorem passes_varDeclaration {word : Token} {s : Stmt} (h : Lenient.Variable (word :: ts) s es)
    (hn : ts.length ≤ n) : Passes d P (varDeclaration n) ts s es := by
  obtain ⟨-, hname, hinit, hsemi⟩ := h
  simp only [List.length_append, List.length_cons] at hn
  refine passes_expectName hname ?_
  exact (passes_initializer hinit (by omega)).bind_silent hsemi (passes_expect hsemi (.pure _))

theorem passes_forInitial {initial : Option Stmt} (h : Lenient.ForInitial ts initial es)
    (hn : ts.length ≤ n) : Passes d P (forInitial n) ts initial es := by
  rw [forInitial]
  cases h with
  | none hsemi =>
    refine passes_peek ?_
    rw [if_pos hsemi]
    exact passes_advance (Token.isEnd_of_is hsemi) (.pure _)
  | var h =>
    obtain ⟨word, us, rfl, hw⟩ := h.head
    refine passes_peek ?_
    rw [Token.is_of_is hw, Token.is_of_is hw]
    have hpass := passes_varDeclaration (P := P) (d := d) h (n := n) (by simp at hn; omega)
    exact passes_advance (Token.isEnd_of_is hw) (hpass.map _)
  | expression h hsemi =>
    rw [List.length_append, List.length_singleton] at hn
    have hpass : Passes d P _ _ _ _ := (passes_expressionStatement h hsemi hn).map some
    obtain ⟨t, us, rfl, ht⟩ := h.head
    refine passes_peek ?_
    rw [ht.not_is rfl, ht.not_is rfl]
    exact hpass

/-- The condition of a branch or loop, and what comes after it. -/
theorem passes_condition {β : Type} {opening closing : Token} {f : Expr → Parser β} {b : β}
    {fault fault' : ParseFault} (ho : opening.is .leftParen = true)
    (h : Lenient.Phrase .expression ts e es) (hc : closing.is .rightParen = true)
    (hn : ts.length < n) (hf : Passes d P (f e) us b fs) :
    Passes d P (condition n fault fault' >>= f) (opening :: (ts ++ closing :: us)) b
      (es ++ fs) := by
  simp only [condition, bind_assoc, pure_bind]
  refine passes_expect ho ?_
  exact (h.passes hn).bind (stops_of_is hc (by decide)) (passes_expect hc hf)

/-! ### Statements -/

/-- What may come after a statement. -/
def AfterStatement (ending : Ending) (next : Token) : Prop :=
  ending = .dangling → next.is .elseWord = false

/-- Outside of functions a `return` is reported, and read all the same. -/
theorem returnErrors_eq {inside : Bool} (h : inside = decide (d ≠ 0)) (word : Token) :
    returnErrors inside word = if decide (d = 0) then [⟨word, .topLevelReturn⟩] else [] := by
  by_cases hd : d = 0
  · simp [h, hd, returnErrors]
  · simp [h, hd, returnErrors]

/-- A value that is left out is recognised by the semicolon. -/
theorem passes_returnStatement {inside : Bool} {word semicolon : Token} {value : Option Expr}
    (h : Lenient.Optional ts value es) (hsemi : semicolon.is .semicolon = true)
    (hn : ts.length < n) (hd : inside = decide (d ≠ 0)) :
    Passes d P (returnStatement n word) (ts ++ [semicolon]) (.returns word value)
      (returnErrors inside word ++ es) := by
  rw [returnErrors_eq hd]
  have hvalue : Passes d (fun next => next.is .semicolon = true)
      (unlessSeen .semicolon none (some <$> expression n)) ts (value.elim none some) es :=
    passes_optional h rfl fun _ _ h => (passes_before h hn (by decide)).map some
  rw [Option.elim_none_some] at hvalue
  -- the depth that is looked up is the depth of every cursor here
  intro previous next rest errors hnext
  rw [returnStatement, get_bind]
  refine (passes_reportIf ?_ : Passes d P _ _ _ _) previous next rest errors hnext
  exact hvalue.bind_silent hsemi (passes_expect hsemi (.pure _))

theorem passes_whileStatement {statement : Parser Stmt} {opening closing : Token} {body : Stmt}
    (ho : opening.is .leftParen = true) (h : Lenient.Phrase .expression ts e es)
    (hc : closing.is .rightParen = true) (hn : ts.length < n)
    (hs : Passes d P statement us body fs) :
    Passes d P (whileStatement n statement) (opening :: (ts ++ closing :: us)) (.whileDo e body)
      (es ++ fs) :=
  passes_condition ho h hc hn (hs.bind_nil_silent (.pure _))

/-- Without an `else` the condition is left dangling, so that no `else` may follow. -/
theorem passes_ifThen {statement : Parser Stmt} {ending : Ending} {opening closing : Token}
    {thenBranch : Stmt} (ho : opening.is .leftParen = true)
    (h : Lenient.Phrase .expression ts e es) (hc : closing.is .rightParen = true)
    (hn : ts.length < n) (hs : Passes d (AfterStatement ending) statement us thenBranch fs) :
    Passes d (AfterStatement .dangling) (ifStatement n statement)
      (opening :: (ts ++ closing :: us)) (.ifThen e thenBranch) (es ++ fs) := by
  refine passes_condition ho h hc hn ?_
  have hs' := hs.mono (Q := AfterStatement .dangling) fun _ hx _ => hx rfl
  exact hs'.bind_nil_silent (passes_not_take (fun _ hx => hx rfl) (.pure _))

/-- The first branch is closed, so that the `else` is not taken by a condition inside it. -/
theorem passes_ifElse {statement : Parser Stmt} {opening closing elseWord : Token}
    {vs : List Token} {gs : List ParseError} {thenBranch elseBranch : Stmt}
    (ho : opening.is .leftParen = true) (h : Lenient.Phrase .expression ts e es)
    (hc : closing.is .rightParen = true) (hn : ts.length < n)
    (hs : Passes d (AfterStatement .closed) statement us thenBranch fs)
    (he : elseWord.is .elseWord = true) (hs' : Passes d P statement vs elseBranch gs) :
    Passes d P (ifStatement n statement)
      (opening :: (ts ++ closing :: (us ++ elseWord :: vs))) (.ifElse e thenBranch elseBranch)
      (es ++ fs ++ gs) := by
  rw [List.append_assoc]
  refine passes_condition ho h hc hn ?_
  exact hs.bind nofun (passes_take he (hs'.bind_nil_silent (.pure _)))

/-- Each clause ends before the token that closes it. -/
theorem passes_forStatement {statement : Parser Stmt} {opening semicolon closing : Token}
    {vs ws : List Token} {gs hs : List ParseError} {initial : Option Stmt}
    {test increment : Option Expr} {body : Stmt} (ho : opening.is .leftParen = true)
    (hi : Lenient.ForInitial ts initial es) (ht : Lenient.Optional us test fs)
    (hsemi : semicolon.is .semicolon = true) (hu : Lenient.Optional vs increment gs)
    (hc : closing.is .rightParen = true)
    (hn : (ts ++ (us ++ semicolon :: (vs ++ closing :: ws))).length ≤ n)
    (hs' : Passes d P statement ws body hs) :
    Passes d P (forStatement n statement)
      (opening :: (ts ++ (us ++ semicolon :: (vs ++ closing :: ws))))
      (forTree initial test increment body) (es ++ fs ++ gs ++ hs) := by
  simp only [List.length_append, List.length_cons] at hn
  have htest : Passes d (fun next => next.is .semicolon = true)
      (unlessSeen .semicolon (.literal (.bool true)) (expression n)) us
      (test.elim (.literal (.bool true)) id) fs :=
    passes_optional ht rfl fun _ _ h => passes_before h (by omega) (by decide)
  have hincrement : Passes d (fun next => next.is .rightParen = true)
      (unlessSeen .rightParen none (some <$> expression n)) vs (increment.elim none some) gs :=
    passes_optional hu rfl fun _ _ h => (passes_before h (by omega) (by decide)).map some
  rw [Option.elim_none_some] at hincrement
  rw [forTree_eq, forStatement]
  simp only [List.append_assoc]
  refine passes_expect ho ((passes_forInitial (P := fun _ => True) hi (by omega)).bind_head
    (fun _ _ _ => trivial) (fun _ _ => trivial) ?_)
  refine htest.bind hsemi (passes_expect hsemi ?_)
  refine hincrement.bind hc (passes_expect hc ?_)
  exact hs'.bind_nil_silent (.pure _)

/-! ### Declarations -/

theorem Lenient.Separated.imp {α : Type} {Item Item' : List Token → α → List ParseError → Prop}
    {fault : ParseFault} (h : ∀ ts a es, Item ts a es → Item' ts a es) :
    ∀ {count : Nat} {ts : List Token} {as : List α} {es : List ParseError},
    Lenient.Separated Item fault count ts as es → Lenient.Separated Item' fault count ts as es
  | _, _, _, _, .one ha => .one (h _ _ _ ha)
  | _, _, _, _, .more ha hcomma hs => .more (h _ _ _ ha) hcomma (hs.imp h)

theorem readsItem_name {t : Token} (h : Lenient.Name ts t es) :
    ReadsItem n d (expectName .parameterName) ts t es := by
  obtain ⟨ht⟩ := h
  refine ⟨⟨t, [], rfl, Token.not_is_of_isIdentifier ht _⟩, fun _ => ?_⟩
  rw [← bind_pure (expectName _)]
  exact passes_expectName ht (.pure t)

/-- A parameter that is too many is reported and read. -/
theorem passes_parameters {params : List Token}
    (h : Lenient.Items Lenient.Name .tooManyParameters ts params es) (hn : ts.length < n) :
    Passes d (fun next => next.is .rightParen = true)
      (items (expectName .parameterName) .tooManyParameters n) ts params es := by
  refine passes_items (n := n) ?_ hn n (Nat.le_of_lt hn)
  cases h with
  | none => exact .none
  | some h => exact .some (h.imp fun _ _ _ h => readsItem_name h)

theorem passes_functionDeclaration {block : Parser (List Stmt)}
    {name opening closing brace : Token} {params : List Token} {body : List Stmt}
    (hname : name.kind.isIdentifier = true) (ho : opening.is .leftParen = true)
    (hp : Lenient.Items Lenient.Name .tooManyParameters ts params es)
    (hc : closing.is .rightParen = true) (hb : brace.is .leftBrace = true) (hn : ts.length < n)
    (hbody : Passes (d + 1) P block us body fs) :
    Passes d P (functionDeclaration n block)
      (name :: opening :: (ts ++ closing :: brace :: us)) (.function name params body)
      (es ++ fs) := by
  refine passes_expectName hname (passes_expect ho ?_)
  refine (passes_parameters hp hn).bind hc (passes_expect hc (passes_expect hb ?_))
  exact (passes_nested hbody).bind_nil_silent (.pure _)

/-- The brace that closes a block is taken with it. -/
theorem passes_blockTail_nil {declaration : Parser (Option Stmt)} {closing : Token} {k : Nat}
    (hc : closing.is .rightBrace = true) :
    Passes d P (blockTail declaration (k + 1)) [closing] [] [] := by
  rw [blockTail]
  refine passes_atEnd (passes_sees ?_)
  rw [hc, Bool.or_true, if_pos rfl]
  exact passes_expect hc (.pure _)

/-- One declaration, and the rest of the block, which does not begin with `else`. -/
theorem passes_blockTail_cons {declaration : Parser (Option Stmt)} {t : Token} {k : Nat}
    {s : Stmt} {ss : List Stmt} (ht : Begins t)
    (hd : Passes d (fun next => next.is .elseWord = false) declaration (t :: ts) (some s) es)
    (hne : us ≠ []) (hus : ∀ u vs, us = u :: vs → u.is .elseWord = false)
    (hrest : Passes d P (blockTail declaration k) us ss fs) :
    Passes d P (blockTail declaration (k + 1)) (t :: ts ++ us) (s :: ss) (es ++ fs) := by
  obtain ⟨u, us, rfl⟩ := List.exists_cons_of_ne_nil hne
  rw [blockTail]
  refine passes_atEnd (passes_sees ?_)
  rw [ht.notEnd, ht.notBrace, Bool.or_false, if_neg Bool.false_ne_true]
  exact hd.bind (hus u us rfl) (hrest.bind_nil_silent (.pure _))

/-- The reader of a statement, in as many steps as there are tokens. -/
theorem statement_succ (n : Nat) :
    statement (n + 1) = statementOf n (statement n) (blockTail (declaration n) n) := by
  rw [statement]

theorem declaration_succ (n : Nat) :
    declaration (n + 1) = declarationOf n (statement n) (blockTail (declaration n) n) := by
  rw [declaration]

mutual

/-- Every statement is read as its tree. -/
theorem Lenient.Statement.passes : ∀ {inside : Bool} {ending : Ending} {ts : List Token} {s : Stmt}
    {es : List ParseError}, Lenient.Statement .nearest inside ending ts s es → ∀ n d,
    ts.length ≤ n → inside = decide (d ≠ 0) →
    Passes d (AfterStatement ending) (statement (n + 1)) ts s es
  | _, _, _, _, _, .expression h hsemi, n, d, hn, _ => by
    rw [List.length_append, List.length_singleton] at hn
    have hpass := passes_expressionStatement (d := d) (P := AfterStatement .closed) h hsemi hn
    obtain ⟨t, us, rfl, ht⟩ := h.head
    rw [statement_succ, statementOf]
    refine passes_peek ?_
    -- an expression begins with none of the words that begin another statement
    simp only [ht.not_is (s := .forWord) rfl, ht.not_is (s := .ifWord) rfl,
      ht.not_is (s := .printWord) rfl, ht.not_is (s := .returnWord) rfl,
      ht.not_is (s := .whileWord) rfl, ht.not_is (s := .leftBrace) rfl, Bool.false_eq_true,
      if_false]
    exact hpass
  | _, _, _, _, _, .print hw h hsemi, n, d, hn, _ => by
    simp only [List.length_append, List.length_cons] at hn
    rw [statement_succ, statementOf]
    refine passes_peek ?_
    simp only [Token.is_of_is hw]
    refine passes_advance (Token.isEnd_of_is hw) ?_
    exact (passes_terminated h hsemi (by omega) _).bind_nil_silent (.pure _)
  | _, _, _, _, _, .returns hw h hsemi, n, d, hn, hd => by
    simp only [List.length_append, List.length_cons] at hn
    rw [statement_succ, statementOf]
    refine passes_peek ?_
    simp only [Token.is_of_is hw]
    exact passes_advance (Token.isEnd_of_is hw) (passes_returnStatement h hsemi (by omega) hd)
  | _, _, _, _, _, .block ho h hc, n, d, hn, hd => by
    simp only [List.length_append, List.length_cons] at hn
    rw [statement_succ, statementOf]
    refine passes_peek ?_
    simp only [Token.is_of_is ho]
    refine passes_advance (Token.isEnd_of_is ho) ?_
    exact (h.passes hc n n d (by omega) (by omega) hd).bind_nil_silent (.pure _)
  | _, _, _, _, _, .whileDo hw ho h hc hs, n + 1, d, hn, hd => by
    simp only [List.length_append, List.length_cons] at hn
    rw [statement_succ, statementOf]
    refine passes_peek ?_
    simp only [Token.is_of_is hw]
    refine passes_advance (Token.isEnd_of_is hw) ?_
    exact passes_whileStatement ho h hc (by omega) (hs.passes n d (by omega) hd)
  | _, _, _, _, _, .forDo hw ho hi ht hsemi hu hc hs, n + 1, d, hn, hd => by
    rw [statement_succ, statementOf]
    refine passes_peek ?_
    simp only [Token.is_of_is hw]
    refine passes_advance (Token.isEnd_of_is hw) ?_
    have hlen := hn
    simp only [List.length_append, List.length_cons] at hlen
    refine passes_forStatement ho hi ht hsemi hu hc ?_ (hs.passes n d (by omega) hd)
    simp only [List.length_append, List.length_cons]
    omega
  | _, _, _, _, _, .ifThen hw ho h hc hs, n + 1, d, hn, hd => by
    simp only [List.length_append, List.length_cons] at hn
    rw [statement_succ, statementOf]
    refine passes_peek ?_
    simp only [Token.is_of_is hw]
    refine passes_advance (Token.isEnd_of_is hw) ?_
    exact passes_ifThen ho h hc (by omega) (hs.passes n d (by omega) hd)
  | _, _, _, _, _, .ifElse hw ho h hc hs hrule he hs', n + 1, d, hn, hd => by
    simp only [List.length_append, List.length_cons] at hn
    have hthen := hs.passes n d (by omega) hd
    -- the branch in front of `else` is closed, so the word is not taken by an `if` inside it
    rw [hrule rfl] at hthen
    rw [statement_succ, statementOf]
    refine passes_peek ?_
    simp only [Token.is_of_is hw]
    refine passes_advance (Token.isEnd_of_is hw) ?_
    exact passes_ifElse ho h hc (by omega) hthen he (hs'.passes n d (by omega) hd)

/-- A declaration is read as the tree that the lenient grammar gives it. -/
theorem Lenient.Declaration.passes : ∀ {inside : Bool} {ts : List Token} {s : Stmt}
    {es : List ParseError}, Lenient.Declaration .nearest inside ts s es → ∀ n d,
    ts.length ≤ n → inside = decide (d ≠ 0) →
    Passes d (fun next => next.is .elseWord = false) (declaration (n + 1)) ts (some s) es
  | _, _, _, _, .function hw hname ho hp hc hb hbody he, n, d, hn, _ => by
    simp only [List.length_append, List.length_cons] at hn
    rw [declaration_succ, declarationOf]
    refine passes_recovering (passes_peek ?_)
    simp only [Token.is_of_is hw]
    refine passes_advance (Token.isEnd_of_is hw) ?_
    exact passes_functionDeclaration hname ho hp hc hb (by omega)
      (hbody.passes he n n (d + 1) (by omega) (by omega) (by simp))
  | _, _, _, _, .var h, n, d, hn, _ => by
    obtain ⟨word, us, rfl, hw⟩ := h.head
    rw [List.length_cons] at hn
    rw [declaration_succ, declarationOf]
    refine passes_recovering (passes_peek ?_)
    simp only [Token.is_of_is hw]
    exact passes_advance (Token.isEnd_of_is hw) (passes_varDeclaration h (by omega))
  | _, _, _, _, .statement h, n, d, hn, hd => by
    have hpass := (h.passes n d hn hd).mono (Q := fun next => next.is .elseWord = false)
      fun _ hx _ => hx
    -- a statement begins with neither `fun` nor `var`
    obtain ⟨t, us, rfl, -, hfun, hvar⟩ := h.head
    rw [declaration_succ, declarationOf]
    refine passes_recovering (passes_peek ?_)
    rw [hfun, hvar, if_neg Bool.false_ne_true, if_neg Bool.false_ne_true, ← statement_succ]
    exact hpass

/-- Declarations are read up to the brace that closes their block. -/
theorem Lenient.Declarations.passes : ∀ {inside : Bool} {ts : List Token} {ss : List Stmt}
    {es : List ParseError} {closing : Token} {P : Token → Prop},
    Lenient.Declarations .nearest inside ts ss es → closing.is .rightBrace = true → ∀ n k d,
    ts.length < n → ts.length < k → inside = decide (d ≠ 0) →
    Passes d P (blockTail (declaration n) k) (ts ++ [closing]) ss es
  | _, _, _, _, _, _, .nil, hc, _, _ + 1, _, _, _, _ => passes_blockTail_nil hc
  | _, _, _, _, _, P, .cons h hs, hc, n + 1, k + 1, d, hn, hk, hd => by
    rw [List.length_append] at hn hk
    have hfirst := h.passes n d (by omega) hd
    obtain ⟨t, ts, rfl, ht⟩ := h.head
    rw [List.length_cons] at hn hk
    have hrest : Passes d P _ _ _ _ := hs.passes hc (n + 1) k d (by omega) (by omega) hd
    rw [List.append_assoc]
    refine passes_blockTail_cons ht hfirst (by simp) ?_ hrest
    rintro u vs hus
    rcases List.append_eq_cons_iff.1 hus with ⟨-, hu⟩ | ⟨us, rfl, -⟩
    · cases hu
      exact Token.not_is_of_is hc (by decide)
    · exact (hs.head rfl).notElse

end

/-- Every declaration has a token of its own. -/
theorem Lenient.Declarations.length_le {rule : ElseRule} {inside : Bool} : ∀ {ts : List Token}
    {ss : List Stmt} {es : List ParseError}, Lenient.Declarations rule inside ts ss es →
    ss.length ≤ ts.length
  | _, _, _, .nil => Nat.le_refl 0
  | _, _, _, .cons h hs => by
    obtain ⟨t, ts, rfl, -⟩ := h.head
    have hle := hs.length_le
    simp only [List.length_append, List.length_cons]
    omega

/-- Declarations are passed before anything that does not begin with `else`, and what is after them
is read next. -/
theorem Lenient.Declarations.program_before {next : Token} {rest : List Token} {us : List Stmt}
    {c : Cursor} (hnext : next.is .elseWord = false) : ∀ {ts : List Token} {ss : List Stmt}
    {es : List ParseError}, Lenient.Declarations .nearest false ts ss es →
    ∀ {n k : Nat} {previous : Token} {errors : List ParseError}, ts.length < n →
    program (declaration n) k ⟨ts.getLastD previous, next :: rest, 0, errors ++ es⟩ = .ok us c →
    program (declaration n) (ss.length + k) ⟨previous, ts ++ next :: rest, 0, errors⟩ =
      .ok (ss ++ us) c
  | _, _, _, .nil, n, k, previous, errors, _, hrun => by
    rw [List.append_nil] at hrun
    rw [List.length_nil, Nat.zero_add]
    exact hrun
  | _, _, _, @Lenient.Declarations.cons _ _ ts vs s ss es fs h hs, n + 1, k, previous, errors, hn,
      hrun => by
    rw [List.length_append] at hn
    have hfirst := h.passes n 0 (by omega) rfl
    obtain ⟨u, ws, hafter, hu⟩ :
        ∃ u ws, vs ++ next :: rest = u :: ws ∧ u.is .elseWord = false := by
      cases vs with
      | nil => exact ⟨next, rest, rfl, hnext⟩
      | cons v vs => exact ⟨v, vs ++ next :: rest, rfl, (hs.head rfl).notElse⟩
    have hread := hfirst previous u ws errors hu
    rw [getLastD_append, ← List.append_assoc] at hrun
    have hothers := hs.program_before hnext (by omega) hrun
    rw [← hafter] at hread
    have hatEnd : (⟨previous, ts ++ (vs ++ next :: rest), 0, errors⟩ : Cursor).atEnd = false := by
      obtain ⟨t, ts, rfl, ht⟩ := h.head
      exact ht.notEnd
    have hsteps : (s :: ss).length + k = ss.length + k + 1 := Nat.add_right_comm ..
    rw [List.append_assoc, hsteps, program, atEnd_bind, hatEnd, if_neg Bool.false_ne_true,
      bind_of_ok hread, bind_of_ok hothers]
    rfl

/-- Declarations are read up to the end of the text. -/
theorem Lenient.Declarations.program_passes {ts : List Token} {ss : List Stmt}
    {es : List ParseError} (h : Lenient.Declarations .nearest false ts ss es) (n k : Nat)
    (hn : ts.length < n) (hk : ts.length < k) :
    Passes 0 (fun next => next.isEnd = true) (program (declaration n) k) ts ss es := by
  intro previous next rest errors hnext
  have hle := h.length_le
  obtain ⟨m, rfl⟩ := Nat.exists_eq_add_of_lt (Nat.lt_of_le_of_lt hle hk)
  have hend : program (declaration n) (m + 1)
      ⟨ts.getLastD previous, next :: rest, 0, errors ++ es⟩ =
        .ok [] ⟨ts.getLastD previous, next :: rest, 0, errors ++ es⟩ := by
    rw [program, atEnd_bind, Cursor.atEnd, if_pos hnext]
    rfl
  have hrun := h.program_before (Token.not_is_of_isEnd hnext _) hn hend
  rw [List.append_nil] at hrun
  rw [Nat.add_assoc]
  exact hrun

/-- What a list of tokens says, if the lenient grammar derives it. -/
theorem Lenient.Declarations.parse_eq {ss : List Stmt} {eof : Token} {rest : List Token}
    (h : Lenient.Declarations .nearest false ts ss es) (heof : eof.isEnd = true) :
    parse (ts ++ eof :: rest) = some ⟨ss, es⟩ := by
  have hlen : ts.length < parseSteps (ts ++ eof :: rest).length := by
    rw [parseSteps, List.length_append]
    omega
  obtain ⟨t, us, htokens⟩ := List.exists_cons_of_ne_nil
    (List.append_ne_nil_of_right_ne_nil ts (List.cons_ne_nil eof rest))
  have hrun := h.program_passes _ _ hlen hlen t eof rest [] heof
  rw [htokens] at hrun ⊢
  rw [parse, hrun, List.nil_append]

end Grammar

end Lox
