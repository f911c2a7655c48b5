import Lox.Proofs.Parser.Declaration

/-!
Two readings side by side. The readers of a list only look at the token at their cursor, whether
anything is left, and the depth. So if two cursors agree in these, and go on to agree whatever
single step is taken from both, then every reader does alike at the two. A `Comparison` asks for the
single steps once and for the ways in which readers are put together; the lemmas then follow the
text of each reader. The second reading may be granted more steps than the first.
-/

namespace Lox

/-! ### Faults -/

namespace ParseFault

/-- Whether the fault forbids something that is read all the same. -/
def forbids : ParseFault → Bool
  | tooManyParameters | tooManyArguments | assignmentTarget | topLevelReturn => true
  | _ => false

/-- Whether the fault is told in words of someone else. -/
def isNote : ParseFault → Bool
  | note _ => true
  | _ => false

/-- Whether a reader gives up at the fault. -/
def stops (fault : ParseFault) : Bool := !fault.forbids && !fault.isNote

end ParseFault

namespace Parser

variable {α β : Type}

/-! ### Readers put together -/

/-- From cursors as described by `Start`, the readers come to results as described by `Agree`. -/
def Compares (Start : Cursor → Cursor → Prop)
    (Agree : (α : Type) → Cursor → Cursor → EStateM.Result Halt Cursor α →
      EStateM.Result Halt Cursor α → Prop) (p q : Parser α) : Prop :=
  ∀ c d, Start c d → Agree α c d (p c) (q d)

/-- Single steps from cursors that correspond agree, and so do readers put together from readers
that agree. A reader without steps left is compared to one with `k` steps. -/
structure Comparison (k : Nat) (Start : Cursor → Cursor → Prop)
    (Agree : (α : Type) → Cursor → Cursor → EStateM.Result Halt Cursor α →
      EStateM.Result Halt Cursor α → Prop) : Prop where
  peek : ∀ {c d : Cursor}, Start c d → c.peek = d.peek
  atEnd : ∀ {c d : Cursor}, Start c d → c.atEnd = d.atEnd
  depth : ∀ {c d : Cursor}, Start c d → c.depth = d.depth
  pure : ∀ {α : Type} {c d : Cursor} (a : α), Start c d → Agree α c d (.ok a c) (.ok a d)
  pass : ∀ {α : Type} {c d : Cursor} (a : α), Start c d →
    Agree α c d (.ok a c.advanced) (.ok a d.advanced)
  report : ∀ {c d : Cursor} (token : Token) {fault : ParseFault}, fault.forbids = true →
    Start c d → Agree Unit c d (.ok () (c.report token fault)) (.ok () (d.report token fault))
  fail : ∀ {α : Type} {c d : Cursor} {fault : ParseFault}, fault.stops = true → Start c d →
    Agree α c d (Parser.fail fault c) (Parser.fail fault d)
  stall : ∀ {α : Type} {c d : Cursor} {q : Parser α}, (k = 0 → q = Parser.stall) → Start c d →
    Agree α c d (Parser.stall c) (q d)
  bind : ∀ {α β : Type} {c d : Cursor} {p q : Parser α} {f g : α → Parser β},
    Agree α c d (p c) (q d) → (∀ a, Compares Start Agree (f a) (g a)) →
    Agree β c d ((p >>= f) c) ((q >>= g) d)
  nested : ∀ {α : Type} {p q : Parser α}, Compares Start Agree p q →
    Compares Start Agree (Parser.nested p) (Parser.nested q)

variable {k : Nat} {Start : Cursor → Cursor → Prop}
  {Agree : (α : Type) → Cursor → Cursor → EStateM.Result Halt Cursor α →
    EStateM.Result Halt Cursor α → Prop}
  (h : Comparison k Start Agree)
  {p q : Parser α} {f g : α → Parser β} {c d : Cursor}

include h

/-- What is put together from readers that do alike does alike. -/
theorem Compares.bind (hp : Compares Start Agree p q)
    (hf : ∀ a, Compares Start Agree (f a) (g a)) : Compares Start Agree (p >>= f) (q >>= g) :=
  fun c d hs => h.bind (hp c d hs) hf

theorem compares_pure (a : α) : Compares Start Agree (pure a : Parser α) (pure a) :=
  fun _ _ hs => h.pure a hs

theorem Compares.map (hp : Compares Start Agree p q) (f : α → β) :
    Compares Start Agree (f <$> p) (f <$> q) := by
  rw [map_eq_pure_bind, map_eq_pure_bind]
  exact hp.bind h fun a => compares_pure h (f a)

/-! ### Single steps -/

theorem compares_stall (hq : k = 0 → q = stall) : Compares Start Agree stall q := fun _ _ hs =>
  h.stall hq hs

/-- The token that is looked at is the same for both. -/
theorem compares_peek {f g : Token → Parser β}
    (hf : ∀ c d, Start c d → Agree β c d (f c.peek c) (g c.peek d)) :
    Compares Start Agree (peek >>= f) (peek >>= g) := by
  intro c d hs
  rw [peek_bind, peek_bind, ← h.peek hs]
  exact hf c d hs

theorem compares_atEnd {f g : Bool → Parser β} (hf : ∀ b, Compares Start Agree (f b) (g b)) :
    Compares Start Agree (atEnd >>= f) (atEnd >>= g) := by
  intro c d hs
  rw [atEnd_bind, atEnd_bind, ← h.atEnd hs]
  exact hf _ c d hs

/-- A token that was looked at is passed. -/
theorem agree_advance {f g : Token → Parser β} (hs : Start c d) (hend : c.peek.isEnd = false)
    (hf : Compares Start Agree (f c.peek) (g c.peek)) :
    Agree β c d ((advance >>= f) c) ((advance >>= g) d) := by
  have hc : c.advanced.previous = c.peek := Cursor.previous_advanced hend
  have hd : d.advanced.previous = c.peek := by
    rw [h.peek hs] at hend ⊢
    exact Cursor.previous_advanced hend
  have hok : Agree β c d (((fun c => .ok () c.advanced : Parser Unit) >>= fun _ => f c.peek) c)
      (((fun c => .ok () c.advanced : Parser Unit) >>= fun _ => g c.peek) d) :=
    h.bind (h.pass () hs) fun _ => hf
  rw [advance_bind, advance_bind, hc, hd]
  exact hok

theorem sees_eq (hs : Start c d) (s : Symbol) : c.sees s = d.sees s := by
  rw [Cursor.sees, Cursor.sees, h.peek hs, h.atEnd hs]

theorem compares_sees {f g : Bool → Parser β} (s : Symbol)
    (hf : ∀ b, Compares Start Agree (f b) (g b)) :
    Compares Start Agree (sees s >>= f) (sees s >>= g) := by
  intro c d hs
  rw [sees_bind, sees_bind, ← sees_eq h hs]
  exact hf _ c d hs

/-- The tiers of `or` and `and` ask whether anything is left, the others look at the token only. -/
theorem compares_seesOperator {f g : Bool → Parser β} (t : Tier)
    (hf : ∀ c d, Start c d → Agree β c d (f (c.seesOperator t) c) (g (c.seesOperator t) d)) :
    Compares Start Agree (seesOperator t >>= f) (seesOperator t >>= g) := by
  intro c d hs
  have heq : d.seesOperator t = c.seesOperator t := by
    cases t with
    | or => exact (sees_eq h hs .orWord).symm
    | and => exact (sees_eq h hs .andWord).symm
    | _ => exact congrArg (fun next : Token => Tier.operators _ |>.any next.is) (h.peek hs).symm
  rw [seesOperator_bind, seesOperator_bind, heq]
  exact hf c d hs

theorem compares_take (s : Symbol) : Compares Start Agree (take s) (take s) := by
  intro c d hs
  rw [take, take, ← sees_eq h hs]
  split
  · exact h.pass true hs
  · exact h.pure false hs

theorem compares_reportIf (forbidden : Bool) (token : Token) {fault : ParseFault}
    (hfault : fault.forbids = true) :
    Compares Start Agree (reportIf forbidden token fault) (reportIf forbidden token fault) := by
  intro c d hs
  unfold reportIf
  split
  · exact h.report token hfault hs
  · exact h.pure () hs

/-- A symbol that is wanted is passed by both, or both give up at the same token. -/
theorem compares_expect (s : Symbol) {fault : ParseFault} (hfault : fault.stops = true) :
    Compares Start Agree (expect s fault) (expect s fault) := by
  intro c d hs
  rw [expect, sees_bind, sees_bind, ← sees_eq h hs]
  split
  · next hsees =>
    have hend : c.peek.isEnd = false := Token.isEnd_of_is (Cursor.is_of_sees hsees)
    rw [← bind_pure advance]
    exact agree_advance h hs hend (compares_pure h _)
  · exact h.fail hfault hs

theorem compares_expectName {fault : ParseFault} (hfault : fault.stops = true) :
    Compares Start Agree (expectName fault) (expectName fault) := by
  refine compares_peek h fun c d hs => ?_
  rw [atEnd_bind, atEnd_bind, ← h.atEnd hs]
  split
  · next hname =>
    rw [Bool.and_eq_true] at hname
    rw [← bind_pure advance]
    exact agree_advance h hs (Token.isEnd_of_isIdentifier hname.1) (compares_pure h _)
  · exact h.fail hfault hs

theorem Compares.unlessSeen (hp : Compares Start Agree p q) (s : Symbol) (a : α) :
    Compares Start Agree (unlessSeen s a p) (unlessSeen s a q) := by
  refine compares_sees h s fun seen => ?_
  split
  · exact compares_pure h a
  · exact hp

theorem Compares.ifTaken (hp : Compares Start Agree p q) (s : Symbol) :
    Compares Start Agree (ifTaken s p) (ifTaken s q) := by
  refine (compares_take h s).bind h fun taken => ?_
  split
  · exact hp.map h some
  · exact compares_pure h none

/-! ### Expressions -/

section

variable {operand operand' inner inner' : Parser Expr}

/-- A chain of operators of one tier. -/
theorem compares_tierTail (hp : Compares Start Agree operand operand') (t : Tier) :
    ∀ n left, Compares Start Agree (tierTail t operand n left) (tierTail t operand' (k + n) left)
  | 0, _ => compares_stall h fun hk => by subst hk; rfl
  | n + 1, left => by
    refine compares_seesOperator h t fun c d hs => ?_
    split
    · next hop =>
      refine agree_advance h hs (Cursor.isEnd_of_seesOperator hop) (hp.bind h fun right => ?_)
      exact compares_tierTail hp t n _
    · exact h.pure left hs

/-- The tiers stand on one another, and on the operands below the tightest one. -/
theorem compares_tiers (hp : Compares Start Agree operand operand') (n : Nat) :
    ∀ ts : List Tier,
      Compares Start Agree (ts.foldr (tier n) operand) (ts.foldr (tier (k + n)) operand')
  | [] => hp
  | t :: ts => by
    have hts := compares_tiers hp n ts
    exact hts.bind h fun left => compares_tierTail h hts t n left

theorem compares_unary (hp : Compares Start Agree operand operand') :
    ∀ n, Compares Start Agree (unary operand n) (unary operand' (k + n))
  | 0 => compares_stall h fun hk => by subst hk; rfl
  | n + 1 => by
    refine compares_peek h fun c d hs => ?_
    split
    · next hop =>
      have hend : c.peek.isEnd = false := by
        rcases Bool.or_eq_true .. ▸ hop with hop | hop
        · exact Token.isEnd_of_is hop
        · exact Token.isEnd_of_is hop
      refine agree_advance h hs hend ((compares_unary hp n).bind h fun right => ?_)
      exact compares_pure h _
    · exact hp c d hs

/-- The items are counted alike, so there are too many for both or for neither. -/
theorem compares_separated (hp : Compares Start Agree p q) {fault : ParseFault}
    (hfault : fault.forbids = true) : ∀ n count,
      Compares Start Agree (separated p fault n count) (separated q fault (k + n) count)
  | 0, _ => compares_stall h fun hk => by subst hk; rfl
  | n + 1, count => by
    refine compares_peek h fun c d hs => ?_
    refine Compares.bind h (compares_reportIf h _ _ hfault) (fun _ => ?_) c d hs
    refine hp.bind h fun first => (compares_take h .comma).bind h fun taken => ?_
    split
    · exact (compares_separated hp hfault n (count + 1)).bind h fun others => compares_pure h _
    · exact compares_pure h _

theorem compares_items (hp : Compares Start Agree p q) {fault : ParseFault}
    (hfault : fault.forbids = true) (n : Nat) :
    Compares Start Agree (items p fault n) (items q fault (k + n)) :=
  (compares_separated h hp hfault n 0).unlessSeen h .rightParen []

theorem compares_callTail (hp : Compares Start Agree inner inner') : ∀ n callee,
    Compares Start Agree (callTail inner n callee) (callTail inner' (k + n) callee)
  | 0, _ => compares_stall h fun hk => by subst hk; rfl
  | n + 1, callee => by
    refine (compares_take h .leftParen).bind h fun taken => ?_
    split
    · refine (compares_items h hp rfl n).bind h fun args => ?_
      refine (compares_expect h .rightParen rfl).bind h fun paren => ?_
      exact compares_callTail hp n _
    · exact compares_pure h callee

theorem compares_primary (hp : Compares Start Agree inner inner') :
    Compares Start Agree (primary inner) (primary inner') := by
  refine compares_peek h fun c d hs => ?_
  cases hvalue : c.peek.kind.literal? with
  | some value =>
    exact agree_advance h hs (Token.isEnd_of_literal hvalue) (compares_pure h _)
  | none =>
    dsimp only
    split
    · next hname =>
      exact agree_advance h hs (Token.isEnd_of_isIdentifier hname) (compares_pure h _)
    split
    · next hparen =>
      refine agree_advance h hs (Token.isEnd_of_is hparen) (hp.bind h fun e => ?_)
      exact (compares_expect h .rightParen rfl).bind h fun _ => compares_pure h _
    · exact h.fail rfl hs

/-- What stands left of an equals sign is read before it is known to be a target. -/
theorem compares_assignment (hp : Compares Start Agree inner inner') (n : Nat) :
    Compares Start Agree (assignment n inner) (assignment (k + n) inner') := by
  have hcall : Compares Start Agree (call n inner) (call (k + n) inner') :=
    (compares_primary h hp).bind h fun callee => compares_callTail h hp n callee
  refine (compares_tiers h (compares_unary h hcall n) n Tier.all).bind h fun left => ?_
  refine compares_peek h fun c d hs => ?_
  -- an equals sign makes an assignment of what was read before it
  split
  · next hequal =>
    refine agree_advance h hs (Token.isEnd_of_is hequal) (hp.bind h fun value => ?_)
    split
    · exact compares_pure h _
    · exact (compares_reportIf h true _ rfl).bind h fun _ => compares_pure h left
  · exact h.pure left hs

/-- Expressions are read alike. -/
theorem compares_expression :
    ∀ n, Compares Start Agree (expression n) (expression (k + n))
  | 0 => compares_stall h fun hk => by subst hk; rfl
  | n + 1 => compares_assignment h (compares_expression n) n

end

/-! ### Statements -/

theorem compares_terminated (n : Nat) {fault : ParseFault} (hfault : fault.stops = true) :
    Compares Start Agree (terminated n fault) (terminated (k + n) fault) :=
  (compares_expression h n).bind h fun value =>
    (compares_expect h .semicolon hfault).bind h fun _ => compares_pure h value

theorem compares_varDeclaration (n : Nat) :
    Compares Start Agree (varDeclaration n) (varDeclaration (k + n)) := by
  refine (compares_expectName h rfl).bind h fun name => ?_
  refine ((compares_expression h n).ifTaken h .equal).bind h fun initial => ?_
  exact (compares_expect h .semicolon rfl).bind h fun _ => compares_pure h _

theorem compares_expressionStatement (n : Nat) :
    Compares Start Agree (expressionStatement n) (expressionStatement (k + n)) :=
  (compares_terminated h n rfl).bind h fun _ => compares_pure h _

theorem compares_printStatement (n : Nat) :
    Compares Start Agree (printStatement n) (printStatement (k + n)) :=
  (compares_terminated h n rfl).bind h fun _ => compares_pure h _

/-- Outside of functions the error is reported and reading goes on, so only the depth matters. -/
theorem compares_returnStatement (n : Nat) (keyword : Token) :
    Compares Start Agree (returnStatement n keyword) (returnStatement (k + n) keyword) := by
  intro c d hs
  rw [returnStatement, returnStatement, get_bind, get_bind, ← h.depth hs]
  refine Compares.bind h (compares_reportIf h _ keyword rfl) (fun _ => ?_) c d hs
  refine (((compares_expression h n).map h some).unlessSeen h .semicolon none).bind h
    fun value => ?_
  exact (compares_expect h .semicolon rfl).bind h fun _ => compares_pure h _

theorem compares_condition (n : Nat) {opening closing : ParseFault} (ho : opening.stops = true)
    (hc : closing.stops = true) :
    Compares Start Agree (condition n opening closing) (condition (k + n) opening closing) := by
  refine (compares_expect h .leftParen ho).bind h fun _ => ?_
  refine (compares_expression h n).bind h fun value => ?_
  exact (compares_expect h .rightParen hc).bind h fun _ => compares_pure h value

theorem compares_forInitial (n : Nat) :
    Compares Start Agree (forInitial n) (forInitial (k + n)) := by
  refine compares_peek h fun c d hs => ?_
  split
  · next hsemi => exact agree_advance h hs (Token.isEnd_of_is hsemi) (compares_pure h none)
  split
  · next hvar =>
    exact agree_advance h hs (Token.isEnd_of_is hvar) ((compares_varDeclaration h n).map h some)
  · exact (compares_expressionStatement h n).map h some c d hs

section

variable {n : Nat} {reader reader' : Parser Stmt} {block block' : Parser (List Stmt)}
  (hp : Compares Start Agree reader reader') (hblock : Compares Start Agree block block')

include hp

theorem compares_whileStatement :
    Compares Start Agree (whileStatement n reader) (whileStatement (k + n) reader') :=
  (compares_condition h n rfl rfl).bind h fun _ => hp.bind h fun _ => compares_pure h _

theorem compares_ifStatement :
    Compares Start Agree (ifStatement n reader) (ifStatement (k + n) reader') := by
  refine (compares_condition h n rfl rfl).bind h fun test => hp.bind h fun thenBranch => ?_
  refine (compares_take h .elseWord).bind h fun taken => ?_
  split
  · exact hp.bind h fun _ => compares_pure h _
  · exact compares_pure h _

/-- A loop is read part by part; what it is short for is put together in the end. -/
theorem compares_forStatement :
    Compares Start Agree (forStatement n reader) (forStatement (k + n) reader') := by
  refine (compares_expect h .leftParen rfl).bind h fun _ => ?_
  refine (compares_forInitial h n).bind h fun initial => ?_
  refine ((compares_expression h n).unlessSeen h .semicolon _).bind h fun test => ?_
  refine (compares_expect h .semicolon rfl).bind h fun _ => ?_
  refine (((compares_expression h n).map h some).unlessSeen h .rightParen none).bind h
    fun increment => ?_
  refine (compares_expect h .rightParen rfl).bind h fun _ => ?_
  exact hp.bind h fun _ => compares_pure h _

include hblock

/-- The first word decides which statement is read, and it is the same for both. -/
theorem compares_statementOf :
    Compares Start Agree (statementOf n reader block) (statementOf (k + n) reader' block') := by
  refine compares_peek h fun c d hs => ?_
  split
  · next hword =>
    exact agree_advance h hs (Token.isEnd_of_is hword) (compares_forStatement h hp)
  split
  · next hword =>
    exact agree_advance h hs (Token.isEnd_of_is hword) (compares_ifStatement h hp)
  split
  · next hword =>
    exact agree_advance h hs (Token.isEnd_of_is hword) (compares_printStatement h n)
  split
  · next hword =>
    exact agree_advance h hs (Token.isEnd_of_is hword) (compares_returnStatement h n _)
  split
  · next hword =>
    exact agree_advance h hs (Token.isEnd_of_is hword) (compares_whileStatement h hp)
  split
  · next hword =>
    refine agree_advance h hs (Token.isEnd_of_is hword) (hblock.bind h fun _ => ?_)
    exact compares_pure h _
  · exact compares_expressionStatement h n c d hs

omit hp

theorem compares_functionDeclaration :
    Compares Start Agree (functionDeclaration n block) (functionDeclaration (k + n) block') := by
  refine (compares_expectName h rfl).bind h fun name => ?_
  refine (compares_expect h .leftParen rfl).bind h fun _ => ?_
  have hname : Compares Start Agree (expectName .parameterName) (expectName .parameterName) :=
    compares_expectName h rfl
  refine (compares_items h hname rfl n).bind h fun params => ?_
  refine (compares_expect h .rightParen rfl).bind h fun _ => ?_
  refine (compares_expect h .leftBrace rfl).bind h fun _ => ?_
  exact Compares.bind h (h.nested hblock) fun _ => compares_pure h _

include hp

/-- The first word decides which declaration is read. -/
theorem compares_declarationBody :
    Compares Start Agree (declarationBody n reader block)
      (declarationBody (k + n) reader' block') := by
  refine compares_peek h fun c d hs => ?_
  split
  · next hword =>
    exact agree_advance h hs (Token.isEnd_of_is hword) (compares_functionDeclaration h hblock)
  split
  · next hword =>
    exact agree_advance h hs (Token.isEnd_of_is hword) (compares_varDeclaration h n)
  · exact compares_statementOf h hp hblock c d hs

end

/-! ### Declarations one after the other -/

section

variable {reader reader' : Parser (Option Stmt)} (hp : Compares Start Agree reader reader')

include hp

/-- A block is closed at the same place for both. -/
theorem compares_blockTail :
    ∀ n, Compares Start Agree (blockTail reader n) (blockTail reader' (k + n))
  | 0 => compares_stall h fun hk => by subst hk; rfl
  | n + 1 => by
    refine compares_atEnd h fun ended => compares_sees h .rightBrace fun closed => ?_
    split
    · exact (compares_expect h .rightBrace rfl).bind h fun _ => compares_pure h []
    · exact hp.bind h fun _ => (compares_blockTail n).bind h fun _ => compares_pure h _

theorem compares_program :
    ∀ n, Compares Start Agree (program reader n) (program reader' (k + n))
  | 0 => compares_stall h fun hk => by subst hk; rfl
  | n + 1 => by
    refine compares_atEnd h fun ended => ?_
    split
    · exact compares_pure h []
    · exact hp.bind h fun _ => (compares_program n).bind h fun _ => compares_pure h _

end

end Parser

end Lox
