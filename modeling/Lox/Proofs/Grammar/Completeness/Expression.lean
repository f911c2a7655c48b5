import Lox.Proofs.Grammar.Completeness.Passes
import Lox.Proofs.Grammar.Lenient

/-!
Every phrase of the lenient grammar is read as its tree, and its errors are reported. A phrase is
read to its end only if the token after it cannot extend it; each level has its own such tokens.

Tiers and calls are left-recursive in the grammar and loops in the reader. So what is shown of a
phrase of these levels is that reading it leads into the loop, with the tree of the phrase as the
left operand; the loop then ends at a token that cannot extend the phrase.
-/

namespace Lox

open Lox.Parser

namespace Grammar

/-! ### What can extend a phrase -/

/-- The tiers below a tier. -/
def tighter : Tier → List Tier
  | .or => [.and, .equality, .comparison, .addition, .multiplication]
  | .and => [.equality, .comparison, .addition, .multiplication]
  | .equality => [.comparison, .addition, .multiplication]
  | .comparison => [.addition, .multiplication]
  | .addition => [.multiplication]
  | .multiplication => []

/-- The symbols that can extend a phrase of a level. -/
def extenders : Level → List Symbol
  | .expression => .equal :: .leftParen :: Tier.all.flatMap Tier.operators
  | .tier t => .leftParen :: (t :: tighter t).flatMap Tier.operators
  | .unary => [.leftParen]
  | .call => [.leftParen]
  | .primary => []

/-- The token cannot extend a phrase of the level. -/
def Stops (l : Level) (t : Token) : Prop := (extenders l).any t.is = false

theorem stops_of_is {l : Level} {t : Token} {s : Symbol} (h : t.is s = true)
    (hs : s ∉ extenders l) : Stops l t := by
  rw [Stops, List.any_eq_false]
  intro s' hs'
  rw [Token.not_is_of_is h (fun he => hs (he ▸ hs'))]
  exact Bool.false_ne_true

/-- A token that ends a looser expression ends a tighter one, which fewer symbols extend. -/
theorem Stops.of_subset {l l' : Level} {t : Token} (h : Stops l t)
    (hs : ∀ s ∈ extenders l', s ∈ extenders l) : Stops l' t := by
  rw [Stops, List.any_eq_false] at *
  exact fun s hs' => h s (hs s hs')

theorem Stops.operand {t : Tier} {x : Token} (h : Stops (.tier t) x) : Stops (operandLevel t) x :=
  h.of_subset (by cases t <;> decide)

/-- Where an operation ends, none of its operators follows. -/
theorem Stops.not_operator {t : Tier} {x : Token} (h : Stops (.tier t) x) :
    t.operators.any x.is = false := by
  rw [Stops, List.any_eq_false] at h
  rw [List.any_eq_false]
  intro s hs
  exact h s (by simp [extenders, hs])

/-- An operator of a tier does not extend its operands. -/
theorem stops_operator {t : Tier} {x : Token} (h : t.operators.any x.is = true) :
    Stops (operandLevel t) x := by
  obtain ⟨s, hs, hx⟩ := List.any_eq_true.1 h
  have hall : ∀ s ∈ t.operators, s ∉ extenders (operandLevel t) := by cases t <;> decide
  exact stops_of_is hx (hall s hs)

/-! ### How a phrase begins -/

/-- Whether a symbol can begin an expression. -/
def symbolStarts (s : Symbol) : Bool :=
  (Kind.symbol s).literal?.isSome || [.leftParen, .bang, .minus].contains s

/-- Whether a token can begin an expression. -/
def Starts (t : Token) : Prop :=
  t.kind.literal?.isSome = true ∨ t.kind.isIdentifier = true ∨
    [Symbol.leftParen, .bang, .minus].any t.is = true

theorem Starts.not_is {t : Token} {s : Symbol} (h : Starts t) (hs : symbolStarts s = false) :
    t.is s = false := by
  rw [symbolStarts, Bool.or_eq_false_iff] at hs
  rcases h with h | h | h
  · obtain ⟨v, hv⟩ := Option.isSome_iff_exists.1 h
    exact Token.not_is_of_literal hv (by simpa using hs.1)
  · exact Token.not_is_of_isIdentifier h s
  · obtain ⟨s', hs', ht⟩ := List.any_eq_true.1 h
    refine Token.not_is_of_is ht fun he => ?_
    rw [← he, List.contains_iff_mem.2 hs'] at hs
    cases hs.2

/-- An expression begins with a token that can begin one, whatever stands on its left edge. -/
theorem Lenient.Phrase.head : ∀ {l : Level} {ts : List Token} {e : Expr} {es : List ParseError},
    Lenient.Phrase l ts e es → ∃ t us, ts = t :: us ∧ Starts t
  | _, _, _, _, .assign h _ _ => by
    obtain ⟨t, us, rfl, ht⟩ := h.head
    exact ⟨t, _, rfl, ht⟩
  | _, _, _, _, .loosest h => h.head
  | _, _, _, _, .operation h _ _ => by
    obtain ⟨t, us, rfl, ht⟩ := h.head
    exact ⟨t, _, rfl, ht⟩
  | _, _, _, _, .operand h => h.head
  | _, _, _, _, .unary ho _ => by
    refine ⟨_, _, rfl, .inr (.inr ?_)⟩
    rcases Bool.or_eq_true .. ▸ ho with ho | ho
    · simp [ho]
    · simp [ho]
  | _, _, _, _, .callee h => h.head
  | _, _, _, _, .call h _ _ _ => by
    obtain ⟨t, us, rfl, ht⟩ := h.head
    exact ⟨t, _, rfl, ht⟩
  | _, _, _, _, .primary h => h.head
  | _, _, _, _, .literal h => ⟨_, _, rfl, .inl (by rw [h]; rfl)⟩
  | _, _, _, _, .reference h => ⟨_, _, rfl, .inr (.inl h)⟩
  | _, _, _, _, .group ho _ _ => ⟨_, _, rfl, .inr (.inr (by simp [ho]))⟩

theorem Lenient.Phrase.ne_nil {l : Level} {ts : List Token} {e : Expr} {es : List ParseError}
    (h : Lenient.Phrase l ts e es) : ts ≠ [] := by
  obtain ⟨t, us, rfl, -⟩ := h.head
  exact List.cons_ne_nil t us

/-! ### Levels and loops -/

/-- The reader of a level. -/
def levelReader (n : Nat) : Level → Parser Expr
  | .expression => assignment n (expression n)
  | .tier t => (t :: tighter t).foldr (tier n) (unary (call n (expression n)) n)
  | .unary => unary (call n (expression n)) n
  | .call => call n (expression n)
  | .primary => primary (expression n)

theorem levelReader_tier (n : Nat) (t : Tier) :
    levelReader n (.tier t) = tier n t (levelReader n (operandLevel t)) := by
  cases t <;> rfl

/-- The tiers are read from the loosest inwards. -/
theorem tiers_eq_levelReader (n : Nat) :
    tiers n (unary (call n (expression n)) n) = levelReader n (.tier .or) := rfl

/-- Reading the tokens leads into the loop of the tier. -/
def TierLoop (n d : Nat) (t : Tier) (ts : List Token) (e : Expr) (es : List ParseError) : Prop :=
  ∃ k, n + 1 ≤ k + ts.length ∧ ∀ previous next rest errors, Stops (operandLevel t) next →
    levelReader n (.tier t) ⟨previous, ts ++ next :: rest, d, errors⟩ =
      tierTail t (levelReader n (operandLevel t)) k e
        ⟨ts.getLastD previous, next :: rest, d, errors ++ es⟩

/-- Reading the tokens leads into the loop over calls. -/
def CallLoop (n d : Nat) (ts : List Token) (e : Expr) (es : List ParseError) : Prop :=
  ∃ k, n + 1 ≤ k + ts.length ∧ k ≤ n ∧ ∀ previous next rest errors,
    levelReader n .call ⟨previous, ts ++ next :: rest, d, errors⟩ =
      callTail (expression n) k e ⟨ts.getLastD previous, next :: rest, d, errors ++ es⟩

/-- What is shown of the phrases of a level. -/
def Reads (n d : Nat) : Level → List Token → Expr → List ParseError → Prop
  | .tier t, ts, e, es => TierLoop n d t ts e es
  | .call, ts, e, es => CallLoop n d ts e es
  | .unary, ts, e, es => ∀ m, ts.length ≤ m →
    Passes d (Stops .unary) (unary (call n (expression n)) m) ts e es
  | l, ts, e, es => Passes d (Stops l) (levelReader n l) ts e es

variable {n d : Nat} {ts us : List Token} {e : Expr} {es fs : List ParseError}

/-- The loop ends where nothing can extend the phrase. -/
theorem TierLoop.passes {t : Tier} (h : TierLoop n d t ts e es) (hn : ts.length ≤ n) :
    Passes d (Stops (.tier t)) (levelReader n (.tier t)) ts e es := by
  obtain ⟨k, hk, hrun⟩ := h
  intro previous next rest errors hnext
  obtain ⟨k, rfl⟩ : ∃ j, k = j + 1 := ⟨k - 1, by omega⟩
  rw [hrun _ _ _ _ hnext.operand, tierTail, seesOperator_bind, Cursor.seesOperator_cons,
    hnext.not_operator, if_neg Bool.false_ne_true]
  rfl

theorem CallLoop.passes (h : CallLoop n d ts e es) (hn : ts.length ≤ n) :
    Passes d (Stops .call) (levelReader n .call) ts e es := by
  obtain ⟨k, hk, -, hrun⟩ := h
  intro previous next rest errors hnext
  obtain ⟨k, rfl⟩ : ∃ j, k = j + 1 := ⟨k - 1, by omega⟩
  have hparen : next.is .leftParen = false := by simpa [Stops, extenders] using hnext
  rw [hrun, callTail, take_bind, Cursor.sees_cons, if_neg (by simp [hparen])]
  rfl

/-- Whoever reads a phrase at its own level passes it at that level. -/
theorem Reads.passes {l : Level} (h : Reads n d l ts e es) (hn : ts.length ≤ n) :
    Passes d (Stops l) (levelReader n l) ts e es := by
  cases l with
  | tier t => exact TierLoop.passes h hn
  | call => exact CallLoop.passes h hn
  | expression => exact h
  | unary => exact h n hn
  | primary => exact h

/-! ### One lemma for each rule -/

/-- One operand is the shortest chain of a tier. -/
theorem tierLoop_operand {t : Tier}
    (h : Passes d (Stops (operandLevel t)) (levelReader n (operandLevel t)) ts e es)
    (hne : ts ≠ []) : TierLoop n d t ts e es := by
  have hpos := List.length_pos_iff.2 hne
  refine ⟨n, by omega, fun previous next rest errors hnext => ?_⟩
  rw [levelReader_tier, tier, bind_of_ok (h previous next rest errors hnext)]

/-- A chain is lengthened on its right, so operators of one tier bind to the left. -/
theorem tierLoop_operation {t : Tier} {operator : Token} {left right : Expr}
    (hl : TierLoop n d t ts left es) (ho : t.operators.any operator.is = true)
    (hr : Passes d (Stops (operandLevel t)) (levelReader n (operandLevel t)) us right fs)
    (hn : (ts ++ operator :: us).length ≤ n) :
    TierLoop n d t (ts ++ operator :: us) (t.node left operator right) (es ++ fs) := by
  obtain ⟨k, hk, hrun⟩ := hl
  rw [List.length_append, List.length_cons] at hn
  obtain ⟨k, rfl⟩ : ∃ j, k = j + 1 := ⟨k - 1, by omega⟩
  refine ⟨k, by rw [List.length_append, List.length_cons]; omega, ?_⟩
  intro previous next rest errors hnext
  have hend : operator.isEnd = false := by
    obtain ⟨s, -, hs⟩ := List.any_eq_true.1 ho
    exact Token.isEnd_of_is hs
  -- the loop meets the operator, passes it, reads the operand and goes on
  rw [List.append_assoc, List.cons_append, hrun _ _ _ _ (stops_operator ho), tierTail,
    seesOperator_bind, Cursor.seesOperator_cons, if_pos ho, advance_bind, Cursor.advanced_cons hend,
    bind_of_ok (hr operator next rest _ hnext), getLastD_append, List.getLastD_cons,
    List.append_assoc]

/-- An operator in front uses up one step and one token. -/
theorem reads_unary {operator : Token} {right : Expr}
    (ho : (operator.is .bang || operator.is .minus) = true)
    (h : ∀ m, ts.length ≤ m →
      Passes d (Stops .unary) (unary (call n (expression n)) m) ts right es) :
    ∀ m, (operator :: ts).length ≤ m →
      Passes d (Stops .unary) (unary (call n (expression n)) m) (operator :: ts)
        (.unary operator right) es
  | m + 1, hm => by
    have hend : operator.isEnd = false := by
      rcases Bool.or_eq_true .. ▸ ho with ho | ho
      · exact Token.isEnd_of_is ho
      · exact Token.isEnd_of_is ho
    rw [unary]
    refine passes_peek ?_
    rw [if_pos ho]
    refine passes_advance hend ?_
    exact (h m (by simpa using hm)).bind_nil_silent (.pure _)

/-- An operand begins with no operator in front of it. -/
theorem Lenient.Phrase.call_head : ∀ {ts : List Token} {e : Expr} {es : List ParseError},
    Lenient.Phrase .call ts e es →
    ∃ t us, ts = t :: us ∧ (t.is .bang || t.is .minus) = false
  | _, _, _, .call h _ _ _ => by
    obtain ⟨t, us, rfl, ht⟩ := h.call_head
    exact ⟨t, _, rfl, ht⟩
  | _, _, _, .primary h => by
    cases h with
    | literal h =>
      refine ⟨_, _, rfl, ?_⟩
      rw [Token.not_is_of_literal h rfl, Token.not_is_of_literal h rfl]
      rfl
    | reference h =>
      refine ⟨_, _, rfl, ?_⟩
      rw [Token.not_is_of_isIdentifier h, Token.not_is_of_isIdentifier h]
      rfl
    | group ho _ _ =>
      refine ⟨_, _, rfl, ?_⟩
      rw [Token.not_is_of_is ho (by decide), Token.not_is_of_is ho (by decide)]
      rfl

/-- Without an operator in front, an operand is read as a call. -/
theorem reads_callee {t : Token}
    (h : Passes d (Stops .call) (levelReader n .call) (t :: ts) e es)
    (ht : (t.is .bang || t.is .minus) = false) :
    ∀ m, (t :: ts).length ≤ m →
      Passes d (Stops .unary) (unary (call n (expression n)) m) (t :: ts) e es
  | m + 1, _ => by
    rw [unary]
    refine passes_peek ?_
    rw [if_neg (by simp [ht])]
    exact h

/-- A primary expression is a callee without calls. -/
theorem callLoop_primary (h : Passes d (Stops .primary) (levelReader n .primary) ts e es)
    (hne : ts ≠ []) : CallLoop n d ts e es := by
  have hpos := List.length_pos_iff.2 hne
  refine ⟨n, by omega, Nat.le_refl n, fun previous next rest errors => ?_⟩
  exact bind_of_ok (h previous next rest errors rfl) _

/-- The loop meets the opening parenthesis, reads the arguments and goes on. -/
theorem callLoop_call {opening closing : Token} {callee : Expr} {arguments : List Expr}
    (hf : CallLoop n d ts callee es) (ho : opening.is .leftParen = true)
    (hargs : ∀ m, us.length ≤ m → Passes d (fun next => next.is .rightParen = true)
      (items (expression n) .tooManyArguments m) us arguments fs)
    (hc : closing.is .rightParen = true) (hn : (ts ++ opening :: (us ++ [closing])).length ≤ n) :
    CallLoop n d (ts ++ opening :: (us ++ [closing])) (.call callee closing arguments)
      (es ++ fs) := by
  obtain ⟨k, hk, hkn, hrun⟩ := hf
  simp only [List.length_append, List.length_cons, List.length_nil] at hn
  obtain ⟨k, rfl⟩ : ∃ j, k = j + 1 := ⟨k - 1, by omega⟩
  refine ⟨k, by simp only [List.length_append, List.length_cons]; omega, by omega, ?_⟩
  intro previous next rest errors
  rw [List.append_assoc, List.cons_append, List.append_assoc, List.singleton_append, hrun, callTail,
    take_bind, Cursor.sees_cons, if_pos ho, if_pos rfl, Cursor.advanced_cons (Token.isEnd_of_is ho),
    bind_of_ok (hargs k (by omega) opening closing (next :: rest) _ hc)]
  have hclose : expect .rightParen .parenAfterArguments
      ⟨us.getLastD opening, closing :: next :: rest, d, errors ++ es ++ fs⟩ =
      .ok closing ⟨closing, next :: rest, d, errors ++ es ++ fs⟩ := by
    rw [expect_apply, Cursor.sees_cons, if_pos hc, Cursor.advanced_cons (Token.isEnd_of_is hc)]
  rw [bind_of_ok hclose, getLastD_append, List.getLastD_cons, getLastD_append, List.append_assoc]
  rfl

theorem passes_literal {token : Token} {value : Literal} (h : token.kind.literal? = some value) :
    Passes d (Stops .primary) (levelReader n .primary) [token] (.literal value) [] := by
  rw [levelReader, primary]
  refine passes_peek ?_
  rw [h]
  exact passes_advance (Token.isEnd_of_literal h) (.pure _)

theorem passes_reference {name : Token} (h : name.kind.isIdentifier = true) :
    Passes d (Stops .primary) (levelReader n .primary) [name] (.reference name) [] := by
  rw [levelReader, primary]
  refine passes_peek ?_
  rw [Kind.literal?_of_isIdentifier h, if_pos h]
  exact passes_advance (Token.isEnd_of_isIdentifier h) (.pure _)

theorem passes_group {opening closing : Token} {inner : Expr} (ho : opening.is .leftParen = true)
    (h : Passes d (Stops .expression) (expression n) ts inner es)
    (hc : closing.is .rightParen = true) :
    Passes d (Stops .primary) (levelReader n .primary) (opening :: (ts ++ [closing]))
      (.group inner) es := by
  rw [levelReader, primary]
  refine passes_peek ?_
  have hk := Token.kind_of_is ho
  have hlit : opening.kind.literal? = none := by rw [hk]; rfl
  have hname : opening.kind.isIdentifier = false := by rw [hk]; rfl
  rw [hlit, if_neg (by simp [hname]), if_pos ho]
  refine passes_advance (Token.isEnd_of_is ho) ?_
  exact h.bind_silent (stops_of_is hc (by decide)) (passes_expect hc (.pure _))

/-- An expression without an assignment is one of the loosest tier. -/
theorem passes_loosest (h : Passes d (Stops (.tier .or)) (levelReader n (.tier .or)) ts e es) :
    Passes d (Stops .expression) (levelReader n .expression) ts e es := by
  intro previous next rest errors hnext
  have hequal : next.is .equal = false := by
    rw [Stops, extenders, List.any_cons, Bool.or_eq_false_iff] at hnext
    exact hnext.1
  have hstop : Stops (.tier .or) next := hnext.of_subset (by decide)
  rw [levelReader, assignment, tiers_eq_levelReader, bind_of_ok (h previous next rest errors hstop),
    peek_bind, Cursor.peek_cons, if_neg (by simp [hequal])]
  rfl

/-- The target is read first, and found to be none only when the value has been read. -/
theorem passes_assign {equals : Token} {target value : Expr}
    (hl : Passes d (Stops (.tier .or)) (levelReader n (.tier .or)) ts target es)
    (he : equals.is .equal = true)
    (hr : Passes d (Stops .expression) (expression n) us value fs) :
    Passes d (Stops .expression) (levelReader n .expression) (ts ++ equals :: us)
      (assigned target value) (es ++ fs ++ targetErrors target equals) := by
  rw [levelReader, assignment, tiers_eq_levelReader, List.append_assoc]
  refine hl.bind (stops_of_is he (by decide)) (passes_peek ?_)
  rw [if_pos he]
  refine passes_advance (Token.isEnd_of_is he) (hr.bind_nil ?_)
  cases target with
  | reference name => exact .pure _
  | _ => exact passes_reportIf (.pure _)

/-! ### Lists -/

/-- The tokens that can come after an item of a list. -/
def AfterItem (t : Token) : Prop := t.is .comma = true ∨ t.is .rightParen = true

/-- The reader of an item passes the tokens, if they are fewer than `n`. -/
structure ReadsItem {α : Type} (n d : Nat) (item : Parser α) (ts : List Token) (a : α)
    (es : List ParseError) : Prop where
  head : ∃ t us, ts = t :: us ∧ t.is .rightParen = false
  passes : ts.length < n → Passes d AfterItem item ts a es

/-- An item is too many if the allowed number was read before it. -/
theorem excess_cons (fault : ParseFault) (count : Nat) (t : Token) (ts : List Token) :
    excess fault count (t :: ts) =
      if decide (maxArguments ≤ count) then [⟨t, fault⟩] else [] := by
  by_cases h : 255 ≤ count
  · simp [excess, maxArguments, h]
  · simp [excess, maxArguments, h]

section Lists

variable {α : Type} {item : Parser α} {fault : ParseFault}

/-- Items are read one by one, and the one that is too many is reported where it begins. -/
theorem passes_separated : ∀ {count : Nat} {ts : List Token} {as : List α} {es : List ParseError},
    Lenient.Separated (ReadsItem n d item) fault count ts as es → ts.length < n →
    ∀ m, ts.length ≤ m →
      Passes d (fun next => next.is .rightParen = true) (separated item fault m count) ts as es
  | count, _, _, _, .one h, hn, m, hm => by
    obtain ⟨t, us, rfl, -⟩ := h.head
    obtain ⟨m, rfl⟩ : ∃ j, m = j + 1 := ⟨m - 1, by simp at hm; omega⟩
    rw [separated, excess_cons]
    refine passes_peek (passes_reportIf ?_)
    refine ((h.passes hn).mono fun _ hx => .inr hx).bind_nil_silent ?_
    exact passes_not_take (fun _ hx => Token.not_is_of_is hx (by decide)) (.pure _)
  | count, _, _, _, .more h hcomma hs, hn, m, hm => by
    obtain ⟨t, us, rfl, -⟩ := h.head
    simp only [List.length_append, List.length_cons] at hn hm
    obtain ⟨m, rfl⟩ : ∃ j, m = j + 1 := ⟨m - 1, by omega⟩
    rw [separated, excess_cons, List.append_assoc]
    refine passes_peek (passes_reportIf ((h.passes (by simp; omega)).bind (.inl hcomma) ?_))
    refine passes_take hcomma ?_
    exact (passes_separated hs (by omega) m (by omega)).bind_nil_silent (.pure _)

/-- A list with an item does not begin with the closing parenthesis. -/
theorem Lenient.Separated.head {count : Nat} {as : List α}
    (h : Lenient.Separated (ReadsItem n d item) fault count ts as es) :
    ∃ t us, ts = t :: us ∧ t.is .rightParen = false := by
  cases h with
  | one h => exact h.head
  | more h _ _ =>
    obtain ⟨t, us, rfl, ht⟩ := h.head
    exact ⟨t, _, rfl, ht⟩

theorem passes_items {as : List α} (h : Lenient.Items (ReadsItem n d item) fault ts as es)
    (hn : ts.length < n) (m : Nat) (hm : ts.length ≤ m) :
    Passes d (fun next => next.is .rightParen = true) (items item fault m) ts as es := by
  cases h with
  | none => exact passes_unlessSeen_nil (fun _ hx => hx) _ _
  | some h =>
    obtain ⟨t, us, rfl, ht⟩ := h.head
    exact passes_unlessSeen _ ht (passes_separated h hn m hm)

end Lists

/-! ### Phrases -/

theorem passes_expression (h : ∀ n, ts.length ≤ n → Reads n d .expression ts e es)
    (hn : ts.length < n) : Passes d (Stops .expression) (expression n) ts e es := by
  obtain ⟨n, rfl⟩ : ∃ j, n = j + 1 := ⟨n - 1, by omega⟩
  exact h n (by omega)

theorem readsItem_expression (h : Lenient.Phrase .expression ts e es)
    (hreads : ∀ n, ts.length ≤ n → Reads n d .expression ts e es) :
    ReadsItem n d (expression n) ts e es where
  head := by
    obtain ⟨t, us, rfl, ht⟩ := h.head
    exact ⟨t, us, rfl, ht.not_is (by decide)⟩
  passes hn := by
    refine (passes_expression hreads hn).mono fun x hx => ?_
    rcases hx with hx | hx
    · exact stops_of_is hx (by decide)
    · exact stops_of_is hx (by decide)

mutual

/-- Every phrase is read as its tree. -/
theorem Lenient.Phrase.reads (d : Nat) : ∀ {l : Level} {ts : List Token} {e : Expr}
    {es : List ParseError}, Lenient.Phrase l ts e es → ∀ n, ts.length ≤ n → Reads n d l ts e es
  | _, _, _, _, .assign hl he hr, n, hn => by
    rw [List.length_append, List.length_cons] at hn
    exact passes_assign ((hl.reads d n (by omega)).passes (by omega)) he
      (passes_expression (hr.reads d) (by omega))
  | _, _, _, _, .loosest h, n, hn => passes_loosest ((h.reads d n hn).passes hn)
  | _, _, _, _, .operation hl ho hr, n, hn => by
    have hlen := hn
    rw [List.length_append, List.length_cons] at hlen
    exact tierLoop_operation (hl.reads d n (by omega)) ho
      ((hr.reads d n (by omega)).passes (by omega)) hn
  | _, _, _, _, .operand h, n, hn =>
    tierLoop_operand ((h.reads d n hn).passes hn) h.ne_nil
  | _, _, _, _, .unary ho h, n, hn => by
    rw [List.length_cons] at hn
    exact reads_unary ho (h.reads d n (by omega))
  | _, _, _, _, .callee h, n, hn => by
    have hcall := (h.reads d n hn).passes hn
    obtain ⟨t, us, rfl, ht⟩ := h.call_head
    exact reads_callee hcall ht
  | _, _, _, _, .call hf ho hargs hc, n, hn => by
    have hlen := hn
    simp only [List.length_append, List.length_cons] at hlen
    exact callLoop_call (hf.reads d n (by omega)) ho
      (passes_items (reads_arguments d hargs n) (by omega)) hc hn
  | _, _, _, _, .primary h, n, hn => callLoop_primary (h.reads d n hn) h.ne_nil
  | _, _, _, _, .literal h, _, _ => passes_literal h
  | _, _, _, _, .reference h, _, _ => passes_reference h
  | _, _, _, _, .group ho h hc, n, hn => by
    simp only [List.length_append, List.length_cons] at hn
    exact passes_group ho (passes_expression (h.reads d) (by omega)) hc

theorem reads_arguments (d : Nat) : ∀ {ts : List Token} {as : List Expr} {es : List ParseError},
    Lenient.Items (Lenient.Phrase .expression) .tooManyArguments ts as es → ∀ n,
    Lenient.Items (ReadsItem n d (expression n)) .tooManyArguments ts as es
  | _, _, _, .none, _ => .none
  | _, _, _, .some h, n => .some (reads_separated d h n)

theorem reads_separated (d : Nat) : ∀ {count : Nat} {ts : List Token} {as : List Expr}
    {es : List ParseError},
    Lenient.Separated (Lenient.Phrase .expression) .tooManyArguments count ts as es → ∀ n,
    Lenient.Separated (ReadsItem n d (expression n)) .tooManyArguments count ts as es
  | _, _, _, _, .one h, _ => .one (readsItem_expression h (h.reads d))
  | _, _, _, _, .more h hcomma hs, n =>
    .more (readsItem_expression h (h.reads d)) hcomma (reads_separated d hs n)

end

/-- An expression is read to its end if nothing after it can extend it. -/
theorem Lenient.Phrase.passes (h : Lenient.Phrase .expression ts e es) (hn : ts.length < n) :
    Passes d (Stops .expression) (expression n) ts e es :=
  passes_expression (h.reads d) hn

end Grammar

end Lox
