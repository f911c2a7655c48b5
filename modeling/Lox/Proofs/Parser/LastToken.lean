import Lox.Proofs.Grammar.Completeness.Passes
import Lox.Proofs.Parser.Steady

/-!
Reading a list without a mark for its end beside the same list with one. Where the list gives out,
the one cursor goes on showing the last token and the other shows the mark. Readers that ask whether
anything is left do alike, and so do those that look at the token only, unless the last token asks
for an operand: an operator in front of an operand asks itself for its own operand, and so does an
opening parenthesis. Such a reader is stuck, and beside it the other one fails at the mark.

What the last token can be where a reader is at work is known from what was read before it. So each
reader is described by a condition on the last token for where it starts and one for where it
answers; they matter only where the list has given out.
-/

namespace Lox

namespace Token

/-- An operand may begin with the token and must go on after it. -/
def opens (t : Token) : Bool := t.is .bang || t.is .minus || t.is .leftParen

/-- The token is no operand of its own. -/
def NoOperand (t : Token) : Prop := t.kind.literal? = none ∧ t.kind.isIdentifier = false

/-- An operand may end with the token. -/
def EndsOperand (t : Token) : Prop :=
  t.kind.literal?.isSome = true ∨ t.kind.isIdentifier = true ∨ t.is .rightParen = true

variable {t : Token} {s : Symbol}

theorem noOperand_of_is (h : t.is s = true) (hs : (Kind.symbol s).literal? = none) :
    t.NoOperand := by
  rw [NoOperand, kind_of_is h]
  exact ⟨hs, rfl⟩

theorem noOperand_of_isEnd (h : t.isEnd = true) : t.NoOperand := by
  obtain ⟨kind, lexeme, line⟩ := t
  cases kind <;> simp_all [NoOperand, isEnd, Kind.isEnd, Kind.literal?, Kind.isIdentifier]

theorem opens_of_isEnd (h : t.isEnd = true) : t.opens = false := by
  simp [opens, not_is_of_isEnd h]

theorem EndsOperand.not_is (h : t.EndsOperand) (hs : (Kind.symbol s).literal? = none)
    (hne : s ≠ .rightParen) : t.is s = false := by
  rcases h with h | h | h
  · obtain ⟨v, hv⟩ := Option.isSome_iff_exists.1 h
    exact not_is_of_literal hv hs
  · exact not_is_of_isIdentifier h s
  · exact not_is_of_is h hne.symm

theorem literal?_of_mem_operators {tier : Tier} (h : s ∈ tier.operators) :
    (Kind.symbol s).literal? = none ∧ s ≠ .rightParen := by
  cases tier <;> cases s <;> simp_all [Tier.operators, Kind.literal?]

/-- No operand ends with an operator. -/
theorem EndsOperand.not_operator (h : t.EndsOperand) (tier : Tier) :
    tier.operators.any t.is = false := by
  rw [List.any_eq_false]
  intro s hs
  have hop := literal?_of_mem_operators hs
  rw [h.not_is hop.1 hop.2]
  exact Bool.false_ne_true

end Token

/-- The error as it is reported without the mark, at the last token in its place. -/
def ParseError.atLast (last : Token) (e : ParseError) : ParseError :=
  if e.token.isEnd then ⟨last, e.fault⟩ else e

@[simp] theorem ParseError.fault_atLast (last : Token) (e : ParseError) :
    (e.atLast last).fault = e.fault := by
  unfold atLast
  split
  · rfl
  · rfl

/-! ### Cursors -/

namespace Cursor

/-- The first cursor is in a list with the given last token, and the second at the same place in the
list with a mark after it. The errors agree, and none says that an operand was wanted at the mark if
the last token asks for one. Where the list has given out, `P` is known. -/
structure Abreast (last mark : Token) (P : Prop) (c d : Cursor) : Prop where
  isEnd : mark.isEnd = true
  rest : d.rest = c.rest ++ [mark]
  previous : d.previous = c.previous
  depth : d.depth = c.depth
  noEnd : ∀ t ∈ c.rest, t.isEnd = false
  getLastD : c.rest.getLastD c.previous = last
  errors : c.errors = d.errors.map (ParseError.atLast last)
  operand : last.opens = true → ∀ e ∈ d.errors, e.token.isEnd = true → e.fault ≠ .expression
  known : c.rest = [] → P

variable {last mark : Token} {P Q : Prop} {c d : Cursor}

/-- Less may be known of where the list gives out. -/
theorem Abreast.mono (h : Abreast last mark P c d) (hPQ : P → Q) : Abreast last mark Q c d :=
  { h with known := fun hrest => hPQ (h.known hrest) }

/-- Something is left, or the list has given out. -/
theorem Abreast.left_or_out (h : Abreast last mark P c d) :
    Abreast last mark False c d ∨ c.rest = [] ∧ P := by
  cases hrest : c.rest with
  | nil => exact .inr ⟨rfl, h.known hrest⟩
  | cons t ts => exact .inl { h with known := fun hnil => by rw [hrest] at hnil; cases hnil }

theorem Abreast.rest_eq_cons (h : Abreast last mark False c d) :
    ∃ t ts, c.rest = t :: ts ∧ d.rest = t :: (ts ++ [mark]) ∧ t.isEnd = false := by
  obtain ⟨t, ts, hrest⟩ := List.exists_cons_of_ne_nil h.known
  have hend := h.noEnd
  rw [hrest, List.forall_mem_cons] at hend
  exact ⟨t, ts, hrest, by rw [h.rest, hrest, List.cons_append], hend.1⟩

/-- While something is left, the cursors show the same token, and it is no mark. -/
theorem Abreast.peek (h : Abreast last mark False c d) :
    d.peek = c.peek ∧ c.peek.isEnd = false := by
  obtain ⟨t, ts, hc, hd, ht⟩ := h.rest_eq_cons
  simp [Cursor.peek, hc, hd, ht]

/-- Where the list has given out, the one shows its last token and the other the mark. -/
theorem Abreast.peek_of_nil (h : Abreast last mark P c d) (hrest : c.rest = []) :
    c.peek = last ∧ d.peek = mark := by
  have hlast := h.getLastD
  have hd := h.rest
  rw [hrest] at hlast hd
  simp [Cursor.peek, hrest, hd, ← hlast]

theorem Abreast.atEnd (h : Abreast last mark P c d) : d.atEnd = c.atEnd := by
  rcases h.left_or_out with h | ⟨hrest, -⟩
  · obtain ⟨t, ts, hc, hd, -⟩ := h.rest_eq_cons
    rw [Cursor.atEnd, Cursor.atEnd, hc, hd]
  · simp [Cursor.atEnd, h.rest, hrest, h.isEnd]

theorem atEnd_of_nil (hrest : c.rest = []) : c.atEnd = true := by simp [Cursor.atEnd, hrest]

/-- A symbol is seen by both or by neither. -/
theorem Abreast.sees (h : Abreast last mark P c d) (s : Symbol) : d.sees s = c.sees s := by
  rcases h.left_or_out with h' | ⟨hrest, -⟩
  · rw [Cursor.sees, Cursor.sees, h.atEnd, h'.peek.1]
  · rw [Cursor.sees, Cursor.sees, h.atEnd, atEnd_of_nil hrest]
    rfl

theorem Abreast.of_not_atEnd (h : Abreast last mark P c d) (hend : c.atEnd = false) :
    Abreast last mark False c d :=
  h.left_or_out.resolve_right fun hout => by rw [atEnd_of_nil hout.1] at hend; cases hend

/-- A symbol that is seen is left. -/
theorem Abreast.of_sees {s : Symbol} (h : Abreast last mark P c d) (hsees : c.sees s = true) :
    Abreast last mark False c d :=
  h.of_not_atEnd (Parser.not_atEnd_of_sees hsees)

/-- An operator is not seen where the list has given out, if the last token is none. -/
theorem Abreast.seesOperator (h : Abreast last mark P c d) {t : Tier}
    (hlast : P → t.operators.any last.is = false) :
    (Abreast last mark False c d ∧ d.seesOperator t = c.seesOperator t) ∨
      c.seesOperator t = false ∧ d.seesOperator t = false := by
  rcases h.left_or_out with h' | ⟨hrest, hP⟩
  · refine .inl ⟨h', ?_⟩
    cases t with
    | or => exact h.sees .orWord
    | and => exact h.sees .andWord
    | _ => simp [Cursor.seesOperator, h'.peek.1]
  · obtain ⟨hc, hd⟩ := h.peek_of_nil hrest
    refine .inr ⟨?_, ?_⟩ <;> refine Bool.eq_false_iff.2 fun hsees => ?_
    · have hany := any_of_seesOperator hsees
      rw [hc, hlast hP] at hany
      cases hany
    · have hend := isEnd_of_seesOperator hsees
      rw [hd, h.isEnd] at hend
      cases hend

/-- If a token is the last to be passed, it is the last token. -/
theorem Abreast.advanced (h : Abreast last mark False c d) :
    Abreast last mark (last = c.peek) c.advanced d.advanced := by
  obtain ⟨t, ts, hc, hd, ht⟩ := h.rest_eq_cons
  have hcadv : c.advanced = { c with previous := t, rest := ts } := by
    simp [Cursor.advanced, hc, ht]
  have hdadv : d.advanced = { d with previous := t, rest := ts ++ [mark] } := by
    simp [Cursor.advanced, hd, ht]
  have hpeek : c.peek = t := by simp [Cursor.peek, hc]
  have hend := h.noEnd
  -- the last token is the last of what is left, or the one that was passed
  have hlast := h.getLastD
  rw [hc, List.forall_mem_cons] at hend
  rw [hc, List.getLastD_cons] at hlast
  rw [hcadv, hdadv, hpeek]
  refine ⟨h.isEnd, rfl, rfl, h.depth, hend.2, hlast, h.errors, h.operand, fun hnil => ?_⟩
  have hts : ts = [] := hnil
  rw [hts] at hlast
  exact hlast.symm

/-- An error at a token that was passed. -/
theorem Abreast.report (h : Abreast last mark P c d) {token : Token} (htoken : token.isEnd = false)
    (fault : ParseFault) :
    Abreast last mark P (c.report token fault) (d.report token fault) := by
  refine { h with errors := ?_, operand := fun hopens => ?_ }
  · simp [Cursor.report, h.errors, ParseError.atLast, htoken]
  · rw [Cursor.report, List.forall_mem_append, List.forall_mem_singleton]
    exact ⟨h.operand hopens, fun hend => by rw [htoken] at hend; cases hend⟩

/-- An error where the cursors are. -/
theorem Abreast.report_peek (h : Abreast last mark P c d) {fault : ParseFault}
    (hfault : c.rest = [] → last.opens = true → fault ≠ .expression) :
    Abreast last mark P (c.report c.peek fault) (d.report d.peek fault) := by
  rcases h.left_or_out with h' | ⟨hrest, -⟩
  · rw [h'.peek.1]
    exact h.report h'.peek.2 fault
  · obtain ⟨hc, hd⟩ := h.peek_of_nil hrest
    rw [hc, hd]
    refine { h with errors := ?_, operand := fun hopens => ?_ }
    · simp [Cursor.report, h.errors, ParseError.atLast, h.isEnd]
    · rw [Cursor.report, List.forall_mem_append, List.forall_mem_singleton]
      exact ⟨h.operand hopens, fun _ => hfault hrest hopens⟩

/-- The mark is all that is left, and an operand was wanted there although the last token asks for
one. -/
structure Wants (last mark : Token) (d : Cursor) : Prop where
  isEnd : mark.isEnd = true
  opens : last.opens = true
  rest : d.rest = [mark]
  error : ⟨mark, .expression⟩ ∈ d.errors

theorem Wants.atEnd (h : Wants last mark d) : d.atEnd = true := by
  rw [Cursor.atEnd, h.rest]
  exact h.isEnd

end Cursor

open Cursor

namespace Parser

variable {α β : Type} {last mark : Token} {P P' Q Q' R : Prop} {c d : Cursor} {p : Parser α}
  {f : α → Parser β}

/-! ### Results -/

/-- The results agree, or the first reader is stuck and the second has failed at the mark. -/
inductive Outcome (last mark : Token) (Q : Prop) :
    EStateM.Result Halt Cursor α → EStateM.Result Halt Cursor α → Prop
  | ok {a : α} {c d : Cursor} : Abreast last mark Q c d → Outcome last mark Q (.ok a c) (.ok a d)
  | failed {c d : Cursor} : Abreast last mark True c d →
    Outcome last mark Q (.error .failed c) (.error .failed d)
  | stalled {c d : Cursor} : Outcome last mark Q (.error .stalled c) (.error .stalled d)
  | stuck {c d : Cursor} : Wants last mark d →
    Outcome last mark Q (.error .stalled c) (.error .failed d)

theorem Outcome.mono {r r' : EStateM.Result Halt Cursor α} (h : Outcome last mark Q r r')
    (hQ : Q → Q') : Outcome last mark Q' r r' := by
  cases h with
  | ok h => exact .ok (h.mono hQ)
  | failed h => exact .failed h
  | stalled => exact .stalled
  | stuck h => exact .stuck h

/-- Where the list has given out, the reader starts if `P` holds and answers if `Q` holds. -/
def Tracks (last mark : Token) (P Q : Prop) (p : Parser α) : Prop :=
  ∀ c d, Abreast last mark P c d → Outcome last mark Q (p c) (p d)

theorem Tracks.mono (h : Tracks last mark P Q p) (hP : P' → P) (hQ : Q → Q') :
    Tracks last mark P' Q' p :=
  fun c d hs => (h c d (hs.mono hP)).mono hQ

theorem Tracks.after (h : Tracks last mark P Q p) (hP : P' → P) : Tracks last mark P' Q p :=
  h.mono hP id

/-- What is stuck in its first part is stuck. -/
theorem Outcome.bind (hp : Outcome last mark Q (p c) (p d))
    (hf : ∀ a, Tracks last mark Q R (f a)) :
    Outcome last mark R ((p >>= f) c) ((p >>= f) d) := by
  generalize hc : p c = r at hp
  generalize hd : p d = r' at hp
  cases hp with
  | ok h =>
    rw [bind_of_ok hc, bind_of_ok hd]
    exact hf _ _ _ h
  | failed h =>
    rw [bind_of_error hc, bind_of_error hd]
    exact .failed h
  | stalled =>
    rw [bind_of_error hc, bind_of_error hd]
    exact .stalled
  | stuck h =>
    rw [bind_of_error hc, bind_of_error hd]
    exact .stuck h

theorem Tracks.bind (hp : Tracks last mark P Q p) (hf : ∀ a, Tracks last mark Q R (f a)) :
    Tracks last mark P R (p >>= f) :=
  fun c d hs => (hp c d hs).bind hf

theorem tracks_pure (a : α) : Tracks last mark P P (pure a : Parser α) := fun _ _ hs => .ok hs

theorem Tracks.map (hp : Tracks last mark P Q p) (f : α → β) :
    Tracks last mark P Q (f <$> p) := by
  rw [map_eq_pure_bind]
  exact hp.bind fun a => tracks_pure (f a)

/-! ### Small readers -/

theorem tracks_stall : Tracks last mark P Q (stall : Parser α) := fun _ _ _ => .stalled

/-- Where the list has given out, the readers look at different tokens. They go on alike if neither
token means anything to them. -/
theorem tracks_peek {f : Token → Parser β} {r : Parser β}
    (hleft : ∀ c d, Abreast last mark False c d → Outcome last mark R (f c.peek c) (f c.peek d))
    (hlast : P → f last = r) (hmark : mark.isEnd = true → f mark = r)
    (hr : Tracks last mark P R r) : Tracks last mark P R (peek >>= f) := by
  intro c d hs
  rw [peek_bind, peek_bind]
  rcases hs.left_or_out with hleft' | ⟨hrest, hP⟩
  · rw [hleft'.peek.1]
    exact hleft c d hleft'
  · obtain ⟨hc, hd⟩ := hs.peek_of_nil hrest
    rw [hc, hd, hlast hP, hmark hs.isEnd]
    exact hr c d hs

/-- A token that is left is passed. -/
theorem outcome_advance {f : Token → Parser β} (hs : Abreast last mark False c d)
    (hf : Tracks last mark (last = c.peek) R (f c.peek)) :
    Outcome last mark R ((advance >>= f) c) ((advance >>= f) d) := by
  have hd : d.peek.isEnd = false := hs.peek.1 ▸ hs.peek.2
  rw [advance_bind, advance_bind, previous_advanced hs.peek.2, previous_advanced hd, hs.peek.1]
  exact hf _ _ hs.advanced

/-- A symbol that is taken may be the last token. -/
theorem tracks_take {s : Symbol} {f : Bool → Parser β}
    (htaken : Tracks last mark (last.is s = true) R (f true))
    (hnot : Tracks last mark P R (f false)) : Tracks last mark P R (take s >>= f) := by
  intro c d hs
  rw [take_bind, take_bind, hs.sees]
  split
  · next hsees =>
    refine htaken _ _ ((hs.of_sees hsees).advanced.mono fun hlast => ?_)
    rw [hlast]
    exact is_of_sees hsees
  · exact hnot c d hs

theorem outcome_fail {fault : ParseFault} (hs : Abreast last mark P c d)
    (hfault : c.rest = [] → last.opens = true → fault ≠ .expression) :
    Outcome (α := α) last mark Q (fail fault c) (fail fault d) :=
  .failed ((hs.report_peek hfault).mono fun _ => trivial)

/-- A symbol that is wanted at the mark is reported by both, at the last token and at the mark. -/
theorem tracks_expect (s : Symbol) {fault : ParseFault} (hfault : fault ≠ .expression) :
    Tracks last mark P (last.is s = true) (expect s fault) := by
  intro c d hs
  rw [expect, sees_bind, sees_bind, hs.sees]
  split
  · next hsees =>
    rw [← bind_pure advance]
    refine outcome_advance (hs.of_sees hsees) ((tracks_pure _).mono id fun hlast => ?_)
    rw [hlast]
    exact is_of_sees hsees
  · exact outcome_fail hs fun _ _ => hfault

/-- A name is passed only where something is left. -/
theorem tracks_expectName {fault : ParseFault} (hfault : fault ≠ .expression) :
    Tracks last mark P last.EndsOperand (expectName fault) := by
  intro c d hs
  rw [expectName, peek_bind, peek_bind, atEnd_bind, atEnd_bind, hs.atEnd]
  cases hend : c.atEnd with
  | true =>
    rw [Bool.not_true, Bool.and_false, Bool.and_false]
    exact outcome_fail hs fun _ _ => hfault
  | false =>
    have hleft := hs.of_not_atEnd hend
    rw [hleft.peek.1]
    split
    · next hname =>
      rw [Bool.not_false, Bool.and_true] at hname
      rw [← bind_pure advance]
      refine outcome_advance hleft ((tracks_pure _).mono id fun hlast => ?_)
      rw [hlast]
      exact .inr (.inl hname)
    · exact outcome_fail hs fun _ _ => hfault

theorem Tracks.unlessSeen (hp : Tracks last mark P Q p) (s : Symbol) (a : α) :
    Tracks last mark P Q (unlessSeen s a p) := by
  intro c d hs
  rw [unlessSeen_apply, unlessSeen_apply, hs.sees]
  split
  · next hsees => exact .ok ((hs.of_sees hsees).mono False.elim)
  · exact hp c d hs

theorem Tracks.ifTaken {s : Symbol} (hp : Tracks last mark (last.is s = true) Q p) :
    Tracks last mark P True (ifTaken s p) :=
  tracks_take ((hp.map some).mono id fun _ => trivial)
    ((tracks_pure none).mono id fun _ => trivial)

theorem tracks_reportIf (forbidden : Bool) {token : Token} (htoken : token.isEnd = false)
    (fault : ParseFault) : Tracks last mark P P (reportIf forbidden token fault) := by
  intro c d hs
  unfold reportIf
  split
  · exact .ok (hs.report htoken fault)
  · exact .ok hs

/-- Too many items are reported at the token at the cursor, whatever it is. -/
theorem tracks_report_peek {f : Unit → Parser β} (forbidden : Bool) {fault : ParseFault}
    (hfault : fault ≠ .expression) (hf : Tracks last mark P R (f ())) :
    Tracks last mark P R (peek >>= fun next => reportIf forbidden next fault >>= f) := by
  intro c d hs
  rw [peek_bind, peek_bind, reportIf_bind, reportIf_bind]
  cases forbidden with
  | false => exact hf c d hs
  | true => exact hf _ _ (hs.report_peek fun _ _ => hfault)

/-- The depth is the same inside, too. -/
theorem Tracks.nested (hp : Tracks last mark True True p) :
    Tracks last mark P True (nested p) := by
  intro c d hs
  have hinner := hp { c with depth := c.depth + 1 } { d with depth := d.depth + 1 }
    { hs with depth := congrArg (· + 1) hs.depth, known := fun _ => trivial }
  unfold Parser.nested
  generalize p { c with depth := c.depth + 1 } = r at hinner
  generalize p { d with depth := d.depth + 1 } = r' at hinner
  cases hinner with
  | ok h => exact .ok { h with depth := congrArg (· - 1) h.depth }
  | failed h => exact .failed { h with depth := congrArg (· - 1) h.depth }
  | stalled => exact .stalled
  | stuck h => exact .stuck { h with }

/-! ### Readers that are stuck -/

/-- Where the list has given out after a token that asks for an operand, the reader is stuck. -/
def Sticks (p : Parser α) : Prop :=
  ∀ c : Cursor, c.rest = [] → c.previous.opens = true → p c = .error .stalled c

theorem sticks_stall : Sticks (stall : Parser α) := fun _ _ _ => rfl

theorem Sticks.bind (h : Sticks p) (f : α → Parser β) : Sticks (p >>= f) :=
  fun c hrest hopens => bind_of_error (h c hrest hopens) f

/-- There is no token to be passed. -/
theorem advance_bind_of_nil (hrest : c.rest = []) (f : Token → Parser β) :
    (advance >>= f) c = f c.previous c := by
  have hadvanced : c.advanced = c := by simp [advanced, hrest]
  rw [advance_bind, hadvanced]

variable {inner : Parser Expr}

/-- An operator asks itself for its operand, and a parenthesis for an expression inside it. -/
theorem Sticks.unary (h : Sticks inner) (n : Nat) : ∀ m, Sticks (unary (call n inner) m)
  | 0 => sticks_stall
  | m + 1 => by
    intro c hrest hopens
    have hpeek : c.peek = c.previous := by simp [Cursor.peek, hrest]
    -- nothing is passed, so the same token asks again
    rw [Parser.unary, peek_bind, hpeek]
    split
    · rw [advance_bind_of_nil hrest]
      exact (h.unary n m).bind _ c hrest hopens
    · next hnot =>
      have hparen : c.previous.is .leftParen = true := by
        rw [Token.opens, Bool.or_eq_true] at hopens
        exact hopens.resolve_left hnot
      have hprimary : primary inner c = .error .stalled c := by
        have hno := Token.noOperand_of_is hparen rfl
        rw [primary, peek_bind, hpeek, hno.1]
        dsimp only
        rw [hno.2, hparen, if_neg Bool.false_ne_true, if_pos rfl, advance_bind_of_nil hrest]
        exact h.bind _ c hrest hopens
      exact bind_of_error hprimary _

theorem Sticks.tiers {operand : Parser Expr} (h : Sticks operand) (n : Nat) :
    ∀ ts : List Tier, Sticks (ts.foldr (tier n) operand)
  | [] => h
  | _ :: ts => (h.tiers n ts).bind _

/-- After a token that asks for an operand no expression is read to its end. -/
theorem sticks_expression : ∀ n, Sticks (expression n)
  | 0 => sticks_stall
  | n + 1 => (((sticks_expression n).unary n n).tiers n Tier.all).bind _

/-- Where no operand begins, one is wanted. -/
theorem unary_fails (n m : Nat) (hno : c.peek.NoOperand) (hopens : c.peek.opens = false) :
    unary (call n inner) (m + 1) c = .error .failed (c.report c.peek .expression) := by
  simp only [Token.opens, Bool.or_eq_false_iff] at hopens
  obtain ⟨⟨hbang, hminus⟩, hparen⟩ := hopens
  have hprimary : primary inner c = .error .failed (c.report c.peek .expression) := by
    rw [primary, peek_bind, hno.1]
    dsimp only
    rw [hno.2, hparen, if_neg Bool.false_ne_true, if_neg Bool.false_ne_true]
    rfl
  rw [unary, peek_bind, hbang, hminus, Bool.or_false, if_neg Bool.false_ne_true]
  exact bind_of_error hprimary _

/-! ### Expressions -/

section

variable {operand : Parser Expr}

/-- An operand ends before the loop, so if the list gave out there, its last token is no operator.
-/
theorem tracks_tierTail (h : Tracks last mark last.NoOperand last.EndsOperand operand) (t : Tier) :
    ∀ n left, Tracks last mark last.EndsOperand last.EndsOperand (tierTail t operand n left)
  | 0, _ => tracks_stall
  | n + 1, left => by
    intro c d hs
    rw [tierTail, seesOperator_bind, seesOperator_bind]
    rcases hs.seesOperator fun hlast => hlast.not_operator t with ⟨hleft, heq⟩ | ⟨hc, hd⟩
    · rw [heq]
      split
      · next hop =>
        refine outcome_advance hleft ((h.after fun heq => ?_).bind fun right => ?_)
        · obtain ⟨s, hs, his⟩ := List.any_eq_true.1 (any_of_seesOperator hop)
          rw [heq]
          exact Token.noOperand_of_is his (Token.literal?_of_mem_operators hs).1
        · exact tracks_tierTail h t n _
      · exact .ok hs
    · -- where the list has given out, neither the last token nor the mark is an operator
      rw [hc, hd]
      exact .ok hs

theorem tracks_tiers (h : Tracks last mark last.NoOperand last.EndsOperand operand) (n : Nat) :
    ∀ ts : List Tier,
      Tracks last mark last.NoOperand last.EndsOperand (ts.foldr (tier n) operand)
  | [] => h
  | t :: ts => by
    have hts := tracks_tiers h n ts
    exact hts.bind fun left => tracks_tierTail hts t n left

end

/-- After a comma another item is wanted, and a comma ends no operand. -/
theorem tracks_separated {item : Parser α} {fault : ParseFault}
    (hitem : Tracks last mark last.NoOperand last.EndsOperand item)
    (hfault : fault ≠ .expression) : ∀ n count,
      Tracks last mark last.NoOperand True (separated item fault n count)
  | 0, _ => tracks_stall
  | n + 1, count => by
    refine tracks_report_peek _ hfault (hitem.bind fun first => ?_)
    refine tracks_take ?_ ((tracks_pure _).mono id fun _ => trivial)
    have hothers := (tracks_separated hitem hfault n (count + 1)).after fun hcomma =>
      Token.noOperand_of_is (s := .comma) hcomma rfl
    exact hothers.bind fun others => tracks_pure _

theorem tracks_items {item : Parser α} {fault : ParseFault}
    (hitem : Tracks last mark last.NoOperand last.EndsOperand item)
    (hfault : fault ≠ .expression) (n : Nat) :
    Tracks last mark (last.is .leftParen = true) True (items item fault n) :=
  ((tracks_separated hitem hfault n 0).unlessSeen .rightParen []).after fun hparen =>
    Token.noOperand_of_is hparen rfl

section

variable (h : Tracks last mark last.NoOperand last.EndsOperand inner)

include h

/-- What an opening parenthesis asks for, and the closing one after it. -/
theorem tracks_callTail : ∀ n callee,
    Tracks last mark last.EndsOperand last.EndsOperand (callTail inner n callee)
  | 0, _ => tracks_stall
  | n + 1, callee => by
    refine tracks_take ?_ (tracks_pure callee)
    refine (tracks_items h (by decide) n).bind fun args => ?_
    refine (tracks_expect .rightParen (by decide)).bind fun paren => ?_
    exact (tracks_callTail n _).after fun hparen => .inr (.inr hparen)

/-- An operand of which a token is left. -/
theorem tracks_primary : Tracks last mark False last.EndsOperand (primary inner) := by
  intro c d hs
  rw [primary, peek_bind, peek_bind, hs.peek.1]
  cases hvalue : c.peek.kind.literal? with
  | some value =>
    refine outcome_advance hs ((tracks_pure _).mono id fun hlast => .inl ?_)
    rw [hlast, hvalue]
    rfl
  | none =>
    dsimp only
    split
    · next hname =>
      refine outcome_advance hs ((tracks_pure _).mono id fun hlast => .inr (.inl ?_))
      rwa [hlast]
    split
    · next hparen =>
      have hinner : Tracks last mark (last = c.peek) last.EndsOperand inner :=
        h.after fun hlast => by
          rw [hlast]
          exact Token.noOperand_of_is hparen rfl
      refine outcome_advance hs (hinner.bind fun e => ?_)
      refine (tracks_expect .rightParen (by decide)).bind fun _ => ?_
      exact (tracks_pure _).mono id fun hclosing => .inr (.inr hclosing)
    · exact outcome_fail hs fun hrest => absurd hrest hs.known

theorem tracks_call (n : Nat) : Tracks last mark False last.EndsOperand (call n inner) :=
  (tracks_primary h).bind fun callee => tracks_callTail h n callee

/-- The one place where a reader can be stuck. -/
theorem tracks_unary (hsticks : Sticks inner) (n : Nat) : ∀ m,
    Tracks last mark last.NoOperand last.EndsOperand (unary (call n inner) m)
  | 0 => tracks_stall
  | m + 1 => by
    intro c d hs
    -- without an operand left, the one reader is stuck or fails, and the other fails at the mark
    rcases hs.left_or_out with hleft | ⟨hrest, hlast⟩
    · rw [unary, peek_bind, peek_bind, hleft.peek.1]
      split
      · next hop =>
        have hno : c.peek.NoOperand := by
          rcases Bool.or_eq_true .. ▸ hop with hop | hop
          · exact Token.noOperand_of_is hop rfl
          · exact Token.noOperand_of_is hop rfl
        have hright : Tracks last mark (last = c.peek) last.EndsOperand (unary (call n inner) m) :=
          (tracks_unary hsticks n m).after fun heq => heq ▸ hno
        exact outcome_advance hleft (hright.bind fun right => tracks_pure _)
      · exact tracks_call h n c d hleft
    · obtain ⟨hc, hd⟩ := hs.peek_of_nil hrest
      have hright : unary (call n inner) (m + 1) d = .error .failed (d.report d.peek .expression) :=
        unary_fails n m (hd ▸ Token.noOperand_of_isEnd hs.isEnd)
          (hd ▸ Token.opens_of_isEnd hs.isEnd)
      have hprevious : c.previous = last := by
        rw [← hc, Cursor.peek, hrest]
        rfl
      rw [hright]
      cases hopens : last.opens with
      | true =>
        rw [hsticks.unary n (m + 1) c hrest (hprevious ▸ hopens)]
        refine .stuck ⟨hs.isEnd, hopens, ?_, ?_⟩
        · rw [Cursor.report, hs.rest, hrest]
          rfl
        · rw [hd, Cursor.report]
          exact List.mem_append_right _ List.mem_cons_self
      | false =>
        rw [unary_fails n m (hc ▸ hlast) (hc ▸ hopens)]
        exact outcome_fail hs fun _ htrue => by rw [hopens] at htrue; cases htrue

/-- An equals sign that is last leaves no value to be read. -/
theorem tracks_assignment (hsticks : Sticks inner) (n : Nat) :
    Tracks last mark last.NoOperand last.EndsOperand (assignment n inner) := by
  refine (tracks_tiers (tracks_unary h hsticks n n) n Tier.all).bind fun left => ?_
  refine tracks_peek (fun c d hs => ?_) (fun hlast => ?_) (fun hmark => ?_) (tracks_pure left)
  · split
    · next hequal =>
      have hvalue : Tracks last mark (last = c.peek) last.EndsOperand inner :=
        h.after fun heq => by
          rw [heq]
          exact Token.noOperand_of_is hequal rfl
      refine outcome_advance hs (hvalue.bind fun value => ?_)
      split
      · exact tracks_pure _
      · exact (tracks_reportIf true (Token.isEnd_of_is hequal) _).bind fun _ => tracks_pure left
    · exact .ok (hs.mono False.elim)
  · rw [hlast.not_is rfl (by decide), if_neg Bool.false_ne_true]
  · rw [Token.not_is_of_isEnd hmark, if_neg Bool.false_ne_true]

end

/-- An expression is read alike with and without the mark, unless it is stuck. -/
theorem tracks_expression :
    ∀ n, Tracks last mark last.NoOperand last.EndsOperand (expression n)
  | 0 => tracks_stall
  | n + 1 => tracks_assignment (tracks_expression n) (sticks_expression n) n

end Parser

end Lox
