import Lox.Proofs.Parser.Run

/-!
Readers that pass given tokens. `Passes d P p ts a es` says that the reader `p`, wherever it finds
the tokens `ts` before a token with the property `P`, passes exactly them, answers `a` and reports
the errors `es`. The lemmas build such a statement for a sequence of readers from its parts.
-/

namespace Lox

variable {α β : Type}

theorem Kind.literal?_of_isIdentifier {k : Kind} (h : k.isIdentifier = true) :
    k.literal? = none := by
  cases k <;> simp_all [isIdentifier, literal?]

namespace Token

theorem kind_of_is {t : Token} {s : Symbol} (h : t.is s = true) : t.kind = .symbol s := by
  obtain ⟨kind, lexeme, line⟩ := t
  cases kind <;> simp_all [is, Kind.symbol?]

/-- A token is one symbol only. -/
theorem is_of_is {t : Token} {s : Symbol} (h : t.is s = true) (s' : Symbol) :
    t.is s' = decide (s = s') := by
  simp [is, kind_of_is h, Kind.symbol?]

/-- A token is one symbol only. -/
theorem not_is_of_is {t : Token} {s s' : Symbol} (h : t.is s = true) (hne : s ≠ s') :
    t.is s' = false := by
  rw [is_of_is h]
  exact decide_eq_false hne

theorem not_is_of_literal {t : Token} {v : Literal} {s : Symbol} (h : t.kind.literal? = some v)
    (hs : (Kind.symbol s).literal? = none) : t.is s = false := by
  cases ht : t.is s with
  | false => rfl
  | true => rw [kind_of_is ht, hs] at h; cases h

theorem not_is_of_isIdentifier {t : Token} (h : t.kind.isIdentifier = true) (s : Symbol) :
    t.is s = false := by
  cases ht : t.is s with
  | false => rfl
  | true => rw [kind_of_is ht] at h; cases h

end Token

theorem Cursor.peek_cons (previous t : Token) (ts : List Token) (d : Nat)
    (errors : List ParseError) : (⟨previous, t :: ts, d, errors⟩ : Cursor).peek = t := rfl

theorem Cursor.sees_cons (previous t : Token) (ts : List Token) (d : Nat)
    (errors : List ParseError) (s : Symbol) :
    (⟨previous, t :: ts, d, errors⟩ : Cursor).sees s = t.is s := by
  cases h : t.is s with
  | false => simp [sees, peek, h]
  | true => simp [sees, peek, atEnd, h, Token.isEnd_of_is h]

theorem Cursor.seesOperator_cons (t : Tier) (previous next : Token) (ts : List Token) (d : Nat)
    (errors : List ParseError) :
    (Cursor.mk previous (next :: ts) d errors).seesOperator t = t.operators.any next.is := by
  cases t with
  | or => simp [seesOperator, Cursor.sees_cons, Tier.operators]
  | and => simp [seesOperator, Cursor.sees_cons, Tier.operators]
  | _ => rfl

theorem Cursor.advanced_cons {t : Token} (h : t.isEnd = false) (previous : Token)
    (ts : List Token) (d : Nat) (errors : List ParseError) :
    (⟨previous, t :: ts, d, errors⟩ : Cursor).advanced = ⟨t, ts, d, errors⟩ := by
  simp [advanced, h]

namespace Parser

/-- The reader passes the tokens, if a token with property `P` comes after them. -/
def Passes (d : Nat) (P : Token → Prop) (p : Parser α) (ts : List Token) (a : α)
    (es : List ParseError) : Prop :=
  ∀ previous next rest errors, P next →
    p ⟨previous, ts ++ next :: rest, d, errors⟩ =
      .ok a ⟨ts.getLastD previous, next :: rest, d, errors ++ es⟩

variable {d : Nat} {P Q : Token → Prop} {p : Parser α} {f : α → Parser β} {t : Token}
  {ts us : List Token} {a : α} {b : β} {es fs : List ParseError}

/-- What passes before many tokens passes before fewer. -/
theorem Passes.mono (h : Passes d P p ts a es) (hPQ : ∀ t, Q t → P t) : Passes d Q p ts a es :=
  fun previous next rest errors hnext => h previous next rest errors (hPQ next hnext)

theorem Passes.pure (a : α) : Passes d P (Pure.pure a) [] a [] := fun _ _ _ _ _ => by
  rw [List.append_nil]
  rfl

/-- One reader after another that passes the tokens next to its own. -/
theorem Passes.bind (hp : Passes d P p ts a es) (ht : P t) (hf : Passes d Q (f a) (t :: us) b fs) :
    Passes d Q (p >>= f) (ts ++ t :: us) b (es ++ fs) := by
  intro previous next rest errors hnext
  rw [List.append_assoc, List.cons_append,
    bind_of_ok (hp previous t (us ++ next :: rest) errors ht),
    ← List.cons_append, hf _ next rest _ hnext, getLastD_append, List.append_assoc]

/-- One reader before another that passes nothing. -/
theorem Passes.bind_nil (hp : Passes d P p ts a es) (hf : Passes d P (f a) [] b fs) :
    Passes d P (p >>= f) ts b (es ++ fs) := by
  intro previous next rest errors hnext
  rw [bind_of_ok (hp previous next rest errors hnext), ← List.nil_append (next :: rest),
    hf _ next rest _ hnext, List.append_assoc]
  rfl

/-- One reader before another that may pass something or nothing. -/
theorem Passes.bind_head (hp : Passes d P p ts a es) (hus : ∀ t vs, us = t :: vs → P t)
    (hPQ : ∀ t, Q t → P t) (hf : Passes d Q (f a) us b fs) :
    Passes d Q (p >>= f) (ts ++ us) b (es ++ fs) := by
  cases us with
  | nil =>
    rw [List.append_nil]
    exact (hp.mono hPQ).bind_nil hf
  | cons t us => exact hp.bind (hus t us rfl) hf

/-- The second reader may have nothing to report. -/
theorem Passes.bind_silent (hp : Passes d P p ts a es) (ht : P t)
    (hf : Passes d Q (f a) (t :: us) b []) : Passes d Q (p >>= f) (ts ++ t :: us) b es := by
  have h := hp.bind ht hf
  rwa [List.append_nil] at h

/-- The second reader may take nothing and report nothing. -/
theorem Passes.bind_nil_silent (hp : Passes d P p ts a es) (hf : Passes d P (f a) [] b []) :
    Passes d P (p >>= f) ts b es := by
  have h := hp.bind_nil hf
  rwa [List.append_nil] at h

theorem Passes.map (hp : Passes d P p ts a es) (g : α → β) : Passes d P (g <$> p) ts (g a) es :=
  fun previous next rest errors hnext => map_of_ok (hp previous next rest errors hnext) g

/-! ### Single tokens -/

theorem passes_peek {f : Token → Parser β} (hf : Passes d P (f t) (t :: ts) b es) :
    Passes d P (peek >>= f) (t :: ts) b es :=
  hf

theorem passes_atEnd {f : Bool → Parser β} (hf : Passes d P (f t.isEnd) (t :: ts) b es) :
    Passes d P (atEnd >>= f) (t :: ts) b es :=
  hf

theorem passes_sees {s : Symbol} {f : Bool → Parser β}
    (hf : Passes d P (f (t.is s)) (t :: ts) b es) : Passes d P (sees s >>= f) (t :: ts) b es := by
  intro previous next rest errors hnext
  rw [sees_bind, List.cons_append, Cursor.sees_cons]
  exact hf previous next rest errors hnext

theorem passes_advance {f : Token → Parser β} (ht : t.isEnd = false)
    (hf : Passes d P (f t) ts b es) : Passes d P (advance >>= f) (t :: ts) b es := by
  intro previous next rest errors hnext
  rw [advance_bind, List.cons_append, Cursor.advanced_cons ht, List.getLastD_cons]
  exact hf t next rest errors hnext

/-- The token that has to stand here is taken. -/
theorem passes_expect {s : Symbol} {fault : ParseFault} {f : Token → Parser β}
    (ht : t.is s = true) (hf : Passes d P (f t) ts b es) :
    Passes d P (expect s fault >>= f) (t :: ts) b es := by
  intro previous next rest errors hnext
  rw [List.cons_append, bind_of_ok (a := t) (d := ⟨t, ts ++ next :: rest, d, errors⟩),
    List.getLastD_cons]
  · exact hf t next rest errors hnext
  · rw [expect_apply, Cursor.sees_cons, if_pos ht, Cursor.advanced_cons (Token.isEnd_of_is ht)]

theorem passes_expectName {fault : ParseFault} {f : Token → Parser β}
    (ht : t.kind.isIdentifier = true) (hf : Passes d P (f t) ts b es) :
    Passes d P (expectName fault >>= f) (t :: ts) b es := by
  intro previous next rest errors hnext
  have hne := Token.isEnd_of_isIdentifier ht
  rw [List.cons_append, bind_of_ok (a := t) (d := ⟨t, ts ++ next :: rest, d, errors⟩),
    List.getLastD_cons]
  · exact hf t next rest errors hnext
  · rw [expectName_apply, Cursor.advanced_cons hne]
    simp [Cursor.peek, Cursor.atEnd, ht, hne]

/-- A symbol that comes next is taken. -/
theorem passes_take {s : Symbol} {f : Bool → Parser β} (ht : t.is s = true)
    (hf : Passes d P (f true) ts b es) : Passes d P (take s >>= f) (t :: ts) b es := by
  intro previous next rest errors hnext
  rw [take_bind, List.cons_append, Cursor.sees_cons, if_pos ht,
    Cursor.advanced_cons (Token.isEnd_of_is ht), List.getLastD_cons]
  exact hf t next rest errors hnext

/-- A symbol that cannot come next is not taken. -/
theorem passes_not_take {s : Symbol} {f : Bool → Parser β} (hP : ∀ t, P t → t.is s = false)
    (hf : Passes d P (f false) [] b es) : Passes d P (take s >>= f) [] b es := by
  intro previous next rest errors hnext
  rw [take_bind, List.nil_append, Cursor.sees_cons, if_neg (by simp [hP next hnext])]
  exact hf previous next rest errors hnext

/-- Before the closing token nothing is read. -/
theorem passes_unlessSeen_nil {s : Symbol} (hP : ∀ t, P t → t.is s = true) (a : α) (p : Parser α) :
    Passes d P (unlessSeen s a p) [] a [] := by
  intro previous next rest errors hnext
  rw [unlessSeen_apply, List.nil_append, Cursor.sees_cons, if_pos (hP next hnext), List.append_nil]
  rfl

theorem passes_unlessSeen {s : Symbol} (a' : α) (ht : t.is s = false)
    (hp : Passes d P p (t :: ts) a es) : Passes d P (unlessSeen s a' p) (t :: ts) a es := by
  intro previous next rest errors hnext
  rw [unlessSeen_apply, List.cons_append, Cursor.sees_cons, if_neg (by simp [ht])]
  exact hp previous next rest errors hnext

/-- Without the token in front, the part is left out. -/
theorem passes_ifTaken_nil {s : Symbol} (hP : ∀ t, P t → t.is s = false) (p : Parser α) :
    Passes d P (ifTaken s p) [] none [] :=
  passes_not_take hP (.pure none)

/-- With the token in front, the part is read. -/
theorem passes_ifTaken {s : Symbol} (ht : t.is s = true) (hp : Passes d P p ts a es) :
    Passes d P (ifTaken s p) (t :: ts) (some a) es :=
  passes_take ht (hp.map some)

/-- A report takes no token and does not stop the reading. -/
theorem passes_reportIf {forbidden : Bool} {token : Token} {fault : ParseFault}
    {f : Unit → Parser β} (hf : Passes d P (f ()) ts b es) :
    Passes d P (reportIf forbidden token fault >>= f) ts b
      ((if forbidden then [⟨token, fault⟩] else []) ++ es) := by
  intro previous next rest errors hnext
  rw [reportIf_bind]
  cases forbidden with
  | false => exact hf previous next rest errors hnext
  | true =>
    rw [if_pos rfl, if_pos rfl, ← List.append_assoc]
    exact hf previous next rest _ hnext

/-- Inside a function body the depth is one more. -/
theorem passes_nested (hp : Passes (d + 1) P p ts a es) : Passes d P (nested p) ts a es := by
  intro previous next rest errors hnext
  rw [nested, hp previous next rest errors hnext]
  rfl

/-- Where nothing fails there is nothing to recover from. -/
theorem passes_recovering {p : Parser Stmt} {s : Stmt} (hp : Passes d P p ts s es) :
    Passes d P (recovering p) ts (some s) es := by
  intro previous next rest errors hnext
  rw [recovering, hp previous next rest errors hnext]

end Parser

end Lox
