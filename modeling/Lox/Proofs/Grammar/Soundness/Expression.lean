import Lox.Proofs.Grammar.Soundness.Basic
import Lox.Proofs.Grammar.Basic

/-!
An expression that is read without an error is a phrase of the grammar, and the answer is its tree.
The loops over operators and calls extend a phrase at its right end, whatever phrase was there
before; so what is shown of them starts from any such phrase.
-/

namespace Lox

open Lox.Parser

namespace Grammar

variable {α : Type} {c : Cursor} {n : Nat}

/-! ### Tiers -/

/-- What was read so far is an operation of the tier, and stays one with every operator and operand.
-/
theorem sound_tierTail {t : Tier} {operand : Parser Expr}
    (hop : ∀ c, c.Ended → Sound (fun ts e _ => Phrase (operandLevel t) ts e) c (operand c)) :
    ∀ (n : Nat) (left : Expr) (c : Cursor), c.Ended →
    Sound (fun ts e _ => ∀ us, Phrase (.tier t) us left → Phrase (.tier t) (us ++ ts) e) c
      (tierTail t operand n left c)
  | 0, _, _, _ => sound_stall
  | n + 1, left, c, hc => by
    rw [tierTail, seesOperator_bind]
    split
    · next h =>
      refine sound_advance hc (Cursor.isEnd_of_seesOperator h) fun d hd _ => ?_
      refine (hop d hd).bind hd fun right e he _ => ?_
      refine (sound_tierTail hop n _ e he).imp fun ts x _ hx us hus vs hvs => ?_
      have hleft := hx _ (.operation hvs (Cursor.any_of_seesOperator h) hus)
      simpa using hleft
    · refine .pure fun us hus => ?_
      rwa [List.append_nil]

theorem sound_tier {t : Tier} {operand : Parser Expr}
    (hop : ∀ c, c.Ended → Sound (fun ts e _ => Phrase (operandLevel t) ts e) c (operand c))
    (hc : c.Ended) : Sound (fun ts e _ => Phrase (.tier t) ts e) c (tier n t operand c) := by
  refine (hop c hc).bind hc fun left d hd _ => ?_
  exact (sound_tierTail hop n left d hd).imp fun ts e _ h us hus => h us (.operand hus)

/-- Each tier has the next tighter one for its operands. -/
theorem sound_tiers {operand : Parser Expr}
    (hop : ∀ c, c.Ended → Sound (fun ts e _ => Phrase .unary ts e) c (operand c)) (hc : c.Ended) :
    Sound (fun ts e _ => Phrase (.tier .or) ts e) c (tiers n operand c) := by
  -- from the tightest tier to the loosest, each takes its operands from the one before
  have h₁ := fun c hc => sound_tier (t := .multiplication) (n := n) (c := c) hop hc
  have h₂ := fun c hc => sound_tier (t := .addition) (n := n) (c := c) h₁ hc
  have h₃ := fun c hc => sound_tier (t := .comparison) (n := n) (c := c) h₂ hc
  have h₄ := fun c hc => sound_tier (t := .equality) (n := n) (c := c) h₃ hc
  have h₅ := fun c hc => sound_tier (t := .and) (n := n) (c := c) h₄ hc
  exact sound_tier (t := .or) h₅ hc

theorem sound_unary {operand : Parser Expr}
    (hop : ∀ c, c.Ended → Sound (fun ts e _ => Phrase .call ts e) c (operand c)) :
    ∀ (n : Nat) (c : Cursor), c.Ended →
    Sound (fun ts e _ => Phrase .unary ts e) c (unary operand n c)
  | 0, _, _ => sound_stall
  | n + 1, c, hc => by
    rw [unary, peek_bind]
    split
    · next h =>
      have hend : c.peek.isEnd = false := by
        rcases Bool.or_eq_true .. ▸ h with h | h
        · exact Token.isEnd_of_is h
        · exact Token.isEnd_of_is h
      refine sound_advance hc hend fun d hd _ => ?_
      refine (sound_unary hop n d hd).bind hd fun right e _ _ => .pure fun us hus => ?_
      rw [List.append_nil]
      exact .unary h hus
    · exact (hop c hc).imp fun ts e _ he => .callee he

/-! ### Lists -/

/-- The items, and that there are not too many of them. -/
theorem sound_separated {item : Parser α} {Item : List Token → α → Prop} {fault : ParseFault}
    (hitem : ∀ c, c.Ended → Sound (fun ts a _ => Item ts a) c (item c)) :
    ∀ (n count : Nat) (c : Cursor), c.Ended →
    Sound (fun ts as _ => Separated Item ts as ∧ count + as.length ≤ 255) c
      (separated item fault n count c)
  | 0, _, _, _ => sound_stall
  | n + 1, count, c, hc => by
    rw [separated, peek_bind]
    refine sound_reportIf hc fun d hd _ => ?_
    refine (hitem d hd).bind hd fun first e he _ => ?_
    refine sound_take he (fun hcomma e' he' _ => ?_) fun _ => ?_
    · refine (sound_separated hitem n (count + 1) e' he').bind he' fun others _ _ _ => ?_
      refine .pure fun vs hvs us hus _ => ?_
      rw [List.append_nil, List.length_cons]
      exact ⟨.more hus hcomma hvs.1, by have := hvs.2; omega⟩
    · refine .pure fun us hus hcount => ?_
      rw [decide_eq_false_iff_not, maxArguments] at hcount
      rw [List.append_nil, List.length_singleton]
      exact ⟨.one hus, by omega⟩

theorem sound_items {item : Parser α} {Item : List Token → α → Prop} {fault : ParseFault}
    (hitem : ∀ c, c.Ended → Sound (fun ts a _ => Item ts a) c (item c)) (hc : c.Ended) :
    Sound (fun ts as _ => Items Item ts as) c (items item fault n c) := by
  refine sound_unlessSeen .none ((sound_separated hitem n 0 c hc).imp fun ts as _ h => ?_)
  exact .some h.1 (by have := h.2; omega)

/-! ### Calls and operands -/

/-- What was read so far is a callee, and stays one with every list of arguments. -/
theorem sound_callTail {expression : Parser Expr}
    (hexpr : ∀ c, c.Ended → Sound (fun ts e _ => Phrase .expression ts e) c (expression c)) :
    ∀ (n : Nat) (callee : Expr) (c : Cursor), c.Ended →
    Sound (fun ts e _ => ∀ us, Phrase .call us callee → Phrase .call (us ++ ts) e) c
      (callTail expression n callee c)
  | 0, _, _, _ => sound_stall
  | n + 1, callee, c, hc => by
    rw [callTail]
    refine sound_take hc (fun ho d hd _ => ?_) fun _ => ?_
    · refine (sound_items hexpr hd).bind hd fun args e he _ => ?_
      refine sound_expect he fun closing e' hclose he' _ => ?_
      refine (sound_callTail hexpr n _ e' he').imp fun ts x _ hx us hus vs hvs => ?_
      have hcall := hx _ (.call hvs ho hus hclose)
      simpa using hcall
    · refine .pure fun us hus => ?_
      rwa [List.append_nil]

theorem sound_primary {expression : Parser Expr}
    (hexpr : ∀ c, c.Ended → Sound (fun ts e _ => Phrase .expression ts e) c (expression c))
    (hc : c.Ended) : Sound (fun ts e _ => Phrase .primary ts e) c (primary expression c) := by
  rw [primary, peek_bind]
  cases hlit : c.peek.kind.literal? with
  | some value =>
    exact sound_advance hc (Token.isEnd_of_literal hlit) fun d _ _ => .pure (.literal hlit)
  | none =>
    split
    · next h =>
      exact sound_advance hc (Token.isEnd_of_isIdentifier h) fun d _ _ => .pure (.reference h)
    split
    · next h =>
      refine sound_advance hc (Token.isEnd_of_is h) fun d hd _ => ?_
      refine (hexpr d hd).bind hd fun inner e he _ => ?_
      exact sound_expect he fun closing _ hclose _ _ => .pure fun us hus => .group h hus hclose
    · exact sound_fail .expression

theorem sound_call {expression : Parser Expr}
    (hexpr : ∀ c, c.Ended → Sound (fun ts e _ => Phrase .expression ts e) c (expression c))
    (hc : c.Ended) : Sound (fun ts e _ => Phrase .call ts e) c (call n expression c) := by
  refine (sound_primary hexpr hc).bind hc fun callee d hd _ => ?_
  exact (sound_callTail hexpr n callee d hd).imp fun ts e _ h us hus => h us (.primary hus)

/-! ### Expressions -/

/-- The only phrase with a name as its tree is the name itself. -/
theorem Phrase.eq_reference {name : Token} : ∀ {l : Level} {ts : List Token} {e : Expr},
    Phrase l ts e → e = .reference name → ts = [name] ∧ name.kind.isIdentifier = true
  | _, _, _, .loosest h, he => h.eq_reference he
  | _, _, _, .operand h, he => h.eq_reference he
  | _, _, _, .callee h, he => h.eq_reference he
  | _, _, _, .primary h, he => h.eq_reference he
  | _, _, _, .reference h, he => by
    cases he
    exact ⟨rfl, h⟩
  | _, _, _, .operation (t := t) _ _ _, he => by
    cases t <;> cases he
  | _, _, _, .assign _ _ _, he => by cases he
  | _, _, _, .unary _ _, he => by cases he
  | _, _, _, .call _ _ _ _, he => by cases he
  | _, _, _, .literal _, he => by cases he
  | _, _, _, .group _ _ _, he => by cases he

/-- Without a report, the target of an assignment is a name. -/
theorem sound_assignment {expression : Parser Expr}
    (hexpr : ∀ c, c.Ended → Sound (fun ts e _ => Phrase .expression ts e) c (expression c))
    (hc : c.Ended) :
    Sound (fun ts e _ => Phrase .expression ts e) c (assignment n expression c) := by
  have hunary := sound_unary (fun c hc => sound_call (n := n) hexpr hc) n
  rw [assignment]
  refine (sound_tiers hunary hc).bind hc fun left d hd _ => ?_
  rw [peek_bind]
  split
  · next h =>
    refine sound_advance hd (Token.isEnd_of_is h) fun e he _ => ?_
    refine (hexpr e he).bind he fun value e' he' _ => ?_
    split
    · refine .pure fun us hus vs hvs => ?_
      obtain ⟨rfl, hname⟩ := hvs.eq_reference rfl
      rw [List.append_nil]
      exact .assign hname h hus
    · exact sound_reportIf he' fun _ _ _ => .pure nofun
  · refine .pure fun us hus => ?_
    rw [List.append_nil]
    exact .loosest hus

/-- What is read as an expression is one. -/
theorem sound_expression : ∀ (n : Nat) (c : Cursor), c.Ended →
    Sound (fun ts e _ => Phrase .expression ts e) c (expression n c)
  | 0, _, _ => sound_stall
  | n + 1, _, hc => sound_assignment (sound_expression n) hc

end Grammar

end Lox
