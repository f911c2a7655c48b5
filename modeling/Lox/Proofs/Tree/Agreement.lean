import Mathlib.Data.List.Forall2
import Lox.Proofs.Parser.Blame
import Lox.Proofs.Session.Run
import Lox.Proofs.Tree.Lines
import Lox.Proofs.Tree.Printed

/-!
What a printed tree says of the tree. Two trees agree if they have the same shape and the same
tokens up to their lines, where numbers count as the same if they are shown alike; and a number that
was too large agrees with a variable of the name that it is shown as. Two trees that were read, from
whatever texts, are printed alike if and only if they agree.
-/

namespace Lox

/-! ### Agreement -/

/-- The tokens are the same up to their lines. -/
def Token.Agrees (t u : Token) : Prop := t.reline noLine = u.reline noLine

/-- The expressions have the same shape and, up to lines and the digits of numbers, the same
tokens; or one is an infinite number where the other is the variable `inf`. -/
inductive Expr.Agrees : Expr → Expr → Prop
  | literal {value : Literal} : Agrees (.literal value) (.literal value)
  | number {x y : Float} : Decimal.text literalWords x = Decimal.text literalWords y →
    Agrees (.literal (.number x)) (.literal (.number y))
  | infiniteLeft {x : Float} {name : Token} : Decimal.Double.ofFloat x = .infinite false →
    name.kind = .identifier → name.lexeme = "inf" →
    Agrees (.literal (.number x)) (.reference name)
  | infiniteRight {x : Float} {name : Token} : Decimal.Double.ofFloat x = .infinite false →
    name.kind = .identifier → name.lexeme = "inf" →
    Agrees (.reference name) (.literal (.number x))
  | group {a b : Expr} : Agrees a b → Agrees (.group a) (.group b)
  | unary {o p : Token} {a b : Expr} : o.Agrees p → Agrees a b → Agrees (.unary o a) (.unary p b)
  | binary {o p : Token} {a b c d : Expr} : Agrees a b → o.Agrees p → Agrees c d →
    Agrees (.binary a o c) (.binary b p d)
  | logical {o p : Token} {a b c d : Expr} : Agrees a b → o.Agrees p → Agrees c d →
    Agrees (.logical a o c) (.logical b p d)
  | reference {n m : Token} : n.Agrees m → Agrees (.reference n) (.reference m)
  | assign {n m : Token} {a b : Expr} : n.Agrees m → Agrees a b →
    Agrees (.assign n a) (.assign m b)
  | call {f g : Expr} {o p : Token} {as bs : List Expr} : Agrees f g → o.Agrees p →
    List.Forall₂ Agrees as bs → Agrees (.call f o as) (.call g p bs)

/-- The statements have the same shape, the same tokens up to lines, and expressions that agree. -/
inductive Stmt.Agrees : Stmt → Stmt → Prop
  | print {a b : Expr} : a.Agrees b → Agrees (.print a) (.print b)
  | expression {a b : Expr} : a.Agrees b → Agrees (.expression a) (.expression b)
  | declare {n m : Token} {a b : Option Expr} : n.Agrees m →
    List.Forall₂ Expr.Agrees a.toList b.toList → Agrees (.declare n a) (.declare m b)
  | block {ss us : List Stmt} : List.Forall₂ Agrees ss us → Agrees (.block ss) (.block us)
  | ifThen {a b : Expr} {s u : Stmt} : a.Agrees b → Agrees s u →
    Agrees (.ifThen a s) (.ifThen b u)
  | ifElse {a b : Expr} {s t u v : Stmt} : a.Agrees b → Agrees s u → Agrees t v →
    Agrees (.ifElse a s t) (.ifElse b u v)
  | whileDo {a b : Expr} {s u : Stmt} : a.Agrees b → Agrees s u →
    Agrees (.whileDo a s) (.whileDo b u)
  | function {n m : Token} {ps qs : List Token} {ss us : List Stmt} : n.Agrees m →
    List.Forall₂ Token.Agrees ps qs → List.Forall₂ Agrees ss us →
    Agrees (.function n ps ss) (.function m qs us)
  | returns {k l : Token} {a b : Option Expr} : k.Agrees l →
    List.Forall₂ Expr.Agrees a.toList b.toList → Agrees (.returns k a) (.returns l b)

/-- Items that look alike one by one are related one by one, if looking alike relates them. -/
theorem forall₂_of_map_eq {α β : Type} {f : α → β} {P : α → Prop} {R : α → α → Prop}
    {xs ys : List α} (hxs : ∀ x ∈ xs, ∀ y, P y → f x = f y → R x y) (hys : ∀ y ∈ ys, P y)
    (h : xs.map f = ys.map f) : List.Forall₂ R xs ys := by
  induction xs generalizing ys with
  | nil =>
    rw [List.map_nil, eq_comm, List.map_eq_nil_iff] at h
    rw [h]
    exact .nil
  | cons x xs ih =>
    cases ys with
    | nil => cases h
    | cons y ys =>
      rw [List.map_cons, List.map_cons, List.cons.injEq] at h
      rw [List.forall_mem_cons] at hxs hys
      exact .cons (hxs.1 y hys.1 h.1) (ih hxs.2 hys.2 h.2)

/-! ### Tokens -/

namespace Token

variable {t u : Token} {operators others : List Symbol}

theorem agrees_iff : t.Agrees u ↔ t.kind = u.kind ∧ t.lexeme = u.lexeme := by
  simp [Agrees, reline, noLine]

/-- An operator of a text is known by its text. -/
theorem Operates.agrees (h : t.Operates Spelled operators) (h' : u.Operates Spelled others)
    (hlexeme : t.lexeme = u.lexeme) : t.Agrees u := by
  obtain ⟨s, -, hkind, hspelling⟩ := h.exists_symbol
  obtain ⟨s', -, hkind', hspelling'⟩ := h'.exists_symbol
  have hsame : s = s' := Symbol.spelling_injective (by rw [← hspelling, hlexeme, hspelling'])
  rw [agrees_iff, hkind, hkind', hsame]
  exact ⟨rfl, hlexeme⟩

theorem Operates.agrees_of_singleton {s : Symbol} (h : t.Operates Spelled [s])
    (h' : u.Operates Spelled [s]) : t.Agrees u := by
  obtain ⟨s', hs, -, hspelling⟩ := h.exists_symbol
  obtain ⟨s'', hs', -, hspelling'⟩ := h'.exists_symbol
  rw [List.mem_singleton] at hs hs'
  exact h.agrees h' (by rw [hspelling, hspelling', hs, hs'])

theorem Operates.lexeme_ne (h : t.Operates Spelled operators) {word : String}
    (hword : ∀ s ∈ operators, s.spelling ≠ word) : t.lexeme ≠ word := by
  obtain ⟨s, hs, -, hspelling⟩ := h.exists_symbol
  rw [hspelling]
  exact hword s hs

theorem Operates.lexeme_ne_lexeme (h : t.Operates Spelled operators)
    (h' : u.Operates Spelled others) (hdisjoint : ∀ s ∈ operators, s ∉ others) :
    t.lexeme ≠ u.lexeme := by
  obtain ⟨s, hs, -, hspelling⟩ := h'.exists_symbol
  rw [hspelling]
  exact h.lexeme_ne fun s' hs' heq => hdisjoint s' hs' (Symbol.spelling_injective heq ▸ hs)

theorem form_eq_iff : t.form = u.form ↔ t.lexeme = u.lexeme := by
  simp [form, String.toList_inj]

theorem Agrees.form_eq (h : t.Agrees u) : t.form = u.form := form_eq_iff.2 (agrees_iff.1 h).2

theorem map_form_eq {ps qs : List Token} (h : List.Forall₂ Agrees ps qs) :
    ps.map form = qs.map form := by
  induction h with
  | nil => rfl
  | cons h _ ih => rw [List.map_cons, List.map_cons, h.form_eq, ih]

/-- A name of a text is known by its text. -/
theorem Names.agrees (h : t.Names Spelled) (h' : u.Names Spelled) (hform : t.form = u.form) :
    t.Agrees u := by
  rw [agrees_iff, h.spelled.1, h'.spelled.1]
  exact ⟨rfl, form_eq_iff.1 hform⟩

end Token

/-! ### Forms -/

@[simp] theorem Form.headed_inj {head word : String} {fs gs : List Form} :
    Form.headed head fs = Form.headed word gs ↔ head = word ∧ fs = gs := by
  simp [Form.headed, String.toList_inj]

section

variable (t : Token) (value : Literal) (head : String) (fs : List Form)

@[simp] theorem Token.form_ne_headed : t.form ≠ .headed head fs := by
  simp [Token.form, Form.headed]

@[simp] theorem Form.headed_ne_name : Form.headed head fs ≠ t.form :=
  (t.form_ne_headed head fs).symm

@[simp] theorem Literal.form_ne_headed : value.form ≠ .headed head fs := by
  cases value <;> simp [Literal.form, Form.headed]

@[simp] theorem Form.headed_ne_literal : Form.headed head fs ≠ value.form :=
  (value.form_ne_headed head fs).symm

end

/-! ### Literals and names -/

section Leaves

variable {v w : Literal} {name : Token} {x : Float}

/-- The reserved words are words, and none of them is `inf`. -/
theorem Symbol.lexeme_spelling {s : Symbol} (h : s ∈ Symbol.words) :
    Lexeme .word s.spelling.toList [] ∧ s.spelling ≠ "inf" := by
  have hwords : ∀ s ∈ Symbol.words, s.spelling.toList.head?.any isWordStart = true ∧
      s.spelling.toList.tail.all isWordPart = true ∧ s.spelling ≠ "inf" := by
    decide
  obtain ⟨hhead, hparts, hne⟩ := hwords s h
  obtain ⟨c, hc, hletter⟩ := (Option.any_eq_true ..).1 hhead
  obtain ⟨cs, hcs⟩ := List.head?_eq_some_iff.1 hc
  rw [hcs, List.tail_cons, List.all_eq_true] at hparts
  rw [hcs]
  exact ⟨.word (isWordStart_iff.1 hletter) fun d hd => isWordPart_iff.1 (hparts d hd), hne⟩

/-- A number of a text that is shown as a word is infinite. -/
theorem Literal.InRole.infinite_of_word (h : (Literal.number x).InRole Token.Spelled)
    (hword : Lexeme .word (Decimal.text literalWords x).toList []) :
    Decimal.Double.ofFloat x = .infinite false ∧ Decimal.text literalWords x = "inf" := by
  obtain ⟨numeral, rfl⟩ := h.spelled.1 x rfl
  exact (Decimal.text_read_cases literalWords numeral []).resolve_right hword.not_number

/-- No number of a text is shown as a reserved word. -/
theorem Literal.InRole.form_ne_spelling (h : (Literal.number x).InRole Token.Spelled) {s : Symbol}
    (hs : s ∈ Symbol.words) : (Literal.number x).form ≠ .word s.spelling.toList := by
  intro heq
  have htext : Decimal.text literalWords x = s.spelling := String.toList_inj.1 (Form.word.inj heq)
  obtain ⟨hword, hne⟩ := Symbol.lexeme_spelling hs
  rw [← htext] at hword hne
  exact hne (h.infinite_of_word hword).2

/-- A literal is a reserved word, a number or a string. -/
theorem Literal.cases_form (v : Literal) :
    (∃ s ∈ Symbol.words, (Kind.symbol s).literal? = some v ∧ v.form = .word s.spelling.toList) ∨
      (∃ x, v = .number x) ∨ ∃ s, v = .string s := by
  cases v with
  | nil => exact .inl ⟨.nilWord, by decide, rfl, rfl⟩
  | bool b =>
    cases b with
    | false => exact .inl ⟨.falseWord, by decide, rfl, rfl⟩
    | true => exact .inl ⟨.trueWord, by decide, rfl, rfl⟩
  | number x => exact .inr (.inl ⟨x, rfl⟩)
  | string s => exact .inr (.inr ⟨s, rfl⟩)

theorem Literal.InRole.agrees_literal (hv : v.InRole Token.Spelled) (hw : w.InRole Token.Spelled)
    (h : v.form = w.form) : (Expr.literal v).Agrees (.literal w) := by
  rcases v.cases_form with ⟨s, hs, hsv, hform⟩ | ⟨x, rfl⟩ | ⟨s, rfl⟩
  · rcases w.cases_form with ⟨s', -, hsw, hform'⟩ | ⟨y, rfl⟩ | ⟨u, rfl⟩
    · rw [hform, hform', Form.word.injEq, String.toList_inj] at h
      rw [Symbol.spelling_injective h, hsw] at hsv
      cases hsv
      exact .literal
    · exact absurd (h.symm.trans hform) (hw.form_ne_spelling hs)
    · rw [hform] at h
      cases h
  · rcases w.cases_form with ⟨s', hs', -, hform'⟩ | ⟨y, rfl⟩ | ⟨u, rfl⟩
    · exact absurd (h.trans hform') (hv.form_ne_spelling hs')
    · exact .number (String.toList_inj.1 (Form.word.inj h))
    · cases h
  · rcases w.cases_form with ⟨s', -, -, hform'⟩ | ⟨y, rfl⟩ | ⟨u, rfl⟩
    · rw [hform'] at h
      cases h
    · cases h
    · rw [String.toList_inj.1 (Form.quoted.inj h)]
      exact .literal

/-- A literal is printed like a name only if it is infinite. -/
theorem Literal.InRole.infinite_of_name (hv : v.InRole Token.Spelled)
    (hname : name.Names Token.Spelled) (h : v.form = name.form) :
    ∃ x, v = .number x ∧ Decimal.Double.ofFloat x = .infinite false ∧ name.lexeme = "inf" := by
  obtain ⟨-, hword, hreserved⟩ := hname.spelled
  rcases v.cases_form with ⟨s, hs, -, hform⟩ | ⟨x, rfl⟩ | ⟨s, rfl⟩
  · rw [hform, Token.form, Form.word.injEq, String.toList_inj] at h
    exact absurd h (hreserved s hs)
  · have htext : Decimal.text literalWords x = name.lexeme :=
      String.toList_inj.1 (Form.word.inj h)
    rw [← htext] at hword ⊢
    exact ⟨x, rfl, hv.infinite_of_word hword⟩
  · cases h

end Leaves

/-! ### Expressions -/

/-- Expressions of texts that are printed alike agree. -/
theorem Expr.InRole.agrees {e : Expr} (h : e.InRole Token.Spelled) :
    ∀ u : Expr, u.InRole Token.Spelled → e.form = u.form → e.Agrees u := by
  -- the head of a form is a fixed word or an operator, and tells which kind of expression it is
  induction h with
  | literal hv =>
    intro u hu heq
    rw [Expr.form] at heq
    cases hu with
    | literal hw => exact hv.agrees_literal hw (by rwa [Expr.form] at heq)
    | reference hname =>
      rw [Expr.form] at heq
      obtain ⟨x, rfl, hx, hinf⟩ := hv.infinite_of_name hname heq
      exact .infiniteLeft hx hname.spelled.1 hinf
    | _ => simp [Expr.form] at heq
  | reference hname =>
    intro u hu heq
    rw [Expr.form] at heq
    cases hu with
    | literal hw =>
      rw [Expr.form] at heq
      obtain ⟨x, rfl, hx, hinf⟩ := hw.infinite_of_name hname heq.symm
      exact .infiniteRight hx hname.spelled.1 hinf
    | reference hname' =>
      rw [Expr.form] at heq
      exact .reference (hname.agrees hname' heq)
    | _ => simp [Expr.form] at heq
  | group _ ih =>
    intro u hu heq
    cases hu with
    | group hinner => exact .group (ih _ hinner (by simpa [Expr.form] using heq))
    | unary ho _ =>
      rw [Expr.form, Expr.form, Form.headed_inj] at heq
      exact absurd heq.1.symm (ho.lexeme_ne (by decide))
    | _ => simp [Expr.form] at heq
  | unary ho _ ih =>
    intro u hu heq
    cases hu with
    | unary ho' hright =>
      simp only [Expr.form, Form.headed_inj, List.cons.injEq, and_true] at heq
      exact .unary (ho.agrees ho' heq.1) (ih _ hright heq.2)
    | group _ | call _ _ _ =>
      rw [Expr.form, Expr.form, Form.headed_inj] at heq
      exact absurd heq.1 (ho.lexeme_ne (by decide))
    | _ => simp [Expr.form] at heq
  | binary _ ho _ ihl ihr =>
    intro u hu heq
    cases hu with
    | binary hleft ho' hright =>
      simp only [Expr.form, Form.headed_inj, List.cons.injEq, and_true] at heq
      exact .binary (ihl _ hleft heq.2.1) (ho.agrees ho' heq.1) (ihr _ hright heq.2.2)
    | logical _ ho' _ =>
      rw [Expr.form, Expr.form, Form.headed_inj] at heq
      exact absurd heq.1 (ho.lexeme_ne_lexeme ho' (by decide))
    | assign _ _ | call _ _ _ =>
      rw [Expr.form, Expr.form, Form.headed_inj] at heq
      exact absurd heq.1 (ho.lexeme_ne (by decide))
    | _ => simp [Expr.form] at heq
  | logical _ ho _ ihl ihr =>
    intro u hu heq
    cases hu with
    | logical hleft ho' hright =>
      simp only [Expr.form, Form.headed_inj, List.cons.injEq, and_true] at heq
      exact .logical (ihl _ hleft heq.2.1) (ho.agrees ho' heq.1) (ihr _ hright heq.2.2)
    | binary _ ho' _ =>
      rw [Expr.form, Expr.form, Form.headed_inj] at heq
      exact absurd heq.1 (ho.lexeme_ne_lexeme ho' (by decide))
    | assign _ _ | call _ _ _ =>
      rw [Expr.form, Expr.form, Form.headed_inj] at heq
      exact absurd heq.1 (ho.lexeme_ne (by decide))
    | _ => simp [Expr.form] at heq
  | assign hname _ ih =>
    intro u hu heq
    cases hu with
    | assign hname' hvalue =>
      simp only [Expr.form, Form.headed_inj, List.cons.injEq, and_true, true_and] at heq
      exact .assign (hname.agrees hname' heq.1) (ih _ hvalue heq.2)
    | binary _ ho _ | logical _ ho _ =>
      rw [Expr.form, Expr.form, Form.headed_inj] at heq
      exact absurd heq.1.symm (ho.lexeme_ne (by decide))
    | _ => simp [Expr.form] at heq
  | call _ hparen _ ih iharguments =>
    intro u hu heq
    cases hu with
    | call hcallee hparen' harguments =>
      simp only [Expr.form, Expr.forms_eq_map, Form.headed_inj, List.cons.injEq, true_and] at heq
      exact .call (ih _ hcallee heq.1) (hparen.agrees_of_singleton hparen')
        (forall₂_of_map_eq iharguments harguments heq.2)
    | unary ho _ | binary _ ho _ | logical _ ho _ =>
      rw [Expr.form, Expr.form, Form.headed_inj] at heq
      exact absurd heq.1.symm (ho.lexeme_ne (by decide))
    | _ => simp [Expr.form] at heq

mutual

/-- Expressions that agree are printed alike. -/
theorem Expr.Agrees.form_eq : ∀ {a b : Expr}, a.Agrees b → a.form = b.form
  | _, _, .literal => rfl
  | _, _, .number h => by rw [Expr.form, Expr.form, Literal.form, Literal.form, h]
  | _, _, .infiniteLeft hx _ hname => by
    rw [Expr.form, Expr.form, Literal.form, Token.form, hname, Decimal.text, hx]
    rfl
  | _, _, .infiniteRight hx _ hname => by
    rw [Expr.form, Expr.form, Literal.form, Token.form, hname, Decimal.text, hx]
    rfl
  | _, _, .group h => by rw [Expr.form, Expr.form, h.form_eq]
  | _, _, .unary ho h => by
    rw [Expr.form, Expr.form, (Token.agrees_iff.1 ho).2, h.form_eq]
  | _, _, .binary hl ho hr | _, _, .logical hl ho hr => by
    rw [Expr.form, Expr.form, (Token.agrees_iff.1 ho).2, hl.form_eq, hr.form_eq]
  | _, _, .reference h => by rw [Expr.form, Expr.form, h.form_eq]
  | _, _, .assign hname h => by
    rw [Expr.form, Expr.form, hname.form_eq, h.form_eq]
  | _, _, .call h _ hs => by rw [Expr.form, Expr.form, h.form_eq, Expr.forms_eq hs]

theorem Expr.forms_eq : ∀ {as bs : List Expr}, List.Forall₂ Expr.Agrees as bs →
    Expr.forms as = Expr.forms bs
  | _, _, .nil => rfl
  | _, _, .cons h hs => by rw [Expr.forms, Expr.forms, h.form_eq, Expr.forms_eq hs]

end

-- a numeral that is too large is printed like a variable
example : (Expr.literal (.number (Decimal.read ('1' :: List.replicate 309 '0')))).text =
    (Expr.reference ⟨.identifier, "inf", 1⟩).text := by decide +kernel

/-! ### Statements -/

theorem Expr.forall₂_agrees_of_option {a b : Option Expr}
    (ha : ∀ e ∈ a, e.InRole Token.Spelled) (hb : ∀ e ∈ b, e.InRole Token.Spelled)
    (h : Expr.forms a.toList = Expr.forms b.toList) :
    List.Forall₂ Expr.Agrees a.toList b.toList := by
  rw [Expr.forms_eq_map, Expr.forms_eq_map] at h
  exact forall₂_of_map_eq (fun e he => (ha e (Option.mem_toList.1 he)).agrees)
    (fun e he => hb e (Option.mem_toList.1 he)) h

/-- Statements of texts that are printed alike agree. No two constructs have the same first word. -/
theorem Stmt.InRole.agrees {s : Stmt} (h : s.InRole Token.Spelled) :
    ∀ u : Stmt, u.InRole Token.Spelled → s.form = u.form → s.Agrees u := by
  induction h with
  | print hvalue =>
    intro u hu heq
    cases hu with
    | print hvalue' => exact .print (hvalue.agrees _ hvalue' (by simpa [Stmt.form] using heq))
    | _ => simp [Stmt.form] at heq
  | expression hvalue =>
    intro u hu heq
    cases hu with
    | expression hvalue' =>
      exact .expression (hvalue.agrees _ hvalue' (by simpa [Stmt.form] using heq))
    | _ => simp [Stmt.form] at heq
  | declare hname hinitial =>
    intro u hu heq
    cases hu with
    | declare hname' hinitial' =>
      simp only [Stmt.form, Form.headed_inj, List.cons.injEq, true_and] at heq
      exact .declare (hname.agrees hname' heq.1)
        (Expr.forall₂_agrees_of_option hinitial hinitial' heq.2)
    | _ => simp [Stmt.form] at heq
  | block _ ih =>
    intro u hu heq
    cases hu with
    | block hbody =>
      exact .block (forall₂_of_map_eq ih hbody
        (by simpa [Stmt.form, Stmt.forms_eq_map] using heq))
    | _ => simp [Stmt.form] at heq
  | ifThen hcondition _ ih =>
    intro u hu heq
    cases hu with
    | ifThen hcondition' hthen =>
      simp only [Stmt.form, Form.headed_inj, List.cons.injEq, true_and, and_true] at heq
      exact .ifThen (hcondition.agrees _ hcondition' heq.1) (ih _ hthen heq.2)
    | _ => simp [Stmt.form] at heq
  | ifElse hcondition _ _ ihthen ihelse =>
    intro u hu heq
    cases hu with
    | ifElse hcondition' hthen helse =>
      simp only [Stmt.form, Form.headed_inj, List.cons.injEq, true_and, and_true] at heq
      exact .ifElse (hcondition.agrees _ hcondition' heq.1) (ihthen _ hthen heq.2.1)
        (ihelse _ helse heq.2.2)
    | _ => simp [Stmt.form] at heq
  | whileDo hcondition _ ih =>
    intro u hu heq
    cases hu with
    | whileDo hcondition' hbody =>
      simp only [Stmt.form, Form.headed_inj, List.cons.injEq, true_and, and_true] at heq
      exact .whileDo (hcondition.agrees _ hcondition' heq.1) (ih _ hbody heq.2)
    | _ => simp [Stmt.form] at heq
  | function hname hparams _ ih =>
    intro u hu heq
    cases hu with
    | function hname' hparams' hbody =>
      simp only [Stmt.form, Stmt.forms_eq_map, Form.headed_inj, List.cons.injEq, true_and,
        Form.list.injEq] at heq
      exact .function (hname.agrees hname' heq.1)
        (forall₂_of_map_eq (fun p hp _ hq => (hparams p hp).agrees hq) hparams' heq.2.1)
        (forall₂_of_map_eq ih hbody heq.2.2)
    | _ => simp [Stmt.form] at heq
  | returns hkeyword hvalue =>
    intro u hu heq
    cases hu with
    | returns hkeyword' hvalue' =>
      exact .returns (hkeyword.agrees_of_singleton hkeyword')
        (Expr.forall₂_agrees_of_option hvalue hvalue' (by simpa [Stmt.form] using heq))
    | _ => simp [Stmt.form] at heq

mutual

/-- Statements that agree are printed alike. -/
theorem Stmt.Agrees.form_eq : ∀ {s u : Stmt}, s.Agrees u → s.form = u.form
  | _, _, .print h | _, _, .expression h => by rw [Stmt.form, Stmt.form, h.form_eq]
  | _, _, .declare hname hs => by
    rw [Stmt.form, Stmt.form, hname.form_eq, Expr.forms_eq hs]
  | _, _, .block hs => by rw [Stmt.form, Stmt.form, Stmt.forms_eq hs]
  | _, _, .ifThen hc h | _, _, .whileDo hc h => by
    rw [Stmt.form, Stmt.form, hc.form_eq, h.form_eq]
  | _, _, .ifElse hc h h' => by rw [Stmt.form, Stmt.form, hc.form_eq, h.form_eq, h'.form_eq]
  | _, _, .function hname hparams hs => by
    rw [Stmt.form, Stmt.form, hname.form_eq, Token.map_form_eq hparams, Stmt.forms_eq hs]
  | _, _, .returns _ hs => by rw [Stmt.form, Stmt.form, Expr.forms_eq hs]

theorem Stmt.forms_eq : ∀ {ss us : List Stmt}, List.Forall₂ Stmt.Agrees ss us →
    Stmt.forms ss = Stmt.forms us
  | _, _, .nil => rfl
  | _, _, .cons h hs => by rw [Stmt.forms, Stmt.forms, h.form_eq, Stmt.forms_eq hs]

end

/-! ### Programs -/

/-- Programs of texts are printed alike if and only if they agree. -/
theorem Stmt.programText_eq_iff {ss us : List Stmt} (hss : ∀ s ∈ ss, s.InRole Token.Spelled)
    (hus : ∀ u ∈ us, u.InRole Token.Spelled) :
    programText ss = programText us ↔ List.Forall₂ Stmt.Agrees ss us := by
  have hlegible : ∀ {ss : List Stmt}, (∀ s ∈ ss, s.InRole Token.Spelled) →
      ∀ f ∈ Stmt.forms ss, f.Legible := by
    intro ss hss
    rw [Stmt.forms_eq_map]
    simpa using fun s hs => (hss s hs).legible
  rw [← String.toList_inj, toList_programText, toList_programText]
  constructor
  · intro htext
    have hforms := Form.lines_inj (hlegible hss) (hlegible hus) htext
    rw [Stmt.forms_eq_map, Stmt.forms_eq_map] at hforms
    exact forall₂_of_map_eq (fun s hs => (hss s hs).agrees) hus hforms
  · intro hagree
    rw [Stmt.forms_eq hagree]

/-- A printed tree determines the tree. The tokens of any two texts can be parsed, with or without
errors, and the trees that this gives are printed alike if and only if they have the same shape and
the same tokens up to lines, except that numbers only have to be shown alike and that an infinite
number may stand where the other tree has the variable `inf`. -/
theorem printed_tree_determines_tree (source other : String) : ∃ parsed parsed',
    parse (scan source).tokens = some parsed ∧ parse (scan other).tokens = some parsed' ∧
      (programText parsed.statements = programText parsed'.statements ↔
        List.Forall₂ Stmt.Agrees parsed.statements parsed'.statements) := by
  obtain ⟨parsed, hparsed, -⟩ := Source.exists_parsed source
  obtain ⟨parsed', hparsed', -⟩ := Source.exists_parsed other
  refine ⟨parsed, parsed', hparsed, hparsed', Stmt.programText_eq_iff ?_ ?_⟩
  · exact (parse_keeps hparsed spelled_of_mem_tokens).1
  · exact (parse_keeps hparsed' spelled_of_mem_tokens).1

end Lox
