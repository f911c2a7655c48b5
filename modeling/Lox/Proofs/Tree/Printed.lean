import Lox.Proofs.Decimal.Reading
import Lox.Proofs.Token.Spelling
import Lox.Proofs.Tree.Form
import Lox.Proofs.Tree.Roles

/-!
The form of a tree. The text of a tree is its form laid out, and if the tree was read from a text
the form is legible: the names, operators and numbers in it are words, and no string holds a quote.
-/

namespace Lox

/-! ### Forms of trees -/

/-- The first part of a list is a word. -/
def Form.headed (head : String) (parts : List Form) : Form := .list (.word head.toList :: parts)

/-- The form of a literal. -/
def Literal.form : Literal → Form
  | .nil => .word "nil".toList
  | .bool b => .word (if b then "true" else "false").toList
  | .number x => .word (Decimal.text literalWords x).toList
  | .string s => .quoted s.toList

/-- The form of a name. -/
def Token.form (name : Token) : Form := .word name.lexeme.toList

mutual

/-- The form of an expression. -/
def Expr.form : Expr → Form
  | .literal value => value.form
  | .group inner => .headed "group" [inner.form]
  | .unary operator right => .headed operator.lexeme [right.form]
  | .binary left operator right => .headed operator.lexeme [left.form, right.form]
  | .logical left operator right => .headed operator.lexeme [left.form, right.form]
  | .reference name => name.form
  | .assign name value => .headed "assign" [name.form, value.form]
  | .call callee _ arguments => .headed "call" (callee.form :: Expr.forms arguments)

/-- The forms of expressions. -/
def Expr.forms : List Expr → List Form
  | [] => []
  | e :: es => e.form :: Expr.forms es

end

mutual

/-- The form of a statement. -/
def Stmt.form : Stmt → Form
  | .print value => .headed "print" [value.form]
  | .expression value => .headed ";" [value.form]
  | .declare name initial => .headed "var" (name.form :: Expr.forms initial.toList)
  | .block body => .headed "block" (Stmt.forms body)
  | .ifThen condition thenBranch => .headed "if" [condition.form, thenBranch.form]
  | .ifElse condition thenBranch elseBranch =>
    .headed "if" [condition.form, thenBranch.form, elseBranch.form]
  | .whileDo condition body => .headed "while" [condition.form, body.form]
  | .function name params body =>
    .headed "fun" (name.form :: .list (params.map Token.form) :: Stmt.forms body)
  | .returns _ value => .headed "return" (Expr.forms value.toList)

/-- The forms of statements. -/
def Stmt.forms : List Stmt → List Form
  | [] => []
  | s :: ss => s.form :: Stmt.forms ss

end

theorem Expr.forms_eq_map (es : List Expr) : Expr.forms es = es.map Expr.form := by
  induction es with
  | nil => rw [Expr.forms, List.map_nil]
  | cons e es ih => rw [Expr.forms, List.map_cons, ih]

theorem Stmt.forms_eq_map (ss : List Stmt) : Stmt.forms ss = ss.map Stmt.form := by
  induction ss with
  | nil => rw [Stmt.forms, List.map_nil]
  | cons s ss ih => rw [Stmt.forms, List.map_cons, ih]

/-! ### Texts -/

@[simp] theorem Form.chars_word (cs : List Char) : (Form.word cs).chars = cs := by
  rw [Form.chars]

/-- A construct is laid out as a list that begins with its name. -/
theorem toList_parenthesized {head : String} {parts : List String} {fs : List Form}
    (h : parts.map String.toList = Form.charsAll fs) :
    (parenthesized head parts).toList = (Form.headed head fs).chars := by
  simp [parenthesized, Form.headed, Form.chars, Form.charsAll, ← h]

theorem toList_params (params : List Token) :
    ("(" ++ " ".intercalate (params.map Token.lexeme) ++ ")").toList =
      (Form.list (params.map Token.form)).chars := by
  simp [Form.chars, Form.charsAll_eq_map, Function.comp_def, Token.form]

theorem Literal.toList_text (value : Literal) : value.text.toList = value.form.chars := by
  cases value <;> simp [Literal.text, Literal.form, Form.chars]

mutual

/-- The text of an expression is its form laid out. -/
theorem Expr.toList_text : ∀ e : Expr, e.text.toList = e.form.chars
  | .literal value => by rw [Expr.text, Expr.form, value.toList_text]
  | .group inner => by
    rw [Expr.text, Expr.form]
    exact toList_parenthesized (by simp [Form.charsAll, inner.toList_text])
  | .unary _ right => by
    rw [Expr.text, Expr.form]
    exact toList_parenthesized (by simp [Form.charsAll, right.toList_text])
  | .binary left _ right | .logical left _ right => by
    rw [Expr.text, Expr.form]
    exact toList_parenthesized (by simp [Form.charsAll, left.toList_text, right.toList_text])
  | .reference name => by rw [Expr.text, Expr.form, Token.form, Form.chars]
  | .assign name value => by
    rw [Expr.text, Expr.form]
    exact toList_parenthesized (by simp [Form.charsAll, Token.form, value.toList_text])
  | .call callee _ arguments => by
    rw [Expr.text, Expr.form]
    exact toList_parenthesized
      (by simp [Form.charsAll, callee.toList_text, Expr.map_toList_texts arguments])

theorem Expr.map_toList_texts : ∀ es : List Expr,
    (Expr.texts es).map String.toList = Form.charsAll (Expr.forms es)
  | [] => by simp [Expr.texts, Expr.forms, Form.charsAll]
  | e :: es => by
    simp [Expr.texts, Expr.forms, Form.charsAll, e.toList_text, Expr.map_toList_texts es]

end

mutual

/-- The text of a statement is its form laid out. -/
theorem Stmt.toList_text : ∀ s : Stmt, s.text.toList = s.form.chars
  | .print value | .expression value => by
    rw [Stmt.text, Stmt.form]
    exact toList_parenthesized (by simp [Form.charsAll, value.toList_text])
  | .declare name none => by
    rw [Stmt.text, Stmt.form]
    exact toList_parenthesized (by simp [Form.charsAll, Token.form, Expr.forms])
  | .declare name (some initial) => by
    rw [Stmt.text, Stmt.form]
    exact toList_parenthesized
      (by simp [Form.charsAll, Token.form, Expr.forms, initial.toList_text])
  | .block body => by
    rw [Stmt.text, Stmt.form]
    exact toList_parenthesized (Stmt.map_toList_texts body)
  | .ifThen condition thenBranch => by
    rw [Stmt.text, Stmt.form]
    exact toList_parenthesized
      (by simp [Form.charsAll, condition.toList_text, thenBranch.toList_text])
  | .ifElse condition thenBranch elseBranch => by
    rw [Stmt.text, Stmt.form]
    exact toList_parenthesized (by
      simp [Form.charsAll, condition.toList_text, thenBranch.toList_text, elseBranch.toList_text])
  | .whileDo condition body => by
    rw [Stmt.text, Stmt.form]
    exact toList_parenthesized (by simp [Form.charsAll, condition.toList_text, body.toList_text])
  | .function name params body => by
    rw [Stmt.text, Stmt.form]
    exact toList_parenthesized (by
      simp only [List.map_cons, Form.charsAll, toList_params, Stmt.map_toList_texts body,
        Token.form, Form.chars_word])
  | .returns _ none => by
    rw [Stmt.text, Stmt.form]
    exact toList_parenthesized (by simp [Form.charsAll, Expr.forms])
  | .returns _ (some value) => by
    rw [Stmt.text, Stmt.form]
    exact toList_parenthesized (by simp [Form.charsAll, Expr.forms, value.toList_text])

theorem Stmt.map_toList_texts : ∀ ss : List Stmt,
    (Stmt.texts ss).map String.toList = Form.charsAll (Stmt.forms ss)
  | [] => by simp [Stmt.texts, Stmt.forms, Form.charsAll]
  | s :: ss => by
    simp [Stmt.texts, Stmt.forms, Form.charsAll, s.toList_text, Stmt.map_toList_texts ss]

end

/-- The text of a program has the forms of its statements on lines of their own. -/
theorem toList_programText (ss : List Stmt) :
    (programText ss).toList = ['\n'].intercalate (Form.charsAll (Stmt.forms ss)) := by
  rw [programText, String.toList_intercalate, Stmt.map_toList_texts]
  rfl

/-! ### Legible words -/

open Form

/-- A letter or digit is no parenthesis, no space and no quote. -/
theorem not_mem_marks_of_isWordPart {c : Char} (h : IsLetter c ∨ IsDigit c) : c ∉ marks := by
  obtain ⟨hsingle, -, -, hseparator, hnewline, hquote⟩ :=
    not_special_of_isWordPart (isWordPart_iff.2 h)
  simp only [marks, List.mem_cons, List.not_mem_nil, or_false, not_or]
  refine ⟨?_, hnewline, ?_, ?_, hquote⟩
  · rintro rfl
    cases hseparator
  · rintro rfl
    cases hsingle
  · rintro rfl
    cases hsingle

/-- A word of a text can be read back. -/
theorem legible_word_of_lexeme {cs rest : List Char} (h : Lexeme .word cs rest) :
    (Form.word cs).Legible := by
  cases h with
  | word hletter hparts =>
    refine .word (by simp) (List.forall_mem_cons.2 ⟨?_, fun d hd => ?_⟩)
    · exact not_mem_marks_of_isWordPart (.inl hletter)
    · exact not_mem_marks_of_isWordPart (hparts d hd)

/-- A numeral can be read back, with its point. -/
theorem legible_word_of_numeral {cs rest : List Char} (h : Lexeme .number cs rest) :
    (Form.word cs).Legible := by
  have hplain : ∀ {ds : List Char}, (∀ d ∈ ds, IsDigit d) → ∀ d ∈ ds, d ∉ marks :=
    fun hds d hd => not_mem_marks_of_isWordPart (.inr (hds d hd))
  cases h with
  | whole hne hdigits => exact .word hne (hplain hdigits)
  | fraction hne hdigits _ hdecimals =>
    refine .word (by simp) ?_
    rw [List.forall_mem_append, List.forall_mem_cons]
    exact ⟨hplain hdigits, by simp [marks], hplain hdecimals⟩

/-- Whether a text can stand as a word. -/
def isPlain (text : String) : Bool := !text.toList.isEmpty && text.toList.all (· ∉ marks)

theorem legible_word_of_isPlain {text : String} (h : isPlain text = true) :
    (word text.toList).Legible := by
  simp only [isPlain, Bool.and_eq_true, Bool.not_eq_true', List.isEmpty_eq_false_iff,
    List.all_eq_true, decide_eq_true_eq] at h
  exact .word h.1 h.2

/-- The words of a printed tree that are in no text: the names of the constructs, and of the values
that are neither numbers with digits nor strings. -/
def fixedWords : List String :=
  ["nil", "true", "false", "inf", "group", "assign", "call", "print", ";", "var", "block", "if",
    "while", "fun", "return"]

theorem legible_fixed {head : String} (h : head ∈ fixedWords) : (word head.toList).Legible := by
  have hplain : ∀ head ∈ fixedWords, isPlain head = true := by decide
  exact legible_word_of_isPlain (hplain head h)

/-- A construct is legible if its parts are. -/
theorem legible_headed {head : String} {parts : List Form} (hhead : (word head.toList).Legible)
    (hparts : ∀ f ∈ parts, Legible f) : (headed head parts).Legible :=
  .list (List.forall_mem_cons.2 ⟨hhead, hparts⟩)

/-! ### Tokens -/

namespace Token

variable {t : Token} {operators : List Symbol}

/-- An operator of a text is spelled as the symbol that it is. -/
theorem Operates.exists_symbol (h : t.Operates Spelled operators) :
    ∃ s ∈ operators, t.kind = .symbol s ∧ t.lexeme = s.spelling := by
  obtain ⟨s, hs, his⟩ := List.any_eq_true.1 h.operator
  have hspelled := h.known
  cases hspelled with
  | @symbol u line =>
    obtain rfl : u = s := by simpa [Token.is, Kind.symbol?] using his
    exact ⟨u, hs, rfl, rfl⟩
  | _ => simp [Token.is, Kind.symbol?] at his

theorem Names.spelled (h : t.Names Spelled) : t.kind = .identifier ∧
    Lexeme .word t.lexeme.toList [] ∧ ∀ s ∈ Symbol.words, s.spelling ≠ t.lexeme := by
  have hspelled := h.known
  have hname := h.identifier
  cases hspelled with
  | name hword hreserved => exact ⟨rfl, hword, hreserved⟩
  | _ => cases hname

/-- An operator of a text can be read back. -/
theorem Operates.legible (h : t.Operates Spelled operators)
    (hplain : ∀ s ∈ operators, isPlain s.spelling = true) : (word t.lexeme.toList).Legible := by
  obtain ⟨s, hs, -, hlexeme⟩ := h.exists_symbol
  rw [hlexeme]
  exact legible_word_of_isPlain (hplain s hs)

theorem Names.legible (h : t.Names Spelled) : t.form.Legible :=
  legible_word_of_lexeme h.spelled.2.1

end Token

/-! ### Trees -/

/-- A number of a text is the value of a numeral, and no string of a text holds a quote. -/
theorem Literal.InRole.spelled {value : Literal} (h : value.InRole Token.Spelled) :
    (∀ x, value = .number x → ∃ numeral, x = Decimal.read numeral) ∧
      ∀ s, value = .string s → '"' ∉ s.toList := by
  rcases h with rfl | ⟨t, ht, hvalue⟩
  · exact ⟨by simp, by simp⟩
  · cases ht with
    | @symbol s =>
      refine ⟨?_, ?_⟩
      all_goals
        rintro _ rfl
        cases s <;> cases hvalue
    | name => cases hvalue
    | string hquote =>
      cases hvalue
      exact ⟨by simp, by simpa using hquote⟩
    | @number numeral =>
      cases hvalue
      refine ⟨?_, by simp⟩
      rintro _ ⟨rfl⟩
      exact ⟨numeral, rfl⟩
    | ended => cases hvalue

/-- What is printed for a value of a text can be read back. -/
theorem Literal.InRole.legible {value : Literal} (h : value.InRole Token.Spelled) :
    value.form.Legible := by
  cases value with
  | nil => exact legible_fixed (by simp [fixedWords])
  | bool b => cases b <;> exact legible_fixed (by simp [fixedWords])
  | number x =>
    obtain ⟨numeral, rfl⟩ := h.spelled.1 x rfl
    -- a number too large is printed as a word, any other as a numeral
    rcases Decimal.text_read_cases literalWords numeral [] with ⟨-, htext⟩ | hnumeral
    · rw [Literal.form, htext]
      exact legible_fixed (by simp [fixedWords, literalWords])
    · exact legible_word_of_numeral hnumeral
  | string s => exact .quoted (h.spelled.2 s rfl)

/-- The form of an expression that was read from a text is legible. -/
theorem Expr.InRole.legible {e : Expr} (h : e.InRole Token.Spelled) : e.form.Legible := by
  -- the heads are fixed words or operators of a text, and the parts are legible by induction
  induction h with
  | literal hvalue =>
    rw [Expr.form]
    exact hvalue.legible
  | group _ ih =>
    rw [Expr.form]
    exact legible_headed (legible_fixed (by simp [fixedWords])) (by simpa using ih)
  | unary ho _ ih =>
    rw [Expr.form]
    exact legible_headed (ho.legible (by decide)) (by simpa using ih)
  | binary _ ho _ ihl ihr | logical _ ho _ ihl ihr =>
    rw [Expr.form]
    exact legible_headed (ho.legible (by decide)) (by simpa using ⟨ihl, ihr⟩)
  | reference hname =>
    rw [Expr.form]
    exact hname.legible
  | assign hname _ ih =>
    rw [Expr.form]
    exact legible_headed (legible_fixed (by simp [fixedWords])) (by simpa using ⟨hname.legible, ih⟩)
  | call _ _ _ ih iharguments =>
    rw [Expr.form, Expr.forms_eq_map]
    exact legible_headed (legible_fixed (by simp [fixedWords])) (by simpa using ⟨ih, iharguments⟩)

/-- The form of a statement that was read from a text is legible. -/
theorem Stmt.InRole.legible {s : Stmt} (h : s.InRole Token.Spelled) : s.form.Legible := by
  induction h with
  | print hvalue | expression hvalue =>
    rw [Stmt.form]
    exact legible_headed (legible_fixed (by simp [fixedWords])) (by simpa using hvalue.legible)
  | declare hname hinitial =>
    rw [Stmt.form, Expr.forms_eq_map]
    exact legible_headed (legible_fixed (by simp [fixedWords]))
      (by simpa using ⟨hname.legible, fun e he => (hinitial e he).legible⟩)
  | block _ ih =>
    rw [Stmt.form, Stmt.forms_eq_map]
    exact legible_headed (legible_fixed (by simp [fixedWords])) (by simpa using ih)
  | ifThen hcondition _ ih | whileDo hcondition _ ih =>
    rw [Stmt.form]
    exact legible_headed (legible_fixed (by simp [fixedWords]))
      (by simpa using ⟨hcondition.legible, ih⟩)
  | ifElse hcondition _ _ ihthen ihelse =>
    rw [Stmt.form]
    exact legible_headed (legible_fixed (by simp [fixedWords]))
      (by simpa using ⟨hcondition.legible, ihthen, ihelse⟩)
  | @function _ params _ hname hparams _ ih =>
    have hlist : (Form.list (params.map Token.form)).Legible :=
      .list (by simpa using fun p hp => (hparams p hp).legible)
    rw [Stmt.form, Stmt.forms_eq_map]
    exact legible_headed (legible_fixed (by simp [fixedWords]))
      (by simpa using ⟨hname.legible, hlist, ih⟩)
  | returns _ hvalue =>
    rw [Stmt.form, Expr.forms_eq_map]
    exact legible_headed (legible_fixed (by simp [fixedWords]))
      (by simpa using fun e he => (hvalue e he).legible)

end Lox
