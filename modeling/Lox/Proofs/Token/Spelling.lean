import Lox.Proofs.Token.LongestMatch

/-!
How the tokens of a text are spelled. A symbol has its one spelling, a name is a word that is not
reserved, a string holds no quote, and a number is the value of some numeral. So two symbols with
the same text are the same symbol, and no name can be taken for one.
-/

namespace Lox

/-- The token is spelled as the tokens of its kind are. -/
inductive Token.Spelled : Token → Prop
  | symbol {s : Symbol} {line : Nat} : Spelled ⟨.symbol s, s.spelling, line⟩
  | name {lexeme : String} {line : Nat} : Lexeme .word lexeme.toList [] →
    (∀ s ∈ Symbol.words, s.spelling ≠ lexeme) → Spelled ⟨.identifier, lexeme, line⟩
  | string {inside lexeme : String} {line : Nat} : '"' ∉ inside.toList →
    Spelled ⟨.string inside, lexeme, line⟩
  | number {numeral : List Char} {lexeme : String} {line : Nat} :
    Spelled ⟨.number (Decimal.read numeral), lexeme, line⟩
  | ended {lexeme : String} {line : Nat} : Spelled ⟨.endOfText, lexeme, line⟩

/-! ### Symbols -/

/-- No two symbols are spelled alike. -/
theorem Symbol.spelling_injective : Function.Injective Symbol.spelling := by
  intro s t h
  have hfind : ∀ s ∈ marks ++ words, (marks ++ words).find? (·.spelling = s.spelling) = some s := by
    decide
  have hmem : ∀ s : Symbol, s ∈ marks ++ words := by
    intro s
    cases s <;> decide
  have hs := hfind s (hmem s)
  rw [h, hfind t (hmem t)] at hs
  exact (Option.some.inj hs).symm

/-! ### Words and numerals -/

theorem Lexeme.isDigit_head {c : Char} {cs rest : List Char}
    (h : Lexeme .number (c :: cs) rest) : IsDigit c := by
  generalize htext : c :: cs = text at h
  cases h with
  | whole _ hdigits =>
    subst htext
    exact hdigits c List.mem_cons_self
  | fraction hne hdigits _ _ =>
    obtain ⟨d, ds, rfl⟩ := List.exists_cons_of_ne_nil hne
    obtain ⟨rfl, -⟩ := List.cons.inj htext
    exact hdigits c List.mem_cons_self

/-- No word is a numeral: one begins with a letter, the other with a digit. -/
theorem Lexeme.not_number {cs rest rest' : List Char} (h : Lexeme .word cs rest) :
    ¬ Lexeme .number cs rest' := by
  intro hnumber
  cases h with
  | word hletter _ =>
    have hword := classify_word (isWordStart_iff.2 hletter) []
    rw [classify_digit (isDigit_iff.2 hnumber.isDigit_head)] at hword
    cases hword

/-! ### Tokens of a text -/

variable {cs : List Char} {ps : List Piece} {ts : List Token} {es : List (Nat × String)}

theorem Lexeme.spelled {shape : Shape} {text rest : List Char} {kind : Kind}
    (h : Lexeme shape text rest) (hkind : Piece.Denotes ⟨shape, text⟩ kind) (line : Nat) :
    Token.Spelled ⟨kind, String.ofList text, line⟩ := by
  generalize hp : (⟨shape, text⟩ : Piece) = p at hkind
  cases hkind with
  | mark =>
    cases hp
    cases h with
    | mark => simpa using Token.Spelled.symbol
    | slash => exact Token.Spelled.symbol (s := .slash)
  | reserved =>
    cases hp
    simpa using Token.Spelled.symbol
  | name hname =>
    cases hp
    cases h with
    | word hletter hparts =>
      refine .name (by simpa using Lexeme.word hletter hparts) fun s hs heq => hname s hs ?_
      rw [heq, String.toList_ofList]
  | @string inside =>
    cases hp
    generalize htext : '"' :: (inside ++ ['"']) = text at h
    cases h with
    | @string between _ hquote =>
      obtain rfl : inside = between := by simpa using htext
      exact .string (by simpa using hquote)
  | number =>
    cases hp
    exact .number

theorem Cut.tail {p : Piece} (h : Cut cs (p :: ps)) : ∃ rest, Cut rest ps := by
  cases h with
  | longest _ _ hrest => exact ⟨_, hrest⟩
  | unexpected _ _ hrest => exact ⟨_, hrest⟩
  | unterminated _ => exact ⟨_, .done⟩

theorem Listed.spelled {line : Nat} (h : Listed line ps ts es) (hcut : Cut cs ps) :
    ∀ t ∈ ts, t.Spelled := by
  induction h generalizing cs with
  | done => simpa using Token.Spelled.ended
  | token hkind _ ih =>
    rw [List.forall_mem_cons]
    cases hcut with
    | longest hlexeme _ hrest => exact ⟨hlexeme.spelled hkind _, ih hrest⟩
    | unexpected => cases hkind
    | unterminated => cases hkind
  | silent _ _ ih | unexpected _ ih | unterminated _ ih =>
    obtain ⟨_, hrest⟩ := hcut.tail
    exact ih hrest

/-- Every token of a text is spelled as the tokens of its kind are. -/
theorem spelled_of_mem_tokens {source : String} : ∀ t ∈ (scan source).tokens, t.Spelled :=
  ((cut_pieces source.toList).listed 1).spelled (cut_pieces source.toList)

end Lox
