import Lox.Proofs.Token.Counter

/-!
The tokens and the errors of a text are read off its pieces one by one, and there is one way only to
cut the text into pieces: each is the longest lexeme at its place.
-/

namespace Lox

variable {cs rest : List Char} {shape : Shape}

/-! ### Tokens and errors -/

/-- The kind of token that a piece stands for. A word is reserved if it is spelled like a reserved
word, and a name if not; a string denotes what stands between its quotes. -/
inductive Piece.Denotes : Piece → Kind → Prop
  | mark {s : Symbol} {text : List Char} : Denotes ⟨.mark s, text⟩ (.symbol s)
  | reserved {s : Symbol} : s ∈ Symbol.words → Denotes ⟨.word, s.spelling.toList⟩ (.symbol s)
  | name {text : List Char} : (∀ s ∈ Symbol.words, s.spelling.toList ≠ text) →
    Denotes ⟨.word, text⟩ .identifier
  | string {inside : List Char} :
    Denotes ⟨.string, '"' :: (inside ++ ['"'])⟩ (.string (String.ofList inside))
  | number {text : List Char} : Denotes ⟨.number, text⟩ (.number (Decimal.read text))

/-- The tokens of pieces that start on the given line, closed by a mark for the end, and the errors
in them with their lines. Token pieces and faulty pieces give one token and one error each, on the
line on which they end; blanks, newlines and comments give nothing. -/
inductive Listed : Nat → List Piece → List Token → List (Nat × String) → Prop
  | done {line : Nat} : Listed line [] [⟨.endOfText, "", line⟩] []
  | token {line : Nat} {p : Piece} {kind : Kind} {ps : List Piece} {ts : List Token}
      {es : List (Nat × String)} : p.Denotes kind →
    Listed (line + p.text.count '\n') ps ts es →
    Listed line (p :: ps) (⟨kind, String.ofList p.text, line + p.text.count '\n'⟩ :: ts) es
  | silent {line : Nat} {p : Piece} {ps : List Piece} {ts : List Token}
      {es : List (Nat × String)} : p.shape ∈ [Shape.blank, .newline, .comment] →
    Listed (line + p.text.count '\n') ps ts es → Listed line (p :: ps) ts es
  | unexpected {line : Nat} {text : List Char} {ps : List Piece} {ts : List Token}
      {es : List (Nat × String)} : Listed (line + text.count '\n') ps ts es →
    Listed line (⟨.unexpected, text⟩ :: ps) ts
      ((line + text.count '\n', "Unexpected character.") :: es)
  | unterminated {line : Nat} {text : List Char} {ps : List Piece} {ts : List Token}
      {es : List (Nat × String)} : Listed (line + text.count '\n') ps ts es →
    Listed line (⟨.unterminated, text⟩ :: ps) ts
      ((line + text.count '\n', "Unterminated string.") :: es)

theorem denotes_word (text : List Char) :
    ∃ kind, Piece.kind? ⟨.word, text⟩ = some kind ∧ Piece.Denotes ⟨.word, text⟩ kind := by
  cases h : Symbol.ofWord? (String.ofList text) with
  | some s =>
    have hspelling : text = s.spelling.toList := by
      have heq := List.find?_some h
      rw [of_decide_eq_true heq, String.toList_ofList]
    refine ⟨.symbol s, by simp [Piece.kind?, h], ?_⟩
    rw [hspelling]
    exact .reserved (List.mem_of_find?_eq_some h)
  | none =>
    refine ⟨.identifier, by simp [Piece.kind?, h], .name fun s hs hspelling => ?_⟩
    have hother := List.find?_eq_none.1 h s hs
    simp [← hspelling] at hother

/-- A lexeme is a token of the kind that it denotes, or is passed over. -/
theorem Lexeme.denotes {text : List Char} (h : Lexeme shape text rest) :
    (∃ kind, Piece.kind? ⟨shape, text⟩ = some kind ∧ Piece.Denotes ⟨shape, text⟩ kind) ∨
      Piece.kind? ⟨shape, text⟩ = none ∧ shape ∈ [Shape.blank, .newline, .comment] := by
  cases h with
  | mark => exact .inl ⟨_, rfl, .mark⟩
  | slash => exact .inl ⟨_, rfl, .mark⟩
  | string => exact .inl ⟨_, by simp [Piece.kind?], .string⟩
  | whole => exact .inl ⟨_, rfl, .number⟩
  | fraction => exact .inl ⟨_, rfl, .number⟩
  | word => exact .inl (denotes_word _)
  | blank => exact .inr ⟨rfl, by decide⟩
  | newline => exact .inr ⟨rfl, by decide⟩
  | comment => exact .inr ⟨rfl, by decide⟩

theorem Lexeme.error?_eq_none {text : List Char} (h : Lexeme shape text rest) (line : Nat) :
    Placed.error? ⟨line, shape, text⟩ = none := by
  cases h <;> rfl

/-- The line of an error and its message. -/
def ScanError.entry (e : ScanError) : Nat × String := (e.line, e.fault.message)

/-- The pieces of a text are listed as its tokens and errors. -/
theorem Cut.listed {ps : List Piece} (h : Cut cs ps) (line : Nat) :
    Listed line ps
      ((place line ps).filterMap Placed.token? ++ [⟨.endOfText, "", lastLine line ps⟩])
      (((place line ps).filterMap Placed.error?).map ScanError.entry) := by
  induction h generalizing line with
  | done => exact .done
  | @longest shape text rest ps hlexeme _ _ ih =>
    have hrest := ih (line + text.count '\n')
    have hline := hlexeme.lineAfter_eq line
    rw [place, lastLine_cons, hline,
      List.filterMap_cons_none (f := Placed.error?) (hlexeme.error?_eq_none _)]
    rcases hlexeme.denotes with ⟨kind, hkind, hdenotes⟩ | ⟨hkind, hsilent⟩
    · have htoken : Placed.token? ⟨line + text.count '\n', shape, text⟩ =
          some ⟨kind, String.ofList text, line + text.count '\n'⟩ := by
        rw [Placed.token?, hkind]
        rfl
      rw [List.filterMap_cons_some htoken, List.cons_append]
      exact .token hdenotes hrest
    · rw [List.filterMap_cons_none (by rw [Placed.token?, hkind]; rfl)]
      exact .silent hsilent hrest
  | @unexpected c rest ps hquote hnone hcut ih =>
    have hline := (Cut.unexpected hquote hnone hcut).lineAfter_eq List.mem_cons_self line
    have hrest := ih (line + [c].count '\n')
    rw [place, lastLine_cons, hline]
    exact .unexpected hrest
  | @unterminated inside hinside =>
    have hline := (Cut.unterminated hinside).lineAfter_eq List.mem_cons_self line
    rw [place, lastLine_cons, hline]
    exact .unterminated .done

/-- The scanner cuts a text, without loss, into the longest lexemes, open strings and characters
that fit nothing, as there is one way only to do; and it lists the tokens among these pieces, closed
by one mark for the end, and their errors. -/
theorem scan_longest_match (source : String) :
    ∃ ps, Cut source.toList ps ∧ (∀ ps', Cut source.toList ps' → ps' = ps) ∧
      ps.flatMap Piece.text = source.toList ∧ (∀ p ∈ ps, p.text ≠ []) ∧
      Listed 1 ps (scan source).tokens ((scan source).errors.map ScanError.entry) := by
  have hcut := cut_pieces source.toList
  refine ⟨pieces source.toList, hcut, fun ps' h => h.eq_pieces, flatMap_text_pieces _, ?_, ?_⟩
  · intro p hp
    exact text_ne_nil_of_mem_pieces hp
  · exact hcut.listed 1

end Lox
