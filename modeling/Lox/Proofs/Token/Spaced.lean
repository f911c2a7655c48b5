import Lox.Proofs.Token.LongestMatch

/-!
The tokens of a text, written down again with single spaces between them. A space ends every token
that it does not stand inside of, as the end of the text does: so each token is cut off where it
was, whatever stood around it before. What comes back are the same tokens, and nothing else is
found.
-/

namespace Lox

variable {c : Char} {cs t after : List Char} {shape : Shape} {p : Piece} {ps : List Piece}

/-! ### In front of a space -/

/-- Nothing follows, or a space does. -/
def Spaced (after : List Char) : Prop := ∀ d, after.head? = some d → d = ' '

theorem spaced_nil : Spaced [] := nofun

theorem spaced_cons (cs : List Char) : Spaced (' ' :: cs) := by
  rintro d hd
  cases hd
  rfl

/-- A stretch that a space cannot be part of ends in front of it. -/
theorem Spaced.spanLength_eq {q : Char → Bool} (h : Spaced after) (hq : q ' ' = false)
    (ht : ∀ d ∈ t, q d = true) : spanLength q (t ++ after) = t.length :=
  spanLength_eq_length ht fun d hd => by rw [h d hd, hq]

theorem Spaced.head?_ne {d : Char} (h : Spaced after) (hd : d ≠ ' ') : after.head? ≠ some d :=
  fun hhead => hd (h d hhead)

theorem Spaced.fractionLength_eq (h : Spaced after) : fractionLength after = 0 := by
  rcases fractionLength_cases after with hzero | ⟨decimals, rest, rfl, -⟩
  · exact hzero
  · exact absurd rfl (h.head?_ne (d := '.') (by decide))

theorem Spaced.fractionLength_append {decimals : List Char} (h : Spaced after)
    (hne : decimals ≠ []) (hdecimals : ∀ d ∈ decimals, d.isDigit = true) :
    fractionLength ('.' :: (decimals ++ after)) = decimals.length + 1 := by
  obtain ⟨d, ds, rfl⟩ := List.exists_cons_of_ne_nil hne
  rw [List.forall_mem_cons] at hdecimals
  simp only [List.cons_append, fractionLength, hdecimals.1, if_true, List.length_cons]
  rw [h.spanLength_eq (by decide) hdecimals.2]
  omega

theorem Spaced.classify_extensible {short long : Symbol} (h : Spaced after)
    (hc : extensibleMark? c = some (short, long)) : classify c after = (.mark short, 0) := by
  rw [Lox.classify_extensible hc, if_neg (h.head?_ne (by decide))]

/-- In front of a space, the text of a token is cut off as that token. -/
theorem Lexeme.classify_spaced {rest : List Char} {kind : Kind} (h : Lexeme shape (c :: t) rest)
    (hkind : Piece.kind? ⟨shape, c :: t⟩ = some kind) (hafter : Spaced after) :
    classify c (t ++ after) = (shape, t.length) := by
  generalize htext : c :: t = text at h hkind
  -- only words, numbers and marks may go on, and none does with a space
  cases h with
  | mark h hs =>
    rcases Symbol.mark_cases h hs with ⟨d, hd, heq⟩ | ⟨d, long, hd, heq⟩ | ⟨d, short, hd, heq⟩
    · rw [heq] at htext
      cases htext
      simp [classify, hd]
    · rw [heq] at htext
      cases htext
      simp [hafter.classify_extensible hd]
    · rw [heq] at htext
      cases htext
      simp [Lox.classify_extensible hd]
  | slash _ =>
    cases htext
    rw [List.nil_append, classify_slash, if_neg (hafter.head?_ne (by decide))]
    rfl
  | @string inside _ hinside =>
    cases htext
    have hspan : spanLength (fun d => decide (d ≠ '"')) (inside ++ '"' :: after) = inside.length :=
      spanLength_eq_length (fun d hd => by simpa using ne_of_mem_of_not_mem hd hinside) (by simp)
    rw [List.append_assoc, List.singleton_append, classify_quote, hspan, if_pos (by simp)]
    simp
  | whole hne hdigits =>
    subst htext
    rw [List.forall_mem_cons] at hdigits
    rw [classify_digit (isDigit_iff.2 hdigits.1),
      hafter.spanLength_eq (by decide) fun d hd => isDigit_iff.2 (hdigits.2 d hd), List.drop_left,
      hafter.fractionLength_eq, Nat.add_zero]
  | @fraction digits decimals _ hne hdigits hne' hdecimals =>
    obtain ⟨d, ds, rfl⟩ := List.exists_cons_of_ne_nil hne
    rw [List.cons_append, List.cons.injEq] at htext
    obtain ⟨rfl, rfl⟩ := htext
    rw [List.forall_mem_cons] at hdigits
    -- the digits end at the point
    have hspan : spanLength Char.isDigit (ds ++ '.' :: (decimals ++ after)) = ds.length :=
      spanLength_eq_length (fun d hd => isDigit_iff.2 (hdigits.2 d hd)) (by simp)
    rw [classify_digit (isDigit_iff.2 hdigits.1), List.append_assoc, List.cons_append, hspan,
      List.drop_left, hafter.fractionLength_append hne' fun d hd => isDigit_iff.2 (hdecimals d hd)]
    simp
  | word hletter hparts =>
    cases htext
    rw [classify_word (isWordStart_iff.2 hletter),
      hafter.spanLength_eq (by decide) fun d hd => isWordPart_iff.2 (hparts d hd)]
  | blank => cases hkind
  | newline => cases hkind
  | comment => cases hkind

/-! ### Pieces -/

/-- The piece is a token, of the form that its shape asks for. -/
def Piece.IsToken (p : Piece) : Prop :=
  (∃ rest, Lexeme p.shape p.text rest) ∧ ∃ kind, p.kind? = some kind

/-- A space between two tokens. -/
def Piece.space : Piece := ⟨.blank, [' ']⟩

/-- The first token is cut off whole, and the rest is cut as if it stood alone. -/
theorem Piece.IsToken.pieces_append (h : p.IsToken) (hafter : Spaced after) :
    pieces (p.text ++ after) = p :: pieces after := by
  obtain ⟨⟨rest, hlexeme⟩, kind, hkind⟩ := h
  obtain ⟨shape, text⟩ := p
  dsimp only at hlexeme
  obtain ⟨c, t, rfl⟩ := List.exists_cons_of_ne_nil hlexeme.ne_nil
  rw [List.cons_append, pieces_cons, hlexeme.classify_spaced hkind hafter, List.take_left,
    List.drop_left]

theorem pieces_space (cs : List Char) : pieces (' ' :: cs) = Piece.space :: pieces cs := by
  rw [pieces_cons]
  rfl

/-- Tokens with spaces between them are cut into these tokens and spaces. -/
theorem pieces_intercalate : ∀ {ps : List Piece}, (∀ p ∈ ps, p.IsToken) →
    pieces ([' '].intercalate (ps.map Piece.text)) = ps.intersperse Piece.space
  | [], _ => by simp [pieces]
  | [p], h => by
    have hp := (h p List.mem_cons_self).pieces_append spaced_nil
    rw [List.append_nil, pieces] at hp
    simpa using hp
  | p :: q :: ps, h => by
    rw [List.forall_mem_cons] at h
    have hrest := pieces_intercalate h.2
    rw [List.map_cons] at hrest
    rw [List.map_cons, List.map_cons, List.intercalate_cons_cons, List.append_assoc,
      List.singleton_append, h.1.pieces_append (spaced_cons _), pieces_space, hrest]
    rfl

/-- The pieces of a text that are tokens. -/
def tokenPieces (cs : List Char) : List Piece := (pieces cs).filter fun p => p.kind?.isSome

/-- What is a token was cut off as a lexeme. -/
theorem Cut.exists_lexeme (h : Cut cs ps) (hp : p ∈ ps) {kind : Kind}
    (hkind : p.kind? = some kind) : ∃ rest, Lexeme p.shape p.text rest := by
  induction h with
  | done => cases hp
  | longest hlexeme _ _ ih =>
    rcases List.mem_cons.1 hp with rfl | hp
    · exact ⟨_, hlexeme⟩
    · exact ih hp
  | unexpected _ _ _ ih =>
    rcases List.mem_cons.1 hp with rfl | hp
    · cases hkind
    · exact ih hp
  | unterminated _ =>
    rcases List.mem_cons.1 hp with rfl | hp
    · cases hkind
    · cases hp

theorem isToken_of_mem_tokenPieces (hp : p ∈ tokenPieces cs) : p.IsToken := by
  obtain ⟨hmem, hsome⟩ := List.mem_filter.1 hp
  obtain ⟨kind, hkind⟩ := Option.isSome_iff_exists.1 hsome
  exact ⟨(cut_pieces cs).exists_lexeme hmem hkind, kind, hkind⟩

/-! ### Tokens -/

/-- What a token is, wherever it stands. -/
def Token.entry (t : Token) : Kind × String := (t.kind, t.lexeme)

/-- What the token is that a piece is. -/
def Piece.entry? (p : Piece) : Option (Kind × String) :=
  p.kind?.map fun kind => (kind, String.ofList p.text)

/-- The lines of tokens depend on their places, what they are does not. -/
theorem map_entry_place (ps : List Piece) (line : Nat) :
    ((place line ps).filterMap Placed.token?).map Token.entry = ps.filterMap Piece.entry? := by
  induction ps generalizing line with
  | nil => rfl
  | cons p ps ih =>
    rw [place, List.filterMap_cons, List.filterMap_cons, Placed.token?, Piece.entry?]
    cases p.kind? with
    | none => exact ih _
    | some kind => exact congrArg _ (ih _)

/-- Blanks, newlines and comments are no tokens. -/
theorem filterMap_entry?_tokenPieces (cs : List Char) :
    (tokenPieces cs).filterMap Piece.entry? = (pieces cs).filterMap Piece.entry? := by
  rw [tokenPieces, List.filterMap_filter]
  congr 1
  funext p
  cases hp : p.kind? <;> simp [Piece.entry?, hp]

theorem filterMap_intersperse_space : ∀ ps : List Piece,
    (ps.intersperse Piece.space).filterMap Piece.entry? = ps.filterMap Piece.entry?
  | [] => rfl
  | [p] => rfl
  | p :: q :: ps => by
    have hspace : Piece.space.entry? = none := rfl
    have hrest := filterMap_intersperse_space (q :: ps)
    rw [List.intersperse_cons_cons, List.filterMap_cons, List.filterMap_cons (a := Piece.space),
      hspace, hrest, List.filterMap_cons (a := p)]

/-- The lexeme of a token is the text of its piece. -/
theorem map_lexeme_bodyTokens (cs : List Char) :
    (bodyTokens cs).map Token.lexeme = (tokenPieces cs).map fun p => String.ofList p.text := by
  have hentry : (bodyTokens cs).map Token.lexeme =
      ((bodyTokens cs).map Token.entry).map Prod.snd := by
    rw [List.map_map]
    rfl
  rw [hentry, bodyTokens, map_entry_place, ← filterMap_entry?_tokenPieces]
  have hall : ∀ p ∈ tokenPieces cs, ∃ kind, p.kind? = some kind := fun p hp =>
    (isToken_of_mem_tokenPieces hp).2
  generalize tokenPieces cs = ps at hall ⊢
  induction ps with
  | nil => rfl
  | cons p ps ih =>
    rw [List.forall_mem_cons] at hall
    obtain ⟨⟨kind, hkind⟩, hps⟩ := hall
    simp [Piece.entry?, hkind, ih hps]

/-! ### Errors -/

/-- Neither a token nor a space is an error. -/
theorem error?_eq_none_of_mem_place {line : Nat} {q : Placed} (hq : q ∈ place line ps)
    (h : ∀ p ∈ ps, p.IsToken ∨ p = Piece.space) : q.error? = none := by
  induction ps generalizing line with
  | nil => cases hq
  | cons p ps ih =>
    rw [List.forall_mem_cons] at h
    rcases List.mem_cons.1 hq with rfl | hq
    · rcases h.1 with ⟨⟨rest, hlexeme⟩, -⟩ | rfl
      · exact hlexeme.error?_eq_none _
      · rfl
    · exact ih hq h.2

theorem mem_intersperse {α : Type} {a b : α} : ∀ {as : List α}, a ∈ as.intersperse b →
    a ∈ as ∨ a = b
  | [], h => by cases h
  | [c], h => .inl h
  | c :: d :: as, h => by
    rw [List.intersperse_cons_cons, List.mem_cons, List.mem_cons] at h
    rcases h with rfl | rfl | h
    · exact .inl List.mem_cons_self
    · exact .inr rfl
    · exact (mem_intersperse h).imp_left (List.mem_cons_of_mem c)

/-- The tokens of any text, written down with single spaces between them and scanned again, are the
same tokens with the same values and lexemes, and no error is found. -/
theorem scan_spaced_tokens (source : String) :
    let words := ((scan source).tokens.filter fun t => !t.isEnd).map Token.lexeme
    (scan (" ".intercalate words)).errors = [] ∧
      (scan (" ".intercalate words)).tokens.map (fun t => (t.kind, t.lexeme)) =
        (scan source).tokens.map fun t => (t.kind, t.lexeme) := by
  intro words
  have hwords : words = (tokenPieces source.toList).map fun p => String.ofList p.text := by
    rw [← map_lexeme_bodyTokens, ← filter_tokens]
    rfl
  have htext : (" ".intercalate words).toList =
      [' '].intercalate ((tokenPieces source.toList).map Piece.text) := by
    rw [hwords, String.toList_intercalate, List.map_map]
    congr 2
    funext p
    exact String.toList_ofList
  have hpieces : pieces (" ".intercalate words).toList =
      (tokenPieces source.toList).intersperse Piece.space := by
    rw [htext, pieces_intercalate fun p hp => isToken_of_mem_tokenPieces hp]
  refine ⟨?_, ?_⟩
  · rw [scan, scanChars, hpieces, List.filterMap_eq_nil_iff]
    intro q hq
    refine error?_eq_none_of_mem_place hq fun p hp => ?_
    exact (mem_intersperse hp).imp_left isToken_of_mem_tokenPieces
  · change (scan (" ".intercalate words)).tokens.map Token.entry =
      (scan source).tokens.map Token.entry
    rw [scan, scan, scanChars_tokens, scanChars_tokens, List.map_append, List.map_append]
    congr 1
    rw [bodyTokens, bodyTokens, map_entry_place, map_entry_place, hpieces,
      filterMap_intersperse_space, filterMap_entry?_tokenPieces]

end Lox
