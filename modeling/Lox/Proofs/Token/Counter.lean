import Lox.Proofs.Token.Lexeme
import Lox.Token.Lexer

/-!
The counter of lines. It moves in two places only, at a newline and inside a string, and yet after
each piece it shows one more than the number of newlines in the text up to there. For of all lexemes
only newlines and strings have a newline in them, a comment leaves the newline that ends it to the
next piece, and a character that fits nothing is no newline.
-/

namespace Lox

variable {cs inside text rest : List Char} {shape : Shape} {p : Piece} {ps qs : List Piece}

/-! ### Newlines in a piece -/

/-- Of the pieces that have a form, only a newline or a string has a newline in it. -/
theorem Lexeme.newline_mem (h : Lexeme shape text rest) (hmem : '\n' ∈ text) :
    shape = .newline ∨ shape = .string := by
  have hdigit : ¬ IsDigit '\n' := by simp [← isDigit_iff]
  have hletter : ¬ IsLetter '\n' := by simp [← isWordStart_iff, isWordStart]
  cases h with
  | @mark s _ _ _ =>
    have hspelling : '\n' ∉ s.spelling.toList := by cases s <;> decide
    exact absurd hmem hspelling
  | slash => simp at hmem
  | string | newline => simp
  | whole _ hdigits => exact absurd (hdigits _ hmem) hdigit
  | fraction _ hdigits _ hdecimals =>
    rcases List.mem_append.1 hmem with hmem | hmem
    · exact absurd (hdigits _ hmem) hdigit
    · rcases List.mem_cons.1 hmem with hpoint | hmem
      · exact absurd hpoint (by decide)
      · exact absurd (hdecimals _ hmem) hdigit
  | word hfirst hparts =>
    rcases List.mem_cons.1 hmem with rfl | hmem
    · exact absurd hfirst hletter
    · rcases hparts _ hmem with hpart | hpart
      · exact absurd hpart hletter
      · exact absurd hpart hdigit
  | blank hblank =>
    obtain rfl := List.mem_singleton.1 hmem
    exact absurd hblank (by decide)
  | comment hinside _ => simp [hinside] at hmem

/-! ### Inside a string -/

/-- Up to a quote the counter moves by one at each newline. -/
theorem lineInString_append (h : '"' ∉ inside) (line : Nat) (rest : List Char) :
    lineInString line (inside ++ rest) = lineInString (line + inside.count '\n') rest := by
  induction inside generalizing line with
  | nil => rfl
  | cons c inside ih =>
    simp only [List.mem_cons, not_or] at h
    obtain ⟨hquote, hinside⟩ := h
    rw [List.cons_append, lineInString, if_neg (Ne.symm hquote)]
    by_cases hc : c = '\n'
    · rw [if_pos hc, ih hinside, hc, List.count_cons_self, Nat.add_assoc, Nat.add_comm 1]
    · rw [if_neg hc, ih hinside, List.count_cons_of_ne hc]

/-- A string that is closed, -/
theorem lineInString_closed (h : '"' ∉ inside) (line : Nat) :
    lineInString line (inside ++ ['"']) = line + inside.count '\n' := by
  rw [lineInString_append h, lineInString, if_pos rfl]

/-- and one that is left open. -/
theorem lineInString_open (h : '"' ∉ inside) (line : Nat) :
    lineInString line inside = line + inside.count '\n' := by
  have hall := lineInString_append h line []
  rwa [List.append_nil] at hall

theorem lineInString_add (line k : Nat) (cs : List Char) :
    lineInString (line + k) cs = lineInString line cs + k := by
  induction cs generalizing line with
  | nil => rfl
  | cons c cs ih =>
    rw [lineInString, lineInString]
    split
    · rfl
    split
    · rw [Nat.add_right_comm, ih]
    · exact ih line

/-! ### From piece to piece -/

/-- At a lexeme the counter moves by the number of newlines in it. -/
theorem Lexeme.lineAfter_eq (h : Lexeme shape text rest) (line : Nat) :
    Piece.lineAfter line ⟨shape, text⟩ = line + text.count '\n' := by
  by_cases hmem : '\n' ∈ text
  · -- the two places where the counter moves
    rcases h.newline_mem hmem with rfl | rfl
    · cases h
      rfl
    · cases h with
      | @string inside _ hinside =>
        have hcount : ('"' :: (inside ++ ['"'])).count '\n' = inside.count '\n' := by simp
        rw [hcount]
        exact lineInString_closed hinside line
  · rw [List.count_eq_zero_of_not_mem hmem, Nat.add_zero]
    cases h with
    | newline => exact absurd List.mem_cons_self hmem
    | @string inside _ hinside =>
      have hnone : '\n' ∉ inside := fun hin => hmem (by simp [hin])
      have hclosed := lineInString_closed hinside line
      rwa [List.count_eq_zero_of_not_mem hnone] at hclosed
    | _ => rfl

/-- At every piece of a text the counter moves by the number of newlines in it. -/
theorem Cut.lineAfter_eq (h : Cut cs ps) (hp : p ∈ ps) (line : Nat) :
    p.lineAfter line = line + p.text.count '\n' := by
  induction h with
  | done => cases hp
  | longest hlexeme _ _ ih =>
    rcases List.mem_cons.1 hp with rfl | hp
    · exact hlexeme.lineAfter_eq line
    · exact ih hp
  | @unexpected c rest ps _ hnone _ ih =>
    rcases List.mem_cons.1 hp with rfl | hp
    · have hc : c ≠ '\n' := by
        rintro rfl
        exact hnone _ _ _ .newline rfl
      simp [Piece.lineAfter, hc]
    · exact ih hp
  | @unterminated inside hinside =>
    obtain rfl := List.mem_singleton.1 hp
    have hcount : ('"' :: inside).count '\n' = inside.count '\n' := by simp
    rw [hcount]
    exact lineInString_open hinside line

theorem lastLine_cons (line : Nat) (p : Piece) (ps : List Piece) :
    lastLine line (p :: ps) = lastLine (p.lineAfter line) ps := rfl

/-- After all of its pieces the counter has moved by the number of newlines in a text. -/
theorem Cut.lastLine_eq (h : Cut cs ps) (line : Nat) : lastLine line ps = line + cs.count '\n' := by
  induction h generalizing line with
  | done => rfl
  | longest hlexeme _ _ ih =>
    rw [lastLine_cons, hlexeme.lineAfter_eq, ih, List.count_append, Nat.add_assoc]
  | @unexpected c rest ps hquote hnone hrest ih =>
    have hfirst := (Cut.unexpected hquote hnone hrest).lineAfter_eq List.mem_cons_self line
    have hcount : (c :: rest).count '\n' = [c].count '\n' + rest.count '\n' := by
      rw [← List.count_append, List.singleton_append]
    rw [lastLine_cons, hfirst, ih, hcount, Nat.add_assoc]
  | unterminated hinside =>
    exact (Cut.unterminated hinside).lineAfter_eq List.mem_cons_self line

theorem lastLine_pieces (cs : List Char) (line : Nat) :
    lastLine line (pieces cs) = line + cs.count '\n' :=
  (cut_pieces cs).lastLine_eq line

theorem Piece.lineAfter_add (line k : Nat) (p : Piece) :
    p.lineAfter (line + k) = p.lineAfter line + k := by
  unfold lineAfter
  split
  · exact Nat.add_right_comm line k 1
  · exact lineInString_add line k _
  · exact lineInString_add line k _
  · rfl

/-- The counter never goes back. -/
theorem Piece.le_lineAfter (line : Nat) (p : Piece) : line ≤ p.lineAfter line := by
  have hfrom := lineAfter_add 0 line p
  rw [Nat.zero_add] at hfrom
  rw [hfrom]
  exact Nat.le_add_left _ _

theorem le_lastLine (line : Nat) (ps : List Piece) : line ≤ lastLine line ps := by
  induction ps generalizing line with
  | nil => exact Nat.le_refl line
  | cons p ps ih => exact Nat.le_trans (p.le_lineAfter line) (ih _)

/-! ### Placed pieces -/

theorem place_append (ps qs : List Piece) (line : Nat) :
    place line (ps ++ qs) = place line ps ++ place (lastLine line ps) qs := by
  induction ps generalizing line with
  | nil => rfl
  | cons p ps ih =>
    rw [List.cons_append, place, place, ih]
    rfl

theorem mem_place (h : p ∈ ps) (line : Nat) : ∃ line', ⟨line', p⟩ ∈ place line ps := by
  induction ps generalizing line with
  | nil => cases h
  | cons q qs ih =>
    rcases List.mem_cons.1 h with rfl | h
    · exact ⟨_, List.mem_cons_self⟩
    · obtain ⟨line', hp⟩ := ih h (q.lineAfter line)
      exact ⟨line', List.mem_cons_of_mem _ hp⟩

/-- Every piece is on a line that the counter passes. -/
theorem line_of_mem_place {q : Placed} {line : Nat} (h : q ∈ place line ps) :
    line ≤ q.line ∧ q.line ≤ lastLine line ps := by
  induction ps generalizing line with
  | nil => cases h
  | cons p ps ih =>
    rw [lastLine_cons]
    rcases List.mem_cons.1 h with rfl | h
    · exact ⟨p.le_lineAfter line, le_lastLine _ _⟩
    · exact ⟨Nat.le_trans (p.le_lineAfter line) (ih h).1, (ih h).2⟩

theorem pairwise_line_place (line : Nat) (ps : List Piece) :
    (place line ps).Pairwise (·.line ≤ ·.line) := by
  induction ps generalizing line with
  | nil => exact .nil
  | cons p ps ih => exact .cons (fun q hq => (line_of_mem_place hq).1) (ih _)

/-! ### Tokens and faults -/

/-- The tokens of a text, without the one that marks its end. -/
def bodyTokens (cs : List Char) : List Token := (place 1 (pieces cs)).filterMap Placed.token?

theorem scanChars_tokens (cs : List Char) :
    (scanChars cs).tokens = bodyTokens cs ++ [endToken cs] := rfl

theorem scanChars_errors (cs : List Char) :
    (scanChars cs).errors = (place 1 (pieces cs)).filterMap Placed.error? := rfl

/-- The end of a text is on its last line. -/
theorem endToken_eq (cs : List Char) : endToken cs = ⟨.endOfText, "", 1 + cs.count '\n'⟩ := by
  rw [endToken, lastLine_pieces]

theorem isEnd_endToken (cs : List Char) : (endToken cs).isEnd = true := rfl

theorem isEnd_of_mem_bodyTokens {t : Token} (h : t ∈ bodyTokens cs) : t.isEnd = false := by
  obtain ⟨⟨line, p⟩, -, hp⟩ := List.mem_filterMap.1 h
  obtain ⟨kind, hkind, rfl⟩ := Option.map_eq_some_iff.1 hp
  unfold Piece.kind? at hkind
  split at hkind
  · cases hkind; rfl
  · split at hkind
    · cases hkind; rfl
    · cases hkind; rfl
  · cases hkind; rfl
  · cases hkind; rfl
  · cases hkind

/-- What is left of the tokens of a text without the one that marks its end. -/
theorem filter_tokens (cs : List Char) :
    (scanChars cs).tokens.filter (fun t => !t.isEnd) = bodyTokens cs := by
  have hbody : (bodyTokens cs).filter (fun t => !t.isEnd) = bodyTokens cs := by
    rw [List.filter_eq_self]
    intro t ht
    simp [isEnd_of_mem_bodyTokens ht]
  rw [scanChars_tokens, List.filter_append, hbody]
  simp [isEnd_endToken]

/-! ### Lines of tokens and faults -/

theorem Placed.line_of_token? {q : Placed} {t : Token} (h : q.token? = some t) :
    t.line = q.line := by
  obtain ⟨kind, -, rfl⟩ := Option.map_eq_some_iff.1 h
  rfl

theorem Placed.line_of_error? {q : Placed} {e : ScanError} (h : q.error? = some e) :
    e.line = q.line := by
  unfold error? at h
  split at h <;> cases h <;> rfl

/-- Every token lies on a line of the text, and so does every fault. -/
theorem line_of_mem_tokens {t : Token} (h : t ∈ (scanChars cs).tokens) :
    1 ≤ t.line ∧ t.line ≤ 1 + cs.count '\n' := by
  rw [scanChars_tokens, List.mem_append, List.mem_singleton] at h
  rw [← lastLine_pieces]
  rcases h with h | rfl
  · obtain ⟨q, hq, htoken⟩ := List.mem_filterMap.1 h
    rw [Placed.line_of_token? htoken]
    exact line_of_mem_place hq
  · exact ⟨le_lastLine 1 _, Nat.le_refl _⟩

theorem line_of_mem_errors {e : ScanError} (h : e ∈ (scanChars cs).errors) :
    1 ≤ e.line ∧ e.line ≤ 1 + cs.count '\n' := by
  obtain ⟨q, hq, herror⟩ := List.mem_filterMap.1 h
  rw [← lastLine_pieces, Placed.line_of_error? herror]
  exact line_of_mem_place hq

end Lox
