import Lox.Proofs.Token.LongestMatch
import Mathlib.Data.List.Forall2

/-!
The lines of tokens and errors, counted in the text itself. What is counted is the newlines up to
the end of a piece, so a string that goes on over several lines stands on the line that closes it;
every other token, and every error but that of an open string, begins on the line on which it ends,
since of all pieces only newlines and strings have a newline in them.

While the pieces are placed one after another, one fact is kept: the line that the counter shows is
one more than the number of newlines in the text so far.
-/

namespace Lox

/-! ### Spots -/

/-- A piece of a text, and all that stands before it. -/
structure Spot where
  before : List Char
  piece : Piece

/-- The text up to the end of a piece. -/
def Spot.upTo (s : Spot) : List Char := s.before ++ s.piece.text

/-- The pieces that follow some text, one after another. -/
def spots (before : List Char) : List Piece → List Spot
  | [] => []
  | p :: ps => ⟨before, p⟩ :: spots (before ++ p.text) ps

/-- The shapes of tokens. -/
def Shape.isToken : Shape → Bool
  | .mark _ | .word | .string | .number => true
  | _ => false

/-- The shapes of pieces that are errors. -/
def Shape.isFault : Shape → Bool
  | .unexpected | .unterminated => true
  | _ => false

variable {cs before text rest : List Char} {shape : Shape} {p : Piece} {ps : List Piece} {s : Spot}

/-- A spot is where it is said to be. -/
theorem upTo_prefix_of_mem_spots (h : s ∈ spots before ps) :
    s.upTo <+: before ++ ps.flatMap Piece.text := by
  induction ps generalizing before with
  | nil => cases h
  | cons p ps ih =>
    rw [List.flatMap_cons, ← List.append_assoc]
    rcases List.mem_cons.1 h with rfl | h
    · exact List.prefix_append _ _
    · exact ih h

/-! ### Newlines -/

/-- What stands at a spot: a piece that has a form, a single character that is no newline, or an
open string that takes the text to its end. -/
theorem Cut.spot_cases (h : Cut cs ps) (hs : s ∈ spots before ps) :
    (∃ rest, Lexeme s.piece.shape s.piece.text rest) ∨
    (∃ c, s.piece = ⟨.unexpected, [c]⟩ ∧ c ≠ '\n') ∨
    s.piece.shape = .unterminated ∧ s.upTo = before ++ cs := by
  induction h generalizing before with
  | done => cases hs
  | @longest shape text rest ps hlexeme _ _ ih =>
    rcases List.mem_cons.1 hs with rfl | hs
    · exact .inl ⟨rest, hlexeme⟩
    · rw [← List.append_assoc]
      exact ih hs
  | @unexpected c rest ps _ hnone _ ih =>
    rcases List.mem_cons.1 hs with rfl | hs
    · refine .inr (.inl ⟨c, rfl, ?_⟩)
      rintro rfl
      exact hnone _ _ _ .newline rfl
    · rw [List.append_cons]
      exact ih hs
  | unterminated _ =>
    obtain rfl := List.mem_singleton.1 hs
    exact .inr (.inr ⟨rfl, rfl⟩)

/-! ### Lines -/

/-- The piece at a spot, on the line on which it ends. -/
def Spot.placed (s : Spot) : Placed := ⟨1 + s.upTo.count '\n', s.piece⟩

@[simp]
theorem Spot.piece_placed (s : Spot) : s.placed.piece = s.piece := rfl

@[simp]
theorem Spot.line_placed (s : Spot) : s.placed.line = 1 + s.upTo.count '\n' := rfl

/-- The line that the counter shows while pieces are placed is that of the text so far. -/
theorem Cut.place_eq (h : Cut cs ps) (before : List Char) :
    place (1 + before.count '\n') ps = (spots before ps).map Spot.placed := by
  have hcounts : ∀ p ∈ ps, ∀ line, p.lineAfter line = line + p.text.count '\n' :=
    fun p hp => h.lineAfter_eq hp
  clear h
  induction ps generalizing before with
  | nil => rfl
  | cons p ps ih =>
    rw [List.forall_mem_cons] at hcounts
    have hline : p.lineAfter (1 + before.count '\n') = 1 + (before ++ p.text).count '\n' := by
      rw [hcounts.1, List.count_append, Nat.add_assoc]
    rw [place, hline, ih _ hcounts.2]
    rfl

/-! ### Tokens and errors at their spots -/

/-- The token is the piece at the spot. Its line is that on which the piece ends, and unless the
piece is a string, that on which it begins. -/
structure Spot.HoldsToken (s : Spot) (t : Token) : Prop where
  denotes : s.piece.Denotes t.kind
  lexeme : t.lexeme = String.ofList s.piece.text
  line : t.line = 1 + s.upTo.count '\n'
  begins : s.piece.shape ≠ .string → t.line = 1 + s.before.count '\n'

/-- The error is the piece at the spot, in a text of the given characters. A character that fits
nothing is on the line on which it stands, and an open string is on the last line of the text. -/
inductive Spot.HoldsError (cs : List Char) (s : Spot) (e : ScanError) : Prop
  | unexpected {c : Char} : s.piece = ⟨.unexpected, [c]⟩ →
    e.fault.message = "Unexpected character." → e.line = 1 + s.before.count '\n' → HoldsError cs s e
  | unterminated : s.piece.shape = .unterminated → e.fault.message = "Unterminated string." →
    e.line = 1 + cs.count '\n' → HoldsError cs s e

theorem Spot.count_upTo (s : Spot) (c : Char) :
    s.upTo.count c = s.before.count c + s.piece.text.count c :=
  List.count_append

theorem Piece.Denotes.isToken {kind : Kind} (h : p.Denotes kind) : p.shape.isToken = true := by
  cases h <;> rfl

theorem Lexeme.isFault_eq_false (h : Lexeme shape text rest) : shape.isFault = false := by
  cases h <;> rfl

/-- A lexeme at a spot is one token, or none. -/
theorem Spot.token_of_lexeme (h : Lexeme s.piece.shape s.piece.text rest) :
    (s.piece.shape.isToken = true ∧ ∃ t, s.placed.token? = some t ∧ s.HoldsToken t) ∨
      s.piece.shape.isToken = false ∧ s.placed.token? = none := by
  rcases h.denotes with ⟨kind, hkind, hdenotes⟩ | ⟨hkind, hsilent⟩
  · have htoken := hdenotes.isToken
    refine .inl ⟨htoken, _, congrArg (Option.map _) hkind, hdenotes, rfl, rfl, fun hstring => ?_⟩
    have hnone : '\n' ∉ s.piece.text := by
      intro hmem
      rcases h.newline_mem hmem with hshape | hshape
      · rw [hshape] at htoken
        cases htoken
      · exact hstring hshape
    rw [Spot.placed, s.count_upTo, List.count_eq_zero_of_not_mem hnone, Nat.add_zero]
  · refine .inr ⟨?_, congrArg (Option.map _) hkind⟩
    simp only [List.mem_cons, List.not_mem_nil, or_false] at hsilent
    rcases hsilent with hshape | hshape | hshape <;> rw [hshape] <;> rfl

/-- Where things are kept or dropped alike, what is kept corresponds. -/
theorem forall₂_filter_filterMap {α β : Type} {R : α → β → Prop} {f : α → Option β}
    {keep : α → Bool} {as : List α}
    (h : ∀ a ∈ as, (keep a = true ∧ ∃ b, f a = some b ∧ R a b) ∨ keep a = false ∧ f a = none) :
    List.Forall₂ R (as.filter keep) (as.filterMap f) := by
  induction as with
  | nil => exact .nil
  | cons a as ih =>
    rw [List.forall_mem_cons] at h
    obtain ⟨ha, has⟩ := h
    rcases ha with ⟨hkeep, b, hb, hR⟩ | ⟨hkeep, hb⟩
    · rw [List.filter_cons_of_pos hkeep, List.filterMap_cons_some hb]
      exact .cons hR (ih has)
    · rw [List.filter_cons_of_neg (by simp [hkeep]), List.filterMap_cons_none hb]
      exact ih has

theorem Cut.holdsTokens (h : Cut cs ps) (before : List Char) :
    List.Forall₂ Spot.HoldsToken ((spots before ps).filter (·.piece.shape.isToken))
      ((spots before ps).filterMap fun s => s.placed.token?) := by
  refine forall₂_filter_filterMap fun s hs => ?_
  rcases h.spot_cases hs with ⟨rest, hlexeme⟩ | ⟨c, hpiece, -⟩ | ⟨hshape, -⟩
  · exact Spot.token_of_lexeme hlexeme
  · exact .inr (by simp [hpiece, Placed.token?, Piece.kind?, Shape.isToken])
  · exact .inr (by simp [hshape, Placed.token?, Piece.kind?, Shape.isToken])

theorem Cut.holdsErrors (h : Cut cs ps) (before : List Char) :
    List.Forall₂ (Spot.HoldsError (before ++ cs))
      ((spots before ps).filter (·.piece.shape.isFault))
      ((spots before ps).filterMap fun s => s.placed.error?) := by
  refine forall₂_filter_filterMap fun s hs => ?_
  rcases h.spot_cases hs with ⟨rest, hlexeme⟩ | ⟨c, hpiece, hc⟩ | ⟨hshape, hend⟩
  · exact .inr ⟨hlexeme.isFault_eq_false, hlexeme.error?_eq_none _⟩
  · -- the character is no newline, so its line is that of the text before it
    have hline : s.placed.line = 1 + s.before.count '\n' := by simp [s.count_upTo, hpiece, hc]
    refine .inl ⟨by simp [hpiece, Shape.isFault], ⟨s.placed.line, .unexpectedCharacter⟩, ?_,
      .unexpected hpiece rfl hline⟩
    simp [Placed.error?, hpiece]
  · have hline : s.placed.line = 1 + (before ++ cs).count '\n' := by rw [s.line_placed, hend]
    refine .inl ⟨by simp [hshape, Shape.isFault], ⟨s.placed.line, .unterminatedString⟩, ?_,
      .unterminated hshape rfl hline⟩
    simp [Placed.error?, hshape]

/-! ### Order -/

theorem pairwise_line_tokens (cs : List Char) :
    (scanChars cs).tokens.Pairwise (·.line ≤ ·.line) := by
  rw [scanChars_tokens, List.pairwise_append]
  refine ⟨?_, List.pairwise_singleton _ _, fun t ht e he => ?_⟩
  · refine (pairwise_line_place 1 (pieces cs)).filterMap _ fun p q hle t ht u hu => ?_
    rwa [Placed.line_of_token? ht, Placed.line_of_token? hu]
  · obtain rfl := List.mem_singleton.1 he
    rw [endToken_eq]
    exact (line_of_mem_tokens (List.mem_append_left _ ht)).2

theorem pairwise_line_errors (cs : List Char) :
    (scanChars cs).errors.Pairwise (·.line ≤ ·.line) := by
  refine (pairwise_line_place 1 (pieces cs)).filterMap _ fun p q hle e he f hf => ?_
  rwa [Placed.line_of_error? he, Placed.line_of_error? hf]

/-- The tokens of a text, but the one that marks its end, are its pieces of that kind one by one,
each on the line on which the piece ends: one more than the number of newlines in the text up to
there. The end is on the last line. The errors are the faulty pieces one by one: a character that
fits nothing is on its own line, and an open string is on the line of the end. So the lines of
tokens never decrease, nor do those of errors. -/
theorem scan_counts_lines (source : String) :
    ∃ ps ts, Cut source.toList ps ∧ (∀ s ∈ spots [] ps, s.upTo <+: source.toList) ∧
      (scan source).tokens = ts ++ [⟨.endOfText, "", 1 + source.toList.count '\n'⟩] ∧
      List.Forall₂ Spot.HoldsToken ((spots [] ps).filter (·.piece.shape.isToken)) ts ∧
      List.Forall₂ (Spot.HoldsError source.toList)
        ((spots [] ps).filter (·.piece.shape.isFault)) (scan source).errors ∧
      (scan source).tokens.Pairwise (·.line ≤ ·.line) ∧
      (scan source).errors.Pairwise (·.line ≤ ·.line) := by
  have hcut := cut_pieces source.toList
  have hplace : place 1 (pieces source.toList) =
      (spots [] (pieces source.toList)).map Spot.placed :=
    hcut.place_eq []
  refine ⟨_, bodyTokens source.toList, hcut, fun s hs => ?_, ?_, ?_, ?_,
    pairwise_line_tokens _, pairwise_line_errors _⟩
  · have hprefix := upTo_prefix_of_mem_spots hs
    rwa [List.nil_append, flatMap_text_pieces] at hprefix
  · rw [scan, scanChars_tokens, endToken_eq]
  · rw [bodyTokens, hplace, List.filterMap_map]
    exact hcut.holdsTokens []
  · rw [scan, scanChars_errors, hplace, List.filterMap_map]
    exact hcut.holdsErrors []

/-- A string that is closed one line further down, a stray character behind it, and an open string
that takes a newline with it. -/
example : (scan "// c\n\"a\nb\" x @\n\"open\n").tokens.map Token.line = [3, 3, 5] ∧
    (scan "// c\n\"a\nb\" x @\n\"open\n").errors.map ScanError.line = [3, 5] := by decide +kernel

end Lox
