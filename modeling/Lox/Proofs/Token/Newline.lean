import Lox.Proofs.Token.Counter
import Lox.Proofs.Tree.Lines

/-!
Cutting a text at a newline. Of all pieces only a string goes on over the end of a line. So unless
a string is left open, the pieces of two texts with a newline between them are those of the first
text, the newline and those of the second; and the second text comes out as it would alone, but
further down.
-/

namespace Lox

variable {c : Char} {cs bs : List Char}

/-! ### Pieces -/

/-- What a newline stops is stopped by it as by the end of the text. -/
theorem spanLength_newline {p : Char → Bool} (hp : p '\n' = false) (cs bs : List Char) :
    spanLength p (cs ++ '\n' :: bs) = spanLength p cs := by
  induction cs with
  | nil => simp [spanLength, hp]
  | cons c cs ih =>
    simp only [spanLength, List.cons_append, List.takeWhile_cons] at ih ⊢
    cases p c with
    | false => rfl
    | true => simp [ih]

/-- What is stopped before the newline does not see it. -/
theorem spanLength_append {p : Char → Bool} (h : spanLength p cs < cs.length) (bs : List Char) :
    spanLength p (cs ++ bs) = spanLength p cs := by
  induction cs with
  | nil => simp at h
  | cons c cs ih =>
    simp only [spanLength, List.cons_append, List.takeWhile_cons] at h ih ⊢
    cases hc : p c with
    | false => rfl
    | true =>
      rw [hc] at h
      simp only [if_true, List.length_cons] at h ⊢
      rw [ih (by omega)]

theorem head?_newline {d : Char} (hd : '\n' ≠ d) (cs bs : List Char) :
    (cs ++ '\n' :: bs).head? = some d ↔ cs.head? = some d := by
  cases cs with
  | nil => simp [hd]
  | cons c cs => simp

theorem fractionLength_newline (cs bs : List Char) :
    fractionLength (cs ++ '\n' :: bs) = fractionLength cs := by
  match cs with
  | [] => rfl
  | [d] =>
    by_cases hd : d = '.'
    · subst hd
      rfl
    · simp [fractionLength, hd]
  | d :: d' :: ds =>
    by_cases hd : d = '.'
    · subst hd
      simp only [List.cons_append, fractionLength]
      rw [spanLength_newline (by decide)]
    · simp [fractionLength, hd]

/-- A newline ends a piece as the end of the text does, unless the piece is an open string. -/
theorem classify_newline (h : (classify c cs).1 ≠ .unterminated) (bs : List Char) :
    classify c (cs ++ '\n' :: bs) = classify c cs := by
  have hhead : ∀ d, '\n' ≠ d → ((cs ++ '\n' :: bs).head? = some d) = (cs.head? = some d) :=
    fun d hd => propext (head?_newline hd cs bs)
  unfold classify at h ⊢
  -- one test after the other; none of them looks beyond a newline
  cases hsingle : singleMark? c with
  | some s => rfl
  | none =>
    rw [hsingle] at h
    cases hextensible : extensibleMark? c with
    | some pair => simp only [hhead '=' (by decide)]
    | none =>
      rw [hextensible] at h
      dsimp only at h ⊢
      by_cases hslash : c = '/'
      · simp only [if_pos hslash, hhead '/' (by decide)]
        rw [spanLength_newline (by decide)]
      rw [if_neg hslash] at h
      rw [if_neg hslash, if_neg hslash]
      by_cases hblank : isSeparator c = true
      · rw [if_pos hblank, if_pos hblank]
      rw [if_neg hblank] at h
      rw [if_neg hblank, if_neg hblank]
      by_cases hnewline : c = '\n'
      · rw [if_pos hnewline, if_pos hnewline]
      rw [if_neg hnewline] at h
      rw [if_neg hnewline, if_neg hnewline]
      by_cases hquote : c = '"'
      · -- a string that is closed is closed before the newline
        rw [if_pos hquote] at h
        rw [if_pos hquote, if_pos hquote]
        by_cases hclosed : spanLength (fun x => decide (x ≠ '"')) cs < cs.length
        · have hlonger : spanLength (fun x => decide (x ≠ '"')) cs < (cs ++ '\n' :: bs).length := by
            rw [List.length_append]
            omega
          rw [spanLength_append hclosed, if_pos hclosed, if_pos hlonger]
        · rw [if_neg hclosed] at h
          exact absurd rfl h
      rw [if_neg hquote, if_neg hquote]
      by_cases hdigit : c.isDigit = true
      · have hle := spanLength_le Char.isDigit cs
        rw [if_pos hdigit, if_pos hdigit, spanLength_newline (by decide),
          List.drop_append_of_le_length hle, fractionLength_newline]
      rw [if_neg hdigit, if_neg hdigit, spanLength_newline (by decide)]

/-- The pieces of two texts with a newline between them. -/
theorem pieces_newline (bs : List Char) : ∀ as : List Char,
    (∀ p ∈ pieces as, p.shape ≠ .unterminated) →
    pieces (as ++ '\n' :: bs) = pieces as ++ ⟨.newline, ['\n']⟩ :: pieces bs := by
  intro as
  fun_induction pieces as with
  | case1 =>
    intro _
    rw [List.nil_append, pieces_cons]
    rfl
  | case2 c cs cut ih =>
    intro h
    have hcut : classify c (cs ++ '\n' :: bs) = cut := classify_newline (h _ List.mem_cons_self) bs
    have hle : cut.2 ≤ cs.length := classify_le c cs
    rw [List.cons_append, pieces_cons, hcut, List.take_append_of_le_length hle,
      List.drop_append_of_le_length hle, ih fun p hp => h p (List.mem_cons_of_mem _ hp)]
    rfl

/-! ### Lines -/

namespace Placed

/-- The piece further down. -/
def lower (k : Nat) (p : Placed) : Placed := { p with line := p.line + k }

theorem token?_lower (k : Nat) (p : Placed) :
    (p.lower k).token? = p.token?.map (Token.reline (· + k)) := by
  rw [token?, token?, Option.map_map]
  rfl

end Placed

/-- The fault further down. -/
def ScanError.lower (k : Nat) (e : ScanError) : ScanError := { e with line := e.line + k }

theorem Placed.error?_lower (k : Nat) (p : Placed) :
    (p.lower k).error? = p.error?.map (ScanError.lower k) := by
  obtain ⟨line, shape, text⟩ := p
  cases shape <;> rfl

theorem place_add (k : Nat) (ps : List Piece) (line : Nat) :
    place (line + k) ps = (place line ps).map (Placed.lower k) := by
  induction ps generalizing line with
  | nil => rfl
  | cons p ps ih =>
    rw [place, place, List.map_cons, p.lineAfter_add, ih]
    rfl

/-- The pieces of two texts with a newline between them, placed: the second text is further down by
the lines of the first. -/
theorem place_newline {as : List Char}
    (h : ∀ e ∈ (scanChars as).errors, e.fault ≠ .unterminatedString) (bs : List Char) :
    place 1 (pieces (as ++ '\n' :: bs)) = place 1 (pieces as) ++
      ⟨as.count '\n' + 2, ⟨.newline, ['\n']⟩⟩ ::
        (place 1 (pieces bs)).map (Placed.lower (as.count '\n' + 1)) := by
  have hopen : ∀ p ∈ pieces as, p.shape ≠ .unterminated := by
    intro p hp hshape
    obtain ⟨line, hplaced⟩ := mem_place hp 1
    refine h ⟨line, .unterminatedString⟩ (List.mem_filterMap.2 ⟨_, hplaced, ?_⟩) rfl
    rw [Placed.error?, hshape]
  have hline : Piece.lineAfter (1 + as.count '\n') ⟨.newline, ['\n']⟩ = as.count '\n' + 2 :=
    congrArg (· + 1) (Nat.add_comm 1 _)
  have hline' : as.count '\n' + 2 = 1 + (as.count '\n' + 1) := by omega
  rw [pieces_newline bs as hopen, place_append, lastLine_pieces, place, hline, ← place_add, hline']

theorem bodyTokens_newline {as : List Char}
    (h : ∀ e ∈ (scanChars as).errors, e.fault ≠ .unterminatedString) (bs : List Char) :
    bodyTokens (as ++ '\n' :: bs) =
      bodyTokens as ++ (bodyTokens bs).map (Token.reline (· + (as.count '\n' + 1))) := by
  rw [bodyTokens, place_newline h, List.filterMap_append, List.filterMap_cons_none (by rfl),
    List.filterMap_map, bodyTokens, bodyTokens, List.map_filterMap]
  congr 2
  funext p
  exact Placed.token?_lower _ p

theorem errors_newline {as : List Char}
    (h : ∀ e ∈ (scanChars as).errors, e.fault ≠ .unterminatedString) (bs : List Char) :
    (scanChars (as ++ '\n' :: bs)).errors =
      (scanChars as).errors ++ (scanChars bs).errors.map (ScanError.lower (as.count '\n' + 1)) := by
  rw [scanChars]
  dsimp only
  rw [place_newline h, List.filterMap_append, List.filterMap_cons_none (by rfl),
    List.filterMap_map, scanChars, scanChars]
  dsimp only
  rw [List.map_filterMap]
  congr 2
  funext p
  exact Placed.error?_lower _ p

/-! ### Texts -/

/-- The end of two texts with a newline between them is the end of the second, further down. -/
theorem endToken_newline (as bs : List Char) :
    endToken (as ++ '\n' :: bs) = (endToken bs).reline (· + (as.count '\n' + 1)) := by
  have hline : 1 + (as.count '\n' + (bs.count '\n' + 1)) =
      1 + bs.count '\n' + (as.count '\n' + 1) := by omega
  simp [endToken_eq, Token.reline, List.count_append, List.count_cons_self, hline]

/-- Unless the first of two texts leaves a string open, the tokens of the two with a newline between
them are those of the first, without its end, and those of the second, further down by the lines of
the first; and so are the errors. -/
theorem scan_append_newline (first second : String)
    (h : ∀ e ∈ (scan first).errors, e.fault.message ≠ "Unterminated string.") :
    (scan (first ++ "\n" ++ second)).tokens =
      (scan first).tokens.filter (fun t => !t.isEnd) ++
        (scan second).tokens.map (Token.reline (· + (first.toList.count '\n' + 1))) ∧
    (scan (first ++ "\n" ++ second)).errors =
      (scan first).errors ++
        (scan second).errors.map (ScanError.lower (first.toList.count '\n' + 1)) := by
  have htext : (first ++ "\n" ++ second).toList = first.toList ++ '\n' :: second.toList := by
    simp
  have hclosed : ∀ e ∈ (scanChars first.toList).errors, e.fault ≠ .unterminatedString := by
    intro e he hfault
    apply h e he
    rw [hfault]
    rfl
  rw [scan, scan, scan, htext]
  refine ⟨?_, errors_newline hclosed second.toList⟩
  rw [filter_tokens, scanChars_tokens, scanChars_tokens, bodyTokens_newline hclosed,
    endToken_newline, List.map_append, List.append_assoc]
  rfl

/-- The first text ends with an operator that the second would extend, were it on the same line. -/
theorem scan_append_newline_operator :
    (∀ e ∈ (scan "a <").errors, e.fault.message ≠ "Unterminated string.") ∧
    (scan ("a <" ++ "\n" ++ "= \"b\nc\" @")).tokens.map (fun t => (t.lexeme, t.line)) =
      [("a", 1), ("<", 1), ("=", 2), ("\"b\nc\"", 3), ("", 3)] ∧
    (scan ("a <" ++ "\n" ++ "= \"b\nc\" @")).errors = [⟨3, .unexpectedCharacter⟩] := by
  have hquiet : (scan "a <").errors = [] := by decide +kernel
  have hclosed : ∀ e ∈ (scan "a <").errors, e.fault.message ≠ "Unterminated string." := by
    rw [hquiet]
    simp
  obtain ⟨htokens, herrors⟩ := scan_append_newline "a <" "= \"b\nc\" @" hclosed
  refine ⟨hclosed, ?_, ?_⟩
  · rw [htokens]
    decide +kernel
  · rw [herrors]
    decide +kernel

end Lox
