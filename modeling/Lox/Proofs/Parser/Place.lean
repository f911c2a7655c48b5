import Lox.Proofs.Parser.Declaration

/-!
Where a cursor stands in the list of tokens. A cursor at index `i` has the tokens from `i` on before
it and has just passed the one before `i`; both indices are inside the list. In a list that has an
end, every reader keeps its cursor between the index where it starts and the first end, each
declaration moves it forward, and reading a program takes it exactly to the first end.
-/

namespace Lox

namespace Cursor

/-- The cursor stands at index `i`. At the start no token has been passed, and the first token is
taken in its place. -/
structure At (tokens : List Token) (i : Nat) (c : Cursor) : Prop where
  rest : c.rest = tokens.drop i
  peek : tokens[i]? = some c.peek
  previous : tokens[i - 1]? = some c.previous

/-- The index of the first token that marks the end of the text. -/
def endIndex (tokens : List Token) : Nat := tokens.findIdx Token.isEnd

variable {tokens : List Token} {i : Nat} {c d : Cursor}

theorem endIndex_lt (h : ∃ t ∈ tokens, t.isEnd = true) : endIndex tokens < tokens.length :=
  List.findIdx_lt_length.2 h

/-- A list with an end is cut at its first end. -/
theorem exists_split_at_end : ∀ {tokens : List Token}, (∃ t ∈ tokens, t.isEnd = true) →
    ∃ ts t us, tokens = ts ++ t :: us ∧ (∀ u ∈ ts, u.isEnd = false) ∧ t.isEnd = true
  | t :: ts, h => by
    cases ht : t.isEnd with
    | true => exact ⟨[], t, ts, by simp [ht]⟩
    | false =>
      obtain ⟨u, hu, hue⟩ := h
      rcases List.mem_cons.1 hu with rfl | hu
      · rw [ht] at hue
        cases hue
      · obtain ⟨vs, v, ws, rfl, hvs, hv⟩ := exists_split_at_end ⟨u, hu, hue⟩
        exact ⟨t :: vs, v, ws, rfl, by simpa [ht] using hvs, hv⟩

theorem endIndex_append {ts us : List Token} {t : Token} (hts : ∀ u ∈ ts, u.isEnd = false)
    (ht : t.isEnd = true) : endIndex (ts ++ t :: us) = ts.length := by
  rw [endIndex, List.findIdx_append, List.findIdx_eq_length.2 hts]
  simp [List.findIdx_cons, ht]

/-- The tokens before a cursor that has not passed the first end. -/
theorem At.rest_append {ts us : List Token} {t : Token} (h : c.At (ts ++ t :: us) i)
    (hi : i ≤ ts.length) : c.rest = ts.drop i ++ t :: us := by
  rw [h.rest, List.drop_append_of_le_length hi]

theorem At.ended (h : c.At tokens i) (hi : i ≤ endIndex tokens)
    (hend : ∃ t ∈ tokens, t.isEnd = true) : c.Ended := by
  obtain ⟨ts, t, us, rfl, hts, ht⟩ := exists_split_at_end hend
  rw [endIndex_append hts ht] at hi
  exact ⟨t, by simp [h.rest_append hi], ht⟩

/-- What is left is the distance to the first end. -/
theorem At.add_left (h : c.At tokens i) (hi : i ≤ endIndex tokens)
    (hend : ∃ t ∈ tokens, t.isEnd = true) : i + c.left = endIndex tokens := by
  obtain ⟨ts, t, us, rfl, hts, ht⟩ := exists_split_at_end hend
  rw [endIndex_append hts ht] at hi ⊢
  have hdrop : ∀ u ∈ ts.drop i, (!u.isEnd) = true := fun u hu => by
    simp [hts u (List.mem_of_mem_drop hu)]
  rw [left, h.rest_append hi, List.takeWhile_append_of_pos hdrop]
  simp [ht]
  omega

theorem At.moves (h : c.At tokens i) (hi : i ≤ endIndex tokens)
    (hend : ∃ t ∈ tokens, t.isEnd = true) (hd : Moves c d) :
    ∃ j, d.At tokens j ∧ i ≤ j ∧ j ≤ endIndex tokens ∧ i + c.left = j + d.left := by
  have hadd := h.add_left hi hend
  obtain ⟨t, us, hne⟩ := (hd.ended (h.ended hi hend)).rest_ne_nil
  obtain ⟨ts, hts, hpassed, hprev⟩ := hd.passed
  have hleft := left_of_rest hts hpassed
  rw [h.rest] at hts
  refine ⟨i + ts.length, ⟨?_, ?_, ?_⟩, by omega, by omega, by omega⟩
  · rw [← List.drop_drop, hts, List.drop_left]
  · rw [← List.getElem?_drop, hts, hne]
    simp [Cursor.peek, hne]
  · -- the token just passed is the last of those passed, if there are any
    rw [hprev]
    cases ts with
    | nil => exact h.previous
    | cons u us' =>
      have hlast : i + (u :: us').length - 1 = i + ((u :: us').length - 1) := by simp
      rw [hlast, ← List.getElem?_drop, hts, List.getElem?_append_left (by simp),
        ← List.getLast?_eq_getElem?, List.getLast?_cons, List.getLastD_cons,
        List.getLastD_eq_getLast?]

/-- The cursor at the start of a list. -/
theorem at_start (t : Token) (ts : List Token) :
    At (t :: ts) 0 { previous := t, rest := t :: ts } :=
  ⟨rfl, rfl, rfl⟩

end Cursor

open Cursor

namespace Parser

/-- The readers, with the readers that they are given when a list of tokens is parsed. The numbers
are the steps granted to them. -/
inductive Reader : {α : Type} → Parser α → Prop
  | advance : Reader advance
  | take (s : Symbol) : Reader (take s)
  | expect (s : Symbol) (fault : ParseFault) : Reader (expect s fault)
  | expectName (fault : ParseFault) : Reader (expectName fault)
  | expression (n : Nat) : Reader (expression n)
  | assignment (n : Nat) : Reader (assignment n (expression n))
  | tiers (n : Nat) (ts : List Tier) : Reader (ts.foldr (tier n) (unary (call n (expression n)) n))
  | tierTail (n m : Nat) (t : Tier) (ts : List Tier) (left : Expr) :
    Reader (tierTail t (ts.foldr (tier n) (unary (call n (expression n)) n)) m left)
  | unary (n m : Nat) : Reader (unary (call n (expression n)) m)
  | call (n : Nat) : Reader (call n (expression n))
  | callTail (n m : Nat) (callee : Expr) : Reader (callTail (expression n) m callee)
  | arguments (n m count : Nat) : Reader (separated (expression n) .tooManyArguments m count)
  | primary (n : Nat) : Reader (primary (expression n))
  | terminated (n : Nat) (fault : ParseFault) : Reader (terminated n fault)
  | expressionStatement (n : Nat) : Reader (expressionStatement n)
  | printStatement (n : Nat) : Reader (printStatement n)
  | returnStatement (n : Nat) (keyword : Token) : Reader (returnStatement n keyword)
  | varDeclaration (n : Nat) : Reader (varDeclaration n)
  | condition (n : Nat) (opening closing : ParseFault) : Reader (condition n opening closing)
  | whileStatement (n : Nat) : Reader (whileStatement n (statement n))
  | ifStatement (n : Nat) : Reader (ifStatement n (statement n))
  | forInitial (n : Nat) : Reader (forInitial n)
  | forStatement (n : Nat) : Reader (forStatement n (statement n))
  | block (n m : Nat) : Reader (blockTail (declaration n) m)
  | statement (n : Nat) : Reader (statement n)
  | parameters (m count : Nat) :
    Reader (separated (expectName .parameterName) .tooManyParameters m count)
  | functionDeclaration (n : Nat) :
    Reader (functionDeclaration n (blockTail (declaration n) n))
  | declaration (n : Nat) : Reader (declaration n)
  | program (n m : Nat) : Reader (program (declaration n) m)

variable {α : Type} {c : Cursor}

theorem steady_of_reader {p : Parser α} (hp : Reader p) (hc : c.Ended) :
    ∃ k b, Steady k b c (p c) := by
  have hcall : ∀ (n : Nat) (d : Cursor), d.Ended → Steady n true d (call n (expression n) d) :=
    fun n d hd => steady_call (steady_expression n) hd
  have hunary : ∀ (n : Nat) (d : Cursor), d.Ended →
      Steady n true d (unary (call n (expression n)) n d) := fun n d hd =>
    steady_unary (hcall n) n n d (Nat.le_refl n) (Nat.le_refl n) hd
  cases hp with
  | advance => exact ⟨0, _, steady_advance⟩
  | take s =>
    rw [← bind_pure (take s)]
    exact ⟨0, false, steady_take_bind hc (fun _ _ => .pure true) (.pure false)⟩
  | expect s fault => exact ⟨0, _, steady_expect s fault⟩
  | expectName fault => exact ⟨0, _, steady_expectName fault⟩
  | expression n => exact ⟨_, _, steady_expression n c hc⟩
  | assignment n => exact ⟨_, _, steady_assignment (steady_expression n) hc⟩
  | tiers n ts => exact ⟨_, _, steady_tiers (hunary n) ts c hc⟩
  | tierTail n m t ts left =>
    exact ⟨_, _, steady_tierTail (steady_tiers (hunary n) ts) m 0 left c (Nat.zero_le _)
      (Nat.zero_le _) hc⟩
  | unary n m => exact ⟨_, _, steady_unary (hcall n) m 0 c (Nat.zero_le _) (Nat.zero_le _) hc⟩
  | call n => exact ⟨_, _, hcall n c hc⟩
  | callTail n m callee =>
    exact ⟨_, _, steady_callTail (steady_expression n) m 0 callee c (Nat.zero_le _)
      (Nat.zero_le _) hc⟩
  | arguments n m count =>
    exact ⟨_, _, steady_separated _ (steady_expression n) m 0 count c (Nat.zero_le _)
      (Nat.zero_le _) hc⟩
  | primary n => exact ⟨_, _, steady_primary (steady_expression n) hc⟩
  | terminated n fault => exact ⟨_, _, steady_terminated fault hc⟩
  | expressionStatement n => exact ⟨_, _, steady_expressionStatement hc⟩
  | printStatement n => exact ⟨_, _, steady_printStatement hc⟩
  | returnStatement n keyword => exact ⟨_, _, steady_returnStatement keyword hc⟩
  | varDeclaration n => exact ⟨_, _, steady_varDeclaration hc⟩
  | condition n opening closing => exact ⟨_, _, steady_condition opening closing hc⟩
  | whileStatement n =>
    exact ⟨_, _, steady_whileStatement (Nat.sub_le n 2) (fun _ => steady_statement n) hc⟩
  | ifStatement n =>
    exact ⟨_, _, steady_ifStatement (Nat.sub_le n 2) (fun _ => steady_statement n) hc⟩
  | forInitial n => exact ⟨_, _, steady_forInitial hc⟩
  | forStatement n =>
    exact ⟨_, _, steady_forStatement (Nat.sub_le n 2) (fun _ => steady_statement n) hc⟩
  | block n m => exact ⟨_, _, steady_block n m hc⟩
  | statement n => exact ⟨_, _, steady_statement n hc⟩
  | parameters m count =>
    exact ⟨_, _, steady_separated (k := m) _ (fun _ _ => steady_expectName .parameterName) m 0
      count c (Nat.zero_le _) (Nat.zero_le _) hc⟩
  | functionDeclaration n =>
    exact ⟨_, _, steady_functionDeclaration (Nat.min_le_left n (n - 2))
      (fun _ => steady_block n n) hc⟩
  | declaration n => exact ⟨_, _, steady_declaration n hc⟩
  | program n m => exact ⟨_, _, steady_program n m 0 c (Nat.zero_le _) (Nat.zero_le _) hc⟩

/-- A program read from the start of a list with an end is read up to that end. -/
theorem program_ends {t : Token} {tokens : List Token} (hend : ∃ t ∈ tokens, t.isEnd = true)
    (hstart : At tokens 0 { previous := t, rest := tokens }) {n : Nat}
    (hn : endIndex tokens + 3 ≤ n) :
    ∃ ss d, program (declaration n) n { previous := t, rest := tokens } = .ok ss d ∧
      At tokens (endIndex tokens) d ∧ d.depth = 0 := by
  have hadd := hstart.add_left (Nat.zero_le _) hend
  have hsteady := steady_program n n (n - 2) _ (Nat.sub_le n 2) (Nat.le_refl _)
    (hstart.ended (Nat.zero_le _) hend)
  -- it lacks no steps, since there are more of them than tokens
  rcases program_reaches_end n n { previous := t, rest := tokens } with
    ⟨ss, d, hrun, hd⟩ | ⟨d, hrun⟩
  · rw [hrun] at hsteady
    obtain ⟨j, hj, -, hje, hleft⟩ := hstart.moves (Nat.zero_le _) hend hsteady.1
    rw [left_eq_zero hd] at hleft
    have hj' : endIndex tokens = j := by omega
    exact ⟨ss, d, hrun, hj' ▸ hj, hsteady.1.depth⟩
  · rw [hrun] at hsteady
    have := hsteady.2
    omega

/-- In a list of tokens that has an end, however malformed it is:

* every reader leaves its cursor at an index between the one where it started and the first end,
  both of which are inside the list, and leaves the depth as it was; so the depth that a function
  body ends with, from which one is taken, is one more than that of the function;
* a declaration that starts before the first end has an answer if it is granted a step for every
  token left and three more; and whether it was read or left out, its cursor has moved forward;
* reading the list ends, with the cursor at the first end, and its result is that of `parse`. -/
theorem parsing_stays_in_bounds (tokens : List Token) (hend : ∃ t ∈ tokens, t.isEnd = true) :
    (∀ {α : Type} (p : Parser α) (c : Cursor) (i : Nat), Reader p → c.At tokens i →
      i ≤ endIndex tokens → ∃ j, (stop (p c)).At tokens j ∧ i ≤ j ∧ j ≤ endIndex tokens ∧
        (stop (p c)).depth = c.depth) ∧
    (∀ (n : Nat) (c : Cursor) (i : Nat), c.At tokens i → i ≤ endIndex tokens →
      (stop (blockTail (declaration n) n { c with depth := c.depth + 1 })).depth = c.depth + 1) ∧
    (∀ (n : Nat) (c : Cursor) (i : Nat), c.At tokens i → i < endIndex tokens →
      ∀ r d, declaration n c = .ok r d → ∃ j, d.At tokens j ∧ i < j ∧ j ≤ endIndex tokens) ∧
    (∀ (n : Nat) (c : Cursor) (i : Nat), c.At tokens i → i ≤ endIndex tokens →
      endIndex tokens - i + 3 ≤ n → ∃ r d, declaration n c = .ok r d) ∧
    (∀ (n : Nat) (t : Token), tokens.head? = some t → endIndex tokens + 3 ≤ n →
      ∃ ss d, program (declaration n) n { previous := t, rest := tokens } = .ok ss d ∧
        At tokens (endIndex tokens) d ∧ d.depth = 0) ∧
    (∃ t ss d, tokens.head? = some t ∧
      program (declaration (parseSteps tokens.length)) (parseSteps tokens.length)
        { previous := t, rest := tokens } = .ok ss d ∧ At tokens (endIndex tokens) d ∧
      parse tokens = some { statements := ss, errors := d.errors }) := by
  obtain ⟨t, ts, rfl⟩ := List.exists_cons_of_ne_nil (List.ne_nil_of_mem hend.choose_spec.1)
  have hlt := endIndex_lt hend
  refine ⟨?_, ?_, ?_, ?_, ?_, ?_⟩
  · intro α p c i hp hat hi
    obtain ⟨k, b, hsteady⟩ := steady_of_reader hp (hat.ended hi hend)
    obtain ⟨j, hj, hij, hje, -⟩ := hat.moves hi hend hsteady.moves
    exact ⟨j, hj, hij, hje, hsteady.moves.depth⟩
  · intro n c i hat hi
    exact (steady_block n n (c := { c with depth := c.depth + 1 }) (hat.ended hi hend)).moves.depth
  · intro n c i hat hi r d hrun
    have hadd := hat.add_left (Nat.le_of_lt hi) hend
    have hne : c.atEnd = false := by
      cases h : c.atEnd with
      | false => rfl
      | true => have := left_eq_zero h; omega
    have hsteady := steady_declaration_of_not_end n (hat.ended (Nat.le_of_lt hi) hend) hne
    rw [hrun] at hsteady
    have hless := hsteady.2 rfl
    obtain ⟨j, hj, -, hje, hleft⟩ := hat.moves (Nat.le_of_lt hi) hend hsteady.1
    exact ⟨j, hj, by omega, hje⟩
  · intro n c i hat hi hn
    have hadd := hat.add_left hi hend
    have hsteady := steady_declaration n (hat.ended hi hend)
    match hrun : declaration n c with
    | .ok r d => exact ⟨r, d, rfl⟩
    | .error .failed d => exact absurd hrun (declaration_ne_failed n c d)
    | .error .stalled d =>
      rw [hrun] at hsteady
      have := hsteady.2
      omega
  · intro n t' ht hn
    cases ht
    exact program_ends hend (at_start t ts) hn
  · obtain ⟨ss, d, hrun, hd, -⟩ := program_ends hend (at_start t ts)
      (n := parseSteps (t :: ts).length) (by rw [parseSteps]; omega)
    exact ⟨t, ss, d, rfl, hrun, hd, by rw [parse, hrun]⟩

/-- A list in which nothing can be read, and which goes on after its end. -/
def malformed : List Token :=
  [⟨.symbol .leftBrace, "", 1⟩, ⟨.symbol .bang, "!", 1⟩, ⟨.symbol .elseWord, "else", 2⟩,
    ⟨.endOfText, "", 2⟩, ⟨.identifier, "x", 3⟩]

theorem parsing_stays_in_bounds_malformed :
    (∃ t ∈ malformed, t.isEnd = true) ∧ ∃ ss d, At malformed 3 d ∧
      parse malformed = some { statements := ss, errors := d.errors } := by
  have hend : ∃ t ∈ malformed, t.isEnd = true := ⟨⟨.endOfText, "", 2⟩, by simp [malformed], rfl⟩
  obtain ⟨-, -, -, -, -, t, ss, d, -, -, hd, hparse⟩ := parsing_stays_in_bounds malformed hend
  exact ⟨hend, ss, d, hd, hparse⟩

end Parser

end Lox
