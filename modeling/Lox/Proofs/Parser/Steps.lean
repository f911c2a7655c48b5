import Lox.Proofs.Parser.Comparison

/-!
What a reading does not depend on. Before the end of the text, no reader asks which token was passed
last, and none is helped by more steps than it needs. So a reading that has an answer has the same
answer, and the same errors, after another token and with steps to spare.
-/

namespace Lox

namespace Cursor

/-- The cursors differ at most in the token passed last, and the end is still to come. -/
structure SamePlace (c d : Cursor) : Prop where
  ended : c.Ended
  rest : d.rest = c.rest
  depth : d.depth = c.depth
  errors : d.errors = c.errors

variable {c d : Cursor}

theorem SamePlace.peek (h : SamePlace c d) : c.peek = d.peek := by
  obtain ⟨t, ts, hrest⟩ := h.ended.rest_ne_nil
  rw [Cursor.peek, Cursor.peek, h.rest, hrest]
  rfl

theorem SamePlace.atEnd (h : SamePlace c d) : c.atEnd = d.atEnd := by
  rw [Cursor.atEnd, Cursor.atEnd, h.rest]

theorem SamePlace.report (h : SamePlace c d) (token : Token) (fault : ParseFault) :
    SamePlace (c.report token fault) (d.report token fault) :=
  ⟨h.ended, h.rest, h.depth, by rw [Cursor.report, Cursor.report, h.errors]⟩

theorem SamePlace.advanced (h : SamePlace c d) : SamePlace c.advanced d.advanced := by
  have hended := (moves_advanced c).ended h.ended
  obtain ⟨t, ts, hrest⟩ := h.ended.rest_ne_nil
  have hrest' := h.rest.trans hrest
  refine ⟨hended, ?_, ?_, ?_⟩
  · simp only [Cursor.advanced, hrest, hrest']
    split
    · exact h.rest
    · rfl
  · rw [(moves_advanced c).depth, (moves_advanced d).depth, h.depth]
  · rw [errors_advanced, errors_advanced, h.errors]

/-- Skipping asks for the token passed last only after it has passed one. -/
theorem SamePlace.synchronized (h : SamePlace c d) : SamePlace c.synchronized d.synchronized := by
  cases hend : c.atEnd with
  | true =>
    rw [synchronized_of_atEnd hend, synchronized_of_atEnd (h.atEnd ▸ hend)]
    exact h
  | false =>
    have hadvanced := h.advanced
    have hended := c.moves_synchronized.ended hadvanced.ended
    refine ⟨hended, ?_, hadvanced.depth, hadvanced.errors⟩
    obtain ⟨t, ts, hrest⟩ := h.ended.rest_ne_nil
    have hrest' := h.rest.trans hrest
    have ht : t.isEnd = false := by simpa [Cursor.atEnd, hrest] using hend
    simp [Cursor.synchronized, Cursor.advanced, hrest, hrest', ht]

end Cursor

open Cursor

namespace Parser

variable {α : Type}

/-- If the first result is an answer or a failure, the second is the same. -/
inductive SameAnswer : EStateM.Result Halt Cursor α → EStateM.Result Halt Cursor α → Prop
  | ok {a : α} {c d : Cursor} : SamePlace c d → SameAnswer (.ok a c) (.ok a d)
  | failed {c d : Cursor} : SamePlace c d → SameAnswer (.error .failed c) (.error .failed d)
  | stalled {c : Cursor} {r : EStateM.Result Halt Cursor α} : SameAnswer (.error .stalled c) r

/-- From cursors at the same place, `q` answers whatever `p` does. -/
abbrev Answers (p q : Parser α) : Prop := Compares SamePlace (fun _ _ _ => SameAnswer) p q

/-- However many steps the second reading has to spare. -/
theorem comparison_of_steps (k : Nat) : Comparison k SamePlace fun _ _ _ => SameAnswer where
  peek := SamePlace.peek
  atEnd := SamePlace.atEnd
  depth h := h.depth.symm
  pure _ h := .ok h
  pass _ h := .ok h.advanced
  report token fault _ h := .ok (h.report token fault)
  fail {α c d fault} _ h := by
    rw [fail, fail, ← h.peek]
    exact .failed (h.report c.peek fault)
  stall _ _ := .stalled
  bind {α β c d p q f g} h hf := by
    generalize hp : p c = r at h
    generalize hq : q d = r' at h
    cases h with
    | ok h =>
      rw [bind_of_ok hp, bind_of_ok hq]
      exact hf _ _ _ h
    | failed h =>
      rw [bind_of_error hp, bind_of_error hq]
      exact .failed h
    | stalled =>
      rw [bind_of_error hp]
      exact .stalled
  nested {α p q} h := by
    intro c d hs
    have hinner := h { c with depth := c.depth + 1 } { d with depth := d.depth + 1 }
      ⟨hs.ended, hs.rest, by rw [hs.depth], hs.errors⟩
    unfold Parser.nested
    generalize p { c with depth := c.depth + 1 } = r at hinner
    generalize q { d with depth := d.depth + 1 } = r' at hinner
    cases hinner with
    | ok h => exact .ok ⟨h.ended, h.rest, by rw [h.depth], h.errors⟩
    | failed h => exact .failed ⟨h.ended, h.rest, by rw [h.depth], h.errors⟩
    | stalled => exact .stalled

theorem Compares.recovering {p q : Parser Stmt} (h : Answers p q) :
    Answers (recovering p) (recovering q) := by
  intro c d hs
  have hinner := h c d hs
  unfold Parser.recovering
  generalize p c = r at hinner
  generalize q d = r' at hinner
  cases hinner with
  | ok h => exact .ok h
  | failed h => exact .ok h.synchronized
  | stalled => exact .stalled

theorem answers_statement_and_declaration (k : Nat) : ∀ n,
    Answers (statement n) (statement (k + n)) ∧ Answers (declaration n) (declaration (k + n))
  | 0 => by
    rw [statement, declaration]
    exact ⟨fun _ _ _ => .stalled, fun _ _ _ => .stalled⟩
  | n + 1 => by
    obtain ⟨hs, hd⟩ := answers_statement_and_declaration k n
    have hblock := compares_blockTail (comparison_of_steps k) hd n
    rw [← Nat.add_assoc, statement, statement, declaration, declaration, declarationOf_eq,
      declarationOf_eq]
    exact ⟨compares_statementOf (comparison_of_steps k) hs hblock,
      (compares_declarationBody (comparison_of_steps k) hs hblock).recovering⟩

/-- The steps of the declarations and those of the loop over them may be spared separately. -/
theorem answers_program (j k n m : Nat) :
    Answers (program (declaration n) m) (program (declaration (k + n)) (j + m)) :=
  compares_program (comparison_of_steps j) (answers_statement_and_declaration k n).2 m

/-- A program that is read is read with the same result after another token and with more steps. -/
theorem program_of_more_steps {n n' m m' : Nat} {c d e : Cursor} {ss : List Stmt}
    (h : program (declaration n) m c = .ok ss e) (hcd : SamePlace c d) (hn : n ≤ n')
    (hm : m ≤ m') :
    ∃ e', program (declaration n') m' d = .ok ss e' ∧ SamePlace e e' := by
  have hanswers := answers_program (m' - m) (n' - n) n m c d hcd
  rw [h, Nat.sub_add_cancel hn, Nat.sub_add_cancel hm] at hanswers
  generalize program (declaration n') m' d = r at hanswers
  cases hanswers with
  | ok he => exact ⟨_, rfl, he⟩

/-- The result of a program does not depend on the steps in which it is read. -/
theorem program_result_unique {n n' m m' : Nat} {c d e : Cursor} {ss us : List Stmt}
    (h : program (declaration n) m c = .ok ss d) (h' : program (declaration n') m' c = .ok us e)
    (hc : c.Ended) : ss = us ∧ d.errors = e.errors := by
  have hplace : SamePlace c c := ⟨hc, rfl, rfl, rfl⟩
  obtain ⟨f, hf, hdf⟩ :=
    program_of_more_steps h hplace (Nat.le_max_left n n') (Nat.le_max_left m m')
  obtain ⟨f', hf', hef⟩ :=
    program_of_more_steps h' hplace (Nat.le_max_right n n') (Nat.le_max_right m m')
  rw [hf, EStateM.Result.ok.injEq] at hf'
  obtain ⟨rfl, rfl⟩ := hf'
  exact ⟨rfl, hdf.errors.symm.trans hef.errors⟩

end Parser

end Lox
