import Lox.Proofs.Grammar.Acceptance
import Lox.Proofs.Machine.Origin
import Lox.Proofs.Machine.Returns
import Lox.Proofs.Machine.Steps
import Lox.Proofs.Token.Newline

/-!
How a text is read and run in a session. A text is read without an error if and only if it is cut
into tokens without one and its tokens are a program. It is then run from its first statement to the
last or to the first error, and however many steps are granted, if they suffice the session ends up
the same.
-/

namespace Lox

/-! ### Reading -/

namespace Source

open Grammar

/-- The tokens of a text can be parsed. -/
theorem exists_parsed (text : String) : ∃ parsed, parse (scan text).tokens = some parsed ∧
    read text = ⟨parsed.statements,
      (scan text).errors.map .scan ++ parsed.errors.map .parse⟩ := by
  obtain ⟨parsed, hparsed, -⟩ := parse_sound (fun _ => isEnd_of_mem_bodyTokens)
    (isEnd_endToken text.toList) []
  rw [← scanChars_tokens] at hparsed
  refine ⟨parsed, hparsed, ?_⟩
  rw [read, scan, hparsed]
  rfl

theorem isStatic_of_mem_reports {text : String} {r : Report} (h : r ∈ (read text).reports) :
    r.isStatic = true := by
  rcases List.mem_append.1 h with h | h
  · obtain ⟨e, -, rfl⟩ := List.mem_map.1 h
    rfl
  · obtain ⟨e, -, rfl⟩ := List.mem_map.1 h
    rfl

/-- A text that is read without an error is a program. -/
theorem program_of_reports {text : String} (h : (read text).reports = []) :
    (scan text).errors = [] ∧
      Program .nearest (bodyTokens text.toList) (read text).statements := by
  rw [read] at h ⊢
  dsimp only at h ⊢
  obtain ⟨hscan, hparse⟩ := List.append_eq_nil_iff.1 h
  refine ⟨List.map_eq_nil_iff.1 hscan, ?_⟩
  have hbody : ∀ t ∈ bodyTokens text.toList, t.isEnd = false :=
    fun _ ht => isEnd_of_mem_bodyTokens ht
  obtain ⟨p, hp, hsound⟩ := parse_sound hbody (isEnd_endToken text.toList) []
  rw [scan, scanChars_tokens, hp, Option.getD_some] at hparse ⊢
  exact hsound (List.map_eq_nil_iff.1 hparse)

/-- A program is read as its tree. -/
theorem read_of_program {text : String} {ss : List Stmt} (hscan : (scan text).errors = [])
    (h : Program .nearest (bodyTokens text.toList) ss) : read text = ⟨ss, []⟩ := by
  have hparse := h.parse_eq (isEnd_endToken text.toList) []
  rw [← scanChars_tokens] at hparse
  rw [read, hscan, scan, hparse]
  rfl

/-- The statements of a text that is read without an error never return. -/
theorem neverReturns {text : String} (h : (read text).reports = []) (steps : Nat) :
    Run.NeverReturns (execList (exec steps) (read text).statements) := by
  have hfree := (program_of_reports h).2.returnFree rfl
  exact execList_neverReturns (exec_neverReturns steps) _ hfree

end Source

/-! ### Running -/

theorem Diagnostics.addAll_nil (d : Diagnostics) : d.addAll [] = d := by
  simp [addAll]

/-- A computation ends with one error or with none. -/
theorem Outcome.errors_length_le {α : Type} (outcome : Outcome α) : outcome.errors.length ≤ 1 := by
  cases outcome <;> simp [errors]

namespace Machine

variable {α : Type} {m m' : Machine} {e : RuntimeError}

theorem perform_of_extends {r r' : Run α} (h : Run.Extends r' r) {result : Outcome α × Machine}
    (hr : m.perform r = some result) : m.perform r' = some result := by
  rcases h m with ⟨m', hout⟩ | heq
  · rw [perform, hout] at hr
    cases hr
  · rw [perform, heq]
    exact hr

theorem perform_eq_ok {r : Run α} {a : α} (h : m.perform r = some (.ok a, m')) :
    r m = .ok a m' := by
  unfold perform at h
  split at h
  · next hr =>
    cases h
    exact hr
  · cases h
  · cases h

theorem fails_of_perform {r : Run α} {outcome : Outcome α}
    (h : m.perform r = some (outcome, m')) (he : e ∈ outcome.errors) : r.Fails m e m' := by
  unfold perform at h
  split at h
  · cases h
    cases he
  · next hr =>
    cases h
    cases List.mem_singleton.1 he
    exact hr
  · cases h

theorem flushErrors_length_le (m : Machine) : m.flushErrors.length ≤ 1 := by
  unfold flushErrors
  split <;> simp

theorem mem_flushErrors (h : e ∈ m.flushErrors) :
    ∃ failure, m.sink.flush = some failure ∧ e = .unlocated (.output failure) := by
  unfold flushErrors at h
  split at h
  · cases h
  · next failure hflush => exact ⟨failure, hflush, List.mem_singleton.1 h⟩

end Machine

namespace Session

variable {s t : Session} {n n' : Nat} {text : String}

/-- What interpreting leads to: the machine that the statements leave, and a report of the error
that ended them and of a failing flush. -/
theorem interpret_eq_some_iff {statements : List Stmt} : s.interpret n statements = some t ↔
    ∃ outcome, s.machine.perform (execList (exec n) statements) = some (outcome, t.machine) ∧
      t.diagnostics =
        s.diagnostics.addAll ((outcome.errors ++ t.machine.flushErrors).map .runtime) := by
  constructor
  · intro h
    obtain ⟨⟨outcome, m⟩, hperform, rfl⟩ := Option.map_eq_some_iff.1 h
    exact ⟨outcome, hperform, rfl⟩
  · rintro ⟨outcome, hperform, hdiagnostics⟩
    rw [interpret, hperform, Option.map_some]
    dsimp only
    rw [← hdiagnostics]

theorem interpret_of_le (h : n ≤ n') {statements : List Stmt}
    (hrun : s.interpret n statements = some t) : s.interpret n' statements = some t := by
  obtain ⟨outcome, hperform, hdiagnostics⟩ := interpret_eq_some_iff.1 hrun
  have hmore := Machine.perform_of_extends (execList_extends (exec_extends h) statements) hperform
  exact interpret_eq_some_iff.2 ⟨outcome, hmore, hdiagnostics⟩

/-- More steps lead to the same session. -/
theorem run_of_le (h : n ≤ n') (hrun : s.run n text = some t) : s.run n' text = some t := by
  unfold run at hrun ⊢
  dsimp only at hrun ⊢
  split at hrun
  · next hstatic => rw [if_pos hstatic, hrun]
  · next hstatic => rw [if_neg hstatic, interpret_of_le h hrun]

/-- A session has one outcome for a text. -/
theorem run_unique {t' : Session} (h : s.run n text = some t) (h' : s.run n' text = some t') :
    t = t' := by
  have hn := run_of_le (Nat.le_max_left n n') h
  have hn' := run_of_le (Nat.le_max_right n n') h'
  rw [hn, Option.some.injEq] at hn'
  exact hn'

/-- A text without errors is run if no error of reading is on record. -/
theorem run_eq_interpret (hs : s.diagnostics.hadStatic = false)
    (h : (Source.read text).reports = []) (n : Nat) :
    s.run n text = s.interpret n (Source.read text).statements := by
  rw [run]
  dsimp only
  rw [h, Diagnostics.addAll_nil, if_neg (by rw [hs]; exact Bool.false_ne_true)]

/-- A text is not run while an error of reading is on record, one of its own included. -/
theorem run_eq_refused (h : s.diagnostics.hadStatic = true ∨ (Source.read text).reports ≠ [])
    (n : Nat) : s.run n text =
      some { s with diagnostics := s.diagnostics.addAll (Source.read text).reports } := by
  rw [run]
  refine if_pos ?_
  change (s.diagnostics.hadStatic || (Source.read text).reports.any Report.isStatic) = true
  rcases h with h | h
  · rw [h, Bool.true_or]
  · obtain ⟨r, hr⟩ := List.exists_mem_of_ne_nil _ h
    rw [Bool.or_eq_true]
    exact .inr (List.any_eq_true.2 ⟨r, hr, Source.isStatic_of_mem_reports hr⟩)

/-- A text is refused, or it is read without an error and run. -/
theorem run_cases (h : s.run n text = some t) :
    t = { s with diagnostics := s.diagnostics.addAll (Source.read text).reports } ∨
      s.diagnostics.hadStatic = false ∧ (Source.read text).reports = [] ∧
        s.interpret n (Source.read text).statements = some t := by
  by_cases hclear : s.diagnostics.hadStatic = false ∧ (Source.read text).reports = []
  · rw [run_eq_interpret hclear.1 hclear.2] at h
    exact .inr ⟨hclear.1, hclear.2, h⟩
  · rw [Classical.not_and_iff_not_or_not, Bool.not_eq_false] at hclear
    rw [run_eq_refused hclear, Option.some.injEq] at h
    exact .inl h.symm

/-- Running a text adds to the record: first what was wrong with the text, then at most one error
that ended its run and at most one of flushing. -/
theorem run_adds (h : s.run n text = some t) : ∃ ended flushed : List RuntimeError,
    t.diagnostics = s.diagnostics.addAll
      ((Source.read text).reports ++ (ended ++ flushed).map .runtime) ∧
    ended.length ≤ 1 ∧ flushed.length ≤ 1 ∧
    (∀ e ∈ ended, (Source.read text).reports = [] ∧
      (execList (exec n) (Source.read text).statements).Fails s.machine e t.machine) ∧
    ∀ e ∈ flushed, ∃ failure, t.machine.sink.flush = some failure ∧
      e = .unlocated (.output failure) := by
  rcases run_cases h with rfl | ⟨-, hreports, hinterpret⟩
  · refine ⟨[], [], ?_, by simp, by simp, by simp, by simp⟩
    rw [List.append_nil, List.map_nil, List.append_nil]
  · obtain ⟨outcome, hperform, hdiagnostics⟩ := interpret_eq_some_iff.1 hinterpret
    refine ⟨outcome.errors, t.machine.flushErrors, ?_, outcome.errors_length_le,
      t.machine.flushErrors_length_le,
      fun e he => ⟨hreports, Machine.fails_of_perform hperform he⟩,
      fun e he => Machine.mem_flushErrors he⟩
    rw [hreports, List.nil_append]
    exact hdiagnostics

/-- If nothing is reported, the statements end without an error. -/
theorem interpret_quiet {statements : List Stmt} (h : s.interpret n statements = some t)
    (hquiet : t.diagnostics.reports = s.diagnostics.reports) :
    ∃ flow, execList (exec n) statements s.machine = .ok flow t.machine ∧
      t.diagnostics = s.diagnostics := by
  obtain ⟨outcome, hperform, hdiagnostics⟩ := interpret_eq_some_iff.1 h
  have hnone : outcome.errors ++ t.machine.flushErrors = [] := by
    rw [hdiagnostics, Diagnostics.addAll] at hquiet
    exact List.map_eq_nil_iff.1 (List.append_right_eq_self.1 hquiet)
  rw [hnone, List.map_nil, Diagnostics.addAll_nil] at hdiagnostics
  obtain ⟨herrors, -⟩ := List.append_eq_nil_iff.1 hnone
  cases outcome with
  | error e => cases herrors
  | ok flow => exact ⟨flow, Machine.perform_eq_ok hperform, hdiagnostics⟩

end Session

end Lox
