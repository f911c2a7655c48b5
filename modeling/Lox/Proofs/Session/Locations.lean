import Lox.Proofs.Parser.Blame
import Lox.Proofs.Session.History

/-!
Where the errors of a session are. Errors of reading a text are on its lines, and those of parsing
are at its tokens. An error of a run that has a line has that of a token of a text of the session.
It gets its line where it comes up or, if it comes up in a native function or in a print, from the
innermost call around that. So without a line there are only the errors of printing outside every
call, and of flushing.
-/

namespace Lox

/-! ### Errors of reading -/

/-- The place of an error is said to be the end for the token that marks the end, and no other. -/
theorem ParseError.location_eq_end_iff (e : ParseError) :
    e.location = " at end" ↔ e.token.isEnd = true := by
  unfold location
  split
  · next h => exact ⟨fun _ => h, fun _ => rfl⟩
  · next h =>
    refine ⟨fun heq => ?_, fun hend => absurd hend h⟩
    -- the quotation mark stands where the word `end` would begin
    have hchars := congrArg String.toList heq
    simp at hchars

/-! ### Errors of a run -/

namespace RuntimeError

variable {e : RuntimeError} {l : Nat}

theorem placed_of_line (h : e.line = some l) (calls : List Token) : e.placed calls = e := by
  cases calls with
  | nil => rfl
  | cons paren calls =>
    change e.orAt paren = e
    rw [orAt, h]

theorem line_placed_cons (h : e.line = none) (paren : Token) (calls : List Token) :
    (e.placed (paren :: calls)).line = some paren.line := by
  change (e.orAt paren).line = _
  rw [orAt, h]

end RuntimeError

namespace Point

variable {p q : Point} {e : RuntimeError} {m' : Machine}

/-- What comes up without a line comes up in a native function or a print. -/
theorem Fails.native_or_print (hp : p.task.isSmall = true) (h : p.Fails e m')
    (hline : e.line = none) :
    (∃ f arguments, p.task = .native f arguments) ∨ ∃ text, p.task = .print text := by
  rcases h.small_cases hp with hnative | hprint | ⟨hsome, -⟩
  · exact .inl hnative
  · exact .inr hprint
  · rw [hline] at hsome
    cases hsome

/-- Without a call around it, it comes up in a print. -/
theorem Within.print_of_line {m₀ : Machine} (h : Within p [] q)
    (hp : ∀ f arguments, p.task ≠ .native f arguments) (hsmall : q.task.isSmall = true)
    (hq : q.Fails e m₀) (hline : e.line = none) : ∃ text, q.task = .print text := by
  refine (hq.native_or_print hsmall hline).resolve_left ?_
  rintro ⟨f, arguments, htask⟩
  exact h.not_native hp f arguments htask

/-- The error of an expression has the line where it came up, or that of the innermost call around
the native function or the print in which it came up. -/
theorem Fails.line_of_eval {n : Nat} {expr : Expr} {m : Machine}
    (h : (eval n expr).Fails m e m') : ∃ calls q e₀ m₀,
      Within ⟨n, .eval expr, m⟩ calls q ∧ q.task.isSmall = true ∧ q.Fails e₀ m₀ ∧
      e.fault = e₀.fault ∧ (∀ l, e₀.line = some l → e.line = some l) ∧
      (e₀.line = none →
        ((∃ f arguments, q.task = .native f arguments) ∨ ∃ text, q.task = .print text) ∧
        ∃ paren others, calls = paren :: others ∧ e.line = some paren.line) := by
  have hp : Fails ⟨n, .eval expr, m⟩ e m' := h
  obtain ⟨calls, q, e₀, m₀, hwithin, hsmall, hq, rfl, -⟩ := fails_iff.1 hp
  refine ⟨calls, q, e₀, m₀, hwithin, hsmall, hq, RuntimeError.fault_placed e₀ calls,
    fun l hl => ?_, fun hline => ⟨hq.native_or_print hsmall hline, ?_⟩⟩
  · rw [RuntimeError.placed_of_line hl, hl]
  · cases calls with
    | cons paren others =>
      exact ⟨paren, others, rfl, RuntimeError.line_placed_cons hline paren others⟩
    | nil =>
      -- an expression comes to a print through a call only
      obtain ⟨text, htask⟩ := hwithin.print_of_line (fun _ _ => Task.noConfusion) hsmall hq hline
      have hexpression := hwithin.isExpression rfl
      rw [htask] at hexpression
      cases hexpression

/-- Statements fail without a line only in a print outside every call. -/
theorem exists_print_of_line {n : Nat} {ss : List Stmt} {m : Machine}
    (h : (execList (exec n) ss).Fails m e m') (hline : e.line = none) :
    ∃ q text m₀, Within ⟨n, .execAll ss, m⟩ [] q ∧ q.task = .print text ∧ q.Fails e m₀ := by
  have hp : Fails ⟨n, .execAll ss, m⟩ e m' := h
  obtain ⟨calls, q, e₀, m₀, hwithin, hsmall, hq, rfl, -⟩ := fails_iff.1 hp
  cases calls with
  | nil =>
    obtain ⟨text, htask⟩ := hwithin.print_of_line (fun _ _ => Task.noConfusion) hsmall hq hline
    exact ⟨q, text, m₀, hwithin, htask, hq⟩
  | cons paren others =>
    cases hl : e₀.line with
    | none =>
      rw [RuntimeError.line_placed_cons hl] at hline
      cases hline
    | some l =>
      rw [RuntimeError.placed_of_line hl, hl] at hline
      cases hline

end Point

/-! ### Sessions -/

namespace Session

variable {s : Session} {texts : List String}

/-- When a text is run in a session on a new machine:

* its errors of scanning and parsing lie on its lines, those of parsing at its tokens, and such an
  error is said to be at the end for the token that ends the text, and else at the token in quotes;
* a reported error of the run that has a line has the line of a token of a text of the session;
* one that has none is that of a print outside every call or of flushing.

And an expression, evaluated on any machine, fails with an error that has a line: the one with which
it came up or, if it came up without one in a native function or a print, that of the closing
parenthesis of the innermost call around it. -/
theorem errors_come_from_text (h : Ran texts s) :
    (∀ text, (∀ e ∈ (scan text).errors, 1 ≤ e.line ∧ e.line ≤ 1 + text.toList.count '\n') ∧
      ∃ parsed, parse (scan text).tokens = some parsed ∧
        (∀ e ∈ parsed.errors,
          (1 ≤ e.line ∧ e.line ≤ 1 + text.toList.count '\n') ∧
          (∃ token ∈ (scan text).tokens, e.token = token ∧ e.line = token.line) ∧
          (e.location = " at end" ↔ e.token.isEnd = true) ∧
          (e.token.isEnd = false → e.location = " at '" ++ e.token.lexeme ++ "'")) ∧
        ∀ n t, s.run n text = some t → ∃ ended flushed : List RuntimeError,
          t.diagnostics.reports = s.diagnostics.reports ++ ((scan text).errors.map .scan ++
            parsed.errors.map .parse ++ (ended ++ flushed).map .runtime) ∧
          (∀ e ∈ ended ++ flushed, ∀ l, e.line = some l →
            ∃ token : Token, token.Spoken (texts ++ [text]) ∧ token.line = l) ∧
          (∀ e ∈ ended, e.line = none → ∃ q printed m₀,
            Point.Within ⟨n, .execAll parsed.statements, s.machine⟩ [] q ∧
            q.task = .print printed ∧ q.Fails e m₀) ∧
          ∀ e ∈ flushed, ∃ failure, t.machine.sink.flush = some failure ∧
            e = .unlocated (.output failure)) ∧
    ∀ n expr m e m', (eval n expr).Fails m e m' → e.line.isSome = true ∧
      ∃ calls q e₀ m₀, Point.Within ⟨n, .eval expr, m⟩ calls q ∧ q.task.isSmall = true ∧
        q.Fails e₀ m₀ ∧ e.fault = e₀.fault ∧ (∀ l, e₀.line = some l → e.line = some l) ∧
        (e₀.line = none →
          ((∃ f arguments, q.task = .native f arguments) ∨ ∃ text, q.task = .print text) ∧
          ∃ paren others, calls = paren :: others ∧ e.line = some paren.line) := by
  refine ⟨fun text => ⟨fun e he => line_of_mem_errors he, ?_⟩, fun n expr m e m' hfails => ?_⟩
  · obtain ⟨parsed, hparsed, hread⟩ := Source.exists_parsed text
    refine ⟨parsed, hparsed, fun e he => ?_, fun n t hrun => ?_⟩
    · have htoken := mem_of_mem_errors hparsed he
      refine ⟨line_of_mem_tokens htoken, ⟨e.token, htoken, rfl, rfl⟩, e.location_eq_end_iff,
        fun hend => ?_⟩
      rw [ParseError.location, if_neg (by rw [hend]; exact Bool.false_ne_true)]
    · obtain ⟨ended, flushed, hadds, -, -, hended, hflushed⟩ := run_adds hrun
      have hreports := congrArg Diagnostics.reports hadds
      rw [hread] at hreports
      refine ⟨ended, flushed, hreports, fun e he l hl => ?_, fun e he hline => ?_, hflushed⟩
      -- an error of the run has the line of a token, and one of flushing has none
      · rcases List.mem_append.1 he with he | he
        · exact (h.explained (hended e he).1 (hended e he).2).line l hl
        · obtain ⟨failure, -, rfl⟩ := hflushed e he
          cases hl
      · have hprint := Point.exists_print_of_line (hended e he).2 hline
        rwa [hread] at hprint
  · obtain ⟨calls, q, e₀, m₀, hwithin, hsmall, hq, hfault, hkept, hplaced⟩ :=
      Point.Fails.line_of_eval hfails
    refine ⟨?_, calls, q, e₀, m₀, hwithin, hsmall, hq, hfault, hkept, hplaced⟩
    cases hline : e₀.line with
    | some l => rw [hkept l hline, Option.isSome_some]
    | none =>
      obtain ⟨-, paren, others, -, hl⟩ := hplaced hline
      rw [hl, Option.isSome_some]

/-- An error of a native function has the line of its call, in the text that declares the caller. -/
theorem errors_come_from_text_nativeInFunction : ∃ s t : Session,
    Ran ["fun f() \x7b\nabs(nil); \x7d"] s ∧ s.run 9 "f();" = some t ∧
    t.diagnostics.reports = [.runtime ⟨.absOfNonNumber, some 2⟩] ∧
    ∃ token : Token, token.Spoken ["fun f() \x7b\nabs(nil); \x7d", "f();"] ∧ token.line = 2 := by
  let new : Session := { machine := .new {} fun _ => none }
  have hfirst : (new.run 9 "fun f() \x7b\nabs(nil); \x7d").map
      (fun s => s.diagnostics.reports.length) = some 0 := by decide +kernel
  have hsecond : ((new.run 9 "fun f() \x7b\nabs(nil); \x7d").bind (run · 9 "f();")).map
      (fun t => t.diagnostics.reports.map fun r =>
        r.casesOn (motive := fun _ => Option RuntimeError) (fun _ => none) (fun _ => none) some) =
      some [some ⟨.absOfNonNumber, some 2⟩] := by decide +kernel
  obtain ⟨s, hs, hquiet⟩ := Option.map_eq_some_iff.1 hfirst
  rw [hs, Option.bind_some] at hsecond
  obtain ⟨t, ht, herrors⟩ := Option.map_eq_some_iff.1 hsecond
  have hreports : t.diagnostics.reports = [.runtime ⟨.absOfNonNumber, some 2⟩] := by
    obtain ⟨r, hr, herror⟩ := List.map_eq_singleton_iff.1 herrors
    cases r with
    | runtime e =>
      cases herror
      exact hr
    | _ => cases herror
  have hran : Ran ["fun f() \x7b\nabs(nil); \x7d"] s := (Ran.new _ _).run hs
  obtain ⟨-, parsed, -, -, hruns⟩ := (errors_come_from_text hran).1 "f();"
  obtain ⟨ended, flushed, hadds, hlines, -⟩ := hruns 9 t ht
  have hmem : Report.runtime ⟨.absOfNonNumber, some 2⟩ ∈ t.diagnostics.reports := by
    rw [hreports]
    exact List.mem_singleton_self _
  rw [hadds, List.length_eq_zero_iff.1 hquiet] at hmem
  have hended : ⟨.absOfNonNumber, some 2⟩ ∈ ended ++ flushed := by simpa using hmem
  exact ⟨s, t, hran, ht, hreports, hlines _ hended 2 rfl⟩

end Session

end Lox
