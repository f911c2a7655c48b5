import Lox.Proofs.Session.Run

/-!
Sessions fail closed. Over any sequence of runs, of reports by a host program, of taking the reports
and of forgetting them, the record knows whether an error of reading was reported since everything
was last forgotten. While one was, a text is read but not run; errors of earlier runs do not matter.
What a text brings about is reported in the order in which it was found: the errors of cutting it
into tokens, those of parsing it, and then at most one that ended its run and one of flushing.
-/

namespace Lox

/-! ### What the record knows -/

namespace Diagnostics

/-- The record knows of both kinds whether an error of that kind is among the reports. -/
structure Remembers (d : Diagnostics) (log : List Report) : Prop where
  static : d.hadStatic = log.any Report.isStatic
  runtime : d.hadRuntime = log.any fun r => !r.isStatic

variable {d : Diagnostics} {log : List Report}

theorem Remembers.addAll (h : d.Remembers log) (rs : List Report) :
    (d.addAll rs).Remembers (log ++ rs) := by
  constructor
  · rw [List.any_append, ← h.static]
    rfl
  · rw [List.any_append, ← h.runtime]
    rfl

theorem Remembers.take (h : d.Remembers log) : d.take.2.Remembers log := ⟨h.static, h.runtime⟩

theorem Remembers.exitCode_eq (h : d.Remembers log) : d.exitCode =
    if log.any Report.isStatic then some 65
    else if log.any fun r => !r.isStatic then some 70
    else none := by
  rw [exitCode, h.static, h.runtime]

end Diagnostics

namespace Session

variable {s t : Session} {n : Nat} {text : String} {log : List Report}

/-! ### Sessions with a history -/

/-- The sessions that begin with an empty record, with the errors reported since everything was last
forgotten. A host program may report errors in its own words, take the reports and forget them. -/
inductive Logs : Session → List Report → Prop
  | new (machine : Machine) : Logs { machine } []
  | run {s t : Session} {n : Nat} {text : String} {log rs : List Report} : Logs s log →
    s.run n text = some t → t.diagnostics.reports = s.diagnostics.reports ++ rs →
    Logs t (log ++ rs)
  | report {s : Session} {log : List Report} (r : Report) : Logs s log →
    Logs (s.report r) (log ++ [r])
  | take {s : Session} {log : List Report} : Logs s log →
    Logs { s with diagnostics := s.diagnostics.take.2 } log
  | reset {s : Session} {log : List Report} : Logs s log →
    Logs { s with diagnostics := s.diagnostics.reset } []

theorem Logs.remembers (h : Logs s log) : s.diagnostics.Remembers log := by
  induction h with
  | new machine => exact ⟨rfl, rfl⟩
  | @run s t n text log rs _ hrun hreports ih =>
    obtain ⟨ended, flushed, hadds, -⟩ := run_adds hrun
    rw [hadds] at hreports ⊢
    rw [← List.append_cancel_left hreports]
    exact ih.addAll _
  | report r _ ih => exact ih.addAll [r]
  | take _ ih => exact ih.take
  | reset _ _ => exact ⟨rfl, rfl⟩

/-- In a session with a history, the record knows whether an error of reading was reported since the
last reset, and the status of the process is 65 if one was, else 70 if an error of a run was. If one
was, or if the text has one itself, the text is read but nothing happens to the machine; else the
text is a program and is run, whatever errors earlier runs had. Either way the reports of the step
come after those that are there, in the order of scanning, parsing and running. -/
theorem runs_fail_closed (h : Logs s log) :
    (s.diagnostics.hadStatic = true ↔ ∃ r ∈ log, r.isStatic = true) ∧
    s.diagnostics.exitCode =
      (if log.any Report.isStatic then some 65
      else if log.any fun r => !r.isStatic then some 70
      else none) ∧
    ∀ text, ∃ parsed, parse (scan text).tokens = some parsed ∧
      ((∃ r ∈ log, r.isStatic = true) ∨ (scan text).errors ≠ [] ∨ parsed.errors ≠ [] →
        ∀ n, s.run n text = some { s with
          diagnostics := s.diagnostics.addAll
            ((scan text).errors.map .scan ++ parsed.errors.map .parse) }) ∧
      ((∀ r ∈ log, r.isStatic = false) ∧ (scan text).errors = [] ∧ parsed.errors = [] →
        Grammar.Program .nearest (bodyTokens text.toList) parsed.statements ∧
        ∀ n, s.run n text = s.interpret n parsed.statements) ∧
      ∀ n t, s.run n text = some t →
        (t.machine ≠ s.machine →
          (∀ r ∈ log, r.isStatic = false) ∧ (scan text).errors = [] ∧ parsed.errors = []) ∧
        ∃ ended flushed : List RuntimeError, ended.length ≤ 1 ∧ flushed.length ≤ 1 ∧
          (∀ e ∈ ended, (execList (exec n) parsed.statements).Fails s.machine e t.machine) ∧
          (∀ e ∈ flushed, ∃ failure, t.machine.sink.flush = some failure ∧
            e = .unlocated (.output failure)) ∧
          t.diagnostics.reports = s.diagnostics.reports ++ ((scan text).errors.map .scan ++
            parsed.errors.map .parse ++ (ended ++ flushed).map .runtime) ∧
          Logs t (log ++ ((scan text).errors.map .scan ++
            parsed.errors.map .parse ++ (ended ++ flushed).map .runtime)) := by
  have hstatic : s.diagnostics.hadStatic = true ↔ ∃ r ∈ log, r.isStatic = true := by
    rw [h.remembers.static, List.any_eq_true]
  have hclear : s.diagnostics.hadStatic = false ↔ ∀ r ∈ log, r.isStatic = false := by
    rw [h.remembers.static, List.any_eq_false]
    simp only [Bool.not_eq_true]
  refine ⟨hstatic, h.remembers.exitCode_eq, fun text => ?_⟩
  obtain ⟨parsed, hparsed, hread⟩ := Source.exists_parsed text
  have hreports : (Source.read text).reports = [] ↔
      (scan text).errors = [] ∧ parsed.errors = [] := by
    rw [hread]
    simp
  refine ⟨parsed, hparsed, fun hblocked n => ?_, fun ⟨hlog, hscan, hparse⟩ => ?_,
    fun n t hrun => ⟨fun hmoved => ?_, ?_⟩⟩
  · rw [run_eq_refused, hread]
    rwa [hstatic, ne_eq, hreports, Classical.not_and_iff_not_or_not]
  · have hnone := hreports.2 ⟨hscan, hparse⟩
    have hprogram := (Source.program_of_reports hnone).2
    rw [hread] at hprogram
    refine ⟨hprogram, fun n => ?_⟩
    rw [run_eq_interpret (hclear.2 hlog) hnone, hread]
  · rcases run_cases hrun with rfl | ⟨hs, hnone, -⟩
    · exact absurd rfl hmoved
    · exact ⟨hclear.1 hs, hreports.1 hnone⟩
  · obtain ⟨ended, flushed, hadds, hended, hflushed, hfails, hflush⟩ := run_adds hrun
    rw [hread] at hadds hfails
    have happended := congrArg Diagnostics.reports hadds
    exact ⟨ended, flushed, hended, hflushed, fun e he => (hfails e he).2, hflush, happended,
      h.run hrun happended⟩

/-- After a run that failed and whose report was taken, a text that cannot be read leaves the
machine alone, and one that can be read is run. -/
theorem runs_fail_closed_afterFailure : ∃ s : Session,
    (Session.mk (.new {} fun _ => none) {}).run 9 "y;" = some s ∧
    let taken := { s with diagnostics := s.diagnostics.take.2 }
    Logs taken s.diagnostics.reports ∧ taken.diagnostics.exitCode = some 70 ∧
    (∀ n, (taken.run n "print 'a';").map machine = some s.machine) ∧
    ∀ n, taken.run n "print nil;" = taken.interpret n [.print (.literal .nil)] := by
  have hfirst : ((Session.mk (.new {} fun _ => none) {}).run 9 "y;").map (fun s =>
      (s.diagnostics.exitCode, s.diagnostics.reports.any Report.isStatic)) =
      some (some 70, false) := by decide +kernel
  have hpieces : pieces "print nil;".toList =
      [⟨.word, "print".toList⟩, ⟨.blank, [' ']⟩, ⟨.word, "nil".toList⟩,
        ⟨.mark .semicolon, [';']⟩] := by
    decide +kernel
  have hprint : parse (scan "print nil;").tokens = some ⟨[.print (.literal .nil)], []⟩ := by
    rw [scan, scanChars, hpieces]
    rfl
  obtain ⟨s, hs, hcode⟩ := Option.map_eq_some_iff.1 hfirst
  obtain ⟨hcode, hclear⟩ := Prod.mk.inj hcode
  have hlogs := ((Logs.new _).run hs rfl).take
  obtain ⟨-, -, hruns⟩ := runs_fail_closed hlogs
  refine ⟨s, hs, hlogs, hcode, fun n => ?_, ?_⟩
  · obtain ⟨parsed, -, hrefused, -⟩ := hruns "print 'a';"
    rw [hrefused (.inr (.inl (by decide +kernel))) n]
    rfl
  · obtain ⟨parsed, hparsed, -, hrun, -⟩ := hruns "print nil;"
    rw [hprint, Option.some.injEq] at hparsed
    subst hparsed
    refine (hrun ⟨fun r hr => ?_, by decide +kernel, rfl⟩).2
    simpa using List.any_eq_false.1 hclear r hr

end Session

end Lox
