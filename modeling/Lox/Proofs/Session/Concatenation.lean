import Lox.Proofs.Grammar.Lines
import Lox.Proofs.Machine.Lines
import Lox.Proofs.Session.Run

/-!
Two texts run one after the other do what they do as one text with a newline between them. Neither
the tokens nor the tree of the first text see that another follows, and the second is read as it is
when it stands alone, further down. Its statements start on the machine that the statements of the
first leave. So all that can differ is lines: in the errors of the run, and inside functions.
-/

namespace Lox

/-! ### Reading -/

theorem Source.read_newline {first second : String} (hfirst : (read first).reports = [])
    (hsecond : (read second).reports = []) : read (first ++ "\n" ++ second) =
      ⟨(read first).statements ++
        Stmt.relineAll (· + (first.toList.count '\n' + 1)) (read second).statements, []⟩ := by
  obtain ⟨hscan, hprogram⟩ := program_of_reports hfirst
  obtain ⟨hscan', hprogram'⟩ := program_of_reports hsecond
  have htext : (first ++ "\n" ++ second).toList = first.toList ++ '\n' :: second.toList := by
    simp
  rw [scan] at hscan hscan'
  have hclosed : ∀ e ∈ (scanChars first.toList).errors, e.fault ≠ .unterminatedString := by
    rw [hscan]
    intro e he
    cases he
  refine read_of_program ?_ ?_
  · rw [scan, htext, errors_newline hclosed, hscan, hscan']
    rfl
  · rw [htext, bodyTokens_newline hclosed]
    exact Grammar.Declarations.append hprogram hprogram'.reline

theorem Source.reports_newline {first second : String} (hfirst : (read first).reports = [])
    (hsecond : (read second).reports = []) : (read (first ++ "\n" ++ second)).reports = [] := by
  rw [read_newline hfirst hsecond]

/-! ### Running -/

theorem Run.andThen_of_normal {r : Run Flow} {m m' : Machine} (h : r m = .ok .normal m')
    (next : Run Flow) : r.andThen next m = next m' := by
  rw [andThen, bind_of_ok h]

/-- Statements that end normally leave their machine to those that follow. -/
theorem execList_append {exec : Stmt → Run Flow} {m' : Machine} (rs : List Stmt) :
    ∀ {ss : List Stmt} {m : Machine}, execList exec ss m = .ok .normal m' →
    execList exec (ss ++ rs) m = execList exec rs m'
  | [], m, h => by
    cases h
    rfl
  | s :: ss, m, h => by
    rw [execList] at h
    rw [List.cons_append, execList]
    cases hs : exec s m with
    | error stop m'' =>
      rw [Run.andThen, bind_of_error hs] at h
      cases h
    | ok flow m'' =>
      cases flow with
      | returned v =>
        rw [Run.andThen, bind_of_ok hs] at h
        cases h
      | normal =>
        rw [Run.andThen_of_normal hs] at h ⊢
        exact execList_append rs h

namespace Machine

variable {α κ : Type} {k : α → κ} {m m' : Machine}

theorem perform_alike {r r' : Run α} (h : Run.AlikeResult k (r m) (r' m')) {outcome : Outcome α}
    {m₁ : Machine} (hr : m.perform r = some (outcome, m₁)) :
    ∃ outcome' m₁', m'.perform r' = some (outcome', m₁') ∧
      outcome.errors.map (RuntimeError.reline noLine) =
        outcome'.errors.map (RuntimeError.reline noLine) ∧ m₁.Alike m₁' := by
  unfold perform at hr ⊢
  generalize r m = x at h hr
  generalize r' m' = y at h
  cases h with
  | ok _ hm =>
    cases hr
    exact ⟨_, _, rfl, rfl, hm⟩
  | error he hm =>
    cases hr
    exact ⟨_, _, rfl, congrArg (fun e => [e]) he, hm⟩
  | outOfSteps => cases hr

theorem Alike.flushErrors_eq (h : m.Alike m') : m.flushErrors = m'.flushErrors := by
  rw [flushErrors, flushErrors, h.sink]

end Machine

namespace Session

/-- Two sessions that went on from one record of errors agree but for lines: their machines are
alike, and the errors of the run that each has added to the record differ in their lines at most. -/
structure AlikeSince (d : Diagnostics) (u u' : Session) : Prop where
  machine : u.machine.Alike u'.machine
  errors : ∃ es es' : List RuntimeError,
    es.map (RuntimeError.reline noLine) = es'.map (RuntimeError.reline noLine) ∧
    u.diagnostics = d.addAll (es.map .runtime) ∧ u'.diagnostics = d.addAll (es'.map .runtime)

/-- If the statements do alike in two sessions with one record of errors, and those of the one
session end, so do those of the other. -/
theorem interpret_alike {s t u : Session} {n : Nat} {ss rs : List Stmt}
    (h : Run.AlikeResult (Flow.reline noLine) (execList (exec n) ss s.machine)
      (execList (exec n) rs t.machine))
    (hd : t.diagnostics = s.diagnostics) (hu : s.interpret n ss = some u) :
    ∃ u', t.interpret n rs = some u' ∧ AlikeSince s.diagnostics u u' := by
  obtain ⟨outcome, hperform, hdiagnostics⟩ := interpret_eq_some_iff.1 hu
  obtain ⟨outcome', m', hperform', herrors, hm⟩ := Machine.perform_alike h hperform
  have hflushed : (outcome.errors ++ u.machine.flushErrors).map (RuntimeError.reline noLine) =
      (outcome'.errors ++ m'.flushErrors).map (RuntimeError.reline noLine) := by
    rw [List.map_append, List.map_append, herrors, hm.flushErrors_eq]
  refine ⟨⟨m', s.diagnostics.addAll ((outcome'.errors ++ m'.flushErrors).map .runtime)⟩, ?_,
    hm, _, _, hflushed, hdiagnostics, rfl⟩
  exact interpret_eq_some_iff.2 ⟨outcome', hperform', by rw [hd]⟩

section

variable {s t : Session} {first second : String} (hs : s.diagnostics.hadStatic = false)
  (hfirst : (Source.read first).reports = []) (hsecond : (Source.read second).reports = [])
  {n₁ : Nat} (ht : s.run n₁ first = some t)
  (hquiet : t.diagnostics.reports = s.diagnostics.reports)

include hs hfirst hsecond ht hquiet

/-- With as many steps as the first text needs, both ways do alike. -/
theorem run_newline_alike : t.diagnostics = s.diagnostics ∧ ∀ n, n₁ ≤ n →
    Run.AlikeResult (Flow.reline noLine)
      (execList (exec n) (Source.read (first ++ "\n" ++ second)).statements s.machine)
      (execList (exec n) (Source.read second).statements t.machine) := by
  rw [run_eq_interpret hs hfirst] at ht
  obtain ⟨flow, hrun, hd⟩ := interpret_quiet ht hquiet
  refine ⟨hd, fun n hn => ?_⟩
  -- the first text does not return, so the second gets its turn
  have hnormal : execList (exec n) (Source.read first).statements s.machine =
      .ok .normal t.machine := by
    cases flow with
    | normal => exact execList_of_le hn hrun
    | returned v => exact absurd hrun (Source.neverReturns hfirst n₁ _ v _)
  rw [Source.read_newline hfirst hsecond, execList_append _ hnormal]
  refine execList_exec_alike n ?_ (.refl t.machine)
  rw [Stmt.relineAll_relineAll, noLine_comp]

theorem run_second_of_newline {n : Nat} {u : Session}
    (hu : s.run n (first ++ "\n" ++ second) = some u) :
    ∃ n' u', t.run n' second = some u' ∧ AlikeSince s.diagnostics u u' := by
  obtain ⟨hd, halike⟩ := run_newline_alike hs hfirst hsecond ht hquiet
  have hmore := run_of_le (Nat.le_max_right n₁ n) hu
  rw [run_eq_interpret hs (Source.reports_newline hfirst hsecond)] at hmore
  obtain ⟨u', hu', hsince⟩ := interpret_alike (halike _ (Nat.le_max_left n₁ n)) hd hmore
  rw [← run_eq_interpret (by rw [hd, hs]) hsecond] at hu'
  exact ⟨_, u', hu', hsince⟩

theorem run_newline_of_second {n : Nat} {u' : Session} (hu' : t.run n second = some u') :
    ∃ n' u, s.run n' (first ++ "\n" ++ second) = some u := by
  obtain ⟨hd, halike⟩ := run_newline_alike hs hfirst hsecond ht hquiet
  have hmore := run_of_le (Nat.le_max_right n₁ n) hu'
  rw [run_eq_interpret (by rw [hd, hs]) hsecond] at hmore
  obtain ⟨u, hu, -⟩ := interpret_alike (halike _ (Nat.le_max_left n₁ n)).symm hd.symm hmore
  rw [← run_eq_interpret hs (Source.reports_newline hfirst hsecond)] at hu
  exact ⟨_, u, hu⟩

end

/-- Two texts that can be read can be read as one with a newline between them: as the statements of
the first, followed by those of the second with their lines moved down. In a session in which they
may be run, if the first text ends without an error, then the two as one end if and only if the
second ends after the first, and both ways lead to sessions that agree but for lines: what was
printed is the same, and so are the errors, the names and their values. -/
theorem run_append_newline (s : Session) (first second : String)
    (hs : s.diagnostics.hadStatic = false) (hfirst : (Source.read first).reports = [])
    (hsecond : (Source.read second).reports = []) :
    Source.read (first ++ "\n" ++ second) =
      ⟨(Source.read first).statements ++
        Stmt.relineAll (· + (first.toList.count '\n' + 1)) (Source.read second).statements, []⟩ ∧
    ∀ (n₁ : Nat) (t : Session), s.run n₁ first = some t →
      t.diagnostics.reports = s.diagnostics.reports →
      ((∃ n u, s.run n (first ++ "\n" ++ second) = some u) ↔ ∃ n u', t.run n second = some u') ∧
      ∀ (n n' : Nat) (u u' : Session), s.run n (first ++ "\n" ++ second) = some u →
        t.run n' second = some u' → AlikeSince s.diagnostics u u' := by
  refine ⟨Source.read_newline hfirst hsecond, fun n₁ t ht hquiet => ⟨⟨?_, ?_⟩, ?_⟩⟩
  · rintro ⟨n, u, hu⟩
    obtain ⟨n', u', hu', -⟩ := run_second_of_newline hs hfirst hsecond ht hquiet hu
    exact ⟨n', u', hu'⟩
  · rintro ⟨n, u', hu'⟩
    exact run_newline_of_second hs hfirst hsecond ht hquiet hu'
  · intro n n' u u' hu hu'
    obtain ⟨_, v, hv, hsince⟩ := run_second_of_newline hs hfirst hsecond ht hquiet hu
    rw [run_unique hu' hv]
    exact hsince

/-- What a session has reported, in words. -/
def texts (s : Session) : List String := s.diagnostics.reports.map Report.text

/-- A session in which nothing was run, without a clock. -/
def opened : Session := { machine := .new {} fun _ => none }

theorem run_append_newline_callOfNil : ∃ t u u' : Session,
    opened.run 5 "var a;" = some t ∧ opened.run 5 ("var a;" ++ "\n" ++ "a();") = some u ∧
    t.run 5 "a();" = some u' ∧ u.texts = ["Can only call functions.\n[line 2]"] ∧
    u'.texts = ["Can only call functions.\n[line 1]"] ∧ AlikeSince {} u u' := by
  have hfirst : (opened.run 5 "var a;").map texts = some [] := by decide +kernel
  have hboth : (opened.run 5 ("var a;" ++ "\n" ++ "a();")).map texts =
      some ["Can only call functions.\n[line 2]"] := by decide +kernel
  have hsecond : ((opened.run 5 "var a;").bind (run · 5 "a();")).map texts =
      some ["Can only call functions.\n[line 1]"] := by decide +kernel
  obtain ⟨t, ht, htexts⟩ := Option.map_eq_some_iff.1 hfirst
  obtain ⟨u, hu, hutexts⟩ := Option.map_eq_some_iff.1 hboth
  rw [ht, Option.bind_some] at hsecond
  obtain ⟨u', hu', hutexts'⟩ := Option.map_eq_some_iff.1 hsecond
  have hagree := run_append_newline opened "var a;" "a();" rfl (by decide +kernel)
    (by decide +kernel)
  exact ⟨t, u, u', ht, hu, hu', hutexts, hutexts',
    (hagree.2 5 t ht (List.map_eq_nil_iff.1 htexts)).2 5 5 u u' hu hu'⟩

end Session

end Lox
