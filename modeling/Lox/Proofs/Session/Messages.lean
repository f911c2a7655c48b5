import Lox.Proofs.Session.History

/-!
What a session can report of its runs. A program that was read without an error holds no operator
that is none and no return outside a function, and a call binds all parameters. So the faults that
remain are those of the operands, of calls, of names, of the clock and of the sink, and each has a
message of its own.
-/

namespace Lox

/-- The messages of what can go wrong when one of the texts is run. -/
inductive Message (texts : List String) : String → Prop
  | operandNotNumber : Message texts "Operand must be a number."
  | operandsNotNumbers : Message texts "Operands must be numbers."
  | operandsNotAddable : Message texts "Operands must be two numbers or two strings."
  | divisionByZero : Message texts "Division by zero."
  | notCallable : Message texts "Can only call functions."
  | wrongArity {expected actual : Nat} : expected ≠ actual → Message texts
    ("Expected " ++ toString expected ++ " arguments but got " ++ toString actual ++ ".")
  | undefinedVariable {name : Token} : name.Spoken texts → name.kind.isIdentifier = true →
    Message texts ("Undefined variable '" ++ name.lexeme ++ "'.")
  | absOfNonNumber : Message texts "abs() expects a number."
  | clock (reason : String) : Message texts ("Clock error: " ++ reason)
  | output (reason : String) : Message texts ("Failed to write output: " ++ reason)

variable {texts : List String} {e : RuntimeError}

theorem RuntimeFault.Foreseen.message {fault : RuntimeFault}
    (h : fault.Foreseen (Token.Spoken texts)) : Message texts fault.message := by
  cases fault with
  | operandNotNumber => exact .operandNotNumber
  | operandsNotNumbers => exact .operandsNotNumbers
  | operandsNotAddable => exact .operandsNotAddable
  | divisionByZero => exact .divisionByZero
  | unknownOperator lexeme => cases h
  | undefinedVariable name =>
    obtain ⟨token, htoken, rfl⟩ := h
    exact .undefinedVariable htoken.known htoken.identifier
  | notCallable => exact .notCallable
  | wrongArity expected actual => exact .wrongArity h
  | absOfNonNumber => exact .absOfNonNumber
  | clockBeforeEpoch => exact .clock "second time provided was later than self"
  | output failure => exact .output failure.message
  | note text => cases h

namespace Session

variable {s : Session}

/-- In a session on a new machine, a text that can be read has statements that never return, so that
all get their turn unless one fails. While they run, every body of a function starts in a scope that
binds all its parameters, and nothing that is started fails because of an unknown operator. A call
with too many or too few arguments executes nothing, and any other call of a declared function
executes the body as a block of a scope that binds the parameters. The errors that the run reports
have the messages above. -/
theorem runs_as_foreseen (h : Ran texts s) (n : Nat) (text : String) :
    ((Source.read text).reports = [] →
      (∀ m v m', execList (exec n) (Source.read text).statements m ≠ .ok (.returned v) m') ∧
      ∀ calls q, Point.Within ⟨n, .execAll (Source.read text).statements, s.machine⟩ calls q →
        (∀ e m', q.Fails e m' → ∀ lexeme, e.fault ≠ .unknownOperator lexeme) ∧
        ∀ params ss, q.task = .body params ss →
          ∀ x ∈ params, (q.machine.store.own? q.machine.current x.lexeme).isSome = true) ∧
    (∀ (exec exec' : Stmt → Run Flow) (i : Nat) (f : Callable) (paren : Token) (vs : List Value),
      f.arity ≠ vs.length →
      callValue exec (.callable i f) paren vs = callValue exec' (.callable i f) paren vs) ∧
    (∀ (exec : Stmt → Run Flow) (i : Nat) (name : Token) (params : List Token) (body : List Stmt)
      (scope : ScopeId) (paren : Token) (vs : List Value) (m : Machine),
      params.length = vs.length → ∃ (inner : ScopeId) (store : Store),
        (∀ x ∈ params, (store.own? inner x.lexeme).isSome = true) ∧
        callValue exec (.callable i (.closure name params body scope)) paren vs m =
          Run.orAt paren (do return (← execBlock exec inner body).value) { m with store }) ∧
    ∀ t, s.run n text = some t → ∃ rs, t.diagnostics.reports = s.diagnostics.reports ++ rs ∧
      ∀ e, .runtime e ∈ rs →
        (∀ lexeme, e.fault ≠ .unknownOperator lexeme) ∧
        Message (texts ++ [text]) e.fault.message := by
  -- an unknown operator is not among the errors that are foreseen
  have hknown : ∀ {e : RuntimeError}, e.Explained (Token.Spoken (texts ++ [text])) →
      ∀ lexeme, e.fault ≠ .unknownOperator lexeme := by
    intro e he lexeme heq
    have hforeseen := he.fault
    rw [heq] at hforeseen
    exact hforeseen
  refine ⟨?_, ?_, ?_, ?_⟩
  · intro hreports
    have hstart := h.madeOf_start hreports n
    refine ⟨Source.neverReturns hreports n, fun calls q hq => ⟨fun e m' hfails => ?_, ?_⟩⟩
    · exact hknown (hfails.explained (hq.madeOf hstart).1)
    · intro params ss htask x hx
      have hbound := hq.params_bound (fun _ _ => Task.noConfusion) htask x hx
      exact Store.mem_names.1 hbound
  · intro exec exec' i f paren vs harity
    rw [callValue, callValue, if_neg harity, if_neg harity]
  · intro exec i name params body scope paren vs m hlength
    exact callValue_eq_execBlock exec i name body scope paren hlength m
  · intro t hrun
    obtain ⟨ended, flushed, hadds, -, -, hended, hflushed⟩ := run_adds hrun
    refine ⟨_, congrArg Diagnostics.reports hadds, fun e he => ?_⟩
    have hexplained : e.Explained (Token.Spoken (texts ++ [text])) := by
      -- a report is of reading, of the run, or of flushing
      rcases List.mem_append.1 he with he | he
      · have hstatic := Source.isStatic_of_mem_reports he
        cases hstatic
      · obtain ⟨e', he', heq⟩ := List.mem_map.1 he
        cases heq
        rcases List.mem_append.1 he' with he' | he'
        · exact h.explained (hended e he').1 (hended e he').2
        · obtain ⟨failure, -, rfl⟩ := hflushed e he'
          exact .unlocated trivial
    exact ⟨hknown hexplained, hexplained.fault.message⟩

/-- A function of an earlier text is called with too many arguments. -/
theorem runs_as_foreseen_wrongArity : ∃ s t : Session,
    Ran ["fun f(a) \x7b return a; \x7d"] s ∧ s.run 9 "f(nil, nil);" = some t ∧
    t.diagnostics.reports.map Report.text = ["Expected 1 arguments but got 2.\n[line 1]"] ∧
    ∀ e, .runtime e ∈ t.diagnostics.reports → Message
      ["fun f(a) \x7b return a; \x7d", "f(nil, nil);"] e.fault.message := by
  let new : Session := { machine := .new {} fun _ => none }
  have hfirst : (new.run 9 "fun f(a) \x7b return a; \x7d").map
      (fun s => s.diagnostics.reports.length) = some 0 := by decide +kernel
  have hsecond : ((new.run 9 "fun f(a) \x7b return a; \x7d").bind (run · 9 "f(nil, nil);")).map
      (fun t => t.diagnostics.reports.map Report.text) =
        some ["Expected 1 arguments but got 2.\n[line 1]"] := by decide +kernel
  obtain ⟨s, hs, hquiet⟩ := Option.map_eq_some_iff.1 hfirst
  rw [hs, Option.bind_some] at hsecond
  obtain ⟨t, ht, htexts⟩ := Option.map_eq_some_iff.1 hsecond
  have hran : Ran ["fun f(a) \x7b return a; \x7d"] s := (Ran.new _ _).run hs
  obtain ⟨rs, hrs, hmessages⟩ := (runs_as_foreseen hran 9 "f(nil, nil);").2.2.2 t ht
  rw [List.length_eq_zero_iff.1 hquiet, List.nil_append] at hrs
  exact ⟨s, t, hran, ht, htexts, fun e he => (hmessages e (hrs ▸ he)).2⟩

end Session

end Lox
