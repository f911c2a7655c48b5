import Lox.Proofs.Machine.Provenance
import Lox.Proofs.Session.Run

/-!
Sessions in which texts are run one after the other. Functions declared in one text are called in
later ones, so their trees stay in the scopes; but every token in them is one of a text that was run
in the session. So an error of a run is at such a token.
-/

namespace Lox

variable {T : Token → Prop} {text : String}

/-- The statements of a text that is read without an error are made of its tokens. -/
theorem Source.madeOf (h : (read text).reports = []) (hT : ∀ t ∈ (scan text).tokens, T t) :
    Stmt.MadeOfAll T (read text).statements := by
  refine Grammar.Declarations.madeOf (program_of_reports h).2 fun t ht => hT t ?_
  rw [scan, scanChars_tokens]
  exact List.mem_append_left _ ht

/-- The token is one of the tokens of the texts. -/
def Token.Spoken (texts : List String) (t : Token) : Prop :=
  ∃ text ∈ texts, t ∈ (scan text).tokens

theorem Token.spoken_append {texts : List String} {t : Token} :
    t.Spoken (texts ++ [text]) ↔ t.Spoken texts ∨ t ∈ (scan text).tokens := by
  simp only [Spoken, List.mem_append, List.mem_singleton]
  constructor
  · rintro ⟨text', htext | rfl, ht⟩
    · exact .inl ⟨text', htext, ht⟩
    · exact .inr ht
  · rintro (⟨text', htext, ht⟩ | ht)
    · exact ⟨text', .inl htext, ht⟩
    · exact ⟨text, .inr rfl, ht⟩

namespace Session

variable {s t : Session} {texts : List String} {n : Nat} {e : RuntimeError}

/-- The sessions in which the given texts were run, in this order, beginning with a new machine. The
reports may be taken or changed at any time. -/
inductive Ran : List String → Session → Prop
  | new (sink : Sink) (clock : Nat → Option Float) : Ran [] { machine := .new sink clock }
  | run {texts : List String} {s t : Session} {n : Nat} {text : String} : Ran texts s →
    s.run n text = some t → Ran (texts ++ [text]) t
  | report {texts : List String} {s : Session} (diagnostics : Diagnostics) : Ran texts s →
    Ran texts { s with diagnostics }

/-- Running a text adds its tokens only to those of which the functions in the scopes are made. -/
theorem madeOf_run (hs : s.machine.MadeOf T) (hT : ∀ t ∈ (scan text).tokens, T t)
    (h : s.run n text = some t) : t.machine.MadeOf T := by
  rcases run_cases h with rfl | ⟨-, hreports, hinterpret⟩
  · exact hs
  · obtain ⟨outcome, hperform, -⟩ := interpret_eq_some_iff.1 hinterpret
    have hstatements := Source.madeOf hreports hT
    rw [Machine.perform_eq_some hperform]
    exact Run.madeOf_stop (Run.keeps_execList n hstatements) hs

/-- All functions in the scopes are made of tokens of the texts that were run. -/
theorem Ran.madeOf (h : Ran texts s) : ∀ {T : Token → Prop}, (∀ t, t.Spoken texts → T t) →
    s.machine.MadeOf T := by
  induction h with
  | new sink clock => exact fun _ => Machine.madeOf_new sink clock
  | run _ hrun ih =>
    intro T hT
    refine madeOf_run (ih fun t ht => hT t ?_) (fun t ht => hT t ?_) hrun
    · exact Token.spoken_append.2 (.inl ht)
    · exact Token.spoken_append.2 (.inr ht)
  | report _ _ ih => exact ih

/-- When a text is run, whatever comes up is made of tokens of the texts of the session. -/
theorem Ran.madeOf_start (h : Ran texts s) (hreports : (Source.read text).reports = []) (n : Nat) :
    Point.MadeOf (Token.Spoken (texts ++ [text]))
      ⟨n, .execAll (Source.read text).statements, s.machine⟩ := by
  constructor
  · exact Source.madeOf hreports fun t ht => Token.spoken_append.2 (.inr ht)
  · exact h.madeOf fun t ht => Token.spoken_append.2 (.inl ht)

/-- The errors that a run reports are at tokens of the texts of the session. -/
theorem Ran.explained (h : Ran texts s) (hreports : (Source.read text).reports = [])
    {m' : Machine}
    (hfails : (execList (exec n) (Source.read text).statements).Fails s.machine e m') :
    e.Explained (Token.Spoken (texts ++ [text])) := by
  have hpoint : Point.Fails ⟨n, .execAll (Source.read text).statements, s.machine⟩ e m' := hfails
  exact hpoint.explained (h.madeOf_start hreports n)

end Session

end Lox
