import Lox.Proofs.Grammar.Acceptance
import Lox.Proofs.Parser.Steps

/-!
Reading in parts. Declarations that are read without an error are read in the same way before
anything else, as long as no `else` comes next, which might belong to the last of them. And what
comes after them is read as if nothing were before it.
-/

namespace Lox

open Cursor Lox.Parser

namespace Grammar

variable {ts us : List Token} {ss : List Stmt} {next : Token}

/-- A program before a list with an end is read first, and then the list as it is on its own. -/
theorem Program.parse_before (h : Program .nearest ts ss) (hnext : next.is .elseWord = false)
    (hend : ∃ t ∈ next :: us, t.isEnd = true) :
    ∃ q, parse (next :: us) = some q ∧
      parse (ts ++ next :: us) = some ⟨ss ++ q.statements, q.errors⟩ := by
  obtain ⟨t, vs, htokens⟩ := List.exists_cons_of_ne_nil
    (List.append_ne_nil_of_right_ne_nil ts (List.cons_ne_nil next us))
  have hlenient : Lenient.Declarations .nearest false ts ss [] := Declarations.lenient h
  have hle := hlenient.length_le
  have hlength : (ts ++ next :: us).length = ts.length + (next :: us).length := List.length_append
  -- the list on its own
  have hindex := endIndex_lt hend
  obtain ⟨ss', d, hown, -⟩ := program_ends hend (at_start next us)
    (n := parseSteps (next :: us).length) (by rw [parseSteps]; omega)
  -- the same after the last token of the program, with the steps that the program leaves
  have hplace : SamePlace ⟨next, next :: us, 0, []⟩ ⟨ts.getLastD t, next :: us, 0, []⟩ :=
    ⟨hend, rfl, rfl, rfl⟩
  have hleft : parseSteps (next :: us).length ≤
      parseSteps (ts ++ next :: us).length - ss.length := by
    rw [parseSteps, parseSteps]
    omega
  obtain ⟨e, hafter, hde⟩ :=
    program_of_more_steps hown hplace (Nat.le_trans hleft (Nat.sub_le ..)) hleft
  have hrun : program (declaration (parseSteps (ts ++ next :: us).length)) _
      ⟨t, ts ++ next :: us, 0, []⟩ = .ok (ss ++ ss') e :=
    hlenient.program_before hnext (by rw [parseSteps]; omega) hafter
  have hsteps : ss.length + (parseSteps (ts ++ next :: us).length - ss.length) =
      parseSteps (ts ++ next :: us).length := by
    rw [parseSteps]
    omega
  rw [hsteps, htokens] at hrun
  refine ⟨⟨ss', d.errors⟩, by rw [parse, hown], ?_⟩
  rw [htokens, parse, hrun, ← hde.errors]

/-- Let tokens without an end be read without an error if the text ends after them. Before a list
that has an end, whatever its form is, and does not begin with `else`, they are read in the same
way: the statements of the whole are theirs and then those of the list, and the errors are those of
the list. -/
theorem parse_append_of_no_errors (ts us : List Token) (eof : Token) (ss : List Stmt)
    (hts : ∀ t ∈ ts, t.isEnd = false) (heof : eof.isEnd = true)
    (hread : parse (ts ++ [eof]) = some ⟨ss, []⟩) (hend : ∃ t ∈ us, t.isEnd = true)
    (helse : ∀ t, us.head? = some t → t.is .elseWord = false) :
    ∃ q, parse us = some q ∧ parse (ts ++ us) = some ⟨ss ++ q.statements, q.errors⟩ := by
  obtain ⟨next, vs, rfl⟩ := List.exists_cons_of_ne_nil (List.ne_nil_of_mem hend.choose_spec.1)
  obtain ⟨p, hp, hsound⟩ := parse_sound hts heof []
  rw [hread, Option.some.injEq] at hp
  subst hp
  exact (hsound rfl).parse_before (helse next rfl) hend

/-- A branch without `else`. -/
def openBranch : List Token :=
  [⟨.symbol .ifWord, "if", 1⟩, ⟨.symbol .leftParen, "(", 1⟩, ⟨.identifier, "a", 1⟩,
    ⟨.symbol .rightParen, ")", 1⟩, ⟨.identifier, "b", 1⟩, ⟨.symbol .semicolon, ";", 1⟩]

/-- A closing parenthesis too many, a `return` outside every function, and more after the end. -/
def strayTokens : List Token :=
  [⟨.symbol .rightParen, ")", 2⟩, ⟨.symbol .returnWord, "return", 2⟩, ⟨.symbol .semicolon, ";", 2⟩,
    ⟨.endOfText, "", 2⟩, ⟨.symbol .elseWord, "else", 3⟩]

/-- Both errors are reported, and both statements are kept. -/
theorem parse_append_of_no_errors_strayTokens :
    (∀ t ∈ openBranch, t.isEnd = false) ∧ (∃ t ∈ strayTokens, t.isEnd = true) ∧
    parse (openBranch ++ strayTokens) =
      some ⟨[.ifThen (.reference ⟨.identifier, "a", 1⟩)
          (.expression (.reference ⟨.identifier, "b", 1⟩)),
        .returns ⟨.symbol .returnWord, "return", 2⟩ none],
        [⟨⟨.symbol .rightParen, ")", 2⟩, .expression⟩,
          ⟨⟨.symbol .returnWord, "return", 2⟩, .topLevelReturn⟩]⟩ := by
  have hts : ∀ t ∈ openBranch, t.isEnd = false := by simp [openBranch, Token.isEnd, Kind.isEnd]
  have hend : ∃ t ∈ strayTokens, t.isEnd = true :=
    ⟨⟨.endOfText, "", 2⟩, by simp [strayTokens], rfl⟩
  have helse : ∀ t, strayTokens.head? = some t → t.is .elseWord = false := by
    rintro t ⟨⟩
    rfl
  obtain ⟨q, hq, hwhole⟩ :=
    parse_append_of_no_errors openBranch strayTokens ⟨.endOfText, "", 1⟩ _ hts rfl rfl hend helse
  have heval : parse strayTokens = some _ := rfl
  rw [heval, Option.some.injEq] at hq
  subst hq
  exact ⟨hts, hend, hwhole⟩

end Grammar

end Lox
