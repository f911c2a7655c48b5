import Lox.Proofs.Grammar.Completeness.Statement
import Lox.Proofs.Grammar.Else
import Lox.Proofs.Grammar.Soundness.Statement
import Lox.Proofs.Parser.Place

/-!
Parsing is correct for the grammar. A list of tokens is read without an error if and only if the
tokens before its first end are a program, and then the answer is the tree of the program in which
each `else` belongs to the nearest branch.
-/

namespace Lox

open Lox.Parser

namespace Grammar

variable {ts : List Token} {eof : Token} {ss : List Stmt}

/-- A program is read as its tree. -/
theorem Program.parse_eq (h : Program .nearest ts ss) (heof : eof.isEnd = true)
    (rest : List Token) :
    parse (ts ++ eof :: rest) = some ⟨ss, []⟩ :=
  (Declarations.lenient h).parse_eq heof

/-- The tokens before the end are read to the last, and the answer is known if there is no error. -/
theorem parse_sound (hts : ∀ t ∈ ts, t.isEnd = false) (heof : eof.isEnd = true)
    (rest : List Token) :
    ∃ p, parse (ts ++ eof :: rest) = some p ∧
      (p.errors = [] → Program .nearest ts p.statements) := by
  have hend : ∃ t ∈ ts ++ eof :: rest, t.isEnd = true := ⟨eof, by simp, heof⟩
  have hindex : Cursor.endIndex (ts ++ eof :: rest) = ts.length :=
    Cursor.endIndex_append hts heof
  obtain ⟨t, us, htokens⟩ := List.exists_cons_of_ne_nil
    (List.append_ne_nil_of_right_ne_nil ts (List.cons_ne_nil eof rest))
  have hstart : Cursor.At (ts ++ eof :: rest) 0 { previous := t, rest := ts ++ eof :: rest } := by
    rw [htokens]
    exact Cursor.at_start t us
  obtain ⟨ss, d, hrun, hd, -⟩ := program_ends hend hstart
    (n := parseSteps (ts ++ eof :: rest).length) (by rw [hindex, parseSteps]; simp; omega)
  refine ⟨⟨ss, d.errors⟩, ?_, fun herrors => ?_⟩
  · rw [htokens] at hrun ⊢
    rw [parse, hrun]
  · have hsound := sound_program (parseSteps (ts ++ eof :: rest).length)
      (parseSteps (ts ++ eof :: rest).length) _ (hstart.ended (Nat.zero_le _) hend)
    rw [hrun] at hsound
    obtain ⟨vs, es, hpassed, hprogram⟩ := hsound
    -- what was passed is all that comes before the end
    have hrest : d.rest = eof :: rest := by
      rw [hd.rest_append (Nat.le_of_eq hindex), hindex, List.drop_length, List.nil_append]
    have hvs := hpassed.rest
    rw [hrest] at hvs
    rw [List.append_cancel_right hvs]
    exact hprogram (hpassed.errors.symm.trans herrors)

end Grammar

end Lox
