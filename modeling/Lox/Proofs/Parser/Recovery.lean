import Lox.Proofs.Parser.Place
import Lox.Proofs.Parser.Watch

/-!
Recovery. A declaration that fails is the innermost one around the error at which its reader gave
up. That error is the last one so far, at the token where the cursor stands; the declaration is left
out, and reading goes on at the next boundary. So a block is given up only where the text ends, and
every error is either that of one declaration left out or forbids something that was read.
-/

namespace Lox

open Cursor

/-! ### Boundaries -/

/-- A statement may begin at the index: the text ends there, or a semicolon was just passed, or
there is a word that begins a statement. -/
def Boundary (tokens : List Token) (i : Nat) : Prop :=
  ∃ t, tokens[i]? = some t ∧ (t.isEnd = true ∨
    (∃ s, tokens[i - 1]? = some s ∧ s.is .semicolon = true) ∨ statementWords.any t.is = true)

/-- Where reading goes on after a failure at index `i`: there if the text ends there, and at the
first boundary after it if not. -/
inductive Resumes (tokens : List Token) (i : Nat) : Nat → Prop
  | atEnd {t : Token} : tokens[i]? = some t → t.isEnd = true → Resumes tokens i i
  | boundary {t : Token} {j : Nat} : tokens[i]? = some t → t.isEnd = false → i < j →
    Boundary tokens j → (∀ k, i < k → k < j → ¬Boundary tokens k) → Resumes tokens i j

variable {tokens : List Token} {i : Nat} {c d : Cursor}

/-- Skipping stops at the first boundary. -/
theorem skipToBoundary_stops : ∀ {ts : List Token} {previous : Token} {i : Nat},
    tokens.drop i = ts → tokens[i - 1]? = some previous → (∃ t ∈ ts, t.isEnd = true) →
    ∃ j, i ≤ j ∧ Boundary tokens j ∧ (∀ k, i ≤ k → k < j → ¬Boundary tokens k) ∧
      (skipToBoundary previous ts).2 = tokens.drop j ∧
      tokens[j - 1]? = some (skipToBoundary previous ts).1
  | [], _, _, _, _, hend => by simp at hend
  | t :: ts, previous, i, hdrop, hprevious, hend => by
    have hi : tokens[i]? = some t := by
      rw [← Nat.add_zero i, ← List.getElem?_drop, hdrop]
      rfl
    have hboundary : Boundary tokens i ↔
        (t.isEnd || previous.is .semicolon || statementWords.any t.is) = true := by
      simp [Boundary, hi, hprevious, or_assoc]
    rw [skipToBoundary]
    split
    · next h =>
      refine ⟨i, Nat.le_refl i, hboundary.2 h, fun k hk hk' => ?_, hdrop.symm, hprevious⟩
      omega
    · next h =>
      have hend' : ∃ u ∈ ts, u.isEnd = true := by
        obtain ⟨u, hu, hue⟩ := hend
        rcases List.mem_cons.1 hu with rfl | hu
        · exact absurd (by simp [hue]) h
        · exact ⟨u, hu, hue⟩
      have hdrop' : tokens.drop (i + 1) = ts := by
        rw [← List.drop_drop, hdrop]
        rfl
      obtain ⟨j, hij, hj, hleast, hrest, hprev⟩ := skipToBoundary_stops hdrop' hi hend'
      refine ⟨j, by omega, hj, fun k hk hkj => ?_, hrest, hprev⟩
      -- the first index is no boundary, and the others were seen to be none
      rcases Nat.eq_or_lt_of_le hk with rfl | hk
      · exact fun hb => h (hboundary.1 hb)
      · exact hleast k hk hkj

/-- A cursor that has failed at index `i` goes on where it should. -/
theorem Cursor.At.synchronized (h : c.At tokens i) (hi : i ≤ endIndex tokens)
    (hend : ∃ t ∈ tokens, t.isEnd = true) :
    ∃ j, c.synchronized.At tokens j ∧ Resumes tokens i j := by
  have hended := h.ended hi hend
  obtain ⟨t, ts, hrest⟩ := hended.rest_ne_nil
  have hpeek : c.peek = t := by simp [Cursor.peek, hrest]
  have hget := h.peek
  rw [hpeek] at hget
  -- at the end nothing is skipped; before it, the token at which reading failed is
  cases ht : t.isEnd with
  | true =>
    have hstay : c.synchronized = c :=
      synchronized_of_atEnd (by rw [← hended.peek_isEnd, hpeek, ht])
    exact ⟨i, by rwa [hstay], .atEnd hget ht⟩
  | false =>
    have hadvanced : c.advanced = { c with previous := t, rest := ts } := by
      simp [Cursor.advanced, hrest, ht]
    have hdrop : tokens.drop (i + 1) = ts := by
      rw [← List.drop_drop, ← h.rest, hrest]
      rfl
    have hend' : ∃ u ∈ ts, u.isEnd = true := by
      obtain ⟨u, hu, hue⟩ := hended
      rw [hrest] at hu
      rcases List.mem_cons.1 hu with rfl | hu
      · rw [ht] at hue
        cases hue
      · exact ⟨u, hu, hue⟩
    obtain ⟨j, hij, hj, hleast, hskip, hprev⟩ := skipToBoundary_stops hdrop hget hend'
    have hsync : c.synchronized.rest = tokens.drop j ∧
        tokens[j - 1]? = some c.synchronized.previous := by
      rw [Cursor.synchronized, hadvanced]
      exact ⟨hskip, hprev⟩
    refine ⟨j, ⟨hsync.1, ?_, hsync.2⟩, .boundary hget ht hij hj hleast⟩
    obtain ⟨u, hu, -⟩ := hj
    rw [Cursor.peek, hsync.1, List.headD_eq_head?_getD, List.head?_drop, hu]
    rfl

namespace Parser

variable {α : Type}

/-! ### Blocks -/

/-- What the declaration at `c` reads, if `n` steps are granted for what is inside it. -/
def attempt (n : Nat) : Parser Stmt :=
  declarationBody n (statement n) (blockTail (declaration n) n)

theorem declaration_succ (n : Nat) : declaration (n + 1) = recovering (attempt n) := by
  rw [declaration, declarationOf_eq, attempt]

end Parser

end Lox
