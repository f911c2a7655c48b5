import Lox.Proofs.Grammar.Lenient

/-!
Which branch an `else` belongs to does not matter for what can be read. A derivation that attaches
an `else` to any branch before it can be rearranged: wherever an `else` follows a statement that
ends with a branch without one, the `else` moves into that statement, down to its last such branch.
The tokens and the errors stay the same; the tree, and the way it ends, may change.
-/

namespace Lox.Grammar

variable {rule : ElseRule} {inside : Bool} {ending : Ending} {elseWord : Token}
  {vs : List Token} {elseBranch : Stmt} {gs : List ParseError}

theorem Ending.eq_closed {ending : Ending} (h : ending ≠ .dangling) : ending = .closed := by
  cases ending with
  | closed => rfl
  | dangling => exact absurd rfl h

/-- An `else` after a statement that ends with a branch without one moves into the statement. -/
theorem attach_else (helse : elseWord.is .elseWord = true)
    (hs : Lenient.Statement .nearest inside ending vs elseBranch gs) {before : Ending}
    {us : List Token} {s : Stmt} {fs : List ParseError}
    (h : Lenient.Statement .nearest inside before us s fs) (hb : before = .dangling) :
    ∃ ending' s',
      Lenient.Statement .nearest inside ending' (us ++ elseWord :: vs) s' (fs ++ gs) := by
  -- what is inside a statement has fewer tokens
  generalize hn : us.length = n
  induction n using Nat.strongRecOn generalizing before us s fs with
  | ind n ih =>
    subst hn
    cases h with
    | expression | print | returns | block => cases hb
    | whileDo hw ho h hc hbody =>
      obtain ⟨ending', body', hbody'⟩ := ih _ (by simp; omega) hbody hb rfl
      have hloop := Lenient.Statement.whileDo hw ho h hc hbody'
      exact ⟨ending', _, by simpa using hloop⟩
    | forDo hw ho hi ht hsemi hu hc hbody =>
      obtain ⟨ending', body', hbody'⟩ := ih _ (by simp; omega) hbody hb rfl
      have hloop := Lenient.Statement.forDo hw ho hi ht hsemi hu hc hbody'
      exact ⟨ending', _, by simpa using hloop⟩
    | @ifThen _ inner _ _ _ _ _ _ _ _ _ hw ho h hc hthen =>
      by_cases hinner : inner = .dangling
      · obtain ⟨_, thenBranch', hthen'⟩ := ih _ (by simp; omega) hthen hinner rfl
        have hif := Lenient.Statement.ifThen hw ho h hc hthen'
        exact ⟨.dangling, _, by simpa using hif⟩
      · -- the branch itself is the last one that lacks an `else`
        have hclosed := Ending.eq_closed hinner
        have hif := Lenient.Statement.ifElse hw ho h hc hthen (fun _ => hclosed) helse hs
        exact ⟨ending, _, by simpa using hif⟩
    | ifElse hw ho h hc hthen hrule helse' hlast =>
      obtain ⟨ending', last', hlast'⟩ := ih _ (by simp; omega) hlast hb rfl
      have hif := Lenient.Statement.ifElse hw ho h hc hthen hrule helse' hlast'
      exact ⟨ending', _, by simpa using hif⟩

mutual

/-- Every statement can be read with each `else` at the nearest branch. -/
theorem Lenient.Statement.nearest : ∀ {inside : Bool} {ending : Ending} {ts : List Token} {s : Stmt}
    {es : List ParseError}, Lenient.Statement rule inside ending ts s es →
    ∃ ending' s', Lenient.Statement .nearest inside ending' ts s' es
  | _, _, _, _, _, .expression h hsemi => ⟨_, _, .expression h hsemi⟩
  | _, _, _, _, _, .print hw h hsemi => ⟨_, _, .print hw h hsemi⟩
  | _, _, _, _, _, .returns hw h hsemi => ⟨_, _, .returns hw h hsemi⟩
  | _, _, _, _, _, .block ho h hc => by
    obtain ⟨body', h'⟩ := h.nearest
    exact ⟨_, _, .block ho h' hc⟩
  | _, _, _, _, _, .whileDo hw ho h hc hs => by
    obtain ⟨_, _, hs'⟩ := hs.nearest
    exact ⟨_, _, .whileDo hw ho h hc hs'⟩
  | _, _, _, _, _, .forDo hw ho hi ht hsemi hu hc hs => by
    obtain ⟨_, _, hs'⟩ := hs.nearest
    exact ⟨_, _, .forDo hw ho hi ht hsemi hu hc hs'⟩
  | _, _, _, _, _, .ifThen hw ho h hc hs => by
    obtain ⟨_, _, hs'⟩ := hs.nearest
    exact ⟨_, _, .ifThen hw ho h hc hs'⟩
  | _, _, _, _, _, .ifElse hw ho h hc hthen _ helse hlast => by
    obtain ⟨ending, thenBranch', hthen'⟩ := hthen.nearest
    obtain ⟨_, _, hlast'⟩ := hlast.nearest
    by_cases hending : ending = .dangling
    · -- the branch ends with a branch that takes the `else`
      obtain ⟨_, _, hinner⟩ := attach_else helse hlast' hthen' hending
      have hif := Lenient.Statement.ifThen hw ho h hc hinner
      exact ⟨_, _, by simpa using hif⟩
    · have hclosed := Ending.eq_closed hending
      exact ⟨_, _, .ifElse hw ho h hc hthen' (fun _ => hclosed) helse hlast'⟩

/-- The tokens may be read the nearest way, with the same reports. -/
theorem Lenient.Declaration.nearest : ∀ {inside : Bool} {ts : List Token} {s : Stmt}
    {es : List ParseError}, Lenient.Declaration rule inside ts s es →
    ∃ s', Lenient.Declaration .nearest inside ts s' es
  | _, _, _, _, .function hw hname ho hp hc hb hbody he => by
    obtain ⟨_, hbody'⟩ := hbody.nearest
    exact ⟨_, .function hw hname ho hp hc hb hbody' he⟩
  | _, _, _, _, .var h => ⟨_, .var h⟩
  | _, _, _, _, .statement h => by
    obtain ⟨_, _, h'⟩ := h.nearest
    exact ⟨_, .statement h'⟩

theorem Lenient.Declarations.nearest : ∀ {inside : Bool} {ts : List Token} {ss : List Stmt}
    {es : List ParseError}, Lenient.Declarations rule inside ts ss es →
    ∃ ss', Lenient.Declarations .nearest inside ts ss' es
  | _, _, _, _, .nil => ⟨[], .nil⟩
  | _, _, _, _, .cons h hs => by
    obtain ⟨s', h'⟩ := h.nearest
    obtain ⟨ss', hs'⟩ := hs.nearest
    exact ⟨s' :: ss', .cons h' hs'⟩

end

mutual

/-- A derivation that attaches each `else` to the nearest branch is a derivation. -/
theorem Statement.toAny : ∀ {inside : Bool} {ending : Ending} {ts : List Token} {s : Stmt},
    Statement rule inside ending ts s → Statement .any inside ending ts s
  | _, _, _, _, .expression h hsemi => .expression h hsemi
  | _, _, _, _, .print hw h hsemi => .print hw h hsemi
  | _, _, _, _, .returns hw h hsemi => .returns hw h hsemi
  | _, _, _, _, .block ho h hc => .block ho h.toAny hc
  | _, _, _, _, .whileDo hw ho h hc hs => .whileDo hw ho h hc hs.toAny
  | _, _, _, _, .forDo hw ho hi ht hsemi hu hc hs => .forDo hw ho hi ht hsemi hu hc hs.toAny
  | _, _, _, _, .ifThen hw ho h hc hs => .ifThen hw ho h hc hs.toAny
  | _, _, _, _, .ifElse hw ho h hc hs _ he hs' =>
    .ifElse hw ho h hc hs.toAny nofun he hs'.toAny

/-- The nearest way is one of all ways. -/
theorem Declaration.toAny : ∀ {inside : Bool} {ts : List Token} {s : Stmt},
    Declaration rule inside ts s → Declaration .any inside ts s
  | _, _, _, .function hw hname ho hp hc hb hbody he =>
    .function hw hname ho hp hc hb hbody.toAny he
  | _, _, _, .var h => .var h
  | _, _, _, .statement h => .statement h.toAny

theorem Declarations.toAny : ∀ {inside : Bool} {ts : List Token} {ss : List Stmt},
    Declarations rule inside ts ss → Declarations .any inside ts ss
  | _, _, _, .nil => .nil
  | _, _, _, .cons h hs => .cons h.toAny hs.toAny

end

end Lox.Grammar
