import Lox.Proofs.Parser.Comparison

/-!
Reading under watch. A declaration that fails leaves no trace in the answer but a gap, so the
failures of a reading cannot be counted from its answer. A watched reading is the same reading, but
whenever a declaration is left out it adds a note of its own to the errors, where the declaration
failed. Without the notes it is the reading itself. With them, each error at which a reader gives up
is followed at once by the note of the declaration that it was in.
-/

namespace Lox

/-- What the watcher notes where a declaration fails. -/
def leftOut : ParseFault := .note "Declaration left out."

/-- The errors without the notes. -/
def unnoted (es : List ParseError) : List ParseError := es.filter fun e => !e.fault.isNote

/-- Each error at which a reader gave up is followed by the note of a declaration that was left out,
at the same token; all other errors forbid something that was read. -/
inductive Settled : List ParseError → Prop
  | nil : Settled []
  | forbidden {e : ParseError} {es : List ParseError} : e.fault.forbids = true → Settled es →
    Settled (e :: es)
  | failure {t : Token} {fault : ParseFault} {es : List ParseError} : fault.stops = true →
    Settled es → Settled (⟨t, fault⟩ :: ⟨t, leftOut⟩ :: es)

/-- What is settled twice is settled together. -/
theorem Settled.append {es fs : List ParseError} (h : Settled es) (h' : Settled fs) :
    Settled (es ++ fs) := by
  induction h with
  | nil => exact h'
  | forbidden he _ ih => exact .forbidden he ih
  | failure hfault _ ih => exact .failure hfault ih

theorem unnoted_append (es fs : List ParseError) : unnoted (es ++ fs) = unnoted es ++ unnoted fs :=
  List.filter_append ..

theorem unnoted_cons_of_not_isNote {e : ParseError} (h : e.fault.isNote = false)
    (es : List ParseError) : unnoted (e :: es) = e :: unnoted es := by
  simp [unnoted, h]

theorem unnoted_leftOut (t : Token) (es : List ParseError) :
    unnoted (⟨t, leftOut⟩ :: es) = unnoted es := by
  simp [unnoted, leftOut, ParseFault.isNote]

/-- No reader gives up at a note. -/
theorem ParseFault.isNote_of_stops {fault : ParseFault} (h : fault.stops = true) :
    fault.isNote = false := by
  simp only [stops, Bool.and_eq_true, Bool.not_eq_true'] at h
  exact h.2

namespace Cursor

/-- The cursor with other errors. -/
def withErrors (c : Cursor) (es : List ParseError) : Cursor := { c with errors := es }

variable (c : Cursor) (es : List ParseError)

/-- A cursor moves on whatever its errors are. -/
theorem withErrors_advanced : (c.withErrors es).advanced = c.advanced.withErrors es := by
  simp only [advanced, withErrors]
  split
  · rfl
  · split
    · rfl
    · rfl

theorem withErrors_synchronized :
    (c.withErrors es).synchronized = c.synchronized.withErrors es := by
  simp only [synchronized, withErrors_advanced]
  rfl

theorem errors_synchronized : c.synchronized.errors = c.errors := errors_advanced c

/-- Recovery looks at no errors. -/
theorem synchronized_report (token : Token) (fault : ParseFault) :
    (c.report token fault).synchronized = c.synchronized.report token fault := by
  have hreport : c.report token fault = c.withErrors (c.errors ++ [⟨token, fault⟩]) := rfl
  rw [hreport, withErrors_synchronized, report, errors_synchronized]
  rfl

end Cursor

open Cursor

namespace Parser

variable {α β : Type} {p q : Parser α} {c : Cursor} {before : List ParseError}

/-! ### One reading follows another -/

/-- The first result is the second without its notes. The reading began at `c`, where the first had
the errors `before` instead. -/
inductive Follows (c : Cursor) (before : List ParseError) :
    EStateM.Result Halt Cursor α → EStateM.Result Halt Cursor α → Prop
  | ok {a : α} {d : Cursor} {es : List ParseError} : d.errors = c.errors ++ es → Settled es →
    Follows c before (.ok a (d.withErrors (before ++ unnoted es))) (.ok a d)
  | failed {d : Cursor} {es : List ParseError} {fault : ParseFault} :
    d.errors = c.errors ++ es ++ [⟨d.peek, fault⟩] → Settled es → fault.stops = true →
    Follows c before (.error .failed (d.withErrors (before ++ unnoted es ++ [⟨d.peek, fault⟩])))
      (.error .failed d)
  | stalled {d e : Cursor} : Follows c before (.error .stalled d) (.error .stalled e)

/-- A step that reports nothing. -/
theorem Follows.silent {a : α} {d : Cursor} (h : d.errors = c.errors) :
    Follows c before (.ok a (d.withErrors before)) (.ok a d) := by
  have hok : Follows c before (.ok a (d.withErrors (before ++ unnoted []))) (.ok a d) :=
    .ok (by rw [h, List.append_nil]) .nil
  rwa [unnoted, List.filter_nil, List.append_nil] at hok

/-- What was settled before comes first. -/
theorem Follows.after {d : Cursor} {es : List ParseError} {r r' : EStateM.Result Halt Cursor α}
    (h : Follows d (before ++ unnoted es) r r') (hd : d.errors = c.errors ++ es)
    (hes : Settled es) : Follows c before r r' := by
  cases h with
  | ok he hfs =>
    rw [List.append_assoc, ← unnoted_append]
    exact .ok (by rw [he, hd, List.append_assoc]) (hes.append hfs)
  | failed he hfs hfault =>
    rw [List.append_assoc before, ← unnoted_append]
    exact .failed (by rw [he, hd, List.append_assoc c.errors]) (hes.append hfs) hfault
  | stalled => exact .stalled

/-- The first reader reads as the second does, without its notes. -/
def Mirrors (p q : Parser α) : Prop :=
  ∀ c before, Follows c before (p (c.withErrors before)) (q c)

section

variable {n : Nat} {reader watched : Parser Stmt} {block watchedBlock : Parser (List Stmt)}
  (h : Mirrors reader watched) (hblock : Mirrors block watchedBlock)

include h hblock

end

/-- Reads a declaration, or notes that it is left out if that fails. -/
def watching (p : Parser Stmt) : Parser (Option Stmt) := fun c =>
  match p c with
  | .ok s d => .ok (some s) d
  | .error .failed d => .ok none (d.report d.peek leftOut).synchronized
  | .error .stalled d => .error .stalled d

mutual

/-- Reads a statement under watch. -/
def watchedStatement : Nat → Parser Stmt
  | 0 => stall
  | n + 1 => statementOf n (watchedStatement n) (blockTail (watchedDeclaration n) n)

/-- Reads a declaration under watch. -/
def watchedDeclaration : Nat → Parser (Option Stmt)
  | 0 => stall
  | n + 1 =>
    watching (declarationBody n (watchedStatement n) (blockTail (watchedDeclaration n) n))

end

/-- The note settles the error before it, and that error is the only one that is not settled. -/
theorem Mirrors.watching {p q : Parser Stmt} (h : Mirrors p q) :
    Mirrors (recovering p) (watching q) := by
  intro c before
  have hfollows := h c before
  unfold Parser.recovering Parser.watching
  generalize p (c.withErrors before) = r at hfollows
  generalize q c = r' at hfollows
  cases hfollows with
  | ok hd hes => exact .ok hd hes
  | @failed d es fault hd hes hfault =>
    have hsettled : Settled (es ++ [⟨d.peek, fault⟩, ⟨d.peek, leftOut⟩]) :=
      hes.append (.failure hfault .nil)
    have hunnoted : unnoted (es ++ [⟨d.peek, fault⟩, ⟨d.peek, leftOut⟩]) =
        unnoted es ++ [⟨d.peek, fault⟩] := by
      rw [unnoted_append, unnoted_cons_of_not_isNote (ParseFault.isNote_of_stops hfault),
        unnoted_leftOut]
      rfl
    have herrors : (d.synchronized.report d.peek leftOut).errors =
        c.errors ++ (es ++ [⟨d.peek, fault⟩, ⟨d.peek, leftOut⟩]) := by
      rw [Cursor.report, errors_synchronized, hd]
      simp
    dsimp only
    rw [withErrors_synchronized, synchronized_report, List.append_assoc, ← hunnoted]
    exact .ok herrors hsettled
  | stalled => exact .stalled

end Parser

end Lox
