import Lox.Proofs.Parser.Run

/-!
How a reader moves its cursor. Whatever the tokens are, a reader only passes tokens, never one that
marks the end of the text; it leaves the depth as it was and forgets no error. A reader that gives
up does so right after it reported an error at its cursor. It lacks steps only if it was granted no
more than there are tokens left.

`Steady` says all this of one result of one reader, and says besides whether the reader is known to
pass a token when it succeeds. It is closed under sequencing: a step is lost only where a token is
passed.
-/

namespace Lox

variable {α β : Type}

namespace Cursor

/-- A mark for the end of the text is still to come. -/
def Ended (c : Cursor) : Prop := ∃ t ∈ c.rest, t.isEnd = true

/-- The number of tokens before the end of the text. -/
def left (c : Cursor) : Nat := (c.rest.takeWhile fun t => !t.isEnd).length

/-- From `c` to `d` tokens are passed, none of which marks the end of the text. -/
structure Moves (c d : Cursor) : Prop where
  passed : ∃ ts, c.rest = ts ++ d.rest ∧ (∀ t ∈ ts, t.isEnd = false) ∧
    d.previous = ts.getLastD c.previous
  depth : d.depth = c.depth
  errors : c.errors <+: d.errors

theorem Moves.refl (c : Cursor) : Moves c c := ⟨⟨[], by simp⟩, rfl, List.prefix_rfl⟩

/-- What is passed in two moves is passed in one. -/
theorem Moves.trans {c d e : Cursor} (hcd : Moves c d) (hde : Moves d e) : Moves c e := by
  obtain ⟨ts, hts, hend, hprev⟩ := hcd.passed
  obtain ⟨us, hus, hend', hprev'⟩ := hde.passed
  refine ⟨⟨ts ++ us, by rw [hts, hus, List.append_assoc], ?_, ?_⟩, hde.depth.trans hcd.depth,
    hcd.errors.trans hde.errors⟩
  · intro t ht
    rcases List.mem_append.1 ht with ht | ht
    · exact hend t ht
    · exact hend' t ht
  · rw [hprev', hprev]
    exact (getLastD_append ts us c.previous).symm

theorem Moves.ended {c d : Cursor} (h : Moves c d) (hc : c.Ended) : d.Ended := by
  obtain ⟨ts, hts, hend, -⟩ := h.passed
  obtain ⟨t, ht, hte⟩ := hc
  rw [hts] at ht
  rcases List.mem_append.1 ht with ht | ht
  · simp [hend t ht] at hte
  · exact ⟨t, ht, hte⟩

/-- The tokens passed are those by which less is left. -/
theorem left_of_rest {c d : Cursor} {ts : List Token} (h : c.rest = ts ++ d.rest)
    (hend : ∀ t ∈ ts, t.isEnd = false) : c.left = ts.length + d.left := by
  rw [left, left, h, List.takeWhile_append_of_pos (by simpa using hend), List.length_append]

theorem Moves.left_le {c d : Cursor} (h : Moves c d) : d.left ≤ c.left := by
  obtain ⟨ts, hts, hend, -⟩ := h.passed
  rw [left_of_rest hts hend]
  omega

theorem moves_report (c : Cursor) (token : Token) (fault : ParseFault) :
    Moves c (c.report token fault) :=
  ⟨⟨[], by simp [report]⟩, rfl, List.prefix_append ..⟩

theorem Ended.rest_ne_nil {c : Cursor} (h : c.Ended) : ∃ t ts, c.rest = t :: ts := by
  obtain ⟨t, ht, -⟩ := h
  exact List.exists_cons_of_ne_nil (List.ne_nil_of_mem ht)

/-- In a list with a mark for its end the two ways to ask for the end agree. -/
theorem Ended.peek_isEnd {c : Cursor} (h : c.Ended) : c.peek.isEnd = c.atEnd := by
  obtain ⟨t, ts, hr⟩ := h.rest_ne_nil
  simp [peek, atEnd, hr]

theorem moves_advanced (c : Cursor) : Moves c c.advanced := by
  unfold advanced
  split
  · exact .refl c
  · next t ts hr =>
    split
    · exact .refl c
    · next ht => exact ⟨⟨[t], by simp [hr], by simpa using ht, by simp⟩, rfl, List.prefix_rfl⟩

/-- A token that is passed was left before. -/
theorem left_advanced {c : Cursor} (h : c.atEnd = false) : c.advanced.left + 1 = c.left := by
  unfold atEnd at h
  split at h
  · simp at h
  · next t ts hr => simp [advanced, left, hr, h]

theorem left_eq_zero {c : Cursor} (h : c.atEnd = true) : c.left = 0 := by
  unfold atEnd at h
  split at h
  · next hr => simp [left, hr]
  · next t ts hr => simp [left, hr, h]

end Cursor

open Cursor

namespace Parser

/-- What a result says about its reader. `k` is a number of tokens on which the reader has enough
steps, and `b` says whether it passes a token when it succeeds. -/
def Steady (k : Nat) (b : Bool) (c : Cursor) : EStateM.Result Halt Cursor α → Prop
  | .ok _ d => Moves c d ∧ (b = true → d.left < c.left)
  | .error .failed d => Moves c d ∧ ∃ es fault, d.errors = c.errors ++ es ++ [⟨d.peek, fault⟩]
  | .error .stalled d => Moves c d ∧ k ≤ c.left

variable {k k' : Nat} {b b' : Bool} {c d : Cursor}

/-- Enough steps for some tokens are enough for fewer, and less may be said of the reader. -/
theorem Steady.mono {r : EStateM.Result Halt Cursor α} (h : Steady k b c r) (hk : k' ≤ k)
    (hb : b' = true → b = true) : Steady k' b' c r := by
  match r with
  | .ok _ d => exact ⟨h.1, fun hb' => h.2 (hb hb')⟩
  | .error .failed d => exact h
  | .error .stalled d => exact ⟨h.1, Nat.le_trans hk h.2⟩

theorem Steady.weaken {r : EStateM.Result Halt Cursor α} (h : Steady k b c r) :
    Steady k false c r :=
  h.mono (Nat.le_refl k) (by simp)

/-- The cursor at which a reader stops, however it stops. -/
def stop : EStateM.Result Halt Cursor α → Cursor
  | .ok _ d => d
  | .error _ d => d

theorem Steady.moves {r : EStateM.Result Halt Cursor α} (h : Steady k b c r) :
    Moves c (stop r) := by
  match r with
  | .ok _ d => exact h.1
  | .error .failed d => exact h.1
  | .error .stalled d => exact h.1

/-! ### Sequencing -/

theorem Steady.pure (a : α) : Steady k false c ((pure a : Parser α) c) := ⟨.refl c, by simp⟩

/-- One reader after another. What the second needs is counted from where it starts, one token
further if the first passes one. -/
theorem Steady.sequence {p : Parser α} {f : α → Parser β} (hc : c.Ended) (hp : Steady k b c (p c))
    (hf : ∀ a d, d.Ended → Steady (k - b.toNat) b' d (f a d)) :
    Steady k (b || b') c ((p >>= f) c) := by
  cases h : p c with
  | error halt d =>
    rw [bind_of_error h]
    rw [h] at hp
    cases halt with
    | failed => exact hp
    | stalled => exact hp
  | ok a d =>
    rw [bind_of_ok h]
    rw [h] at hp
    obtain ⟨hcd, hpass⟩ := hp
    have hd := hf a d (hcd.ended hc)
    have hle := hcd.left_le
    -- what was passed and reported before comes on top of what the second reader does
    match hr : f a d with
    | .ok x e =>
      rw [hr] at hd
      refine ⟨hcd.trans hd.1, fun hb => ?_⟩
      have := hd.1.left_le
      rcases Bool.or_eq_true .. ▸ hb with hb | hb
      · have := hpass hb; omega
      · have := hd.2 hb; omega
    | .error .failed e =>
      rw [hr] at hd
      obtain ⟨hde, es, fault, he⟩ := hd
      obtain ⟨fs, hfs⟩ := hcd.errors
      exact ⟨hcd.trans hde, fs ++ es, fault, by rw [he, ← hfs]; simp⟩
    | .error .stalled e =>
      rw [hr] at hd
      refine ⟨hcd.trans hd.1, ?_⟩
      have := hd.2
      cases b with
      | false => simp at this; omega
      | true => have := hpass rfl; simp at *; omega

/-- After a reader that need not pass a token. -/
theorem Steady.bind {p : Parser α} {f : α → Parser β} (hc : c.Ended) (hp : Steady k b c (p c))
    (hf : ∀ a d, d.Ended → Steady k b' d (f a d)) : Steady k b' c ((p >>= f) c) :=
  hp.weaken.sequence hc hf

/-- After a reader that passes a token, one step less is enough. -/
theorem Steady.pass {p : Parser α} {f : α → Parser β} (hc : c.Ended) (hp : Steady k true c (p c))
    (hf : ∀ a d, d.Ended → Steady (k - 1) false d (f a d)) : Steady k true c ((p >>= f) c) :=
  hp.sequence hc hf

/-- What is made of the answer moves no cursor. -/
theorem Steady.map {p : Parser α} (f : α → β) (hc : c.Ended) (hp : Steady k b c (p c)) :
    Steady k b c ((f <$> p) c) := by
  rw [map_eq_pure_bind]
  simpa using hp.sequence hc fun a d _ => Steady.pure (k := k - b.toNat) (c := d) (f a)

/-! ### Small readers -/

theorem steady_stall : Steady 0 b c ((stall : Parser α) c) := ⟨.refl c, Nat.zero_le _⟩

theorem steady_fail (fault : ParseFault) : Steady k b c ((fail fault : Parser α) c) :=
  ⟨moves_report .., [], fault, by rw [List.append_nil]; rfl⟩

theorem steady_advance : Steady k false c (advance c) := ⟨moves_advanced c, by simp⟩

/-- Passing a token that is there to be passed. -/
theorem steady_advance_of_not_end (hc : c.Ended) (h : c.peek.isEnd = false) :
    Steady k true c (advance c) := by
  rw [hc.peek_isEnd] at h
  have := left_advanced h
  exact ⟨moves_advanced c, fun _ => by omega⟩

theorem not_atEnd_of_sees {s : Symbol} (h : c.sees s = true) : c.atEnd = false := by
  simp only [Cursor.sees, Bool.and_eq_true, Bool.not_eq_true'] at h
  exact h.1

/-- A report moves no cursor. -/
theorem steady_reportIf (forbidden : Bool) (t : Token) (fault : ParseFault) :
    Steady k false c (reportIf forbidden t fault c) := by
  refine ⟨?_, by simp⟩
  cases forbidden with
  | false => exact .refl c
  | true => exact moves_report c t fault

/-- A symbol that is wanted is passed, or reported where the cursor is. -/
theorem steady_expect (s : Symbol) (fault : ParseFault) : Steady k true c (expect s fault c) := by
  rw [expect_apply]
  split
  · next h =>
    have := left_advanced (not_atEnd_of_sees h)
    exact ⟨moves_advanced c, fun _ => by omega⟩
  · exact steady_fail (α := Token) fault

theorem steady_expectName (fault : ParseFault) : Steady k true c (expectName fault c) := by
  rw [expectName_apply]
  split
  · next h =>
    simp only [Bool.and_eq_true, Bool.not_eq_true'] at h
    have := left_advanced h.2
    exact ⟨moves_advanced c, fun _ => by omega⟩
  · exact steady_fail (α := Token) fault

/-- After a symbol that may or may not come next. -/
theorem steady_take_bind {s : Symbol} {f : Bool → Parser α} (hc : c.Ended)
    (htrue : ∀ d, d.Ended → Steady (k - 1) b d (f true d)) (hfalse : Steady k b c (f false c)) :
    Steady k b c ((take s >>= f) c) := by
  rw [take_bind]
  split
  · next h =>
    have ht : Steady k true c (advance c) :=
      steady_advance_of_not_end hc (hc.peek_isEnd ▸ not_atEnd_of_sees h)
    exact (ht.sequence hc fun _ d hd => htrue d hd).mono (Nat.le_refl k) (by simp)
  · exact hfalse

/-- What may be left out need not pass a token. -/
theorem steady_unlessSeen {s : Symbol} {a : α} {p : Parser α} (hp : Steady k b c (p c)) :
    Steady k false c (unlessSeen s a p c) := by
  rw [unlessSeen_apply]
  split
  · exact .pure a
  · exact hp.weaken

theorem steady_ifTaken {s : Symbol} {p : Parser α} (hc : c.Ended)
    (hp : ∀ d, d.Ended → Steady (k - 1) b d (p d)) : Steady k false c (ifTaken s p c) :=
  steady_take_bind hc (fun d hd => ((hp d hd).map some hd).weaken) (.pure none)

/-- The depth is one more inside, and the same again outside. -/
theorem steady_nested {p : Parser α} (hp : ∀ d, d.Ended → Steady k b d (p d)) (hc : c.Ended) :
    Steady k b c (nested p c) := by
  have h := hp { c with depth := c.depth + 1 } hc
  have lower : ∀ {d : Cursor}, Moves { c with depth := c.depth + 1 } d →
      Moves c { d with depth := d.depth - 1 } := fun hd =>
    ⟨hd.passed, by simp [hd.depth], hd.errors⟩
  unfold nested
  match hr : p { c with depth := c.depth + 1 } with
  | .ok a d => rw [hr] at h; exact ⟨lower h.1, h.2⟩
  | .error .failed d => rw [hr] at h; exact ⟨lower h.1, h.2⟩
  | .error .stalled d => rw [hr] at h; exact ⟨lower h.1, h.2⟩

end Parser

end Lox
