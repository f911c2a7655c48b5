import Lox.Proofs.Parser.Declaration

/-!
What a reader has passed when it answers. `Sound R c r` says of a result `r` at the cursor `c` that
its tokens and its answer are related by `R`, unless an error was reported on the way; a reader that
gives up has reported one. The relation may also look at the token where the reader stops.

The lemmas follow the text of a reader from its first step on: what is to be shown of the remaining
steps is what `R` asks once the tokens passed so far are put in front.
-/

namespace Lox

variable {α β : Type}

/-- From `c` to `d` exactly the tokens `ts` are passed and the errors `es` are reported. -/
structure Cursor.Passed (c : Cursor) (ts : List Token) (es : List ParseError) (d : Cursor) :
    Prop where
  rest : c.rest = ts ++ d.rest
  notEnd : ∀ t ∈ ts, t.isEnd = false
  depth : d.depth = c.depth
  errors : d.errors = c.errors ++ es

namespace Cursor

theorem Passed.refl (c : Cursor) : c.Passed [] [] c :=
  ⟨rfl, by simp, rfl, (List.append_nil _).symm⟩

/-- What was passed and reported is collected in order. -/
theorem Passed.trans {c d e : Cursor} {ts us : List Token} {es fs : List ParseError}
    (hcd : c.Passed ts es d) (hde : d.Passed us fs e) : c.Passed (ts ++ us) (es ++ fs) e := by
  refine ⟨by rw [hcd.rest, hde.rest, List.append_assoc], ?_, hde.depth.trans hcd.depth,
    by rw [hde.errors, hcd.errors, List.append_assoc]⟩
  intro t ht
  rcases List.mem_append.1 ht with ht | ht
  · exact hcd.notEnd t ht
  · exact hde.notEnd t ht

/-- A cursor that moved has passed some tokens and reported some faults. -/
theorem Moves.exists_passed {c d : Cursor} (h : Moves c d) : ∃ ts es, c.Passed ts es d := by
  obtain ⟨ts, hts, hend, -⟩ := h.passed
  obtain ⟨es, hes⟩ := h.errors
  exact ⟨ts, es, hts, hend, h.depth, hes.symm⟩

theorem Passed.ended {c d : Cursor} {ts : List Token} {es : List ParseError}
    (h : c.Passed ts es d) (hc : c.Ended) : d.Ended := by
  obtain ⟨t, ht, hend⟩ := hc
  rw [h.rest] at ht
  rcases List.mem_append.1 ht with ht | ht
  · rw [h.notEnd t ht] at hend
    cases hend
  · exact ⟨t, ht, hend⟩

theorem passed_report (c : Cursor) (token : Token) (fault : ParseFault) :
    c.Passed [] [⟨token, fault⟩] (c.report token fault) :=
  ⟨rfl, by simp, rfl, rfl⟩

/-- Before the end, one step passes one token. -/
theorem passed_advanced {c : Cursor} (hc : c.Ended) (h : c.peek.isEnd = false) :
    c.Passed [c.peek] [] c.advanced ∧ c.advanced.previous = c.peek := by
  obtain ⟨t, ts, hr⟩ := hc.rest_ne_nil
  have ht : t.isEnd = false := by simpa [peek, hr] using h
  refine ⟨⟨by simp [advanced, peek, hr, ht], by simp [h], by simp [advanced, hr, ht],
    by simp [advanced, hr, ht]⟩, by simp [advanced, peek, hr, ht]⟩

/-- With an end in the list, looking at the next token is enough. -/
theorem Ended.sees_eq {c : Cursor} (hc : c.Ended) (s : Symbol) : c.sees s = c.peek.is s := by
  rw [sees, ← hc.peek_isEnd]
  cases h : c.peek.is s with
  | false => simp
  | true => simp [Token.isEnd_of_is h]

end Cursor

open Cursor

namespace Parser

/-- What a result says about the tokens passed. -/
def Sound (R : List Token → α → Token → Prop) (c : Cursor) : EStateM.Result Halt Cursor α → Prop
  | .ok a d => ∃ ts es, c.Passed ts es d ∧ (es = [] → R ts a d.peek)
  | .error .failed d => ∃ ts es, c.Passed ts es d ∧ es ≠ []
  | .error .stalled _ => True

variable {c : Cursor} {R S : List Token → α → Token → Prop} {T : List Token → β → Token → Prop}

/-- What is known of a result may be weakened. -/
theorem Sound.imp {r : EStateM.Result Halt Cursor α} (h : Sound R c r)
    (hRS : ∀ ts a next, R ts a next → S ts a next) : Sound S c r := by
  match r with
  | .ok a d =>
    obtain ⟨ts, es, hpassed, hR⟩ := h
    exact ⟨ts, es, hpassed, fun he => hRS ts a d.peek (hR he)⟩
  | .error .failed d => exact h
  | .error .stalled d => trivial

theorem Sound.pure {a : α} (h : R [] a c.peek) : Sound R c ((pure a : Parser α) c) :=
  ⟨[], [], .refl c, fun _ => h⟩

/-- What was passed before comes in front. -/
theorem Sound.prepend {r : EStateM.Result Halt Cursor β} {d : Cursor} {us : List Token}
    {es : List ParseError} (hcd : c.Passed us es d)
    (h : Sound (fun ts b next => es = [] → T (us ++ ts) b next) d r) : Sound T c r := by
  match r with
  | .ok b e =>
    obtain ⟨ts, fs, hde, hT⟩ := h
    refine ⟨us ++ ts, es ++ fs, hcd.trans hde, fun he => ?_⟩
    rw [List.append_eq_nil_iff] at he
    exact hT he.2 he.1
  | .error .failed e =>
    obtain ⟨ts, fs, hde, hne⟩ := h
    exact ⟨us ++ ts, es ++ fs, hcd.trans hde, by simp [hne]⟩
  | .error .stalled e => trivial

/-- The rest is judged knowing which tokens the first reader has passed. -/
theorem Sound.bind {p : Parser α} {f : α → Parser β} (hc : c.Ended) (hp : Sound R c (p c))
    (hf : ∀ a d, d.Ended → d.depth = c.depth →
      Sound (fun ts b next => ∀ us, R us a d.peek → T (us ++ ts) b next) d (f a d)) :
    Sound T c ((p >>= f) c) := by
  match h : p c with
  | .error .failed d =>
    rw [bind_of_error h]
    rw [h] at hp
    exact hp
  | .error .stalled d =>
    rw [bind_of_error h]
    trivial
  | .ok a d =>
    rw [bind_of_ok h]
    rw [h] at hp
    obtain ⟨us, es, hcd, hR⟩ := hp
    refine (Sound.imp (hf a d (hcd.ended hc) hcd.depth) ?_).prepend hcd
    exact fun ts b next hT he => hT us (hR he)

theorem Sound.map {p : Parser α} {f : α → β} (hc : c.Ended)
    (hp : Sound (fun ts a => T ts (f a)) c (p c)) : Sound T c ((f <$> p) c) := by
  rw [map_eq_pure_bind]
  refine hp.bind hc fun a d _ _ => .pure fun us hus => ?_
  rwa [List.append_nil]

/-! ### Small readers -/

/-- A reader that did not come to an end has shown nothing. -/
theorem sound_stall : Sound R c ((stall : Parser α) c) := trivial

/-- A reader that fails reports, so it need not say what it read. -/
theorem sound_fail (fault : ParseFault) : Sound R c ((fail fault : Parser α) c) :=
  ⟨[], _, passed_report c c.peek fault, List.cons_ne_nil _ _⟩

theorem sound_advance {f : Token → Parser β} (hc : c.Ended) (h : c.peek.isEnd = false)
    (hf : ∀ d, d.Ended → d.depth = c.depth →
      Sound (fun ts => T (c.peek :: ts)) d (f c.peek d)) :
    Sound T c ((advance >>= f) c) := by
  obtain ⟨hpassed, hprevious⟩ := passed_advanced hc h
  rw [advance_bind, hprevious]
  refine ((hf _ (hpassed.ended hc) hpassed.depth).imp ?_).prepend hpassed
  exact fun ts b next hT _ => hT

/-- Either the token stands here, or the reading fails. -/
theorem sound_expect {s : Symbol} {fault : ParseFault} {f : Token → Parser β} (hc : c.Ended)
    (hf : ∀ t d, t.is s = true → d.Ended → d.depth = c.depth →
      Sound (fun ts => T (t :: ts)) d (f t d)) : Sound T c ((expect s fault >>= f) c) := by
  by_cases h : c.peek.is s = true
  · have hok : expect s fault c = advance c := by
      rw [expect_apply, hc.sees_eq, if_pos h]
      rfl
    rw [bind_of_ok hok]
    exact sound_advance (f := f) hc (Token.isEnd_of_is h) fun d => hf c.peek d h
  · have herror : expect s fault c = .error .failed (c.report c.peek fault) := by
      rw [expect_apply, hc.sees_eq, if_neg h]
    rw [bind_of_error herror]
    exact sound_fail fault

theorem sound_expectName {fault : ParseFault} {f : Token → Parser β} (hc : c.Ended)
    (hf : ∀ t d, t.kind.isIdentifier = true → d.Ended → d.depth = c.depth →
      Sound (fun ts => T (t :: ts)) d (f t d)) : Sound T c ((expectName fault >>= f) c) := by
  by_cases h : c.peek.kind.isIdentifier = true
  · have hend := Token.isEnd_of_isIdentifier h
    have hok : expectName fault c = advance c := by
      rw [expectName_apply, ← hc.peek_isEnd, hend, h]
      rfl
    rw [bind_of_ok hok]
    exact sound_advance (f := f) hc hend fun d => hf c.peek d h
  · have herror : expectName fault c = .error .failed (c.report c.peek fault) := by
      rw [expectName_apply, if_neg (by simp [h])]
    rw [bind_of_error herror]
    exact sound_fail fault

/-- The two ways of going on are told apart by the next token. -/
theorem sound_take {s : Symbol} {f : Bool → Parser β} (hc : c.Ended)
    (htrue : c.peek.is s = true → ∀ d, d.Ended → d.depth = c.depth →
      Sound (fun ts => T (c.peek :: ts)) d (f true d))
    (hfalse : c.peek.is s = false → Sound T c (f false c)) : Sound T c ((take s >>= f) c) := by
  rw [take_bind, hc.sees_eq]
  by_cases h : c.peek.is s = true
  · rw [if_pos h]
    exact sound_advance (f := fun _ => f true) hc (Token.isEnd_of_is h) (htrue h)
  · rw [if_neg h]
    exact hfalse (by simpa using h)

/-- After a report nothing is claimed. -/
theorem sound_reportIf {forbidden : Bool} {token : Token} {fault : ParseFault}
    {f : Unit → Parser β} (hc : c.Ended)
    (hf : ∀ d, d.Ended → d.depth = c.depth →
      Sound (fun ts b next => forbidden = false → T ts b next) d (f () d)) :
    Sound T c ((reportIf forbidden token fault >>= f) c) := by
  rw [reportIf_bind]
  cases forbidden with
  | false => exact (hf c hc rfl).imp fun ts b next hT => hT rfl
  | true =>
    have hpassed := passed_report c token fault
    refine ((hf _ (hpassed.ended hc) hpassed.depth).imp ?_).prepend hpassed
    exact fun ts b next _ hnil => absurd hnil (List.cons_ne_nil _ _)

theorem sound_unlessSeen {s : Symbol} {a : α} {p : Parser α} (ha : R [] a c.peek)
    (hp : Sound R c (p c)) : Sound R c (unlessSeen s a p c) := by
  rw [unlessSeen_apply]
  split
  · exact .pure ha
  · exact hp

/-- The part is there if the token in front of it is. -/
theorem sound_ifTaken {s : Symbol} {p : Parser α} {R : List Token → Option α → Token → Prop}
    (hc : c.Ended) (hnone : R [] none c.peek)
    (hsome : c.peek.is s = true → ∀ d, d.Ended → d.depth = c.depth →
      Sound (fun ts a => R (c.peek :: ts) (some a)) d (p d)) : Sound R c (ifTaken s p c) :=
  sound_take hc (fun h d hd hdepth => .map hd (hsome h d hd hdepth)) fun _ => .pure hnone

theorem sound_nested {p : Parser α} (hp : Sound R { c with depth := c.depth + 1 }
    (p { c with depth := c.depth + 1 })) : Sound R c (nested p c) := by
  have lower : ∀ {ts es d}, Cursor.Passed { c with depth := c.depth + 1 } ts es d →
      c.Passed ts es { d with depth := d.depth - 1 } := fun hd =>
    ⟨hd.rest, hd.notEnd, by simp [hd.depth], hd.errors⟩
  unfold nested
  match hr : p { c with depth := c.depth + 1 } with
  | .ok a d =>
    rw [hr] at hp
    obtain ⟨ts, es, hd, hR⟩ := hp
    exact ⟨ts, es, lower hd, hR⟩
  | .error .failed d =>
    rw [hr] at hp
    obtain ⟨ts, es, hd, hne⟩ := hp
    exact ⟨ts, es, lower hd, hne⟩
  | .error .stalled d => trivial

/-- A declaration that is left out has reported an error. -/
theorem sound_recovering {p : Parser Stmt} {R : List Token → Stmt → Token → Prop}
    (hp : Sound R c (p c)) :
    Sound (fun ts o next => ∃ s, o = some s ∧ R ts s next) c (recovering p c) := by
  unfold recovering
  match hr : p c with
  | .ok s d =>
    rw [hr] at hp
    obtain ⟨ts, es, hd, hR⟩ := hp
    exact ⟨ts, es, hd, fun he => ⟨s, rfl, hR he⟩⟩
  | .error .failed d =>
    rw [hr] at hp
    obtain ⟨ts, es, hd, hne⟩ := hp
    obtain ⟨us, fs, hsync⟩ := ((moves_advanced d).trans d.moves_synchronized).exists_passed
    refine ⟨ts ++ us, es ++ fs, hd.trans hsync, fun he => ?_⟩
    exact absurd (List.append_eq_nil_iff.1 he).1 hne
  | .error .stalled d => trivial

end Parser

end Lox
