import Lox.Proofs.Machine.Truncation
import Lox.Proofs.Session.Run

/-!
A session with a sink of limited room. Whatever is interpreted, the sink ends up with the first
bytes of what a sink without a limit gets, as many as there is room for. If that is everything, the
session is the same but for the sink. If it is not, one error is reported, that of the print whose
line did not fit, and the machine is as that print found it.
-/

namespace Lox

variable {α : Type} {room : Nat}

namespace Machine

variable {m m' : Machine}

/-- What is performed with room for everything is performed with little room, too: in the same way,
or up to an error where the room ends. -/
theorem perform_cut {r : Run α} (hr : Run.Truncates room r) (hm : m.Roomy room)
    {outcome : Outcome α} (h : m.perform r = some (outcome, m')) :
    m'.Roomy room ∧ (m.cut room).perform r = some (outcome, m'.cut room) ∨
      ∃ e m₀, room < m'.sink.written.size ∧ e.fault = .output .full ∧
        m₀.sink = m'.sink.cut room ∧ r.Fails (m.cut room) e m₀ := by
  have hstop := perform_eq_some h
  have htruncated := hr.truncated m hm
  unfold perform at h ⊢
  unfold Run.Fails
  generalize r m = x at h hstop htruncated
  generalize r (m.cut room) = y at htruncated ⊢
  cases htruncated with
  | ok hroomy =>
    cases h
    exact .inl ⟨hroomy, rfl⟩
  | @error s _ hroomy =>
    cases s with
    | outOfSteps => cases h
    | error e =>
      cases h
      exact .inl ⟨hroomy, rfl⟩
  | @full _ e m₀ hsize hfault hsink =>
    rw [← hstop] at hsize hsink
    exact .inr ⟨e, m₀, hsize, hfault, hsink, rfl⟩

end Machine

namespace Point

/-- If statements fail because the room ended, they came to a print, which they come to with room
for everything as well. Its line goes beyond the room, and the machine is as the print found it but
for the sink. -/
theorem exists_print_of_full {n : Nat} {ss : List Stmt} {m m₀ : Machine} {e : RuntimeError}
    (hm : m.Roomy room) (h : (execList (exec n) ss).Fails (m.cut room) e m₀)
    (hfault : e.fault = .output .full) :
    ∃ calls n' text m', Within ⟨n, .execAll ss, m⟩ calls ⟨n', .print text, m'⟩ ∧
      e = (RuntimeError.unlocated (.output .full)).placed calls ∧
      m'.sink.written.size ≤ room ∧
      room < (m'.sink.written ++ (text ++ "\n").toUTF8).size ∧
      m₀ = { m' with sink := m₀.sink, current := m.current } := by
  have hfails : Fails ⟨n, .execAll ss, m.cut room⟩ e m₀ := h
  obtain ⟨calls, ⟨n', task, mq⟩, e₀, m₁, hwithin, hsmall, hq, rfl, rfl⟩ := fails_iff.1 hfails
  rw [RuntimeError.fault_placed] at hfault
  obtain ⟨text, rfl⟩ : ∃ text, task = .print text := hq.print_of_output hsmall hfault
  obtain ⟨m', hm', rfl, hwithin'⟩ := hwithin.of_cut hm rfl
  obtain ⟨haccepts, rfl, rfl⟩ := fails_print_iff.1 hq
  refine ⟨calls, n', text, m', hwithin', rfl, hm'.fits, ?_, rfl⟩
  have hover : (m'.sink.cut room).accepts (text ++ "\n") = false := haccepts
  rw [Sink.accepts_cut hm'.unlimited hm'.fits, decide_eq_false_iff_not,
    Sink.written_push hm'.unlimited] at hover
  exact Nat.not_le.1 hover

end Point

namespace Session

open Machine Point

/-- The session with another sink. -/
def withSink (s : Session) (sink : Sink) : Session := { s with machine := { s.machine with sink } }

theorem extract_append_add (before out : ByteArray) (room : Nat) :
    (before ++ out).extract 0 (before.size + room) = before ++ out.extract 0 room := by
  rw [ByteArray.extract_append, Sink.extract_of_size_le (Nat.le_add_right _ _), Nat.zero_sub,
    Nat.add_sub_cancel_left]

theorem cut_withSink (s : Session) (before : ByteArray) (room : Nat) :
    (s.withSink { written := before }).machine.cut (before.size + room) =
      (s.withSink { written := before, room := some (before.size + room) }).machine := by
  rw [Machine.cut, Sink.cut]
  simp only [withSink]
  rw [Sink.extract_of_size_le (Nat.le_add_right _ _)]

/-- If interpreting ends with a sink without a limit, it ends with a sink that has room for so many
bytes more, and then the sink has got the first bytes of what the other one has. If that is
everything, nothing but the sink is different. If it is less, one error is reported in all: the room
ended at a print which is also reached without a limit, and nothing was done since. -/
theorem interpret_limited (s : Session) (n : Nat) (ss : List Stmt) (before : ByteArray)
    (room : Nat) {t : Session} (h : (s.withSink { written := before }).interpret n ss = some t) :
    ∃ out t', t.machine.sink.written = before ++ out ∧
      (s.withSink { written := before, room := some (before.size + room) }).interpret n ss =
        some t' ∧
      t'.machine.sink.written = before ++ out.extract 0 room ∧
      (out.size ≤ room → t' = t.withSink t'.machine.sink) ∧
      (room < out.size → ∃ calls n' text m' e,
        Within ⟨n, .execAll ss, (s.withSink { written := before }).machine⟩ calls
          ⟨n', .print text, m'⟩ ∧
        m'.sink.written.size ≤ before.size + room ∧
        before.size + room < (m'.sink.written ++ (text ++ "\n").toUTF8).size ∧
        t'.machine = { m' with sink := t'.machine.sink, current := s.machine.current } ∧
        t'.diagnostics = s.diagnostics.add (.runtime e) ∧
        e = (RuntimeError.unlocated (.output .full)).placed calls ∧
        e.fault.message = "Failed to write output: sink full") := by
  obtain ⟨outcome, hperform, hdiagnostics⟩ := interpret_eq_some_iff.1 h
  have htruncates : Run.Truncates (before.size + room) (execList (exec n) ss) :=
    Run.truncates_execList (Run.truncates_exec n) ss
  have hroomy : (s.withSink { written := before }).machine.Roomy (before.size + room) :=
    ⟨rfl, Nat.le_add_right _ _⟩
  have hprints := moves_of_perform htruncates.prints hperform
  obtain ⟨out, hout⟩ := hprints.written
  have hsize : t.machine.sink.written.size = before.size + out.size := by
    rw [hout, ByteArray.size_append]
    rfl
  have hcut : t.machine.sink.written.extract 0 (before.size + room) =
      before ++ out.extract 0 room := by
    rw [hout]
    exact extract_append_add before out room
  have hflush : t.machine.flushErrors = [] := by
    rw [flushErrors, Sink.flush, hprints.flushFails]
    rfl
  rcases perform_cut htruncates hroomy hperform with
    ⟨hfits, hsame⟩ | ⟨e, m₀, hfull, hfault, hsink, hfails⟩
  · -- everything fits
    rw [cut_withSink] at hsame
    refine ⟨out, ⟨t.machine.cut (before.size + room), t.diagnostics⟩, hout,
      interpret_eq_some_iff.2 ⟨outcome, hsame, hdiagnostics⟩, hcut, fun _ => rfl, fun hover => ?_⟩
    have hle := hfits.fits
    omega
  · -- the room ends at a print
    obtain ⟨calls, n', text, m', hwithin, he, hbelow, habove, hm₀⟩ :=
      exists_print_of_full hroomy hfails hfault
    rw [cut_withSink] at hfails
    have hended : Machine.perform
        (s.withSink { written := before, room := some (before.size + room) }).machine
        (execList (exec n) ss) = some (.error e, m₀) := by
      rw [perform, hfails]
    have hquiet : m₀.flushErrors = [] := by
      rw [flushErrors, Sink.flush, hsink]
      rw [flushErrors, Sink.flush] at hflush
      exact hflush
    refine ⟨out, ⟨m₀, s.diagnostics.add (.runtime e)⟩, hout,
      interpret_eq_some_iff.2 ⟨.error e, hended, ?_⟩, ?_, fun hle => ?_, fun _ =>
      ⟨calls, n', text, m', e, hwithin, hbelow, habove, hm₀, rfl, he, ?_⟩⟩
    · simp only [hquiet]
      rfl
    · dsimp only
      rw [hsink]
      exact hcut
    · omega
    · rw [hfault]
      rfl

/-- A function that prints a line of which two bytes fit, the second one half of a character. -/
theorem interpret_limited_halfCharacter :
    let s : Session := ⟨.new {} fun _ => none, {}⟩
    let ss := (Source.read "fun f() \x7b print \"h\u00e9\"; \x7d f(); print nil;").statements
    ∃ t t', (s.withSink {}).interpret 9 ss = some t ∧
      (s.withSink { room := some 2 }).interpret 9 ss = some t' ∧
      t.machine.sink.written.data = #[104, 195, 169, 10, 110, 105, 108, 10] ∧
      t'.machine.sink.written.data = #[104, 195] ∧
      ∃ e, t'.diagnostics = { reports := [.runtime e], hadRuntime := true } ∧
        e.fault.message = "Failed to write output: sink full" := by
  intro s ss
  have hrun : ((s.withSink {}).interpret 9 ss).map (fun t => t.machine.sink.written.data) =
      some #[104, 195, 169, 10, 110, 105, 108, 10] := by decide +kernel
  obtain ⟨t, ht, hwritten⟩ := Option.map_eq_some_iff.1 hrun
  obtain ⟨out, t', hout, ht', hfits, -, hover⟩ := interpret_limited s 9 ss .empty 2 ht
  rw [ByteArray.empty_append] at hout hfits
  have hdata : out.data = #[104, 195, 169, 10, 110, 105, 108, 10] := hout ▸ hwritten
  have hsize : out.size = 8 := congrArg Array.size hdata
  obtain ⟨-, -, -, -, e, -, -, -, -, he, -, hmessage⟩ := hover (by rw [hsize]; decide)
  refine ⟨t, t', ht, ht', hwritten, ?_, e, he, hmessage⟩
  rw [hfits, ByteArray.data_extract, hdata]
  rfl

end Session

end Lox
