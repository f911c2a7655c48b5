import Lox.Proofs.Machine.Silent
import Lox.Session

/-!
Printing to a sink without a limit. What was written before makes no difference to a run: it ends in
the same way, and what it prints comes after what was written before, whatever that was.
-/

namespace Lox

variable {α β : Type}

/-- The sink with other bytes written so far. -/
def Sink.after (sink : Sink) (written : ByteArray) : Sink := { sink with written }

/-- The machine with other bytes written so far. -/
def Machine.after (m : Machine) (written : ByteArray) : Machine :=
  { m with sink := m.sink.after written }

namespace Run

/-- If the sink has no limit, the computation prints the same bytes after any others. -/
def Appends (r : Run α) : Prop :=
  ∀ m : Machine, m.sink.room = none → ∃ out, ∀ written,
    r (m.after written) = onSink (m.sink.after (written ++ out)) (r m)

variable {r : Run α} {m : Machine}

theorem Silent.appends (h : Silent r) : Appends r := by
  intro m _
  refine ⟨ByteArray.empty, fun written => ?_⟩
  rw [ByteArray.append_empty]
  exact h m _

theorem appends_printLine (text : String) : Appends (printLine text) := by
  intro m hm
  refine ⟨(text ++ "\n").toUTF8, fun written => ?_⟩
  simp [printLine, Machine.after, Sink.after, Sink.accepts, Sink.push, Sink.free?, hm, onSink]

/-- The sink that a computation leaves. -/
theorem sink_stop_of_appends {out : ByteArray}
    (h : ∀ written, r (m.after written) = onSink (m.sink.after (written ++ out)) (r m)) :
    (stop (r m)).sink = m.sink.after (m.sink.written ++ out) := by
  have hself : r m = onSink (m.sink.after (m.sink.written ++ out)) (r m) := h m.sink.written
  rw [hself]
  cases r m <;> rfl

theorem Appends.bind {f : α → Run β} (hr : Appends r) (hf : ∀ a, Appends (f a)) :
    Appends (r >>= f) := by
  intro m hm
  obtain ⟨out, hout⟩ := hr m hm
  have hsink := sink_stop_of_appends hout
  cases hrm : r m with
  | error s m' =>
    refine ⟨out, fun written => ?_⟩
    have hwritten := hout written
    rw [hrm] at hwritten
    rw [bind_of_error hrm, bind_of_error hwritten]
    rfl
  | ok a m' =>
    rw [hrm] at hsink
    have hm' : m'.sink = m.sink.after (m.sink.written ++ out) := hsink
    obtain ⟨more, hmore⟩ := hf a m' (by rw [hm']; exact hm)
    refine ⟨out ++ more, fun written => ?_⟩
    have hwritten : r (m.after written) = .ok a (m'.after (written ++ out)) := by
      rw [hout written, hrm, Machine.after, hm']
      rfl
    rw [bind_of_ok hrm, bind_of_ok hwritten, hmore, ← ByteArray.append_assoc, hm']
    rfl

theorem Appends.orAt (h : Appends r) (token : Token) : Appends (orAt token r) := by
  intro m hm
  obtain ⟨out, hout⟩ := h m hm
  refine ⟨out, fun written => ?_⟩
  unfold Run.orAt
  rw [hout written]
  cases r m with
  | ok a m' => rfl
  | error s m' => cases s <;> rfl

theorem Appends.within (h : Appends r) (scope : ScopeId) : Appends (within scope r) := by
  intro m hm
  obtain ⟨out, hout⟩ := h { m with current := scope } hm
  refine ⟨out, fun written => ?_⟩
  have hwritten : r { m.after written with current := scope } = _ := hout written
  unfold Run.within
  dsimp only
  rw [hwritten]
  cases r { m with current := scope } <;> rfl

theorem appends_closed : Closed fun _ r => Appends r where
  silent h := h.appends
  printLine text := appends_printLine text
  bind hr hf := hr.bind hf
  orAt token h := h.orAt token
  within scope h := h.within scope
  inCurrent h := fun m hm => h m.current m hm

end Run

/-! ### Sessions -/

namespace Session

/-- The session with other bytes written so far. -/
def after (s : Session) (written : ByteArray) : Session :=
  { s with machine := s.machine.after written }

variable (s : Session) (n : Nat)

/-- What is interpreted prints the same after whatever was written. -/
theorem interpret_after (ss : List Stmt) (hroom : s.machine.sink.room = none) :
    ∃ out, (∀ written, (s.after written).interpret n ss =
        (s.interpret n ss).map fun t => t.after (written ++ out)) ∧
      ∀ t, s.interpret n ss = some t →
        t.machine.sink = s.machine.sink.after (s.machine.sink.written ++ out) := by
  have happends := Run.appends_closed.execList (Run.appends_closed.exec n) ss
  obtain ⟨out, hout⟩ := happends s.machine hroom
  have hsink := Run.sink_stop_of_appends hout
  have hwritten : ∀ written, execList (exec n) ss (s.after written).machine = _ := hout
  refine ⟨out, fun written => ?_, fun t ht => ?_⟩
  · simp only [interpret, Machine.perform, hwritten]
    generalize execList (exec n) ss s.machine = x at hsink
    cases x with
    | ok flow m =>
      have hm : m.sink = _ := hsink
      simp [Run.onSink, after, Machine.after, Sink.after, Machine.flushErrors, Sink.flush, hm]
    | error stop m =>
      have hm : m.sink = _ := hsink
      cases stop with
      | outOfSteps => rfl
      | error e =>
        simp [Run.onSink, after, Machine.after, Sink.after, Machine.flushErrors, Sink.flush, hm]
  · simp only [interpret, Machine.perform] at ht
    generalize execList (exec n) ss s.machine = x at hsink ht
    cases x with
    | ok flow m =>
      cases ht
      exact hsink
    | error stop m =>
      cases stop with
      | outOfSteps => cases ht
      | error e =>
        cases ht
        exact hsink

/-- A text prints the same after whatever was written. -/
theorem run_after (text : String) (hroom : s.machine.sink.room = none) :
    ∃ out, (∀ written, (s.after written).run n text =
        (s.run n text).map fun t => t.after (written ++ out)) ∧
      ∀ t, s.run n text = some t →
        t.machine.sink = s.machine.sink.after (s.machine.sink.written ++ out) := by
  let read : Session :=
    { s with diagnostics := s.diagnostics.addAll (Source.read text).reports }
  by_cases hstatic : read.diagnostics.hadStatic = true
  · -- nothing is run
    refine ⟨ByteArray.empty, fun written => ?_, fun t ht => ?_⟩
    · have hrun : s.run n text = some read := if_pos hstatic
      have hafter : (s.after written).run n text = some (read.after written) := if_pos hstatic
      rw [hrun, hafter, ByteArray.append_empty]
      rfl
    · have hrun : s.run n text = some read := if_pos hstatic
      rw [hrun] at ht
      cases ht
      rw [ByteArray.append_empty]
      rfl
  · obtain ⟨out, hout, hsink⟩ := interpret_after read n (Source.read text).statements hroom
    have hrun : s.run n text = read.interpret n (Source.read text).statements := if_neg hstatic
    refine ⟨out, fun written => ?_, fun t ht => hsink t (hrun ▸ ht)⟩
    have hafter : (s.after written).run n text =
        (read.after written).interpret n (Source.read text).statements := if_neg hstatic
    rw [hafter, hrun, hout]

end Session

end Lox
