import Lox.Proofs.Machine.Origin
import Lox.Proofs.Machine.Silent
import Lox.Session

/-!
Printing to a sink that has room for so many bytes only. The run does what it would do with room for
everything, up to the first line that does not fit. There it prints what fits and ends with an
error, which nothing holds up. So what is printed is cut off where the room ends, and nothing else
is different.
-/

namespace Lox

variable {α β : Type} {room : Nat}

/-! ### Sinks -/

namespace Sink

/-- The sink with room for the given number of bytes in all, and what fits of its bytes. -/
def cut (sink : Sink) (room : Nat) : Sink :=
  { sink with written := sink.written.extract 0 room, room := some room }

variable {sink : Sink} {line : String}

/-- What fits is not cut. -/
theorem extract_of_size_le {bytes : ByteArray} (h : bytes.size ≤ room) :
    bytes.extract 0 room = bytes := by
  apply ByteArray.ext
  rw [ByteArray.data_extract]
  exact Array.extract_eq_self_of_le h

theorem written_cut (h : sink.written.size ≤ room) : (sink.cut room).written = sink.written :=
  extract_of_size_le h

/-- A sink without a limit takes every line whole. -/
theorem written_push (h : sink.room = none) :
    (sink.push line).written = sink.written ++ line.toUTF8 := by
  simp [push, free?, h]

theorem free?_cut (h : sink.written.size ≤ room) :
    (sink.cut room).free? = some (room - sink.written.size) := by
  rw [free?, written_cut h]
  rfl

/-- A line fits if all that is written then does. -/
theorem accepts_cut (h : sink.room = none) (hfits : sink.written.size ≤ room) :
    (sink.cut room).accepts line = decide ((sink.push line).written.size ≤ room) := by
  have hsize : line.toUTF8.size = line.utf8ByteSize := rfl
  rw [accepts, free?_cut hfits, written_push h, ByteArray.size_append, hsize]
  dsimp only
  congr 1
  rw [eq_iff_iff]
  omega

/-- What is pushed is cut off where the room ends, whether or not it fits. -/
theorem push_cut (h : sink.room = none) (hfits : sink.written.size ≤ room) :
    (sink.cut room).push line = (sink.push line).cut room := by
  rw [push, free?_cut hfits]
  dsimp only
  rw [written_cut hfits]
  simp only [cut, push, free?, h, Option.map_none]
  rw [ByteArray.extract_append, extract_of_size_le hfits, Nat.zero_sub]

end Sink

/-! ### Machines -/

namespace Machine

/-- Whatever is printed comes after what was printed before. -/
structure Prints (m m' : Machine) : Prop where
  room : m'.sink.room = m.sink.room
  flushFails : m'.sink.flushFails = m.sink.flushFails
  written : ∃ more, m'.sink.written = m.sink.written ++ more

/-- The machine prints to a sink without a limit, and has not printed more bytes than given. -/
structure Roomy (room : Nat) (m : Machine) : Prop where
  unlimited : m.sink.room = none
  fits : m.sink.written.size ≤ room

/-- The machine with a sink that has room for the given number of bytes in all. -/
def cut (m : Machine) (room : Nat) : Machine := { m with sink := m.sink.cut room }

variable {m m' m'' : Machine}

theorem Prints.of_eq (h : m'.sink = m.sink) : Prints m m' := by
  refine ⟨by rw [h], by rw [h], ByteArray.empty, ?_⟩
  rw [h, ByteArray.append_empty]

theorem Prints.trans (h : Prints m m') (h' : Prints m' m'') : Prints m m'' := by
  refine ⟨h'.room.trans h.room, h'.flushFails.trans h.flushFails, ?_⟩
  obtain ⟨more, hmore⟩ := h.written
  obtain ⟨more', hmore'⟩ := h'.written
  exact ⟨more ++ more', by rw [hmore', hmore, ByteArray.append_assoc]⟩

theorem prints_push (m : Machine) (line : String) :
    Prints m { m with sink := m.sink.push line } := by
  cases h : m.sink.free? with
  | none => exact ⟨by simp [Sink.push, h], by simp [Sink.push, h], _, by simp [Sink.push, h]; rfl⟩
  | some free =>
    exact ⟨by simp [Sink.push, h], by simp [Sink.push, h], _, by simp [Sink.push, h]; rfl⟩

/-- Only printing changes what was printed, and it adds to it. -/
theorem prints_stable : Run.Stable Prints Prints where
  refl _ := .of_eq rfl
  trans h h' := h.trans h'
  transStatement h h' := h.trans h'
  ofExpression h := h
  assign _ _ _ _ _ := .of_eq rfl
  count _ := .of_eq rfl
  print m line := prints_push m line
  read _ := .of_eq rfl
  define _ _ _ := .of_eq rfl
  enter h := ⟨h.room, h.flushFails, h.written⟩

/-- What is printed after the room has ended makes no difference to what fits. -/
theorem Prints.cut_eq (h : Prints m m') (hfull : room ≤ m.sink.written.size) :
    m'.sink.cut room = m.sink.cut room := by
  obtain ⟨more, hmore⟩ := h.written
  have hfits : m'.sink.written.extract 0 room = m.sink.written.extract 0 room := by
    rw [hmore, ByteArray.extract_append, Nat.zero_sub, Nat.sub_eq_zero_of_le hfull,
      ByteArray.extract_same, ByteArray.append_empty]
  rw [Sink.cut, Sink.cut, hfits, h.flushFails]

theorem Prints.size_le (h : Prints m m') : m.sink.written.size ≤ m'.sink.written.size := by
  obtain ⟨more, hmore⟩ := h.written
  rw [hmore, ByteArray.size_append]
  omega

end Machine

/-! ### Runs -/

namespace Run

open Machine

/-- How a computation ends with room for everything, and with the given room: in the same way, or in
the second case with an error where the room ended. -/
inductive Truncated (room : Nat) :
    EStateM.Result Stop Machine α → EStateM.Result Stop Machine α → Prop
  | ok {a : α} {m : Machine} : m.Roomy room → Truncated room (.ok a m) (.ok a (m.cut room))
  | error {s : Stop} {m : Machine} : m.Roomy room →
    Truncated room (.error s m) (.error s (m.cut room))
  | full {x : EStateM.Result Stop Machine α} {e : RuntimeError} {m' : Machine} :
    room < (stop x).sink.written.size → e.fault = .output .full →
    m'.sink = (stop x).sink.cut room → Truncated room x (.error (.error e) m')

/-- The computation prints, and with little room it does the same until the room ends. -/
structure Truncates (room : Nat) (r : Run α) : Prop where
  prints : Moves Prints r
  truncated : ∀ m, m.Roomy room → Truncated room (r m) (r (m.cut room))

variable {r next : Run α} {m m' : Machine}

/-- A step that does not see the sink is the same with any room. -/
theorem Silent.truncates (h : Silent r) : Truncates room r := by
  refine ⟨fun m => .of_eq (h.sink_stop m), fun m hm => ?_⟩
  have hsink := h.sink_stop m
  have hcut : r (m.cut room) = onSink (m.sink.cut room) (r m) := h m _
  rw [hcut, ← hsink]
  have hroomy : (stop (r m)).Roomy room := ⟨hsink ▸ hm.unlimited, hsink ▸ hm.fits⟩
  cases hr : r m with
  | ok a m' =>
    rw [hr] at hroomy
    exact .ok hroomy
  | error s m' =>
    rw [hr] at hroomy
    exact .error hroomy

/-- If the first part is cut short, the second is never reached. -/
theorem Truncates.bind {f : α → Run β} (hr : Truncates room r) (hf : ∀ a, Truncates room (f a)) :
    Truncates room (r >>= f) := by
  refine ⟨hr.prints.bind .trans fun a => (hf a).prints, fun m hm => ?_⟩
  have h := hr.truncated m hm
  generalize hx : r m = x at h
  generalize hy : r (m.cut room) = y at h
  cases h with
  | ok hroomy =>
    rw [bind_of_ok hx, bind_of_ok hy]
    exact (hf _).truncated _ hroomy
  | error hroomy =>
    rw [bind_of_error hx, bind_of_error hy]
    exact .error hroomy
  | full hsize hfault hsink =>
    rw [bind_of_error hy]
    cases x with
    | error s m₁ =>
      rw [bind_of_error hx]
      exact .full hsize hfault hsink
    | ok a m₁ =>
      -- with room for everything the run goes on, and prints after what no longer fits
      rw [bind_of_ok hx]
      have hmore := (hf a).prints m₁
      refine .full (Nat.lt_of_lt_of_le hsize hmore.size_le) hfault ?_
      rw [hsink, hmore.cut_eq (Nat.le_of_lt hsize)]
      rfl

/-- A line that does not fit is an error without a place, and so may be given one. -/
theorem Truncates.orAt (h : Truncates room r) (token : Token) : Truncates room (orAt token r) := by
  refine ⟨fun m => ?_, fun m hm => ?_⟩
  · rw [stop_orAt]
    exact h.prints m
  have htruncated := h.truncated m hm
  have hstop := stop_orAt token r m
  unfold Run.orAt at hstop ⊢
  generalize r m = x at htruncated hstop ⊢
  generalize r (m.cut room) = y at htruncated
  cases htruncated with
  | ok hroomy => exact .ok hroomy
  | error hroomy =>
    rename_i s _
    cases s with
    | error e => exact .error hroomy
    | outOfSteps => exact .error hroomy
  | @full x e m' hsize hfault hsink =>
    refine .full (hstop ▸ hsize) ?_ (hstop ▸ hsink)
    obtain ⟨fault, line⟩ := e
    cases line <;> exact hfault

theorem Truncates.within (h : Truncates room r) (scope : ScopeId) :
    Truncates room (within scope r) := by
  refine ⟨fun m => ?_, fun m hm => ?_⟩
  · rw [stop_within]
    have hprints := h.prints { m with current := scope }
    exact ⟨hprints.room, hprints.flushFails, hprints.written⟩
  have htruncated : Truncated room (r { m with current := scope })
      (r { m.cut room with current := scope }) :=
    h.truncated { m with current := scope } ⟨hm.unlimited, hm.fits⟩
  generalize hx : r { m with current := scope } = x at htruncated
  generalize hy : r { m.cut room with current := scope } = y at htruncated
  cases htruncated with
  | ok hroomy =>
    rw [within_of_ok hx, within_of_ok hy]
    exact .ok ⟨hroomy.unlimited, hroomy.fits⟩
  | error hroomy =>
    rw [within_of_error hx, within_of_error hy]
    exact .error ⟨hroomy.unlimited, hroomy.fits⟩
  | full hsize hfault hsink =>
    rw [within_of_error hy]
    cases x with
    | ok a m₁ =>
      rw [within_of_ok hx]
      exact .full hsize hfault hsink
    | error s m₁ =>
      rw [within_of_error hx]
      exact .full hsize hfault hsink

/-- If the computation ends well with little room, it does so with room for everything. -/
theorem Truncates.of_ok (h : Truncates room r) (hm : m.Roomy room) {a : α}
    (hr : r (m.cut room) = .ok a m') : ∃ m₁, r m = .ok a m₁ ∧ m₁.Roomy room ∧ m' = m₁.cut room := by
  have htruncated := h.truncated m hm
  rw [hr] at htruncated
  generalize r m = x at htruncated ⊢
  cases htruncated with
  | ok hroomy => exact ⟨_, rfl, hroomy, rfl⟩

/-! ### Small steps -/

/-- The line fits into what is left, or is cut there. -/
theorem truncates_printLine (text : String) : Truncates room (printLine text) := by
  refine ⟨prints_stable.printLine text, fun m hm => ?_⟩
  let line := text ++ "\n"
  let printed : Machine := { m with sink := m.sink.push line }
  have hall : printLine text m = .ok () printed := by
    unfold printLine
    exact if_pos (by simp [Sink.accepts, Sink.free?, hm.unlimited])
  have hcut : ({ m.cut room with sink := (m.cut room).sink.push line } : Machine) =
      printed.cut room :=
    congrArg (fun sink => { m with sink }) (Sink.push_cut hm.unlimited hm.fits)
  have haccepts : (m.cut room).sink.accepts line = decide (printed.sink.written.size ≤ room) :=
    Sink.accepts_cut hm.unlimited hm.fits
  have hlimited : printLine text (m.cut room) =
      if printed.sink.written.size ≤ room then .ok () (printed.cut room)
      else .error (.error (.unlocated (.output .full))) (printed.cut room) := by
    unfold printLine
    dsimp only
    rw [haccepts, hcut]
    simp only [decide_eq_true_eq]
  rw [hall, hlimited]
  split
  · next hfits =>
    have hroom : printed.sink.room = m.sink.room := (prints_push m line).room
    exact .ok ⟨hroom.trans hm.unlimited, hfits⟩
  · next hfull => exact .full (Nat.not_le.1 hfull) rfl rfl

/-! ### Whole runs -/

theorem truncates_closed : Closed fun _ r => Truncates room r where
  silent h := h.truncates
  printLine text := truncates_printLine text
  bind hr hf := hr.bind hf
  orAt token h := h.orAt token
  within scope h := h.within scope
  inCurrent h := ⟨fun m => (h m.current).prints m, fun m => (h m.current).truncated m⟩

theorem truncates_evalList {eval : Expr → Run Value} (he : ∀ e, Truncates room (eval e))
    (es : List Expr) : Truncates room (evalList eval es) :=
  truncates_closed.evalList he es

theorem truncates_execList {exec : Stmt → Run Flow} (hs : ∀ s, Truncates room (exec s))
    (ss : List Stmt) : Truncates room (execList exec ss) :=
  truncates_closed.execList hs ss

theorem truncates_eval (n : Nat) (e : Expr) : Truncates room (eval n e) :=
  truncates_closed.eval n e

theorem truncates_exec (n : Nat) (s : Stmt) : Truncates room (exec n s) :=
  truncates_closed.exec n s

end Run

/-! ### Points of a run -/

namespace Point

open Run

variable {p q : Point} {call : Option Token} {calls : List Token} {m : Machine}

/-- What is started where there is little room is started with room for everything. -/
theorem Starts.of_cut (h : Starts p call q) (hm : m.Roomy room) (hp : p.machine = m.cut room) :
    ∃ m₁ : Machine, m₁.Roomy room ∧ q.machine = m₁.cut room ∧
      Starts { p with machine := m } call { q with machine := m₁ } := by
  have evaluated : ∀ {n e} {m : Machine} {m' v}, m.Roomy room → eval n e (m.cut room) = .ok v m' →
      ∃ m₁, eval n e m = .ok v m₁ ∧ m₁.Roomy room ∧ m' = m₁.cut room :=
    fun hm => (truncates_eval _ _).of_ok hm
  have listed : ∀ {n es} {m : Machine} {m' vs}, m.Roomy room →
      evalList (eval n) es (m.cut room) = .ok vs m' →
      ∃ m₁, evalList (eval n) es m = .ok vs m₁ ∧ m₁.Roomy room ∧ m' = m₁.cut room :=
    fun hm => (truncates_evalList (truncates_eval _) _).of_ok hm
  have executed : ∀ {n s} {m : Machine} {m' flow}, m.Roomy room →
      exec n s (m.cut room) = .ok flow m' →
      ∃ m₁, exec n s m = .ok flow m₁ ∧ m₁.Roomy room ∧ m' = m₁.cut room :=
    fun hm => (truncates_exec _ _).of_ok hm
  have entered : ∀ {m : Machine} {parent names values}, m.Roomy room →
      (m.entered parent names values).Roomy room := fun hm => ⟨hm.unlimited, hm.fits⟩
  -- what comes before the start ended well with little room, so it did with all the room
  obtain ⟨n, task, m'⟩ := p
  subst hp
  cases h with
  | group => exact ⟨m, hm, rfl, .group⟩
  | unaryOperand => exact ⟨m, hm, rfl, .unaryOperand⟩
  | binaryLeft => exact ⟨m, hm, rfl, .binaryLeft⟩
  | logicalLeft => exact ⟨m, hm, rfl, .logicalLeft⟩
  | reference => exact ⟨m, hm, rfl, .reference⟩
  | assigned => exact ⟨m, hm, rfl, .assigned⟩
  | callee => exact ⟨m, hm, rfl, .callee⟩
  | evalFirst => exact ⟨m, hm, rfl, .evalFirst⟩
  | statements => exact ⟨m, hm, rfl, .statements⟩
  | execFirst => exact ⟨m, hm, rfl, .execFirst⟩
  | printed => exact ⟨m, hm, rfl, .printed⟩
  | expression => exact ⟨m, hm, rfl, .expression⟩
  | initial => exact ⟨m, hm, rfl, .initial⟩
  | ifThenTest => exact ⟨m, hm, rfl, .ifThenTest⟩
  | ifElseTest => exact ⟨m, hm, rfl, .ifElseTest⟩
  | whileTest => exact ⟨m, hm, rfl, .whileTest⟩
  | returned => exact ⟨m, hm, rfl, .returned⟩
  | block => exact ⟨_, entered hm, rfl, .block⟩
  | unary hv =>
    obtain ⟨m₁, hv₁, hm₁, rfl⟩ := evaluated hm hv
    exact ⟨m₁, hm₁, rfl, .unary hv₁⟩
  | binaryRight hv =>
    obtain ⟨m₁, hv₁, hm₁, rfl⟩ := evaluated hm hv
    exact ⟨m₁, hm₁, rfl, .binaryRight hv₁⟩
  | assign hv =>
    obtain ⟨m₁, hv₁, hm₁, rfl⟩ := evaluated hm hv
    exact ⟨m₁, hm₁, rfl, .assign hv₁⟩
  | arguments hv =>
    obtain ⟨m₁, hv₁, hm₁, rfl⟩ := evaluated hm hv
    exact ⟨m₁, hm₁, rfl, .arguments hv₁⟩
  | evalOthers hv =>
    obtain ⟨m₁, hv₁, hm₁, rfl⟩ := evaluated hm hv
    exact ⟨m₁, hm₁, rfl, .evalOthers hv₁⟩
  | print hv =>
    obtain ⟨m₁, hv₁, hm₁, rfl⟩ := evaluated hm hv
    exact ⟨m₁, hm₁, rfl, .print hv₁⟩
  | logicalRight hv htest =>
    obtain ⟨m₁, hv₁, hm₁, rfl⟩ := evaluated hm hv
    exact ⟨m₁, hm₁, rfl, .logicalRight hv₁ htest⟩
  | ifThen hv htest =>
    obtain ⟨m₁, hv₁, hm₁, rfl⟩ := evaluated hm hv
    exact ⟨m₁, hm₁, rfl, .ifThen hv₁ htest⟩
  | thenBranch hv htest =>
    obtain ⟨m₁, hv₁, hm₁, rfl⟩ := evaluated hm hv
    exact ⟨m₁, hm₁, rfl, .thenBranch hv₁ htest⟩
  | elseBranch hv htest =>
    obtain ⟨m₁, hv₁, hm₁, rfl⟩ := evaluated hm hv
    exact ⟨m₁, hm₁, rfl, .elseBranch hv₁ htest⟩
  | whileBody hv htest =>
    obtain ⟨m₁, hv₁, hm₁, rfl⟩ := evaluated hm hv
    exact ⟨m₁, hm₁, rfl, .whileBody hv₁ htest⟩
  | binary hv hw =>
    obtain ⟨m₁, hv₁, hm₁, rfl⟩ := evaluated hm hv
    obtain ⟨m₂, hw₂, hm₂, rfl⟩ := evaluated hm₁ hw
    exact ⟨m₂, hm₂, rfl, .binary hv₁ hw₂⟩
  | notCallable hf hvs hcall =>
    obtain ⟨m₁, hf₁, hm₁, rfl⟩ := evaluated hm hf
    obtain ⟨m₂, hvs₂, hm₂, rfl⟩ := listed hm₁ hvs
    exact ⟨m₂, hm₂, rfl, .notCallable hf₁ hvs₂ hcall⟩
  | wrongArity hf hvs hcall =>
    obtain ⟨m₁, hf₁, hm₁, rfl⟩ := evaluated hm hf
    obtain ⟨m₂, hvs₂, hm₂, rfl⟩ := listed hm₁ hvs
    exact ⟨m₂, hm₂, rfl, .wrongArity hf₁ hvs₂ hcall⟩
  | native hf hvs hcall =>
    obtain ⟨m₁, hf₁, hm₁, rfl⟩ := evaluated hm hf
    obtain ⟨m₂, hvs₂, hm₂, rfl⟩ := listed hm₁ hvs
    exact ⟨m₂, hm₂, rfl, .native hf₁ hvs₂ hcall⟩
  | body hf hvs hcall =>
    obtain ⟨m₁, hf₁, hm₁, rfl⟩ := evaluated hm hf
    obtain ⟨m₂, hvs₂, hm₂, rfl⟩ := listed hm₁ hvs
    exact ⟨_, entered hm₂, rfl, .body hf₁ hvs₂ hcall⟩
  | execOthers hs =>
    obtain ⟨m₁, hs₁, hm₁, rfl⟩ := executed hm hs
    exact ⟨m₁, hm₁, rfl, .execOthers hs₁⟩
  | whileAgain hv htest hs =>
    obtain ⟨m₁, hv₁, hm₁, rfl⟩ := evaluated hm hv
    obtain ⟨m₂, hs₂, hm₂, rfl⟩ := executed hm₁ hs
    exact ⟨m₂, hm₂, rfl, .whileAgain hv₁ htest hs₂⟩

/-- As long as all fits, the points reached are those of the run without a limit. -/
theorem Within.of_cut (h : Within p calls q) (hm : m.Roomy room) (hp : p.machine = m.cut room) :
    ∃ m₁ : Machine, m₁.Roomy room ∧ q.machine = m₁.cut room ∧
      Within { p with machine := m } calls { q with machine := m₁ } := by
  induction h with
  | here => exact ⟨m, hm, hp, .here⟩
  | next _ hs ih =>
    obtain ⟨m₁, hm₁, hq, hwithin⟩ := ih
    obtain ⟨m₂, hm₂, hr, hstarts⟩ := hs.of_cut hm₁ hq
    exact ⟨m₂, hm₂, hr, hwithin.next hstarts⟩

end Point

end Lox
