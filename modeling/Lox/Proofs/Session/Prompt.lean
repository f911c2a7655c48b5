import Lox.Process
import Lox.Proofs.Session.Appends
import Lox.Proofs.Session.Run

/-!
The prompt. Its lines are run one after the other on one machine, each with a record of errors of
its own. What a line prints and which errors it has is said without the prompt: by a machine that
prints nothing but what the lines print. The prompt shows just that, with an invitation before each
line.
-/

namespace Lox

/-! ### Lines -/

namespace Console

/-- The bytes are cut into lines: each ends with the first line end in it, and only the last may
lack one. -/
inductive Lined : List UInt8 → List (List UInt8) → Prop
  | nil : Lined [] []
  | last {l : List UInt8} : l ≠ [] → 10 ∉ l → Lined l [l]
  | line {l bytes : List UInt8} {ls : List (List UInt8)} : 10 ∉ l → Lined bytes ls →
    Lined (l ++ 10 :: bytes) ((l ++ [10]) :: ls)

theorem lined_lines (bytes : List UInt8) : Lined bytes (lines bytes) := by
  induction bytes with
  | nil => exact .nil
  | cons b bytes ih =>
    rw [lines]
    split
    · next h =>
      subst h
      exact .line (l := []) (by simp) ih
    · next h =>
      -- the byte belongs to the first of the lines that follow, if there is one
      have hb : ∀ {l : List UInt8}, 10 ∉ l → 10 ∉ b :: l := fun hl => by
        simp [hl, Ne.symm h]
      generalize lines bytes = ls at ih
      cases ih with
      | nil => exact .last (by simp) (hb (by simp))
      | last _ hl => exact .last (by simp) (hb hl)
      | line hl hls => exact .line (hb hl) hls

theorem lines_of_not_mem {l : List UInt8} (h : 10 ∉ l) (hl : l ≠ []) : lines l = [l] := by
  induction l with
  | nil => exact absurd rfl hl
  | cons b l ih =>
    rw [List.mem_cons, not_or] at h
    rw [lines, if_neg (Ne.symm h.1)]
    cases l with
    | nil => rfl
    | cons c l => rw [ih h.2 (by simp)]

theorem lines_append {l : List UInt8} (h : 10 ∉ l) (bytes : List UInt8) :
    lines (l ++ 10 :: bytes) = (l ++ [10]) :: lines bytes := by
  induction l with
  | nil => simp [lines]
  | cons b l ih =>
    rw [List.mem_cons, not_or] at h
    rw [List.cons_append, lines, if_neg (Ne.symm h.1), ih h.2]
    rfl

/-- The lines are determined by the bytes. -/
theorem Lined.eq_lines {bytes : List UInt8} {ls : List (List UInt8)} (h : Lined bytes ls) :
    ls = lines bytes := by
  induction h with
  | nil => rfl
  | last hne hl => exact (lines_of_not_mem hl hne).symm
  | line hl _ ih => rw [lines_append hl, ih]

/-- The texts of the lines that are entered: those before the end of the input, a line that is no
text, or one that asks to leave. -/
inductive Heard : List (List UInt8) → List String → Prop
  | nil : Heard [] []
  | noText {l : List UInt8} {ls : List (List UInt8)} : decode? l = none → Heard (l :: ls) []
  | exit {l : List UInt8} {ls : List (List UInt8)} {text : String} : decode? l = some text →
    isExit text = true → Heard (l :: ls) []
  | line {l : List UInt8} {ls : List (List UInt8)} {text : String} {texts : List String} :
    decode? l = some text → isExit text = false → Heard ls texts →
    Heard (l :: ls) (text :: texts)

theorem exists_heard : ∀ ls : List (List UInt8), ∃ texts, Heard ls texts
  | [] => ⟨[], .nil⟩
  | l :: ls => by
    obtain ⟨texts, h⟩ := exists_heard ls
    cases hl : decode? l with
    | none => exact ⟨[], .noText hl⟩
    | some text =>
      cases hexit : isExit text with
      | true => exact ⟨[], .exit hl hexit⟩
      | false => exact ⟨text :: texts, .line hl hexit h⟩

end Console

/-! ### Replies -/

/-- What a line comes to: the bytes that it prints, and its errors. -/
structure Reply where
  out : ByteArray
  reports : List Report

/-- The texts are run one after the other on one machine, each with a new record of errors and as
many steps as it takes. -/
inductive Plays : Machine → List String → List Reply → Prop
  | nil {m : Machine} : Plays m [] []
  | cons {m : Machine} {n : Nat} {text : String} {texts : List String} {t : Session}
      {out : ByteArray} {replies : List Reply} :
    (Session.mk m {}).run n text = some t →
    t.machine.sink.written = m.sink.written ++ out → Plays t.machine texts replies →
    Plays m (text :: texts) (⟨out, t.diagnostics.reports⟩ :: replies)

namespace Reply

/-- The errors as they are shown, each with a line end. -/
def errorText (r : Reply) : String := String.join (r.reports.map fun e => e.text ++ "\n")

/-- One invitation more than there are replies, and after each but the last what the line prints. -/
def transcript : List Reply → ByteArray
  | [] => Console.invitation.toUTF8
  | r :: rs => Console.invitation.toUTF8 ++ r.out ++ transcript rs

end Reply

namespace Console

open Reply

variable {m : Machine}

/-- The console on which bytes and errors were shown. -/
def showing (m : Machine) (written : ByteArray) (errors : String) : Console :=
  ⟨⟨m.after written, {}⟩, errors⟩

theorem put_showing (hm : m.sink.room = none) (written : ByteArray) (errors text : String) :
    (showing m written errors).put text = showing m (written ++ text.toUTF8) errors := by
  simp [showing, put, Machine.after, Sink.after, Sink.push, Sink.free?, hm]

theorem enterLine_eq (c : Console) (steps : Nat) (line : String) : c.enterLine steps .run line =
    (c.session.run steps line).map fun t =>
      ⟨⟨t.machine, {}⟩,
        c.errors ++ (Reply.mk ByteArray.empty t.diagnostics.reports).errorText⟩ := by
  rw [enterLine, enter, Option.map_map, Option.map_map]
  rfl

/-! ### Turns -/

section Turns

variable {l : List UInt8} {ls : List (List UInt8)} {text : String}

theorem converse_nil (steps : Nat) (mode : Mode) (c : Console) :
    converse steps mode [] c = some (c.put invitation) := rfl

/-- The conversation is over at a line that is no text, -/
theorem converse_noText (hl : decode? l = none) (steps : Nat) (mode : Mode) (c : Console) :
    converse steps mode (l :: ls) c = some (c.put invitation) := by
  rw [converse, turn, Option.bind_some, hl]
  rfl

/-- and at a line that asks to leave. -/
theorem converse_exit (hl : decode? l = some text) (hexit : isExit text = true) (steps : Nat)
    (mode : Mode) (c : Console) :
    converse steps mode (l :: ls) c = some (c.put invitation) := by
  rw [converse, turn, Option.bind_some, hl]
  dsimp only
  rw [if_pos hexit]
  rfl

/-- All other lines are entered. -/
theorem converse_entered (hl : decode? l = some text) (hexit : isExit text = false) (steps : Nat)
    (mode : Mode) (c : Console) : converse steps mode (l :: ls) c =
      ((c.put invitation).enterLine steps mode text).bind (converse steps mode ls) := by
  rw [converse, turn, Option.bind_some, hl]
  dsimp only
  rw [if_neg (by simp [hexit])]
  cases (c.put invitation).enterLine steps mode text <;> rfl

end Turns

/-- A line that is entered: it is run as it would be run without the prompt, and what it prints and
its errors are shown. -/
theorem converse_line (steps : Nat) {l : List UInt8} {text : String} (hl : decode? l = some text)
    (hexit : isExit text = false) (hm : m.sink.room = none) :
    ∃ out, (∀ t, (Session.mk m {}).run steps text = some t →
        t.machine.sink = m.sink.after (m.sink.written ++ out)) ∧
      ∀ ls written errors, converse steps .run (l :: ls) (showing m written errors) =
        ((Session.mk m {}).run steps text).bind fun t =>
          converse steps .run ls (showing t.machine (written ++ invitation.toUTF8 ++ out)
            (errors ++ (Reply.mk out t.diagnostics.reports).errorText)) := by
  obtain ⟨out, hout, hsink⟩ := Session.run_after (Session.mk m {}) steps text hm
  refine ⟨out, hsink, fun ls written errors => ?_⟩
  have hrun : ((showing m (written ++ invitation.toUTF8) errors).session).run steps text = _ :=
    hout (written ++ invitation.toUTF8)
  rw [converse_entered hl hexit, put_showing hm, enterLine_eq, hrun]
  cases (Session.mk m {}).run steps text with
  | none => rfl
  | some t => rfl

/-- What was shown at the end of a conversation. -/
structure Shows (written : ByteArray) (errors : String) (replies : List Reply) (c : Console) :
    Prop where
  written : c.session.machine.sink.written = written ++ transcript replies
  errors : c.errors = errors ++ String.join (replies.map errorText)

theorem shows_nil (hm : m.sink.room = none) (written : ByteArray) (errors : String) :
    Shows written errors [] ((showing m written errors).put invitation) := by
  rw [put_showing hm]
  exact ⟨rfl, by simp [showing]⟩

/-- The first reply comes first. -/
theorem Shows.cons {written : ByteArray} {errors : String} {r : Reply} {replies : List Reply}
    {c : Console}
    (h : Shows (written ++ invitation.toUTF8 ++ r.out) (errors ++ r.errorText) replies c) :
    Shows written errors (r :: replies) c := by
  refine ⟨?_, ?_⟩
  · rw [h.written, transcript]
    simp only [ByteArray.append_assoc]
  · rw [h.errors, List.map_cons, String.join_cons, String.append_assoc]

/-- A conversation that ends shows the replies to its lines. -/
theorem plays_of_converse {steps : Nat} {ls : List (List UInt8)} {texts : List String}
    (h : Heard ls texts) :
    ∀ {m : Machine} {written : ByteArray} {errors : String} {c : Console}, m.sink.room = none →
      converse steps .run ls (showing m written errors) = some c →
      ∃ replies, Plays m texts replies ∧ Shows written errors replies c := by
  induction h with
  | nil =>
    intro m written errors c hm hc
    rw [converse_nil] at hc
    cases hc
    exact ⟨[], .nil, shows_nil hm written errors⟩
  | noText hl =>
    intro m written errors c hm hc
    rw [converse_noText hl] at hc
    cases hc
    exact ⟨[], .nil, shows_nil hm written errors⟩
  | exit hl hexit =>
    intro m written errors c hm hc
    rw [converse_exit hl hexit] at hc
    cases hc
    exact ⟨[], .nil, shows_nil hm written errors⟩
  | line hl hexit _ ih =>
    intro m written errors c hm hc
    obtain ⟨out, hsink, hround⟩ := converse_line steps hl hexit hm
    rw [hround] at hc
    obtain ⟨t, ht, hrest⟩ := Option.bind_eq_some_iff.1 hc
    have hroom : t.machine.sink.room = none := by
      rw [hsink t ht]
      exact hm
    obtain ⟨replies, hplays, hshows⟩ := ih hroom hrest
    refine ⟨_, .cons ht ?_ hplays, hshows.cons⟩
    rw [hsink t ht]
    rfl

/-- If all lines can be run, the conversation ends and shows the replies to them. -/
theorem converse_of_plays {ls : List (List UInt8)} {texts : List String} (h : Heard ls texts) :
    ∀ {m : Machine} {replies : List Reply}, m.sink.room = none → Plays m texts replies →
      ∃ n, ∀ steps, n ≤ steps → ∀ written errors,
        ∃ c, converse steps .run ls (showing m written errors) = some c ∧
          Shows written errors replies c := by
  induction h with
  | nil =>
    intro m replies hm hplays
    cases hplays
    exact ⟨0, fun steps _ written errors =>
      ⟨_, converse_nil _ _ _, shows_nil hm written errors⟩⟩
  | noText hl =>
    intro m replies hm hplays
    cases hplays
    exact ⟨0, fun steps _ written errors =>
      ⟨_, converse_noText hl _ _ _, shows_nil hm written errors⟩⟩
  | exit hl hexit =>
    intro m replies hm hplays
    cases hplays
    exact ⟨0, fun steps _ written errors =>
      ⟨_, converse_exit hl hexit _ _ _, shows_nil hm written errors⟩⟩
  | line hl hexit _ ih =>
    intro m replies hm hplays
    obtain _ | @⟨_, n, _, _, t, out, replies, ht, hwritten, hplays⟩ := hplays
    have hroom : t.machine.sink.room = none := by
      obtain ⟨_, -, hsink⟩ := Session.run_after (Session.mk m {}) n _ hm
      rw [hsink t ht]
      exact hm
    obtain ⟨n', hn'⟩ := ih hroom hplays
    refine ⟨max n n', fun steps hsteps written errors => ?_⟩
    -- more steps give the same answer, so there is a number that is enough for all lines
    have ht' := Session.run_of_le (Nat.le_trans (Nat.le_max_left n n') hsteps) ht
    obtain ⟨out', hsink, hround⟩ := converse_line steps hl hexit hm
    have hout : out' = out := by
      rw [hsink t ht'] at hwritten
      exact (ByteArray.append_right_inj m.sink.written).1 hwritten
    subst hout
    obtain ⟨c, hc, hshows⟩ := hn' steps (Nat.le_trans (Nat.le_max_right n n') hsteps)
      (written ++ invitation.toUTF8 ++ out')
      (errors ++ (Reply.mk out' t.diagnostics.reports).errorText)
    refine ⟨c, ?_, hshows.cons⟩
    rw [hround, ht']
    exact hc

end Console

/-- A line that cannot be read prints nothing, and the lines after it are run as if it were not
there. -/
theorem Plays.of_unreadable {m : Machine} {text : String} {texts : List String} {r : Reply}
    {replies : List Reply} (h : Plays m (text :: texts) (r :: replies))
    (hread : (Source.read text).reports ≠ []) :
    r = ⟨ByteArray.empty, (Source.read text).reports⟩ ∧ Plays m texts replies := by
  obtain _ | @⟨_, n, _, _, t, out, _, ht, hwritten, hplays⟩ := h
  rw [Session.run_eq_refused (.inr hread), Option.some.injEq] at ht
  subst ht
  have hout : m.sink.written ++ ByteArray.empty = m.sink.written ++ out := by
    rw [ByteArray.append_empty]
    exact hwritten
  rw [← (ByteArray.append_right_inj m.sink.written).1 hout]
  exact ⟨rfl, hplays⟩

namespace CommandLine

open Console Reply

variable (clock : Nat → Option Float) (input : ByteArray)

/-- What the process leaves behind after a conversation. -/
def promptExit (replies : List Reply) : Exit where
  out := transcript replies
  err := String.join (replies.map errorText)
  status := 0

/-- The input of the prompt is cut into lines, and those before the first that is no text or asks to
leave are entered. If each of them can be run, on one machine that prints nothing else and with a
record of errors of its own, then the process ends, with status 0. It leaves behind what the lines
print, each after an invitation, and one more invitation; and their errors, each with a line end.
Whenever the process ends, the lines could be run and this is what it leaves behind. A line that
cannot be read makes no difference to those after it. -/
theorem prompt_runs_lines_apart :
    (∃ ls texts, Lined input.data.toList ls ∧ Heard ls texts) ∧
    (∀ ls texts, Lined input.data.toList ls → Heard ls texts →
      (∀ replies, Plays (.new {} clock) texts replies → ∃ n, ∀ steps, n ≤ steps →
        runPrompt (.new clock) steps .run input = some (promptExit replies)) ∧
      ∀ steps exit, runPrompt (.new clock) steps .run input = some exit →
        ∃ replies, Plays (.new {} clock) texts replies ∧ exit = promptExit replies) ∧
    ∀ (m : Machine) (text : String) (texts : List String) (r : Reply) (replies : List Reply),
      (Source.read text).reports ≠ [] → Plays m (text :: texts) (r :: replies) →
      r = ⟨ByteArray.empty, (Source.read text).reports⟩ ∧ Plays m texts replies := by
  have hroom : (Machine.new {} clock).sink.room = none := rfl
  have hrun : ∀ steps, runPrompt (.new clock) steps .run input =
      (converse steps .run (lines input.data.toList)
        (showing (.new {} clock) ByteArray.empty "")).map fun c =>
          { out := c.session.machine.sink.written, err := c.errors } := fun _ => rfl
  -- what was shown is what is left behind
  have hexit : ∀ {replies c}, Shows ByteArray.empty "" replies c →
      ({ out := c.session.machine.sink.written, err := c.errors } : Exit) =
        promptExit replies := by
    intro replies c hshows
    rw [hshows.written, hshows.errors, ByteArray.empty_append, String.empty_append]
    rfl
  refine ⟨?_, fun ls texts hlined hheard => ⟨fun replies hplays => ?_, fun steps exit he => ?_⟩,
    fun m text texts r replies hread hplays => hplays.of_unreadable hread⟩
  · obtain ⟨texts, hheard⟩ := exists_heard (lines input.data.toList)
    exact ⟨_, texts, lined_lines _, hheard⟩
  · obtain ⟨n, hn⟩ := converse_of_plays hheard hroom hplays
    refine ⟨n, fun steps hsteps => ?_⟩
    obtain ⟨c, hc, hshows⟩ := hn steps hsteps ByteArray.empty ""
    rw [hrun, ← hlined.eq_lines, hc, Option.map_some, hexit hshows]
  · rw [hrun, ← hlined.eq_lines] at he
    obtain ⟨c, hc, rfl⟩ := Option.map_eq_some_iff.1 he
    obtain ⟨replies, hplays, hshows⟩ := plays_of_converse hheard hroom hc
    exact ⟨replies, hplays, hexit hshows⟩

/-- A line that cannot be read, one that fails after it printed, and one that prints; then one that
leaves, and one that is not entered. -/
def conversation : ByteArray := "@\nprint nil; x;\nprint true;\n exit\nprint 1;\n".toUTF8

theorem prompt_runs_lines_apart_conversation :
    ∃ replies,
      Plays (.new {} fun _ => none) ["@\n", "print nil; x;\n", "print true;\n"] replies ∧
      promptExit replies = ⟨"> > nil\n> true\n> ".toUTF8,
        "[line 1] Error: Unexpected character.\nUndefined variable 'x'.\n[line 1]\n", 0⟩ := by
  obtain ⟨-, hlines, -⟩ := prompt_runs_lines_apart (fun _ => none) conversation
  have hcut : lines conversation.data.toList =
      ["@\n", "print nil; x;\n", "print true;\n", " exit\n", "print 1;\n"].map
        (·.toUTF8.data.toList) := by decide +kernel
  have hheard : Heard (lines conversation.data.toList)
      ["@\n", "print nil; x;\n", "print true;\n"] := by
    rw [hcut]
    exact .line (by decide +kernel) (by decide +kernel) (.line (by decide +kernel)
      (by decide +kernel) (.line (by decide +kernel) (by decide +kernel)
        (.exit (by decide +kernel : decode? " exit\n".toUTF8.data.toList = some " exit\n")
          (by decide +kernel))))
  obtain ⟨-, hends⟩ := hlines _ _ (lined_lines _) hheard
  have heval : (runPrompt (.new fun _ => none) 9 .run conversation).map
      (fun exit => (exit.out.data, exit.err)) = some ("> > nil\n> true\n> ".toUTF8.data,
        "[line 1] Error: Unexpected character.\nUndefined variable 'x'.\n[line 1]\n") := by
    decide +kernel
  obtain ⟨exit, hexit, hshown⟩ := Option.map_eq_some_iff.1 heval
  obtain ⟨replies, hplays, rfl⟩ := hends 9 exit hexit
  obtain ⟨hout, herr⟩ := Prod.mk.inj hshown
  refine ⟨replies, hplays, ?_⟩
  rw [← herr, ← ByteArray.ext hout]
  rfl

end CommandLine

end Lox
