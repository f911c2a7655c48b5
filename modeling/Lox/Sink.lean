/-!
Where a program prints to. A sink keeps the bytes that it was given, in order; it may have room
for a limited number of bytes only, and it may refuse to be flushed.
-/

namespace Lox

/-- Why a sink refuses. -/
inductive SinkFailure where
  | full
  | flush
  deriving DecidableEq, Repr

namespace SinkFailure

/-- What a sink says when it refuses. -/
def message : SinkFailure → String
  | full => "sink full"
  | flush => "flush failed"

end SinkFailure

/-- The bytes written so far, the number of bytes that fit in total (no limit if absent), and
whether a flush fails. -/
structure Sink where
  written : ByteArray := ByteArray.empty
  room : Option Nat := none
  flushFails : Bool := false

namespace Sink

/-- The number of bytes that still fit, if there is a limit. -/
def free? (sink : Sink) : Option Nat := sink.room.map (· - sink.written.size)

/-- Whether a text fits as a whole. An empty text always does. -/
def accepts (sink : Sink) (text : String) : Bool :=
  match sink.free? with
  | none => true
  | some free => text.utf8ByteSize ≤ free

/-- Takes the bytes of a text that fit. -/
def push (sink : Sink) (text : String) : Sink :=
  match sink.free? with
  | none => { sink with written := sink.written ++ text.toUTF8 }
  | some free => { sink with written := sink.written ++ text.toUTF8.extract 0 free }

/-- Passes on what was written; the bytes stay. -/
def flush (sink : Sink) : Option SinkFailure := if sink.flushFails then some .flush else none

end Sink

end Lox
