import Http3Framing.Failure.IoKind
import Http3Framing.Failure.Violation
import Http3Framing.Text.Quoted
import Http3Framing.Varint.Basic

/-! What lies behind a failure. A cause may have a cause of its own, and a framing failure can
again be the cause of a transport failure, so the four shapes of a failure stand among the
causes. A transport error that carries another error answers in its place: it shows the text of
the carried error and goes on to the cause of that error, not to the error itself. -/

namespace Http3Framing

inductive Cause
  /-- The marker of a deadline. -/
  | timedOut
  /-- A number above the range of the wire. -/
  | tooLarge (n : Nat)
  | violation (v : Violation)
  | message (text : String)
  /-- A layer of the caller's own, around another cause. -/
  | layer (text : String) (inner : Cause)
  /-- A transport error that is nothing but its kind. -/
  | plain (kind : IoKind)
  /-- The transport took no byte of what was left to write. -/
  | stalled
  /-- A transport error of a kind that carries another error. -/
  | carrier (kind : IoKind) (inner : Cause)
  | frameFailure (v : Violation)
  | streamEnd
  | rangeFailure (n : Nat)
  | transportFailure (inner : Cause)
  deriving DecidableEq

/-- A kind stands for the transport error that is nothing but it. -/
instance : Coe IoKind Cause := ⟨.plain⟩

namespace Cause

/-- The kind of a transport error. Any other error counts as one of no special kind. -/
def kind : Cause → IoKind
  | plain kind => kind
  | stalled => .writeZero
  | carrier kind _ => kind
  | _ => .other

def name (c : Cause) : String := c.kind.name

def describe (heading reason : String) : String := heading ++ ": " ++ reason

/-- The text of a number above the range of the wire. -/
def outOfRange (n : Nat) : String := toString n ++ " exceeds " ++ Varint.largest.display

def display : Cause → String
  | timedOut => "timed out"
  | tooLarge n => outOfRange n
  | violation v => v.display
  | message text => text
  | layer text _ => text
  | plain kind => kind.description
  | stalled => "failed to write whole buffer"
  | carrier _ inner => inner.display
  | frameFailure v => describe "frame protocol error" v.display
  | streamEnd => "end of stream"
  | rangeFailure n => describe "integer too large for varint encoding" (outOfRange n)
  | transportFailure inner => describe "transport error" inner.display

/-- A failure shows its kind, then its cause if it has one. -/
def failureRecord (kind : String) (source : List String) : String :=
  Text.record "h3frame::Error" (("kind", kind) :: source.map fun text => ("source", text))

def debug : Cause → String
  | timedOut => "TimedOut"
  | tooLarge n => Text.applied "TooLarge" (toString n)
  | violation v => v.debug
  | message text => Text.quoted text
  | layer text _ => Text.applied "Wrap" text
  | plain kind => Text.applied "Kind" kind.name
  | stalled =>
    Text.record "Error" [("kind", stalled.name), ("message", Text.quoted stalled.display)]
  | carrier kind inner => Text.record "Custom" [("kind", kind.name), ("error", inner.debug)]
  | frameFailure v => failureRecord "Frame" [v.debug]
  | streamEnd => failureRecord "EndOfStream" []
  | rangeFailure n => failureRecord "IntegerTooLarge" [Text.applied "TooLarge" (toString n)]
  | transportFailure inner => failureRecord "Io" [inner.debug]

/-- The cause directly behind a cause. -/
def source? : Cause → Option Cause
  | layer _ inner => some inner
  | carrier _ inner => inner.source?
  | frameFailure v => some (violation v)
  | rangeFailure n => some (tooLarge n)
  | transportFailure inner => some inner
  | _ => none

/-- All causes behind a cause, the nearest first. -/
def sources : Cause → List Cause
  | layer _ inner => inner :: inner.sources
  | carrier _ inner => inner.sources
  | frameFailure v => [violation v]
  | rangeFailure n => [tooLarge n]
  | transportFailure inner => inner :: inner.sources
  | _ => []

/-- A cause that by itself tells of a deadline: the marker, a transport error of the kind, or
one that directly carries the marker. -/
def marksDeadline : Cause → Bool
  | timedOut => true
  | plain kind => kind = .timedOut
  | carrier kind inner => kind = .timedOut || inner = timedOut
  | _ => false

theorem sources_eq (c : Cause) :
    c.sources = match c.source? with
      | none => []
      | some d => d :: d.sources := by
  induction c with
  | carrier _ inner ih => simpa only [sources, source?] using ih
  | _ => rfl

end Cause

end Http3Framing
