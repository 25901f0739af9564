import Http3Framing.Event
import Http3Framing.Position
import Http3Framing.Stats

/-! A transport read and written in frames. The state holds the transport, the position relative
to the frames, the limits, the counters and the events. An action on it ends with a value or
stops: with a failure, because its caller dropped it, or because the transport claimed to have
stored more than it was offered room for. Here are the two ways a stream becomes poisoned, and
the exchange of one call with the transport. -/

namespace Http3Framing

structure FramedStream where
  transport : Transport
  position : Position := .idle
  limits : Limits := .standard
  stats : Stats := {}
  events : Array Event := #[]
  flavour : Flavour := .blocking
  /-- The patience of the caller of the operation under way. -/
  patience : Patience := none
  deriving DecidableEq

/-- Why an action gave no value. -/
inductive Stop
  | failed (failure : Failure)
  | dropped
  | overrun (claimed room : Nat)
  deriving DecidableEq

/-- An action on a stream: what it did stays done even when it stops. -/
abbrev FramingM := EStateM Stop FramedStream

namespace FramedStream

instance : Inhabited FramedStream := ⟨{ transport := {} }⟩

/-- Only the first failure poisons a stream. -/
def poisonedBy (s : FramedStream) (f : Failure) : FramedStream :=
  if s.position.isPoisoned then s
  else { s with position := .poisoned, events := s.events.push (.poisoned f) }

def remaining? (s : FramedStream) : Option Nat := s.position.remaining?

def isPoisoned (s : FramedStream) : Bool := s.position.isPoisoned

/-- The stream as a record; the transport stands as `T`. -/
def debug (s : FramedStream) : String :=
  Text.record s.flavour.streamName [("stream", "T"), ("limit", s.position.debug),
    ("config", s.limits.debug), ("stats", s.stats.debug)]

end FramedStream

namespace FramingM

variable {α : Type}

/-- Fails and leaves the stream as it is. -/
def fail (f : Failure) : FramingM α := throw (.failed f)

/-- Fails and poisons the stream. -/
def poison (f : Failure) : FramingM α := fun s => .error (.failed f) (s.poisonedBy f)

/-- An answer of the position; a breach is a failure that leaves the stream as it is. -/
def ask (question : Position → Except Violation α) : FramingM α := fun s =>
  match question s.position with
  | .ok a => .ok a s
  | .error v => .error (.failed (.frame v)) s

/-- Counts `n` bytes against the open frame; crossing its end poisons the stream. -/
def consume (n : Nat) : FramingM Unit := fun s =>
  match s.position.consume n with
  | .ok position => .ok () { s with position }
  | .error v => poison (.frame v) s

/-- The transport is at its end: between frames the stream has ended, inside a frame it is cut
short. `counted` bytes of the read that met the end are already counted. -/
def ended (counted : Nat) : FramingM α := fun s =>
  match s.position.cutShort? counted with
  | some v => poison (.frame v) s
  | none => fail .endOfStream s

def emit (e : Event) : FramingM Unit := fun s =>
  .ok () { s with events := s.events.push e }

def count (f : Stats → Stats) : FramingM Unit := fun s =>
  .ok () { s with stats := f s.stats }

/-- One exchange with the transport. After a failure its state is unknown, so the stream is
poisoned. -/
def exchange (talk : Patience → Transport → Transport.Outcome α) : FramingM α := fun s =>
  let o := talk s.patience s.transport
  let s := { s with transport := o.transport, patience := o.patience }
  match o.answer with
  | .done a => .ok a s
  | .failed cause =>
    poison (.transport cause) { s with events := s.events.push (.transportFailed cause) }
  | .dropped => .error .dropped s

/-- The end of the stream met by `x` breaks the rule `v`. -/
def endBreaks (v : Violation) (x : FramingM α) : FramingM α := fun s =>
  match x s with
  | .error (.failed .endOfStream) s => poison (.frame v) s
  | r => r

/-- What `x` ends with, as a value. -/
def attempt (x : FramingM α) : FramingM (Except Stop α) := fun s =>
  match x s with
  | .ok a s => .ok (.ok a) s
  | .error stop s => .ok (.error stop) s

end FramingM

end Http3Framing
